import SatoshiNet.Dkvs.Reference
import SatoshiNet.Dkvs.Replace

/-!
The store as a state machine over its write operations, and the hash index in every state that it
reaches.

Each operation is one attempt of the source's function; a function that tries again is several of
them.  An attempt that stops with an error leaves the state it stopped in.
-/

namespace SatoshiNet.Dkvs

open Lib Std Action

variable {H : Type} [Ord H]

inductive Operation (H : Type) [Ord H]
  | put (env : PutEnv H) (record : Record) (remote : Bool)
  | batchCAS (env : BatchEnv H) (mutations : Mutations H)
  | applyRecordSet (env : RecordSetEnv H) (records : Records)
      (replace : Option (List SyncRange)) (checkRoot authoritative rejectFreeLocal : Bool)
  | applyPathSnapshot (env : SnapshotEnv) (snapshot : PathSnapshot) (baseline : Option ActiveMeta)
  | deleteMirrorKeys (clock : Clock) (flushed : DkvsM Unit) (keys : List Text)
  | pruneExpired (clock : Clock) (flushed : DkvsM Unit) (popped : List Text)
      (height : ℕ)
  | pruneExpiredAutopay (seen : Store H) (clock lockClock : Clock) (validators : Validators)
      (policyGeneration graceBlocks : ℕ) (flushed : DkvsM Unit) (height : ℕ)
  | ensurePathMeta (tip : Option ℕ) (path : Text) (height : ℕ)
  /-- What the node writes from elsewhere: name transfers and the payments it has verified. -/
  | outside (nameTransfers : Finset Text) (retentions : RetentionCache)

variable [TransOrd H] [DecidableEq H]

def Operation.apply (lib : RecordLib H) (s : Store H) : Operation H → Store H
  | put env record remote => ((putAttempt lib env record remote).exec s).2
  | batchCAS env mutations => ((batchAttempt lib env mutations).exec s).2
  | applyRecordSet env records replace checkRoot authoritative rejectFreeLocal =>
    ((applyRecordSetAttempt lib env records replace checkRoot authoritative
      rejectFreeLocal).exec s).2
  | applyPathSnapshot env snapshot baseline =>
    ((applyCurrentPathSnapshot lib env snapshot baseline).exec s).2
  | deleteMirrorKeys clock flushed keys =>
    ((Dkvs.deleteMirrorKeys lib clock flushed keys).exec s).2
  | pruneExpired clock flushed popped height =>
    ((pruneExpiredAt lib clock flushed popped height).exec s).2
  | pruneExpiredAutopay seen clock lockClock validators policyGeneration graceBlocks flushed
      height =>
    ((pruneExpiredAutopayAt lib seen clock lockClock validators policyGeneration graceBlocks
      flushed height).exec s).2
  | ensurePathMeta tip path height => ((ensurePathMetaLocked lib tip path height).exec s).2
  | outside nameTransfers retentions =>
    { s with nameTransfers := nameTransfers, retentions := retentions }

def run (lib : RecordLib H) (ops : List (Operation H)) : Store H :=
  ops.foldl (Operation.apply lib) (.empty H)

variable [LawfulEqOrd H] {lib : RecordLib H}

theorem Operation.mirrored_apply (hlib : CollisionFree lib) {s : Store H} (hs : Mirrored lib s)
    (op : Operation H) : Mirrored lib (op.apply lib s) := by
  cases op with
  | put env record remote => exact (keeps_putAttempt hlib env record remote).exec hs
  | batchCAS env mutations => exact (keeps_batchAttempt hlib env mutations).exec hs
  | applyRecordSet env records replace checkRoot authoritative rejectFreeLocal =>
    exact (keeps_applyRecordSetAttempt hlib env records replace _ _ _).exec hs
  | applyPathSnapshot env snapshot baseline =>
    exact (keeps_applyCurrentPathSnapshot hlib env snapshot baseline).exec hs
  | deleteMirrorKeys clock flushed keys =>
    exact (keeps_deleteMirrorKeys hlib clock flushed keys).exec hs
  | pruneExpired clock flushed popped height =>
    exact (keeps_pruneExpiredAt hlib clock flushed popped height).exec hs
  | pruneExpiredAutopay seen clock lockClock validators policyGeneration graceBlocks flushed
      height =>
    exact (keeps_pruneExpiredAutopayAt hlib seen clock lockClock validators _ _ flushed height).exec
      hs
  | ensurePathMeta tip path height =>
    refine Keeps.exec (fun t ht => ?_) hs
    exact wp_mono (wp_ensurePathMetaLocked lib tip path height t) (fun _ _ h => h.mirrored ht)
      fun _ _ h => h.mirrored ht
  | outside nameTransfers retentions => exact hs

theorem mirrored_run (hlib : CollisionFree lib) (ops) : Mirrored lib (run lib ops) := by
  refine List.foldlRecOn (motive := Mirrored lib) ops _
    ⟨fun {key record} h => ?_, fun hash key => ?_⟩ fun _ hs op _ => op.mirrored_apply hlib hs
  · simp [Store.empty] at h
  · simp [Store.empty]

/-- In every state that the store reaches, the hash index maps exactly the hashes of the stored
records to their keys, and a key has one stored record. -/
theorem hashIndex_mirrors_records (hlib : CollisionFree lib) (ops : List (Operation H)) :
    (∀ (hash : H) (key : Text), (run lib ops).hashes[hash]? = some key ↔
      ∃ record : Record, (run lib ops).records[key]? = some record ∧ lib.recordHash record = hash) ∧
    ∀ (key : Text) (record : Record), (run lib ops).records[key]? = some record →
      record.key = key :=
  ⟨(mirrored_run hlib ops).entry, fun _ _ h => (mirrored_run hlib ops).keyed h⟩

namespace Reference

def putEnv (seen : Store (List ℕ)) (height : ℕ) : PutEnv (List ℕ) where
  seen := seen
  clock := ⟨height, none⟩
  validators := validators
  prepareFeeCapacity := .ok ()
  lockClock := ⟨height, none⟩
  policyGeneration := 0
  validateQuota := .ok ()
  validatePreparedFeeCapacity := .ok ()
  validateFreeLocalCapacity := .ok ()
  flushed := .ok ()
  replaceFreeLocalUsage := .ok ()

def puts (records : List (ℕ × Record)) : List (Operation (List ℕ)) :=
  records.foldl (fun ops entry =>
    ops ++ [.put (putEnv (run recordLib ops) entry.1) entry.2 false]) []

end Reference

open Reference in
theorem hashIndex_mirrors_replacement :
    (run recordLib (puts [(5, record "/svc/a/x" 1 5 0), (6, record "/svc/a/x" 2 6 0)])).records.toList
      = [("/svc/a/x".toList, record "/svc/a/x" 2 6 0)] ∧
    let s := run recordLib (puts [(5, record "/svc/a/x" 1 5 0), (6, record "/svc/a/x" 2 6 0)])
    (∀ (hash : List ℕ) (key : Text), s.hashes[hash]? = some key ↔
      ∃ record : Record, s.records[key]? = some record ∧ recordLib.recordHash record = hash) ∧
    ∀ (key : Text) (record : Record), s.records[key]? = some record → record.key = key :=
  ⟨by decide +kernel, hashIndex_mirrors_records collisionFree_recordLib _⟩

end SatoshiNet.Dkvs
