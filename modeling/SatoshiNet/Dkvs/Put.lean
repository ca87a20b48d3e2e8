import SatoshiNet.Dkvs.Store

/-!
Single record writes: `put` of `indexer.go`, `commitDeleteLocked` and `DeleteMirrorKeys` of
`delete.go`, and the contract check of `contract.go`.

One attempt is modelled at a time: `seen` is the store its unlocked reads saw, which other writers
may have changed before it takes the lock.  Verdicts that rest on the in-memory usage counters are
answers of the environment.
-/

namespace SatoshiNet.Dkvs

open Lib Std

structure Clock where
  height : ℕ
  tip : Option ℕ

def Clock.issueHeightTip (clock : Clock) : ℕ := clock.tip.getD clock.height

variable {H : Type} [Ord H] [TransOrd H] [DecidableEq H] (lib : RecordLib H)

def check {α : Type} (x : DkvsM α) : StoreM H α := .ofExcept .fail x

def retryOnConcurrentUpdate (e : DkvsError) : Halt :=
  if e = .concurrentUpdate then .retry else .fail e

def unsignedTombstone (key : Text) : Record :=
  { version := 0, key, value := [], pubKey := [], signature := [], seq := 0, issueHeight := 0,
    ttl := 0, feeProof := [], flags := 1 }

def deletion (parsed : ParsedKey) (record : Record) (command : Option Record) :
    PreparedCASMutation H where
  mutation := ⟨command.getD (unsignedTombstone record.key), ⟨none, false⟩⟩
  parsed := parsed
  snapshot := ⟨some record, false, 0⟩
  forceReplace := false
  retention := none
  applied := false

def commitDeleteLocked (tip : Option ℕ) (flushed : DkvsM Unit) (parsed : ParsedKey)
    (record : Record) (command : Option Record) (clearNameTransfer : Bool) (height : ℕ) :
    StoreM H H := do
  .refuse (isEVMSourceKey parsed || isAuthorityContractKey parsed) (.fail .permissionDenied)
  .refuse (command.any fun command => !lib.deleteTargetsRecord command (some record))
    (.fail .writeConflict)
  let metas ← projectPathMetasLocked lib tip [deletion parsed record command] height
  let m := metas.find? (·.path = collectionPath parsed)
  let s ← get
  let clear ← check (m.elim (.ok []) fun m => clearChangedRecordBatch s m.path record.key)
  check flushed
  set { flush s (erasing lib record ++ clear ++
      m.toList.map (.putPathStatus ·.path false) ++
      (if clearNameTransfer && parsed.ns == .name && parsed.segments.length == 1 then
        [.deleteNameTransfer (parsed.segments.headD [])] else []) ++
      m.toList.map .putPathMeta) with
    retentions := s.retentions.erase record.key }
  return lib.recordHash (command.getD record)

def forgetRetentions (cache : RetentionCache) (records : Records) : RetentionCache :=
  records.foldl (fun (cache : RetentionCache) (record : Record) => cache.erase record.key) cache

def isAuthorityKey (key : Text) : Bool := (parseKey key).toOption.any isAuthorityContractKey

def contractIncoming (s : Store H) (incoming : ExtTreeMap Text Record) (record : Record) :
    DkvsM (ExtTreeMap Text Record) :=
  if isAuthorityKey record.key then do
    require ((incoming[record.key]?).all (fun (old : Record) => old.value == record.value))
      .writeConflict
    require ((s.records[record.key]?).all (fun (old : Record) => old.value == record.value))
      .writeConflict
    return incoming.insert record.key record
  else .ok incoming

/-- Authority contract values never change, and a replacement keeps every one of them. -/
def validateContractIncomingLocked (s : Store H) (records : Records)
    (replacedKeys : List Text) : DkvsM Unit := do
  let incoming ← records.foldlM (contractIncoming s) ∅
  require (replacedKeys.all fun key => !isAuthorityKey key || incoming[key]?.isSome) .writeConflict

/-- What one attempt of `put` meets: the store its unlocked reads saw, the clock before and under
the lock, and the verdicts that are not functions of the record table. -/
structure PutEnv (H : Type) [Ord H] where
  seen : Store H
  clock : Clock
  validators : Validators
  prepareFeeCapacity : DkvsM Unit
  lockClock : Clock
  policyGeneration : ℕ
  (validateQuota validatePreparedFeeCapacity validateFreeLocalCapacity : DkvsM Unit)
  (flushed replaceFreeLocalUsage : DkvsM Unit)

structure PutResult (H : Type) where
  updated : Bool
  hash : H

def verifiedRetention (validators : Validators) (record : Record) (parsed : ParsedKey)
    (height : ℕ) : DkvsM (Option PaidRecordRetention) := do
  lib.verifyFeeProofWith validators.feeVerifier record parsed
  lib.verifiedPaidRetentionAfterFeeVerification record parsed validators.feeVerifier height

def validateStatefulLocked (s : Store H) (quota : DkvsM Unit) (record : Record)
    (parsed : ParsedKey) : DkvsM Unit :=
  if isAuthorityContractKey parsed then validateContractIncomingLocked s [record] []
  else
    match parsed.ns with
    | .mail | .blob | .tmp => quota
    | _ => .ok ()

section

variable (env : PutEnv H) (record : Record) (parsed : ParsedKey) (snapshot : WriteStateSnapshot)
  (retention : Option PaidRecordRetention)

def putTombstoneLocked : StoreM H (PutResult H) :=
  match snapshot.existing with
  | none => return ⟨false, lib.recordHash record⟩
  | some stored => do
    .refuse (!lib.deleteTargetsRecord record (some stored)) (.fail .writeConflict)
    let hash ← commitDeleteLocked lib env.lockClock.tip env.flushed parsed stored (some record)
      (snapshot.requiresResolve && parsed.ns == .name) env.clock.height
    let s ← get
    set { s with generation := s.generation + 1 }
    return ⟨true, hash⟩

def putRecordLocked : StoreM H (PutResult H) := do
  let height := env.clock.height
  .ofExcept retryOnConcurrentUpdate env.validatePreparedFeeCapacity
  check env.validateFreeLocalCapacity
  let s ← get
  let visible := retention.isSome || lib.networkPathRecordVisible s.retentions record height
  let m ← pathMetaForMutationLocked lib env.lockClock.tip parsed snapshot.existing record visible
    height
  check (lib.marshalRecord record)
  let s ← get
  let hash := lib.recordHash record
  let mark ← check (m.elim (.ok []) fun m =>
    markChangedRecordBatch s m.path record.key m.endpointGeneration)
  check env.flushed
  let replaced := snapshot.existing.toList.filter fun stored => lib.recordHash stored != hash
  let s := flush s ([.putRecord record] ++ replaced.map (.deleteHash <| lib.recordHash ·) ++
    [.putHash hash record.key] ++
    (if snapshot.requiresResolve && parsed.ns == .name then
      [.deleteNameTransfer (parsed.segments.headD [])] else []) ++
    m.toList.map .putPathMeta ++ mark)
  set { s with generation := s.generation + 1 }
  check env.replaceFreeLocalUsage
  set { s with
    generation := s.generation + 1
    retentions := retention.elim s.retentions (s.retentions.insert record.key ·) }
  return ⟨true, hash⟩

def supersedes (tip : Option ℕ) (existing : Option Record) (record : Record)
    (forceReplace : Bool) (height : ℕ) : Bool :=
  !forceReplace && existing.any fun stored =>
    lib.recordActive tip stored height && (lib.compareRecords stored record).isGE

def putSuperseded (stored : Record) : StoreM H (PutResult H) := do
  let s ← get
  let same := lib.recordHash stored == lib.recordHash record
  set { s with
    retentions := if same then retention.elim s.retentions (s.retentions.insert record.key ·)
      else s.retentions
    nameTransfers := if snapshot.requiresResolve && parsed.ns == Namespace.name then
      s.nameTransfers.erase (parsed.segments.headD []) else s.nameTransfers }
  return ⟨false, lib.recordHash stored⟩

def putAttempt (remote : Bool) : StoreM H (PutResult H) := do
  let height := env.clock.height
  let parsed ← check (lib.validateCoreWithVerifier env.clock.tip record height remote)
  let snapshot := readWriteStateSnapshot env.seen record.key parsed env.validators
  .refuse (lib.isFreeLocalRecord record && snapshot.existing.any (!lib.isFreeLocalRecord ·))
    (.fail .storageModeDowngrade)
  let deleting := isTombstone record.flags
  let retention ← check
    (if deleting then .ok none else verifiedRetention lib env.validators record parsed height)
  .refuse (remote && lib.isFreeLocalRecord record) (.fail .freeLocalNotRelayable)
  let forceReplace ← check
    (lib.validateWritePermissionWith parsed record snapshot.existing env.validators)
  .ofExcept retryOnConcurrentUpdate (if deleting then .ok () else env.prepareFeeCapacity)
  -- From here on the lock is held.
  let s ← get
  .refuse (!writeStateStillCurrentLocked lib s record.key parsed env.policyGeneration snapshot ||
    env.lockClock.height != height) .retry
  .refuse (remote && deleting && (snapshot.existing.any lib.isEndpointCacheRecord ||
    lib.isEndpointCacheRecord record || parsed.ns == .mail || pathLocalOnly parsed))
    (.fail .freeLocalNotRelayable)
  if deleting then putTombstoneLocked lib env record parsed snapshot
  else
    check (validateStatefulLocked s env.validateQuota record parsed)
    match snapshot.existing with
    | some stored =>
      if supersedes lib env.lockClock.tip (some stored) record forceReplace height then
        putSuperseded lib record parsed snapshot retention stored
      else putRecordLocked lib env record parsed snapshot retention
    | none => putRecordLocked lib env record parsed snapshot retention

end

variable (s : Store H) (tip : Option ℕ) (clock : Clock) (flushed : DkvsM Unit) (records : Records)

def deleteMirrorKey (key : Text) : StoreM H Unit := do
  let _ ← check (parseKey key)
  let s ← get
  match s.records[key]? with
  | none => return ()
  | some record =>
    let parsed ← check (parseKey record.key)
    let _ ← commitDeleteLocked lib clock.tip flushed parsed record none false clock.height
    let s ← get
    set { s with generation := s.generation + 1 }

def deleteMirrorKeys (keys : List Text) : StoreM H Unit :=
  keys.foldlM (fun _ key => deleteMirrorKey lib clock flushed key) ()

/-! ### Removal of expired records

From `expiry_commit.go`, `PruneExpiredAt` of `indexer.go` and `PruneExpiredAutopayAt` of
`paid_retention.go`. -/

def stageExpiredRecord (record : Record) : DkvsM (Batch H × Option (Text × Bool)) := do
  let parsed ← parseKey record.key
  let path := collectionPath parsed
  let removal := erasing lib record
  if path == [] || pathLocalOnly parsed then return (removal, none)
  else
    let clear ← clearChangedRecordBatch s path record.key
    return (removal ++ clear, some (path, !lib.isEndpointCacheRecord record))

def stageExpiredPath (height : ℕ) (canonical : Bool) (path : Text) : DkvsM (Batch H) := do
  let m := s.computePathMetaViewLocked lib tip path height
  require (m.endpointGeneration != maxUint64 && !(canonical && m.generation == maxUint64))
    .staleGeneration
  return [.putPathMeta { m with
      endpointGeneration := m.endpointGeneration + 1
      generation := if canonical then m.generation + 1 else m.generation },
    .putPathStatus path false]

def stageExpiredRecordsLocked (height : ℕ) : DkvsM (Batch H) := do
  let staged ← records.mapM (stageExpiredRecord lib s)
  let touched := staged.filterMap Prod.snd
  let metas ← ((touched.map Prod.fst).dedup).mapM fun path =>
    stageExpiredPath lib s tip height (touched.any fun t => t.1 == path && t.2) path
  return (staged.map Prod.fst).flatten ++ metas.flatten

def commitExpired (height : ℕ) : StoreM H ℕ := do
  let s ← get
  if records.isEmpty then return 0
  else
    let batch ← check (stageExpiredRecordsLocked lib s tip records height)
    check flushed
    set { flush s batch with
      generation := s.generation + 1
      retentions := forgetRetentions s.retentions records }
    return records.length

/-- `PruneExpiredAt`; `popped` are the keys that the expiry heap gives up at the height. -/
def pruneExpiredAt (popped : List Text) (height : ℕ) : StoreM H ℕ := do
  let s ← get
  let expired := (popped.filterMap (s.records[·]?)).filter fun record =>
    isExpired record height && !isTombstone record.flags
  commitExpired lib clock.tip flushed expired height

/-- `PruneExpiredAutopayAt`: records whose payer has stopped paying for longer than the grace
period.  `seen` is the store that the candidates were chosen from. -/
def pruneExpiredAutopayAt (seen : Store H) (clock lockClock : Clock) (validators : Validators)
    (policyGeneration graceBlocks : ℕ) (flushed : DkvsM Unit) (height : ℕ) : StoreM H ℕ := do
  match validators.feeVerifier.bind (·.paidRecordRetention) with
  | none => return 0
  | some paidRecordRetention =>
    let candidates := (seen.scan []).filter fun record =>
      lib.isAutopayRecord record && !isTombstone record.flags &&
        (parseKey record.key).toOption.any fun parsed =>
          (paidRecordRetention record parsed).toOption.any
            (paidRetentionExpired · height graceBlocks)
    if candidates.isEmpty then return 0
    else
      .refuse (lockClock.height != clock.height || policyGeneration != validators.policyGeneration)
        (.fail .concurrentUpdate)
      let s ← get
      let removed := candidates.filterMap fun item =>
        (s.records[item.key]?).filter (lib.recordHash · == lib.recordHash item)
      commitExpired lib lockClock.tip flushed removed height

end SatoshiNet.Dkvs
