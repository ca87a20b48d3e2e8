import SatoshiNet.Dkvs.PathView
import SatoshiNet.Dkvs.Reference
import SatoshiNet.Lib.Run

/-!
Realtime delivery of one record: `AcceptCurrentRecord` of `active_network.go` and the contract check
of `validateBatchStateLocked`.

One attempt is modelled at a time; `seen` is the store that its unlocked read saw.  The verdicts of
the mailbox, free-local and fee projections are answers of the environment.
-/

namespace SatoshiNet.Dkvs

open Lib Std

section Accept

variable {H : Type} [Ord H] [TransOrd H] [DecidableEq H] (lib : RecordLib H)

structure AcceptEnv (H : Type) [Ord H] where
  seen : Store H
  clock : Clock
  validators : Validators
  prepareFeeCapacity : DkvsM Unit
  lockClock : Clock
  policyGeneration : ℕ
  (validateProjected flushed : DkvsM Unit)

omit [Ord H] [TransOrd H] [DecidableEq H] in
def RecordLib.replicatesToNetwork (parsed : ParsedKey) (record : Record) : Bool :=
  networkNamespace parsed.ns && !lib.isFreeLocalRecord record

omit [TransOrd H] [DecidableEq H] in
/-- The contract check comes before the projections, whose verdict is given. -/
def validateBatchStateLocked (s : Store H) (projected : DkvsM Unit)
    (ready : Prepared H) : DkvsM Unit := do
  let contracts := (ready.filter (isAuthorityContractKey ·.parsed)).map (·.mutation.record)
  checkWhen (!contracts.isEmpty) (validateContractIncomingLocked s contracts [])
  projected

omit [Ord H] [TransOrd H] [DecidableEq H] in
/-- The records that the order of notifications is about: active, and not this node's own cache. -/
def RecordLib.activeNetwork (clock : Clock) (record : Record) : Bool :=
  lib.recordActive clock.tip record clock.height && !lib.isEndpointCacheRecord record

omit [Ord H] [TransOrd H] in
/-- Whether the delivery is to be committed, by the order of realtime notifications of its key. -/
def deliveryOrder (clock : Clock) (existing : Option Record) (record : Record) : DkvsM Bool :=
  if isTombstone record.flags then
    match existing with
    | none => .ok false
    | some stored =>
      if lib.isEndpointCacheRecord stored || !lib.deleteTargetsRecord record existing then
        .error .writeConflict
      else .ok true
  else
    match existing.filter (lib.activeNetwork clock) with
    -- A later record of a key that is unknown here means that part of its life was missed.
    | none => if record.seq = 1 then .ok true else .error .pathDiverged
    | some stored =>
      if record.seq < stored.seq then .ok false
      else if record.seq = stored.seq then .error .pathDiverged
      else .ok true

variable (env : AcceptEnv H)

def acceptRetention (record : Record) (parsed : ParsedKey) : DkvsM (Option PaidRecordRetention) :=
  if isTombstone record.flags then (lib.deleteTargetHash record).map fun _ => none
  else verifiedRetention lib env.validators record parsed env.clock.height

/-- The part of an attempt under the lock, from the point where the slot is known to be as read. -/
def acceptLocked (item : PreparedCASMutation H) : StoreM H Bool := do
  let record := item.mutation.record
  let existing := item.snapshot.existing
  let height := env.clock.height
  if existing.any (lib.recordHash · == lib.recordHash record) then return false
  else
    .refuse (env.lockClock.height != height && (!isTombstone record.flags || existing.isSome)) .retry
    let newer ← check (deliveryOrder lib ⟨height, env.lockClock.tip⟩ existing record)
    if newer then
      let s ← get
      check (validateBatchStateLocked s env.validateProjected [item])
      let _ ← commitReadyLocked lib env.lockClock.tip env.flushed .fail [item] height
      return true
    else return false

def acceptAttempt (record : Record) : StoreM H Bool := do
  let parsed ← check
    (lib.validateCoreWithVerifier env.clock.tip record env.clock.height false)
  .refuse (!lib.replicatesToNetwork parsed record || lib.isEndpointCacheRecord record)
    (.fail .freeLocalNotRelayable)
  let snapshot := readWriteStateSnapshot env.seen record.key parsed env.validators
  let forceReplace ← check
    (lib.validateWritePermissionWith parsed record snapshot.existing env.validators)
  let retention ← check (acceptRetention lib env record parsed)
  .ofExcept retryOnConcurrentUpdate
    (if isTombstone record.flags then .ok () else env.prepareFeeCapacity)
  -- From here on the lock is held.
  let s ← get
  .refuse (!writeStateStillCurrentLocked lib s record.key parsed env.policyGeneration snapshot ||
    env.policyGeneration != env.validators.policyGeneration) .retry
  acceptLocked lib env ⟨⟨record, ⟨none, false⟩⟩, parsed, snapshot, forceReplace, retention, false⟩

/-- `AcceptCurrentRecord`, with one environment for each attempt; the source makes three. -/
def acceptCurrentRecord (record : Record) :
    List (AcceptEnv H) → Store H → DkvsM Bool × Store H
  | [], s => (.error .concurrentUpdate, s)
  | env :: rest, s =>
    match (acceptAttempt lib env record).exec s with
    | (.error .retry, t) => acceptCurrentRecord record rest t
    | (.error (.fail e), t) => (.error e, t)
    | (.ok updated, t) => (.ok updated, t)

end Accept

open Function Action Option

/-- Time went on from one clock to the other.  Without a source for the tip, height zero stands for
an unknown height, at which issue heights are not checked, and no clock leaves it. -/
def Clock.Advances (c c' : Clock) : Prop :=
  c.height ≤ c'.height ∧ match c.tip, c'.tip with
    | some tip, some tip' => tip ≤ tip'
    | none, none => c.height = 0 → c'.height = 0
    | _, _ => False

instance (c c' : Clock) : Decidable (c.Advances c') := by
  unfold Clock.Advances
  split <;> infer_instance

theorem Clock.Advances.issuedBy {c c' : Clock} (h : c.Advances c') {record : Record}
    (hissued : RecordLib.issuedBy c.tip record c.height = true) :
    RecordLib.issuedBy c'.tip record c'.height = true := by
  obtain ⟨hheight, htip⟩ := h
  obtain ⟨height, tip⟩ := c
  obtain ⟨height', tip'⟩ := c'
  cases tip <;> cases tip' <;>
    simp_all only [RecordLib.issuedBy, Bool.or_eq_true, beq_iff_eq, decide_eq_true_eq]
  · obtain rfl | hissued := hissued
    · exact .inl (htip rfl)
    · exact .inr (hissued.trans hheight)
  · exact hissued.trans htip

variable {H : Type} [Ord H] {lib : RecordLib H}

omit [Ord H] in
theorem activeNetwork_advance {c c' : Clock} (h : c.Advances c') {record : Record}
    (hactive : lib.activeNetwork c record = true) (hexp : isExpired record c'.height = false) :
    lib.activeNetwork c' record = true := by
  simp only [RecordLib.activeNetwork, recordActive_eq, Bool.and_eq_true, Bool.not_eq_true']
    at hactive ⊢
  obtain ⟨⟨⟨hissued, hformed⟩, -⟩, hcache⟩ := hactive
  exact ⟨⟨⟨h.issuedBy hissued, hformed⟩, hexp⟩, hcache⟩

/-- What a delivery does to the slot of its key when it is taken. -/
inductive Effect (lib : RecordLib H) (clock : Clock) (record : Record) :
    Option Record → Option Record → Prop
  | created {old : Option Record} (hold : old.any (lib.activeNetwork clock) = false)
      (hseq : record.seq = 1) : Effect lib clock record old (some record)
  | advanced {stored : Record} (hold : lib.activeNetwork clock stored = true)
      (hseq : stored.seq < record.seq) : Effect lib clock record (some stored) (some record)
  | removed {stored : Record} (hold : lib.isEndpointCacheRecord stored = false)
      (htarget : lib.deleteTargetHash record = .ok (lib.recordHash stored)) :
      Effect lib clock record (some stored) none

variable {clock : Clock} {env : AcceptEnv H} {s t : Store H}

omit [Ord H] in
theorem Effect.of_active {record stored} {new} (h : Effect lib clock record (some stored) new)
    (hlive : isTombstone record.flags = false) (hactive : lib.activeNetwork clock stored = true) :
    new = some record ∧ stored.seq < record.seq := by
  cases h with
  | created hold hseq =>
    rw [any_some, hactive] at hold
    cases hold
  | advanced hold hseq => exact ⟨rfl, hseq⟩
  | removed hold htarget =>
    rw [RecordLib.deleteTargetHash, if_neg (by simp [hlive])] at htarget
    cases htarget

variable [DecidableEq H] {item : PreparedCASMutation H}

omit [Ord H] in
theorem deliveryOrder_effect
    (h : deliveryOrder lib clock item.snapshot.existing item.mutation.record = .ok true) :
    Effect lib clock item.mutation.record item.snapshot.existing item.mutation.result := by
  unfold deliveryOrder at h
  rw [CASMutation.result]
  by_cases htomb : isTombstone item.mutation.record.flags = true
  · rw [if_pos htomb] at h ⊢
    cases hold : item.snapshot.existing with
    | none =>
      rw [hold] at h
      cases h
    | some stored =>
      simp only [hold] at h
      split_ifs at h with hrefuse
      simp only [Bool.or_eq_true, Bool.not_eq_true', not_or, Bool.not_eq_true,
        Bool.not_eq_false] at hrefuse
      obtain ⟨hcache, htarget⟩ := hrefuse
      simp only [RecordLib.deleteTargetsRecord, any_some, Bool.and_eq_true, beq_iff_eq] at htarget
      exact .removed hcache (eq_ok_of_toOption htarget.1.1)
  · rw [if_neg htomb] at h ⊢
    cases hold : item.snapshot.existing.filter (lib.activeNetwork clock) with
    | none =>
      simp only [hold] at h
      split_ifs at h with hseq
      refine .created ?_ hseq
      rw [← Bool.not_eq_true, any_eq_true]
      rintro ⟨stored, hstored, hactive⟩
      exact filter_eq_none_iff.mp hold stored hstored hactive
    | some stored =>
      obtain ⟨hstored, hactive⟩ := filter_eq_some_iff.mp hold
      simp only [hold] at h
      split_ifs at h with hless heq
      · cases h
      · rw [hstored]
        exact .advanced hactive (by omega)

variable [TransOrd H] [LawfulEqOrd H]

structure Taken (lib : RecordLib H) (env : AcceptEnv H) (record : Record) (s t : Store H) :
    Prop where
  mirrored : Mirrored lib s → Mirrored lib t
  effect : Effect lib env.lockClock record s.records[record.key]? t.records[record.key]?
  other : ∀ key ≠ record.key, t.records[key]? = s.records[key]?
  core : ∃ parsed, lib.validateCoreWithVerifier env.clock.tip record env.clock.height false =
    .ok parsed
  relayed : lib.isEndpointCacheRecord record = false
  height : env.lockClock.height = env.clock.height

theorem wp_acceptLocked (hlib : CollisionFree lib) (env) {parsed}
    (hcur : s.records[item.key]? = item.snapshot.existing)
    (hcore : lib.validateCoreWithVerifier env.clock.tip item.mutation.record env.clock.height false
      = .ok parsed) (hrelayed : lib.isEndpointCacheRecord item.mutation.record = false) :
    wp (acceptLocked lib env item) s
      (fun updated t => if updated then Taken lib env item.mutation.record s t else MetaOnly s t)
      (fun _ t => MetaOnly s t) := by
  have hsame : MetaOnly s s := .refl s
  simp only [acceptLocked, check, wp_ite, wp_bind, wp_refuse, wp_ofExcept, wp_get, wp_pure, hsame,
    Bool.false_eq_true, if_false, implies_true, true_and, and_true]
  rintro - hheight newer hnewer rfl - -
  have heffect := deliveryOrder_effect hnewer
  have hlock : env.lockClock.height = env.clock.height := by
    simp only [Bool.and_eq_false_iff, bne_eq_false_iff_eq, Bool.or_eq_false_iff,
      Bool.not_eq_false'] at hheight
    obtain hheight | ⟨htomb, hnone⟩ := hheight
    · exact hheight
    · rw [isSome_eq_false_iff, isNone_iff_eq_none] at hnone
      unfold deliveryOrder at hnewer
      rw [if_pos htomb, hnone] at hnewer
      cases hnewer
  have hnodup : ([item].map (·.key)).Nodup := List.nodup_singleton _
  refine wp_mono (wp_commitReadyLocked hlib hnodup (List.forall_mem_singleton.mpr hcur) _ _ _ _)
    (fun _ t ht => ?_) fun _ _ ht => ht
  rw [if_pos trivial]
  refine ⟨ht.mirrored, ?_, fun key hkey => ht.other key (by simpa using hkey), ⟨parsed, hcore⟩,
    hrelayed, hlock⟩
  rw [hcur, ht.slot item (List.mem_singleton_self item)]
  have hclock : env.lockClock = ⟨env.clock.height, env.lockClock.tip⟩ := by rw [← hlock]
  rw [hclock]
  exact heffect

theorem wp_acceptAttempt (hlib : CollisionFree lib) (env) (record s) :
    wp (acceptAttempt lib env record) s
      (fun updated t => if updated then Taken lib env record s t else MetaOnly s t)
      (fun _ t => MetaOnly s t) := by
  have hsame : MetaOnly s s := .refl s
  simp only [acceptAttempt, check, wp_bind, wp_refuse, wp_ofExcept, wp_get, hsame, implies_true,
    true_and]
  intro parsed hcore hrelayed _ _ _ _ _ _ hlock
  simp only [Bool.or_eq_false_iff, Bool.not_eq_false'] at hlock hrelayed
  exact wp_acceptLocked hlib env (existing_of_stillCurrent hlib hlock.1) hcore hrelayed.2

omit [DecidableEq H] [LawfulEqOrd H] in
theorem Taken.of_metaOnly {record u} (h : Taken lib env record t u) (hst : MetaOnly s t) :
    Taken lib env record s u := by
  obtain ⟨hmirrored, heffect, hother, hcore, hrelayed, hheight⟩ := h
  rw [hst.records] at heffect hother
  exact ⟨fun hs => hmirrored (hst.mirrored hs), heffect, hother, hcore, hrelayed, hheight⟩

theorem acceptCurrentRecord_spec (hlib : CollisionFree lib) (record) (envs) (s) :
    ((acceptCurrentRecord lib record envs s).1 ≠ .ok true →
        MetaOnly s (acceptCurrentRecord lib record envs s).2) ∧
      ((acceptCurrentRecord lib record envs s).1 = .ok true →
        ∃ env ∈ envs, Taken lib env record s (acceptCurrentRecord lib record envs s).2) := by
  induction envs generalizing s with
  | nil => exact ⟨fun _ => .refl s, fun h => by cases h⟩
  | cons env envs ih =>
    have hwp := wp_acceptAttempt hlib env record s
    simp only [wp] at hwp
    rw [acceptCurrentRecord]
    split at hwp
    · next updated t hexec =>
      rw [hexec]
      refine ⟨fun hne => ?_, fun heq => ⟨env, List.mem_cons_self, ?_⟩⟩
      · rwa [if_neg fun htrue => hne (congrArg _ htrue)] at hwp
      · rwa [if_pos (Except.ok.inj heq)] at hwp
    · next e t hexec =>
      rw [hexec]
      cases e with
      | fail e => exact ⟨fun _ => hwp, fun heq => by cases heq⟩
      | retry =>
        obtain ⟨hrefused, htaken⟩ := ih t
        refine ⟨fun hne => hwp.trans (hrefused hne), fun heq => ?_⟩
        obtain ⟨last, hlast, ht⟩ := htaken heq
        exact ⟨last, List.mem_cons_of_mem _ hlast, ht.of_metaOnly hwp⟩

omit [DecidableEq H] [LawfulEqOrd H] in
theorem Taken.activeNetwork {record : Record} (h : Taken lib env record s t)
    (hclock : env.clock.Advances env.lockClock) (hlive : isTombstone record.flags = false) :
    lib.activeNetwork env.lockClock record = true := by
  obtain ⟨parsed, hcore⟩ := h.core
  obtain ⟨hsound, hissued, hexp⟩ := validateCore_eq_ok.mp hcore
  have hshown : lib.shown record = true := by
    rw [RecordLib.shown, hlive, h.relayed]
    rfl
  simp only [Bool.false_and, Bool.or_false, Bool.not_eq_true'] at hexp
  simp only [RecordLib.activeNetwork, recordActive_eq, Bool.and_eq_true, Bool.not_eq_true']
  rw [← h.height] at hexp
  exact ⟨⟨⟨hclock.issuedBy hissued, wellFormed_of_sound hsound hshown⟩, hexp⟩, h.relayed⟩

/-- One attempt of a delivery.  A delivery that tries again is several of them, between which others
may come. -/
structure Attempt (H : Type) [Ord H] where
  env : AcceptEnv H
  record : Record

def Attempt.run (lib : RecordLib H) (s : Store H) (a : Attempt H) :
    Except Halt Bool × Store H := (acceptAttempt lib a.env a.record).exec s

def Attempt.next (lib : RecordLib H) (state : Store H × Clock) (a : Attempt H) :
    Store H × Clock := ((a.run lib state.1).2, a.env.lockClock)

/-- Time goes on, and the attempt neither deletes the record of the key nor finds it expired. -/
structure Spares (lib : RecordLib H) (key : Text) (state : Store H × Clock) (a : Attempt H) :
    Prop where
  later : state.2.Advances a.env.lockClock
  reads : a.env.clock.Advances a.env.lockClock
  unexpired : (state.1.records[key]?).all fun stored => !isExpired stored a.env.lockClock.height
  undeleted : a.record.key = key → isTombstone a.record.flags = true →
    (a.run lib state.1).1 ≠ .ok true

instance (key : Text) (state : Store H × Clock) (a : Attempt H) :
    Decidable (Spares lib key state a) :=
  decidable_of_iff (state.2.Advances a.env.lockClock ∧ a.env.clock.Advances a.env.lockClock ∧
      ((state.1.records[key]?).all fun stored => !isExpired stored a.env.lockClock.height) ∧
      (a.record.key = key → isTombstone a.record.flags = true → (a.run lib state.1).1 ≠ .ok true))
    ⟨fun ⟨hlater, hreads, hexp, hdel⟩ => ⟨hlater, hreads, hexp, hdel⟩,
      fun h => ⟨h.later, h.reads, h.unexpired, h.undeleted⟩⟩

def ActiveFrom (lib : RecordLib H) (key : Text) (seq : ℕ) (state : Store H × Clock) : Prop :=
  ∃ stored : Record, state.1.records[key]? = some stored ∧
    lib.activeNetwork state.2 stored = true ∧ seq ≤ stored.seq

theorem activeFrom_next (hlib : CollisionFree lib) {key} {seq : ℕ} (state) (a)
    (h : ActiveFrom lib key seq state) (hspares : Spares lib key state a) :
    ActiveFrom lib key seq (a.next lib state) := by
  obtain ⟨stored, hstored, hactive, hseq⟩ := h
  obtain ⟨s, clock⟩ := state
  have hexp : isExpired stored a.env.lockClock.height = false := by
    simpa [show s.records[key]? = some stored from hstored] using hspares.unexpired
  have hkept : lib.activeNetwork a.env.lockClock stored = true :=
    activeNetwork_advance hspares.later hactive hexp
  have hwp := wp_acceptAttempt hlib a.env a.record s
  have hundeleted := hspares.undeleted
  simp only [wp] at hwp
  simp only [ActiveFrom, Attempt.next, Attempt.run] at hundeleted ⊢
  split at hwp
  · next updated t hexec =>
    rw [hexec] at hundeleted ⊢
    cases updated with
    | false => exact ⟨stored, (congrArg (·[key]?) hwp.records).trans hstored, hkept, hseq⟩
    | true =>
      rw [if_pos rfl] at hwp
      by_cases hkey : a.record.key = key
      · subst hkey
        have hlive : isTombstone a.record.flags = false := by
          by_contra htomb
          exact hundeleted rfl (by simpa using htomb) rfl
        have heffect := hwp.effect
        rw [hstored] at heffect
        obtain ⟨hnew, hless⟩ := heffect.of_active hlive hkept
        exact ⟨a.record, hnew, hwp.activeNetwork hspares.reads hlive, by omega⟩
      · exact ⟨stored, (hwp.other key (Ne.symm hkey)).trans hstored, hkept, hseq⟩
  · next e t hexec =>
    rw [hexec]
    exact ⟨stored, (congrArg (·[key]?) hwp.records).trans hstored, hkept, hseq⟩

/-- A delivery that is not taken leaves the record table and the hash index as they were.  One that
is taken stores the first record of a key that has no active one, or a later record in place of the
active one, or removes the stored record whose hash it names; no other key changes.  So the sequence
number of a key's active record never decreases while it is neither deleted nor expires. -/
theorem delivery_safe_in_any_order (hlib : CollisionFree lib) :
    (∀ (s : Store H) (record : Record) (envs : List (AcceptEnv H)),
      ((acceptCurrentRecord lib record envs s).1 ≠ .ok true →
        (acceptCurrentRecord lib record envs s).2.records = s.records ∧
          (acceptCurrentRecord lib record envs s).2.hashes = s.hashes) ∧
      ((acceptCurrentRecord lib record envs s).1 = .ok true →
        (∃ env ∈ envs, Effect lib env.lockClock record s.records[record.key]?
          (acceptCurrentRecord lib record envs s).2.records[record.key]?) ∧
        (∀ key ≠ record.key,
          (acceptCurrentRecord lib record envs s).2.records[key]? = s.records[key]?) ∧
        (Mirrored lib s → Mirrored lib (acceptCurrentRecord lib record envs s).2))) ∧
    ∀ (key : Text) (s : Store H) (clock : Clock) (attempts : List (Attempt H)) (stored : Record),
      s.records[key]? = some stored → lib.activeNetwork clock stored = true →
      Meets (Attempt.next lib) (Spares lib key) (s, clock) attempts →
      ActiveFrom lib key stored.seq (attempts.foldl (Attempt.next lib) (s, clock)) := by
  refine ⟨fun s record envs => ?_, fun key s clock attempts stored hstored hactive hmeets => ?_⟩
  · obtain ⟨hrefused, htaken⟩ := acceptCurrentRecord_spec hlib record envs s
    refine ⟨fun hne => ?_, fun heq => ?_⟩
    · obtain ⟨_, _, heq⟩ := hrefused hne
      rw [heq]
      exact ⟨rfl, rfl⟩
    · obtain ⟨env, henv, ht⟩ := htaken heq
      exact ⟨⟨env, henv, ht.effect⟩, ht.other, ht.mirrored⟩
  · exact foldl_of_meets (fun state a => activeFrom_next hlib state a) attempts
      ⟨stored, hstored, hactive, Nat.le_refl _⟩ hmeets

namespace Reference

def acceptEnv (seen : Store (List ℕ)) (height : ℕ) : AcceptEnv (List ℕ) where
  seen := seen
  clock := ⟨height, none⟩
  validators := validators
  prepareFeeCapacity := .ok ()
  lockClock := ⟨height, none⟩
  policyGeneration := 0
  validateProjected := .ok ()
  flushed := .ok ()

def deliver (s : Store (List ℕ)) (height : ℕ) (record : Record) : DkvsM Bool × Store (List ℕ) :=
  acceptCurrentRecord recordLib record [acceptEnv s height] s

def delivered (seq issueHeight : ℕ) : Record := record "/svc/a/record-00001" seq issueHeight 10

def deleteCommand (target : Record) (issueHeight : ℕ) : Record :=
  { target with
    value := (encodeRecord target).map UInt8.ofNat
    seq := target.seq + 1
    issueHeight := issueHeight
    ttl := 0
    flags := 1 }

def deliveredStore : Store (List ℕ) := (deliver (.empty _) 5 (delivered 1 5)).2

end Reference

open Reference in
theorem delivery_safe_when_repeated : (deliver deliveredStore 6 (delivered 2 6)).1 = .ok true ∧
    ActiveFrom recordLib "/svc/a/record-00001".toList 1
      (([⟨acceptEnv deliveredStore 6, delivered 2 6⟩,
        ⟨acceptEnv (deliver deliveredStore 6 (delivered 2 6)).2 7, delivered 2 6⟩,
        ⟨acceptEnv (deliver deliveredStore 6 (delivered 2 6)).2 7, delivered 1 5⟩] :
          List (Attempt (List ℕ))).foldl (Attempt.next recordLib) (deliveredStore, ⟨5, none⟩)) :=
  ⟨by decide +kernel, (delivery_safe_in_any_order collisionFree_recordLib).2 _ _ _ _
    (delivered 1 5) (by decide +kernel) (by decide +kernel) (by decide +kernel)⟩

open Reference in
/-- A delete command is taken for a stored record that has expired and is active no more. -/
theorem delivery_deletes_expired_record :
    recordLib.activeNetwork ⟨20, none⟩ (delivered 1 5) = false ∧
    deliveredStore.records.toList = [("/svc/a/record-00001".toList, delivered 1 5)] ∧
    (deliver deliveredStore 20 (deleteCommand (delivered 1 5) 20)).1 = .ok true ∧
    (deliver deliveredStore 20 (deleteCommand (delivered 1 5) 20)).2.records.toList = [] := by
  decide +kernel

end SatoshiNet.Dkvs
