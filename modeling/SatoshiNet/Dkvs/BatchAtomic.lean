import SatoshiNet.Dkvs.Mirror
import SatoshiNet.Dkvs.Reference

/-!
Batch compare-and-swap is atomic and exact: a refused batch leaves the tables as they were, an
applied one was the exact successor of the state it met.
-/

namespace SatoshiNet.Dkvs

open Function Lib Std Action List Option

variable {H : Type} [Ord H]

structure SameTables (s t : Store H) : Prop where
  records : t.records = s.records
  hashes : t.hashes = s.hashes
  recordChanges : t.recordChanges = s.recordChanges
  prefixChanges : t.prefixChanges = s.prefixChanges

theorem SameTables.refl (s : Store H) : SameTables s s := ⟨rfl, rfl, rfl, rfl⟩

variable {env : BatchEnv H} {mutations : Mutations H} {s t : Store H}

theorem SameTables.trans {u} (h : SameTables s t) (h' : SameTables t u) : SameTables s u :=
  ⟨h'.records.trans h.records, h'.hashes.trans h.hashes, h'.recordChanges.trans h.recordChanges,
    h'.prefixChanges.trans h.prefixChanges⟩

theorem MetaOnly.sameTables (h : MetaOnly s t) : SameTables s t := by
  obtain ⟨_, _, rfl⟩ := h
  exact ⟨rfl, rfl, rfl, rfl⟩

/-- The mutation is the next one of its slot at the clock: a first record where none is active, or
the successor of the active record that it names. -/
def Admissible (lib : RecordLib H) (clock : Clock) (existing : Option Record)
    (mutation : CASMutation H) : Prop :=
  (isTombstone mutation.record.flags = false ∧ mutation.precondition.expectAbsent = true ∧
    lib.existingRecordActive clock.tip existing clock.issueHeightTip = false ∧
    mutation.record.seq = 1) ∨
  ∃ stored, existing = some stored ∧ lib.recordActive clock.tip stored clock.issueHeightTip = true ∧
    mutation.precondition.expectedHash = some (lib.recordHash stored) ∧
    mutation.record.seq = stored.seq + 1 ∧
    (isTombstone mutation.record.flags = true →
      lib.deleteTargetHash mutation.record = .ok (lib.recordHash stored))

variable [DecidableEq H] {lib : RecordLib H}

theorem admissible_of_ready {item} (hposed : WellPosed lib item.mutation)
    (h : readyLocked lib env item = .ok ()) :
    Admissible lib env.lockClock item.snapshot.existing item.mutation := by
  simp only [readyLocked, bind_eq_ok, require_eq_ok, beq_iff_eq] at h
  obtain ⟨_, -, _, hpre, seq, hseq, _, rfl, -⟩ := h
  rw [writePreconditionMatches] at hpre
  split_ifs at hpre with habsent
  · have hlive : isTombstone item.mutation.record.flags = false := by
      by_contra htomb
      obtain ⟨hash, -, hexp⟩ := hposed.target (by simpa using htomb)
      simpa [WritePrecondition.valid, habsent, hexp] using hposed.valid
    rw [Bool.not_eq_true'] at hpre
    rw [hpre, if_neg Bool.false_ne_true] at hseq
    exact .inl ⟨hlive, habsent, hpre, (Except.ok.inj hseq).symm⟩
  · obtain ⟨hactive, hnamed⟩ := Bool.and_eq_true_iff.mp hpre
    obtain ⟨stored, hstored, hhash⟩ := (any_eq_true _ _).mp hnamed
    rw [beq_iff_eq] at hhash
    rw [hactive, if_pos rfl, hstored, nextCASSequence] at hseq
    split_ifs at hseq
    rw [RecordLib.existingRecordActive, hstored] at hactive
    refine .inr ⟨stored, hstored, hactive, hhash, (Except.ok.inj hseq).symm, fun htomb => ?_⟩
    obtain ⟨hash, htarget, hexp⟩ := hposed.target htomb
    rw [hexp, some.injEq] at hhash
    rw [htarget, hhash]

omit [Ord H] in
theorem mutationAlreadyApplied_iff (hlib : CollisionFree lib) {mutation : CASMutation H}
    {existing : Option Record} :
    mutationAlreadyApplied lib mutation.record existing = true ↔ existing = mutation.result := by
  rw [mutationAlreadyApplied, CASMutation.result]
  split_ifs
  · exact isNone_iff_eq_none
  · cases existing with
    | none => simp
    | some stored =>
      rw [any_some, beq_iff_eq, some.injEq]
      exact hlib.inj.eq_iff

/-- What a successful attempt has done, from the store that it met under the lock: the batch was in
effect and is acknowledged, or none of it was and all of it is applied. -/
def Decided (lib : RecordLib H) (clock : Clock) (mutations : Mutations H) (s : Store H)
    (result : WriteResult H) (t : Store H) : Prop :=
  (result.applied = 0 ∧ t = s ∧ ∀ m ∈ mutations, s.records[m.record.key]? = m.result) ∨
  (result.applied = mutations.length ∧ (∀ m ∈ mutations, s.records[m.record.key]? ≠ m.result ∧
      Admissible lib clock s.records[m.record.key]? m ∧ t.records[m.record.key]? = m.result) ∧
    ∀ key ∉ mutations.map (·.record.key), t.records[key]? = s.records[key]?)

variable [TransOrd H] [LawfulEqOrd H]

theorem wp_batchAttempt (hlib : CollisionFree lib) (env) (mutations) (s : Store H) :
    wp (batchAttempt lib env mutations) s
      (fun result t => Decided lib env.lockClock mutations s result t ∧
        ∃ items, prepareBatchCAS lib env mutations = .ok items) (fun _ t => SameTables s t) := by
  simp only [batchAttempt, finishBatchLocked, wp_bind, wp_ofExcept, wp_get, wp_ite, wp_pure]
  refine ⟨fun _ _ => .refl s, fun items hitems => ⟨fun _ _ => .refl s, fun ready hready => ?_⟩⟩
  obtain ⟨-, hposed, hnodup, rfl, hprep⟩ := prepareBatchCAS_eq_ok hitems
  obtain ⟨hcurrent, hways⟩ := batchCASReadyLocked_eq_ok hready
  have hslot : ∀ item ∈ items, s.records[item.key]? = item.snapshot.existing :=
    fun item hitem => existing_of_current hlib (hcurrent item hitem)
  have happlied : ∀ item ∈ items, item.applied = true ↔
      s.records[item.key]? = item.mutation.result := fun item hitem => by
    obtain ⟨k, hk⟩ := hprep item hitem
    rw [(prepareMutation_eq_ok hk).2.2.2, mutationAlreadyApplied_iff hlib, hslot item hitem]
  refine ⟨fun hnone => ⟨fun _ _ => .refl s, fun _ _ => ⟨.inl ⟨?_, rfl, ?_⟩, items, hitems⟩⟩,
    fun hsome => ⟨fun _ _ => .refl s, fun _ _ => ?_⟩⟩
  · rw [isEmpty_iff.mp hnone]
    rfl
  · obtain ⟨-, -, hall⟩ | ⟨rfl, -, -⟩ := hways
    · simp only [List.forall_mem_map]
      exact fun item hitem => (happlied item hitem).mp (hall item hitem)
    · rw [isEmpty_iff.mp hnone]
      simp
  · obtain ⟨rfl, -, -⟩ | ⟨rfl, hnew, hadmitted⟩ := hways
    · exact absurd rfl hsome
    · rw [List.map_map] at hnodup
      refine wp_mono (wp_commitReadyLocked hlib hnodup hslot _ _ _ _) (fun states t ht => ?_)
        fun _ _ ht => ht.sameTables
      refine ⟨.inr ⟨(length_map _).symm, ?_, fun key hkey => ?_⟩, ready, hitems⟩
      · simp only [List.forall_mem_map] at hposed ⊢
        intro item hitem
        refine ⟨fun heq => ?_, ?_, ht.slot item hitem⟩
        · rw [← happlied item hitem, hnew item hitem] at heq
          cases heq
        · rw [hslot item hitem]
          exact admissible_of_ready (hposed item hitem) (hadmitted item hitem)
      · rw [List.map_map] at hkey
        exact ht.other key hkey

section Resubmission

omit [TransOrd H] [LawfulEqOrd H]

variable {env : BatchEnv H} {force : Bool} {parsed : ParsedKey} {s : Store H}

omit [Ord H] in
/-- The permission to write a record does not depend on what it replaces, as long as that is not
another version of an EVM source. -/
theorem validateWritePermission_over {record} {existing existing'} {validators}
    (h : lib.validateWritePermissionWith parsed record existing validators = .ok force)
    (hsame : existing'.all (lib.recordHash · == lib.recordHash record) = true) :
    ∃ force', lib.validateWritePermissionWith parsed record existing' validators = .ok force' := by
  simp only [RecordLib.validateWritePermissionWith] at h ⊢
  split_ifs at h ⊢
  · obtain ⟨_, hevm, -⟩ := map_eq_ok.mp h
    simp only [RecordLib.validateEVMSourceWrite, bind_eq_ok, require_eq_ok] at hevm
    obtain ⟨_, henvelope, _, -, verify, hverify, hok⟩ := hevm
    refine ⟨false, map_eq_ok.mpr ⟨⟨⟩, ?_, rfl⟩⟩
    simp only [RecordLib.validateEVMSourceWrite, bind_eq_ok, require_eq_ok]
    exact ⟨_, henvelope, ⟨⟩, hsame, verify, hverify, hok⟩
  · exact ⟨force, h⟩
  · exact ⟨force, h⟩
  · exact ⟨force, h⟩
  · exact ⟨force, h⟩
  · obtain ⟨identity, hidentity, h⟩ := bind_eq_ok.mp h
    obtain ⟨_, hsign, -⟩ := bind_eq_ok.mp h
    exact ⟨_, bind_eq_ok.mpr ⟨identity, hidentity, bind_eq_ok.mpr ⟨_, hsign, rfl⟩⟩⟩
  · exact ⟨force, h⟩

/-- A batch is submitted again to the store it left: nothing else has been written, the policy is
the same, nothing changes while the attempt runs, and its records are within their lifetime. -/
structure Resubmission (env again : BatchEnv H) (s : Store H) (mutations : Mutations H) :
    Prop where
  seen : ∀ n, again.seen n = s
  quiet : again.others s = s
  validators : again.validators = env.validators
  policy : again.policyGeneration = again.validators.policyGeneration
  height : again.lockClock.height = again.clock.height
  issued : ∀ m ∈ mutations, RecordLib.issuedBy again.clock.tip m.record again.clock.height = true
  live : ∀ m ∈ mutations, isExpired m.record again.clock.height = false ∧
    isExpired m.record again.lockClock.issueHeightTip = false

theorem stillCurrent_snapshot {mutation} {applied} {retention}
    (hpolicy : env.policyGeneration = env.validators.policyGeneration)
    (hlive : isExpired mutation.record env.lockClock.issueHeightTip = false) :
    stillCurrentLocked lib s env ⟨mutation, parsed,
      readWriteStateSnapshot s mutation.record.key parsed env.validators, force, retention,
      applied⟩ = .ok () := by
  simp only [stillCurrentLocked, bind_eq_ok, require_eq_ok]
  refine ⟨⟨⟩, ?_, by rw [hlive]; rfl⟩
  simp only [writeStateStillCurrentLocked, readWriteStateSnapshot, hpolicy, beq_self_eq_true,
    Bool.true_and, Bool.or_true, Bool.and_true]
  cases s.records[mutation.record.key]? with
  | none => rfl
  | some stored =>
    simp [WriteStateSnapshot.existingSeq, WriteStateSnapshot.existingPubKey]

theorem prepareMutation_resubmitted (hlib : CollisionFree lib) {again : BatchEnv H}
    {mutations : Mutations H} {item : PreparedCASMutation H} {k : ℕ}
    (hprep : prepareMutation lib env k item.mutation = .ok item)
    (hagain : Resubmission env again s mutations) (hmem : item.mutation ∈ mutations)
    (hslot : s.records[item.key]? = item.mutation.result) (n : ℕ) :
    ∃ item', prepareMutation lib again n item.mutation = .ok item' ∧ item'.applied = true ∧
      stillCurrentLocked lib s again item' = .ok () ∧ collectionPath item'.parsed ≠ [] := by
  obtain ⟨-, hcore, hforce, -⟩ := prepareMutation_eq_ok hprep
  obtain ⟨hlive, hlock⟩ := hagain.live _ hmem
  have hsound := (validateCore_eq_ok.mp hcore).1
  have hcore' : lib.validateCoreWithVerifier again.clock.tip item.mutation.record
      again.clock.height false = .ok item.parsed :=
    validateCore_eq_ok.mpr ⟨hsound, hagain.issued _ hmem, by rw [hlive]; rfl⟩
  have happlied := (mutationAlreadyApplied_iff hlib).mpr hslot
  have hsame : (s.records[item.key]?).all
      (lib.recordHash · == lib.recordHash item.mutation.record) = true := by
    rw [hslot, CASMutation.result]
    split_ifs <;> simp
  obtain ⟨force, hforce'⟩ := validateWritePermission_over hforce hsame
  refine ⟨⟨item.mutation, item.parsed,
    readWriteStateSnapshot s item.key item.parsed again.validators, force, none,
    true⟩, ?_, rfl, stillCurrent_snapshot hagain.policy hlock, ?_⟩
  · simp only [prepareMutation, bind_eq_ok, hagain.seen n]
    refine ⟨item.parsed, hcore', force, ?_, ?_⟩
    · rw [hagain.validators]
      exact hforce'
    · exact if_pos happlied
  · exact collectionPath_ne_nil (parseKey_eq_ok hsound.parseKey).2

theorem prepareFrom_of_forall (env) (P : PreparedCASMutation H → Prop) (mutations)
    (h : ∀ m ∈ mutations, ∀ n, ∃ item, prepareMutation lib env n m = .ok item ∧ P item) (n : ℕ) :
    ∃ items, prepareFrom lib env n mutations = .ok items ∧ items.length = mutations.length ∧
      ∀ item ∈ items, P item := by
  induction mutations generalizing n with
  | nil => exact ⟨[], rfl, rfl, forall_mem_nil _⟩
  | cons m mutations ih =>
    obtain ⟨item, hitem, hP⟩ := h m mem_cons_self n
    obtain ⟨items, hitems, hlen, hall⟩ := ih (fun m' hm' => h m' (mem_cons_of_mem _ hm')) (n + 1)
    refine ⟨item :: items, ?_, by rw [length_cons, length_cons, hlen],
      forall_mem_cons.mpr ⟨hP, hall⟩⟩
    simp only [prepareFrom, bind_eq_ok]
    exact ⟨item, hitem, items, hitems, rfl⟩

end Resubmission

omit [LawfulEqOrd H] in
theorem exec_resubmitted (hlib : CollisionFree lib) {again} {items}
    (hprep : prepareBatchCAS lib env mutations = .ok items)
    (hslot : ∀ m ∈ mutations, s.records[m.record.key]? = m.result)
    (hagain : Resubmission env again s mutations) :
    ∃ result, (batchAttempt lib again mutations).exec s = (.ok result, s) ∧ result.applied = 0 := by
  obtain ⟨hne, -, -, hmap, hitems⟩ := prepareBatchCAS_eq_ok hprep
  obtain ⟨items', hitems', hlen, hall⟩ := prepareFrom_of_forall again (fun item =>
    item.applied = true ∧ stillCurrentLocked lib s again item = .ok () ∧
      collectionPath item.parsed ≠ []) mutations (fun m hm n => by
    rw [← hmap] at hm
    obtain ⟨item, hitem, rfl⟩ := mem_map.mp hm
    obtain ⟨k, hk⟩ := hitems item hitem
    have hmem : item.mutation ∈ mutations := hmap ▸ hm
    exact prepareMutation_resubmitted hlib hk hagain hmem (hslot _ hmem) n) 0
  have hprep' : prepareBatchCAS lib again mutations = .ok items' := by
    simp only [prepareBatchCAS, bind_eq_ok] at hprep ⊢
    obtain ⟨_, hauth, _, hvalid, -⟩ := hprep
    exact ⟨_, hauth, _, hvalid, hitems'⟩
  have hready : batchCASReadyLocked lib s again items' = .ok [] := by
    obtain ⟨item, rest, rfl⟩ := exists_cons_of_ne_nil
      (ne_nil_of_length_pos (hlen ▸ length_pos_iff.mpr hne))
    simp only [batchCASReadyLocked, bind_eq_ok, require_eq_ok, checkEach_eq_ok]
    refine ⟨⟨⟩, by simp [hagain.policy, hagain.height], ⟨⟩, fun i hi => (hall i hi).2.1, ?_⟩
    rw [if_pos (any_eq_true.mpr ⟨item, mem_cons_self, (hall item mem_cons_self).1⟩)]
    simp only [bind_eq_ok, require_eq_ok]
    exact ⟨⟨⟩, all_eq_true.mpr fun i hi => (hall i hi).1, rfl⟩
  have hpaths : ∃ states, prefixStatesForPreparedLocked s items' = .ok states := by
    simp only [prefixStatesForPreparedLocked, bind_eq_ok, require_eq_ok]
    refine ⟨_, ⟨⟩, ?_, rfl⟩
    simp only [Bool.not_eq_true', contains_eq_mem, decide_eq_false_iff_not, touchedPaths,
      List.mem_dedup, List.mem_map, List.mem_filter, not_exists, not_and]
    exact fun item hitem => (hall item hitem.1).2.2
  obtain ⟨states, hstates⟩ := hpaths
  simp only [batchAttempt, finishBatchLocked, exec_bind, exec_ofExcept_ok, exec_get, exec_pure,
    hprep', hready, hstates, isEmpty_nil, if_true]
  exact ⟨_, rfl, rfl⟩

theorem putLocalBatchCAS_decided (hlib : CollisionFree lib) (mutations envs) (s : Store H) :
    let out := putLocalBatchCASResultWithOptions lib mutations envs s
    (∀ e, out.answer = .error e → SameTables out.found out.final) ∧
    (∀ result, out.answer = .ok result → ∃ env ∈ envs,
      Decided lib env.lockClock mutations out.found result out.final ∧
        ∃ items, prepareBatchCAS lib env mutations = .ok items) ∧
    ((∀ env ∈ envs, ∀ t, SameTables t (env.others t)) → SameTables s out.found) := by
  induction envs generalizing s with
  | nil => exact ⟨fun _ _ => .refl s, fun _ h => (by cases h), fun _ => .refl s⟩
  | cons env envs ih =>
    have hattempt := wp_batchAttempt hlib env mutations (env.others s)
    simp only [wp] at hattempt
    simp only [putLocalBatchCASResultWithOptions]
    split
    · next t ht =>
      rw [ht] at hattempt
      obtain ⟨herror, hok, hquiet⟩ := ih t
      refine ⟨herror, fun result h => ?_, fun hothers => ?_⟩
      · obtain ⟨env', henv', hdecided⟩ := hok result h
        exact ⟨env', mem_cons_of_mem _ henv', hdecided⟩
      · refine ((hothers env mem_cons_self s).trans hattempt).trans (hquiet fun env' henv' => ?_)
        exact hothers env' (mem_cons_of_mem _ henv')
    · next e t ht =>
      rw [ht] at hattempt
      exact ⟨fun _ _ => hattempt, fun _ h => (by cases h), fun h => h env mem_cons_self s⟩
    · next result t ht =>
      rw [ht] at hattempt
      refine ⟨fun _ h => (by cases h), fun result' h => ?_, fun h => h env mem_cons_self s⟩
      cases h
      exact ⟨env, mem_cons_self, hattempt⟩

omit [DecidableEq H] [TransOrd H] [LawfulEqOrd H] in
theorem Decided.slots {clock} {result} (h : Decided lib clock mutations s result t) :
    ∀ m ∈ mutations, t.records[m.record.key]? = m.result := by
  obtain ⟨-, rfl, hslots⟩ | ⟨-, hslots, -⟩ := h
  · exact hslots
  · exact fun m hm => (hslots m hm).2.2

/-- A batch is refused with the tables unchanged, or acknowledged because all of it is in effect, or
applied as a whole because each of its mutations is the next one of its slot.  A batch of which only
a part is in effect is refused.  Submitted again, a batch that went through is acknowledged. -/
theorem batchCAS_atomic_exact (hlib : CollisionFree lib) (mutations : Mutations H)
    (envs : List (BatchEnv H)) (s : Store H) :
    let out := putLocalBatchCASResultWithOptions lib mutations envs s
    (∀ e, out.answer = .error e → SameTables out.found out.final) ∧
    (∀ result, out.answer = .ok result → ∃ env ∈ envs,
      ((result.applied = 0 ∧ out.final = out.found ∧
          ∀ m ∈ mutations, out.found.records[m.record.key]? = m.result) ∨
        (result.applied = mutations.length ∧
          (∀ m ∈ mutations, Admissible lib env.lockClock out.found.records[m.record.key]? m ∧
            out.final.records[m.record.key]? = m.result) ∧
          ∀ key ∉ mutations.map (·.record.key),
            out.final.records[key]? = out.found.records[key]?)) ∧
      ∀ again rest, Resubmission env again out.final mutations → ∃ result',
        putLocalBatchCASResultWithOptions lib mutations (again :: rest) out.final =
          ⟨.ok result', out.final, out.final⟩ ∧ result'.applied = 0) ∧
    ((∃ m ∈ mutations, out.found.records[m.record.key]? = m.result) →
      (∃ m ∈ mutations, out.found.records[m.record.key]? ≠ m.result) → ∃ e, out.answer = .error e) ∧
    ((∀ env ∈ envs, ∀ t, SameTables t (env.others t)) → SameTables s out.found) := by
  intro out
  obtain ⟨herror, hok, hquiet⟩ := putLocalBatchCAS_decided hlib mutations envs s
  refine ⟨herror, fun result hresult => ?_, fun ⟨m, hm, hin⟩ ⟨m', hm', hout⟩ => ?_, hquiet⟩
  · obtain ⟨env, henv, hdecided, items, hitems⟩ := hok result hresult
    refine ⟨env, henv, ?_, fun again rest hagain => ?_⟩
    · exact hdecided.imp id fun ⟨hn, hall, hother⟩ =>
        ⟨hn, fun m hm => (hall m hm).2, hother⟩
    · obtain ⟨result', hexec, happlied⟩ := exec_resubmitted hlib hitems hdecided.slots hagain
      refine ⟨result', ?_, happlied⟩
      rw [putLocalBatchCASResultWithOptions, hagain.quiet, hexec]
  · cases hanswer : out.answer with
    | error e => exact ⟨e, rfl⟩
    | ok result =>
      obtain ⟨env, -, ⟨-, -, hall⟩ | ⟨-, hall, -⟩, -⟩ := hok result hanswer
      · exact absurd (hall m' hm') hout
      · exact absurd hin (hall m hm).1

namespace Reference

def batchEnv (seen : Store (List ℕ)) (height : ℕ) : BatchEnv (List ℕ) where
  seen _ := seen
  clock := ⟨height, none⟩
  validators := validators
  prepareFeeCapacity _ := .ok ()
  others s := s
  lockClock := ⟨height, none⟩
  policyGeneration := 0
  validateBatchState := .ok ()
  flushed := .ok ()

def submit (mutations : List (CASMutation (List ℕ))) (height : ℕ) (s : Store (List ℕ)) :
    BatchOutcome (List ℕ) :=
  putLocalBatchCASResultWithOptions recordLib mutations [batchEnv s height] s

def creation : CASMutation (List ℕ) := ⟨record "/svc/a/x" 1 5 3, ⟨none, true⟩⟩

def absentDelete : CASMutation (List ℕ) where
  record := { record "/svc/a/x" 2 5 0 with value := replicate 32 7, flags := 1 }
  precondition := ⟨some (replicate 32 7), false⟩

def created : Store (List ℕ) := (submit [creation] 5 (.empty _)).final

def pair : List (CASMutation (List ℕ)) :=
  [⟨record "/svc/a/x" 2 6 3, ⟨some (encodeRecord creation.record), false⟩⟩,
    ⟨record "/svc/a/y" 1 6 3, ⟨none, true⟩⟩]

end Reference

open Reference in
/-- The record that the first batch created is replaced and a second one created, together. -/
theorem batchCAS_atomic_exact_pair :
    let out := submit pair 6 created
    (∃ result, out.answer = .ok result ∧ result.applied = 2) ∧
    (∀ m ∈ pair, Admissible recordLib ⟨6, none⟩ out.found.records[m.record.key]? m ∧
      out.final.records[m.record.key]? = m.result) ∧
    ∀ key ∉ pair.map (·.record.key), out.final.records[key]? = out.found.records[key]? := by
  simp only [submit]
  have happlied : (submit pair 6 created).answer.toOption.any (·.applied == 2) = true := by decide +kernel
  obtain ⟨result, hresult, htwo⟩ := exists_of_any happlied
  obtain ⟨env, henv, ⟨hzero, -⟩ | ⟨-, hall, hother⟩, -⟩ :=
    (batchCAS_atomic_exact collisionFree_recordLib pair [batchEnv created 6] created).2.1 result hresult
  · simp [hzero] at htwo
  · rw [mem_singleton.mp henv] at hall
    exact ⟨⟨result, hresult, beq_iff_eq.mp htwo⟩, hall, hother⟩

open Reference in
/-- A delete command for an absent record succeeds although it names no active record, and a batch
that went through is refused when it is submitted again after its record has expired. -/
theorem batchCAS_absent_delete_and_expired_resubmission :
    ((submit [absentDelete] 5 (.empty _)).answer.toOption.any (·.applied == 0) = true ∧
      (submit [absentDelete] 5 (.empty _)).found.records[absentDelete.record.key]? = none) ∧
    ((submit [creation] 5 (.empty _)).answer.toOption.any (·.applied == 1) = true ∧
      (submit [creation] 8 (submit [creation] 5 (.empty _)).final).answer =
        .error .expiredRecord) := by
  decide +kernel

end SatoshiNet.Dkvs
