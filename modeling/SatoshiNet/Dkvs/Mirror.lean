import SatoshiNet.Dkvs.BatchCas
import SatoshiNet.Dkvs.Exchange
import SatoshiNet.Dkvs.PathSnapshot

/-!
What the checks of a batch establish: the mutations are for distinct slots, and each prepared item
describes the slot as it is under the lock.
The hash index mirrors the record table: every operation of the store keeps the two in step.
-/

namespace SatoshiNet.Dkvs

open Function Lib Std Action List

section

variable {H : Type} [Ord H] [TransOrd H] [LawfulEqOrd H] [DecidableEq H] {lib : RecordLib H}

theorem checkEach_eq_ok {α : Type} {f} {l : List α} {u : Unit} :
    checkEach f l = .ok u ↔ ∀ a ∈ l, f a = .ok () := by
  induction l with
  | nil => exact ⟨fun _ a ha => absurd ha not_mem_nil, fun _ => rfl⟩
  | cons a l ih =>
    rw [checkEach, foldlM_cons_eq_ok, forall_mem_cons]
    exact ⟨fun ⟨_, ha, hl⟩ => ⟨ha, ih.mp hl⟩, fun ⟨ha, hl⟩ => ⟨(), ha, ih.mpr hl⟩⟩

section Mutations

omit [Ord H] [TransOrd H] [LawfulEqOrd H]

/-- What the tally lets through: the precondition is one of the two kinds, and a delete command
names the record it expects. -/
structure WellPosed (lib : RecordLib H) (mutation : CASMutation H) : Prop where
  valid : mutation.precondition.valid = true
  target : isTombstone mutation.record.flags = true →
    ∃ hash, lib.deleteTargetHash mutation.record = .ok hash ∧
      mutation.precondition.expectedHash = some hash

variable {tally tally' : BatchTally}

theorem validateCASMutation_eq_ok {mutation}
    (h : validateCASMutation lib tally mutation = .ok tally') :
    WellPosed lib mutation ∧ mutation.record.key ∉ tally.seen ∧
      tally'.seen = mutation.record.key :: tally.seen := by
  simp only [validateCASMutation, bind_eq_ok, require_eq_ok] at h
  obtain ⟨_, hvalid, _, hseen, parsed, -, _, -, _, -, _, htarget, h⟩ := h
  cases h
  refine ⟨⟨hvalid, fun htomb => ?_⟩, ?_, rfl⟩
  · rw [htomb] at htarget
    obtain ⟨hash, hhash, hexp⟩ := exists_of_any (by simpa using htarget)
    exact ⟨hash, hhash, by simpa using hexp⟩
  · simpa using hseen

theorem validateTally_eq_ok {mutations : Mutations H}
    (h : mutations.foldlM (validateCASMutation lib) tally = .ok tally') :
    (∀ m ∈ mutations, WellPosed lib m ∧ m.record.key ∉ tally.seen) ∧
      (mutations.map (·.record.key)).Nodup := by
  induction mutations generalizing tally with
  | nil => simp
  | cons m mutations ih =>
    obtain ⟨next, hm, hrest⟩ := foldlM_cons_eq_ok.mp h
    obtain ⟨hposed, hfresh, hseen⟩ := validateCASMutation_eq_ok hm
    obtain ⟨hall, hnodup⟩ := ih hrest
    rw [hseen] at hall
    refine ⟨forall_mem_cons.mpr ⟨⟨hposed, hfresh⟩, fun m' hm' => ?_⟩, ?_⟩
    · exact ⟨(hall m' hm').1, fun hin => (hall m' hm').2 (mem_cons_of_mem _ hin)⟩
    · rw [map_cons, nodup_cons]
      refine ⟨fun hin => ?_, hnodup⟩
      obtain ⟨m', hm', hkey⟩ := mem_map.mp hin
      exact (hall m' hm').2 (hkey ▸ mem_cons_self)

end Mutations

variable {env : BatchEnv H} {item : PreparedCASMutation H} {items : Prepared H}
  {mutation : CASMutation H} {mutations : Mutations H} {n : ℕ}

omit [TransOrd H] [LawfulEqOrd H] in
theorem prepareMutation_eq_ok (h : prepareMutation lib env n mutation = .ok item) :
    item.mutation = mutation ∧
      lib.validateCoreWithVerifier env.clock.tip mutation.record env.clock.height false =
        .ok item.parsed ∧
      lib.validateWritePermissionWith item.parsed mutation.record item.snapshot.existing
        env.validators = .ok item.forceReplace ∧
      item.applied = mutationAlreadyApplied lib mutation.record item.snapshot.existing := by
  simp only [prepareMutation, bind_eq_ok] at h
  obtain ⟨parsed, hparsed, force, hforce, h⟩ := h
  split_ifs at h with happlied
  · cases h
    exact ⟨rfl, hparsed, hforce, happlied.symm⟩
  · simp only [bind_eq_ok] at h
    obtain ⟨_, -, retention, -, h⟩ := h
    cases h
    exact ⟨rfl, hparsed, hforce, (Bool.not_eq_true _ ▸ happlied).symm⟩

omit [TransOrd H] [LawfulEqOrd H] in
theorem prepareMutation_fresh (h : prepareMutation lib env n mutation = .ok item)
    (hfresh : item.applied = false) :
    storageModeDowngrade lib mutation.record item.snapshot.existing = false ∧
      prepareRetention lib env n mutation.record item.parsed = .ok item.retention := by
  simp only [prepareMutation, bind_eq_ok] at h
  obtain ⟨parsed, -, force, -, h⟩ := h
  split_ifs at h
  · cases h
    cases hfresh
  · simp only [bind_eq_ok, require_eq_ok, Bool.not_eq_true'] at h
    obtain ⟨_, hmode, retention, hretention, h⟩ := h
    cases h
    exact ⟨hmode, hretention⟩

omit [TransOrd H] [LawfulEqOrd H] in
theorem prepareFrom_eq_ok (h : prepareFrom lib env n mutations = .ok items) :
    items.map (·.mutation) = mutations ∧
      ∀ item ∈ items, ∃ k, prepareMutation lib env k item.mutation = .ok item := by
  induction mutations generalizing n items with
  | nil =>
    cases h
    simp
  | cons m mutations ih =>
    simp only [prepareFrom, bind_eq_ok] at h
    obtain ⟨item, hitem, rest, hrest, h⟩ := h
    cases h
    obtain ⟨hmap, hall⟩ := ih hrest
    have hmut := (prepareMutation_eq_ok hitem).1
    refine ⟨by rw [map_cons, hmut, hmap], forall_mem_cons.mpr ⟨⟨n, ?_⟩, hall⟩⟩
    rw [hmut]
    exact hitem

omit [TransOrd H] [LawfulEqOrd H] in
theorem prepareBatchCAS_eq_ok (h : prepareBatchCAS lib env mutations = .ok items) :
    mutations ≠ [] ∧ (∀ m ∈ mutations, WellPosed lib m) ∧
      (mutations.map (·.record.key)).Nodup ∧ items.map (·.mutation) = mutations ∧
      ∀ item ∈ items, ∃ k, prepareMutation lib env k item.mutation = .ok item := by
  simp only [prepareBatchCAS, validateCASMutations, bind_eq_ok, require_eq_ok] at h
  obtain ⟨_, -, _, ⟨_, hne, _, -, tally, htally, -⟩, hprep⟩ := h
  obtain ⟨hall, hnodup⟩ := validateTally_eq_ok htally
  obtain ⟨hmap, hitems⟩ := prepareFrom_eq_ok hprep
  exact ⟨by simpa using hne, fun m hm => (hall m hm).1, hnodup, hmap, hitems⟩

variable {metas : List PathMeta} {ready : Prepared H} {s : Store H}

omit [TransOrd H] [LawfulEqOrd H] in
theorem batchCASReadyLocked_eq_ok (h : batchCASReadyLocked lib s env items = .ok ready) :
    (∀ item ∈ items, stillCurrentLocked lib s env item = .ok ()) ∧
      ((ready = [] ∧ items.any (·.applied) = true ∧ ∀ item ∈ items, item.applied = true) ∨
        (ready = items ∧ (∀ item ∈ items, item.applied = false) ∧
          ∀ item ∈ items, readyLocked lib env item = .ok ())) := by
  simp only [batchCASReadyLocked, bind_eq_ok, require_eq_ok, checkEach_eq_ok] at h
  obtain ⟨_, -, _, hcurrent, h⟩ := h
  refine ⟨hcurrent, ?_⟩
  split_ifs at h with happlied
  · simp only [bind_eq_ok, require_eq_ok, all_eq_true] at h
    obtain ⟨_, hall, h⟩ := h
    exact .inl ⟨(Except.ok.inj h).symm, happlied, hall⟩
  · simp only [bind_eq_ok, checkEach_eq_ok] at h
    obtain ⟨_, hready, h⟩ := h
    refine .inr ⟨(Except.ok.inj h).symm, fun item hitem => ?_, hready⟩
    simp only [any_eq_true, not_exists, not_and, Bool.not_eq_true] at happlied
    exact happlied item hitem

section

variable (hlib : CollisionFree lib)
include hlib

omit [TransOrd H] [LawfulEqOrd H] in
theorem existing_of_stillCurrent {key snapshot parsed} {policyGeneration : ℕ}
    (h : writeStateStillCurrentLocked lib s key parsed policyGeneration snapshot = true) :
    s.records[key]? = snapshot.existing := by
  simp only [writeStateStillCurrentLocked, Bool.and_eq_true, beq_iff_eq] at h
  exact hlib.recordStateHash_inj h.1.1.2

omit [TransOrd H] [LawfulEqOrd H] in
theorem existing_of_current (h : stillCurrentLocked lib s env item = .ok ()) :
    s.records[item.key]? = item.snapshot.existing := by
  simp only [stillCurrentLocked, bind_eq_ok, require_eq_ok] at h
  obtain ⟨_, h, -⟩ := h
  exact existing_of_stillCurrent hlib h

def CASMutation.result (mutation : CASMutation H) : Option Record :=
  if isTombstone mutation.record.flags then none else some mutation.record

omit hlib in
omit [TransOrd H] [LawfulEqOrd H] [DecidableEq H] in
theorem isMark_changeMarks {mark} (h : changeMarks s metas item = .ok mark) :
    ∀ w ∈ mark, w.isMark = true := by
  simp only [changeMarks] at h
  split at h
  · cases h
    simp
  · split_ifs at h
    · exact isMark_clearChangedRecordBatch h
    · exact isMark_markChangedRecordBatch h

theorem exchange_commitItem {ws} (h : commitItem lib s metas item = .ok ws) :
    Exchange lib item.key item.snapshot.existing item.mutation.result ws := by
  simp only [commitItem, bind_eq_ok] at h
  obtain ⟨change, hchange, mark, hmark, h⟩ := h
  cases h
  refine Exchange.append_inert (Exchange.append_inert ?_ (inert_nameTransfer
    (item.snapshot.requiresResolve && item.parsed.ns == .name) _))
      (inert_of_isMark (isMark_changeMarks hmark))
  rw [recordWrites] at hchange
  rw [CASMutation.result]
  split_ifs at hchange ⊢
  · cases hchange
    exact exchange_drop hlib _ _
  · obtain ⟨_, -, rfl⟩ := map_eq_ok.mp hchange
    exact exchange_store hlib _ _

structure Committed (lib : RecordLib H) (s : Store H) (ready : Prepared H)
    (t : Store H) : Prop where
  mirrored : Mirrored lib s → Mirrored lib t
  slot : ∀ item ∈ ready, t.records[item.key]? = item.mutation.result
  other : ∀ key ∉ ready.map (·.key), t.records[key]? = s.records[key]?

variable (hnodup : (ready.map (·.key)).Nodup)
  (hcur : ∀ item ∈ ready, s.records[item.key]? = item.snapshot.existing)
include hnodup hcur

theorem committed_flush {t} (hst : MetaOnly s t) {batches}
    (hbatches : ready.mapM (commitItem lib t metas) = .ok batches) :
    Committed lib s ready (flush t (batches.flatten ++
      metas.flatMap fun m => [.putPathMeta m, .putPathStatus m.path false])) := by
  obtain ⟨rfl, hall⟩ := mapM_eq_ok [] hbatches
  obtain ⟨hm, hin, hout⟩ := flush_exchanges
    (fun item : PreparedCASMutation H => item.key)
    (fun item => item.mutation.result) _ s ready hnodup
    (fun item hitem => by
      rw [hcur item hitem]
      exact exchange_commitItem hlib (hall item hitem)) t fun _ _ => by rw [hst.records]
  rw [flush_append]
  refine ⟨fun hs => (hm (hst.mirrored hs)).flush_inert (inert_commitMetas metas),
    fun item hitem => ?_, fun key hkey => ?_⟩
  · rw [(flush_inert _ (inert_commitMetas metas)).1]
    exact hin item hitem
  · rw [(flush_inert _ (inert_commitMetas metas)).1, hout key hkey, hst.records]

theorem wp_commitReadyLocked (tip) (flushed) (halt : DkvsError → Halt) (height : ℕ) :
    wp (commitReadyLocked lib tip flushed halt ready height) s
      (fun _ t => Committed lib s ready t) (fun _ t => MetaOnly s t) := by
  simp only [commitReadyLocked, check, wp_bind, wp_ofExcept, wp_get, wp_set, wp_pure]
  refine wp_mono (wp_projectPathMetasLocked lib _ _ _ s) (fun metas t ht => ?_) fun _ _ ht => ht
  refine ⟨fun _ _ => ht, fun batches hbatches => ⟨fun _ _ => ht, fun _ _ => ?_⟩⟩
  obtain ⟨hmirrored, hslot, hother⟩ := committed_flush hlib hnodup hcur ht hbatches
  exact ⟨fun hs => (hmirrored hs).of_eq rfl rfl, hslot, hother⟩

end

end

variable {H : Type} [Ord H] {lib : RecordLib H} {record : Record} {s : Store H}
  {snapshot : WriteStateSnapshot} {height : ℕ} {key : Text} {ws : Batch H}

theorem inert_markDirtyChanged {present} (h : markDirtyChangedRecordBatch s present key = .ok ws) :
    ∀ w ∈ ws, w.inert = true := by
  simp only [markDirtyChangedRecordBatch, bind_eq_ok] at h
  obtain ⟨parsed, -, h⟩ := h
  split_ifs at h
  · cases h
    simp
  · exact inert_of_isMark (isMark_clearChangedRecordBatch h)
  · split at h
    · exact inert_of_isMark (isMark_markChangedRecordBatch h)
    · simp only [bind_eq_ok] at h
      obtain ⟨_, -, h⟩ := h
      exact inert_of_isMark (isMark_markChangedRecordBatch h)

theorem inert_markPathMetaDirty {touched} {path}
    (h : markPathMetaDirty lib s touched height path = .ok ws) : ∀ w ∈ ws, w.inert = true := by
  simp only [markPathMetaDirty, bind_eq_ok] at h
  obtain ⟨_, -, h⟩ := h
  cases h
  simp [Write.inert]

theorem inert_markPathMetaDirtyLocked {touched}
    (h : markPathMetaDirtyLocked lib s touched height = .ok ws) : ∀ w ∈ ws, w.inert = true := by
  obtain ⟨batches, hbatches, hflat⟩ := bind_eq_ok.mp h
  cases hflat
  exact forall_flatten_of_mapM hbatches fun _ _ _ => inert_markPathMetaDirty

variable [DecidableEq H]

theorem prevalidated_keys {env} {records} {rejectFreeLocal} {prepared}
    (h : prevalidateRecordSet lib env records rejectFreeLocal = .ok prepared) :
    (prepared.map (·.record.key)).Nodup := by
  simp only [prevalidateRecordSet, cloneRecordSet, bind_eq_ok, require_eq_ok,
    decide_eq_true_eq] at h
  obtain ⟨ordered, ⟨_, -, _, hnodup, hsort⟩, hprep⟩ := h
  cases hsort
  have hsame : prepared.map (·.record.key) = (sortByKey records).map Record.key := by
    refine map_of_mapM (fun r item hitem => ?_) hprep
    simp only [prevalidateRecord, bind_eq_ok] at hitem
    obtain ⟨_, -, _, -, _, -, _, -, _, -, _, -, hitem⟩ := hitem
    rw [← Except.ok.inj hitem]
  have hperm : (sortByKey records).Perm records := mergeSort_perm _ _
  rw [hsame]
  exact (hperm.map Record.key).nodup_iff.mpr hnodup

variable (hlib : CollisionFree lib)
include hlib

/-! ### Rules for the attempts: what their parts establish, they establish -/

structure PutChecked (lib : RecordLib H) (env : PutEnv H) (s : Store H) (record : Record)
    (parsed : ParsedKey) (snapshot : WriteStateSnapshot) (retention : Option PaidRecordRetention) :
    Prop where
  core : ∃ remote, lib.validateCoreWithVerifier env.clock.tip record env.clock.height remote =
    .ok parsed
  current : s.records[record.key]? = snapshot.existing
  height : env.lockClock.height = env.clock.height
  live : isTombstone record.flags = false
  mode : (lib.isFreeLocalRecord record && snapshot.existing.any (!lib.isFreeLocalRecord ·)) = false
  retained : verifiedRetention lib env.validators record parsed env.clock.height = .ok retention
  permitted : ∃ force,
    lib.validateWritePermissionWith parsed record snapshot.existing env.validators = .ok force
  stateful : validateStatefulLocked s env.validateQuota record parsed = .ok ()

variable [TransOrd H] {P : Store H → Prop}

theorem wp_putAttempt_of {env : PutEnv H} (hkeyed : Keyed s) (hs : P s)
    (hcaches : ∀ (t : Store H) generation retentions nameTransfers, P t →
      P { t with generation, retentions, nameTransfers })
    (hdelete : ∀ {stored parsed clear}, s.records[stored.key]? = some stored →
      parseKey stored.key = .ok parsed → record.key = stored.key → isTombstone record.flags = true →
      env.lockClock.height = env.clock.height → Ends (commitDeleteLocked lib env.lockClock.tip
        env.flushed parsed stored (some record) clear env.clock.height) s P)
    (hput : ∀ {parsed snapshot retention}, PutChecked lib env s record parsed snapshot retention →
      Ends (putRecordLocked lib env record parsed snapshot retention) s P) (remote : Bool) :
    Ends (putAttempt lib env record remote) s P := by
  simp only [putAttempt, check, wp_bind, wp_refuse, wp_ofExcept, wp_get, hs, implies_true, true_and]
  intro parsed hcore hmode retention hretention _ force hperm _ _ hlock _
  simp only [Bool.or_eq_false_iff, Bool.not_eq_false', bne_eq_false_iff_eq] at hlock
  obtain ⟨hcurrent, hheight⟩ := hlock
  have hcur := existing_of_stillCurrent hlib hcurrent
  rw [wp_ite]
  refine ⟨fun htomb => ?_, fun hlive => ?_⟩
  · rw [putTombstoneLocked]
    split
    · exact hs
    next stored hstored =>
    rw [hstored] at hcur
    have hkey : stored.key = record.key := hkeyed hcur
    have hparse := (validateCore_eq_ok.mp hcore).1.parseKey
    simp only [wp_bind, wp_refuse, wp_get, wp_set, wp_pure, hs, implies_true, true_and]
    intro _
    exact wp_mono (hdelete (hkey ▸ hcur) (hkey ▸ hparse) hkey.symm htomb hheight)
      (fun _ t ht => hcaches t _ _ _ ht) fun _ _ ht => ht
  · rw [Bool.not_eq_true] at hlive
    rw [hlive, if_neg Bool.false_ne_true] at hretention
    simp only [wp_bind, wp_ofExcept, hs, implies_true, true_and]
    intro _ hstateful
    have hstore := hput ⟨⟨_, hcore⟩, hcur, hheight, hlive, hmode, hretention, ⟨_, hperm⟩, hstateful⟩
    split
    · rw [wp_ite]
      exact ⟨fun _ => hcaches s _ _ _ hs, fun _ => hstore⟩
    · exact hstore

omit hlib in
theorem wp_deleteMirrorKeys_of (hkeyed : ∀ {t}, P t → Keyed t) {clock} {flushed}
    (hgeneration : ∀ (t : Store H) generation, P t → P { t with generation })
    (hdelete : ∀ {t record parsed}, P t → t.Holds record → parseKey
      record.key = .ok parsed → Ends (commitDeleteLocked lib clock.tip flushed parsed record none
      false clock.height) t P) (hs : P s) (keys) :
    Ends (deleteMirrorKeys lib clock flushed keys) s P := by
  refine wp_foldlM keys (fun _ t key _ ht => ?_) hs
  simp only [deleteMirrorKey, check, wp_bind, wp_ofExcept, wp_get, ht, implies_true, true_and]
  intro _ _
  split
  · exact ht
  next record hrecord =>
  simp only [wp_bind, wp_ofExcept, wp_get, wp_set, ht, implies_true, true_and]
  intro parsed hparse
  exact wp_mono (hdelete ht ((hkeyed ht).holds hrecord) hparse) (fun _ u hu => hgeneration u _ hu)
    fun _ _ hu => hu

variable [LawfulEqOrd H]

omit hlib in
omit [DecidableEq H] [LawfulEqOrd H] in
theorem stored_of_recordsForRanges (hs : Mirrored lib s) {tip} {ranges} {activeOnly}
    (h : record ∈ recordsForRangesLocked lib s tip ranges activeOnly height) : s.Holds record := by
  simp only [recordsForRangesLocked, mem_map, Prod.exists, exists_eq_right] at h
  obtain ⟨key, hkey⟩ := h
  obtain ⟨hfound, -⟩ := getElem?_indexByKey (ExtTreeMap.mem_toList_iff_getElem?_eq_some.mp hkey)
  obtain ⟨range, -, hin⟩ := mem_flatMap.mp hfound
  have hslot : ∃ k : Text, s.records[k]? = some record := by
    split_ifs at hin
    · obtain ⟨hin, -⟩ := mem_filter.mp hin
      exact ⟨_, Option.mem_toList.mp hin⟩
    · obtain ⟨hin, -⟩ := mem_filter.mp hin
      obtain ⟨k, hk, -⟩ := mem_scan.mp hin
      exact ⟨k, hk⟩
  obtain ⟨k, hk⟩ := hslot
  exact hs.holds hk

variable (env : PutEnv H) (parsed : ParsedKey)

theorem wp_putRecordLocked (retention) (hs : Mirrored lib s)
    (hcur : s.records[record.key]? = snapshot.existing) :
    Ends (putRecordLocked lib env record parsed snapshot retention) s (Mirrored lib) := by
  simp only [putRecordLocked, check, wp_bind, wp_ofExcept, wp_get, wp_set, wp_pure, hs,
    implies_true, true_and]
  intro _ _ _ _
  refine wp_mono (wp_pathMetaForMutationLocked lib _ _ _ _ _ _ s) (fun m t ht => ?_)
    fun _ _ ht => ht.mirrored hs
  have hm := ht.mirrored hs
  obtain ⟨_, _, rfl⟩ := ht
  simp only [hm, implies_true, true_and]
  intro _ _ mark hmark _ _
  have hex := exchange_put hlib record snapshot.existing (snapshot.requiresResolve &&
    parsed.ns == .name) (parsed.segments.headD []) m
    (isMark_elim hmark fun _ => isMark_markChangedRecordBatch)
  have hfinal := hex.mirrored _ hm hcur
  exact ⟨fun _ _ => hfinal, fun _ _ => hfinal⟩

theorem wp_commitDeleteLocked (tip) (flushed) (parsed) (command) (clearNameTransfer) (height : ℕ)
    (hs : Mirrored lib s) (hcur : s.Holds record) :
    Ends (commitDeleteLocked lib tip flushed parsed record command clearNameTransfer height) s
      (Mirrored lib) := by
  simp only [commitDeleteLocked, check, wp_bind, wp_refuse, wp_ofExcept, wp_get, wp_set, wp_pure,
    hs, implies_true, true_and]
  intro _ _
  refine wp_mono (wp_projectPathMetasLocked lib _ _ _ s) (fun metas t ht => ?_)
    fun _ _ ht => ht.mirrored hs
  have hm := ht.mirrored hs
  obtain ⟨_, _, rfl⟩ := ht
  simp only [hm, implies_true, true_and]
  exact fun _ hclear _ _ => (isRemoval_delete hclear _ _).mirrored hlib hm (.inl hcur)

theorem keeps_putAttempt (record : Record) (remote : Bool) :
    Keeps (Mirrored lib) (putAttempt lib env record remote) := by
  intro s hs
  exact wp_putAttempt_of hlib (fun _ _ => hs.keyed) hs (fun _ _ _ _ ht => ht)
    (fun hcur _ _ _ _ => wp_commitDeleteLocked hlib _ _ _ _ _ _ hs hcur)
    (fun h => wp_putRecordLocked hlib env _ _ hs h.current) remote

theorem keeps_deleteMirrorKeys (clock) (flushed) (keys) :
    Keeps (Mirrored lib) (deleteMirrorKeys lib clock flushed keys) := by
  intro s hs
  exact wp_deleteMirrorKeys_of (fun ht _ _ => ht.keyed) (fun _ _ ht => ht)
    (fun ht hcur _ => wp_commitDeleteLocked hlib _ _ _ _ _ _ ht hcur) hs keys

theorem keeps_batchAttempt (env) (mutations) :
    Keeps (Mirrored lib) (batchAttempt lib env mutations) := by
  intro s hs
  simp only [batchAttempt, finishBatchLocked, wp_bind, wp_ofExcept, wp_get, wp_ite, wp_pure, hs,
    implies_true, true_and]
  intro items hitems ready hready hne _ _
  obtain ⟨-, -, hnodup, hmap, -⟩ := prepareBatchCAS_eq_ok hitems
  obtain ⟨hcurrent, ⟨rfl, -⟩ | ⟨rfl, -⟩⟩ := batchCASReadyLocked_eq_ok hready
  · exact absurd rfl hne
  · rw [← hmap, map_map] at hnodup
    exact wp_mono (wp_commitReadyLocked hlib hnodup (fun item hitem =>
      existing_of_current hlib (hcurrent item hitem)) _ _ _ _) (fun _ _ ht => ht.mirrored hs)
      fun _ _ ht => ht.mirrored hs

end SatoshiNet.Dkvs
