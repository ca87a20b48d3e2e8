import SatoshiNet.Dkvs.Delivery
import SatoshiNet.Dkvs.HashIndex

/-!
Authority contract records are permanent: no write path changes the value of one or takes it out.

A batch is judged by its operations on the record table: what it stores under an authority key has
the value that is there already, and what it deletes is no authority key, or is stored again.
-/

namespace SatoshiNet.Dkvs

open Function Lib Std Action List
open Bool hiding true_and and_true

variable {H : Type} [Ord H] {lib : RecordLib H}

/-- Each record is stored under its own key and has passed the checks that every record must pass;
so the authority contract records have no lifetime and no fee proof. -/
structure Vetted (lib : RecordLib H) (s : Store H) : Prop where
  keyed : Keyed s
  sound : ∀ {key : Text} {record : Record}, s.records[key]? = some record →
    ∃ parsed, lib.CoreSound record parsed
  marshals : ∀ {key : Text} {record : Record}, s.records[key]? = some record →
    lib.marshalRecord record = .ok ()

def Held (s t : Store H) : Prop :=
  ∀ (key : Text) (record : Record), isAuthorityKey key = true → s.records[key]? = some record →
    ∃ record' : Record, t.records[key]? = some record' ∧ record'.value = record.value

structure Permanent (lib : RecordLib H) (s t : Store H) : Prop where
  vetted : Vetted lib t
  held : Held s t

variable {apart : Text → Prop} {record : Record} {s t u : Store H} {ws : Batch H}

theorem Vetted.key_ne_nil (hs : Vetted lib s) {key : Text} (hrecord : s.records[key]? = some record) :
    record.key ≠ [] := by
  intro hnil
  obtain ⟨parsed, hsound⟩ := hs.sound hrecord
  have hkey := (parseKey_eq_ok hsound.parseKey).1
  rw [hnil] at hkey
  cases hkey

theorem Permanent.of_records (hs : Vetted lib s) (hrecords : t.records = s.records) :
    Permanent lib s t := by
  refine ⟨⟨fun key record hrecord => ?_, fun {key record} hrecord => ?_,
    fun {key record} hrecord => ?_⟩, fun key record _ hrecord => ⟨record, by rwa [hrecords], rfl⟩⟩ <;>
    rw [hrecords] at hrecord
  · exact hs.keyed hrecord
  · exact hs.sound hrecord
  · exact hs.marshals hrecord

theorem Permanent.refl (hs : Vetted lib s) : Permanent lib s s := .of_records hs rfl

theorem Permanent.trans (h : Permanent lib s t) (h' : Permanent lib t u) : Permanent lib s u := by
  refine ⟨h'.vetted, fun key record hkey hrecord => ?_⟩
  obtain ⟨middle, hmiddle, hvalue⟩ := h.held key record hkey hrecord
  obtain ⟨last, hlast, hvalue'⟩ := h'.held key middle hkey hmiddle
  exact ⟨last, hlast, hvalue'.trans hvalue⟩

theorem MetaOnly.permanent (h : MetaOnly s t) (hs : Vetted lib s) : Permanent lib s t :=
  .of_records hs h.records

/-- The contract record of the slot, if there is one, has the value of the record. -/
def Agrees (s : Store H) (record : Record) : Prop :=
  isAuthorityKey record.key = true → ∀ stored : Record,
    s.records[record.key]? = some stored → stored.value = record.value

structure Storable (lib : RecordLib H) (s : Store H) (record : Record) : Prop where
  sound : ∃ parsed, lib.CoreSound record parsed
  value : Agrees s record

/-- The operation respects the contract records of the store, some keys apart. -/
def Write.Respects (lib : RecordLib H) (s : Store H) (apart : Text → Prop) : Write H → Prop
  | putRecord record => Storable lib s record ∧ lib.marshalRecord record = .ok ()
  | deleteRecord key => isAuthorityKey key = true → apart key
  | _ => True

variable [TransOrd H]

/-- The slot after a batch: as before if the batch stores nothing there, or as the batch says. -/
theorem flush_slot (s : Store H) (ws : Batch H) (key : Text) :
    ((flush s ws).records[key]? = s.records[key]? ∧ ∀ r, .putRecord r ∈ ws → r.key ≠ key) ∨
      (∃ r, .putRecord r ∈ ws ∧ r.key = key ∧ (flush s ws).records[key]? = some r) ∨
      (.deleteRecord key ∈ ws ∧ (flush s ws).records[key]? = none) := by
  induction ws generalizing s with
  | nil => exact .inl ⟨rfl, by simp⟩
  | cons w ws ih =>
    obtain ⟨hsame, hnone⟩ | ⟨r, hr, hkey, hslot⟩ | ⟨hgone, hslot⟩ := ih (w.apply s)
    · rw [flush_cons, hsame]
      cases w with
      | putRecord record =>
        rw [show (Write.apply s (.putRecord record)).records[key]? = _ from
          congrFun (lookup_insert s.records record.key record) key, update_apply]
        split_ifs with heq
        · exact .inr (.inl ⟨record, mem_cons_self, heq.symm, rfl⟩)
        · refine .inl ⟨rfl, fun r hr => ?_⟩
          obtain hr | hr := mem_cons.mp hr
          · rw [Write.putRecord.inj hr]
            exact Ne.symm heq
          · exact hnone r hr
      | deleteRecord gone =>
        rw [show (Write.apply s (.deleteRecord gone)).records[key]? = _ from
          congrFun (lookup_erase s.records gone) key, update_apply]
        split_ifs with heq
        · exact .inr (.inr ⟨heq ▸ mem_cons_self, rfl⟩)
        · exact .inl ⟨rfl, by simpa using hnone⟩
      | _ => exact .inl ⟨rfl, by simpa using hnone⟩
    · exact .inr (.inl ⟨r, mem_cons_of_mem _ hr, hkey, hslot⟩)
    · exact .inr (.inr ⟨mem_cons_of_mem _ hgone, hslot⟩)

/-- A commit: path metadata is brought up to date, then a batch is written that deletes no contract
record without storing it again, then tables other than the record table change. -/
theorem permanent_commit (hs : Vetted lib s) (hst : MetaOnly s t)
    (hu : u.records = (flush t ws).records)
    (h : ∀ w ∈ ws, w.Respects lib s fun key => (flush t ws).records[key]? ≠ none) :
    Permanent lib s u := by
  have hslots : ∀ key, u.records[key]? = s.records[key]? ∨
      (∃ r, .putRecord r ∈ ws ∧ r.key = key ∧ u.records[key]? = some r) ∨
      (.deleteRecord key ∈ ws ∧ u.records[key]? = none) := fun key => by
    rw [hu, ← hst.records]
    exact (flush_slot t ws key).imp_left And.left
  refine ⟨⟨fun key record hrecord => ?_, fun {key record} hrecord => ?_,
    fun {key record} hrecord => ?_⟩, fun key record hauth hrecord => ?_⟩ <;>
    obtain hsame | ⟨r, hr, hkey, hslot⟩ | ⟨hgone, hslot⟩ := hslots key
  · exact hs.keyed (hsame ▸ hrecord)
  · rwa [← Option.some.inj (hslot.symm.trans hrecord)]
  · cases hslot.symm.trans hrecord
  · exact hs.sound (hsame ▸ hrecord)
  · rw [← Option.some.inj (hslot.symm.trans hrecord)]
    exact (h _ hr).1.sound
  · cases hslot.symm.trans hrecord
  · exact hs.marshals (hsame ▸ hrecord)
  · rw [← Option.some.inj (hslot.symm.trans hrecord)]
    exact (h _ hr).2
  · cases hslot.symm.trans hrecord
  · exact ⟨record, hsame.trans hrecord, rfl⟩
  · subst hkey
    exact ⟨r, hslot, ((h _ hr).1.value hauth record hrecord).symm⟩
  · exact absurd (hu ▸ hslot) (h _ hgone hauth)

omit [TransOrd H] in
theorem respects_of_inert (h : ∀ w ∈ ws, w.inert = true) : ∀ w ∈ ws, w.Respects lib s apart := by
  intro w hw
  have hinert := h w hw
  cases w with
  | putRecord _ | deleteRecord _ => cases hinert
  | _ => trivial

omit [TransOrd H] in
theorem IsRemoval.respects (h : IsRemoval lib record ws)
    (hkey : isAuthorityKey record.key = true → apart record.key) :
    ∀ w ∈ ws, w.Respects lib s apart := by
  obtain ⟨rest, rfl, hrest⟩ := h
  refine forall_mem_append.mpr ⟨?_, respects_of_inert hrest⟩
  simpa [Write.Respects] using hkey

omit [TransOrd H] in
theorem validateContractIncoming_eq_ok {records replacedKeys}
    (h : validateContractIncomingLocked s records replacedKeys = .ok ()) :
    (∀ record ∈ records, Agrees s record) ∧
    ∀ key ∈ replacedKeys, isAuthorityKey key = true → ∃ record ∈ records, record.key = key := by
  simp only [validateContractIncomingLocked, bind_eq_ok, require_eq_ok, all_eq_true,
    or_eq_true, not_eq_true'] at h
  obtain ⟨incoming, hfold, hreplaced⟩ := h
  have hkeys : ∀ key : Text, incoming[key]?.isSome = true → ∃ record ∈ records, record.key = key := by
    refine foldlM_invariant (I := fun t : ExtTreeMap Text Record => ∀ key : Text,
      t[key]?.isSome = true → ∃ record ∈ records, record.key = key) records
      (fun t t' record hrecord ht hstep key hkey => ?_) ?_ hfold
    swap
    · simp
    rw [contractIncoming] at hstep
    split_ifs at hstep
    · simp only [bind_eq_ok] at hstep
      obtain ⟨_, -, _, -, hstep⟩ := hstep
      rw [← Except.ok.inj hstep, ExtTreeMap.getElem?_insert] at hkey
      split_ifs at hkey with heq
      · exact ⟨record, hrecord, LawfulEqOrd.compare_eq_iff_eq.mp heq⟩
      · exact ht key hkey
    · exact ht key (Except.ok.inj hstep ▸ hkey)
  refine ⟨fun record hrecord hauth stored hstored => ?_, fun key hkey hauth => ?_⟩
  · obtain ⟨_, _, hstep⟩ := foldlM_steps hfold record hrecord
    rw [contractIncoming, if_pos hauth] at hstep
    simp only [bind_eq_ok, require_eq_ok, hstored, Option.all_some, beq_iff_eq] at hstep
    obtain ⟨_, -, _, hvalue, -⟩ := hstep
    exact hvalue
  · exact hkeys key ((hreplaced key hkey).resolve_left (by simp [hauth]))

section Envelope

variable {lib : RecordLib H} {record : Record} {parsed : ParsedKey}

omit [Ord H] [TransOrd H]

theorem isAuthorityKey_eq (hparse : parseKey record.key = .ok parsed) :
    isAuthorityKey record.key = isAuthorityContractKey parsed := by
  rw [isAuthorityKey, hparse]
  rfl

theorem RecordLib.CoreSound.envelope (h : lib.CoreSound record parsed)
    (hkey : isAuthorityKey record.key = true) : validateEnvelope record = .ok () := by
  rw [isAuthorityKey_eq h.parseKey] at hkey
  simp only [RecordLib.CoreSound, RecordLib.validateCoreWithVerifier, bind_eq_ok,
    checkWhen_eq_ok] at h
  obtain ⟨_, -, p, -, _, henv, _, -, _, -, _, -, _, -, h⟩ := h
  cases h
  exact henv (by rw [hkey, Bool.or_true])

theorem sealed_facts (h : validateEnvelope record = .ok ()) :
    isTombstone record.flags = false ∧ record.ttl = 0 ∧ record.feeProof = [] := by
  simp only [validateEnvelope, require_eq_ok, and_eq_true, beq_iff_eq] at h
  obtain ⟨⟨⟨⟨⟨-, httl⟩, hflags⟩, hfee⟩, -⟩, -⟩ := h
  refine ⟨?_, httl, hfee⟩
  rw [isTombstone, hflags]
  rfl

end Envelope

omit [TransOrd H] in
theorem Vetted.envelope (h : Vetted lib s) {key : Text} (hrecord : s.records[key]? = some record)
    (hkey : isAuthorityKey record.key = true) : validateEnvelope record = .ok () := by
  obtain ⟨parsed, hsound⟩ := h.sound hrecord
  exact hsound.envelope hkey

variable [DecidableEq H] {lib : RecordLib H} {s : Store H}

theorem wp_putRecordLocked_permanent (lib) (hs : Vetted lib s) (env)
    (hstorable : Storable lib s record) (parsed) (snapshot retention) :
    Ends (putRecordLocked lib env record parsed snapshot retention) s (Permanent lib s) := by
  have hsame : Permanent lib s s := .refl hs
  simp only [putRecordLocked, check, wp_bind, wp_ofExcept, wp_get, wp_set, wp_pure, hsame,
    implies_true, true_and]
  intro _ _ _ _
  refine wp_mono (wp_pathMetaForMutationLocked lib _ _ _ _ _ _ s) (fun m t ht => ?_)
    fun _ _ ht => ht.permanent hs
  simp only [ht.permanent hs, implies_true, true_and]
  intro _ hmarshal mark hmark _ _
  have hinert := inert_of_isMark (isMark_elim hmark fun _ => isMark_markChangedRecordBatch)
  refine ⟨fun _ _ => permanent_commit hs ht rfl ?_, fun _ _ => permanent_commit hs ht rfl ?_⟩
  all_goals
    simp only [forall_mem_append, forall_mem_map, forall_mem_singleton]
    exact ⟨⟨⟨⟨⟨⟨hstorable, hmarshal⟩, fun _ _ => trivial⟩, trivial⟩,
      respects_of_inert (inert_nameTransfer _ _)⟩, fun _ _ => trivial⟩, respects_of_inert hinert⟩

theorem wp_commitDeleteLocked_permanent (hs : Vetted lib s) (tip) (flushed) {parsed}
    (hparse : parseKey record.key = .ok parsed) (command) (clearNameTransfer) (height : ℕ) :
    Ends (commitDeleteLocked lib tip flushed parsed record command clearNameTransfer height) s
      (Permanent lib s) := by
  have hsame : Permanent lib s s := .refl hs
  simp only [commitDeleteLocked, check, wp_bind, wp_refuse, wp_ofExcept, wp_get, wp_set, wp_pure,
    hsame, implies_true, true_and]
  intro hkind _
  have hkey : isAuthorityKey record.key = false := by
    rw [isAuthorityKey_eq hparse]
    exact (or_eq_false_iff.mp hkind).2
  refine wp_mono (wp_projectPathMetasLocked lib _ _ _ s) (fun metas t ht => ?_)
    fun _ _ ht => ht.permanent hs
  simp only [ht.permanent hs, implies_true, true_and]
  exact fun _ hclear _ _ => permanent_commit hs ht rfl
    ((isRemoval_delete hclear _ _).respects fun h => by rw [hkey] at h; cases h)

theorem wp_putAttempt_permanent (hlib : CollisionFree lib) (hs : Vetted lib s) (env) (record remote) :
    Ends (putAttempt lib env record remote) s (Permanent lib s) := by
  refine wp_putAttempt_of hlib hs.keyed (.refl hs)
    (fun _ _ _ _ ht => ht.trans (.of_records ht.vetted rfl))
    (fun _ hparse _ _ _ => wp_commitDeleteLocked_permanent hs _ _ hparse _ _ _)
    (fun {parsed _ _} h => ?_) remote
  obtain ⟨_, hcore⟩ := h.core
  have hsound := (validateCore_eq_ok.mp hcore).1
  refine wp_putRecordLocked_permanent lib hs env ⟨⟨parsed, hsound⟩, fun hkey => ?_⟩ _ _ _
  have hstateful := h.stateful
  rw [validateStatefulLocked, if_pos (isAuthorityKey_eq hsound.parseKey ▸ hkey)] at hstateful
  exact (validateContractIncoming_eq_ok hstateful).1 record mem_cons_self hkey

theorem wp_deleteMirrorKeys_permanent (hs : Vetted lib s) (clock) (flushed) (keys) :
    Ends (deleteMirrorKeys lib clock flushed keys) s (Permanent lib s) :=
  wp_deleteMirrorKeys_of (fun ht => ht.vetted.keyed)
    (fun _ _ ht => ht.trans (.of_records ht.vetted rfl)) (fun ht _ hparse => wp_mono
      (wp_commitDeleteLocked_permanent ht.vetted _ _ hparse _ _ _) (fun _ _ => ht.trans)
      fun _ _ => ht.trans) (.refl hs) keys

omit [TransOrd H] [DecidableEq H] in
theorem respects_commitItem {metas item} (h : commitItem lib t metas item = .ok ws)
    (hdelete : isTombstone item.mutation.record.flags = true → isAuthorityKey
      item.key = false) (hstore : Storable lib s item.mutation.record) :
    ∀ w ∈ ws, w.Respects lib s apart := by
  simp only [commitItem, bind_eq_ok] at h
  obtain ⟨change, hchange, mark, hmark, h⟩ := h
  cases h
  simp only [forall_mem_append, forall_mem_map]
  refine ⟨⟨⟨fun _ _ => trivial, ?_⟩, respects_of_inert (inert_nameTransfer _ _)⟩,
    respects_of_inert (inert_of_isMark (isMark_changeMarks hmark))⟩
  rw [recordWrites] at hchange
  split_ifs at hchange with htomb
  · cases hchange
    simp [Write.Respects, hdelete htomb]
  · obtain ⟨_, hmarshal, rfl⟩ := map_eq_ok.mp hchange
    exact forall_mem_cons.mpr ⟨⟨hstore, hmarshal⟩, forall_mem_singleton.mpr trivial⟩

omit [DecidableEq H] in
theorem wp_commitReadyLocked_permanent (hs : Vetted lib s) (tip) (flushed) (halt : DkvsError → Halt)
    (height : ℕ) {ready}
    (hdelete : ∀ item ∈ ready, isTombstone item.mutation.record.flags = true → isAuthorityKey
      item.key = false) (hstore : ∀ item ∈ ready, Storable lib s item.mutation.record) :
    Ends (commitReadyLocked lib tip flushed halt ready height) s (Permanent lib s) := by
  simp only [commitReadyLocked, check, wp_bind, wp_ofExcept, wp_get, wp_set, wp_pure]
  refine wp_mono (wp_projectPathMetasLocked lib _ _ _ s) (fun metas t ht => ?_)
    fun _ _ ht => ht.permanent hs
  simp only [ht.permanent hs, implies_true, true_and]
  intro batches hbatches _ _
  exact permanent_commit hs ht rfl (forall_mem_append.mpr
    ⟨forall_flatten_of_mapM hbatches fun item hitem ws hcommit =>
      respects_commitItem hcommit (hdelete item hitem) (hstore item hitem),
    respects_of_inert (inert_commitMetas metas)⟩)

theorem wp_batchAttempt_permanent (hs : Vetted lib s) (env) (mutations) :
    Ends (batchAttempt lib env mutations) s (Permanent lib s) := by
  have hsame : Permanent lib s s := .refl hs
  simp only [batchAttempt, finishBatchLocked, commitBatchCASLocked, wp_bind, wp_ofExcept, wp_get,
    wp_ite, wp_pure, hsame, implies_true, true_and]
  intro items hitems ready hready hne _ _
  obtain ⟨-, -, -, hmap, hprepared⟩ := prepareBatchCAS_eq_ok hitems
  have hplain : ∀ item ∈ items, isAuthorityKey item.key = false := by
    simp only [prepareBatchCAS, bind_eq_ok, require_eq_ok, all_eq_true, not_eq_true'] at hitems
    obtain ⟨_, hkeys, -⟩ := hitems
    intro item hitem
    exact hkeys item.mutation (hmap ▸ mem_map_of_mem hitem)
  obtain ⟨-, ⟨rfl, -⟩ | ⟨rfl, -⟩⟩ := batchCASReadyLocked_eq_ok hready
  · exact absurd rfl hne
  refine wp_commitReadyLocked_permanent hs _ _ _ _ (fun item hitem _ => hplain item hitem)
    fun item hitem => ?_
  obtain ⟨k, hitemPrepared⟩ := hprepared item hitem
  have hcore := (prepareMutation_eq_ok hitemPrepared).2.1
  refine ⟨⟨_, (validateCore_eq_ok.mp hcore).1⟩, fun hkey => ?_⟩
  rw [hplain item hitem] at hkey
  cases hkey

theorem wp_acceptAttempt_permanent (hs : Vetted lib s) (env) (record) :
    Ends (acceptAttempt lib env record) s (Permanent lib s) := by
  have hsame : Permanent lib s s := .refl hs
  simp only [acceptAttempt, acceptLocked, check, wp_bind, wp_refuse, wp_ofExcept, wp_get, wp_ite,
    wp_pure, hsame, implies_true, true_and, and_true]
  intro parsed hcore _ _ _ _ _ _ _ _ _ _ _ _ _ _ hstate
  have hsound := (validateCore_eq_ok.mp hcore).1
  refine wp_commitReadyLocked_permanent hs _ _ _ _ (forall_mem_singleton.mpr fun htomb => ?_)
    (forall_mem_singleton.mpr ⟨⟨parsed, hsound⟩, fun hkey => ?_⟩)
  · by_contra hkey
    rw [(sealed_facts (hsound.envelope (by simpa using hkey))).1] at htomb
    cases htomb
  · have hkind := hkey
    simp only [isAuthorityKey_eq hsound.parseKey] at hkind
    simp only [validateBatchStateLocked, filter_cons, hkind, if_true, filter_nil, map_cons, map_nil,
      isEmpty_cons, bind_eq_ok, checkWhen_eq_ok, Bool.not_false, forall_const] at hstate
    obtain ⟨_, hcontract, -⟩ := hstate
    exact (validateContractIncoming_eq_ok hcontract).1 record List.mem_cons_self hkey

end SatoshiNet.Dkvs
