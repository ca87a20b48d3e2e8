import SatoshiNet.Dkvs.PutTrack

/-!
The metadata that a batch or a removal projects commits to the view after it, so that batches and
removals keep a path tracked.
-/

namespace SatoshiNet.Dkvs

open Function Lib Std Action List Option

section

section Index

variable {key : Text} {records : Records}

theorem getElem?_foldl_insert (records : Records) (byKey : ExtTreeMap Text Record)
    (h : key ∈ records.map Record.key ∨ byKey[key]? ≠ none) :
    (records.foldl (fun byKey r => byKey.insert r.key r) byKey)[key]? ≠ none := by
  induction records generalizing byKey with
  | nil => exact h.resolve_left not_mem_nil
  | cons r records ih =>
    refine ih _ ?_
    rw [ExtTreeMap.getElem?_insert]
    rw [map_cons, mem_cons] at h
    obtain (rfl | h) | h := h
    · exact .inr (by simp)
    · exact .inl h
    · exact .inr (by split_ifs <;> simp [h])

theorem getElem?_indexByKey_iff (hinj : ∀ a ∈ records, ∀ b ∈ records, a.key = b.key → a = b)
    {record : Record} :
    (indexByKey records)[key]? = some record ↔ record ∈ records ∧ record.key = key := by
  refine ⟨getElem?_indexByKey, ?_⟩
  rintro ⟨hmem, rfl⟩
  obtain ⟨found, hfound⟩ := ne_none_iff_exists'.mp
    (getElem?_foldl_insert records ∅ (.inl (mem_map_of_mem hmem)))
  obtain ⟨hin, hkey⟩ := getElem?_indexByKey hfound
  obtain rfl := hinj found hin record hmem hkey
  exact hfound

theorem values_perm {table : ExtTreeMap Text Record} (hnodup : records.Nodup)
    (h : ∀ (key : Text) (record : Record),
      table[key]? = some record ↔ record ∈ records ∧ record.key = key) :
    (table.toList.map Prod.snd).Perm records := by
  have hvalues : (table.toList.map Prod.snd).Nodup :=
    (pairwise_values fun key record hr => ((h key record).mp hr).2).map _ fun _ _ hne => hne
  rw [perm_ext_iff_of_nodup hvalues hnodup]
  intro record
  simp only [List.mem_map, Prod.exists, exists_eq_right, ExtTreeMap.mem_toList_iff_getElem?_eq_some,
    h]
  exact ⟨fun ⟨_, hr, _⟩ => hr, fun hr => ⟨_, hr, rfl⟩⟩

end Index

variable {H : Type} {lib : RecordLib H} [Ord H]

def projected (lib : RecordLib H) (s : Store H) (height : ℕ) (item : PreparedCASMutation H) :
    Option Record :=
  if !isTombstone item.mutation.record.flags && (item.retention.isSome ||
      lib.networkPathRecordVisible s.retentions item.mutation.record height) then
    some item.mutation.record
  else none

theorem getElem?_projectItem (s) (height : ℕ) (byKey item) (key) :
    (projectItem lib s height byKey item)[key]? =
      if key = item.key then projected lib s height item else byKey[key]? := by
  have herase : (byKey.erase item.key)[key]? =
      if key = item.key then none else byKey[key]? :=
    (congrFun (lookup_erase byKey _) key).trans (update_apply _ _ _ _)
  have hinsert : ((byKey.erase item.key).insert item.key
      item.mutation.record)[key]? = if key = item.key then
        some item.mutation.record else (byKey.erase item.key)[key]? :=
    (congrFun (lookup_insert _ _ _) key).trans (update_apply _ _ _ _)
  simp only [projectItem, projected]
  split_ifs with hvisible hkey hkey
  · rw [hinsert, if_pos hkey]
  · rw [hinsert, if_neg hkey, herase, if_neg hkey]
  · rw [herase, if_pos hkey]
  · rw [herase, if_neg hkey]

theorem getElem?_foldl_projectItem (lib) (s) (height : ℕ) {items : Prepared H}
    (hnodup : (items.map (·.key)).Nodup) (byKey) :
    (∀ item ∈ items, (items.foldl (projectItem lib s height) byKey)[item.key]? =
      projected lib s height item) ∧
    ∀ key ∉ items.map (·.key),
      (items.foldl (projectItem lib s height) byKey)[key]? = byKey[key]? := by
  induction items generalizing byKey with
  | nil => exact ⟨forall_mem_nil _, fun _ _ => rfl⟩
  | cons first items ih =>
    obtain ⟨hfresh, hnodup⟩ := nodup_cons.mp hnodup
    obtain ⟨hin, hout⟩ := ih hnodup (projectItem lib s height byKey first)
    refine ⟨fun item hitem => ?_, fun key hkey => ?_⟩
    · obtain rfl | hitem := mem_cons.mp hitem
      · rw [foldl_cons, hout _ hfresh, getElem?_projectItem, if_pos rfl]
      · exact hin item hitem
    · rw [map_cons, mem_cons, not_or] at hkey
      rw [foldl_cons, hout key hkey.2, getElem?_projectItem, if_neg hkey.1]

variable {path : Text} {clock : Clock} {s : Store H} {height : ℕ}

/-- What the mutations of a path do to it: those that stay local change nothing that counts, and the
others are projected as they count. -/
structure Accounted (lib : RecordLib H) (path : Text) (s : Store H) (height : ℕ)
    (item : PreparedCASMutation H) : Prop where
  inside : inPath path item.key = true
  localOnly : item.isLocalOnly lib = true →
    (∀ old, s.records[item.key]? = some old → lib.counts old height = false) ∧
      ∀ next, item.mutation.result = some next → lib.counts next height = false
  shared : item.isLocalOnly lib = false →
    projected lib s height item = item.mutation.result.filter (lib.counts · height)

variable {group : Prepared H} {current m : PathMeta} {t : Store H}

section Projection

variable (hs : Tracked lib path clock s) (hp : NetworkPath path)
  (hnodup : (group.map (·.key)).Nodup)
  (hgroup : ∀ item ∈ group, Accounted lib path s height item) (ht : Keyed t)
  (hslot : ∀ item ∈ group, t.records[item.key]? = item.mutation.result)
  (hother : ∀ key, inPath path key = true → key ∉ group.map (·.key) →
    t.records[key]? = s.records[key]?)
include hs hp hnodup hgroup ht hslot hother

/-- The projected table has the view of any store in which the slots of the mutations are as they say
and the other slots of the path are as before. -/
theorem getElem?_projection (key record) :
    ((group.filter (!·.isLocalOnly lib)).foldl (projectItem lib s height)
        (indexByKey (s.view lib path height)))[key]? = some record ↔
      record ∈ t.view lib path height ∧ record.key = key := by
  have hsub : ((group.filter (!·.isLocalOnly lib)).map (·.key)).Sublist
      (group.map (·.key)) := filter_sublist.map _
  obtain ⟨hin, hout⟩ := getElem?_foldl_projectItem lib s height (hnodup.sublist hsub)
    (indexByKey (s.view lib path height))
  have hinj : ∀ a ∈ s.view lib path height, ∀ b ∈ s.view lib path height, a.key = b.key → a = b :=
    fun _ ha _ hb => Store.Holds.eq ((mem_view hs.keyed hp.ne_nil).mp ha).1
      ((mem_view hs.keyed hp.ne_nil).mp hb).1
  rw [mem_view ht hp.ne_nil]
  by_cases hkey : key ∈ (group.filter (!·.isLocalOnly lib)).map (·.key)
  · obtain ⟨item, hitem, rfl⟩ := mem_map.mp hkey
    obtain ⟨hmem, hshared⟩ := mem_filter.mp hitem
    have hacc := hgroup item hmem
    rw [hin item hitem, hacc.shared (by simpa using hshared), filter_eq_some_iff]
    constructor
    · rintro ⟨hresult, hcounts⟩
      have hown : record.key = item.key := by
        rw [CASMutation.result, ite_none_left_eq_some] at hresult
        exact congrArg Record.key (some.inj hresult.2).symm
      rw [hown, hslot item hmem]
      exact ⟨⟨hresult, hacc.inside, hcounts⟩, rfl⟩
    · rintro ⟨⟨hrecord, -, hcounts⟩, hown⟩
      rw [hown, hslot item hmem] at hrecord
      exact ⟨hrecord, hcounts⟩
  · rw [hout key hkey, getElem?_indexByKey_iff hinj, mem_view hs.keyed hp.ne_nil]
    refine and_congr_left fun hown => ?_
    subst hown
    by_cases hgroupKey : record.key ∈ group.map (·.key)
    · -- The slot of a mutation that stays local counts neither before nor after it.
      obtain ⟨item, hmem, hitemKey⟩ := mem_map.mp hgroupKey
      have hlocal : item.isLocalOnly lib = true := by
        by_contra hne
        exact hkey (mem_map.mpr ⟨item, mem_filter.mpr ⟨hmem, by simpa using hne⟩, hitemKey⟩)
      obtain ⟨hold, hnext⟩ := (hgroup item hmem).localOnly hlocal
      constructor
      · rintro ⟨hrecord, -, hcounts⟩
        rw [hold record (hitemKey ▸ hrecord)] at hcounts
        cases hcounts
      · rintro ⟨hrecord, -, hcounts⟩
        have hresult := (hslot item hmem).symm.trans (hitemKey ▸ hrecord)
        rw [hnext record hresult] at hcounts
        cases hcounts
    · constructor
      · rintro ⟨hrecord, hpath, hcounts⟩
        exact ⟨(hother _ hpath hgroupKey).trans hrecord, hpath, hcounts⟩
      · rintro ⟨hrecord, hpath, hcounts⟩
        exact ⟨(hother _ hpath hgroupKey).symm.trans hrecord, hpath, hcounts⟩

theorem commits_projectPathMeta (hpaid : Paid lib path s height) (hheight : clock.Reads height)
    (hm : projectPathMeta lib s clock.tip path current group height = .ok m) :
    m.viewHeight = height ∧ Commits lib m (t.view lib path height) := by
  simp only [projectPathMeta, bind_eq_ok,
    visibleRecords_eq_view hs hp.ne_nil hp.trimmed hpaid hheight] at hm
  obtain ⟨_, -, _, -, hm⟩ := hm
  cases hm
  have hperm := values_perm (nodup_view ht path height)
    (getElem?_projection hs hp hnodup hgroup ht hslot hother)
  refine ⟨(foldl_countIn_frame _ _).1.2, ?_⟩
  have hcommits := (commits_blank lib path (if (group.filter (!·.isLocalOnly lib)).isEmpty then
    current.generation else current.generation + 1) (current.endpointGeneration + 1)
      height).foldl_countIn fun record hrecord =>
        plain_of_counts ((mem_view ht hp.ne_nil).mp (hperm.mem_iff.mp hrecord)).2.2
  rw [append_nil] at hcommits
  exact hcommits.perm hperm

end Projection

variable [TransOrd H]

omit [Ord H] [TransOrd H] in
theorem spares_commitMetas {metas : List PathMeta} (h : path ∉ metas.map PathMeta.path) :
    ∀ w ∈ metas.flatMap fun m => [Write.putPathMeta (H := H) m, .putPathStatus m.path false],
      w.spares path = true := by
  intro w hw
  obtain ⟨m, hm, hw⟩ := mem_flatMap.mp hw
  have hne : m.path ≠ path := fun heq => h (mem_map.mpr ⟨m, hm, heq⟩)
  simp only [mem_cons, not_mem_nil, or_false] at hw
  obtain rfl | rfl := hw <;> simpa [Write.spares] using hne

theorem flush_commitMetas (s : Store H) {metas : List PathMeta}
    (h : path ∈ metas.map PathMeta.path) :
    ∃ m ∈ metas, m.path = path ∧ (flush s (metas.flatMap fun m =>
      [.putPathMeta m, .putPathStatus m.path false])).metas[path]? = some m := by
  induction metas generalizing s with
  | nil => cases h
  | cons first metas ih =>
    rw [flatMap_cons, flush_append]
    by_cases hrest : path ∈ metas.map PathMeta.path
    · obtain ⟨m, hm, hpath, hlast⟩ := ih (flush s _) hrest
      exact ⟨m, mem_cons_of_mem _ hm, hpath, hlast⟩
    rw [map_cons, mem_cons] at h
    have hfirst := (h.resolve_right hrest).symm
    refine ⟨first, mem_cons_self, hfirst, ?_⟩
    rw [(flush_spares path _ _ (spares_commitMetas hrest)).1]
    exact flush_putPathMeta s [] hfirst (by simp [hfirst])

omit [TransOrd H] in
theorem projectPathMeta_path {tip} {q}
    (h : projectPathMeta lib s tip q current group height = .ok m) : m.path = q := by
  simp only [projectPathMeta, bind_eq_ok] at h
  obtain ⟨_, -, _, -, h⟩ := h
  cases h
  exact (foldl_countIn_frame _ _).1.1

/-- Projecting the metadata of the touched paths keeps the path tracked and gives the projection of
the path, if it is one of them. -/
theorem wp_project_tracked (hs : Tracked lib path clock s) (hp : NetworkPath path) (ready)
    (hq : path ∈ touchedPaths ready → clock.Reads height ∧ Paid lib path s height) :
    wp (projectPathMetasLocked lib clock.tip ready height) s
      (fun metas t => MetaOnly s t ∧ Tracked lib path clock t ∧
        metas.map PathMeta.path = touchedPaths ready ∧ ∀ m ∈ metas, m.path = path →
          ∃ current, projectPathMeta lib s clock.tip path current (itemsOf path ready) height = .ok m)
      (fun _ t => MetaOnly s t ∧ Tracked lib path clock t) := by
  refine wp_foldlM_done (d := []) (I := fun done metas t => MetaOnly s t ∧
    Tracked lib path clock t ∧ metas.map PathMeta.path = done ∧ ∀ m ∈ metas, m.path = path →
      ∃ current, projectPathMeta lib s clock.tip path current (itemsOf path ready) height = .ok m)
    (touchedPaths ready) ?_ ⟨.refl s, hs, rfl, forall_mem_nil _⟩
  rintro done q metas t hmem ⟨hst, ht, hdone, hmetas⟩
  simp only [wp_bind]
  refine wp_mono (wp_ensure_tracked ht hp.ne_nil hp.trimmed q clock.tip fun heq =>
    ⟨rfl, (hq (heq ▸ hmem)).1, hst.paid (hq (heq ▸ hmem)).2⟩) (fun current u ⟨htu, hu, _⟩ => ?_)
    fun _ u hu => hu ▸ ⟨hst, ht⟩
  simp only [wp_get, wp_ofExcept, wp_pure]
  have hsu := hst.trans htu
  refine ⟨fun _ _ => ⟨hsu, hu⟩, fun m hm => ⟨hsu, hu, ?_, fun m' hm' hpath => ?_⟩⟩
  · rw [map_append, hdone, map_singleton, projectPathMeta_path hm]
  · obtain hm' | hm' := mem_append.mp hm'
    · exact hmetas m' hm' hpath
    · obtain rfl := mem_singleton.mp hm'
      obtain rfl := (projectPathMeta_path hm).symm.trans hpath
      obtain ⟨_, _, rfl⟩ := hsu
      exact ⟨current, hm⟩

end

open RecordLib

variable {H : Type} {lib : RecordLib H} {command : Option Record} {item : PreparedCASMutation H}
  {parsed : ParsedKey} {ready : Prepared H} {record : Record} {validators : Validators}

theorem isAccountBoundRecord_eq (hparse : parseKey record.key = .ok parsed) :
    isAccountBoundRecord record = (parsed.ns == .mail) := by
  rw [isAccountBoundRecord, hparse]
  rfl

theorem isEndpointCacheRecord_of_mail (hparse : parseKey record.key = .ok parsed)
    (hns : (parsed.ns == .mail) = true) : lib.isEndpointCacheRecord record = true := by
  rw [isEndpointCacheRecord, isAccountBoundRecord_eq hparse, hns]
  rfl

theorem counts_eq_false_of_cache (height : ℕ) (h : lib.isEndpointCacheRecord record = true) :
    lib.counts record height = false := by
  simp [counts, shown, h]

theorem isSome_of_verifiedRetention {height : ℕ} {retention}
    (h : verifiedRetention lib validators record parsed height = .ok retention)
    (hauto : lib.isAutopayRecord record = true) : retention.isSome = true := by
  simp only [verifiedRetention, bind_eq_ok,
    verifiedPaidRetentionAfterFeeVerification, hauto, if_true] at h
  obtain ⟨_, -, h⟩ := h
  split at h
  · cases h
  · simp only [bind_eq_ok] at h
    obtain ⟨_, -, _, -, h⟩ := h
    rw [← Except.ok.inj h]
    rfl

variable [DecidableEq H] {existing : Option Record} {force : Bool}

theorem not_internalTopic_of_permission (hparse : parseKey record.key = .ok parsed)
    (h : lib.validateWritePermissionWith parsed record existing validators = .ok force) :
    isInternalTopicRecord record = false := by
  by_contra htopic
  have htopic := Bool.not_eq_false _ ▸ htopic
  have hns : parsed.ns = .topic := by
    simp only [isInternalTopicRecord, hparse, Bool.and_eq_true] at htopic
    simpa [Except.toOption] using htopic.2
  simp [validateWritePermissionWith, isEVMSourceKey, isAuthorityContractKey,
    isPrimaryDIDRecord, hns, htopic] at h

theorem shown_of_replaces {old} (hparse : parseKey record.key = .ok parsed)
    (htomb : isTombstone record.flags = false)
    (hperm : lib.validateWritePermissionWith parsed record existing validators = .ok force)
    (hfree : lib.isFreeLocalRecord record = true → lib.isFreeLocalRecord old = true)
    (hkey : old.key = record.key) (hold : lib.shown old = true) : lib.shown record = true := by
  simp only [shown, isEndpointCacheRecord, Bool.and_eq_true, Bool.not_eq_true',
    Bool.or_eq_false_iff] at hold ⊢
  obtain ⟨-, ⟨hmail, -⟩, hlocal⟩ := hold
  rw [isAccountBoundRecord_eq (hkey.symm ▸ hparse)] at hmail
  refine ⟨htomb, ⟨?_, not_internalTopic_of_permission hparse hperm⟩, ?_⟩
  · rw [isAccountBoundRecord_eq hparse, hmail]
  · by_contra hne
    rw [hfree (by simpa using hne)] at hlocal
    cases hlocal

variable [Ord H] {path : Text} {clock : Clock} {s : Store H} {height : ℕ}

omit [DecidableEq H] [Ord H] in
theorem isLocalOnly_eq (item : PreparedCASMutation H) (hlocal : pathLocalOnly item.parsed = false) :
    item.isLocalOnly lib = (item.parsed.ns == .mail ||
      if isTombstone item.mutation.record.flags then
        item.snapshot.existing.any lib.isEndpointCacheRecord
      else lib.isEndpointCacheRecord item.mutation.record) := by
  rw [PreparedCASMutation.isLocalOnly, hlocal, Bool.false_or]

theorem accounted_of_prepared {env : BatchEnv H} {n : ℕ} (hs : Keyed s)
    (hcur : s.records[item.key]? = item.snapshot.existing)
    (hprep : prepareMutation lib env n item.mutation = .ok item) (hfresh : item.applied = false)
    (hlive : isExpired item.mutation.record height = false) (hin : inPath path item.key = true)
    (hlocal : pathLocalOnly item.parsed = false) : Accounted lib path s height item := by
  obtain ⟨-, hcore, hperm, -⟩ := prepareMutation_eq_ok hprep
  obtain ⟨hmode, hretention⟩ := prepareMutation_fresh hprep hfresh
  have hsound := (validateCore_eq_ok.mp hcore).1
  have hparse : parseKey item.key = .ok item.parsed := hsound.parseKey
  refine ⟨hin, fun hitem => ⟨fun old hold => ?_, fun next hnext => ?_⟩, fun hitem => ?_⟩
  · have hkey := hs hold
    rw [isLocalOnly_eq item hlocal, Bool.or_eq_true] at hitem
    obtain hns | hitem := hitem
    · exact counts_eq_false_of_cache height (isEndpointCacheRecord_of_mail (hkey ▸ hparse) hns)
    rw [hcur] at hold
    cases htomb : isTombstone item.mutation.record.flags with
    | true =>
      rw [htomb, if_pos rfl, hold] at hitem
      exact counts_eq_false_of_cache height hitem
    | false =>
      rw [htomb, if_neg Bool.false_ne_true] at hitem
      by_contra hcounts
      have hshown : lib.shown old = true := by
        simp only [counts, Bool.not_eq_false, Bool.and_eq_true] at hcounts
        exact hcounts.1.1
      have hfree : lib.isFreeLocalRecord item.mutation.record = true →
          lib.isFreeLocalRecord old = true := fun hfree => by
        simpa [storageModeDowngrade, htomb, hfree, hold] using hmode
      have hseen := shown_of_replaces hparse htomb hperm hfree hkey hshown
      simp [shown, hitem] at hseen
  · rw [CASMutation.result, Option.ite_none_left_eq_some] at hnext
    obtain ⟨htomb, hnext⟩ := hnext
    cases hnext
    rw [isLocalOnly_eq item hlocal, Bool.or_eq_true, if_neg htomb] at hitem
    exact counts_eq_false_of_cache height (hitem.elim (isEndpointCacheRecord_of_mail hparse) id)
  · rw [isLocalOnly_eq item hlocal, Bool.or_eq_false_iff] at hitem
    cases htomb : isTombstone item.mutation.record.flags with
    | true => simp [projected, CASMutation.result, htomb]
    | false =>
      have hshown : lib.shown item.mutation.record = true := by
        rw [htomb, if_neg Bool.false_ne_true] at hitem
        simp [shown, htomb, hitem.2]
      have hvisible : (item.retention.isSome ||
          lib.networkPathRecordVisible s.retentions item.mutation.record height) = true := by
        rw [networkPathRecordVisible_eq, hshown, paidRecordRelayableAt]
        cases hauto : lib.isAutopayRecord item.mutation.record with
        | false => simp
        | true =>
          simp only [prepareRetention, htomb, Bool.false_eq_true, if_false, bind_eq_ok] at hretention
          obtain ⟨retention, hverified, _, -, hsame⟩ := hretention
          rw [← Except.ok.inj hsame, isSome_of_verifiedRetention hverified hauto]
          rfl
      have hcounts : lib.counts item.mutation.record height = true := by
        rw [counts, hshown, wellFormed_of_sound hsound hshown, hlive]
        rfl
      simp [projected, CASMutation.result, htomb, hvisible, Option.filter, hcounts]

omit [DecidableEq H] [Ord H] in
theorem mem_touchedPaths {q} : q ∈ touchedPaths ready ↔
      ∃ item ∈ ready, pathLocalOnly item.parsed = false ∧ collectionPath item.parsed = q := by
  simp [touchedPaths, and_assoc]

omit [DecidableEq H] in
theorem spares_commitItem (path) {metas ws} (h : commitItem lib s metas item = .ok ws) :
    ∀ w ∈ ws, w.spares path = true := by
  simp only [commitItem, bind_eq_ok] at h
  obtain ⟨change, hchange, mark, hmark, h⟩ := h
  cases h
  have hrecords : ∀ w ∈ change, w.spares path = true := by
    rw [recordWrites] at hchange
    split_ifs at hchange
    · cases hchange
      simp [Write.spares]
    · obtain ⟨_, -, rfl⟩ := map_eq_ok.mp hchange
      simp [Write.spares]
  simp only [List.forall_mem_append, List.forall_mem_map]
  refine ⟨⟨⟨fun _ _ => rfl, hrecords⟩, ?_⟩, spares_of_isMark path (isMark_changeMarks hmark)⟩
  split_ifs <;> simp [Write.spares]

/-- A mutation that may be committed next to the path: it changes the path only with records of
its own that are accounted for. -/
structure Fits (lib : RecordLib H) (path : Text) (clock : Clock) (s : Store H) (height : ℕ)
    (item : PreparedCASMutation H) : Prop where
  parsed : parseKey item.key = .ok item.parsed
  within : inPath path item.key = true → InCollection path item.key
  issued : inPath path item.key = true → ∀ next, item.mutation.result = some next →
    next.issueHeight ≤ clock.issueHeightTip
  accounted : inPath path item.key = true → Accounted lib path s height item

omit [DecidableEq H] in
theorem Fits.collection (h : Fits lib path clock s height item)
    (hin : inPath path item.key = true) : collectionPath item.parsed = path :=
  (h.within hin).eq h.parsed

omit [DecidableEq H] in
theorem Fits.inside (h : Fits lib path clock s height item)
    (hpath : collectionPath item.parsed = path) (hne : path ≠ []) :
    inPath path item.key = true := by
  have hin := inPath_collectionPath h.parsed (hpath ▸ hne)
  rwa [hpath] at hin

omit [DecidableEq H] in
theorem Fits.touched (hp : NetworkPath path)
    (hfits : ∀ item ∈ ready, Fits lib path clock s height item) (hitem : item ∈ ready)
    (hin : inPath path item.key = true) : path ∈ touchedPaths ready :=
  mem_touchedPaths.mpr ⟨item, hitem, hp.not_local ((hfits item hitem).collection hin),
    (hfits item hitem).collection hin⟩

def Removes (command : Option Record) (record : Record) : Prop :=
  ∀ c, command = some c → c.key = record.key ∧ isTombstone c.flags = true

omit [DecidableEq H] [Ord H] in
theorem deletion_record (h : Removes command record) (parsed) :
    (deletion parsed record command : PreparedCASMutation H).key = record.key ∧
      isTombstone (deletion parsed record command :
        PreparedCASMutation H).mutation.record.flags = true := by
  cases command with
  | none => exact ⟨rfl, rfl⟩
  | some c => exact h c rfl

omit [DecidableEq H] in
theorem Paid.remove (h : Paid lib path s height) (hs : Keyed s) {key : Text} {t : Store H}
    (hrecords : ∀ k, t.records[k]? = if k = key then none else s.records[k]?)
    (hcache : t.retentions = s.retentions.erase key) : Paid lib path t height := by
  intro k record hrecord hin
  rw [hrecords] at hrecord
  split_ifs at hrecord with hk
  have hpaid := h k record hrecord hin
  have hother : (s.retentions.erase key)[record.key]? = s.retentions[record.key]? :=
    (congrFun (lookup_erase s.retentions key) record.key).trans
      (update_of_ne (fun heq => hk (hs hrecord ▸ heq)) _ _)
  rw [paidRecordRelayableAt, hcache, hother]
  exact hpaid

variable (hs : Tracked lib path clock s) (hp : NetworkPath path)
include hs hp

omit [DecidableEq H] in
theorem Tracked.commit (hheight : clock.Reads height) (ready) (hnodup : (ready.map (·.key)).Nodup)
    (hfits : ∀ item ∈ ready, Fits lib path clock s height item)
    (hpaid : path ∈ touchedPaths ready → Paid lib path s height) {t u}
    (ht : Tracked lib path clock t) (hst : MetaOnly s t)
    (hslot : ∀ item ∈ ready, u.records[item.key]? = item.mutation.result)
    (hother : ∀ key ∉ ready.map (·.key), u.records[key]? = s.records[key]?)
    (hin : path ∈ touchedPaths ready → ∃ m current, u.metas[path]? = some m ∧
      projectPathMeta lib s clock.tip path current (itemsOf path ready) height = .ok m)
    (hout : path ∉ touchedPaths ready → u.metas[path]? = t.metas[path]? ∧ (path ∈ u.dirtyPaths ↔
      path ∈ t.dirtyPaths)) : Tracked lib path clock u := by
  have hslots : Fills path clock s u := by
    intro key record hrecord
    by_cases hkey : key ∈ ready.map (·.key)
    · obtain ⟨item, hitem, rfl⟩ := mem_map.mp hkey
      rw [hslot item hitem] at hrecord
      have hnext := hrecord
      rw [CASMutation.result, ite_none_left_eq_some] at hnext
      obtain rfl := some.inj hnext.2
      exact .inr ⟨rfl, fun h => ⟨(hfits item hitem).within h, (hfits item hitem).issued h _ hrecord⟩⟩
    · exact .inl (hother key hkey ▸ hrecord)
  have hkeyed := hslots.keyed hs.keyed
  by_cases hpath : path ∈ touchedPaths ready
  · obtain ⟨m, current, hm, hproject⟩ := hin hpath
    have hsub : (itemsOf path ready).Sublist ready := filter_sublist
    have hgroup : ∀ item ∈ itemsOf path ready, Accounted lib path s height item := by
      intro item hitem
      obtain ⟨hmem, hitem⟩ := mem_filter.mp hitem
      simp only [Bool.and_eq_true, beq_iff_eq] at hitem
      exact (hfits item hmem).accounted ((hfits item hmem).inside hitem.2 hp.ne_nil)
    have hrest : ∀ key, inPath path key = true →
        key ∉ (itemsOf path ready).map (·.key) →
        u.records[key]? = s.records[key]? := by
      intro key hkey hfresh
      refine hother key fun hmem => hfresh ?_
      obtain ⟨item, hitem, rfl⟩ := mem_map.mp hmem
      have hcollection := (hfits item hitem).collection hkey
      refine mem_map_of_mem (f := fun item : PreparedCASMutation H => item.key)
        (mem_filter.mpr ⟨hitem, ?_⟩)
      simp [hcollection, hp.not_local hcollection]
    obtain ⟨hat, hcommits⟩ := commits_projectPathMeta hs hp (hnodup.sublist (hsub.map _)) hgroup
      hkeyed (fun item hitem => hslot item (hsub.subset hitem)) hrest (hpaid hpath) hheight hproject
    refine hs.exchange hslots fun m' hm' _ => ?_
    obtain rfl := some.inj (hm.symm.trans hm')
    rw [hat]
    exact hcommits
  · obtain ⟨hmetas, hdirty⟩ := hout hpath
    refine ht.congr hp.ne_nil hkeyed ⟨fun key hkey => ?_, hmetas, hdirty⟩
    rw [hst.records]
    refine hother key fun hmem => hpath ?_
    obtain ⟨item, hitem, rfl⟩ := mem_map.mp hmem
    exact Fits.touched hp hfits hitem hkey

section Deletion

variable (hcur : s.Holds record) (hparse : parseKey record.key = .ok parsed)
  (hcommand : Removes command record)
include hcur hparse hcommand

omit [DecidableEq H] in
theorem fits_deletion : Fits lib path clock s height (deletion parsed record command) := by
  obtain ⟨hkey, htomb⟩ := deletion_record (H := H) hcommand parsed
  have hresult : (deletion parsed record command : PreparedCASMutation H).mutation.result = none := by
    rw [CASMutation.result, if_pos htomb]
  refine ⟨by rw [hkey]; exact hparse, fun hin => ?_, fun _ next hnext => ?_, fun hin => ?_⟩
  · rw [hkey] at hin ⊢
    exact hs.within hcur hin
  · rw [hresult] at hnext
    cases hnext
  · refine ⟨hin, fun hitem => ⟨fun old hold => ?_, fun next hnext => ?_⟩, fun _ => ?_⟩
    · rw [hkey, hcur] at hold
      cases hold
      rw [hkey] at hin
      have hlocal := hp.not_local ((hs.within hcur hin).eq hparse)
      rw [isLocalOnly_eq _ hlocal, htomb, if_pos rfl, Bool.or_eq_true] at hitem
      exact counts_eq_false_of_cache height (hitem.elim (isEndpointCacheRecord_of_mail hparse) id)
    · rw [hresult] at hnext
      cases hnext
    · rw [projected, htomb, hresult]
      rfl

variable [TransOrd H]

theorem wp_commitDeleteLocked_tracked (hheight : clock.Reads height)
    (hpaid : Paid lib path s height) (flushed) (clearNameTransfer) :
    Ends (commitDeleteLocked lib clock.tip flushed parsed record command clearNameTransfer height) s
      fun t => Tracked lib path clock t ∧ Paid lib path t height := by
  simp only [commitDeleteLocked, check, wp_bind, wp_refuse, wp_ofExcept, wp_get, wp_set, wp_pure]
  refine ⟨fun _ => ⟨hs, hpaid⟩, fun _ => ⟨fun _ => ⟨hs, hpaid⟩, fun _ => ?_⟩⟩
  have hfits : Fits lib path clock s height (deletion parsed record command) :=
    fits_deletion hs hp hcur hparse hcommand
  obtain ⟨hkey, htomb⟩ := deletion_record (H := H) hcommand parsed
  refine wp_mono (wp_project_tracked hs hp [deletion parsed record command] fun _ =>
    ⟨hheight, hpaid⟩) (fun metas t h => ?_) fun _ _ h => ⟨h.2, h.1.paid hpaid⟩
  obtain ⟨hst, ht, hpaths, hmetas⟩ := h
  have hdone := And.intro ht (hst.paid hpaid)
  refine ⟨fun _ _ => hdone, fun clear hclear => ⟨fun _ _ => hdone, fun _ _ => ?_⟩⟩
  have hfound : ∀ m, metas.find? (fun m => decide (m.path = collectionPath parsed)) = some m →
      m ∈ metas ∧ m.path = collectionPath parsed := fun m hm =>
    ⟨mem_of_find?_eq_some hm, by simpa using find?_some hm⟩
  have hpresent : path ∈ touchedPaths (H := H) [deletion parsed record command] →
      ∃ m ∈ metas, m.path = path ∧
        metas.find? (fun m => decide (m.path = collectionPath parsed)) = some m := by
    intro hpath
    obtain ⟨item, hitem, -, hown⟩ := mem_touchedPaths.mp hpath
    obtain rfl := mem_singleton.mp hitem
    rw [← hpaths, List.mem_map] at hpath
    obtain ⟨m, hm, hmpath⟩ := hpath
    have hsome : (metas.find? fun m => decide (m.path = collectionPath parsed)).isSome = true :=
      find?_isSome.mpr ⟨m, hm, decide_eq_true (hmpath.trans hown.symm)⟩
    obtain ⟨m', hm'⟩ := isSome_iff_exists.mp hsome
    exact ⟨m', (hfound m' hm').1, (hfound m' hm').2.trans hown, hm'⟩
  generalize metas.find? (fun m => decide (m.path = collectionPath parsed)) = m?
    at hclear hfound hpresent ⊢
  have hmarks := isMark_elim hclear fun _ => isMark_clearChangedRecordBatch
  have hremoval : IsRemoval lib record _ := isRemoval_delete hclear
    (clearNameTransfer && parsed.ns == .name && parsed.segments.length == 1)
    (parsed.segments.headD [])
  have hslots := hremoval.slot t
  rw [hst.records] at hslots
  refine ⟨?_, hpaid.remove hs.keyed hslots (by obtain ⟨_, _, rfl⟩ := hst; rfl)⟩
  refine hs.commit hp hheight [deletion parsed record command] (nodup_singleton _)
    (forall_mem_singleton.mpr hfits) (fun _ => hpaid) ht hst
    (forall_mem_singleton.mpr ?_) (fun k hk => ?_) (fun hpath => ?_) fun hpath => ?_
  · rw [CASMutation.result, if_pos htomb, hkey]
    exact (hslots record.key).trans (if_pos rfl)
  · rw [map_singleton, mem_singleton, hkey] at hk
    exact (hslots k).trans (if_neg hk)
  · obtain ⟨m, hm, hown, rfl⟩ := hpresent hpath
    obtain ⟨current, hproject⟩ := hmetas m hm hown
    exact ⟨m, current, flush_putPathMeta t _ hown (by simp), hproject⟩
  · have hother : ∀ m, m? = some m → m.path ≠ path := fun m hm heq =>
      hpath (hpaths ▸ mem_map.mpr ⟨m, (hfound m hm).1, heq⟩)
    refine flush_spares path t _ ?_
    simp only [List.forall_mem_append, List.forall_mem_map, Option.mem_toList]
    refine ⟨⟨⟨⟨by simp [Write.spares], spares_of_isMark path hmarks⟩, fun m hm => ?_⟩, ?_⟩, fun m hm => ?_⟩
    · simpa [Write.spares] using hother m hm
    · split_ifs <;> simp [Write.spares]
    · simpa [Write.spares] using hother m hm

end Deletion

variable [TransOrd H] [LawfulEqOrd H]

theorem wp_commitBatchCASLocked_tracked (hlib : CollisionFree lib) {env}
    (hlock : env.lockClock = clock) (hnodup : (ready.map (·.key)).Nodup)
    (hcur : ∀ item ∈ ready, s.records[item.key]? = item.snapshot.existing)
    {C : Store H → Prop} (hfits : ∀ t, C t →
      (∀ item ∈ ready, t.records[item.key]? = item.mutation.result) →
        ∀ item ∈ ready, Fits lib path clock s clock.issueHeightTip item)
    (hpaid : path ∈ touchedPaths ready → Paid lib path s clock.issueHeightTip) :
    Ends (commitBatchCASLocked lib env ready) s fun t => C t → Tracked lib path clock t := by
  simp only [commitBatchCASLocked, commitReadyLocked, check, wp_bind, wp_ofExcept, wp_get, wp_set,
    wp_pure, hlock]
  refine wp_mono (wp_project_tracked hs hp ready fun h => ⟨clock.reads_issueHeightTip, hpaid h⟩)
    (fun metas t h => ?_) fun _ _ h _ => h.2
  obtain ⟨hst, ht, hpaths, hmetas⟩ := h
  refine ⟨fun _ _ _ => ht, fun batches hbatches => ⟨fun _ _ _ => ht, fun _ _ hwritten => ?_⟩⟩
  obtain ⟨-, hslot, hother⟩ := committed_flush hlib hnodup hcur hst hbatches
  refine hs.commit hp clock.reads_issueHeightTip ready hnodup (hfits _ hwritten hslot) hpaid ht hst
    hslot hother (fun hpath => ?_) fun hpath => ?_
  · obtain ⟨m, hm, hown, hlast⟩ := flush_commitMetas (flush t batches.flatten) (hpaths ▸ hpath)
    obtain ⟨current, hproject⟩ := hmetas m hm hown
    exact ⟨m, current, by rw [flush_append]; exact hlast, hproject⟩
  · refine flush_spares path t _ (forall_mem_append.mpr ⟨forall_flatten_of_mapM hbatches
      fun item _ _ hcommit => spares_commitItem path hcommit, spares_commitMetas (hpaths ▸ hpath)⟩)

end SatoshiNet.Dkvs
