import SatoshiNet.Dkvs.Mirror

/-!
Record sets, path snapshots and the removal of expired records keep the hash index in step with the
record table.
-/

namespace SatoshiNet.Dkvs

open Function Lib Std Action List Option

variable {H : Type} [Ord H] {lib : RecordLib H} {height : ℕ} {installs : List (Batch H)}
  {path : Text} {record : Record} {records : Records} {s : Store H}
  {validated : ValidatedPathSnapshot} {ws : Batch H} {env : SnapshotEnv} {generation : ℕ}
  {installed : Records} {key : Text} {t : Store H} {tip : Option ℕ}

theorem findKey_isNone : (findKey records key).isNone = true ↔ key ∉ records.map Record.key := by
  simp [findKey]

theorem findKey_eq_some (h : findKey records key = some record) :
    record ∈ records ∧ record.key = key :=
  ⟨mem_of_find?_eq_some h, by simpa using find?_some h⟩

theorem exists_findKey (h : record ∈ records) :
    ∃ found, findKey records record.key = some found ∧ found ∈ records ∧ found.key = record.key := by
  have hsome : (findKey records record.key).isSome = true :=
    find?_isSome.mpr ⟨record, h, decide_eq_true rfl⟩
  obtain ⟨found, hfound⟩ := isSome_iff_exists.mp hsome
  exact ⟨found, hfound, findKey_eq_some hfound⟩

theorem findKey_of_mem (hnodup : (records.map Record.key).Nodup) (h : record ∈ records) :
    findKey records record.key = some record := by
  obtain ⟨found, hfound, hmem, hkey⟩ := exists_findKey h
  rw [hfound, inj_on_of_nodup_map hnodup hmem h hkey]

def InCollection (path key : Text) : Prop :=
  ∃ parsed, parseKey key = .ok parsed ∧ collectionPath parsed = path

theorem InCollection.eq {key} {parsed} (h : InCollection path key)
    (hparse : parseKey key = .ok parsed) : collectionPath parsed = path := by
  obtain ⟨p, hp, hpath⟩ := h
  rwa [← Except.ok.inj (hparse.symm.trans hp)] at hpath

theorem trimSlash_stringsTrimPath (h : 1 < (stringsTrimPath path).length) :
    trimSlash (stringsTrimPath path) = stringsTrimPath path := by
  rw [trimSlash, if_neg]
  intro hlast
  cases path with
  | nil => simp [stringsTrimPath] at hlast
  | cons c rest =>
    simp only [stringsTrimPath] at h hlast
    cases hdrop : rest.reverse.dropWhile (· == '/') with
    | nil => simp [hdrop] at h
    | cons d dropped =>
      have hhead := head_dropWhile_not (· == '/') (l := rest.reverse) (by simp [hdrop])
      simp only [hdrop, head_cons, beq_eq_false_iff_ne] at hhead
      simp only [hdrop, reverse_cons] at hlast
      rw [← cons_append, getLast?_concat, some.injEq] at hlast
      exact hhead hlast

theorem one_lt_length_pathText (ns segments) : 1 < (pathText ns segments).length := by
  simp only [pathText, cons_append, length_cons, length_append]
  omega

theorem stageExpiredRecord_eq_ok {staged} (h : stageExpiredRecord lib s record = .ok staged) :
    IsRemoval lib record staged.1 := by
  simp only [stageExpiredRecord, bind_eq_ok] at h
  obtain ⟨parsed, -, h⟩ := h
  split_ifs at h
  · cases h
    exact ⟨[], rfl, forall_mem_nil _⟩
  · obtain ⟨clear, hclear, h⟩ := bind_eq_ok.mp h
    cases h
    exact ⟨clear, rfl, inert_of_isMark (isMark_clearChangedRecordBatch hclear)⟩

theorem snapshotRemoval_eq_ok (h : snapshotRemoval lib s path record = .ok ws) :
    IsRemoval lib record ws := by
  obtain ⟨clear, hclear, rfl⟩ := map_eq_ok.mp h
  exact ⟨clear, rfl, inert_of_isMark (isMark_clearChangedRecordBatch hclear)⟩

theorem inert_stageExpiredPath {canonical}
    (h : stageExpiredPath lib s tip height canonical path = .ok ws) : ∀ w ∈ ws, w.inert = true := by
  simp only [stageExpiredPath, bind_eq_ok] at h
  obtain ⟨_, -, h⟩ := h
  cases h
  simp [Write.inert]

section Validation

variable [DecidableEq H] {clock : Clock} {snapshot : PathSnapshot} {validators : Validators}

omit [Ord H]

structure Validated (lib : RecordLib H) (clock : Clock) (validators : Validators)
    (snapshot : PathSnapshot) (validated : ValidatedPathSnapshot) : Prop where
  path : validated.path = stringsTrimPath snapshot.path
  scope : (normalizeNetworkScope validated.path).isOk = true
  computed : validated.pathMeta = snapshot.records.foldl lib.countIn
    (.blank validated.path snapshot.pathMeta.generation 0 snapshot.pathMeta.viewHeight)
  root : validated.pathMeta.stateRoot = snapshot.pathMeta.stateRoot
  active : validated.active.Perm snapshot.records
  nodup : (validated.active.map Record.key).Nodup
  payments : validated.retentions.map Prod.fst = snapshot.records.map Record.key
  checked : ∀ record ∈ snapshot.records, ∃ total retention,
    validateSnapshotRecord lib clock validators validated.path snapshot.pathMeta.viewHeight total
      record = .ok retention ∧ (record.key, retention) ∈ validated.retentions
  policy : validated.policyVersion = validators.policyGeneration
  height : validated.height = clock.height

theorem foldlM_validateSnapshotStep_eq_ok {viewHeight : ℕ} {start tally}
    (h : records.foldlM (validateSnapshotStep lib clock validators path viewHeight) start = .ok
      tally) : tally.computed = records.foldl lib.countIn start.computed ∧
      tally.active = start.active ++ records ∧
      ((start.active.map Record.key).Nodup → (tally.active.map Record.key).Nodup) ∧
      tally.retentions.map Prod.fst = start.retentions.map Prod.fst ++ records.map Record.key ∧
      start.retentions ⊆ tally.retentions ∧
      ∀ record ∈ records, ∃ total retention,
        validateSnapshotRecord lib clock validators path viewHeight total record = .ok retention ∧
          (record.key, retention) ∈ tally.retentions := by
  induction records generalizing start with
  | nil =>
    cases h
    simp
  | cons record records ih =>
    obtain ⟨next, hstep, hrest⟩ := foldlM_cons_eq_ok.mp h
    simp only [validateSnapshotStep, bind_eq_ok, require_eq_ok] at hstep
    obtain ⟨_, hfresh, retention, hretention, hstep⟩ := hstep
    cases hstep
    obtain ⟨hcomputed, hactive, hnodup, hkeys, hkept, hall⟩ := ih hrest
    refine ⟨hcomputed, by rw [hactive, append_assoc, singleton_append],
      fun hstart => hnodup ?_, ?_, fun entry hentry => hkept (mem_append_left _ hentry),
      forall_mem_cons.mpr ⟨⟨_, retention, hretention, hkept (by simp)⟩, hall⟩⟩
    · rw [map_append, map_singleton, ← concat_eq_append, nodup_concat]
      exact ⟨findKey_isNone.mp hfresh, hstart⟩
    · rw [hkeys, map_append, append_assoc]
      rfl

theorem validatePathSnapshot_eq_ok
    (h : validatePathSnapshot lib clock validators snapshot = .ok validated) :
    Validated lib clock validators snapshot validated := by
  simp only [validatePathSnapshot, bind_eq_ok, require_eq_ok, Bool.and_eq_true, beq_iff_eq] at h
  obtain ⟨_, ⟨hscope, -⟩, _, -, tally, htally, _, ⟨⟨⟨hroot, -⟩, -⟩, -⟩, h⟩ := h
  cases h
  obtain ⟨hcomputed, hactive, hnodup, hkeys, -, hall⟩ := foldlM_validateSnapshotStep_eq_ok htally
  rw [nil_append] at hactive
  have hperm : (sortByKey tally.active).Perm tally.active := mergeSort_perm _ _
  exact ⟨rfl, hscope, hcomputed, hroot, hactive ▸ hperm,
    (hperm.map Record.key).nodup_iff.mpr (hnodup nodup_nil), hkeys, hall, rfl, rfl⟩

variable (h : Validated lib clock validators snapshot validated)
include h

theorem Validated.within : ∀ record ∈ validated.active, InCollection validated.path record.key := by
  intro record hrecord
  obtain ⟨_, _, hchecked, -⟩ := h.checked record (h.active.mem_iff.mp hrecord)
  simp only [validateSnapshotRecord, bind_eq_ok, require_eq_ok, mapError_eq_ok, Bool.and_eq_true,
    beq_iff_eq] at hchecked
  obtain ⟨parsed, hparsed, _, ⟨hpath, -⟩, -⟩ := hchecked
  exact ⟨parsed, hparsed, hpath⟩

theorem Validated.trimmed (hlen : 1 < validated.path.length) :
    trimSlash validated.path = validated.path := by
  rw [h.path] at hlen ⊢
  exact trimSlash_stringsTrimPath hlen

end Validation

section Slots

variable [DecidableEq H] (lib : RecordLib H) (s u : Store H) (validated : ValidatedPathSnapshot)
  (height : ℕ)

abbrev snapshotRemoved : Records :=
  (replaceableRecords lib s validated height).filter (!sameIn lib validated.active ·)

abbrev snapshotInstalled : Records :=
  validated.active.filter (!sameIn lib (replaceableRecords lib s validated height) ·)

/-- The record table after the installation: the slots of the snapshot as it says, the replaced
records gone, the others as before. -/
structure SnapshotSlots : Prop where
  slot (k : Text) : u.records[k]? = (findKey validated.active k).or
    (if k ∈ (snapshotRemoved lib s validated height).map Record.key then none else s.records[k]?)

variable {lib s u validated height}

theorem SnapshotSlots.cases (h : SnapshotSlots lib s u validated height) {key : Text}
    (hrecord : u.records[key]? = some record) : record ∈ validated.active ∧ record.key = key ∨
      findKey validated.active key = none ∧
        key ∉ (snapshotRemoved lib s validated height).map Record.key ∧
        s.records[key]? = some record := by
  rw [h.slot] at hrecord
  cases hfound : findKey validated.active key with
  | some found =>
    rw [hfound, some_or, some.injEq] at hrecord
    exact hrecord ▸ .inl (findKey_eq_some hfound)
  | none =>
    rw [hfound, none_or] at hrecord
    split_ifs at hrecord with hkept
    exact .inr ⟨rfl, hkept, hrecord⟩

end Slots

variable [TransOrd H] [LawfulEqOrd H] [DecidableEq H] {clock : Clock} {snapshot : PathSnapshot}
  {validators : Validators} (hlib : CollisionFree lib)
include hlib

theorem mirrored_stageExpired (hs : Mirrored lib s) {batch}
    (h : stageExpiredRecordsLocked lib s tip records height = .ok batch)
    (hslot : ∀ record ∈ records, s.Holds record) : Mirrored lib (flush s batch) := by
  simp only [stageExpiredRecordsLocked, bind_eq_ok] at h
  obtain ⟨staged, hstaged, metas, hmetas, h⟩ := h
  cases h
  obtain ⟨rfl, hall⟩ := mapM_eq_ok ([], none) hstaged
  rw [flush_append, List.map_map]
  refine Mirrored.flush_inert ?_ (forall_flatten_of_mapM hmetas fun _ _ _ => inert_stageExpiredPath)
  exact (flush_removals hlib _ records (fun r hr => stageExpiredRecord_eq_ok (hall r hr)) s hs
    fun r hr => .inl (hslot r hr)).1

theorem wp_commitExpired (tip) (flushed) (height : ℕ) (hs : Mirrored lib s)
    (hslot : ∀ record ∈ records, s.Holds record) :
    Ends (commitExpired lib tip flushed records height) s (Mirrored lib) := by
  simp only [commitExpired, check, wp_bind, wp_get, wp_ite, wp_pure, wp_ofExcept, wp_set, hs,
    implies_true, true_and]
  exact fun _ _ hbatch _ _ => mirrored_stageExpired hlib hs hbatch hslot

theorem keeps_pruneExpiredAt (clock) (flushed) (popped) (height : ℕ) :
    Keeps (Mirrored lib) (pruneExpiredAt lib clock flushed popped height) := by
  intro s hs
  simp only [pruneExpiredAt, wp_bind, wp_get]
  refine wp_commitExpired hlib _ _ _ hs fun record hrecord => ?_
  obtain ⟨hfound, -⟩ := mem_filter.mp hrecord
  obtain ⟨key, -, hkey⟩ := mem_filterMap.mp hfound
  exact hs.holds hkey

theorem keeps_pruneExpiredAutopayAt (seen clock lockClock) (validators)
    (policyGeneration graceBlocks : ℕ) (flushed) (height : ℕ) :
    Keeps (Mirrored lib) (pruneExpiredAutopayAt lib seen clock lockClock validators
      policyGeneration graceBlocks flushed height) := by
  intro s hs
  rw [pruneExpiredAutopayAt]
  split
  · exact hs
  simp only [wp_ite, wp_pure, wp_bind, wp_refuse, wp_get, hs, implies_true, true_and]
  refine fun _ _ => wp_commitExpired hlib _ _ _ hs fun record hrecord => ?_
  obtain ⟨item, -, hitem⟩ := mem_filterMap.mp hrecord
  obtain ⟨hkey, -⟩ := filter_eq_some_iff.mp hitem
  exact hs.holds hkey

def storeWrites (lib : RecordLib H) (s : Store H) (record : Record) : Batch H :=
  (s.records[record.key]?).toList.map (.deleteHash <| lib.recordHash ·) ++ storing lib record

omit hlib in
omit [TransOrd H] [LawfulEqOrd H] in
theorem installRecords_eq_ok (h : installed.mapM (installRecord lib s) = .ok installs) :
    installs.flatten =
      ((installed.filter (!alreadyStored lib s ·)).map (storeWrites lib s)).flatten := by
  induction installed generalizing installs with
  | nil => rw [← Except.ok.inj h]; rfl
  | cons record installed ih =>
    obtain ⟨ws, hws, rest, hrest, rfl⟩ := mapM_cons_eq_ok.mp h
    rw [flatten_cons, ih hrest]
    rw [installRecord] at hws
    split_ifs at hws with hstored
    · cases hws
      rw [filter_cons_of_neg (by simp [hstored]), nil_append]
    · obtain ⟨_, -, rfl⟩ := map_eq_ok.mp hws
      rw [filter_cons_of_pos (by simp [hstored]), map_cons, flatten_cons]
      rfl

theorem mirrored_replace (hs : Mirrored lib s) {removed : Records}
    (hstored : ∀ record ∈ removed, s.Holds record)
    (hkept : ∀ record ∈ removed, record.key ∉ installed.map Record.key)
    (hnodup : (installed.map Record.key).Nodup)
    (hinstalls : installed.mapM (installRecord lib s) = .ok installs) :
    Mirrored lib (flush s (removed.flatMap (erasing lib) ++ installs.flatten)) := by
  rw [flush_append, flatMap_def, installRecords_eq_ok hinstalls]
  obtain ⟨hm, hslots⟩ := flush_removals hlib (erasing lib) removed
    (fun record _ => ⟨[], rfl, forall_mem_nil _⟩) s hs fun r hr => .inl (hstored r hr)
  have hsub : (installed.filter (!alreadyStored lib s ·)).Sublist installed := filter_sublist
  refine (flush_exchanges Record.key some (storeWrites lib s) s _ (hnodup.sublist (hsub.map _))
    (fun record _ => exchange_store hlib record _) _ fun record hrecord => ?_).1 hm
  -- A removed record has no successor in the set, so the slots to be filled are as they were.
  rw [hslots, if_neg]
  intro hin
  obtain ⟨old, hold, hkey⟩ := mem_map.mp hin
  refine hkept old hold ?_
  rw [hkey]
  exact mem_map_of_mem (hsub.subset hrecord)

theorem keeps_applyRecordSetAttempt (env) (records) (replace)
    (checkRoot authoritative rejectFreeLocal) :
    Keeps (Mirrored lib) (applyRecordSetAttempt lib env records replace checkRoot authoritative
      rejectFreeLocal) := by
  intro s hs
  simp only [applyRecordSetAttempt, check, wp_bind, wp_refuse, wp_ofExcept, wp_get, wp_set, wp_pure,
    hs, implies_true, true_and]
  intro prepared hprepared _ _ _ _ _ _ _ _ _ _ installs hinstalls dirty hdirty marks hmarks _ _
  have hsub : (if authoritative then prepared else
      prepared.filter (mergeSelects lib s env.lockClock.tip env.lockClock.height)).Sublist
      prepared := by
    split_ifs
    · exact List.Sublist.refl _
    · exact filter_sublist
  have hnodup := (prevalidated_keys hprepared).sublist (hsub.map (·.record.key))
  have hdirty' := inert_markPathMetaDirtyLocked hdirty
  have hmarks' := forall_flatten_of_mapM hmarks fun _ _ _ => inert_markDirtyChanged
  refine Mirrored.of_eq (s := flush s _) ?_ rfl rfl
  rw [append_assoc, flush_append]
  refine Mirrored.flush_inert ?_ fun w hw =>
    (mem_append.mp hw).elim (hdirty' w) (hmarks' w)
  refine mirrored_replace hlib hs (fun record hrecord => ?_)
    (fun record hrecord => findKey_isNone.mp (mem_filter.mp hrecord).2) ?_ hinstalls
  · obtain ⟨hcurrent, -⟩ := mem_filter.mp hrecord
    obtain ⟨hfound, -⟩ := mem_filter.mp hcurrent
    cases replace with
    | none => cases hfound
    | some ranges => exact stored_of_recordsForRanges hs hfound
  · rw [List.map_map]
    exact hnodup

omit hlib in
omit [LawfulEqOrd H] [DecidableEq H] in
theorem stored_of_mem_scan (hs : Mirrored lib s) (h : record ∈ s.scan path) : s.Holds record := by
  obtain ⟨key, hkey, -⟩ := mem_scan.mp h
  exact hs.holds hkey

omit hlib in
omit [TransOrd H] [LawfulEqOrd H] [DecidableEq H] in
theorem mem_scan_of_inCollection (hrecord : s.Holds record)
    (hin : InCollection path record.key) (htrim : 1 < path.length → trimSlash path = path) :
    record ∈ s.scan (trimSlash path) := by
  obtain ⟨parsed, hparsed, rfl⟩ := hin
  by_cases hpath : collectionPath parsed = []
  · rw [hpath]
    exact mem_scan.mpr ⟨record.key, hrecord, rfl, .inl rfl⟩
  · have hpre := inPath_collectionPath hparsed hpath
    obtain ⟨n, -, htext⟩ := collectionPath_eq_take hpath
    rw [htrim (by rw [htext]; exact one_lt_length_pathText _ _)]
    exact mem_scan.mpr ⟨record.key, hrecord, isPrefixOf_of_inPath hpre, .inr hpre⟩

theorem removed_of_installed (hs : Mirrored lib s) {stored}
    (hv : Validated lib clock validators snapshot validated) (hrecord : record ∈ validated.active)
    (hnew : sameIn lib (replaceableRecords lib s validated height) record = false)
    (hslot : s.records[record.key]? = some stored) :
    stored ∈ snapshotRemoved lib s validated height := by
  have hkey : stored.key = record.key := hs.keyed hslot
  have hactive : findKey validated.active stored.key = some record := by
    rw [hkey]
    exact findKey_of_mem hv.nodup hrecord
  have hcurrent : stored ∈ replaceableRecords lib s validated height := by
    refine mem_filter.mpr ⟨mem_scan_of_inCollection ?_ ?_ hv.trimmed, by rw [hactive]; rfl⟩
    · exact hs.holds hslot
    · rw [hkey]
      exact hv.within record hrecord
  refine mem_filter.mpr ⟨hcurrent, ?_⟩
  rw [Bool.not_eq_true', sameIn, hactive, any_some, beq_eq_false_iff_ne]
  rintro heq
  -- The stored record would be the incoming one, which is then not installed.
  obtain rfl := hlib.inj heq
  obtain ⟨found, hfound, hmem, hfkey⟩ := exists_findKey hcurrent
  obtain rfl := (stored_of_mem_scan hs (mem_filter.mp hmem).1).eq hslot hfkey
  rw [sameIn, hfound, any_some, beq_self_eq_true] at hnew
  cases hnew

theorem snapshotInstall_exchange (h : snapshotInstall lib s path generation record = .ok ws) :
    Exchange lib record.key none (some record) ws := by
  simp only [snapshotInstall, bind_eq_ok] at h
  obtain ⟨_, -, mark, hmark, h⟩ := h
  cases h
  exact (exchange_store hlib record none).append_inert
    (inert_of_isMark (isMark_markChangedRecordBatch hmark))

omit [TransOrd H] [LawfulEqOrd H] in
theorem stored_of_not_installed
    (hs : ∀ (path : Text) (record : Record), record ∈ s.scan path → s.Holds record)
    (hsame : sameIn lib (replaceableRecords lib s validated height) record = true) :
    s.Holds record := by
  obtain ⟨found, hfound, hhash⟩ := (any_eq_true _ _).mp hsame
  obtain ⟨hmem, hkey⟩ := findKey_eq_some hfound
  obtain rfl := hlib.inj (beq_iff_eq.mp hhash)
  exact hs _ _ (mem_filter.mp hmem).1

theorem flush_snapshot (hm : Mirrored lib t)
    (hv : Validated lib clock validators snapshot validated) {removals}
    (hremovals : (snapshotRemoved lib t validated height).mapM (snapshotRemoval lib t
      validated.path) = .ok removals)
    (hinstalls : (snapshotInstalled lib t validated height).mapM (snapshotInstall lib t
      validated.path generation) = .ok installs) :
    Mirrored lib (flush t (removals.flatten ++ installs.flatten)) ∧
      SnapshotSlots lib t (flush t (removals.flatten ++ installs.flatten)) validated height := by
  obtain ⟨rfl, hremoval⟩ := mapM_eq_ok [] hremovals
  obtain ⟨rfl, hinstall⟩ := mapM_eq_ok [] hinstalls
  rw [flush_append]
  obtain ⟨hrem, hslots⟩ := flush_removals hlib _ _
    (fun record hrecord => snapshotRemoval_eq_ok (hremoval record hrecord)) t hm
    fun record hrecord => .inl (stored_of_mem_scan hm
      (mem_filter.mp (mem_filter.mp hrecord).1).1)
  have hempty : ∀ record ∈ snapshotInstalled lib t validated height, (flush t
      ((snapshotRemoved lib t validated height).map fun a =>
        (snapshotRemoval lib t validated.path a).toOption.getD []).flatten).records[record.key]? =
      none := by
    intro record hrecord
    obtain ⟨hactive, hnew⟩ := mem_filter.mp hrecord
    rw [hslots]
    split_ifs with hmem
    · rfl
    by_contra hne
    obtain ⟨stored, hstored⟩ := ne_none_iff_exists'.mp hne
    have hgone := removed_of_installed hlib hm hv hactive
      (Bool.not_eq_true' _ |>.mp hnew) hstored
    rw [← hm.keyed hstored] at hmem
    exact hmem (mem_map_of_mem hgone)
  obtain ⟨hmirrored, hinside, houtside⟩ := flush_exchanges Record.key some _ _ _
    (hv.nodup.sublist (filter_sublist.map Record.key))
    (fun record hrecord => by
      rw [hempty record hrecord]
      exact snapshotInstall_exchange hlib (hinstall record hrecord)) (flush t _) fun _ _ => rfl
  refine ⟨hmirrored hrem, ⟨fun k => ?_⟩⟩
  cases hfound : findKey validated.active k with
  | none =>
    have hk := findKey_isNone.mp (isNone_iff_eq_none.mpr hfound)
    rw [houtside k fun h => hk (filter_sublist.map Record.key |>.subset h), hslots]
    rfl
  | some record =>
    obtain ⟨hactive, rfl⟩ := findKey_eq_some hfound
    rw [some_or]
    cases hsame : sameIn lib (replaceableRecords lib t validated height) record with
    | false => exact hinside record (mem_filter.mpr ⟨hactive, by rw [hsame]; rfl⟩)
    | true =>
      have hstored := stored_of_not_installed hlib (fun _ _ => stored_of_mem_scan hm) hsame
      rw [houtside, hslots, if_neg, hstored]
      · intro hmem
        obtain ⟨r, hr, hkey⟩ := mem_map.mp hmem
        obtain ⟨hcurrent, hnew⟩ := mem_filter.mp hr
        obtain rfl := (stored_of_mem_scan hm (mem_filter.mp hcurrent).1).eq hstored hkey
        simp [sameIn, hfound] at hnew
      · intro hmem
        obtain ⟨r, hr, hkey⟩ := mem_map.mp hmem
        obtain ⟨hr, hnew⟩ := mem_filter.mp hr
        obtain rfl := inj_on_of_nodup_map hv.nodup hr hactive hkey
        rw [hsame] at hnew
        cases hnew

def refill (cache : RetentionCache) (entries : List (Text × Option PaidRecordRetention)) :
    RetentionCache :=
  entries.foldl (fun (cache : RetentionCache) (entry : Text × Option PaidRecordRetention) =>
    entry.2.elim cache (cache.insert entry.1 ·)) cache

abbrev contractRoot : Text := "/contract/".toList

/-- A validated snapshot is installed: the records that differ are replaced in one batch. -/
structure Installs (lib : RecordLib H) (env : SnapshotEnv) (validated : ValidatedPathSnapshot)
    (t u : Store H) : Prop where
  sources : protectEVMSourceReplacement lib (t.scan (trimSlash validated.path)) validated.active =
    .ok ()
  contracts : contractRoot <+: validated.path → validateContractIncomingLocked t validated.active
    (((t.scan (trimSlash validated.path)).map Record.key).filter isAuthorityKey) = .ok ()
  batch : ∃ previous changed m removals installs generation,
    snapshotMeta previous validated changed = .ok m ∧
    (snapshotRemoved lib t validated env.lockClock.height).mapM
      (snapshotRemoval lib t validated.path) = .ok removals ∧
    (snapshotInstalled lib t validated env.lockClock.height).mapM
      (snapshotInstall lib t validated.path m.endpointGeneration) = .ok installs ∧
    u = { flush t (removals.flatten ++ installs.flatten ++
        [.putPathMeta m, .putPathStatus validated.path false]) with
      generation := generation
      retentions := refill (forgetRetentions t.retentions
        (snapshotRemoved lib t validated env.lockClock.height)) validated.retentions }

theorem Installs.slots {u} (hm : Mirrored lib t)
    (hv : Validated lib clock validators snapshot validated) (h : Installs lib env validated t u) :
    Mirrored lib u ∧ SnapshotSlots lib t u validated env.lockClock.height := by
  obtain ⟨_, _, m, removals, installs, _, -, hremovals, hinstalls, rfl⟩ := h.batch
  obtain ⟨hmirrored, ⟨hslot⟩⟩ := flush_snapshot hlib hm hv hremovals hinstalls
  have hinert : ∀ w ∈ ([.putPathMeta m, .putPathStatus validated.path false] : Batch H),
      w.inert = true := by simp [Write.inert]
  rw [← (flush_inert _ hinert).1, ← flush_append] at hslot
  refine ⟨Mirrored.of_eq (s := flush t _) ?_ rfl rfl, ⟨hslot⟩⟩
  rw [flush_append]
  exact hmirrored.flush_inert hinert

omit hlib in
omit [LawfulEqOrd H] in
/-- A snapshot is either refused, with at most the metadata of its path brought up to date, or
validated and installed. -/
theorem wp_applyCurrentPathSnapshot {baseline} {E : Store H → Prop}
    {P : ValidatedPathSnapshot → Store H → Prop} (hs : E s)
    (hensure : ∀ validated, Validated lib env.clock env.validators snapshot validated → wp
      (ensurePathMetaLocked lib env.lockClock.tip validated.path env.lockClock.height) s (fun _ t
      => E t ∧ ∀ u, Installs lib env validated t u → P validated u) (fun _ t => E t)) :
    wp (applyCurrentPathSnapshot lib env snapshot baseline) s
      (fun n u => ∃ validated, Validated lib env.clock env.validators snapshot validated ∧
        n = validated.active.length ∧ P validated u) (fun _ t => E t) := by
  simp only [applyCurrentPathSnapshot, applyValidatedSnapshot, check, wp_bind, wp_refuse,
    wp_ofExcept, wp_get, wp_set, wp_pure, hs, implies_true, true_and]
  intro validated hvalidated _ _ _
  have hv := validatePathSnapshot_eq_ok hvalidated
  refine wp_mono (hensure validated hv) (fun previous t ht => ?_) fun _ _ ht => ht
  obtain ⟨ht, hdone⟩ := ht
  simp only [ht, implies_true, true_and]
  intro _ _ hsources _ hcontract m hmeta removals hremovals installs hinstalls _ _
  refine ⟨validated, hv, rfl, hdone _ ⟨hsources, fun hroot => ?_, _, _, m, removals, installs, _,
    hmeta, hremovals, hinstalls, rfl⟩⟩
  rw [if_pos (List.isPrefixOf_iff_prefix.mpr hroot)] at hcontract
  exact hcontract

theorem keeps_applyCurrentPathSnapshot (env) (snapshot baseline) :
    Keeps (Mirrored lib) (applyCurrentPathSnapshot lib env snapshot baseline) := by
  intro s hs
  refine wp_mono (wp_applyCurrentPathSnapshot (P := fun _ => Mirrored lib) hs fun validated hv =>
    wp_mono (wp_ensurePathMetaLocked lib _ _ _ s) (fun _ t ht => ?_) fun _ _ ht => ht.mirrored hs)
    (fun _ _ h => h.elim fun _ h => h.2.2) fun _ _ h => h
  exact ⟨ht.mirrored hs, fun u hu => (hu.slots hlib (ht.mirrored hs) hv).1⟩

end SatoshiNet.Dkvs
