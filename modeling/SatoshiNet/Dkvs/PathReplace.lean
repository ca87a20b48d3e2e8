import SatoshiNet.Dkvs.BatchTrack

/-!
Puts, delete commands, batches, mirror deletes, pruning and the installation of snapshots keep a path
tracked.
-/

namespace SatoshiNet.Dkvs

open Function Lib Std Action

section Writes

open Bool hiding true_and

variable {H : Type} [Ord H] [TransOrd H] [LawfulEqOrd H] [DecidableEq H] {lib : RecordLib H}
  {path : Text} {clock : Clock} {s : Store H}

variable {env : PutEnv H} {parsed : ParsedKey} {record : Record}

omit [TransOrd H] [LawfulEqOrd H] in
theorem PutChecked.admitted {snapshot retention}
    (h : PutChecked lib env s record parsed snapshot retention) (hs : Keyed s)
    (hheight : env.clock.height = clock.height) :
    Admitted lib clock snapshot.existing record parsed retention := by
  obtain ⟨⟨_, hcore⟩, hcur, -, htomb, hmode, hretention, ⟨_, hperm⟩, -⟩ := h
  obtain ⟨hsound, -, hlive⟩ := validateCore_eq_ok.mp hcore
  rw [htomb, Bool.and_false, Bool.or_false, Bool.not_eq_true', hheight] at hlive
  refine ⟨hsound, isSome_of_verifiedRetention hretention, fun hold => ?_⟩
  obtain ⟨old, hexisting, hcounts⟩ := (Option.any_eq_true _ _).mp hold
  rw [hexisting] at hcur hmode hperm
  simp only [RecordLib.counts, and_eq_true] at hcounts
  have hfree : lib.isFreeLocalRecord record = true → lib.isFreeLocalRecord old = true := fun h => by
    simpa [h] using hmode
  have hshown := shown_of_replaces hsound.parseKey htomb hperm hfree (hs hcur) hcounts.1.1
  rw [RecordLib.counts, hshown, wellFormed_of_sound hsound hshown, hlive]
  rfl

variable (hlib : CollisionFree lib) (hs : Tracked lib path clock s) (hp : NetworkPath path)
include hlib hs hp

theorem wp_putAttempt_tracked (hlock : env.lockClock = clock) (hpaid : Paid lib path s clock.height)
    (remote) :
    Ends (putAttempt lib env record remote) s fun t => (t.Holds record → Belongs path clock record ∧
        SparesLeastExpiry lib path clock s record) → Tracked lib path clock t := by
  refine wp_putAttempt_of hlib hs.keyed (fun _ => hs) (fun t _ _ _ ht hwritten => ?_)
    (fun {stored _ _} hcur hparse hkey htomb hheight => ?_) (fun h => ?_) remote
  · exact (ht hwritten).of_eq hp.ne_nil rfl rfl rfl
  · rw [← hheight, hlock]
    have hremoves : Removes (some record) stored := fun c hc => Option.some.inj hc ▸ ⟨hkey, htomb⟩
    exact wp_mono (wp_commitDeleteLocked_tracked hs hp hcur hparse hremoves clock.reads_height
      hpaid _ _) (fun _ _ ht _ => ht.1) fun _ _ ht _ => ht.1
  · have hheight : env.clock.height = clock.height := hlock ▸ h.height.symm
    exact wp_putRecordLocked_tracked hs hlib hp hlock hheight hpaid h.current
      (h.admitted hs.keyed hheight)

omit [LawfulEqOrd H] hlib in
theorem wp_deleteMirrorKeys_tracked (hpaid : Paid lib path s clock.height) (flushed) (keys) :
    Ends (deleteMirrorKeys lib clock flushed keys) s (Tracked lib path clock) := by
  have hkeep : Ends (deleteMirrorKeys lib clock flushed keys) s
      fun t => Tracked lib path clock t ∧ Paid lib path t clock.height := by
    refine wp_deleteMirrorKeys_of (fun ht => ht.1.keyed) (fun _ _ ht => ?_)
      (fun ht hcur hparse => wp_commitDeleteLocked_tracked ht.1 hp hcur hparse
        (fun c hc => by cases hc) clock.reads_height ht.2 _ _) ⟨hs, hpaid⟩ keys
    exact ⟨ht.1.of_eq hp.ne_nil rfl rfl rfl, ht.2⟩
  exact wp_mono hkeep (fun _ _ h => h.1) fun _ _ h => h.1

theorem wp_batchAttempt_tracked {env} (hlock : env.lockClock = clock)
    (hpaid : Paid lib path s clock.issueHeightTip) (mutations) :
    Ends (batchAttempt lib env mutations) s fun t => (∀ m ∈ mutations,
      t.records[m.record.key]? = some m.record → Belongs path clock m.record) →
        Tracked lib path clock t := by
  simp only [batchAttempt, finishBatchLocked, wp_bind, wp_ofExcept, wp_get, wp_ite, wp_pure, hs,
    implies_true, true_and]
  intro items hitems ready hready hne _ _
  obtain ⟨-, -, hnodup, hmap, hprep⟩ := prepareBatchCAS_eq_ok hitems
  obtain ⟨hcurrent, ⟨rfl, -⟩ | ⟨rfl, hfresh, -⟩⟩ := batchCASReadyLocked_eq_ok hready
  · exact absurd rfl hne
  rw [← hmap, List.map_map] at hnodup
  have hcur : ∀ item ∈ ready, s.records[item.key]? = item.snapshot.existing :=
    fun item hitem => existing_of_current hlib (hcurrent item hitem)
  refine wp_commitBatchCASLocked_tracked hs hp hlib hlock hnodup hcur
    (fun t hwritten hslots item hitem => ?_) fun _ => hpaid
  obtain ⟨k, hk⟩ := hprep item hitem
  obtain ⟨-, hcore, -, happlied⟩ := prepareMutation_eq_ok hk
  have hparse := (validateCore_eq_ok.mp hcore).1.parseKey
  have hslot := hslots item hitem
  -- A delete that is not in effect yet finds a record, and a stored record is in its collection.
  have hwithin : inPath path item.key = true →
      InCollection path item.key := fun hin => by
    cases htomb : isTombstone item.mutation.record.flags with
    | false =>
      rw [CASMutation.result, htomb, if_neg Bool.false_ne_true] at hslot
      exact (hwritten _ (hmap ▸ List.mem_map_of_mem hitem) hslot hin).1
    | true =>
      rw [hfresh item hitem, mutationAlreadyApplied, htomb, if_pos rfl] at happlied
      obtain ⟨old, hold⟩ := Option.isSome_iff_exists.mp (Option.isNone_eq_false_iff.mp happlied.symm)
      exact hs.within ((hcur item hitem).trans hold) hin
  have hlive : isExpired item.mutation.record clock.issueHeightTip = false := by
    have h := hcurrent item hitem
    simp only [stillCurrentLocked, bind_eq_ok, require_eq_ok, hlock, not_eq_true'] at h
    obtain ⟨_, -, h⟩ := h
    exact h
  refine ⟨hparse, hwithin, fun hin next hnext => ?_, fun hin => ?_⟩
  · rw [hnext] at hslot
    rw [CASMutation.result, Option.ite_none_left_eq_some] at hnext
    obtain rfl := Option.some.inj hnext.2
    exact (hwritten _ (hmap ▸ List.mem_map_of_mem hitem) hslot hin).2
  · exact accounted_of_prepared hs.keyed (hcur item hitem) hk (hfresh item hitem) hlive hin
      (hp.not_local ((hwithin hin).eq hparse))

end Writes

open List Option

variable {H : Type} [Ord H] {lib : RecordLib H} {path : Text} {clock : Clock} {s : Store H}
  {height : ℕ}

section Prune

def expiredMeta (lib : RecordLib H) (s : Store H) (tip : Option ℕ) (height : ℕ) (canonical : Bool)
    (q : Text) : PathMeta :=
  let m := s.computePathMetaViewLocked lib tip q height
  { m with
    endpointGeneration := m.endpointGeneration + 1
    generation := if canonical then m.generation + 1 else m.generation }

variable {records : Records} {tip : Option ℕ}

theorem stageExpiredPath_eq_ok {canonical q} {ws}
    (h : stageExpiredPath lib s tip height canonical q = .ok ws) :
    ws = [.putPathMeta (expiredMeta lib s tip height canonical q),
      .putPathStatus (expiredMeta lib s tip height canonical q).path false] := by
  simp only [stageExpiredPath, bind_eq_ok] at h
  obtain ⟨_, -, h⟩ := h
  rw [← Except.ok.inj h, expiredMeta, (computePathMetaView_frame lib s tip q height).1]

theorem stageExpiredRecord_touches {record} {staged}
    (h : stageExpiredRecord lib s record = .ok staged) : (∀ w ∈ staged.1, w.spares path = true) ∧
      (NetworkPath path → InCollection path record.key → ∃ seen, staged.2 = some (path, seen)) := by
  simp only [stageExpiredRecord, bind_eq_ok] at h
  obtain ⟨parsed, hparse, h⟩ := h
  split_ifs at h with hskip
  · cases h
    refine ⟨by simp [Write.spares], ?_⟩
    intro hp hin
    have hpath := hin.eq hparse
    simp [hpath, hp.ne_nil, hp.not_local hpath] at hskip
  · obtain ⟨clear, hclear, h⟩ := bind_eq_ok.mp h
    cases h
    constructor
    · simp only [forall_mem_append]
      exact ⟨by simp [Write.spares], spares_of_isMark path (isMark_clearChangedRecordBatch hclear)⟩
    · exact fun _ hin => ⟨!lib.isEndpointCacheRecord record, by rw [hin.eq hparse]⟩

theorem view_remove {t} (hs : Keyed s) (ht : Keyed t) (hpath : path ≠ [])
    (hslot : ∀ record ∈ records, s.Holds record)
    (hgone : ∀ record ∈ records, lib.counts record height = false)
    (hslots : ∀ k, t.records[k]? = if k ∈ records.map Record.key then none else s.records[k]?) :
    (s.view lib path height).Perm (t.view lib path height) := by
  refine view_perm hs ht hpath fun record _ hcounts => ?_
  rw [Store.Holds, Store.Holds, hslots]
  split_ifs with hmem
  · obtain ⟨r, hr, hkey⟩ := mem_map.mp hmem
    rw [← hkey, hslot r hr, some.injEq]
    refine iff_of_false ?_ (by simp)
    rintro rfl
    rw [hgone r hr] at hcounts
    cases hcounts
  · rfl

variable [TransOrd H] [LawfulEqOrd H] [DecidableEq H]

omit [LawfulEqOrd H] [DecidableEq H] in
theorem flush_expiredMetas (path) {canonical : Text → Bool} {paths : List Text} {metas}
    (h : paths.mapM (fun q => stageExpiredPath lib s tip height (canonical q) q) = .ok metas) (u) :
    (path ∈ paths → (flush u metas.flatten).metas[path]? =
      some (expiredMeta lib s tip height (canonical path) path)) ∧
    (path ∉ paths → (flush u metas.flatten).metas[path]? = u.metas[path]? ∧
      (path ∈ (flush u metas.flatten).dirtyPaths ↔ path ∈ u.dirtyPaths)) := by
  let staged := paths.map fun q => expiredMeta lib s tip height (canonical q) q
  have hown : ∀ q, (expiredMeta lib s tip height (canonical q) q).path = q := fun q =>
    (computePathMetaView_frame lib s tip q height).1
  have hflat : metas.flatten =
      staged.flatMap fun m => [.putPathMeta m, .putPathStatus m.path false] := by
    obtain ⟨rfl, hall⟩ := mapM_eq_ok [] h
    rw [List.flatMap_def, List.map_map]
    exact congrArg _ (map_congr_left fun q hq => stageExpiredPath_eq_ok (hall q hq))
  have hpaths : staged.map PathMeta.path = paths := by
    rw [List.map_map]
    exact map_id'' hown paths
  rw [hflat]
  refine ⟨fun hmem => ?_, fun hmem => flush_spares path u _ (spares_commitMetas (hpaths ▸ hmem))⟩
  obtain ⟨m, hm, hpath, hlast⟩ := flush_commitMetas u
    (show path ∈ staged.map PathMeta.path from hpaths ▸ hmem)
  obtain ⟨q, -, rfl⟩ := mem_map.mp hm
  rw [hown] at hpath
  rw [hlast, hpath]

variable (hlib : CollisionFree lib) (hm : Mirrored lib s) (hs : Tracked lib path clock s)
  (hp : NetworkPath path) (hheight : clock.Reads height) (hpaid : Paid lib path s height)
include hlib hm hs hp hheight hpaid

theorem tracked_stageExpired (hslot : ∀ record ∈ records, s.Holds record)
    (hgone : ∀ record ∈ records, lib.counts record height = false) {batch}
    (h : stageExpiredRecordsLocked lib s clock.tip records height = .ok batch) :
    Tracked lib path clock (flush s batch) := by
  simp only [stageExpiredRecordsLocked, bind_eq_ok] at h
  obtain ⟨staged, hstaged, metas, hmetas, h⟩ := h
  cases h
  obtain ⟨stage, rfl, hall⟩ : ∃ stage : Record → Batch H × Option (Text × Bool),
      staged = records.map stage ∧
        ∀ record ∈ records, stageExpiredRecord lib s record = .ok (stage record) :=
    ⟨_, mapM_eq_ok ([], none) hstaged⟩
  have hslots := (flush_removals hlib (Prod.fst ∘ stage) records
    (fun r hr => stageExpiredRecord_eq_ok (hall r hr)) s hm fun r hr => .inl (hslot r hr)).2
  have hinert := forall_flatten_of_mapM hmetas fun _ _ _ => inert_stageExpiredPath
  obtain ⟨hin, hout⟩ := flush_expiredMetas path hmetas
    (flush s (records.map (Prod.fst ∘ stage)).flatten)
  rw [List.map_map, flush_append]
  rw [← (flush_inert (flush s (records.map (Prod.fst ∘ stage)).flatten) hinert).1] at hslots
  generalize hu : flush (flush s (records.map (Prod.fst ∘ stage)).flatten) metas.flatten = u at *
  have hkeyed : Keyed u := by
    intro k r hr
    rw [hslots] at hr
    split_ifs at hr
    exact hs.keyed hr
  by_cases hpath : path ∈ (((records.map stage).filterMap Prod.snd).map Prod.fst).dedup
  · refine hs.exchange (fun k r hr => ?_) fun m hm' _ => ?_
    · rw [hslots] at hr
      split_ifs at hr
      exact .inl hr
    · obtain rfl := some.inj ((hin hpath).symm.trans hm')
      have hat : ∀ canonical,
          (expiredMeta lib s clock.tip height canonical path).viewHeight = height := fun _ =>
        (computePathMetaView_frame lib s clock.tip path height).2
      rw [hat]
      exact ((commits_computePathMetaView hs hp.ne_nil hp.trimmed hpaid hheight).at _ _ _ _).perm
        (view_remove hs.keyed hkeyed hp.ne_nil hslot hgone hslots)
  · obtain ⟨hmetas', hdirty⟩ := hout hpath
    obtain ⟨hspared, hspared'⟩ := flush_spares path s (records.map (Prod.fst ∘ stage)).flatten
      fun w hw => by
        obtain ⟨ws, hws, hw⟩ := mem_flatten.mp hw
        obtain ⟨record, hrecord, rfl⟩ := mem_map.mp hws
        exact (stageExpiredRecord_touches (hall record hrecord)).1 w hw
    refine hs.congr hp.ne_nil hkeyed ⟨fun k hk => ?_, hmetas'.trans hspared, hdirty.trans hspared'⟩
    rw [hslots, if_neg]
    intro hmem
    obtain ⟨record, hrecord, rfl⟩ := mem_map.mp hmem
    obtain ⟨seen, htouched⟩ := (stageExpiredRecord_touches (hall record hrecord)).2 hp
      (hs.within (hslot record hrecord) hk)
    exact hpath (mem_dedup.mpr (mem_map.mpr ⟨(path, seen), mem_filterMap.mpr
      ⟨stage record, mem_map_of_mem hrecord, htouched⟩, rfl⟩))

theorem wp_pruneExpiredAt_tracked (flushed) (popped) :
    Ends (pruneExpiredAt lib clock flushed popped height) s (Tracked lib path clock) := by
  simp only [pruneExpiredAt, commitExpired, check, wp_bind, wp_get, wp_ite, wp_pure, wp_ofExcept,
    wp_set]
  simp only [hs, implies_true, true_and]
  refine fun _ batch hbatch _ _ => (tracked_stageExpired hlib hm hs hp hheight hpaid
    (fun record hrecord => ?_) (fun record hrecord => ?_) hbatch).of_eq hp.ne_nil rfl rfl rfl
  · obtain ⟨hfound, -⟩ := mem_filter.mp hrecord
    obtain ⟨key, -, hkey⟩ := mem_filterMap.mp hfound
    exact hs.keyed.holds hkey
  · obtain ⟨-, hexpired⟩ := mem_filter.mp hrecord
    rw [Bool.and_eq_true] at hexpired
    rw [RecordLib.counts, hexpired.1]
    simp

end Prune

section Snapshot

variable [DecidableEq H] {now : Clock} {snapshot : PathSnapshot} {validated : ValidatedPathSnapshot}
  {validators : Validators}

section

variable (h : Validated lib clock validators snapshot validated)
include h

omit [Ord H] in
theorem Validated.own : validated.pathMeta.path = validated.path ∧
      validated.pathMeta.viewHeight = snapshot.pathMeta.viewHeight := by
  rw [h.computed]
  exact (foldl_countIn_frame _ _).1

omit [Ord H] in
theorem Validated.counts :
    ∀ record ∈ validated.active, lib.counts record validated.pathMeta.viewHeight = true := by
  intro record hrecord
  obtain ⟨_, _, hchecked, -⟩ := h.checked record (h.active.mem_iff.mp hrecord)
  simp only [validateSnapshotRecord, bind_eq_ok, require_eq_ok, mapError_eq_ok, Bool.and_eq_true,
    Bool.not_eq_true', beq_iff_eq] at hchecked
  obtain ⟨_, -, _, ⟨-, hflags⟩, _, ⟨-, hcache⟩, _, -, parsed, hcore, -⟩ := hchecked
  obtain ⟨hsound, -, hlive⟩ := validateCore_eq_ok.mp hcore
  have hshown : lib.shown record = true := by
    rw [RecordLib.shown, hflags, hcache]
    rfl
  rw [h.own.2, RecordLib.counts, hshown, wellFormed_of_sound hsound hshown]
  simpa using hlive

omit [Ord H] in
theorem Validated.commits : Commits lib validated.pathMeta validated.active := by
  have hall := (commits_blank lib validated.path snapshot.pathMeta.generation 0
    snapshot.pathMeta.viewHeight).foldl_countIn fun record hrecord =>
      plain_of_counts (h.counts record (h.active.mem_iff.mpr hrecord))
  rw [append_nil, ← h.computed] at hall
  exact hall.perm h.active.symm

end

variable {env : SnapshotEnv} {q : Text} {record : Record} {u : Store H} {ws : Batch H}

theorem isLocalOnly_of_kept {key} (hs : Keyed s) (hrecord : s.records[key]? = some record)
    (hscan : record ∈ s.scan (trimSlash validated.path))
    (hmissing : findKey validated.active key = none)
    (hkept : key ∉ (snapshotRemoved lib s validated height).map Record.key) :
    lib.isLocalOnlyRecord s.retentions record height = true := by
  have hkey := hs hrecord
  rw [← hkey] at hmissing hkept
  by_contra hshared
  refine hkept (mem_map_of_mem (mem_filter.mpr ⟨mem_filter.mpr ⟨hscan, ?_⟩, ?_⟩))
  · simp [Bool.not_eq_true _ ▸ hshared]
  · simp [sameIn, hmissing]

/-- After the installation the path shows exactly the records of the snapshot: what is kept besides
them is private to the endpoint. -/
theorem view_install (ht : Tracked lib path clock s) (hp : NetworkPath path)
    (hpaid : Paid lib path s height) (hpath : validated.path = path)
    (hv : Validated lib now validators snapshot validated) (hu : Keyed u)
    (hslots : SnapshotSlots lib s u validated height) :
    (u.view lib path validated.pathMeta.viewHeight).Perm validated.active := by
  rw [perm_ext_iff_of_nodup (nodup_view hu path _) (hv.nodup.of_map _)]
  intro record
  rw [mem_view hu hp.ne_nil]
  constructor
  · rintro ⟨hrecord, hrecordIn, hcount⟩
    obtain ⟨hactive, -⟩ | ⟨hmissing, hkept, hrecord⟩ := hslots.cases hrecord
    · exact hactive
    -- A stored record that is not replaced is an endpoint cache record, which never counts.
    have hscan := mem_scan_of_inCollection hrecord (ht.within hrecord hrecordIn) fun _ => hp.trimmed
    have hlocal := isLocalOnly_of_kept ht.keyed hrecord (hpath ▸ hscan) hmissing hkept
    rw [RecordLib.isLocalOnlyRecord, hpaid _ _ hrecord hrecordIn, Bool.not_true, Bool.and_false,
      Bool.or_false] at hlocal
    rw [counts_eq_false_of_cache _ hlocal] at hcount
    cases hcount
  · intro hactive
    rw [hslots.slot, findKey_of_mem hv.nodup hactive, some_or]
    obtain ⟨parsed, hparse, hcollection⟩ := hv.within record hactive
    refine ⟨rfl, ?_, hv.counts record hactive⟩
    rw [hpath] at hcollection
    rw [← hcollection]
    exact inPath_collectionPath hparse (hcollection ▸ hp.ne_nil)

omit [DecidableEq H] in
theorem spares_snapshotRemoval (h : snapshotRemoval lib s q record = .ok ws) :
    ∀ w ∈ ws, w.spares path = true := by
  obtain ⟨clear, hclear, rfl⟩ := map_eq_ok.mp h
  rw [forall_mem_append]
  exact ⟨by simp [Write.spares], spares_of_isMark path (isMark_clearChangedRecordBatch hclear)⟩

omit [DecidableEq H] in
theorem spares_snapshotInstall {generation : ℕ}
    (h : snapshotInstall lib s q generation record = .ok ws) : ∀ w ∈ ws, w.spares path = true := by
  simp only [snapshotInstall, bind_eq_ok] at h
  obtain ⟨_, -, mark, hmark, h⟩ := h
  cases h
  rw [forall_mem_append]
  exact ⟨by simp [Write.spares], spares_of_isMark path (isMark_markChangedRecordBatch hmark)⟩

variable [TransOrd H] [LawfulEqOrd H]

variable (hlib : CollisionFree lib) (hm : Mirrored lib s) (hs : Tracked lib path clock s)
  (hp : NetworkPath path) (hlock : env.lockClock = clock) (hpaid : Paid lib path s clock.height)
include hlib hm hs hp hlock hpaid

theorem Installs.tracked (hv : Validated lib now validators snapshot validated)
    (hfits : ∀ record ∈ validated.active, u.Holds record → Belongs path clock record)
    (hnest : ∀ record ∈ s.scan (trimSlash validated.path), inPath path record.key = true →
      validated.path = path) (h : Installs lib env validated s u) : Tracked lib path clock u := by
  have hslots := (h.slots hlib hm hv).2
  rw [hlock] at hslots
  have hbelongs : ∀ {k found}, findKey validated.active k = some found → Belongs path clock found := by
    intro k found hfound
    obtain ⟨hactive, rfl⟩ := findKey_eq_some hfound
    exact hfits found hactive (by rw [Store.Holds, hslots.slot, hfound, some_or])
  have hkeep : Fills path clock s u := by
    intro k r hr
    obtain ⟨hactive, hkey⟩ | ⟨-, -, hr⟩ := hslots.cases hr
    · exact .inr ⟨hkey, hbelongs (hkey ▸ findKey_of_mem hv.nodup hactive)⟩
    · exact .inl hr
  have hkeyed := hkeep.keyed hs.keyed
  obtain ⟨_, _, m, removals, installs, _, hmeta, hremovals, hinstalls, hu⟩ := h.batch
  have hown : m.path = validated.path ∧ m.viewHeight = validated.pathMeta.viewHeight ∧
      Commits lib m validated.active := by
    simp only [snapshotMeta, bind_eq_ok] at hmeta
    obtain ⟨_, -, hmeta⟩ := hmeta
    cases hmeta
    exact ⟨hv.own.1, rfl, hv.commits.at _ _ _ _⟩
  by_cases hpath : validated.path = path
  · refine hs.exchange hkeep fun m' hm' _ => ?_
    have hlast : u.metas[path]? = some m := by
      rw [hu]
      exact flush_putPathMeta s _ (hown.1.trans hpath) (by simp [hpath])
    obtain rfl := some.inj (hlast.symm.trans hm')
    rw [hown.2.1]
    exact hown.2.2.perm (view_install hs hp hpaid hpath hv hkeyed hslots).symm
  · have hspared : ∀ w ∈ removals.flatten ++ installs.flatten, w.spares path = true :=
      forall_mem_append.mpr ⟨forall_flatten_of_mapM hremovals fun _ _ _ => spares_snapshotRemoval,
        forall_flatten_of_mapM hinstalls fun _ _ _ => spares_snapshotInstall⟩
    obtain ⟨hmetas, hdirty⟩ := flush_spares path s (removals.flatten ++ installs.flatten ++
      [.putPathMeta m, .putPathStatus validated.path false]) (forall_mem_append.mpr
        ⟨hspared, by simp [Write.spares, hown.1, hpath]⟩)
    refine hs.congr hp.ne_nil hkeyed ⟨fun k hk => ?_, by rw [hu]; exact hmetas,
      by rw [hu]; exact hdirty⟩
    rw [hslots.slot]
    have hnone : findKey validated.active k = none := by
      by_contra hne
      obtain ⟨found, hfound⟩ := ne_none_iff_exists'.mp hne
      obtain ⟨hactive, rfl⟩ := findKey_eq_some hfound
      obtain ⟨p, hparse, hcollection⟩ := hv.within found hactive
      exact hpath (hcollection.symm.trans ((hbelongs hfound hk).1.eq hparse))
    rw [hnone, none_or, if_neg]
    intro hmem
    obtain ⟨r, hr, rfl⟩ := mem_map.mp hmem
    exact hpath (hnest r (mem_filter.mp (mem_filter.mp hr).1).1 hk)

theorem wp_applyCurrentPathSnapshot_tracked (hnest :
    ∀ record ∈ s.scan (trimSlash (stringsTrimPath snapshot.path)), inPath path record.key = true →
      stringsTrimPath snapshot.path = path) (baseline) :
    Ends (applyCurrentPathSnapshot lib env snapshot baseline) s fun t => (∀ record ∈ snapshot.records,
      t.Holds record → Belongs path clock record) → Tracked lib path clock t := by
  refine wp_mono (wp_applyCurrentPathSnapshot (P := fun _ t => (∀ record ∈ snapshot.records,
      t.Holds record → Belongs path clock record) → Tracked lib path clock t) hs
    fun validated hv => ?_) (fun _ _ h => h.elim fun _ h => h.2.2) fun _ _ h _ => h
  rw [hlock]
  refine wp_mono (wp_ensure_tracked hs hp.ne_nil hp.trimmed validated.path clock.tip fun _ =>
    ⟨rfl, clock.reads_height, hpaid⟩) (fun _ t ht => ?_) fun _ _ h => h ▸ hs
  obtain ⟨hst, ht, -⟩ := ht
  refine ⟨ht, fun u hu hfits => hu.tracked hlib (hst.mirrored hm) ht hp hlock (hst.paid hpaid) hv
    (fun record hrecord => hfits record (hv.active.mem_iff.mp hrecord)) ?_⟩
  obtain ⟨_, _, rfl⟩ := hst
  rw [hv.path]
  exact hnest

end Snapshot

end SatoshiNet.Dkvs
