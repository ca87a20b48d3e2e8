import SatoshiNet.Dkvs.PathView

/-!
Reading the metadata of a path gives the commitment to its view; a single put and a removal keep the
metadata in step with its records.
-/

namespace SatoshiNet.Dkvs

open Function Lib Std Action

section Ensure

variable {H : Type}

def Write.spares (path : Text) : Write H → Bool
  | putPathMeta m => m.path != path
  | putPathStatus other _ => other != path
  | _ => true

theorem spares_of_isMark (path) {ws : Batch H} (h : ∀ w ∈ ws, w.isMark = true) :
    ∀ w ∈ ws, w.spares path = true := by
  intro w hw
  have hmark := h w hw
  cases w <;> first | rfl | cases hmark

variable [Ord H] [TransOrd H] {path : Text}

theorem Write.apply_spares (s) {w : Write H} (h : w.spares path = true) :
    (w.apply s).metas[path]? = s.metas[path]? ∧
      (path ∈ (w.apply s).dirtyPaths ↔ path ∈ s.dirtyPaths) := by
  cases w with
  | putPathMeta m =>
    have hne : path ≠ m.path := fun heq => by simp [Write.spares, heq] at h
    refine ⟨?_, Iff.rfl⟩
    exact (congrFun (lookup_insert s.metas m.path m) path).trans (update_of_ne hne _ _)
  | putPathStatus other dirty =>
    have hne : path ≠ other := fun heq => by simp [Write.spares, heq] at h
    cases dirty <;> simp [Write.apply, hne]
  | _ => exact ⟨rfl, Iff.rfl⟩

theorem flush_spares (path : Text) (s : Store H) (ws) (h : ∀ w ∈ ws, w.spares path = true) :
    (flush s ws).metas[path]? = s.metas[path]? ∧
      (path ∈ (flush s ws).dirtyPaths ↔ path ∈ s.dirtyPaths) := by
  induction ws generalizing s with
  | nil => exact ⟨rfl, Iff.rfl⟩
  | cons w ws ih =>
    obtain ⟨hmetas, hdirty⟩ := ih (w.apply s) fun w' hw' => h w' (List.mem_cons_of_mem _ hw')
    obtain ⟨hmetas', hdirty'⟩ := w.apply_spares s (h w List.mem_cons_self)
    exact ⟨hmetas.trans hmetas', hdirty.trans hdirty'⟩

theorem flush_putPathMeta (s : Store H) (ws) {ws'} {m} (hm : m.path = path)
    (h : ∀ w ∈ ws', w.spares path = true ∨ w = .putPathStatus path false) :
    (flush s (ws ++ .putPathMeta m :: ws')).metas[path]? = some m := by
  have hlast : ∀ (u : Store H), u.metas[path]? = some m → (flush u ws').metas[path]? = some m := by
    clear hm
    induction ws' with
    | nil => exact fun u hu => hu
    | cons w ws' ih =>
      intro u hu
      refine ih (fun w' hw' => h w' (List.mem_cons_of_mem _ hw')) _ ?_
      obtain hw | rfl := h w List.mem_cons_self
      · rw [(w.apply_spares u hw).1, hu]
      · exact hu
  rw [flush_append, flush_cons]
  refine hlast _ ?_
  rw [← hm]
  exact (congrFun (lookup_insert _ m.path m) m.path).trans (update_self _ _ _)

variable {lib : RecordLib H} {clock : Clock} {s : Store H} {height : ℕ}

omit [TransOrd H] in
theorem computePathMetaView_frame (lib) (s : Store H) (tip) (q : Text) (height : ℕ) :
    (s.computePathMetaViewLocked lib tip q height).path = q ∧
      (s.computePathMetaViewLocked lib tip q height).viewHeight = height :=
  (foldl_countIn_frame _ _).1

/-- Reading the metadata of any path keeps the path tracked; of the path itself it gives the
commitment to the view at the height. -/
theorem wp_ensure_tracked (hs : Tracked lib path clock s) (hpath : path ≠ [])
    (htrim : trimSlash path = path) (q : Text) (tip)
    (hq : q = path → tip = clock.tip ∧ clock.Reads height ∧ Paid lib path s height) :
    wp (ensurePathMetaLocked lib tip q height) s
      (fun m t => MetaOnly s t ∧ Tracked lib path clock t ∧ m.path = q ∧
        (q = path → m.viewHeight = height ∧ Commits lib m (s.view lib path height)))
      (fun _ t => t = s) := by
  refine wp_ensure_of (fun _ => rfl) ?_ (fun stored hstored hclean hlater hlive => ?_)
    fun stored hstored hclean hfresh => ?_
  · rintro m rfl
    obtain ⟨hown, hview⟩ := computePathMetaView_frame lib s tip q height
    refine ⟨⟨_, _, rfl⟩, ?_, hown, fun hqp => ⟨hview, ?_⟩⟩
    · obtain rfl | hne := eq_or_ne q path
      · obtain ⟨rfl, hheight, hpaid⟩ := hq rfl
        refine hs.of_commits ⟨_, _, rfl⟩ (flush_putPathMeta s [] hown (by simp)) ?_
        rw [hview]
        exact commits_computePathMetaView hs hpath htrim hpaid hheight
      · obtain ⟨hmetas, hdirty⟩ := flush_spares path s
          [.putPathMeta (s.computePathMetaViewLocked lib tip q height), .putPathStatus q false]
          (by simp [Write.spares, hown, hne])
        exact hs.congr hpath hs.keyed ⟨fun _ _ => rfl, hmetas, hdirty⟩
    · obtain ⟨rfl, hheight, hpaid⟩ := hq hqp
      rw [hqp]
      exact commits_computePathMetaView hs hpath htrim hpaid hheight
  · refine ⟨⟨_, _, rfl⟩, ?_, rfl, fun hqp => ⟨rfl, ?_⟩⟩
    · obtain rfl | hne := eq_or_ne q path
      · have hcommits := hs.commits stored hstored hclean
        refine hs.of_commits ⟨_, _, rfl⟩ (flush_putPathMeta s [] rfl (by simp)) ?_
        rw [view_carry hcommits hlater hlive]
        exact hcommits.at _ _ _ _
      · obtain ⟨hmetas, hdirty⟩ := flush_spares path s
          [.putPathMeta { stored with path := q, viewHeight := height }] (by simp [Write.spares, hne])
        exact hs.congr hpath hs.keyed ⟨fun _ _ => rfl, hmetas, hdirty⟩
    · subst hqp
      have hcommits := hs.commits stored hstored hclean
      rw [view_carry hcommits hlater hlive]
      exact hcommits.at _ _ _ _
  · refine ⟨.refl s, hs, rfl, fun hqp => ?_⟩
    subst hqp
    have hcommits := hs.commits stored hstored hclean
    rw [hfresh] at hcommits
    exact ⟨hfresh, hcommits.at _ _ _ _⟩

end Ensure

open List

variable {H : Type} {lib : RecordLib H}

structure NetworkPath (path : Text) : Prop where
  ne_nil : path ≠ []
  trimmed : trimSlash path = path
  shared : ¬ "/tmp/".toList <+: path

theorem NetworkPath.not_local {path} (h : NetworkPath path) {parsed}
    (hpath : collectionPath parsed = path) : pathLocalOnly parsed = false := by
  by_contra hlocal
  have htmp : parsed.ns = .tmp := by simpa [pathLocalOnly] using hlocal
  have hne : collectionPath parsed ≠ [] := hpath ▸ h.ne_nil
  obtain ⟨n, -, htext⟩ := collectionPath_eq_take hne
  refine h.shared ⟨joinSegments (parsed.segments.take n), ?_⟩
  rw [← hpath, htext, htmp]
  rfl

theorem mutatePathMeta_path {m m'} {existing} {next before after} {height : ℕ}
    (h : lib.mutatePathMeta m existing next before after height = .ok m') : m'.path = m.path := by
  simp only [RecordLib.mutatePathMeta, bind_eq_ok] at h
  obtain ⟨_, -, m₁, hout, _, -, h⟩ := h
  cases h
  have hout' : m₁.path = m.path := by
    cases existing with
    | none => rw [← Except.ok.inj hout]
    | some old =>
      simp only [RecordLib.countOutExisting] at hout
      split_ifs at hout
      · rw [RecordLib.countOut, ite_error_eq_ok] at hout
        rw [← Except.ok.inj hout.2]
      · rw [← Except.ok.inj hout]
  cases after <;> exact hout'

theorem afterVisible_eq_counts {record : Record} {parsed : ParsedKey} {cache : RetentionCache}
    {retention : Option PaidRecordRetention} {height : ℕ} (hsound : lib.CoreSound record parsed)
    (hpaid : lib.isAutopayRecord record = true → retention.isSome = true) :
    (!isTombstone record.flags && !lib.isEndpointCacheRecord record &&
      (retention.isSome || lib.networkPathRecordVisible cache record height) &&
        !isExpired record height) = lib.counts record height := by
  cases hshown : lib.shown record with
  | false =>
    have hshown' := hshown
    rw [RecordLib.shown] at hshown'
    rw [hshown', RecordLib.counts, hshown]
    simp
  | true =>
    have hvisible : (retention.isSome || lib.networkPathRecordVisible cache record height) = true := by
      rw [networkPathRecordVisible_eq, hshown, RecordLib.paidRecordRelayableAt]
      cases hauto : lib.isAutopayRecord record with
      | false => simp
      | true => simp [hpaid hauto]
    have hshown' := hshown
    rw [RecordLib.shown] at hshown'
    rw [hshown', hvisible, RecordLib.counts, hshown, wellFormed_of_sound hsound hshown]

variable [Ord H] [TransOrd H] {path : Text} {clock : Clock} {s : Store H} {height : ℕ}

section

variable (hs : Tracked lib path clock s)
include hs

theorem wp_mutation_tracked (hp : NetworkPath path) (parsed) (existing) (next visible)
    (hq : collectionPath parsed = path → clock.Reads height ∧ Paid lib path s height) :
    wp (pathMetaForMutationLocked lib clock.tip parsed existing next visible height) s
      (fun m? t => MetaOnly s t ∧ Tracked lib path clock t ∧
        (∀ m, m? = some m → m.path = collectionPath parsed) ∧
        (collectionPath parsed = path → ∃ m₀ m, m? = some m ∧ m₀.path = path ∧
          Commits lib m₀ (s.view lib path height) ∧
          lib.mutatePathMeta m₀ existing next (lib.existingRecordActive clock.tip existing height &&
              existing.any (lib.networkPathRecordVisible s.retentions · height))
            (!isTombstone next.flags && !lib.isEndpointCacheRecord next && visible &&
              !isExpired next height) height = .ok m))
      (fun _ t => MetaOnly s t ∧ Tracked lib path clock t) := by
  simp only [pathMetaForMutationLocked, wp_ite, wp_pure, wp_bind]
  refine ⟨fun hskip => ?_, fun _ => ?_⟩
  · refine ⟨.refl s, hs, fun m hm => (by cases hm), fun heq => ?_⟩
    simp [heq, hp.ne_nil, hp.not_local heq] at hskip
  refine wp_mono (wp_ensure_tracked hs hp.ne_nil hp.trimmed _ _ fun heq => ⟨rfl, hq heq⟩)
    (fun m₀ t h => ?_) fun _ t ht => ?_
  · obtain ⟨hst, ht, hown, hm₀⟩ := h
    simp only [wp_get, wp_ofExcept]
    have hcache : t.retentions = s.retentions := by
      obtain ⟨_, _, rfl⟩ := hst
      rfl
    refine ⟨fun _ _ => ⟨hst, ht⟩, fun m hm => ⟨hst, ht, fun m' hm' => ?_, fun heq => ?_⟩⟩
    · obtain rfl := Option.some.inj hm'
      exact (mutatePathMeta_path hm).trans hown
    · rw [hcache] at hm
      exact ⟨m₀, m, rfl, hown.trans heq, (hm₀ heq).2, hm⟩
  · subst ht
    exact ⟨.refl _, hs⟩

/-- The put does not replace the record that has the least expiry of the path, unless every other
record of the path that expires does so no sooner than the new one. -/
def SparesLeastExpiry (lib : RecordLib H) (path : Text) (clock : Clock) (s : Store H)
    (record : Record) : Prop :=
  let visible := s.visibleRecords lib clock.tip path clock.height
  ∀ old ∈ visible, old.key = record.key → ExpiresFirst old visible →
    ∀ other ∈ visible, other.key ≠ record.key → ExpiresBy record other

structure Admitted (lib : RecordLib H) (clock : Clock) (existing : Option Record) (record : Record)
    (parsed : ParsedKey) (retention : Option PaidRecordRetention) : Prop where
  sound : lib.CoreSound record parsed
  paid : lib.isAutopayRecord record = true → retention.isSome = true
  counted : existing.any (lib.counts · clock.height) = true → lib.counts record clock.height = true

variable {record : Record} {parsed : ParsedKey} {retention : Option PaidRecordRetention}
  {snapshot : WriteStateSnapshot}

omit [TransOrd H] in
theorem commits_of_mutation (hp : NetworkPath path) (hpaid : Paid lib path s clock.height)
    (hcur : s.records[record.key]? = snapshot.existing)
    (hadm : Admitted lib clock snapshot.existing record parsed retention)
    (hleast : SparesLeastExpiry lib path clock s record) (hin : inPath path record.key = true)
    {m₀ m : PathMeta} (hm₀ : Commits lib m₀ (s.view lib path clock.height))
    (hm : lib.mutatePathMeta m₀ snapshot.existing record
      (lib.existingRecordActive clock.tip snapshot.existing clock.height &&
        snapshot.existing.any (lib.networkPathRecordVisible s.retentions · clock.height))
      (!isTombstone record.flags && !lib.isEndpointCacheRecord record &&
        (retention.isSome || lib.networkPathRecordVisible s.retentions record clock.height) &&
        !isExpired record clock.height) clock.height = .ok m) {t : Store H} (ht : Keyed t)
    (hslot : ∀ k, t.records[k]? = if k = record.key then some record else s.records[k]?) :
    m.viewHeight = clock.height ∧ Commits lib m (t.view lib path clock.height) := by
  have hbefore : (lib.existingRecordActive clock.tip snapshot.existing clock.height &&
      snapshot.existing.any (lib.networkPathRecordVisible s.retentions · clock.height)) =
      snapshot.existing.any (lib.counts · clock.height) := by
    cases hold : snapshot.existing with
    | none => rfl
    | some old =>
      rw [hold] at hcur
      exact visible_eq_counts hs hpaid clock.reads_height (hs.keyed.holds hcur) (hs.keyed hcur ▸ hin)
  rw [hbefore, afterVisible_eq_counts hadm.sound hadm.paid] at hm
  obtain ⟨hview, hview'⟩ := view_exchange hs.keyed ht hp.ne_nil hin
    (fun k hk => by rw [hslot, if_neg hk]) clock.height
  rw [hslot, if_pos rfl] at hview'
  rw [hcur] at hview
  have hspared : ∀ old, snapshot.existing = some old → lib.counts old clock.height = true →
      ExpiresFirst old (old :: (s.view lib path clock.height).filter (·.key ≠ record.key)) →
      ∀ other ∈ (s.view lib path clock.height).filter (·.key ≠ record.key),
        ExpiresBy record other := by
    intro old hold hcounts hmin other hother
    simp only [SparesLeastExpiry,
      visibleRecords_eq_view hs hp.ne_nil hp.trimmed hpaid clock.reads_height] at hleast
    rw [hold] at hcur hview
    rw [Option.toList_some, filter_singleton, hcounts] at hview
    obtain ⟨hother, hkey⟩ := mem_filter.mp hother
    exact hleast old (hview.mem_iff.mpr mem_cons_self) (hs.keyed hcur)
      ⟨hmin.1, hmin.2.trans (leastExpiry_perm hview).symm⟩ other hother (of_decide_eq_true hkey)
  obtain ⟨-, hat, hcommits⟩ := (hm₀.perm hview).mutate hadm.counted hspared hm
  exact ⟨hat, hcommits.perm hview'.symm⟩

/-- A batch that puts one record of the path, with metadata that commits to the view after it, or a
record of another path, keeps the path tracked. -/
theorem Tracked.flush_put (hp : NetworkPath path) {old ws}
    (hex : Exchange lib record.key old (some record) ws) (hfits : Belongs path clock record)
    (hin : inPath path record.key = true → Keyed (flush s ws) → ∃ m, (flush s ws).metas[path]? =
      some m ∧ Commits lib m ((flush s ws).view lib path m.viewHeight))
    (hout : inPath path record.key = false → ∀ w ∈ ws, w.spares path = true) :
    Tracked lib path clock (flush s ws) := by
  have hslot : ∀ k, (flush s ws).records[k]? =
      if k = record.key then some record else s.records[k]? := fun k =>
    (congrFun (hex.slot s) k).trans (update_apply _ _ _ _)
  have hslots : Fills path clock s (flush s ws) := by
    intro k r hr
    rw [hslot] at hr
    split_ifs at hr with hk
    · cases hr
      exact .inr ⟨hk.symm, hfits⟩
    · exact .inl hr
  have hkeyed := hslots.keyed hs.keyed
  cases hpath : inPath path record.key with
  | true =>
    obtain ⟨m, hm, hcommits⟩ := hin hpath hkeyed
    refine hs.exchange hslots fun m' hm' _ => ?_
    obtain rfl := Option.some.inj (hm.symm.trans hm')
    exact hcommits
  | false =>
    obtain ⟨hmetas, hdirty⟩ := flush_spares path s ws (hout hpath)
    refine hs.congr hp.ne_nil hkeyed ⟨fun k hk => ?_, hmetas, hdirty⟩
    rw [hslot, if_neg]
    rintro rfl
    rw [hpath] at hk
    cases hk

variable [LawfulEqOrd H] [DecidableEq H]

theorem wp_putRecordLocked_tracked (hlib : CollisionFree lib) (hp : NetworkPath path)
    {env : PutEnv H} (hlock : env.lockClock = clock) (hheight : env.clock.height = clock.height)
    (hpaid : Paid lib path s clock.height) (hcur : s.records[record.key]? = snapshot.existing)
    (hadm : Admitted lib clock snapshot.existing record parsed retention) :
    Ends (putRecordLocked lib env record parsed snapshot retention) s fun t =>
      (t.Holds record → Belongs path clock record ∧
        SparesLeastExpiry lib path clock s record) → Tracked lib path clock t := by
  simp only [putRecordLocked, check, wp_bind, wp_ofExcept, wp_get, wp_set, wp_pure, hlock, hheight]
  simp only [hs, implies_true, true_and]
  refine fun _ _ _ _ => wp_mono (wp_mutation_tracked hs hp parsed snapshot.existing record _
    fun _ => ⟨clock.reads_height, hpaid⟩) (fun m? t h => ?_) fun _ _ h _ => h.2
  obtain ⟨hst, ht, hown, hm⟩ := h
  simp only [ht, implies_true, true_and]
  intro _ _ mark hmark _ _
  have hmarks := isMark_elim hmark fun _ => isMark_markChangedRecordBatch
  have hex := exchange_put hlib record snapshot.existing (snapshot.requiresResolve &&
    parsed.ns == .name) (parsed.segments.headD []) m? hmarks
  have hslot := (congrFun (hex.slot t) record.key).trans (update_self _ _ _)
  suffices hfinal : Belongs path clock record ∧ SparesLeastExpiry lib path clock s record →
      Tracked lib path clock (flush t _) from
    ⟨fun _ _ h => (hfinal (h hslot)).of_eq hp.ne_nil rfl rfl rfl,
      fun _ _ h => (hfinal (h hslot)).of_eq hp.ne_nil rfl rfl rfl⟩
  rintro ⟨hfits, hleast⟩
  have hcollection : inPath path record.key = true → collectionPath parsed = path := fun hin =>
    (hfits hin).1.eq hadm.sound.parseKey
  refine ht.flush_put hp hex hfits (fun hin hkeyed => ?_) fun hout => ?_
  · obtain ⟨m₀, m, rfl, -, hm₀, hmutate⟩ := hm (hcollection hin)
    obtain ⟨hat, hcommits⟩ := commits_of_mutation hs hp hpaid hcur hadm hleast hin hm₀ hmutate hkeyed
      fun k => by
        rw [← hst.records]
        exact (congrFun (hex.slot t) k).trans (update_apply _ _ _ _)
    refine ⟨m, ?_, by rw [hat]; exact hcommits⟩
    rw [append_assoc]
    exact flush_putPathMeta t _ ((hown m rfl).trans (hcollection hin)) fun w hw =>
      .inl (spares_of_isMark path hmarks w hw)
  · have hother : ∀ m, m? = some m → m.path ≠ path := fun m hm heq => by
      rw [hown m hm] at heq
      have hin := inPath_collectionPath hadm.sound.parseKey (heq ▸ hp.ne_nil)
      rw [heq, hout] at hin
      cases hin
    simp only [forall_mem_append, forall_mem_singleton, forall_mem_map]
    refine ⟨⟨⟨⟨⟨rfl, fun _ _ => rfl⟩, rfl⟩, ?_⟩, fun m hm => ?_⟩, spares_of_isMark path hmarks⟩
    · split_ifs <;> simp [Write.spares]
    · simpa [Write.spares] using hother m (Option.mem_toList.mp hm)

end

end SatoshiNet.Dkvs
