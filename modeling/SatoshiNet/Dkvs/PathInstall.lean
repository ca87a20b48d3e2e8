import SatoshiNet.Dkvs.Collections
import SatoshiNet.Dkvs.Contracts

/-!
What the installation of a path snapshot leaves behind, and when it goes through.
-/

namespace SatoshiNet.Dkvs

open Function Lib Std Action List

section Payments

variable {entries : List (Text × Option PaidRecordRetention)} {key : Text} (cache : RetentionCache)

theorem getElem?_refill_of_not_mem (h : key ∉ entries.map Prod.fst) :
    (refill cache entries)[key]? = cache[key]? := by
  induction entries generalizing cache with
  | nil => rfl
  | cons entry entries ih =>
    rw [map_cons, mem_cons, not_or] at h
    refine (ih _ h.2).trans ?_
    obtain ⟨key', _ | retention⟩ := entry
    · rfl
    · exact (congrFun (lookup_insert cache key' retention) key).trans (update_of_ne h.1 _ _)

theorem getElem?_refill_of_mem {retention} (hnodup : (entries.map Prod.fst).Nodup)
    (h : (key, some retention) ∈ entries) : (refill cache entries)[key]? = some retention := by
  induction entries generalizing cache with
  | nil => cases h
  | cons entry entries ih =>
    rw [map_cons, nodup_cons] at hnodup
    obtain rfl | h := mem_cons.mp h
    · refine (getElem?_refill_of_not_mem _ hnodup.1).trans ?_
      exact (congrFun (lookup_insert cache key retention) key).trans (update_self _ _ _)
    · exact ih _ hnodup.2 h

theorem getElem?_forgetRetentions {records} (h : key ∉ records.map Record.key) :
    (forgetRetentions cache records)[key]? = cache[key]? := by
  induction records generalizing cache with
  | nil => rfl
  | cons record records ih =>
    rw [map_cons, mem_cons, not_or] at h
    refine (ih _ h.2).trans ?_
    exact (congrFun (lookup_erase cache record.key) key).trans (update_of_ne h.1 _ _)

end Payments

variable {H : Type} [Ord H] [DecidableEq H] {lib : RecordLib H} {s : Store H}
  {validated : ValidatedPathSnapshot}

structure Installed (lib : RecordLib H) (s u : Store H) (validated : ValidatedPathSnapshot)
    (height : ℕ) : Prop extends SnapshotSlots lib s u validated height where
  payments : u.retentions =
    refill (forgetRetentions s.retentions (snapshotRemoved lib s validated height))
      validated.retentions
  root : ∃ m, u.metas[validated.path]? = some m ∧ m.stateRoot = validated.pathMeta.stateRoot
  sources : ∀ record ∈ s.scan (trimSlash validated.path),
    (parseKey record.key).toOption.any isEVMSourceKey = true → record ∈ validated.active
  contracts : contractRoot <+: validated.path → validateContractIncomingLocked s validated.active
    (((s.scan (trimSlash validated.path)).map Record.key).filter isAuthorityKey) = .ok ()

variable [TransOrd H] [LawfulEqOrd H]

omit [Ord H] [TransOrd H] [LawfulEqOrd H] in
theorem mem_of_protectEVMSource (hlib : CollisionFree lib) {current incoming}
    (h : protectEVMSourceReplacement lib current incoming = .ok ()) {record}
    (hrecord : record ∈ current) (hkind : (parseKey record.key).toOption.any isEVMSourceKey = true) :
    record ∈ incoming := by
  simp only [protectEVMSourceReplacement, require_eq_ok, all_eq_true, Bool.or_eq_true,
    Bool.not_eq_true'] at h
  obtain hother | hsame := h record hrecord
  · rw [hkind] at hother
    cases hother
  · obtain ⟨found, hfound, hhash⟩ := (Option.any_eq_true _ _).mp hsame
    rw [← hlib.inj (beq_iff_eq.mp hhash)]
    exact (findKey_eq_some hfound).1

theorem Installs.installed (hlib : CollisionFree lib) (hm : Mirrored lib s) {clock} {env} {snapshot}
    {validators} {t u} (hv : Validated lib clock validators snapshot validated) (ht : MetaOnly s t)
    (h : Installs lib env validated t u) : Installed lib s u validated env.lockClock.height := by
  have hslots := (h.slots hlib (ht.mirrored hm) hv).2
  obtain ⟨_, _, m, removals, installs, _, hmeta, -, -, rfl⟩ := h.batch
  simp only [snapshotMeta, bind_eq_ok] at hmeta
  obtain ⟨_, -, hmeta⟩ := hmeta
  cases hmeta
  obtain ⟨_, _, rfl⟩ := ht
  exact ⟨⟨hslots.slot⟩, rfl, ⟨_, flush_putPathMeta _ _ hv.own.1 (by simp), rfl⟩,
    fun _ => mem_of_protectEVMSource hlib h.sources, h.contracts⟩

section Total

variable {path : Text} {record : Record}

omit [DecidableEq H] [LawfulEqOrd H] in
theorem wp_ensure_generations (hcanonical : isCanonicalCollectionPath path = true) (hne : path ≠ [])
    (tip) (height : ℕ) : wp (ensurePathMetaLocked lib tip path height) s
      (fun m t => MetaOnly s t ∧ m.generation = s.metas[path]?.elim 0 (·.generation) ∧
        m.endpointGeneration = s.metas[path]?.elim 0 (·.endpointGeneration)) (fun _ _ => False) := by
  refine wp_ensure_of (fun hbad => by simp [hne, hcanonical] at hbad) ?_
    (fun m hm _ _ _ => ?_) fun m hm _ _ => ?_
  · rintro m rfl
    refine ⟨⟨_, _, rfl⟩, ?_⟩
    rw [Store.computePathMetaViewLocked, (foldl_countIn_frame _ _).2.1,
      (foldl_countIn_frame _ _).2.2, Store.readPathMetaLocked]
    cases s.metas[path]? <;> exact ⟨rfl, rfl⟩
  · rw [hm]
    exact ⟨⟨_, _, rfl⟩, rfl, rfl⟩
  · rw [hm]
    exact ⟨.refl s, rfl, rfl⟩

/-- What lets a validated snapshot through the checks made under the lock. -/
structure Installable (lib : RecordLib H) (s : Store H) (env : SnapshotEnv)
    (validated : ValidatedPathSnapshot) : Prop where
  policy : env.policyGeneration = validated.policyVersion
  height : env.lockClock.height = validated.height
  canonical : isCanonicalCollectionPath validated.path = true
  ne_nil : validated.path ≠ []
  keys : ∀ record ∈ s.scan (trimSlash validated.path), record.key ≠ []
  active : ∀ record ∈ validated.active, record.key ≠ [] ∧ lib.marshalRecord record = .ok ()
  sources : protectEVMSourceReplacement lib (s.scan (trimSlash validated.path)) validated.active =
    .ok ()
  contracts : contractRoot <+: validated.path → validateContractIncomingLocked s validated.active
    (((s.scan (trimSlash validated.path)).map Record.key).filter isAuthorityKey) = .ok ()
  generations : ∀ m, s.metas[validated.path]? = some m →
    m.generation ≠ maxUint64 ∧ m.endpointGeneration ≠ maxUint64
  flushed : env.flushed = .ok ()

omit [DecidableEq H] [TransOrd H] [LawfulEqOrd H] in
theorem snapshotRemoval_returns (hpath : path ≠ []) (hkey : record.key ≠ []) :
    ∃ ws, snapshotRemoval lib s path record = .ok ws := by
  rw [snapshotRemoval, clearChangedRecordBatch, if_neg (not_or.mpr ⟨hpath, hkey⟩)]
  cases s.recordChanges[record.key]? <;> exact ⟨_, rfl⟩

omit [DecidableEq H] [TransOrd H] [LawfulEqOrd H] in
theorem snapshotInstall_returns {generation : ℕ} (hpath : path ≠ []) (hkey : record.key ≠ [])
    (hmarshal : lib.marshalRecord record = .ok ()) (hgeneration : generation ≠ 0) :
    ∃ ws, snapshotInstall lib s path generation record = .ok ws := by
  rw [snapshotInstall, hmarshal, markChangedRecordBatch,
    if_neg (not_or.mpr ⟨hpath, not_or.mpr ⟨hkey, hgeneration⟩⟩)]
  exact ⟨_, rfl⟩

theorem snapshotMeta_returns {previous}
    (h : previous.generation ≠ maxUint64 ∧ previous.endpointGeneration ≠ maxUint64) (changed) :
    snapshotMeta previous validated changed = .ok { validated.pathMeta with
      generation := previous.generation + if changed then 1 else 0
      endpointGeneration := previous.endpointGeneration + if changed then 1 else 0 } := by
  rw [snapshotMeta, beq_false_of_ne h.1, beq_false_of_ne h.2]
  cases changed <;> rfl

omit [LawfulEqOrd H] in
theorem wp_applyValidatedSnapshot_returns {env baseline}
    (hbase : checkBaseline lib s env baseline = .ok ()) (h : Installable lib s env validated) :
    wp (applyValidatedSnapshot lib env validated (some baseline)) s (fun _ _ => True)
      (fun _ _ => False) := by
  have hokay : ∀ {α : Type} {x : DkvsM α} {a : α}, x = .ok a →
      ∀ e, x = .error e → False := by
    intro α x a hx e he
    rw [hx] at he
    cases he
  simp only [applyValidatedSnapshot, check, wp_bind, wp_refuse, wp_ofExcept, wp_get, wp_set,
    wp_pure, Option.elim_some]
  refine ⟨fun hbad => by simp [h.policy, h.height] at hbad, fun _ => ⟨hokay hbase, fun _ _ => ?_⟩⟩
  refine wp_mono (wp_ensure_generations h.canonical h.ne_nil _ _)
    (fun previous t ⟨ht, hgeneration, hendpoint⟩ => ?_) fun _ _ he => he
  obtain ⟨_, _, rfl⟩ := ht
  have hcontracts : (if "/contract/".toList.isPrefixOf validated.path then
      validateContractIncomingLocked s validated.active
        (((s.scan (trimSlash validated.path)).map (·.key)).filter isAuthorityKey) else .ok ()) =
      .ok () := by
    split_ifs with hroot
    · exact h.contracts (List.isPrefixOf_iff_prefix.mp hroot)
    · rfl
  have hcounters : previous.generation ≠ maxUint64 ∧ previous.endpointGeneration ≠ maxUint64 := by
    rw [hgeneration, hendpoint]
    cases hm : s.metas[validated.path]? with
    | none => exact ⟨by decide, by decide⟩
    | some m => exact h.generations m hm
  obtain ⟨removals, hremovals⟩ := exists_mapM_ok (f := snapshotRemoval lib s validated.path)
    (l := snapshotRemoved lib s validated env.lockClock.height) fun record hrecord =>
      snapshotRemoval_returns h.ne_nil
        (h.keys record (mem_filter.mp (mem_filter.mp hrecord).1).1)
  refine ⟨fun hbad => by simp at hbad, fun _ => ⟨hokay h.sources, fun _ _ => ⟨hokay hcontracts,
    fun _ _ => ⟨hokay (snapshotMeta_returns hcounters _), fun m hm => ⟨hokay hremovals, fun _ _ =>
      ⟨?_, fun _ _ => ⟨hokay h.flushed, fun _ _ => trivial⟩⟩⟩⟩⟩⟩⟩
  obtain ⟨installs, hinstalls⟩ := exists_mapM_ok
    (f := snapshotInstall lib s validated.path m.endpointGeneration)
    (l := snapshotInstalled lib s validated env.lockClock.height) fun record hrecord => by
      obtain ⟨hkey, hmarshal⟩ := h.active record (mem_filter.mp hrecord).1
      refine snapshotInstall_returns h.ne_nil hkey hmarshal ?_
      rw [snapshotMeta_returns hcounters, Except.ok.injEq] at hm
      have hchanged : (snapshotInstalled lib s validated env.lockClock.height).isEmpty = false :=
        isEmpty_eq_false_iff_exists_mem.mpr ⟨record, hrecord⟩
      rw [← hm]
      change _ + (if _ || !(snapshotInstalled lib s validated env.lockClock.height).isEmpty then 1
        else 0) ≠ 0
      rw [hchanged]
      simp
  exact hokay hinstalls

end Total

end SatoshiNet.Dkvs
