import SatoshiNet.Dkvs.Collections
import SatoshiNet.Dkvs.PathCommitments

/-!
Serving a path: `GetPathSnapshot` of `path_snapshot_read.go` and `NetworkSyncBaseline` of
`active_network.go`.  What is served is exactly what the network sees of the path.
-/

namespace SatoshiNet.Dkvs

open Lib Std Action List Bool

variable {H : Type} [Ord H]

def Store.below (s : Store H) (path : Text) : Records :=
  (s.records.toList.filter fun entry => path.isPrefixOf entry.1).map Prod.snd

/-- What a reader of a network view meets: the clock before and under the lock, and how the refresh
of the payments went.  What the refresh has learnt is in the payment cache. -/
structure ServeEnv where
  clock : Clock
  refreshed : DkvsM Unit
  lockClock : Clock
  policyHeld : Bool

def ServeEnv.moved (env : ServeEnv) : Bool :=
  env.lockClock.height != env.clock.height ||
    env.lockClock.issueHeightTip != env.clock.issueHeightTip || !env.policyHeld

section Serve

variable (lib : RecordLib H)

def serveRecord (s : Store H) (tip : Option ℕ) (path : Text) (height : ℕ)
    (served : PathMeta × Records) (record : Record) : DkvsM (PathMeta × Records) := do
  networkRecordReadyLocked lib s path height record
  if activeScopeRecord lib s tip path height record then
    require (served.1.activeTotalSize + recordSize record ≤ maxNetworkSnapshotBytes) .batchTooLarge
    return (lib.countIn served.1 record, served.2 ++ [record])
  else return served

def getPathSnapshot [TransOrd H] (env : ServeEnv) (path : Text) : StoreM H PathSnapshot := do
  let scope ← check (normalizeNetworkScope path)
  check env.refreshed
  .refuse env.moved (.fail .concurrentUpdate)
  let height := env.clock.issueHeightTip
  let previous ← ensurePathMetaLocked lib env.lockClock.tip scope height
  let s ← get
  let served ← check ((s.below scope).foldlM (serveRecord lib s env.lockClock.tip scope height)
    (.blank scope previous.generation previous.endpointGeneration height, []))
  return ⟨scope, served.1, sortByKey served.2⟩

def networkSyncBaseline (s : Store H) (env : ServeEnv) (endpointID path : Text) :
    DkvsM ActiveMeta := do
  let scope ← normalizeNetworkScope path
  env.refreshed
  require (!env.moved) .concurrentUpdate
  activeMetaLocked lib s endpointID env.lockClock.tip scope env.clock.issueHeightTip

end Serve

variable {lib : RecordLib H} {s : Store H} {tip : Option ℕ} {path : Text} {height : ℕ}

theorem foldlM_serveRecord (records : Records) {m m' : PathMeta} {acc acc' : Records}
    (h : records.foldlM (serveRecord lib s tip path height) (m, acc) = .ok (m', acc')) :
    m' = (records.filter (activeScopeRecord lib s tip path height)).foldl lib.countIn m ∧
      acc' = acc ++ records.filter (activeScopeRecord lib s tip path height) ∧
      (m.activeTotalSize ≤ maxNetworkSnapshotBytes →
        m'.activeTotalSize ≤ maxNetworkSnapshotBytes) := by
  induction records generalizing m acc with
  | nil =>
    cases h
    exact ⟨rfl, (append_nil _).symm, id⟩
  | cons record records ih =>
    obtain ⟨⟨m₁, acc₁⟩, hstep, hrest⟩ := foldlM_cons_eq_ok.mp h
    obtain ⟨hmeta, hacc, hsize⟩ := ih hrest
    simp only [serveRecord, bind_eq_ok] at hstep
    obtain ⟨_, -, hstep⟩ := hstep
    split_ifs at hstep with hvisible
    · simp only [bind_eq_ok, require_eq_ok, decide_eq_true_eq] at hstep
      obtain ⟨_, hfits, hstep⟩ := hstep
      cases hstep
      rw [filter_cons_of_pos hvisible]
      exact ⟨hmeta, by rw [hacc, append_assoc, singleton_append], fun _ => hsize hfits⟩
    · cases hstep
      rw [filter_cons_of_neg hvisible]
      exact ⟨hmeta, hacc, hsize⟩

theorem filter_below (hs : Keyed s) (hpath : path ≠ []) :
    (s.below path).filter (activeScopeRecord lib s tip path height) =
      s.committed lib tip path height := by
  rw [Store.below, Store.committed, filter_map, filter_map, filter_filter]
  refine congrArg _ (filter_congr fun entry hentry => ?_)
  have hkey : entry.2.key = entry.1 := hs (ExtTreeMap.mem_toList_iff_getElem?_eq_some.mp hentry)
  simp only [Function.comp_apply, activeScopeRecord, activeScopeMatches, bne_iff_ne.mpr hpath,
    Bool.and_true, Bool.and_assoc]
  cases hown : (parseKey entry.2.key).toOption.any (collectionPath · == path) with
  | false => simp
  | true =>
    obtain ⟨parsed, hparse, hcollection⟩ := exists_of_any hown
    have hcollection := beq_iff_eq.mp hcollection
    have hin := inPath_collectionPath hparse (hcollection ▸ hpath)
    rw [hcollection, hkey] at hin
    rw [isPrefixOf_of_inPath hin]
    simp

theorem nodup_key_committed (hs : Keyed s) :
    ((s.committed lib tip path height).map Record.key).Nodup := by
  refine (nodup_committed hs).map_on fun a ha b hb hkey => ?_
  exact ((mem_committed hs).mp ha).1.eq ((mem_committed hs).mp hb).1 hkey

omit [Ord H] in
theorem plain_of_visible {cache} {record}
    (h : lib.networkPathRecordVisible cache record height = true) :
    isTombstone record.flags = false ∧ lib.isEndpointCacheRecord record = false ∧
      lib.isFreeLocalRecord record = false := by
  simp only [RecordLib.networkPathRecordVisible, RecordLib.isEndpointCacheRecord, and_eq_true,
    not_eq_true', or_eq_false_iff] at h ⊢
  exact ⟨h.1.1, h.1.2, h.1.2.2⟩

theorem commits_committed (lib) (hs : Keyed s) (tip) (path)
    (height generation endpointGeneration : ℕ) :
    Commits lib ((s.committed lib tip path height).foldl lib.countIn
      (.blank path generation endpointGeneration height)) (s.committed lib tip path height) := by
  have hplain : ∀ record ∈ s.committed lib tip path height,
      isTombstone record.flags = false ∧ lib.isFreeLocalRecord record = false := by
    intro record hrecord
    obtain ⟨htomb, -, hfree⟩ := plain_of_visible ((mem_committed hs).mp hrecord).2.2.2
    exact ⟨htomb, hfree⟩
  have h := (commits_blank lib path generation endpointGeneration height).foldl_countIn hplain
  rwa [append_nil] at h

structure Serves (lib : RecordLib H) (s : Store H) (tip : Option ℕ) (path : Text) (height : ℕ)
    (snapshot : PathSnapshot) : Prop where
  named : snapshot.path = path
  own : snapshot.pathMeta.path = path
  view : snapshot.pathMeta.viewHeight = height
  records : snapshot.records.Perm (s.committed lib tip path height)
  commits : Commits lib snapshot.pathMeta snapshot.records
  size : (snapshot.records.map recordSize).sum ≤ maxNetworkSnapshotBytes

theorem wp_getPathSnapshot [TransOrd H] (hs : Keyed s) (hscope : normalizeNetworkScope path = .ok path)
    (hpath : path ≠ []) (env : ServeEnv) : wp (getPathSnapshot lib env path) s
      (fun snapshot t => MetaOnly s t ∧ env.moved = false ∧
        Serves lib s env.lockClock.tip path env.clock.issueHeightTip snapshot)
      (fun _ t => MetaOnly s t) := by
  simp only [getPathSnapshot, check, hscope, wp_bind, wp_refuse, wp_ofExcept, wp_get, wp_pure]
  refine ⟨fun _ _ => .refl s, fun scope heq => ?_⟩
  cases heq
  refine ⟨fun _ _ => .refl s, fun _ _ => ⟨fun _ => .refl s, fun hmoved => ?_⟩⟩
  refine wp_mono (wp_ensurePathMetaLocked lib _ _ _ s) (fun previous t ht => ?_) fun _ _ ht => ht
  refine ⟨fun _ _ => ht, fun served hserved => ⟨ht, not_eq_true _ ▸ hmoved, ?_⟩⟩
  obtain ⟨m, records⟩ := served
  have hkeyed := ht.keyed hs
  obtain ⟨rfl, rfl, hsize⟩ := foldlM_serveRecord _ hserved
  have hsame : t.committed lib env.lockClock.tip path env.clock.issueHeightTip =
      s.committed lib env.lockClock.tip path env.clock.issueHeightTip := by
    obtain ⟨_, _, rfl⟩ := ht
    rfl
  rw [filter_below hkeyed hpath, hsame] at hsize ⊢
  rw [nil_append]
  have hperm : (sortByKey (s.committed lib env.lockClock.tip path env.clock.issueHeightTip)).Perm
      (s.committed lib env.lockClock.tip path env.clock.issueHeightTip) := mergeSort_perm _ _
  obtain ⟨hown, hview⟩ := (foldl_countIn_frame (.blank path previous.generation
    previous.endpointGeneration env.clock.issueHeightTip)
    (s.committed lib env.lockClock.tip path env.clock.issueHeightTip)).1
  have hcommits := commits_committed lib hs env.lockClock.tip path
    env.clock.issueHeightTip previous.generation previous.endpointGeneration
  refine ⟨rfl, hown, hview, hperm, hcommits.perm hperm.symm, ?_⟩
  rw [(hperm.map recordSize).sum_eq, ← hcommits.size]
  exact hsize (Nat.zero_le _)

end SatoshiNet.Dkvs
