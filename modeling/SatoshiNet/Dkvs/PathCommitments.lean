import SatoshiNet.Dkvs.HashIndex
import SatoshiNet.Dkvs.PathReplace
import SatoshiNet.Lib.Run

/-!
A node that writes to its store while its clock advances, and what the metadata of a path commits to
in every state that it reaches.
-/

namespace SatoshiNet.Dkvs

open Function Lib Std Action

structure Node (H : Type) [Ord H] where
  clock : Clock
  store : Store H

def Clock.advance (clock : Clock) (blocks tipBlocks : ℕ) : Clock :=
  ⟨clock.height + blocks, clock.tip.map (· + tipBlocks)⟩

theorem Clock.issueHeightTip_advance (clock : Clock) (blocks tipBlocks : ℕ) :
    clock.issueHeightTip ≤ (clock.advance blocks tipBlocks).issueHeightTip := by
  obtain ⟨height, _ | tip⟩ := clock
  · exact Nat.le_add_right height blocks
  · exact Nat.le_add_right tip tipBlocks

variable {H : Type} [Ord H]

/-- What a node does; the clock under the lock is its own. -/
inductive Event (H : Type) [Ord H]
  | advance (blocks tipBlocks : ℕ)
  | put (env : PutEnv H) (record : Record) (remote : Bool)
  | batchCAS (env : BatchEnv H) (mutations : Mutations H)
  | deleteMirrorKeys (flushed : DkvsM Unit) (keys : List Text)
  | pruneExpired (flushed : DkvsM Unit) (popped : List Text) (height : ℕ)
  | applyPathSnapshot (env : SnapshotEnv) (snapshot : PathSnapshot) (baseline : Option ActiveMeta)
  | ensurePathMeta (path : Text) (height : ℕ)

def Event.operation (clock : Clock) : Event H → Option (Operation H)
  | advance _ _ => none
  | put env record remote => some (.put { env with lockClock := clock } record remote)
  | batchCAS env mutations => some (.batchCAS { env with lockClock := clock } mutations)
  | deleteMirrorKeys flushed keys => some (.deleteMirrorKeys clock flushed keys)
  | pruneExpired flushed popped height => some (.pruneExpired clock flushed popped height)
  | applyPathSnapshot env snapshot baseline =>
    some (.applyPathSnapshot { env with lockClock := clock } snapshot baseline)
  | ensurePathMeta path height => some (.ensurePathMeta clock.tip path height)

def Event.tick (clock : Clock) : Event H → Clock
  | advance blocks tipBlocks => clock.advance blocks tipBlocks
  | _ => clock

section Step

variable [TransOrd H] [DecidableEq H]

def Node.step (lib : RecordLib H) (n : Node H) (event : Event H) : Node H :=
  ⟨event.tick n.clock, (event.operation n.clock).elim n.store (Operation.apply lib n.store)⟩

def Node.run (lib : RecordLib H) (clock : Clock) (events : List (Event H)) : Node H :=
  events.foldl (Node.step lib) ⟨clock, .empty H⟩

/-- The event leaves the record in its slot. -/
abbrev Event.Writes (lib : RecordLib H) (n : Node H) (event : Event H) (record : Record) : Prop :=
  (n.step lib event).store.records[record.key]? = some record

end Step

/-- The records that the metadata of a path is to commit to: those stored with this collection path
that are active at the height and visible to the network. -/
def Store.committed (lib : RecordLib H) (s : Store H) (tip : Option ℕ) (path : Text)
    (height : ℕ) : Records :=
  (s.records.toList.map Prod.snd).filter fun record =>
    (parseKey record.key).toOption.any (collectionPath · == path) &&
      (lib.recordActive tip record height &&
        lib.networkPathRecordVisible s.retentions record height)

/-- When an event leaves the commitment of the path alone or updates it rightly: records written below
the path are its own and not from the future, every AUTOPAY record of the path is paid for at the height
of the event, a put does not replace the record that expires first by one that outlives another, and
no snapshot of an enclosing path takes records away. -/
def Event.Sound [TransOrd H] [DecidableEq H] (lib : RecordLib H) (path : Text) (n : Node H) :
    Event H → Prop
  | advance _ _ => True
  | put env record remote =>
    Paid lib path n.store n.clock.height ∧ ((put env record remote).Writes lib n record →
      Belongs path n.clock record ∧ SparesLeastExpiry lib path n.clock n.store record)
  | batchCAS env mutations =>
    Paid lib path n.store n.clock.issueHeightTip ∧
      ∀ m ∈ mutations, (batchCAS env mutations).Writes lib n m.record → Belongs path n.clock m.record
  | deleteMirrorKeys _ _ => Paid lib path n.store n.clock.height
  | pruneExpired _ _ height => n.clock.Reads height ∧ Paid lib path n.store height
  | applyPathSnapshot env snapshot baseline =>
    Paid lib path n.store n.clock.height ∧
      (∀ record ∈ snapshot.records, (applyPathSnapshot env snapshot baseline).Writes lib n record →
        Belongs path n.clock record) ∧
      ∀ record ∈ n.store.scan (trimSlash (stringsTrimPath snapshot.path)),
        inPath path record.key = true → stringsTrimPath snapshot.path = path
  | ensurePathMeta q height =>
    q = path → n.clock.Reads height ∧ Paid lib path n.store height

theorem inCollection_iff {path key} :
    (parseKey key).toOption.any (collectionPath · == path) = true ↔ InCollection path key := by
  constructor
  · intro h
    obtain ⟨parsed, hparse, hpath⟩ := exists_of_any h
    exact ⟨parsed, hparse, beq_iff_eq.mp hpath⟩
  · rintro ⟨parsed, hparse, hpath⟩
    simp [hparse, hpath, Except.toOption]

section Decidable

variable (lib : RecordLib H) (path : Text)

instance (key : Text) : Decidable (InCollection path key) := decidable_of_iff _ inCollection_iff

instance (clock : Clock) (record : Record) : Decidable (Belongs path clock record) :=
  inferInstanceAs (Decidable (_ → _ ∧ _))

instance (s : Store H) (height : ℕ) : Decidable (Paid lib path s height) :=
  decidable_of_iff (∀ entry ∈ s.records.toList, inPath path entry.1 = true →
    lib.paidRecordRelayableAt s.retentions entry.2 height = true) <| by
    simp [Paid]

instance (clock : Clock) (height : ℕ) : Decidable (clock.Reads height) :=
  inferInstanceAs (Decidable (clock.tip = none → clock.height ≤ height))

instance (clock : Clock) (s : Store H) (record : Record) :
    Decidable (SparesLeastExpiry lib path clock s record) :=
  @List.decidableBAll _ _ (fun _ => @instDecidableForall _ _ _
    (@instDecidableForall _ _ _ inferInstance)) _

instance [TransOrd H] [DecidableEq H] (n : Node H) :
    (event : Event H) → Decidable (event.Sound lib path n)
  | .advance _ _ => isTrue trivial
  | .put _ _ _ => inferInstanceAs (Decidable (_ ∧ (_ → _ ∧ _)))
  | .batchCAS _ _ => inferInstanceAs (Decidable (_ ∧ ∀ _ ∈ _, _ → _))
  | .deleteMirrorKeys _ _ => inferInstanceAs (Decidable (Paid _ _ _ _))
  | .pruneExpired _ _ _ => inferInstanceAs (Decidable (_ ∧ _))
  | .applyPathSnapshot _ _ _ => inferInstanceAs (Decidable (_ ∧ (∀ _ ∈ _, _ → _) ∧ ∀ _ ∈ _, _ → _))
  | .ensurePathMeta _ _ => inferInstanceAs (Decidable (_ → _ ∧ _))

end Decidable

variable {lib : RecordLib H} {path : Text}

theorem tracked_empty (lib) (path clock) : Tracked lib path clock (.empty H) := by
  refine ⟨fun key record h => ?_, fun key record h => ?_, fun m h => ?_⟩ <;>
    simp [Store.empty] at h

section Committed

variable {s : Store H} {tip : Option ℕ} {height : ℕ}

theorem mem_committed (hs : Keyed s) {record} :
    record ∈ s.committed lib tip path height ↔ s.Holds record ∧
      InCollection path record.key ∧ lib.recordActive tip record height = true ∧
        lib.networkPathRecordVisible s.retentions record height = true := by
  have hstored : record ∈ s.records.toList.map Prod.snd ↔ s.Holds record := by
    simp only [List.mem_map, Prod.exists, exists_eq_right,
      ExtTreeMap.mem_toList_iff_getElem?_eq_some]
    exact ⟨fun ⟨_, h⟩ => hs.holds h, fun h => ⟨_, h⟩⟩
  rw [Store.committed, List.mem_filter, hstored, Bool.and_eq_true, Bool.and_eq_true]
  exact and_congr_right fun _ => and_congr_left fun _ => inCollection_iff

theorem nodup_committed (hs : Keyed s) : (s.committed lib tip path height).Nodup := by
  have hstored : (s.records.toList.map Prod.snd).Nodup :=
    (pairwise_values hs).map _ fun _ _ hne => hne
  exact hstored.filter _

end Committed

theorem view_perm_committed {clock s} {height : ℕ} (hs : Tracked lib path clock s)
    (hp : NetworkPath path) (hpaid : Paid lib path s height) (hheight : clock.Reads height) :
    (s.view lib path height).Perm (s.committed lib clock.tip path height) := by
  rw [List.perm_ext_iff_of_nodup (nodup_view hs.keyed path height) (nodup_committed hs.keyed)]
  intro record
  rw [mem_view hs.keyed hp.ne_nil, mem_committed hs.keyed]
  refine and_congr_right fun hrecord => ?_
  constructor
  · rintro ⟨hin, hcounts⟩
    rw [← visible_eq_counts hs hpaid hheight hrecord hin, Bool.and_eq_true] at hcounts
    exact ⟨hs.within hrecord hin, hcounts⟩
  · rintro ⟨⟨parsed, hparse, hpath⟩, hvisible⟩
    rw [← Bool.and_eq_true] at hvisible
    have hin : inPath path record.key = true :=
      hpath ▸ inPath_collectionPath hparse (hpath ▸ hp.ne_nil)
    rw [visible_eq_counts hs hpaid hheight hrecord hin] at hvisible
    exact ⟨hin, hvisible⟩

variable [TransOrd H] [LawfulEqOrd H] [DecidableEq H]

theorem tracked_step (hlib : CollisionFree lib) (hp : NetworkPath path) (n : Node H)
    (event : Event H) (hn : Mirrored lib n.store ∧ Tracked lib path n.clock n.store)
    (h : event.Sound lib path n) : Mirrored lib (n.step lib event).store ∧
      Tracked lib path (n.step lib event).clock (n.step lib event).store := by
  have hmirrored : Mirrored lib (n.step lib event).store := by
    cases hop : event.operation n.clock with
    | none => simpa [Node.step, hop] using hn.1
    | some op => simpa [Node.step, hop] using op.mirrored_apply hlib hn.1
  refine ⟨hmirrored, ?_⟩
  obtain ⟨hm, hs⟩ := hn
  cases event with
  | advance blocks tipBlocks => exact hs.later (n.clock.issueHeightTip_advance blocks tipBlocks)
  | put env record remote =>
    exact exec_of_wp (wp_putAttempt_tracked hlib hs hp rfl h.1 remote) h.2
  | batchCAS env mutations =>
    exact exec_of_wp (wp_batchAttempt_tracked hlib hs hp rfl h.1 mutations) h.2
  | deleteMirrorKeys flushed keys =>
    exact exec_of_wp (wp_deleteMirrorKeys_tracked hs hp h flushed keys)
  | pruneExpired flushed popped height =>
    exact exec_of_wp (wp_pruneExpiredAt_tracked hlib hm hs hp h.1 h.2 flushed popped)
  | applyPathSnapshot env snapshot baseline =>
    obtain ⟨hpaid, hfits, hnest⟩ := h
    exact exec_of_wp (wp_applyCurrentPathSnapshot_tracked hlib hm hs hp rfl hpaid hnest baseline) hfits
  | ensurePathMeta q height =>
    exact exec_of_wp (wp_mono (wp_ensure_tracked hs hp.ne_nil hp.trimmed q n.clock.tip fun hq =>
      ⟨rfl, h hq⟩) (fun _ _ ht => ht.2.1) fun _ _ ht => ht ▸ hs)

theorem tracked_run (hlib : CollisionFree lib) (hp : NetworkPath path) (clock : Clock) (events)
    (h : Meets (Node.step lib) (Event.Sound lib path) ⟨clock, .empty H⟩ events) :
    Tracked lib path (Node.run lib clock events).clock (Node.run lib clock events).store := by
  refine (foldl_of_meets (I := fun n => Mirrored lib n.store ∧ Tracked lib path n.clock n.store)
    (tracked_step hlib hp) events ⟨?_, tracked_empty lib path clock⟩ h).2
  exact mirrored_run hlib []

omit [LawfulEqOrd H] [DecidableEq H] in
theorem wp_ensure_returns (hcanonical : isCanonicalCollectionPath path = true) (hne : path ≠ [])
    (tip) (height : ℕ) (s) :
    wp (ensurePathMetaLocked lib tip path height) s (fun _ _ => True) (fun _ _ => False) :=
  wp_ensure_of (fun hbad => by simp [hne, hcanonical] at hbad) (fun _ _ => trivial)
    (fun _ _ _ _ _ => trivial) fun _ _ _ _ => trivial

/-- In every state of a run whose events are sound for the path, reading its metadata at a height
gives the commitment to exactly the network-visible records that are stored with this collection
path. -/
theorem pathMeta_commits_to_visible_records (hlib : CollisionFree lib)
    (hcanonical : isCanonicalCollectionPath path = true) (hp : NetworkPath path) (clock : Clock)
    (events : List (Event H))
    (hsound : Meets (Node.step lib) (Event.Sound lib path) ⟨clock, .empty H⟩ events) (height : ℕ)
    (hheight : (Node.run lib clock events).clock.Reads height)
    (hpaid : Paid lib path (Node.run lib clock events).store height) :
    let n := Node.run lib clock events
    let records := n.store.committed lib n.clock.tip path height
    ∃ m, ((ensurePathMetaLocked lib n.clock.tip path height).exec n.store).1 = .ok m ∧
      m.activeRecords = records.length ∧ m.activeTotalSize = (records.map recordSize).sum ∧
      m.stateRoot = lib.root records ∧ m.minExpiryHeight = leastExpiry records := by
  intro n records
  have hs := tracked_run hlib hp clock events hsound
  obtain ⟨m, hm, -, -, -, hcommits⟩ := exists_ok_of_wp
    (wp_ensure_tracked hs hp.ne_nil hp.trimmed path n.clock.tip fun _ => ⟨rfl, hheight, hpaid⟩)
    (wp_ensure_returns hcanonical hp.ne_nil _ _ _)
  obtain ⟨⟨hcount, hsize, hroot⟩, hexpiry⟩ :=
    (hcommits rfl).2.perm (view_perm_committed hs hp hpaid hheight)
  exact ⟨m, hm, hcount, hsize, hroot, hexpiry⟩

namespace Reference

def writes (clock : Clock) (entries : List (ℕ × Record)) : List (Event (List ℕ)) :=
  entries.foldl (fun events entry =>
    let n := Node.run recordLib clock (events ++ [.advance entry.1 0])
    events ++ [.advance entry.1 0, .put (putEnv n.store n.clock.height) entry.2 false]) []

end Reference

open Reference in
theorem pathMeta_commits_after_prune :
    let events := writes ⟨5, none⟩ [(0, record "/svc/a/x" 1 5 5), (0, record "/svc/a/y" 1 5 7),
      (1, record "/svc/a/x" 2 6 3)] ++ [.advance 3 0, .pruneExpired (.ok ()) ["/svc/a/x".toList] 9]
    let n := Node.run recordLib ⟨5, none⟩ events
    let records := n.store.committed recordLib n.clock.tip "/svc/a".toList 11
    n.store.records.toList = [("/svc/a/y".toList, record "/svc/a/y" 1 5 7)] ∧
    ∃ m, ((ensurePathMetaLocked recordLib n.clock.tip "/svc/a".toList 11).exec n.store).1 = .ok m ∧
      m.activeRecords = records.length ∧ m.activeTotalSize = (records.map recordSize).sum ∧
      m.stateRoot = recordLib.root records ∧ m.minExpiryHeight = leastExpiry records :=
  ⟨by decide +kernel, pathMeta_commits_to_visible_records collisionFree_recordLib
    (by decide +kernel) ⟨by decide, by decide, by decide⟩ ⟨5, none⟩ _ (by decide +kernel) 11
    (by decide +kernel) (by decide +kernel)⟩

open Reference in
/-- The record that expires first is replaced by one that outlives the other record of the path: the
metadata then gives the later expiry as the least one, and is carried over past the earlier one. -/
theorem pathMeta_misses_earlier_expiry :
    let n := Node.run recordLib ⟨5, none⟩ (writes ⟨5, none⟩ [(0, record "/svc/a/x" 1 5 5),
      (0, record "/svc/a/y" 1 5 7), (1, record "/svc/a/x" 2 6 14)])
    let path := "/svc/a".toList
    isCanonicalCollectionPath path = true ∧
    ((ensurePathMetaLocked recordLib none path 6).exec n.store).1.toOption.map
      (·.minExpiryHeight) = some 20 ∧
    leastExpiry (n.store.committed recordLib none path 6) = 12 ∧
    ((ensurePathMetaLocked recordLib none path 15).exec n.store).1.toOption.map
      (fun m => (m.activeRecords, m.stateRoot)) =
        some (2, recordLib.root (n.store.committed recordLib none path 6)) ∧
    (n.store.committed recordLib none path 15).length = 1 ∧
    recordLib.root (n.store.committed recordLib none path 15) ≠
      recordLib.root (n.store.committed recordLib none path 6) := by
  decide +kernel

end SatoshiNet.Dkvs
