import Mathlib.Data.Finset.Basic
import SatoshiNet.Dkvs.Key

/-!
The synchronisation of a node with its peers: `node_sync.go` and what `state.go` keeps for it, one
critical section a step.

One directory at a time is transferred, by any of the peers, and the notifications that arrive
before the node is ready wait to be replayed.
-/

namespace SatoshiNet.Dkvs

open List

def maxPendingChanges : ℕ := 10000

def maxPendingByteHints : ℕ := 32 * 1024 * 1024

/-- What the handler of a peer's answer has still to call. -/
inductive Todo
  | nothing
  | queueNext
  | markReady
  deriving DecidableEq

/-- The node, and from `hand` on what its goroutines know: the notification that is being replayed,
whether the answer of the peer that transfers is installed, the peers whose connection has ended, and
where the handlers stand. -/
structure NodeState (Peer M : Type) where
  ready : Bool := false
  pending : List M := []
  pendingBytes : ℤ := 0
  pendingOverflow : Bool := false
  pendingPathSync : List Text := []
  pendingPathSyncSet : Finset Text := ∅
  sync : Option (Peer × Text) := none
  draining : Bool := false
  hand : Option M := none
  installed : Bool := false
  closed : Peer → Bool := fun _ => false
  todo : Peer → Todo := fun _ => .nothing

/-- The empty path is the discovery, which is installed when its directories are enqueued.  A rejected
response and a timeout finish without success.  `next` and `markReady` are the calls of a handler
that has finished a transfer, `start` is any other call of `queueNextNodeSync`. -/
inductive NodeEvent (Peer M : Type)
  | notify (message : M)
  | enqueue (path : Text)
  | queueSync
  | start (peer : Peer) (skip : Option Text) (allowed opens : Bool)
  | install (peer : Peer)
  | finish (peer : Peer) (success : Bool)
  | close (peer : Peer)
  | next (peer : Peer) (allowed opens : Bool)
  | markReady (peer : Peer)
  | drain
  | replayed
  | setReady (ready : Bool)

/-- The notifications that came while the node was not ready, and those that were applied, since a
discovery last answered an overflow. -/
structure NodeLog (M : Type) where
  (arrived applied : List M := [])

namespace NodeState

variable {Peer M : Type} (size : M → ℕ) (s : NodeState Peer M)

def setReady (ready : Bool) : NodeState Peer M :=
  { s with ready := ready && s.sync.isNone && s.pendingPathSyncSet = ∅ && s.pending.isEmpty &&
      !s.pendingOverflow && !s.draining }

def bufferPendingNotify (message : M) : NodeState Peer M :=
  if s.ready then s
  else if maxPendingChanges ≤ s.pending.length ∨
      maxPendingByteHints < s.pendingBytes + (size message + 16) then { s with pendingOverflow := true }
  else { s with
    pending := s.pending ++ [message], pendingBytes := s.pendingBytes + (size message + 16) }

def enqueuePathSyncLocked (path : Text) : NodeState Peer M :=
  if path ∈ s.pendingPathSyncSet then s
  else if maxPendingChanges ≤ s.pendingPathSync.length then
    { s with pendingOverflow := true, ready := false }
  else { s with
    pendingPathSync := s.pendingPathSync ++ [path]
    pendingPathSyncSet := insert path s.pendingPathSyncSet
    ready := false }

/-- The critical section of `QueueSync`. -/
def queueSync : NodeState Peer M :=
  if s.sync.isNone && s.pendingPathSyncSet = ∅ then s.enqueuePathSyncLocked [] else s

/-- The first critical section of `markReadyAndDrain`. -/
def markReady : NodeState Peer M :=
  if s.sync.isSome || s.pendingPathSyncSet ≠ ∅ || s.draining then s
  else { s with draining := true, ready := false }

def drain : NodeState Peer M :=
  if !s.draining || s.hand.isSome then s
  else if s.sync.isSome || s.pendingPathSyncSet ≠ ∅ then { s with draining := false }
  else if s.pendingOverflow then
    let cleared := { s with pending := [], pendingBytes := 0, pendingOverflow := false }
    { cleared.enqueuePathSyncLocked [] with draining := false }
  else match s.pending with
  | [] => { s with draining := false, ready := true }
  | message :: _ => { s with hand := some message }

def replayed : NodeState Peer M :=
  match s.hand with
  | none => s
  | some message =>
    { s with
      pending := s.pending.tail
      pendingBytes := s.pendingBytes - (size message + 16)
      hand := none }

def queueNextNodeSync (peer : Peer) (skip : Option Text) (allowed opens : Bool) :
    NodeState Peer M × Bool :=
  if !allowed || s.sync.isSome || s.draining then (s, false)
  else match s.pendingPathSync.find? (some · ≠ skip) with
  | none => (s, false)
  | some path =>
    let rest := s.pendingPathSync.erase path
    -- a peer that is closed opens no session
    if opens && !s.closed peer then ({ s with
      pendingPathSync := rest, sync := some (peer, path), installed := false, ready := false }, true)
    else ({ s with pendingPathSync := rest ++ [path], ready := false }, false)

variable [DecidableEq Peer]

def ownsSync (peer : Peer) : Bool := s.sync.any (·.1 = peer)

def withTodo (peer : Peer) (todo : Todo) : NodeState Peer M :=
  { s with todo := Function.update s.todo peer todo }

def finishSync (peer : Peer) (success : Bool) : NodeState Peer M :=
  match s.sync with
  | none => s
  | some (owner, path) =>
    if owner ≠ peer then s
    else if success then
      { s with pendingPathSyncSet := s.pendingPathSyncSet.erase path, sync := none }
    else { s with pendingPathSync := s.pendingPathSync ++ [path], sync := none }

/-- What `PeerState.Close` does for the node.  The handler of an answer that is installed owns the
transfer no longer, but goes on as if it did. -/
def close (peer : Peer) : NodeState Peer M :=
  let todo := if s.ownsSync peer && s.installed then .queueNext else s.todo peer
  { (s.finishSync peer false).withTodo peer todo with closed := Function.update s.closed peer true }

def step (s : NodeState Peer M) : NodeEvent Peer M → NodeState Peer M
  | .notify message => s.bufferPendingNotify size message
  | .enqueue path => s.enqueuePathSyncLocked path
  | .queueSync => s.queueSync
  | .start peer skip allowed opens => (s.queueNextNodeSync peer skip allowed opens).1
  | .install peer =>
    -- the answers of a peer are handled one after the other
    if s.ownsSync peer ∧ s.todo peer = .nothing then { s with installed := true } else s
  | .finish peer success =>
    -- the handler that reports success has installed the snapshot
    if s.ownsSync peer ∧ s.installed = success then
      (s.finishSync peer success).withTodo peer (if success then .queueNext else s.todo peer)
    else s
  | .close peer => s.close peer
  | .next peer allowed opens =>
    if s.todo peer = .queueNext then
      let queued := s.queueNextNodeSync peer none allowed opens
      queued.1.withTodo peer (if queued.2 then .nothing else .markReady)
    else s
  | .markReady peer =>
    if s.todo peer = .markReady then s.markReady.withTodo peer .nothing else s
  | .drain => s.drain
  | .replayed => s.replayed size
  | .setReady ready => s.setReady ready

/-- The log is kept beside the node: only what the events say enters it. -/
def record (log : NodeLog M) : NodeEvent Peer M → NodeLog M
  | .notify message => if s.ready then log else { log with arrived := log.arrived ++ [message] }
  | .replayed => { log with applied := log.applied ++ s.hand.toList }
  | .drain => if s.pendingOverflow && !s.drain.pendingOverflow then {} else log
  | _ => log

def run (events : List (NodeEvent Peer M)) : NodeState Peer M × NodeLog M :=
  events.foldl (fun x event => (x.1.step size event, x.1.record x.2 event)) ({}, {})

def outstanding : List Text := s.pendingPathSync ++ s.sync.toList.map Prod.snd

structure Inv : Prop where
  set : s.pendingPathSyncSet.val = s.outstanding
  ready : s.ready = true → s.outstanding = [] ∧ s.pending = [] ∧ s.pendingOverflow = false ∧
    s.draining = false
  hand : ∀ message, s.hand = some message → s.draining = true ∧ s.pending.head? = some message
  draining : s.draining = true → s.sync = none
  closed : ∀ peer path, s.sync = some (peer, path) → s.closed peer = false

/-- What was applied and what waits came in this order, and without an overflow it is all that came. -/
structure Logged (log : NodeLog M) : Prop where
  order : log.applied ++ s.pending <+ log.arrived
  all : s.pendingOverflow = false → log.applied ++ s.pending = log.arrived

/-- Only a directory that is installed leaves the set, an overflow stands until a new discovery answers
it, and a notification that comes too early waits or is an overflow. -/
def Keeps (event : NodeEvent Peer M) : Prop :=
  (∀ path ∈ s.pendingPathSyncSet, path ∈ (s.step size event).pendingPathSyncSet ∨
    ∃ peer, event = .finish peer true ∧ s.sync = some (peer, path) ∧ s.installed = true) ∧
  (s.pendingOverflow = true → (s.step size event).pendingOverflow = true ∨
    event = .drain ∧ [] ∈ (s.step size event).pendingPathSyncSet) ∧
  ∀ message, event = .notify message → s.ready = false →
    (s.step size event).pending = s.pending ++ [message] ∨ (s.step size event).pendingOverflow = true

variable {s} {size} (h : s.Inv)

section

omit [DecidableEq Peer]

include h

theorem Inv.idle (hset : s.pendingPathSyncSet = ∅) : s.outstanding = [] := by
  have hval := h.set
  rw [hset] at hval
  exact (Multiset.coe_eq_zero _).mp hval.symm

theorem Inv.stop (hhand : s.hand = none) : { s with draining := false }.Inv :=
  { h with
    hand := by simp [hhand]
    draining := by simp
    ready := fun hr => ⟨(h.ready hr).1, (h.ready hr).2.1, (h.ready hr).2.2.1, rfl⟩ }

theorem inv_setReady (ready) : (s.setReady ready).Inv := by
  refine { h with ready := fun hr => ?_ }
  simp only [setReady, Bool.and_eq_true, decide_eq_true_eq, List.isEmpty_iff,
    Bool.not_eq_true'] at hr
  exact ⟨h.idle hr.1.1.1.2, hr.1.1.2, hr.1.2, hr.2⟩

theorem inv_bufferPendingNotify (message) : (s.bufferPendingNotify size message).Inv := by
  unfold bufferPendingNotify
  split_ifs with hready
  · exact h
  · exact { h with ready := fun hr => absurd hr hready }
  · refine { h with ready := fun hr => absurd hr hready, hand := fun m hm => ?_ }
    exact ⟨(h.hand m hm).1, by simp [head?_append, (h.hand m hm).2]⟩

theorem inv_enqueue (path) : (s.enqueuePathSyncLocked path).Inv := by
  unfold enqueuePathSyncLocked
  split_ifs with hmem
  · exact h
  · exact { h with ready := by simp }
  · refine { h with ready := by simp, set := ?_ }
    rw [Finset.insert_val_of_notMem hmem, h.set, outstanding, outstanding, append_assoc]
    exact Multiset.coe_eq_coe.mpr perm_middle.symm

theorem inv_queueSync : s.queueSync.Inv := by
  unfold queueSync
  split_ifs
  · exact inv_enqueue h _
  · exact h

theorem inv_markReady : s.markReady.Inv := by
  unfold markReady
  split_ifs with hbusy
  · exact h
  · simp only [Bool.or_eq_true, not_or, Option.not_isSome_iff_eq_none] at hbusy
    exact { h with
      ready := by simp
      hand := fun m hm => ⟨rfl, (h.hand m hm).2⟩
      draining := fun _ => hbusy.1.1 }

theorem inv_drain : s.drain.Inv := by
  rw [drain]
  split_ifs with hoff hbusy hover
  · exact h
  all_goals simp only [Bool.or_eq_true, not_or, Bool.not_eq_true', Bool.not_eq_false,
    Option.not_isSome_iff_eq_none, decide_eq_true_eq, not_not] at hoff hbusy
  · exact h.stop hoff.2
  · have hcleared : { s with pending := [], pendingBytes := 0, pendingOverflow := false }.Inv :=
      { h with
        ready := fun hr => ⟨(h.ready hr).1, rfl, rfl, (h.ready hr).2.2.2⟩
        hand := by simp [hoff.2] }
    refine (inv_enqueue hcleared _).stop ?_
    unfold enqueuePathSyncLocked
    split_ifs <;> exact hoff.2
  · split
    · rename_i hpending
      exact { h.stop hoff.2 with
        ready := fun _ => ⟨h.idle hbusy.2, hpending, Bool.not_eq_true _ ▸ hover, rfl⟩ }
    · rename_i hpending
      refine { h with hand := fun m hm => ⟨hoff.1, ?_⟩ }
      rw [hpending, ← hm, head?_cons]

theorem inv_replayed : (s.replayed size).Inv := by
  rw [replayed]
  split
  · exact h
  rename_i message hhand
  obtain ⟨hdraining, hhead⟩ := h.hand message hhand
  refine { h with ready := fun hr => ?_, hand := by simp }
  cases hdraining.symm.trans (h.ready hr).2.2.2

omit h in
theorem queueNextNodeSync_cases (peer skip allowed opens) :
    let queued := s.queueNextNodeSync peer skip allowed opens
    queued = (s, false) ∨
    s.sync = none ∧ s.draining = false ∧ ∃ path ∈ s.pendingPathSync,
      let rest := s.pendingPathSync.erase path
      queued = ({ s with pendingPathSync := rest ++ [path], ready := false }, false) ∨
      s.closed peer = false ∧ queued = ({ s with
        pendingPathSync := rest, sync := some (peer, path), installed := false, ready := false },
        true) := by
  intro queued
  simp only [queued, queueNextNodeSync]
  split
  · exact .inl rfl
  rename_i hbusy
  simp only [Bool.or_eq_true, not_or, Option.not_isSome_iff_eq_none] at hbusy
  split
  · exact .inl rfl
  rename_i path hpath
  refine .inr ⟨hbusy.1.2, Bool.not_eq_true _ ▸ hbusy.2, path, mem_of_find?_eq_some hpath, ?_⟩
  split_ifs with hopens
  · simp only [Bool.and_eq_true, Bool.not_eq_true'] at hopens
    exact .inr ⟨hopens.2, rfl⟩
  · exact .inl rfl

theorem inv_queueNextNodeSync (peer skip allowed opens) :
    (s.queueNextNodeSync peer skip allowed opens).1.Inv := by
  obtain hsame | ⟨hsync, hdraining, path, hpath, hqueued⟩ :=
    queueNextNodeSync_cases (s := s) peer skip allowed opens
  · exact hsame ▸ h
  have hset : s.pendingPathSyncSet.val = ↑(s.pendingPathSync.erase path ++ [path]) := by
    rw [h.set, outstanding, hsync, Option.toList_none, map_nil, append_nil]
    exact Multiset.coe_eq_coe.mpr ((perm_cons_erase hpath).trans (perm_append_singleton _ _).symm)
  obtain hqueued | ⟨hopen, hqueued⟩ := hqueued <;> rw [hqueued]
  · refine { h with set := ?_, ready := by simp }
    simp [hset, outstanding, hsync]
  · exact { h with
      set := hset
      ready := nofun
      draining := fun hd => absurd (hdraining.symm.trans hd) (by decide)
      closed := fun p q hp => by cases hp; exact hopen }

omit h in
theorem queueNextNodeSync_frame (peer skip allowed opens) :
    let t := (s.queueNextNodeSync peer skip allowed opens).1
    t.pending = s.pending ∧ t.pendingOverflow = s.pendingOverflow ∧
      t.pendingPathSyncSet = s.pendingPathSyncSet ∧ t.closed = s.closed := by
  obtain hq | ⟨-, -, path, -, hq | ⟨-, hq⟩⟩ :=
    queueNextNodeSync_cases (s := s) peer skip allowed opens <;> rw [hq] <;> exact ⟨rfl, rfl, rfl, rfl⟩

end

include h

theorem inv_withTodo (peer todo) : (s.withTodo peer todo).Inv := { h with }

omit h in
theorem finishSync_cases (peer success) :
    (∀ path, s.sync ≠ some (peer, path)) ∧ s.finishSync peer success = s ∨
    ∃ path, s.sync = some (peer, path) ∧ s.finishSync peer success = if success then
        { s with pendingPathSyncSet := s.pendingPathSyncSet.erase path, sync := none }
      else { s with pendingPathSync := s.pendingPathSync ++ [path], sync := none } := by
  rw [finishSync]
  split
  · rename_i hsync
    exact .inl ⟨by simp [hsync], rfl⟩
  · rename_i owner path hsync
    by_cases howner : owner = peer
    · exact .inr ⟨path, howner ▸ hsync, if_neg (not_not.mpr howner)⟩
    · refine .inl ⟨fun q hq => ?_, if_pos howner⟩
      cases hsync.symm.trans hq
      exact howner rfl

theorem inv_finishSync (peer success) : (s.finishSync peer success).Inv := by
  obtain ⟨-, hsame⟩ | ⟨path, hsync, hdone⟩ := finishSync_cases (s := s) peer success
  · rw [hsame]
    exact h
  have hset := h.set
  rw [outstanding, hsync, Option.toList_some, map_singleton] at hset
  have hready : ¬ s.ready = true := fun hr => by simpa [outstanding, hsync] using (h.ready hr).1
  rw [hdone]
  split_ifs
  all_goals refine { h with
    ready := fun hr => absurd hr hready, draining := fun _ => rfl, closed := nofun, set := ?_ }
  · have herase : (s.pendingPathSyncSet.erase path).val = ↑s.pendingPathSync := by
      rw [Finset.erase_val, hset, Multiset.coe_eq_coe.mpr (perm_append_singleton _ _)]
      simp
    simpa [outstanding] using herase
  · simp [hset, outstanding]

theorem inv_close (peer) : (s.close peer).Inv := by
  have hended := inv_finishSync h peer false
  rw [close]
  obtain ⟨hother, hsame⟩ | ⟨path, -, hdone⟩ := finishSync_cases (s := s) peer false
  · rw [hsame]
    refine { h with closed := fun p q hp => ?_ }
    have hne : p ≠ peer := fun heq => hother q (heq ▸ hp)
    exact (Function.update_of_ne hne _ _).trans (h.closed p q hp)
  · rw [hdone] at hended ⊢
    exact { hended with closed := nofun }

theorem inv_step (event) : (s.step size event).Inv := by
  cases event with
  | notify message => exact inv_bufferPendingNotify h message
  | enqueue path => exact inv_enqueue h path
  | queueSync => exact inv_queueSync h
  | start peer skip allowed opens => exact inv_queueNextNodeSync h peer skip allowed opens
  | install peer =>
    rw [step]
    split_ifs
    · exact { h with }
    · exact h
  | finish peer success =>
    rw [step]
    split
    · exact inv_withTodo (inv_finishSync h peer success) _ _
    · exact h
  | close peer => exact inv_close h peer
  | next peer allowed opens =>
    simp only [step]
    split
    · exact inv_withTodo (inv_queueNextNodeSync h peer none allowed opens) _ _
    · exact h
  | markReady peer =>
    rw [step]
    split_ifs
    · exact inv_withTodo (inv_markReady h) _ _
    · exact h
  | drain => exact inv_drain h
  | replayed => exact inv_replayed h
  | setReady ready => exact inv_setReady h ready

omit [DecidableEq Peer] in
/-- A drain answers an overflow with a discovery, and otherwise it leaves what waits and the set. -/
theorem drain_cases : s.drain.closed = s.closed ∧
    (s.pendingOverflow = true ∧ s.drain.pending = [] ∧ s.drain.pendingOverflow = false ∧
      s.drain.pendingPathSyncSet = insert [] s.pendingPathSyncSet ∨
    s.drain.pending = s.pending ∧ s.drain.pendingOverflow = s.pendingOverflow ∧
      s.drain.pendingPathSyncSet = s.pendingPathSyncSet) := by
  rw [drain]
  split_ifs with hoff hbusy hover
  · exact ⟨rfl, .inr ⟨rfl, rfl, rfl⟩⟩
  · exact ⟨rfl, .inr ⟨rfl, rfl, rfl⟩⟩
  · simp only [Bool.or_eq_true, not_or, decide_eq_true_eq, not_not] at hbusy
    have hqueue := (append_eq_nil_iff.mp (h.idle hbusy.2)).1
    simp [enqueuePathSyncLocked, hbusy.2, hqueue, hover, maxPendingChanges]
  · split <;> exact ⟨rfl, .inr ⟨rfl, rfl, rfl⟩⟩

/-- What a connected peer, its handler and the node do by themselves when no transfer fails. -/
def isWork : NodeEvent Peer M → Bool
  | .notify _ | .enqueue _ | .finish _ false | .close _ | .setReady _ => false
  | _ => true

def touchesPending : NodeEvent Peer M → Bool
  | .notify _ | .drain | .replayed => true
  | _ => false

theorem step_frame (event : NodeEvent Peer M) : s.Keeps size event ∧
    (isWork event = true → (s.step size event).closed = s.closed) ∧
    (touchesPending event = false → (s.step size event).pending = s.pending) := by
  rw [Keeps]
  cases event with
  | notify message =>
    simp only [step, bufferPendingNotify]
    split_ifs <;> simp_all [isWork, touchesPending]
  | start peer skip allowed opens =>
    obtain ⟨hpending, hover, hset, hclosed⟩ := queueNextNodeSync_frame (s := s) peer skip allowed opens
    simp [step, hpending, hover, hset, hclosed]
  | finish peer success =>
    simp only [step]
    split
    · rename_i hfinish
      obtain ⟨-, hsame⟩ | ⟨path, hsync, hdone⟩ := finishSync_cases (s := s) peer success
      · simp_all [withTodo, touchesPending]
      · rw [hdone]
        cases success with
        | false => simp_all [withTodo, isWork, touchesPending]
        | true =>
          refine ⟨⟨fun q hq => ?_, .inl, nofun⟩, fun _ => rfl, fun _ => rfl⟩
          by_cases hpath : q = path
          · exact .inr ⟨peer, rfl, hpath ▸ hsync, hfinish.2⟩
          · exact .inl (Finset.mem_erase.mpr ⟨hpath, hq⟩)
    · exact ⟨⟨fun _ => .inl, .inl, nofun⟩, fun _ => rfl, fun _ => rfl⟩
  | close peer =>
    obtain ⟨-, hsame⟩ | ⟨path, -, hdone⟩ := finishSync_cases (s := s) peer false <;>
      simp_all [step, close, withTodo, isWork, touchesPending]
  | next peer allowed opens =>
    obtain ⟨hpending, hover, hset, hclosed⟩ := queueNextNodeSync_frame (s := s) peer none allowed opens
    simp only [step]
    split <;> simp [withTodo, hpending, hover, hset, hclosed]
  | drain =>
    obtain ⟨hclosed, hcleared | hsame⟩ := drain_cases h <;> simp_all [step, isWork, touchesPending]
  | _ =>
    simp only [step, enqueuePathSyncLocked, queueSync, markReady, replayed, setReady, withTodo]
    repeat' split
    all_goals simp_all [isWork, touchesPending]

omit h [DecidableEq Peer] in
theorem Logged.of_frame {log : NodeLog M} (hlog : s.Logged log) {t : NodeState Peer M}
    (ht : t.pending = s.pending ∧ (s.pendingOverflow = true → t.pendingOverflow = true)) :
    t.Logged log := by
  refine ⟨ht.1.symm ▸ hlog.order, fun hover => ht.1.symm ▸ hlog.all ?_⟩
  cases hs : s.pendingOverflow with
  | false => rfl
  | true => cases hover.symm.trans (ht.2 hs)

theorem step_logged {log : NodeLog M} (hlog : s.Logged log) (event) :
    (s.step size event).Logged (s.record log event) := by
  cases event with
  | notify message =>
    simp only [step, record, bufferPendingNotify]
    split_ifs
    · exact hlog
    · exact ⟨hlog.order.trans (sublist_append_left _ _), nofun⟩
    · refine ⟨?_, fun hover => ?_⟩
      · simpa using hlog.order.append_right [message]
      · simp [← hlog.all hover]
  | drain =>
    rw [step, record]
    obtain ⟨-, ⟨hover, hpending, hcleared, -⟩ | ⟨hpending, hover, -⟩⟩ := drain_cases h
    · rw [if_pos (by simp [hover, hcleared])]
      exact ⟨by simp [hpending], fun _ => by simp [hpending]⟩
    · rw [if_neg (by simp [hover])]
      exact hlog.of_frame ⟨hpending, hover.trans⟩
  | replayed =>
    simp only [step, record, replayed]
    split
    · rename_i hhand
      simpa [hhand] using hlog
    rename_i message hhand
    have hpending := cons_head?_tail (h.hand message hhand).2
    refine ⟨?_, fun hover => ?_⟩
    · simpa [hhand, hpending] using hlog.order
    · simpa [hhand, hpending] using hlog.all hover
  | _ =>
    obtain ⟨⟨-, hover, -⟩, -, hpending⟩ := @step_frame _ _ size s _ h _
    exact hlog.of_frame ⟨hpending rfl, fun hs => (hover hs).resolve_right (by simp)⟩

omit h

variable (size) in
theorem run_spec (events : List (NodeEvent Peer M)) :
    (run size events).1.Inv ∧ (run size events).1.Logged (run size events).2 := by
  refine List.foldlRecOn events _ (motive := fun x : NodeState Peer M × NodeLog M =>
    x.1.Inv ∧ x.1.Logged x.2) ⟨?_, by simp, by simp⟩ fun x hx event _ =>
      ⟨inv_step hx.1 event, step_logged hx.1 hx.2 event⟩
  constructor <;> simp [outstanding]

variable (size) in
abbrev Works : NodeState Peer M → NodeState Peer M → Prop :=
  Relation.ReflTransGen fun s t => ∃ event, isWork event = true ∧ s.step size event = t

/-- No transfer runs and nothing is replayed. -/
structure Resting (s : NodeState Peer M) (peer : Peer) (overflow : Bool) : Prop where
  inv : s.Inv
  sync : s.sync = none
  draining : s.draining = false
  closed : s.closed peer = false
  overflow : s.pendingOverflow = overflow

/-- Everything is transferred and the notifications are being replayed. -/
structure Draining (s : NodeState Peer M) (overflow : Bool) : Prop where
  hand : s.hand = none
  sync : s.sync = none
  set : s.pendingPathSyncSet = ∅
  overflow : s.pendingOverflow = overflow
  draining : s.draining = true

variable {t : NodeState Peer M} {peer : Peer} {overflow : Bool}

theorem Works.step (hs : Works size s t) (event) (hwork : isWork event = true) :
    Works size s (t.step size event) :=
  hs.tail ⟨event, hwork, rfl⟩

theorem Works.kept (hs : Works size s t) (h : s.Inv) : t.Inv ∧ t.closed = s.closed := by
  induction hs with
  | refl => exact ⟨h, rfl⟩
  | tail _ hstep ih =>
    obtain ⟨event, hwork, rfl⟩ := hstep
    exact ⟨inv_step ih.1 event, ((step_frame ih.1 event).2.1 hwork).trans ih.2⟩

variable (size) in
theorem works_transferred (h : s.Inv) {path} (hsync : s.sync = some (peer, path))
    (htodo : s.todo peer = .nothing) : ∃ t, Works size s t ∧ t.Resting peer s.pendingOverflow ∧
      t.todo peer = .queueNext ∧ t.pendingPathSync = s.pendingPathSync := by
  have hdraining : s.draining = false := by
    cases hd : s.draining with
    | false => rfl
    | true => cases (h.draining hd).symm.trans hsync
  have hworks : Works size s _ := (Works.step .refl (.install peer) rfl).step (.finish peer true) rfl
  obtain ⟨hinv, hclosed⟩ := hworks.kept h
  refine ⟨_, hworks, ⟨hinv, ?_, ?_, hclosed ▸ h.closed peer path hsync, ?_⟩, ?_, ?_⟩ <;>
    simp [NodeState.step, ownsSync, htodo, finishSync, withTodo, hsync, hdraining]

variable (size) in
/-- The peer transfers the first directory of the queue, whichever call starts it. -/
theorem Resting.works_transferred (h : s.Resting peer overflow) {path rest}
    (hqueue : s.pendingPathSync = path :: rest)
    (htodo : s.todo peer = .nothing ∨ s.todo peer = .queueNext) :
    ∃ t, Works size s t ∧ t.Resting peer overflow ∧ t.todo peer = .queueNext ∧
      t.pendingPathSync = rest := by
  have hqueued : s.queueNextNodeSync peer none true true = ({ s with
      pendingPathSync := rest, sync := some (peer, path), installed := false, ready := false }, true) := by
    simp [queueNextNodeSync, h.sync, h.draining, h.closed, hqueue]
  obtain ⟨t, ht, hsync, hfree, hrest, hover⟩ : ∃ t, Works size s t ∧ t.sync = some (peer, path) ∧
      t.todo peer = .nothing ∧ t.pendingPathSync = rest ∧ t.pendingOverflow = overflow := by
    obtain htodo | htodo := htodo
    · refine ⟨_, Works.step .refl (.start peer none true true) rfl, ?_⟩
      simp [NodeState.step, hqueued, htodo, h.overflow]
    · refine ⟨_, Works.step .refl (.next peer true true) rfl, ?_⟩
      simp [NodeState.step, hqueued, withTodo, htodo, h.overflow]
  obtain ⟨u, hu, hresting, hnext, hqueue⟩ := NodeState.works_transferred size (ht.kept h.inv).1 hsync hfree
  exact ⟨u, ht.trans hu, hover ▸ hresting, hnext, hqueue.trans hrest⟩

omit [DecidableEq Peer] in
/-- After `QueueSync` there is something to transfer. -/
theorem Inv.queueSync_frame (h : s.Inv) (hsync : s.sync = none) :
    s.queueSync.pendingPathSync ≠ [] ∧ s.queueSync.pendingPathSyncSet ≠ ∅ ∧
    s.queueSync.sync = none ∧ s.queueSync.draining = s.draining ∧ s.queueSync.todo = s.todo ∧
    s.queueSync.closed = s.closed ∧ s.queueSync.pendingOverflow = s.pendingOverflow := by
  rw [queueSync]
  split_ifs with hidle
  · simp only [Bool.and_eq_true, decide_eq_true_eq] at hidle
    have hqueue := (append_eq_nil_iff.mp (h.idle hidle.2)).1
    simp [enqueuePathSyncLocked, hidle.2, hqueue, maxPendingChanges, hsync]
  · simp only [hsync, Option.isNone_none, Bool.true_and, decide_eq_true_eq] at hidle
    refine ⟨fun hqueue => hidle ?_, hidle, hsync, rfl, rfl, rfl, rfl⟩
    have hset := h.set
    rwa [outstanding, hqueue, hsync, Option.toList_none, map_nil, append_nil, Multiset.coe_nil,
      Finset.val_eq_zero] at hset

variable (size) in
theorem works_resting (h : s.Inv) (hclosed : s.closed peer = false) :
    ∃ t overflow, Works size s t ∧ t.Resting peer overflow := by
  cases hdraining : s.draining with
  | true =>
    -- a replay stops for the directories that are waiting
    obtain ⟨-, hset, hsync, hsame, -⟩ := h.queueSync_frame (h.draining hdraining)
    have hworks : Works size s _ := ((Works.step .refl .queueSync rfl).step .replayed rfl).step .drain rfl
    obtain ⟨hinv, hkept⟩ := hworks.kept h
    refine ⟨_, _, hworks, hinv, ?_, ?_, hkept ▸ hclosed, rfl⟩
    all_goals
      simp only [NodeState.step, replayed]
      split <;> simp_all [drain]
  | false =>
    cases hsync : s.sync with
    | none => exact ⟨s, _, .refl, h, hsync, hdraining, hclosed, rfl⟩
    | some current =>
      obtain ⟨owner, path⟩ := current
      -- the handler of the owner comes to its end without effect before it takes the next answer
      obtain ⟨t, ht, hsync, hfree⟩ : ∃ t, Works size s t ∧ t.sync = some (owner, path) ∧
          t.todo owner = .nothing := by
        cases htodo : s.todo owner with
        | nothing => exact ⟨s, .refl, hsync, htodo⟩
        | queueNext =>
          refine ⟨_, (Works.step .refl (.next owner true true) rfl).step (.markReady owner) rfl, ?_⟩
          simp [NodeState.step, htodo, queueNextNodeSync, hsync, markReady, withTodo]
        | markReady =>
          refine ⟨_, Works.step .refl (.markReady owner) rfl, ?_⟩
          simp [NodeState.step, htodo, hsync, markReady, withTodo]
      obtain ⟨u, hu, hresting, -⟩ := works_transferred size (ht.kept h).1 hsync hfree
      have hworks : Works size s u := ht.trans hu
      exact ⟨u, _, hworks, { hresting with closed := (hworks.kept h).2 ▸ hclosed }⟩

variable (size) in
theorem Resting.works_queueNext (h : s.Resting peer overflow) :
    ∃ t, Works size s t ∧ t.Resting peer overflow ∧ t.todo peer = .queueNext := by
  obtain ⟨hqueue, hset, hsync, hdraining, htodo, hclosed, hover⟩ := h.inv.queueSync_frame h.sync
  have hwaits : Works size s s.queueSync := Works.step .refl .queueSync rfl
  have hresting : s.queueSync.Resting peer overflow :=
    ⟨(hwaits.kept h.inv).1, hsync, hdraining.trans h.draining, hclosed ▸ h.closed, hover.trans h.overflow⟩
  obtain ⟨path, rest, hqueue⟩ := exists_cons_of_ne_nil hqueue
  obtain ⟨t, ht, hresting, hqueue, htodo⟩ : ∃ t, Works size s t ∧ t.Resting peer overflow ∧
      t.pendingPathSync = path :: rest ∧ (t.todo peer = .nothing ∨ t.todo peer = .queueNext) := by
    cases hpeer : s.todo peer with
    | nothing => exact ⟨_, hwaits, hresting, hqueue, .inl (htodo ▸ hpeer)⟩
    | queueNext => exact ⟨_, hwaits, hresting, hqueue, .inr (htodo ▸ hpeer)⟩
    | markReady =>
      -- the handler that comes to `markReadyAndDrain` finds something to transfer and returns
      have hcall : s.queueSync.step size (.markReady peer) = s.queueSync.withTodo peer .nothing := by
        simp [NodeState.step, htodo, hpeer, markReady, hset]
      have hworks : Works size s (s.queueSync.withTodo peer .nothing) :=
        hcall ▸ hwaits.step (.markReady peer) rfl
      exact ⟨_, hworks, { hresting with inv := (hworks.kept h.inv).1 }, hqueue, .inl (by simp [withTodo])⟩
  obtain ⟨u, hu, hresting, hnext, -⟩ := hresting.works_transferred size hqueue htodo
  exact ⟨u, ht.trans hu, hresting, hnext⟩

variable (size) in
theorem Resting.works_draining (h : s.Resting peer overflow) (htodo : s.todo peer = .queueNext) :
    ∃ t, Works size s t ∧ t.Draining overflow := by
  -- the induction is on the queue, whose first directory the peer transfers
  generalize hqueue : s.pendingPathSync = queue
  induction queue generalizing s with
  | nil =>
    have hset := h.inv.set
    rw [outstanding, hqueue, h.sync, Option.toList_none, map_nil, append_nil, Multiset.coe_nil,
      Finset.val_eq_zero] at hset
    have hhand : s.hand = none := Option.eq_none_iff_forall_ne_some.mpr fun m hm => by
      cases h.draining.symm.trans (h.inv.hand m hm).1
    refine ⟨_, (Works.step .refl (.next peer true true) rfl).step (.markReady peer) rfl, ?_⟩
    constructor <;>
      simp [NodeState.step, htodo, queueNextNodeSync, hqueue, markReady, withTodo, hset, h.sync, h.draining,
        h.overflow, hhand]
  | cons path rest ih =>
    obtain ⟨t, ht, hresting, hnext, hrest⟩ := h.works_transferred size hqueue (.inr htodo)
    obtain ⟨u, hu, hend⟩ := ih hresting hnext hrest
    exact ⟨u, ht.trans hu, hend⟩

variable (size) in
theorem Draining.works_ready (h : s.Draining false) : ∃ t, Works size s t ∧ t.ready = true := by
  obtain ⟨hhand, hsync, hset, hover, hdraining⟩ := h
  generalize hpending : s.pending = pending
  induction pending generalizing s with
  | nil =>
    refine ⟨_, Works.step .refl .drain rfl, ?_⟩
    simp [NodeState.step, drain, hhand, hsync, hset, hover, hdraining, hpending]
  | cons message rest ih =>
    let applied := { s with
      hand := none, pending := rest, pendingBytes := s.pendingBytes - (size message + 16) }
    have hworks : Works size s applied := by
      have hsteps : Works size s _ := (Works.step .refl .drain rfl).step .replayed rfl
      simpa [applied, NodeState.step, drain, replayed, hhand, hsync, hset, hover, hdraining, hpending]
        using hsteps
    obtain ⟨t, ht, hready⟩ := ih (s := applied) rfl hsync hset hover hdraining rfl
    exact ⟨t, hworks.trans ht, hready⟩

/-- From every state that a run leads to, a peer that is connected can make the node ready, by transfers
that succeed and by replays: no interleaving leaves it stuck. -/
theorem can_become_ready (events : List (NodeEvent Peer M))
    (hopen : (run size events).1.closed peer = false) :
    ∃ t, Works size (run size events).1 t ∧ t.ready = true := by
  have hpass : ∀ {s : NodeState Peer M} {overflow}, s.Resting peer overflow →
      ∃ t, Works size s t ∧ t.Draining overflow := fun h => by
    obtain ⟨t, ht, hresting, hnext⟩ := h.works_queueNext size
    obtain ⟨u, hu, hdraining⟩ := hresting.works_draining size hnext
    exact ⟨u, ht.trans hu, hdraining⟩
  obtain ⟨s, overflow, hs, hresting⟩ := works_resting size (run_spec size events).1 hopen
  obtain ⟨t, ht, hdraining⟩ := hpass hresting
  cases overflow with
  | false =>
    obtain ⟨u, hu, hready⟩ := hdraining.works_ready size
    exact ⟨u, (hs.trans ht).trans hu, hready⟩
  | true =>
    -- the overflow is answered by a discovery, which is transferred as the directories are
    have hanswer : Works size _ t.drain := Works.step (hs.trans ht) .drain rfl
    have hqueue := (append_eq_nil_iff.mp ((ht.kept hresting.inv).1.idle hdraining.set)).1
    obtain ⟨hhand, hsync, hset, hover, hdraining⟩ := hdraining
    have hanswered : t.drain.Resting peer false := by
      obtain ⟨hinv, hclosed⟩ := hanswer.kept (run_spec size events).1
      refine ⟨hinv, ?_, ?_, hclosed ▸ hopen, ?_⟩ <;>
        simp [drain, hhand, hsync, hset, hover, hdraining, enqueuePathSyncLocked, hqueue,
          maxPendingChanges]
    obtain ⟨u, hu, hagain⟩ := hpass hanswered
    obtain ⟨v, hv, hready⟩ := hagain.works_ready size
    exact ⟨v, (hanswer.trans hu).trans hv, hready⟩

/-- A notification is waiting and another peer was lost in the middle of its transfer. -/
def lostPeer : List (NodeEvent Bool ℕ) :=
  [.notify 7, .queueSync, .start false none true true, .close false]

theorem can_become_ready_again :
    ∃ t, Works (fun _ => 0) (run (fun _ => 0) lostPeer).1 t ∧ t.ready = true := by
  have hopen : (run (fun _ => 0) lostPeer).1.closed true = false := by decide
  exact can_become_ready lostPeer hopen

end NodeState

end SatoshiNet.Dkvs
