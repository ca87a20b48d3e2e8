import Mathlib.Algebra.Group.Fin.Basic
import Mathlib.Algebra.Order.Ring.Int

/-!
The turns of the mining nodes above the first checkpoint: the move to the next node after each
block, the check of a block of some height, and the prediction of a node's next turn.
-/

namespace SatoshiNet.Mining

structure MiningInfo (Addr : Type) where
  miningAddress : Addr
  joinHeight : ℤ
  /-- The addresses of the father and the grandfather, who may stand in for the node. -/
  fathers : List Addr

/-- The nodes in the order of their Next links, which close to a circle.  An address belongs to one
public key, and a key to one node. -/
structure MiningSequenceMgr (Addr : Type) (n : ℕ) where
  sequence : Fin (n + 1) → MiningInfo Addr
  currHeight : ℤ
  currMiningNode : Fin (n + 1)
  distinct : Function.Injective fun node => (sequence node).miningAddress

/-- The first node along the links that is eligible, if one of so many is. -/
def firstAlong {n : ℕ} (link : Fin (n + 1) → Fin (n + 1)) (eligible : Fin (n + 1) → Bool) :
    ℕ → Fin (n + 1) → Option (Fin (n + 1))
  | 0, _ => none
  | rest + 1, node => if eligible node then some node else firstAlong link eligible rest (link node)

theorem eligible_of_firstAlong {n : ℕ} {link} {p : Fin (n + 1) → Bool} {k : ℕ} {x y}
    (h : firstAlong link p k x = some y) : p y = true := by
  induction k generalizing x with
  | zero => cases h
  | succ k ih =>
    rw [firstAlong] at h
    split_ifs at h with hx
    · exact Option.some.inj h ▸ hx
    · exact ih h

theorem firstAlong_eq_iff {n : ℕ} {link} {p q : Fin (n + 1) → Bool} (hqp : ∀ x, q x = true → p x = true)
    {k : ℕ} {x} : firstAlong link p k x = firstAlong link q k x ↔
      ∀ y, firstAlong link p k x = some y → q y = true := by
  induction k generalizing x with
  | zero => simp [firstAlong]
  | succ k ih =>
    rw [firstAlong, firstAlong]
    by_cases hq : q x = true
    · simp [hq, hqp x hq]
    by_cases hp : p x = true
    · rw [if_pos hp, if_neg hq]
      exact ⟨fun heq => absurd (eligible_of_firstAlong heq.symm) hq, fun h => absurd (h x rfl) hq⟩
    · rw [if_neg hp, if_neg hq]
      exact ih

namespace MiningSequenceMgr

variable {Addr : Type} [DecidableEq Addr] {n : ℕ} (s : MiningSequenceMgr Addr n)

def nextEligibleNode (node : Fin (n + 1)) (height : ℤ) : Option (Fin (n + 1)) :=
  firstAlong (· + 1) (fun next => (s.sequence next).joinHeight < height) (n + 1) (node + 1)

def checkCurrentMiningAddr (addr : Addr) : Bool :=
  let info := s.sequence s.currMiningNode
  addr == info.miningAddress || info.fathers.contains addr

def moveMiningAddr (height : ℤ) (addr : Addr) : Option (MiningSequenceMgr Addr n) := do
  guard (s.checkCurrentMiningAddr addr)
  let next ← s.nextEligibleNode s.currMiningNode height
  return { s with currMiningNode := next, currHeight := s.currHeight + 1 }

/-- One round of the outer loop of `CheckMiningAddr` below POS v2, which keeps a height and a node as
the manager does.  The inner loop never ends where no node is eligible. -/
def checkStep (direction : ℤ) (link : Fin (n + 1) → Fin (n + 1)) :
    Option (MiningSequenceMgr Addr n) :=
  let i := s.currHeight + direction
  (firstAlong link (fun next => !(i ≤ (s.sequence next).joinHeight)) (n + 1)
    (link s.currMiningNode)).map fun next => { s with currMiningNode := next, currHeight := i }

def checkWalk (direction : ℤ) (link : Fin (n + 1) → Fin (n + 1)) :
    ℕ → Option (MiningSequenceMgr Addr n)
  | 0 => some s
  | k + 1 => (checkWalk direction link k).bind (·.checkStep direction link)

/-- Where `CheckMiningAddr` looks for the address of a block: at the node, and then at its fathers. -/
def checkMiningNode (height : ℤ) : Option (MiningSequenceMgr Addr n) :=
  if height < s.currHeight then s.checkWalk (-1) (· - 1) (s.currHeight - height).toNat
  else s.checkWalk 1 (· + 1) (height - s.currHeight).toNat

def seekAddr (addr : Addr) : ℕ → Fin (n + 1) → ℤ → ℤ
  | 0, _, _ => -1
  | rest + 1, node, i =>
    if (s.sequence node).miningAddress ≠ addr ∧ node ≠ s.currMiningNode then
      seekAddr addr rest (node + 1) (i + 1)
    else if (s.sequence node).miningAddress ≠ addr then -1
    else s.currHeight + i

def getMiningHeightWithAddr (addr : Addr) : ℤ :=
  if (s.sequence s.currMiningNode).miningAddress = addr then s.currHeight
  else s.seekAddr addr (n + 1) (s.currMiningNode + 1) 0

/-- So many moves, each at the height it finds and for the node whose turn it is. -/
def advance : ℕ → Option (MiningSequenceMgr Addr n)
  | 0 => some s
  | k + 1 => (advance k).bind fun t =>
      t.moveMiningAddr t.currHeight (t.sequence t.currMiningNode).miningAddress

structure Agrees : Prop where
  predicted : ∀ node, IsLeast {h | ∃ k t, s.advance k = some t ∧ t.currMiningNode = node ∧
    t.currHeight = h} (s.getMiningHeightWithAddr (s.sequence node).miningAddress)
  checked : ∀ k : ℕ, s.checkMiningNode (s.currHeight + k) = s.advance k

omit [DecidableEq Addr] in
theorem checkMiningNode_ahead (k : ℕ) :
    s.checkMiningNode (s.currHeight + k) = s.checkWalk 1 (· + 1) k := by
  have hk : (s.currHeight + k - s.currHeight).toNat = k := by omega
  rw [checkMiningNode, if_neg (by omega), hk]

theorem moveMiningAddr_own (height : ℤ) :
    s.moveMiningAddr height (s.sequence s.currMiningNode).miningAddress =
      (s.nextEligibleNode s.currMiningNode height).map fun next =>
        { s with currMiningNode := next, currHeight := s.currHeight + 1 } := by
  have hown : s.checkCurrentMiningAddr (s.sequence s.currMiningNode).miningAddress = true := by
    simp [checkCurrentMiningAddr]
  simp [moveMiningAddr, hown, Option.map_eq_bind]

variable {s} {t : MiningSequenceMgr Addr n} {k : ℕ}

theorem currHeight_advance (h : s.advance k = some t) : t.currHeight = s.currHeight + k := by
  induction k generalizing t with
  | zero =>
    cases h
    simp
  | succ k ih =>
    obtain ⟨t', ht', h⟩ := Option.bind_eq_some_iff.mp h
    rw [moveMiningAddr_own] at h
    obtain ⟨_, -, rfl⟩ := Option.map_eq_some_iff.mp h
    simp only [ih ht']
    omega

theorem checkStep_eq_iff :
    s.checkStep 1 (· + 1) = s.moveMiningAddr s.currHeight (s.sequence s.currMiningNode).miningAddress ↔
    ∀ next, s.checkStep 1 (· + 1) = some next →
      (s.sequence next.currMiningNode).joinHeight ≠ s.currHeight := by
  let p : Fin (n + 1) → Bool := fun next => !(s.currHeight + 1 ≤ (s.sequence next).joinHeight)
  let q : Fin (n + 1) → Bool := fun next => (s.sequence next).joinHeight < s.currHeight
  have hqp : ∀ node, q node = true → p node = true := fun node hnode => by
    simp only [p, q, Bool.not_eq_true', decide_eq_true_eq, decide_eq_false_iff_not] at hnode ⊢
    omega
  have hinj : Function.Injective fun next => { s with
      currMiningNode := next, currHeight := s.currHeight + 1 } :=
    fun _ _ heq => congrArg currMiningNode heq
  rw [moveMiningAddr_own, checkStep, nextEligibleNode, (Option.map_injective hinj).eq_iff,
    firstAlong_eq_iff hqp]
  simp only [Option.map_eq_some_iff, forall_exists_index, and_imp]
  constructor
  · rintro h _ next hnext rfl
    have hlt := of_decide_eq_true (h next hnext)
    exact hlt.ne
  · intro h next hnext
    have hne := h _ next hnext rfl
    have hle := eligible_of_firstAlong hnext
    simp only [p, q, Bool.not_eq_true', decide_eq_true_eq, decide_eq_false_iff_not] at hle hne ⊢
    omega

/-- The check goes where the moves go exactly if it never comes to a node that joined at the height
that is moved from. -/
theorem checked_iff : (∀ k : ℕ, s.checkMiningNode (s.currHeight + k) = s.advance k) ↔
    ∀ k t next, s.advance k = some t → t.checkStep 1 (· + 1) = some next →
      (t.sequence next.currMiningNode).joinHeight ≠ t.currHeight := by
  simp only [checkMiningNode_ahead]
  constructor
  · intro h k t next hk
    have hstep := h (k + 1)
    rw [checkWalk, h k, advance, hk] at hstep
    exact checkStep_eq_iff.mp hstep next
  · intro h k
    induction k with
    | zero => rfl
    | succ k ih =>
      rw [checkWalk, ih, advance]
      cases hk : s.advance k with
      | none => rfl
      | some t => exact checkStep_eq_iff.mpr fun next => h k t next hk

theorem getMiningHeight_next (hnext : s.currMiningNode ≠ s.currMiningNode + 1) :
    s.getMiningHeightWithAddr (s.sequence (s.currMiningNode + 1)).miningAddress =
      s.currHeight := by
  have hother := s.distinct.ne hnext
  simp [getMiningHeightWithAddr, seekAddr, hother]

/-- The three walks agree only where there is nothing to walk along: for a single node that does not
join at the current height. -/
theorem agrees_iff : s.Agrees ↔
    n = 0 ∧ (s.sequence s.currMiningNode).joinHeight ≠ s.currHeight := by
  constructor
  · intro h
    obtain rfl : n = 0 := by
      by_contra hn
      have hnext : s.currMiningNode ≠ s.currMiningNode + 1 := fun heq =>
        hn (Nat.succ.inj (Fin.one_eq_zero_iff.mp (left_eq_add.mp heq)))
      obtain ⟨⟨k, t, hk, hnode, hheight⟩, -⟩ := h.predicted (s.currMiningNode + 1)
      rw [getMiningHeight_next hnext, currHeight_advance hk] at hheight
      obtain rfl : k = 0 := by omega
      cases hk
      exact hnext hnode
    refine ⟨rfl, fun hjoin => ?_⟩
    refine checked_iff.mp h.checked 0 s { s with currHeight := s.currHeight + 1 } rfl ?_ hjoin
    simp [checkStep, firstAlong, hjoin]
  · rintro ⟨rfl, hjoin⟩
    have honly : ∀ node, node = s.currMiningNode := fun node => Fin.ext (by omega)
    refine ⟨fun node => ?_, checked_iff.mpr fun k t next hk _ => ?_⟩
    · obtain rfl := honly node
      rw [getMiningHeightWithAddr, if_pos rfl]
      refine ⟨⟨0, s, rfl, rfl, rfl⟩, ?_⟩
      rintro _ ⟨k, t, hk, -, rfl⟩
      rw [currHeight_advance hk]
      omega
    · rw [honly next.currMiningNode]
      cases k with
      | zero =>
        cases hk
        exact hjoin
      | succ k =>
        -- the node was eligible in the last move, at a lower height
        obtain ⟨t', -, hmove⟩ := Option.bind_eq_some_iff.mp hk
        rw [moveMiningAddr_own] at hmove
        obtain ⟨node, hnode, rfl⟩ := Option.map_eq_some_iff.mp hmove
        have hbefore := of_decide_eq_true (eligible_of_firstAlong hnode)
        rw [honly node] at hbefore
        simp only
        omega

def pair (joinHeight : ℤ) : MiningSequenceMgr (Fin 2) 1 where
  sequence node := ⟨node, if node = 0 then 0 else joinHeight, []⟩
  currHeight := 10
  currMiningNode := 0
  distinct _ _ h := h

/-- The second node is predicted for the height of the first one's turn; its own is the next.  When
it has just joined, the check already looks for it there, while the move leaves it out. -/
theorem pair_disagrees :
    ((pair 0).getMiningHeightWithAddr 1 = 10 ∧ ((pair 0).advance 1).map
        (fun t => (t.currHeight, t.currMiningNode)) = some (11, 1)) ∧
      ((pair 10).checkMiningNode 11).map (·.currMiningNode) = some 1 ∧
      ((pair 10).advance 1).map (·.currMiningNode) = some 0 := by
  decide

end MiningSequenceMgr

end SatoshiNet.Mining
