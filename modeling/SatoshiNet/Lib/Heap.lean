import Mathlib.Algebra.Order.Group.Nat
import Mathlib.Data.List.GetD

/-!
The binary heap of the standard library, on a list.  The comparison need not be an order: relative
to a rank that it respects, the item on top has the least rank.
-/

namespace SatoshiNet.Lib.Heap

open List

variable {α : Type*} [Inhabited α]

def swap (l : List α) (i j : ℕ) : List α := (l.set i (l.getD j default)).set j (l.getD i default)

section Operations

variable (less : α → α → Bool) (l : List α)

def lessAt (i j : ℕ) : Bool := less (l.getD i default) (l.getD j default)

def up : ℕ → List α → ℕ → List α
  | 0, l, _ => l
  | fuel + 1, l, j =>
    let i := (j - 1) / 2
    if i = j ∨ lessAt less l j i = false then l else up fuel (swap l i j) i

/-- The child of `i` that goes up; the right one only when it is before the left one. -/
def smallerChild (i n : ℕ) : ℕ :=
  if 2 * i + 2 < n ∧ lessAt less l (2 * i + 2) (2 * i + 1) = true then 2 * i + 2 else 2 * i + 1

def down : ℕ → List α → ℕ → ℕ → List α
  | 0, l, _, _ => l
  | fuel + 1, l, i, n =>
    if n ≤ 2 * i + 1 then l
    else
      let j := smallerChild less l i n
      if lessAt less l j i = false then l else down fuel (swap l i j) j n

def initFrom : ℕ → List α → List α
  | 0, l => l
  | k + 1, l => initFrom k (down less l.length l k l.length)

def init : List α := initFrom less (l.length / 2) l

def push (x : α) : List α := up less (l.length + 1) (l ++ [x]) l.length

def pop : Option (α × List α) :=
  if l = [] then none
  else
    let n := l.length - 1
    let l' := down less l.length (swap l 0 n) 0 n
    some (l'.getD n default, l'.take n)

end Operations

/-! ### The operations keep the items -/

@[simp] theorem length_swap (l : List α) (i j : ℕ) : (swap l i j).length = l.length := by
  rw [swap, length_set, length_set]

theorem swap_perm {l : List α} {i j : ℕ} (hi : i < l.length) (hj : j < l.length) :
    (swap l i j).Perm l := by
  rw [swap, getD_eq_getElem _ _ hi, getD_eq_getElem _ _ hj]
  exact set_set_perm hi hj

theorem getD_swap {l : List α} {i j : ℕ} (hi : i < l.length) (hj : j < l.length) (k : ℕ) :
    (swap l i j).getD k default =
      if k = j then l.getD i default else if k = i then l.getD j default else l.getD k default := by
  rw [swap, getD_eq_getElem?_getD, getElem?_set, length_set, getElem?_set]
  simp only [eq_comm (b := k), hi, hj, if_true]
  split_ifs
  · rw [Option.getD_some]
  · rw [Option.getD_some]
  · rw [getD_eq_getElem?_getD]

section Perm

variable {less : α → α → Bool}

theorem smallerChild_bounds (less) (l : List α) {i n : ℕ} (h : 2 * i + 1 < n) :
    i < smallerChild less l i n ∧ smallerChild less l i n < n ∧
      (smallerChild less l i n - 1) / 2 = i := by
  rw [smallerChild]
  split <;> omega

theorem up_perm (fuel : ℕ) : ∀ (l : List α) (j : ℕ), j < l.length → (up less fuel l j).Perm l := by
  induction fuel with
  | zero => exact fun l _ _ => List.Perm.refl l
  | succ fuel ih =>
    intro l j hj
    simp only [up]
    split
    · exact List.Perm.refl l
    · have hi : (j - 1) / 2 < l.length := by omega
      exact (ih _ _ (by rw [length_swap]; exact hi)).trans (swap_perm hi hj)

theorem down_perm (fuel : ℕ) :
    ∀ (l : List α) (i n : ℕ), n ≤ l.length → (down less fuel l i n).Perm l := by
  induction fuel with
  | zero => exact fun l _ _ _ => List.Perm.refl l
  | succ fuel ih =>
    intro l i n hn
    simp only [down]
    split
    · exact List.Perm.refl l
    · rename_i hchild
      obtain ⟨hlt, hjn, -⟩ := smallerChild_bounds less l (Nat.lt_of_not_le hchild)
      split
      · exact List.Perm.refl l
      · exact (ih _ _ _ (by rw [length_swap]; exact hn)).trans (swap_perm (by omega) (by omega))

theorem initFrom_perm (k : ℕ) : ∀ l : List α, (initFrom less k l).Perm l := by
  induction k with
  | zero => exact fun l => List.Perm.refl l
  | succ k ih => exact fun l => (ih _).trans (down_perm _ _ _ _ (Nat.le_refl _))

theorem init_perm (l) : (init less l).Perm l := initFrom_perm _ l

theorem push_perm (l) (x : α) : (push less l x).Perm (x :: l) :=
  (up_perm _ _ _ (by simp)).trans (perm_append_singleton x l)

theorem pop_perm {l rest : List α} {x : α} (h : pop less l = some (x, rest)) :
    (x :: rest).Perm l := by
  simp only [pop] at h
  split_ifs at h with hne
  · have hpos : 0 < l.length := length_pos_iff.mpr hne
    cases h
    have hperm : (down less l.length (swap l 0 (l.length - 1)) 0 (l.length - 1)).Perm l :=
      (down_perm _ _ _ _ (by rw [length_swap]; omega)).trans (swap_perm hpos (by omega))
    generalize down less l.length (swap l 0 (l.length - 1)) 0 (l.length - 1) = l' at hperm ⊢
    have hlen : l'.length = (l.length - 1) + 1 := by rw [hperm.length_eq]; omega
    have hsplit : l' = l'.take (l.length - 1) ++ [l'.getD (l.length - 1) default] := by
      rw [getD_eq_getElem _ _ (by omega), take_append_getElem (by omega),
        take_of_length_le (by omega)]
    have hlast : (l'.getD (l.length - 1) default :: l'.take (l.length - 1)).Perm l' := by
      conv_rhs => rw [hsplit]
      exact (perm_append_singleton _ _).symm
    exact hlast.trans hperm

end Perm

section Rank

variable {less : α → α → Bool} {rank : α → ℕ}

structure Respects (less : α → α → Bool) (rank : α → ℕ) : Prop where
  le : ∀ {a b}, less a b = true → rank a ≤ rank b
  ge : ∀ {a b}, less a b = false → rank b ≤ rank a

def key (rank : α → ℕ) (l : List α) (i : ℕ) : ℕ := rank (l.getD i default)

variable {i j : ℕ} {l : List α}

theorem key_swap (hi : i < l.length) (hj : j < l.length) (k : ℕ) : key rank (swap l i j) k =
      if k = j then key rank l i else if k = i then key rank l j else key rank l k := by
  rw [key, getD_swap hi hj]
  split_ifs <;> rfl

/-- Among the first `n` positions no child of a position from `k` on has a lesser rank. -/
def OrderedFrom (rank : α → ℕ) (k n : ℕ) (l : List α) : Prop :=
  ∀ c, 0 < c → c < n → k ≤ (c - 1) / 2 → key rank l ((c - 1) / 2) ≤ key rank l c

/-- In order except at `j` and its parent; what is below `j` is not before the parent. -/
structure UpOrder (rank : α → ℕ) (l : List α) (j : ℕ) : Prop where
  off : ∀ c, 0 < c → c < l.length → c ≠ j → key rank l ((c - 1) / 2) ≤ key rank l c
  below : 0 < j → ∀ c, 0 < c → c < l.length → (c - 1) / 2 = j →
    key rank l ((j - 1) / 2) ≤ key rank l c

theorem UpOrder.step (h : UpOrder rank l j) (hj : j < l.length) (hpos : 0 < j)
    (hle : key rank l j ≤ key rank l ((j - 1) / 2)) :
    UpOrder rank (swap l ((j - 1) / 2) j) ((j - 1) / 2) := by
  have hi : (j - 1) / 2 < l.length := by omega
  constructor
  · intro c hc hlen hne
    rw [length_swap] at hlen
    rw [key_swap hi hj, key_swap hi hj]
    by_cases hcj : c = j
    · subst hcj
      rw [if_neg (by omega), if_pos rfl, if_pos rfl]
      exact hle
    rw [if_neg hcj, if_neg hne]
    have hoff := h.off c hc hlen hcj
    split_ifs with hpj hpi
    · exact h.below hpos c hc hlen hpj
    · rw [hpi] at hoff
      exact hle.trans hoff
    · exact hoff
  · intro hpos' c hc hlen hparent
    rw [length_swap] at hlen
    have hup := h.off ((j - 1) / 2) hpos' hi (by omega)
    rw [key_swap hi hj, key_swap hi hj, if_neg (by omega), if_neg (by omega)]
    split_ifs with hcj
    · exact hup
    · omega
    · have hoff := h.off c hc hlen hcj
      rw [hparent] at hoff
      exact hup.trans hoff

section

variable (hless : Respects less rank)
include hless

theorem up_ordered (fuel : ℕ) : ∀ (l : List α) (j : ℕ), j < fuel →
    j < l.length → UpOrder rank l j → OrderedFrom rank 0 l.length (up less fuel l j) := by
  induction fuel with
  | zero => intro l j hfuel; omega
  | succ fuel ih =>
    intro l j hfuel hj h
    simp only [up]
    split_ifs with hstop
    · intro c hc hlen _
      by_cases hcj : c = j
      · subst hcj
        rcases hstop with hroot | hge
        · omega
        · exact hless.ge hge
      · exact h.off c hc hlen hcj
    · rw [not_or, Bool.not_eq_false] at hstop
      have hpos : 0 < j := by omega
      have hstep := h.step hj hpos (hless.le hstop.2)
      have hrec := ih _ _ (by omega) (by rw [length_swap]; omega) hstep
      rwa [length_swap] at hrec

/-- In order from `k` on except below `i`; what is below `i` is not before the parent. -/
structure DownOrder (rank : α → ℕ) (l : List α) (k i n : ℕ) : Prop where
  start : k ≤ i
  off : ∀ c, 0 < c → c < n → k ≤ (c - 1) / 2 → (c - 1) / 2 ≠ i →
    key rank l ((c - 1) / 2) ≤ key rank l c
  below : 0 < i → k ≤ (i - 1) / 2 → ∀ c, 0 < c → c < n → (c - 1) / 2 = i →
    key rank l ((i - 1) / 2) ≤ key rank l c

theorem smallerChild_le {n c : ℕ} (hc : 0 < c) (hn : c < n) (hparent : (c - 1) / 2 = i) :
    key rank l (smallerChild less l i n) ≤ key rank l c := by
  have hor : c = 2 * i + 1 ∨ c = 2 * i + 2 := by omega
  rw [smallerChild]
  split_ifs with hright
  · rcases hor with rfl | rfl
    · exact hless.le hright.2
    · exact Nat.le_refl _
  · rcases hor with rfl | rfl
    · exact Nat.le_refl _
    · rw [not_and, Bool.not_eq_true] at hright
      exact hless.ge (hright hn)

omit hless in
theorem DownOrder.step {k n : ℕ} (h : DownOrder rank l k i n) (hn : n ≤ l.length) (hij : i < j)
    (hj : j < n) (hparent : (j - 1) / 2 = i)
    (hmin : ∀ c, 0 < c → c < n → (c - 1) / 2 = i → key rank l j ≤ key rank l c)
    (hle : key rank l j ≤ key rank l i) : DownOrder rank (swap l i j) k j n := by
  have hi' : i < l.length := by omega
  have hj' : j < l.length := by omega
  refine ⟨by have := h.start; omega, ?_, ?_⟩
  · intro c hc hlen hk hne
    rw [key_swap hi' hj', key_swap hi' hj', if_neg hne]
    split_ifs with hpi hcj hci hcj hci
    · exact hle
    · omega
    · exact hmin c hc hlen hpi
    · exact absurd (hcj ▸ hparent) hpi
    · subst hci
      exact h.below hc hk j (by omega) hj hparent
    · exact h.off c hc hlen hk hpi
  · intro _ hk c hc hlen hpc
    rw [key_swap hi' hj', key_swap hi' hj', if_neg (by omega), if_pos hparent, if_neg (by omega),
      if_neg (by omega)]
    have hoff := h.off c hc hlen (by have := h.start; omega) (by omega)
    rwa [hpc] at hoff

theorem down_ordered (fuel : ℕ) : ∀ (l : List α) (k i n : ℕ),
    n ≤ i + fuel → n ≤ l.length → DownOrder rank l k i n →
    OrderedFrom rank k n (down less fuel l i n) := by
  induction fuel with
  | zero =>
    intro l k i n hfuel hn h c hc hlen hk
    exact h.off c hc hlen hk (by omega)
  | succ fuel ih =>
    intro l k i n hfuel hn h
    simp only [down]
    split
    · intro c hc hlen hk
      exact h.off c hc hlen hk (by omega)
    rename_i hchild
    obtain ⟨hlt, hjn, hparent⟩ := smallerChild_bounds less l (Nat.lt_of_not_le hchild)
    have hmin : ∀ c, 0 < c → c < n → (c - 1) / 2 = i →
        key rank l (smallerChild less l i n) ≤ key rank l c :=
      fun c hc hlen hp => smallerChild_le hless hc hlen hp
    split_ifs with hge
    · intro c hc hlen hk
      by_cases hp : (c - 1) / 2 = i
      · rw [hp]
        exact (hless.ge hge).trans (hmin c hc hlen hp)
      · exact h.off c hc hlen hk hp
    · rw [Bool.not_eq_false] at hge
      exact ih _ _ _ _ (by omega) (by rw [length_swap]; exact hn)
        (h.step hn hlt hjn hparent hmin (hless.le hge))

def Ordered (rank : α → ℕ) (l : List α) : Prop := OrderedFrom rank 0 l.length l

omit hless in
theorem ordered_nil : Ordered rank ([] : List α) := fun _ _ h => absurd h (Nat.not_lt_zero _)

theorem initFrom_ordered (k : ℕ) : ∀ l : List α,
    OrderedFrom rank k l.length l → Ordered rank (initFrom less k l) := by
  induction k with
  | zero => exact fun l h => h
  | succ k ih =>
    intro l h
    have hlen : (down less l.length l k l.length).length = l.length :=
      (down_perm _ _ _ _ (Nat.le_refl _)).length_eq
    refine ih _ ?_
    rw [hlen]
    refine down_ordered hless _ _ _ _ _ (by omega) (Nat.le_refl _) ⟨Nat.le_refl k, ?_, ?_⟩
    · exact fun c hc hn hk hne => h c hc hn (by omega)
    · intro hpos hk
      omega

theorem init_ordered (l) : Ordered rank (init less l) :=
  initFrom_ordered hless _ l fun c hc hn hk => by omega

theorem push_ordered (h : Ordered rank l) (x : α) : Ordered rank (push less l x) := by
  have hlen : (push less l x).length = (l ++ [x]).length := by
    rw [(push_perm l x).length_eq, length_append, length_cons, length_singleton]
  rw [Ordered, hlen]
  have hkey : ∀ i, i < l.length → key rank (l ++ [x]) i = key rank l i := fun i hi => by
    rw [key, key, getD_append _ _ _ _ hi]
  refine up_ordered hless _ _ _ (Nat.lt_succ_self _) (by simp) ⟨?_, ?_⟩
  · intro c hc hn hne
    rw [length_append, length_singleton] at hn
    rw [hkey _ (by omega), hkey _ (by omega)]
    exact h c hc (by omega) (Nat.zero_le _)
  · intro _ c hc hn hp
    rw [length_append, length_singleton] at hn
    omega

end

theorem Ordered.key_zero_le (h : Ordered rank l) (i : ℕ) (hi : i < l.length) :
    key rank l 0 ≤ key rank l i := by
  induction i using Nat.strong_induction_on with
  | _ i ih =>
    rcases Nat.eq_zero_or_pos i with rfl | hpos
    · exact Nat.le_refl _
    · exact (ih ((i - 1) / 2) (by omega) (by omega)).trans (h i hpos hi (Nat.zero_le _))

theorem Ordered.key_zero_le_mem (h : Ordered rank l) {x : α} (hx : x ∈ l) :
    key rank l 0 ≤ rank x := by
  obtain ⟨i, hi, rfl⟩ := mem_iff_getElem.mp hx
  have hle := h.key_zero_le i hi
  rwa [key, key, getD_eq_getElem _ _ hi] at hle

theorem getD_down_of_le (fuel : ℕ) : ∀ (l : List α) (i n m : ℕ), n ≤ l.length → n ≤ m →
    (down less fuel l i n).getD m default = l.getD m default := by
  induction fuel with
  | zero => exact fun _ _ _ _ _ _ => rfl
  | succ fuel ih =>
    intro l i n m hn hm
    simp only [down]
    split
    · rfl
    rename_i hchild
    obtain ⟨hlt, hjn, -⟩ := smallerChild_bounds less l (Nat.lt_of_not_le hchild)
    split
    · rfl
    · rw [ih _ _ _ _ (by rw [length_swap]; exact hn) hm,
        getD_swap (by omega) (by omega), if_neg (by omega), if_neg (by omega)]

theorem pop_ordered (hless : Respects less rank) {rest : List α} {x : α} (h : Ordered rank l)
    (hpop : pop less l = some (x, rest)) : Ordered rank rest ∧ ∀ y ∈ rest, rank x ≤ rank y := by
  have hperm := pop_perm hpop
  have htop : rank x = key rank l 0 ∧ Ordered rank rest := by
    simp only [pop] at hpop
    split_ifs at hpop with hne
    · have hpos : 0 < l.length := length_pos_iff.mpr hne
      cases hpop
      have hn : l.length - 1 < l.length := by omega
      have hswap : DownOrder rank (swap l 0 (l.length - 1)) 0 0 (l.length - 1) := by
        refine ⟨Nat.le_refl 0, ?_, fun h0 => absurd h0 (Nat.lt_irrefl 0)⟩
        intro c hc hcn _ hp
        rw [key_swap hpos hn, key_swap hpos hn, if_neg (by omega), if_neg hp, if_neg (by omega),
          if_neg (by omega)]
        exact h c hc (by omega) (Nat.zero_le _)
      have hdown := down_ordered hless l.length _ _ _ _ (by omega) (by rw [length_swap]; omega) hswap
      have hlen : (down less l.length (swap l 0 (l.length - 1)) 0 (l.length - 1)).length = l.length := by
        rw [(down_perm _ _ _ _ (by rw [length_swap]; omega)).length_eq, length_swap]
      refine ⟨?_, ?_⟩
      · rw [getD_down_of_le _ _ _ _ _ (by rw [length_swap]; omega) (Nat.le_refl _),
          getD_swap hpos hn, if_pos rfl]
        rfl
      · intro c hc hcn _
        rw [length_take, hlen] at hcn
        have hkey : ∀ i, i < l.length - 1 → key rank ((down less l.length (swap l 0 (l.length - 1)) 0
            (l.length - 1)).take (l.length - 1)) i =
            key rank (down less l.length (swap l 0 (l.length - 1)) 0 (l.length - 1)) i :=
          fun i hi => by
            rw [key, key, getD_eq_getElem?_getD, getElem?_take_of_lt hi, getD_eq_getElem?_getD]
        rw [hkey _ (by omega), hkey _ (by omega)]
        exact hdown c hc (by omega) (Nat.zero_le _)
  refine ⟨htop.2, fun y hy => ?_⟩
  rw [htop.1]
  exact h.key_zero_le_mem (hperm.mem_iff.mp (mem_cons_of_mem _ hy))

end Rank

end SatoshiNet.Lib.Heap
