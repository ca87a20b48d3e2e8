import Mathlib.Algebra.Order.BigOperators.Group.List
import Mathlib.Tactic.Linarith
import Mathlib.Tactic.Ring
import SatoshiNet.Lib.Fold

/-!
Dividing a pool of units in proportion to weights: every share is rounded down, and the units that
are left go one by one to the first entries.
-/

namespace SatoshiNet.Lib

open List

def bump : ℤ → List ℤ → List ℤ
  | _, [] => []
  | r, x :: l => if 0 < r then (x + 1) :: bump (r - 1) l else x :: l

def shares (pool : ℤ) (weights : List ℤ) : List ℤ :=
  weights.map fun w => pool * w / weights.sum

def apportion (pool : ℤ) (weights : List ℤ) : List ℤ :=
  bump (pool - (shares pool weights).sum) (shares pool weights)

theorem forall₂_bump (r : ℤ) (l) : List.Forall₂ (fun x y => y = x ∨ y = x + 1) l (bump r l) := by
  induction l generalizing r with
  | nil => exact .nil
  | cons x l ih =>
    rw [bump]
    split
    · exact .cons (Or.inr rfl) (ih (r - 1))
    · exact forall₂_same.mpr fun y _ => Or.inl rfl

theorem sum_bump {r : ℤ} {l} (hr : 0 ≤ r) (hlen : r ≤ l.length) : (bump r l).sum = l.sum + r := by
  induction l generalizing r with
  | nil =>
    have hzero : r = 0 := le_antisymm hlen hr
    simp [bump, hzero]
  | cons x l ih =>
    rw [bump]
    split
    · have hlen' : r - 1 ≤ l.length := by
        simp only [length_cons, Nat.cast_add, Nat.cast_one] at hlen
        omega
      rw [sum_cons, sum_cons, ih (by omega) hlen']
      ring
    · have hzero : r = 0 := by omega
      rw [hzero, add_zero]

theorem sum_quotients (pool d : ℤ) (weights : List ℤ) :
    d * (weights.map fun w => pool * w / d).sum + (weights.map fun w => pool * w % d).sum =
      pool * weights.sum := by
  induction weights with
  | nil => simp
  | cons w weights ih =>
    simp only [map_cons, sum_cons, mul_add]
    have hdiv := Int.mul_ediv_add_emod (pool * w) d
    linarith

theorem sum_remainders (pool : ℤ) {d : ℤ} (hd : 0 < d) (weights : List ℤ) :
    0 ≤ (weights.map fun w => pool * w % d).sum ∧
      (weights.map fun w => pool * w % d).sum ≤ (d - 1) * weights.length := by
  induction weights with
  | nil => simp
  | cons w weights ih =>
    have hnonneg := Int.emod_nonneg (pool * w) hd.ne'
    have hlt := Int.emod_lt_of_pos (pool * w) hd
    simp only [map_cons, sum_cons, length_cons, Nat.cast_add, Nat.cast_one, mul_add, mul_one]
    constructor <;> linarith [ih.1, ih.2]

variable {weights : List ℤ}

theorem left_over (pool : ℤ) (hpos : 0 < weights.sum) : 0 ≤ pool - (shares pool weights).sum ∧
      pool - (shares pool weights).sum ≤ (shares pool weights).length := by
  obtain ⟨hnonneg, hle⟩ := sum_remainders pool hpos weights
  have hscaled := sum_quotients pool weights.sum weights
  have hlen : (shares pool weights).length = weights.length := length_map _
  rw [hlen, shares]
  have hleft : weights.sum * (pool - (weights.map fun w => pool * w / weights.sum).sum) =
      (weights.map fun w => pool * w % weights.sum).sum := by
    rw [mul_sub]
    linarith
  constructor
  · apply nonneg_of_mul_nonneg_right _ hpos
    rw [hleft]
    exact hnonneg
  · apply le_of_mul_le_mul_left _ hpos
    rw [hleft]
    have hlength : (0 : ℤ) ≤ weights.length := Int.natCast_nonneg _
    linarith

theorem sum_apportion (pool : ℤ) (hpos : 0 < weights.sum) :
    (apportion pool weights).sum = pool := by
  obtain ⟨hnonneg, hle⟩ := left_over pool hpos
  rw [apportion, sum_bump hnonneg hle]
  ring

theorem forall₂_apportion (pool : ℤ) (weights) :
    List.Forall₂ (fun w y => y = pool * w / weights.sum ∨ y = pool * w / weights.sum + 1) weights
      (apportion pool weights) :=
  forall₂_map_left_iff.mp (forall₂_bump _ (shares pool weights))

theorem apportion_nonneg {pool : ℤ} (hpool : 0 ≤ pool) (hweights : ∀ w ∈ weights, 0 ≤ w) :
    ∀ n ∈ apportion pool weights, 0 ≤ n := by
  intro n hn
  obtain ⟨w, hw, hshare⟩ := exists_of_forall₂_right (forall₂_apportion pool weights) hn
  have hdown : 0 ≤ pool * w / weights.sum :=
    Int.ediv_nonneg (mul_nonneg hpool (hweights w hw)) (sum_nonneg hweights)
  omega

end SatoshiNet.Lib
