import Mathlib.Logic.Function.Basic
import Mathlib.Tactic.SplitIfs
import Std.Data.ExtTreeMap

/-!
A table whose values carry their key, and the index that leads from a value's tag back to the key.
-/

namespace SatoshiNet.Lib

open Function Std Option

section Lookup

variable {K V : Type*} [Ord K] [TransOrd K] [LawfulEqOrd K] [DecidableEq K]

theorem lookup_insert (t : ExtTreeMap K V) (k : K) (v : V) :
    (fun a => (t.insert k v)[a]?) = update (fun a => t[a]?) k (some v) := by
  funext a
  rw [ExtTreeMap.getElem?_insert, update_apply]
  simp [@eq_comm _ a k]

theorem lookup_erase (t : ExtTreeMap K V) (k : K) :
    (fun a => (t.erase k)[a]?) = update (fun a => t[a]?) k none := by
  funext a
  rw [ExtTreeMap.getElem?_erase, update_apply]
  simp [@eq_comm _ a k]

end Lookup

variable {K I V : Type*}

structure Mirrors (key : V → K) (tag : V → I) (table : K → Option V) (index : I → Option K) :
    Prop where
  keyed : ∀ {k v}, table k = some v → key v = k
  entry : ∀ i k, index i = some k ↔ ∃ v, table k = some v ∧ tag v = i

variable [DecidableEq K] [DecidableEq I] {key : V → K} {tag : V → I} {table : K → Option V}
  {index : I → Option K}

def dropTag (tag : V → I) (index : I → Option K) (old : Option V) : I → Option K :=
  old.elim index fun v => update index (tag v) none

section

variable (htag : ∀ v w, tag v = tag w → key v = key w) (h : Mirrors key tag table index)
include htag h

theorem Mirrors.remove (k : K) :
    Mirrors key tag (update table k none) (dropTag tag index (table k)) := by
  cases hk : table k with
  | none =>
    have hsame : update table k none = table := by rw [← hk, update_eq_self]
    rw [hsame]
    exact h
  | some v =>
    simp only [dropTag, elim_some]
    refine ⟨fun {k' w} hw => ?_, fun i k' => ?_⟩
    · rw [update_apply] at hw
      split_ifs at hw
      exact h.keyed hw
    · rw [update_apply, update_apply]
      split_ifs with hi hk' hk'
      · subst hk'
        simp
      · subst hi
        simp only [false_iff, not_exists, not_and]
        -- Another value with the tag of `v` would sit in the slot of `v`.
        intro w hw htw
        exact hk' ((h.keyed hw).symm.trans ((htag w v htw).trans (h.keyed hk)))
      · subst hk'
        simp only [false_and, exists_false, iff_false, h.entry]
        rintro ⟨w, hw, htw⟩
        obtain rfl := some.inj (hk.symm.trans hw)
        exact hi htw.symm
      · exact h.entry i k'

theorem Mirrors.insert {v : V} (hv : table (key v) = none) :
    Mirrors key tag (update table (key v) (some v)) (update index (tag v) (some (key v))) := by
  refine ⟨fun {k w} hw => ?_, fun i k => ?_⟩
  · rw [update_apply] at hw
    split_ifs at hw with hk
    · rw [← some.inj hw, hk]
    · exact h.keyed hw
  · rw [update_apply, update_apply]
    split_ifs with hi hk hk
    · simp [hi, hk]
    · simp only [some.injEq, Ne.symm hk, false_iff, not_exists, not_and]
      intro w hw htw
      exact hk ((h.keyed hw).symm.trans (htag w v (htw.trans hi)))
    · subst hk
      simp only [some.injEq, exists_eq_left', Ne.symm hi, iff_false, h.entry, hv]
      rintro ⟨w, hw, -⟩
      cases hw
    · exact h.entry i k

theorem Mirrors.store (v : V) :
    Mirrors key tag (update table (key v) (some v))
      (update (dropTag tag index (table (key v))) (tag v) (some (key v))) := by
  have hin := (h.remove htag (key v)).insert htag (v := v) (update_self _ _ _)
  rwa [update_idem] at hin

end

end SatoshiNet.Lib
