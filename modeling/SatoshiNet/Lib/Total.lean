import Mathlib.Algebra.BigOperators.Finprod
import SatoshiNet.Lib.MapEdit
import SatoshiNet.Lib.Mirror

/-!
The total weight of a map with finitely many entries, the sum over the entries of a table, and what
edits do to them.
-/

namespace SatoshiNet.Lib

open List Function

variable {K V G : Type*} [DecidableEq K] [AddCommGroup G] (w : V → G) (m : K → Option V)

noncomputable def total : G := ∑ᶠ k, (m k).elim 0 w

def FiniteMap : Prop := {k | m k ≠ none}.Finite

def Edit.gain : Edit K V → G
  | .remove k => -(m k).elim 0 w
  | .insert k v => w v - (m k).elim 0 w

def gainAll (m : K → Option V) : List (Edit K V) → G
  | [] => 0
  | e :: es => e.gain w m + gainAll (e.apply m) es

variable {w}

variable {m : K → Option V}

section

variable (h : FiniteMap m)
include h

omit [DecidableEq K] in
theorem FiniteMap.support : Function.HasFiniteSupport fun k => (m k).elim 0 w := by
  refine Set.Finite.subset h fun k hk hnone => hk ?_
  simp [hnone]

theorem FiniteMap.update (k : K) (v) : FiniteMap (update m k v) := by
  refine (h.insert k).subset fun k' hk' => ?_
  by_cases heq : k' = k
  · exact Or.inl heq
  · refine Or.inr ?_
    exact fun hnone => hk' ((update_of_ne heq _ _).trans hnone)

theorem total_update (k : K) (v) :
    total w (update m k v) = total w m + (v.elim 0 w - (m k).elim 0 w) := by
  have hsingle : ∀ x : G, ∑ᶠ k', (if k' = k then x else 0) = x := fun x =>
    finsum_eq_single _ k (fun k' hk' => if_neg hk') |>.trans (if_pos rfl)
  have hfin : Function.HasFiniteSupport
      fun k' => if k' = k then v.elim 0 w - (m k).elim 0 w else 0 :=
    Set.Finite.subset (Set.finite_singleton k) fun k' hk' => by
      by_contra hne
      exact hk' (if_neg hne)
  rw [total, total, ← hsingle (v.elim 0 w - (m k).elim 0 w), ← finsum_add_distrib h.support hfin]
  refine finsum_congr fun k' => ?_
  by_cases heq : k' = k
  · subst heq
    rw [update_self, if_pos rfl, add_sub_cancel]
  · rw [update_of_ne heq, if_neg heq, add_zero]

theorem FiniteMap.apply (e : Edit K V) : FiniteMap (e.apply m) := by
  cases e <;> exact h.update _ _

theorem total_apply (e : Edit K V) : total w (e.apply m) = total w m + e.gain w m := by
  cases e with
  | remove k => exact (total_update h k none).trans (by rw [Edit.gain, Option.elim_none, zero_sub])
  | insert k v => exact total_update h k (some v)

theorem total_applyAll (es) : total w (applyAll m es) = total w m + gainAll w m es := by
  induction es generalizing m with
  | nil => exact (add_zero _).symm
  | cons e es ih =>
    rw [applyAll_cons, ih (h.apply e), total_apply h, gainAll, add_assoc]

end

theorem gainAll_append (m : K → Option V) (es fs : List (Edit K V)) :
    gainAll w m (es ++ fs) = gainAll w m es + gainAll w (applyAll m es) fs := by
  induction es generalizing m with
  | nil => exact (zero_add _).symm
  | cons e es ih =>
    rw [cons_append, gainAll, ih, gainAll, applyAll_cons, add_assoc]

theorem gainAll_removes {l : List K} (hnodup : l.Nodup) :
    gainAll w m (l.map .remove) = -(l.map fun k => (m k).elim 0 w).sum := by
  induction l generalizing m with
  | nil => exact neg_zero.symm
  | cons k l ih =>
    rw [nodup_cons] at hnodup
    have hothers : (l.map fun k' => (Edit.apply m (.remove k) k').elim 0 w) =
        l.map fun k' => (m k').elim 0 w := by
      refine map_congr_left fun k' hk' => ?_
      have hne : k' ≠ k := fun heq => hnodup.1 (heq ▸ hk')
      simp only [Edit.apply, update_of_ne hne]
    rw [map_cons, gainAll, ih hnodup.2, hothers, Edit.gain, map_cons, sum_cons, neg_add]

theorem gainAll_inserts {A : Type*} {l : List A} {key : A → K} {value : A → V}
    (hnodup : (l.map key).Nodup) (hfresh : ∀ a ∈ l, m (key a) = none) :
    gainAll w m (l.map fun a => .insert (key a) (value a)) = (l.map fun a => w (value a)).sum := by
  induction l generalizing m with
  | nil => rfl
  | cons a l ih =>
    rw [map_cons, nodup_cons] at hnodup
    have hrest : ∀ b ∈ l, Edit.apply m (.insert (key a) (value a)) (key b) = none := by
      intro b hb
      have hne : key b ≠ key a := fun heq => hnodup.1 (heq ▸ mem_map_of_mem hb)
      rw [Edit.apply, update_of_ne hne]
      exact hfresh b (mem_cons_of_mem _ hb)
    rw [map_cons, gainAll, ih hnodup.2 hrest, Edit.gain, hfresh a mem_cons_self,
      Option.elim_none, sub_zero, map_cons, sum_cons]

open Std ExtTreeMap

variable [Ord K] [TransOrd K] [LawfulEqOrd K]

def tableTotal (w : V → G) (t : ExtTreeMap K V) : G := (t.toList.map fun e => w e.2).sum

theorem finiteMap_lookup (t : ExtTreeMap K V) : FiniteMap fun k : K => t[k]? := by
  refine Set.Finite.subset (t.keys.toFinset.finite_toSet) fun k hk => ?_
  rw [Finset.mem_coe, List.mem_toFinset, ExtTreeMap.mem_keys]
  by_contra hmem
  exact hk (getElem?_eq_none hmem)

theorem tableTotal_eq_total (w : V → G) (t : ExtTreeMap K V) :
    tableTotal w t = total w fun k : K => t[k]? := by
  have hsub : Function.support (fun k : K => (t[k]?).elim 0 w) ⊆ (t.keys.toFinset : Set K) := by
    intro k hk
    rw [Finset.mem_coe, List.mem_toFinset, ExtTreeMap.mem_keys]
    by_contra hmem
    rw [Function.mem_support, getElem?_eq_none hmem, Option.elim_none] at hk
    exact hk rfl
  rw [total, finsum_eq_sum_of_support_subset _ hsub, sum_toFinset _ nodup_keys, tableTotal,
    ← ExtTreeMap.map_fst_toList_eq_keys, List.map_map]
  refine congrArg sum (map_congr_left ?_)
  rintro ⟨k, v⟩ hmem
  rw [Function.comp_apply, mem_toList_iff_getElem?_eq_some.mp hmem, Option.elim_some]

theorem tableTotal_insert (w : V → G) (t : ExtTreeMap K V) (k : K) (v : V) :
    tableTotal w (t.insert k v) = tableTotal w t + (w v - (t[k]?).elim 0 w) := by
  rw [tableTotal_eq_total, tableTotal_eq_total, lookup_insert, total_update (finiteMap_lookup t),
    Option.elim_some]

omit [LawfulEqOrd K] [DecidableEq K] in
@[simp] theorem tableTotal_empty (w : V → G) : tableTotal w (∅ : ExtTreeMap K V) = 0 := by
  rw [tableTotal, toList_eq_nil_iff.mpr rfl]
  rfl

omit [Ord K] [TransOrd K] [LawfulEqOrd K] in
theorem sum_ite_key {A : Type*} {key : A → K} {w : A → G} {l : List A} (hnodup : (l.map key).Nodup)
    {a : A} (hmem : a ∈ l) : (l.map fun b => if key b = key a then w b else 0).sum = w a := by
  induction l with
  | nil => cases hmem
  | cons b l ih =>
    obtain ⟨hnew, hnodup⟩ := nodup_cons.mp hnodup
    rw [map_cons, sum_cons]
    rcases mem_cons.mp hmem with rfl | hmem
    · have hrest : (l.map fun b => if key b = key a then w b else 0).sum = 0 := by
        apply sum_eq_zero
        intro x hx
        obtain ⟨c, hc, rfl⟩ := mem_map.mp hx
        exact if_neg fun heq => hnew (mem_map.mpr ⟨c, hc, heq⟩)
      rw [if_pos rfl, hrest, add_zero]
    · have hne : key b ≠ key a := fun heq => hnew (mem_map.mpr ⟨a, hmem, heq.symm⟩)
      rw [if_neg hne, ih hnodup hmem, zero_add]

end SatoshiNet.Lib
