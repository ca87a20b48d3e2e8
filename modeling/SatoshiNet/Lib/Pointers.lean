import Mathlib.Data.List.Induction
import Mathlib.Data.List.Nodup
import Mathlib.Data.List.Perm.Basic
import Std.Data.ExtTreeMap

/-!
Maps built again from the list of their entries, and tables whose entries are pointers to objects.

An object that leaves the table stays in the heap, where closures may still point to it.
-/

namespace SatoshiNet.Lib

open Std (ExtTreeMap TransOrd LawfulEqOrd)
open List hiding getElem?_insert ext_getElem?
open Std.ExtTreeMap

section Rebuild

variable {K V : Type} [Ord K] [TransOrd K]

def rebuild (l : List (K × V)) : ExtTreeMap K V := l.foldl (fun m e => m.insert e.1 e.2) ∅

theorem rebuild_append_singleton (l) (e : K × V) :
    rebuild (l ++ [e]) = (rebuild l).insert e.1 e.2 := by
  rw [rebuild, foldl_append, foldl_cons, foldl_nil, rebuild]

theorem nodup_keys_toList (m : ExtTreeMap K V) : (m.toList.map Prod.fst).Nodup := by
  rw [map_fst_toList_eq_keys]
  exact nodup_keys

variable [LawfulEqOrd K] {after before l : List (K × V)} {e : K × V} {m : ExtTreeMap K V}

theorem getElem?_rebuild (hnodup : (l.map Prod.fst).Nodup) {k : K} {v : V} :
    (rebuild l)[k]? = some v ↔ (k, v) ∈ l := by
  induction l using reverseRecOn with
  | nil => simp [rebuild]
  | append_singleton l e ih =>
    rw [map_append, nodup_append] at hnodup
    obtain ⟨hl, -, hnew⟩ := hnodup
    rw [rebuild_append_singleton, getElem?_insert, mem_append, mem_singleton]
    split_ifs with heq
    · obtain rfl := LawfulEqOrd.eq_of_compare heq
      have habsent : ∀ w, (e.1, w) ∉ l := fun w hmem =>
        hnew _ (mem_map_of_mem hmem) _ (mem_map_of_mem mem_cons_self) rfl
      rw [Option.some.injEq]
      constructor
      · rintro rfl
        exact Or.inr rfl
      · rintro (hmem | hmem)
        · exact absurd hmem (habsent v)
        · exact (congrArg Prod.snd hmem).symm
    · rw [ih hl]
      constructor
      · exact Or.inl
      · rintro (hmem | hmem)
        · exact hmem
        · rw [← hmem] at heq
          exact absurd Std.ReflOrd.compare_self heq

@[simp] theorem rebuild_toList (m : ExtTreeMap K V) : rebuild m.toList = m := by
  apply ext_getElem?
  intro k
  ext v
  rw [getElem?_rebuild (nodup_keys_toList m), mem_toList_iff_getElem?_eq_some]

theorem toList_rebuild_perm (hnodup : (l.map Prod.fst).Nodup) : (rebuild l).toList.Perm l := by
  rw [perm_ext_iff_of_nodup (List.Nodup.of_map _ (nodup_keys_toList _)) (List.Nodup.of_map _ hnodup)]
  rintro ⟨k, v⟩
  rw [mem_toList_iff_getElem?_eq_some, getElem?_rebuild hnodup]

theorem getElem?_rebuild_front (h : m.toList = before ++ e :: after) :
    (rebuild before)[e.1]? = none := by
  have hnodup := nodup_keys_toList m
  rw [h, map_append, map_cons, nodup_append] at hnodup
  obtain ⟨hbefore, -, hnew⟩ := hnodup
  by_contra hsome
  obtain ⟨v, hv⟩ := Option.ne_none_iff_exists'.mp hsome
  rw [getElem?_rebuild hbefore] at hv
  exact hnew _ (mem_map_of_mem hv) _ mem_cons_self rfl

theorem countP_keys_rebuild_lt (h : m.toList = before ++ e :: after) (p : K → Bool)
    (he : p e.1 = true) : (rebuild before).keys.countP p < m.keys.countP p := by
  have hnodup := nodup_keys_toList m
  rw [h, map_append, nodup_append] at hnodup
  rw [← map_fst_toList_eq_keys, ← map_fst_toList_eq_keys,
    ((toList_rebuild_perm hnodup.1).map Prod.fst).countP_eq, h, map_append, map_cons,
    countP_append, countP_cons_of_pos he]
  omega

theorem countP_keys_insert (m : ExtTreeMap K V) (k : K) (v : V) (p : K → Bool) :
    (m.insert k v).keys.countP p = m.keys.countP p + if k ∉ m ∧ p k = true then 1 else 0 := by
  by_cases hk : k ∈ m
  · have hperm : (m.insert k v).keys.Perm m.keys := by
      rw [perm_ext_iff_of_nodup nodup_keys nodup_keys]
      intro a
      rw [ExtTreeMap.mem_keys, ExtTreeMap.mem_keys, mem_insert, or_iff_right_iff_imp]
      intro heq
      exact LawfulEqOrd.eq_of_compare heq ▸ hk
    rw [hperm.countP_eq, if_neg fun h => h.1 hk, Nat.add_zero]
  · have hperm : (m.insert k v).keys.Perm (k :: m.keys) := by
      have hnodup : (k :: m.keys).Nodup :=
        nodup_cons.mpr ⟨fun h => hk (ExtTreeMap.mem_keys.mp h), nodup_keys⟩
      rw [perm_ext_iff_of_nodup nodup_keys hnodup]
      intro a
      rw [ExtTreeMap.mem_keys, mem_insert, mem_cons, ExtTreeMap.mem_keys,
        Std.compare_eq_iff_eq, eq_comm]
    rw [hperm.countP_eq, countP_cons]
    simp [hk]

theorem countP_keys_erase_le (m : ExtTreeMap K V) (k : K) (p : K → Bool) :
    (m.erase k).keys.countP p ≤ m.keys.countP p := by
  apply List.Subperm.countP_le
  apply subperm_of_subset nodup_keys
  intro a ha
  rw [ExtTreeMap.mem_keys, mem_erase] at ha
  exact ExtTreeMap.mem_keys.mpr ha.2

end Rebuild

open Option

structure PointerTable (K V : Type) [Ord K] [TransOrd K] where
  heap : List V := []
  table : ExtTreeMap K ℕ := ∅
  bound : ∀ {k : K} {ref}, table[k]? = some ref → ref < heap.length := by simp

namespace PointerTable

variable {K V : Type} [Ord K] [TransOrd K]

abbrev empty : PointerTable K V := {}

section

variable (p : PointerTable K V)

def deref (ref : ℕ) : Option V := p.heap[ref]?

def lookup (k : K) : Option V := p.table[k]?.bind p.deref

def values : ExtTreeMap K V := p.table.filterMap fun _ ref => p.deref ref

include p

@[simp] theorem getElem?_values [LawfulEqOrd K] (k : K) :
    p.values[k]? = p.lookup k := getElem?_filterMap'

def alloc (k : K) (v : V) : PointerTable K V where
  heap := p.heap ++ [v]
  table := p.table.insert k p.heap.length
  bound {k' ref} h := by
    rw [getElem?_insert] at h
    rw [length_append, length_singleton]
    split at h
    · cases h
      exact Nat.lt_succ_self _
    · exact Nat.lt_succ_of_lt (p.bound h)

theorem values_alloc [LawfulEqOrd K] (k : K) (v : V) :
    (p.alloc k v).values = p.values.insert k v := by
  apply ext_getElem?
  intro k'
  rw [getElem?_values, lookup, getElem?_insert, getElem?_values, lookup]
  show ((p.table.insert k p.heap.length)[k']?.bind fun ref => (p.heap ++ [v])[ref]?) = _
  rw [getElem?_insert]
  split
  · simp
  · cases hk : p.table[k']? with
    | none => rfl
    | some ref => exact getElem?_append_left (p.bound hk)

def modify (ref : ℕ) (f : V → V) : PointerTable K V where
  heap := p.heap.modify ref f
  table := p.table
  bound h := by
    rw [length_modify]
    exact p.bound h

def erase (k : K) : PointerTable K V where
  heap := p.heap
  table := p.table.erase k
  bound {k' ref} h := by
    rw [getElem?_erase] at h
    split at h
    · cases h
    · exact p.bound h

def restore (k : K) (ref : ℕ) : PointerTable K V :=
  if hbound : ref < p.heap.length then
    { p with
      table := p.table.insert k ref
      bound := fun {k' ref'} h => by
        rw [getElem?_insert] at h
        split at h
        · exact some.inj h ▸ hbound
        · exact p.bound h }
  else p

theorem lookup_alloc [LawfulEqOrd K] (k k' : K) (v : V) :
    (p.alloc k v).lookup k' = if compare k k' = .eq then some v else p.lookup k' := by
  rw [← getElem?_values, values_alloc, getElem?_insert, getElem?_values]

theorem lookup_modify (ref : ℕ) (f) (k : K) :
    (p.modify ref f).lookup k = p.lookup k ∨ (p.modify ref f).lookup k = (p.lookup k).map f := by
  show p.table[k]?.bind (fun r => (p.heap.modify ref f)[r]?) = p.table[k]?.bind (fun r => p.heap[r]?) ∨
    p.table[k]?.bind (fun r => (p.heap.modify ref f)[r]?) = (p.table[k]?.bind (fun r => p.heap[r]?)).map f
  cases p.table[k]? with
  | none => exact Or.inl rfl
  | some r =>
    rw [bind_some, bind_some, getElem?_modify]
    by_cases hr : ref = r
    · exact Or.inr (by simp [hr])
    · exact Or.inl (by simp [hr])

theorem lookup_erase [LawfulEqOrd K] (k k' : K) :
    (p.erase k).lookup k' = if compare k k' = .eq then none else p.lookup k' := by
  show (p.table.erase k)[k']?.bind p.deref = _
  rw [getElem?_erase]
  split <;> rfl

structure Covers (p q : PointerTable K V) : Prop where
  table : p.table = q.table
  heap : q.heap <+: p.heap

theorem Covers.refl : p.Covers p := ⟨rfl, prefix_rfl⟩

end

variable {p q : PointerTable K V} {ref : ℕ}

theorem Covers.trans {r} (hpq : p.Covers q) (hqr : q.Covers r) : p.Covers r :=
  ⟨hpq.table.trans hqr.table, hqr.heap.trans hpq.heap⟩

theorem getElem?_of_isPrefix {l m} (h : l <+: m) {i : ℕ} {v : V} (hv : l[i]? = some v) :
    m[i]? = some v := by
  obtain ⟨hlt, rfl⟩ := List.getElem?_eq_some_iff.mp hv
  exact prefix_iff_getElem?.mp h i hlt

theorem modify_isPrefix {l m : List V} (h : l <+: m) (ref : ℕ) (f) :
    l.modify ref f <+: m.modify ref f := by
  rw [prefix_iff_getElem?] at h ⊢
  intro i hi
  rw [length_modify] at hi
  rw [getElem?_modify, h i hi, getElem_modify]
  rfl

theorem Covers.modify (h : p.Covers q) (ref : ℕ) (f) : (p.modify ref f).Covers (q.modify ref f) :=
  ⟨h.table, modify_isPrefix h.heap ref f⟩

theorem Covers.erase (h : p.Covers q) (k : K) : (p.erase k).Covers (q.erase k) :=
  ⟨congrArg (ExtTreeMap.erase · k) h.table, h.heap⟩

theorem Covers.lookup (h : p.Covers q) (k : K) : p.lookup k = q.lookup k := by
  rw [PointerTable.lookup, PointerTable.lookup, h.table]
  cases hk : q.table[k]? with
  | none => rfl
  | some ref =>
    obtain ⟨rest, hrest⟩ := h.heap
    rw [bind_some, bind_some, deref, deref, ← hrest, getElem?_append_left (q.bound hk)]

theorem Covers.values [LawfulEqOrd K] (h : p.Covers q) : p.values = q.values := by
  apply ext_getElem?
  intro k
  rw [getElem?_values, getElem?_values, h.lookup]

theorem covers_erase_alloc [LawfulEqOrd K] {k : K} (hk : p.table[k]? = none) (v : V) :
    ((p.alloc k v).erase k).Covers p := by
  refine ⟨ext_getElem? fun {k'} => ?_, prefix_append _ _⟩
  rw [PointerTable.erase, alloc, getElem?_erase, getElem?_insert]
  split_ifs with heq
  · rw [← LawfulEqOrd.eq_of_compare heq, hk]
  · rfl

theorem modify_modify {f g} (h : ∀ v, p.deref ref = some v → g (f v) = v) :
    (p.modify ref f).modify ref g = p := by
  have hheap : (p.heap.modify ref f).modify ref g = p.heap := by
    rw [modify_modify_eq]
    apply List.ext_getElem?
    intro i
    rw [getElem?_modify]
    cases hv : p.heap[i]? with
    | none => rfl
    | some v =>
      by_cases hi : ref = i
      · subst hi
        exact congrArg some ((if_pos rfl).trans (h v hv))
      · exact congrArg some (if_neg hi)
  unfold modify
  congr

def clone (p : PointerTable K V) : PointerTable K V :=
  p.values.toList.foldl (fun q e => q.alloc e.1 e.2) ⟨p.heap, ∅, by simp⟩

theorem lookup_clone [LawfulEqOrd K] (p : PointerTable K V) (k : K) : p.clone.lookup k = p.lookup k := by
  have hvalues (l : List (K × V)) : (l.foldl (fun q e => q.alloc e.1 e.2)
      (⟨p.heap, ∅, by simp⟩ : PointerTable K V)).values = rebuild l := by
    induction l using reverseRecOn with
    | nil => exact ext_getElem? fun {k} => by simp [lookup, rebuild]
    | append_singleton l e ih =>
      rw [foldl_append, rebuild_append_singleton, ← ih]
      exact values_alloc _ _ _
  rw [← getElem?_values, clone, hvalues, rebuild_toList, getElem?_values]

def lookupIn (heap : List V) (p : PointerTable K V) (k : K) : Option V :=
  p.table[k]?.bind fun ref => heap[ref]?

structure Apart (heap₀ : List V) (p : PointerTable K V) : Prop where
  heap : heap₀ <+: p.heap
  table : ∀ {k : K} {ref}, p.table[k]? = some ref → heap₀.length ≤ ref

theorem lookupIn_eq {heap} (h : p.heap <+: heap) (k : K) : p.lookupIn heap k = p.lookup k := by
  obtain ⟨rest, rfl⟩ := h
  unfold lookupIn lookup
  cases hk : p.table[k]? with
  | none => rfl
  | some ref => exact getElem?_append_left (p.bound hk)

variable {heap₀ : List V} {p : PointerTable K V}

theorem Apart.alloc (h : p.Apart heap₀) (k : K) (v : V) : (p.alloc k v).Apart heap₀ where
  heap := h.heap.trans (prefix_append _ _)
  table {k' ref} href := by
    have hinsert : (p.table.insert k p.heap.length)[k']? = some ref := href
    rw [getElem?_insert] at hinsert
    split at hinsert
    · exact some.inj hinsert ▸ h.heap.length_le
    · exact h.table hinsert

theorem Apart.modify (h : p.Apart heap₀) (href : heap₀.length ≤ ref) (f) :
    (p.modify ref f).Apart heap₀ where
  heap := by
    have hsame := modify_isPrefix h.heap ref f
    rwa [modify_eq_self href] at hsame
  table := h.table

theorem Apart.erase (h : p.Apart heap₀) (k : K) : (p.erase k).Apart heap₀ where
  heap := h.heap
  table {k' ref} href := by
    have herase : (p.table.erase k)[k']? = some ref := href
    rw [getElem?_erase] at herase
    split at herase
    · cases herase
    · exact h.table herase

theorem Apart.restore (h : p.Apart heap₀) (k : K) (href : heap₀.length ≤ ref) :
    (p.restore k ref).Apart heap₀ := by
  unfold PointerTable.restore
  split
  · refine ⟨h.heap, fun {k' ref'} href' => ?_⟩
    have hinsert : (p.table.insert k ref)[k']? = some ref' := href'
    rw [getElem?_insert] at hinsert
    split at hinsert
    · exact some.inj hinsert ▸ href
    · exact h.table hinsert
  · exact h

theorem apart_clone (p : PointerTable K V) : p.clone.Apart p.heap := by
  unfold clone
  have hempty : (⟨p.heap, ∅, by simp⟩ : PointerTable K V).Apart p.heap :=
    ⟨prefix_rfl, fun href => by simp at href⟩
  generalize (⟨p.heap, ∅, by simp⟩ : PointerTable K V) = q at hempty
  induction p.values.toList generalizing q with
  | nil => exact hempty
  | cons e l ih => exact ih _ (hempty.alloc e.1 e.2)

end PointerTable

end SatoshiNet.Lib
