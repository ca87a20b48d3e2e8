import Mathlib.Data.List.AList

/-!
A map kept as a slice of maps, so that no single map outgrows the room it was allocated for.  No key
is in two of the maps.
-/

namespace SatoshiNet.Chain

open List Option

variable {K V : Type*} [DecidableEq K]

structure SizedMap (K V : Type*) where
  maxEntries : ℤ
  entries : AList fun _ : K => V

structure MapSlice (K V : Type*) where
  maps : List (SizedMap K V)
  disjoint : maps.Pairwise fun a b => ∀ key, key ∈ a.entries → key ∉ b.entries

def lookupMaps (key : K) : List (SizedMap K V) → Option V
  | [] => none
  | m :: maps =>
    match m.entries.lookup key with
    | some value => some value
    | none => lookupMaps key maps

def overwriteMaps (key : K) (value : V) : List (SizedMap K V) → List (SizedMap K V)
  | [] => []
  | m :: maps =>
    if key ∈ m.entries then { m with entries := m.entries.insert key value } :: maps
    else m :: overwriteMaps key value maps

def insertMaps (key : K) (value : V) (newMaxEntries : ℤ) : List (SizedMap K V) → List (SizedMap K V)
  | [] => [⟨newMaxEntries, AList.singleton key value⟩]
  | m :: maps =>
    if (m.entries.entries.length : ℤ) ≥ m.maxEntries then
      m :: insertMaps key value newMaxEntries maps
    else { m with entries := m.entries.insert key value } :: maps

variable {key : K} {maps : List (SizedMap K V)}

theorem lookupMaps_eq_none : lookupMaps key maps = none ↔ ∀ m ∈ maps, key ∉ m.entries := by
  induction maps with
  | nil => simp [lookupMaps]
  | cons m maps ih =>
    simp only [lookupMaps, mem_cons, forall_eq_or_imp, ← ih]
    cases hm : m.entries.lookup key with
    | none => simp [AList.lookup_eq_none.mp hm]
    | some value =>
      have hmem : key ∈ m.entries := AList.lookup_isSome.mp (by simp [hm])
      simp [hmem]

theorem lookup_insert_eq (m : AList fun _ : K => V) (key key' : K) (value : V) :
    (m.insert key value).lookup key' = if key' = key then some value else m.lookup key' := by
  split_ifs with h
  · subst h
    exact AList.lookup_insert m
  · exact AList.lookup_insert_ne h

/-- The second slice is the first with the value written into one of its maps, or into a new one, and
no other map has the key. -/
inductive Written (key : K) (value : V) : List (SizedMap K V) → List (SizedMap K V) → Prop
  | fresh (newMaxEntries : ℤ) : Written key value [] [⟨newMaxEntries, AList.singleton key value⟩]
  | here {maps : List (SizedMap K V)} (m : SizedMap K V) (hmaps : ∀ b ∈ maps, key ∉ b.entries) :
    Written key value (m :: maps) ({ m with entries := m.entries.insert key value } :: maps)
  | there {m : SizedMap K V} {maps maps' : List (SizedMap K V)} (hm : key ∉ m.entries)
    (h : Written key value maps maps') : Written key value (m :: maps) (m :: maps')

variable {value : V} {maps' : List (SizedMap K V)}

theorem Written.lookup (h : Written key value maps maps') (key' : K) :
    lookupMaps key' maps' = if key' = key then some value else lookupMaps key' maps := by
  induction h with
  | fresh newMaxEntries =>
    simp only [lookupMaps, ← AList.insert_empty, lookup_insert_eq, AList.lookup_empty]
    by_cases hkey : key' = key <;> simp [hkey]
  | here m hmaps =>
    simp only [lookupMaps, lookup_insert_eq]
    by_cases hkey : key' = key <;> simp [hkey]
  | there hm h ih =>
    simp only [lookupMaps, ih]
    by_cases hkey : key' = key
    · subst hkey
      simp [AList.lookup_eq_none.mpr hm]
    · simp [hkey]

theorem Written.pairwise (h : Written key value maps maps')
    (hdisj : maps.Pairwise fun a b => ∀ key, key ∈ a.entries → key ∉ b.entries) :
    maps'.Pairwise fun a b => ∀ key, key ∈ a.entries → key ∉ b.entries := by
  induction h with
  | fresh => exact pairwise_singleton _ _
  | here m hmaps =>
    obtain ⟨hm, hrest⟩ := pairwise_cons.mp hdisj
    refine pairwise_cons.mpr ⟨fun b hb k hk => ?_, hrest⟩
    rcases (AList.mem_insert _).mp hk with rfl | hk
    · exact hmaps b hb
    · exact hm b hb k hk
  | there hkey h ih =>
    obtain ⟨hm, hrest⟩ := pairwise_cons.mp hdisj
    refine pairwise_cons.mpr ⟨fun b hb k hk => ?_, ih hrest⟩
    have hnone := h.lookup k
    rw [if_neg (by rintro rfl; exact hkey hk), lookupMaps_eq_none.mpr fun b hb => hm b hb k hk] at hnone
    exact lookupMaps_eq_none.mp hnone b hb

theorem written_overwriteMaps (h : (lookupMaps key maps).isSome)
    (hdisj : maps.Pairwise fun a b => ∀ key, key ∈ a.entries → key ∉ b.entries) :
    Written key value maps (overwriteMaps key value maps) := by
  induction maps with
  | nil => cases h
  | cons m maps ih =>
    obtain ⟨hm, hrest⟩ := pairwise_cons.mp hdisj
    rw [overwriteMaps]
    split_ifs with hkey
    · exact .here m fun b hb => hm b hb key hkey
    · rw [lookupMaps, AList.lookup_eq_none.mpr hkey] at h
      exact .there hkey (ih h hrest)

theorem written_insertMaps (newMaxEntries : ℤ) (h : lookupMaps key maps = none) :
    Written key value maps (insertMaps key value newMaxEntries maps) := by
  rw [lookupMaps_eq_none] at h
  induction maps with
  | nil => exact .fresh newMaxEntries
  | cons m maps ih =>
    obtain ⟨hm, hrest⟩ := forall_mem_cons.mp h
    rw [insertMaps]
    split
    · exact .there hm (ih hrest)
    · exact .here m hrest

namespace MapSlice

variable (ms : MapSlice K V)

def get (key : K) : Option V := lookupMaps key ms.maps

def new (maxEntries : ℤ) : MapSlice K V := ⟨[⟨maxEntries, ∅⟩], pairwise_singleton _ _⟩

/-- `newMaxEntries` is the capacity of the map that is made when all the others are full. -/
def put (key : K) (value : V) (newMaxEntries : ℤ) : MapSlice K V :=
  if h : (ms.get key).isSome then
    ⟨overwriteMaps key value ms.maps, (written_overwriteMaps h ms.disjoint).pairwise ms.disjoint⟩
  else
    ⟨insertMaps key value newMaxEntries ms.maps,
      (written_insertMaps newMaxEntries (not_isSome_iff_eq_none.mp h)).pairwise ms.disjoint⟩

def delete (key : K) : MapSlice K V :=
  ⟨ms.maps.map fun m => { m with entries := m.entries.erase key },
    pairwise_map.mpr (ms.disjoint.imp fun h k hk hk' =>
      h k (AList.mem_erase.mp hk).2 (AList.mem_erase.mp hk').2)⟩

def entries (ms : MapSlice K V) : List (K × V) :=
  ms.maps.flatMap fun m => m.entries.entries.map fun e => (e.1, e.2)

def deleteMaps : MapSlice K V :=
  ⟨(ms.maps.map fun m => { m with entries := ∅ }).take 1,
    (pairwise_map.mpr (List.Pairwise.imp (fun _ k hk => absurd hk (AList.notMem_empty k))
      ms.disjoint)).sublist (take_sublist _ _)⟩

@[simp] theorem get_new (maxEntries : ℤ) (key : K) :
    (new maxEntries : MapSlice K V).get key = none :=
  lookupMaps_eq_none.mpr fun m hm => by
    obtain rfl := mem_singleton.mp hm
    exact AList.notMem_empty key

theorem get_put (key key' : K) (value : V) (newMaxEntries : ℤ) :
    (ms.put key value newMaxEntries).get key' = if key' = key then some value else ms.get key' := by
  unfold put
  split
  · rename_i h
    exact (written_overwriteMaps h ms.disjoint).lookup key'
  · rename_i h
    exact (written_insertMaps newMaxEntries (not_isSome_iff_eq_none.mp h)).lookup key'

theorem get_delete (key key' : K) :
    (ms.delete key).get key' = if key' = key then none else ms.get key' := by
  simp only [get, delete]
  generalize ms.maps = maps
  induction maps with
  | nil => simp [lookupMaps]
  | cons m maps ih =>
    simp only [map_cons, lookupMaps, ih]
    by_cases hkey : key' = key
    · subst hkey
      simp
    · simp [hkey]

@[simp] theorem get_deleteMaps (key : K) : ms.deleteMaps.get key = none :=
  lookupMaps_eq_none.mpr fun m hm => by
    obtain ⟨n, -, rfl⟩ := mem_map.mp (mem_of_mem_take hm)
    exact AList.notMem_empty key

theorem mem_entries {ms : MapSlice K V} {key : K} {value : V} :
    (key, value) ∈ ms.entries ↔ ms.get key = some value := by
  obtain ⟨maps, hdisj⟩ := ms
  simp only [entries, get]
  induction maps with
  | nil => simp [lookupMaps]
  | cons m maps ih =>
    obtain ⟨hm, hmaps⟩ := pairwise_cons.mp hdisj
    have hmem : (key, value) ∈ m.entries.entries.map (fun e => (e.1, e.2)) ↔
        m.entries.lookup key = some value := by
      rw [← Option.mem_def, AList.mem_lookup_iff, List.mem_map]
      constructor
      · rintro ⟨⟨k, v⟩, hkv, heq⟩
        cases heq
        exact hkv
      · exact fun h => ⟨⟨key, value⟩, h, rfl⟩
    simp only [flatMap_cons, mem_append, hmem, ih hmaps, lookupMaps]
    cases hl : m.entries.lookup key with
    | none => simp
    | some v =>
      have hnot : lookupMaps key maps = none := lookupMaps_eq_none.mpr fun b hb =>
        hm b hb key (AList.lookup_isSome.mp (by simp [hl]))
      simp [hnot]

end MapSlice

end SatoshiNet.Chain
