import Mathlib.Data.List.Basic

/-!
Edits of a partial map and the journal that undoes them.

Two rules transfer runs of edits to a program that folds over a list: the forward rule follows the
edits, the backward rule takes them back from the end of the journal.
-/

namespace SatoshiNet.Lib

open List Option Function

variable {K V : Type*} [DecidableEq K]

inductive Edit (K V : Type*)
  | remove (key : K)
  | insert (key : K) (value : V)

namespace Edit

variable (m : K → Option V)

def apply : Edit K V → K → Option V
  | remove k => update m k none
  | insert k v => update m k (some v)

def taken : Edit K V → List V
  | remove k => (m k).toList
  | insert _ _ => []

def Fits : Edit K V → Prop
  | remove k => (m k).isSome
  | insert k _ => m k = none

end Edit

section

variable (m : K → Option V) (es : List (Edit K V))

def applyAll : K → Option V :=
  es.foldl Edit.apply m

def journalAll (m : K → Option V) : List (Edit K V) → List V
  | [] => []
  | e :: es => e.taken m ++ journalAll (e.apply m) es

def FitsAll (m : K → Option V) : List (Edit K V) → Prop
  | [] => True
  | e :: es => e.Fits m ∧ FitsAll (e.apply m) es

instance Edit.decidableFits (m : K → Option V) : (e : Edit K V) → Decidable (e.Fits m)
  | remove k => inferInstanceAs (Decidable ((m k).isSome = true))
  | insert k _ => decidable_of_iff ((m k).isNone = true) isNone_iff_eq_none

instance decidableFitsAll (m : K → Option V) : (es : List (Edit K V)) → Decidable (FitsAll m es)
  | [] => isTrue trivial
  | e :: es =>
    have := decidableFitsAll (e.apply m) es
    inferInstanceAs (Decidable (e.Fits m ∧ FitsAll (e.apply m) es))

@[simp] theorem applyAll_nil : applyAll m [] = m := rfl

@[simp] theorem applyAll_cons (e : Edit K V) (es : List (Edit K V)) :
    applyAll m (e :: es) = applyAll (e.apply m) es := rfl

variable (fs : List (Edit K V))

theorem applyAll_append : applyAll m (es ++ fs) = applyAll (applyAll m es) fs := by
  simp [applyAll]

theorem journalAll_append :
    journalAll m (es ++ fs) = journalAll m es ++ journalAll (applyAll m es) fs := by
  induction es generalizing m with
  | nil => rfl
  | cons e es ih =>
    simp [journalAll, ih]

theorem fitsAll_append : FitsAll m (es ++ fs) ↔ FitsAll m es ∧ FitsAll (applyAll m es) fs := by
  induction es generalizing m with
  | nil => simp [FitsAll]
  | cons e es ih => simp [FitsAll, ih, and_assoc]

end

section Inserts

variable {A : Type*} (key : A → K) (value : A → V) (m : K → Option V) (l : List A)

theorem applyAll_inserts_of_not_mem (k : K)
    (hk : k ∉ l.map key) : applyAll m (l.map fun a => .insert (key a) (value a)) k = m k := by
  induction l generalizing m with
  | nil => rfl
  | cons a l ih =>
    simp only [map_cons, mem_cons, not_or] at hk
    rw [map_cons, applyAll_cons, ih _ hk.2]
    exact update_of_ne hk.1 _ _

theorem eq_none_of_fitsAll_inserts (k : K)
    (hfit : FitsAll m (l.map fun a => .insert (key a) (value a))) (hk : k ∈ l.map key) :
    m k = none := by
  induction l generalizing m with
  | nil => cases hk
  | cons a l ih =>
    obtain ⟨ha, hl⟩ := hfit
    by_cases hka : k = key a
    · rw [hka]
      exact ha
    · have hm := ih _ hl ((mem_cons.mp hk).resolve_left hka)
      rwa [Edit.apply, update_of_ne hka] at hm

theorem journalAll_inserts : journalAll m (l.map fun a => .insert (key a) (value a)) = [] := by
  induction l generalizing m with
  | nil => rfl
  | cons a l ih => simp [journalAll, Edit.taken, ih]

end Inserts

variable {es : List (Edit K V)} {k : K} {l : List K} {m : K → Option V}

theorem isSome_of_fitsAll_removes (hfit : FitsAll m (l.map Edit.remove)) (hk : k ∈ l) :
    (m k).isSome = true := by
  induction l generalizing m with
  | nil => cases hk
  | cons a l ih =>
    obtain ⟨ha, hl⟩ := hfit
    by_cases hka : k = a
    · rw [hka]
      exact ha
    · have hsome := ih hl ((mem_cons.mp hk).resolve_left hka)
      rwa [Edit.apply, update_of_ne hka] at hsome

theorem not_mem_of_fitsAll_removes (hfit : FitsAll m ((k :: l).map Edit.remove)) : k ∉ l := by
  intro hk
  have hsome := isSome_of_fitsAll_removes hfit.2 hk
  rw [Edit.apply, update_self] at hsome
  cases hsome

section Simulation

variable {S A E : Type*} {step : S → A → Except E S} {edits : A → List (Edit K V)}
  {R : S → (K → Option V) → List V → Prop}

theorem foldlM_edits (l : List A)
    (hstep : ∀ s m journal, ∀ a ∈ l, R s m journal → FitsAll m (edits a) → ∃ s', step s a = .ok s'
      ∧ R s' (applyAll m (edits a)) (journal ++ journalAll m (edits a))) (s : S) (m)
    (journal : List V) (hR : R s m journal) (hfit : FitsAll m (l.flatMap edits)) :
    ∃ s', l.foldlM step s = .ok s' ∧
      R s' (applyAll m (l.flatMap edits)) (journal ++ journalAll m (l.flatMap edits)) := by
  induction l generalizing s m journal with
  | nil =>
    refine ⟨s, rfl, ?_⟩
    simpa only [flatMap_nil, applyAll_nil, journalAll, append_nil] using hR
  | cons a l ih =>
    rw [flatMap_cons] at hfit ⊢
    obtain ⟨ha, hl⟩ := (fitsAll_append m _ _).mp hfit
    obtain ⟨s₁, hs₁, hR₁⟩ := hstep s m journal a mem_cons_self hR ha
    obtain ⟨s₂, hs₂, hR₂⟩ :=
      ih (fun s m j b hb => hstep s m j b (mem_cons_of_mem _ hb)) s₁ _ _ hR₁ hl
    refine ⟨s₂, ?_, ?_⟩
    · rw [foldlM_cons, hs₁]
      exact hs₂
    · rwa [applyAll_append, journalAll_append, ← append_assoc]

/-- Backward rule: a fold over the reversed list whose steps take their edits back, reading the
journal from its end, takes back the edits of the whole list. -/
theorem foldlM_reverse_edits {P : V → Prop} (l : List A)
    (hstep : ∀ s m rest, ∀ a ∈ l, FitsAll m (edits a) → (∀ v ∈ journalAll m (edits a), P v) →
      R s (applyAll m (edits a)) ((journalAll m (edits a)).reverse ++ rest) →
      ∃ s', step s a = .ok s' ∧ R s' m rest) (s : S) (m : K → Option V) (rest : List V)
    (hfit : FitsAll m (l.flatMap edits)) (hP : ∀ v ∈ journalAll m (l.flatMap edits), P v)
    (hR : R s (applyAll m (l.flatMap edits)) ((journalAll m (l.flatMap edits)).reverse ++ rest)) :
    ∃ s', l.reverse.foldlM step s = .ok s' ∧ R s' m rest := by
  induction l generalizing s m rest with
  | nil => exact ⟨s, rfl, hR⟩
  | cons a l ih =>
    rw [flatMap_cons] at hfit hP hR
    obtain ⟨ha, hl⟩ := (fitsAll_append m _ _).mp hfit
    rw [journalAll_append] at hP hR
    rw [applyAll_append, reverse_append, append_assoc] at hR
    obtain ⟨s₁, hs₁, hR₁⟩ :=
      ih (fun s m rest b hb => hstep s m rest b (mem_cons_of_mem _ hb)) s _ _ hl
        (fun v hv => hP v (mem_append_right _ hv)) hR
    obtain ⟨s₂, hs₂, hR₂⟩ := hstep s₁ m rest a mem_cons_self ha
      (fun v hv => hP v (mem_append_left _ hv)) hR₁
    refine ⟨s₂, ?_, hR₂⟩
    rw [reverse_cons, foldlM_append, hs₁]
    change (step s₁ a >>= pure) = _
    rw [bind_pure, hs₂]

end Simulation

/-! ### The last edit of a key -/

def Edit.key : Edit K V → K
  | .remove k => k
  | .insert k _ => k

def Edit.leaves : Edit K V → Option V
  | .remove _ => none
  | .insert _ v => some v

/-- What the last edit of a key leaves there, if any edit is one of that key. -/
def lastEdit (k : K) : List (Edit K V) → Option (Option V)
  | [] => none
  | e :: es => (lastEdit k es).or (if e.key = k then some e.leaves else none)

theorem Edit.apply_eq (m) (e : Edit K V) : e.apply m = update m e.key e.leaves := by
  cases e <;> rfl

theorem applyAll_eq_lastEdit (m : K → Option V) (es : List (Edit K V)) (k : K) :
    applyAll m es k = (lastEdit k es).getD (m k) := by
  induction es generalizing m with
  | nil => rfl
  | cons e es ih =>
    rw [applyAll_cons, ih, lastEdit, Edit.apply_eq]
    cases lastEdit k es with
    | some o => rfl
    | none =>
      by_cases hk : e.key = k
      · subst hk
        simp
      · simp [update_of_ne (Ne.symm hk), hk]

theorem lastEdit_append (k : K) (es fs : List (Edit K V)) :
    lastEdit k (es ++ fs) = (lastEdit k fs).or (lastEdit k es) := by
  induction es with
  | nil => simp [lastEdit]
  | cons e es ih => rw [List.cons_append, lastEdit, ih, lastEdit, Option.or_assoc]

theorem lastEdit_eq_none : lastEdit k es = none ↔ ∀ e ∈ es, e.key ≠ k := by
  induction es with
  | nil => simp [lastEdit]
  | cons e es ih =>
    rw [lastEdit, or_eq_none_iff, ih, forall_mem_cons]
    by_cases hk : e.key = k <;> simp [hk]

theorem mem_of_lastEdit {left} (h : lastEdit k es = some left) :
    ∃ e ∈ es, e.key = k ∧ e.leaves = left := by
  induction es with
  | nil => cases h
  | cons e es ih =>
    rw [lastEdit, or_eq_some_iff, ite_none_right_eq_some, some.injEq] at h
    obtain h | ⟨-, hlast⟩ := h
    · obtain ⟨e', he', hkey⟩ := ih h
      exact ⟨e', mem_cons_of_mem _ he', hkey⟩
    · exact ⟨e, mem_cons_self, hlast⟩

theorem lastEdit_removes (k : K) (l : List K) :
    lastEdit k (l.map (.remove : K → Edit K V)) = if k ∈ l then some none else none := by
  induction l with
  | nil => rfl
  | cons a l ih =>
    rw [map_cons, lastEdit, ih]
    by_cases hk : k ∈ l <;> simp [hk, Edit.key, Edit.leaves, eq_comm]

theorem applyAll_removes (m : K → Option V) (l : List K) (k : K) :
    applyAll m (l.map .remove) k = if k ∈ l then none else m k := by
  rw [applyAll_eq_lastEdit, lastEdit_removes]
  split_ifs <;> rfl

end SatoshiNet.Lib
