import Mathlib.Algebra.Order.Group.Nat
import Mathlib.Data.List.Induction

/-!
An undo log with nested snapshots.

As long as there is a snapshot, a change of the state appends the entries that undo it.  Returning
to a snapshot undoes the entries after it, the newest first.  The states are compared up to a
relation `R`, for what the program leaves behind but never reads.
-/

namespace SatoshiNet.Lib

open List

structure Revision where
  (id journalIndex : ℕ)

def findRevision (id : ℕ) : List Revision → Option (List Revision × Revision)
  | [] => none
  | r :: rest =>
    match findRevision id rest with
    | some (before, found) => some (r :: before, found)
    | none => if r.id = id then some ([], r) else none

theorem findRevision_eq_some {id : ℕ} {l before} {r} (h : findRevision id l = some (before, r)) :
    r.id = id ∧ ∃ after, l = before ++ r :: after := by
  induction l generalizing before with
  | nil => cases h
  | cons a rest ih =>
    rw [findRevision] at h
    cases hrest : findRevision id rest with
    | some found =>
      rw [hrest] at h
      cases h
      obtain ⟨hid, after, rfl⟩ := ih hrest
      exact ⟨hid, after, rfl⟩
    | none =>
      rw [hrest] at h
      by_cases hid : a.id = id
      · rw [if_pos hid] at h
        cases h
        exact ⟨hid, rest, rfl⟩
      · simp [hid] at h

theorem findRevision_append {before after} {r} (h : ∀ x ∈ after, x.id ≠ r.id) :
    findRevision r.id (before ++ r :: after) = some (before, r) := by
  induction before with
  | nil =>
    cases hrest : findRevision r.id after with
    | none => simp [findRevision, hrest]
    | some found =>
      have hnone : ∀ l : List Revision, (∀ x ∈ l, x.id ≠ r.id) → findRevision r.id l = none := by
        intro l hl
        induction l with
        | nil => rfl
        | cons a l ih =>
          obtain ⟨ha, hl⟩ := forall_mem_cons.mp hl
          simp [findRevision, ih hl, ha]
      exact absurd ((hnone after h).symm.trans hrest) nofun
  | cons a before ih => rw [cons_append, findRevision, ih]

structure Journaled (S E : Type*) where
  data : S
  journal : List E := []
  revisions : List Revision := []
  nextRevID : ℕ := 0
  fresh : ∀ r ∈ revisions, r.id < nextRevID := by simp

namespace Journaled

variable {S E O : Type*}

def update (m : S → S × List E) (j : Journaled S E) : Journaled S E :=
  { j with
    data := (m j.data).1
    journal := if j.revisions = [] then j.journal else j.journal ++ (m j.data).2 }

def snapshot (j : Journaled S E) : Journaled S E where
  data := j.data
  journal := j.journal
  revisions := j.revisions ++ [⟨j.nextRevID, j.journal.length⟩]
  nextRevID := j.nextRevID + 1
  fresh := forall_mem_append.mpr ⟨fun r hr => (j.fresh r hr).trans (Nat.lt_succ_self _),
    forall_mem_singleton.mpr (Nat.lt_succ_self _)⟩

variable {before : List Revision} {id : ℕ} {j : Journaled S E} {r : Revision}

theorem fresh_of_findRevision (j : Journaled S E)
    (h : findRevision id j.revisions = some (before, r)) : ∀ x ∈ before, x.id < j.nextRevID := by
  obtain ⟨-, after, hsplit⟩ := findRevision_eq_some h
  intro x hx
  apply j.fresh
  rw [hsplit]
  exact mem_append_left _ hx

variable (act : O → S → S × List E) (undo : E → S → S)

/-- A snapshot and those after it are forgotten; `restore` gets the entries that were made since. -/
def leaveSnapshot (restore : List E → S → S) (id : ℕ) (j : Journaled S E) : Journaled S E :=
  match h : findRevision id j.revisions with
  | none => j
  | some (before, r) =>
    { data := restore (j.journal.drop r.journalIndex) j.data
      journal := j.journal.take r.journalIndex
      revisions := before
      nextRevID := j.nextRevID
      fresh := j.fresh_of_findRevision h }

def revertToSnapshot : ℕ → Journaled S E → Journaled S E :=
  leaveSnapshot fun entries s => entries.foldr undo s

def discardSnapshot : ℕ → Journaled S E → Journaled S E := leaveSnapshot fun _ s => s

theorem leaveSnapshot_of_some (restore : List E → S → S)
    (h : findRevision id j.revisions = some (before, r)) : ∃ fresh, j.leaveSnapshot restore id =
      { data := restore (j.journal.drop r.journalIndex) j.data
        journal := j.journal.take r.journalIndex
        revisions := before
        nextRevID := j.nextRevID
        fresh := fresh } := by
  unfold leaveSnapshot
  split
  · simp_all
  · rename_i before' r' hsome
    obtain ⟨rfl, rfl⟩ := Prod.mk.inj (Option.some.inj (h.symm.trans hsome))
    exact ⟨j.fresh_of_findRevision h, rfl⟩

theorem leaveSnapshot_cases (restore : List E → S → S) (id : ℕ) (j : Journaled S E) :
    j.leaveSnapshot restore id = j ∨ ∃ before r after fresh, r.id = id ∧
      j.revisions = before ++ r :: after ∧ j.leaveSnapshot restore id =
        { data := restore (j.journal.drop r.journalIndex) j.data
          journal := j.journal.take r.journalIndex
          revisions := before
          nextRevID := j.nextRevID
          fresh := fresh } := by
  cases hfind : findRevision id j.revisions with
  | none =>
    left
    unfold leaveSnapshot
    split
    · rfl
    · simp_all
  | some found =>
    obtain ⟨before, r⟩ := found
    obtain ⟨hid, after, hsplit⟩ := findRevision_eq_some hfind
    obtain ⟨fresh, hleft⟩ := leaveSnapshot_of_some restore hfind
    exact .inr ⟨before, r, after, fresh, hid, hsplit, hleft⟩

inductive Op (O : Type*)
  | act (o : O)
  | snapshot
  | revertToSnapshot (id : ℕ)

def step (j : Journaled S E) : Op O → Journaled S E
  | .act o => j.update (act o)
  | .snapshot => j.snapshot
  | .revertToSnapshot id => j.revertToSnapshot undo id

def run (j : Journaled S E) (ops : List (Op O)) : Journaled S E :=
  ops.foldl (step act undo) j

def valid (j : Journaled S E) : List ℕ := j.revisions.map (·.id)

section Exact

variable {act : O → S → S × List E} {undo : E → S → S} {R : S → S → Prop}

def Respects (undo : E → S → S) (R : S → S → Prop) (e : E) : Prop :=
  ∀ s t, R s t → R (undo e s) (undo e t)

structure Undoable (undo : E → S → S) (R : S → S → Prop) (m : S → S × List E) : Prop where
  respects : ∀ s, ∀ e ∈ (m s).2, Respects undo R e
  undone : ∀ s, R ((m s).2.foldr undo (m s).1) s

theorem foldr_respects {entries : List E} (h : ∀ e ∈ entries, Respects undo R e) {s t : S}
    (hst : R s t) : R (entries.foldr undo s) (entries.foldr undo t) := by
  induction entries with
  | nil => exact hst
  | cons e es ih =>
    obtain ⟨he, hes⟩ := forall_mem_cons.mp h
    exact he _ _ (ih hes)

def andThen (m n : S → S × List E) (s : S) : S × List E :=
  ((n (m s).1).1, (m s).2 ++ (n (m s).1).2)

/-- What holds from the time of a snapshot on, until it is forgotten: undoing what the journal got
since then leads back to it. -/
structure Since (undo : E → S → S) (R : S → S → Prop) (j₀ j : Journaled S E) : Prop where
  journal : ∃ entries, j.journal = j₀.journal ++ entries ∧ (∀ e ∈ entries, Respects undo R e) ∧
    R (entries.foldr undo j.data) j₀.data
  revisions : ∃ later, j.revisions = j₀.revisions ++ ⟨j₀.nextRevID, j₀.journal.length⟩ :: later ∧
    ∀ r ∈ later, j₀.nextRevID < r.id ∧ j₀.journal.length ≤ r.journalIndex
  next : j₀.nextRevID < j.nextRevID

structure Forgotten (j₀ j : Journaled S E) : Prop where
  invalid : ∀ r ∈ j.revisions, r.id ≠ j₀.nextRevID
  next : j₀.nextRevID < j.nextRevID

theorem since_snapshot (hrefl : ∀ s, R s s) (j₀) : Since undo R j₀ j₀.snapshot :=
  ⟨⟨[], (append_nil _).symm, nofun, hrefl _⟩, ⟨[], rfl, nofun⟩, Nat.lt_succ_self _⟩

variable {j j₀ : Journaled S E}

section

variable (h : Since undo R j₀ j)
include h

theorem Since.update (htrans : ∀ s t u, R s t → R t u → R s u) {m} (hm : Undoable undo R m) :
    Since undo R j₀ (j.update m) := by
  obtain ⟨entries, hjournal, hrespects, hentries⟩ := h.journal
  obtain ⟨later, hrevisions, hlater⟩ := h.revisions
  refine ⟨⟨entries ++ (m j.data).2, ?_, ?_, ?_⟩, ⟨later, hrevisions, hlater⟩, h.next⟩
  · rw [Journaled.update, if_neg (by simp [hrevisions]), hjournal, append_assoc]
  · exact forall_mem_append.mpr ⟨hrespects, hm.respects j.data⟩
  · rw [foldr_append]
    exact htrans _ _ _ (foldr_respects hrespects (hm.undone j.data)) hentries

theorem Since.snapshot : Since undo R j₀ j.snapshot := by
  obtain ⟨entries, hjournal, hrespects, hentries⟩ := h.journal
  obtain ⟨later, hrevisions, hlater⟩ := h.revisions
  refine ⟨⟨entries, hjournal, hrespects, hentries⟩, ⟨later ++ [⟨j.nextRevID, j.journal.length⟩], ?_, ?_⟩,
    h.next.trans (Nat.lt_succ_self _)⟩
  · show j.revisions ++ _ = _
    rw [hrevisions, append_assoc, cons_append]
  · refine forall_mem_append.mpr ⟨hlater, forall_mem_singleton.mpr ⟨h.next, ?_⟩⟩
    rw [hjournal, length_append]
    exact Nat.le_add_right _ _

theorem Since.revert_later {id : ℕ} (hid : j₀.nextRevID < id) :
    Since undo R j₀ (j.revertToSnapshot undo id) := by
  obtain ⟨entries, hjournal, hrespects, hentries⟩ := h.journal
  obtain ⟨later, hrevisions, hlater⟩ := h.revisions
  obtain hsame | ⟨before, r, after, fresh, hrid, hsplit, hleft⟩ :=
    leaveSnapshot_cases (fun entries s => entries.foldr undo s) id j
  · rw [revertToSnapshot, hsame]
    exact h
  · rw [revertToSnapshot, hleft]
    -- The revision is neither an earlier one nor the snapshot itself.
    obtain ⟨as, bs, hbefore, hlaterSplit⟩ : ∃ as bs,
        before = j₀.revisions ++ ⟨j₀.nextRevID, j₀.journal.length⟩ :: as ∧ later = as ++ r :: bs := by
      rcases append_eq_append_iff.mp (hsplit.symm.trans hrevisions) with ⟨as, hfirst, -⟩ |
        ⟨as, hbefore, htail⟩
      · have hmem : r ∈ j₀.revisions ∨ r = ⟨j₀.nextRevID, j₀.journal.length⟩ := by
          cases as with
          | nil => exact Or.inr (by simp_all)
          | cons a as => exact Or.inl (by simp_all)
        rcases hmem with hmem | rfl
        · exact absurd (j₀.fresh r hmem) (by omega)
        · exact absurd hrid hid.ne
      · cases as with
        | nil => exact absurd (congrArg Revision.id (cons.inj htail).1) (by simp; omega)
        | cons a as =>
          obtain ⟨rfl, hlaterSplit⟩ := cons.inj htail
          exact ⟨as, after, hbefore, hlaterSplit⟩
    have hindex : j₀.journal.length ≤ r.journalIndex :=
      (hlater r (hlaterSplit ▸ mem_append_right _ mem_cons_self)).2
    refine ⟨⟨entries.take (r.journalIndex - j₀.journal.length), ?_, ?_, ?_⟩, ⟨as, hbefore, ?_⟩, h.next⟩
    · rw [hjournal, take_append, take_of_length_le hindex]
    · exact fun e he => hrespects e (mem_of_mem_take he)
    · rw [hjournal, drop_append, drop_of_length_le hindex, nil_append, ← foldr_append,
        take_append_drop]
      exact hentries
    · exact fun x hx => hlater x (hlaterSplit ▸ mem_append_left _ hx)

theorem Since.revertToSnapshot (id : ℕ) :
    Since undo R j₀ (j.revertToSnapshot undo id) ∨ Forgotten j₀ (j.revertToSnapshot undo id) := by
  by_cases hid : j₀.nextRevID < id
  · exact Or.inl (h.revert_later hid)
  obtain ⟨later, hrevisions, hlater⟩ := h.revisions
  obtain hsame | ⟨before, r, after, fresh, hrid, hsplit, hleft⟩ :=
    leaveSnapshot_cases (fun entries s => entries.foldr undo s) id j
  · rw [Journaled.revertToSnapshot, hsame]
    exact Or.inl h
  · rw [Journaled.revertToSnapshot, hleft]
    have hsub : before ⊆ j₀.revisions := by
      rcases append_eq_append_iff.mp (hsplit.symm.trans hrevisions) with ⟨as, hfirst, -⟩ |
        ⟨as, hbefore, htail⟩
      · exact fun x hx => hfirst ▸ mem_append_left _ hx
      · cases as with
        | nil => exact fun x hx => by simpa [hbefore] using hx
        | cons a as =>
          have hmem : r ∈ later := (cons.inj htail).2 ▸ mem_append_right _ mem_cons_self
          exact absurd (hlater r hmem).1 (by omega)
    exact Or.inr ⟨fun x hx => (j₀.fresh x (hsub hx)).ne, h.next⟩

theorem Since.find : findRevision j₀.nextRevID j.revisions =
      some (j₀.revisions, ⟨j₀.nextRevID, j₀.journal.length⟩) := by
  obtain ⟨later, hrevisions, hlater⟩ := h.revisions
  rw [hrevisions]
  exact findRevision_append (r := ⟨j₀.nextRevID, j₀.journal.length⟩)
    fun x hx => (hlater x hx).1.ne'

theorem Since.restores : R (j.revertToSnapshot undo j₀.nextRevID).data j₀.data ∧
      (j.revertToSnapshot undo j₀.nextRevID).journal = j₀.journal ∧
      (j.revertToSnapshot undo j₀.nextRevID).revisions = j₀.revisions := by
  obtain ⟨entries, hjournal, -, hentries⟩ := h.journal
  obtain ⟨fresh, hleft⟩ := leaveSnapshot_of_some (fun entries s => entries.foldr undo s) h.find
  rw [Journaled.revertToSnapshot, hleft, hjournal, drop_left, take_left]
  exact ⟨hentries, rfl, rfl⟩

end

theorem Forgotten.step (h : Forgotten j₀ j) (op) : Forgotten j₀ (step act undo j op) := by
  cases op with
  | act o => exact { h with }
  | snapshot =>
    exact ⟨forall_mem_append.mpr ⟨h.invalid, forall_mem_singleton.mpr h.next.ne'⟩,
      h.next.trans (Nat.lt_succ_self _)⟩
  | revertToSnapshot id =>
    rw [Journaled.step, revertToSnapshot]
    obtain hsame | ⟨before, r, after, fresh, -, hsplit, hleft⟩ :=
      leaveSnapshot_cases (fun entries s => entries.foldr undo s) id j
    · exact hsame.symm ▸ h
    · rw [hleft]
      exact ⟨fun x hx => h.invalid x (hsplit ▸ mem_append_left _ hx), h.next⟩

/-- A property of the state that also holds after returning to any of the snapshots. -/
structure Keeps (undo : E → S → S) (R : S → S → Prop) (P : S → Prop) (j : Journaled S E) : Prop where
  data : P j.data
  respects : ∀ e ∈ j.journal, Respects undo R e
  indices : j.revisions.Pairwise fun a b => a.journalIndex ≤ b.journalIndex
  bounds : ∀ r ∈ j.revisions, r.journalIndex ≤ j.journal.length
  rewound : ∀ r ∈ j.revisions, P ((j.journal.drop r.journalIndex).foldr undo j.data)

section Keeps

variable {P : S → Prop} {j : Journaled S E}

theorem keeps_of_nil (hdata : P j.data) (hjournal : j.journal = []) (hrevisions : j.revisions = []) :
    Keeps undo R P j where
  data := hdata
  respects _ he := absurd he (hjournal ▸ not_mem_nil)
  indices := hrevisions ▸ List.Pairwise.nil
  bounds _ hr := absurd hr (hrevisions ▸ not_mem_nil)
  rewound _ hr := absurd hr (hrevisions ▸ not_mem_nil)

theorem Keeps.update (hP : ∀ s t, R s t → P t → P s) {m} (hm : Undoable undo R m)
    (hdata : P (m j.data).1) (h : Keeps undo R P j) : Keeps undo R P (j.update m) := by
  by_cases hrev : j.revisions = []
  · have hjournal : (j.update m).journal = j.journal := if_pos hrev
    exact ⟨hdata, hjournal ▸ h.respects, h.indices, hjournal ▸ h.bounds,
      fun r hr => absurd (show r ∈ j.revisions from hr) (hrev ▸ not_mem_nil)⟩
  have hjournal : (j.update m).journal = j.journal ++ (m j.data).2 := if_neg hrev
  refine ⟨hdata, ?_, h.indices, ?_, ?_⟩
  · rw [hjournal]
    exact forall_mem_append.mpr ⟨h.respects, hm.respects j.data⟩
  · intro r hr
    have := h.bounds r hr
    rw [hjournal, length_append]
    omega
  · intro r hr
    rw [hjournal, drop_append_of_le_length (h.bounds r hr), foldr_append]
    refine hP _ _ (foldr_respects ?_ (hm.undone j.data)) (h.rewound r hr)
    exact fun e he => h.respects e (mem_of_mem_drop he)

theorem Keeps.snapshot (h : Keeps undo R P j) : Keeps undo R P j.snapshot where
  data := h.data
  respects := h.respects
  indices := by
    refine pairwise_append.mpr ⟨h.indices, pairwise_singleton _ _, fun a ha b hb => ?_⟩
    rw [mem_singleton.mp hb]
    exact h.bounds a ha
  bounds := forall_mem_append.mpr ⟨h.bounds, forall_mem_singleton.mpr le_rfl⟩
  rewound := by
    refine forall_mem_append.mpr ⟨h.rewound, forall_mem_singleton.mpr ?_⟩
    show P ((j.journal.drop j.journal.length).foldr undo j.data)
    rw [drop_length]
    exact h.data

theorem Keeps.revertToSnapshot (h : Keeps undo R P j) (id : ℕ) :
    Keeps undo R P (j.revertToSnapshot undo id) := by
  obtain hsame | ⟨before, r, after, fresh, -, hsplit, hleft⟩ :=
    leaveSnapshot_cases (fun entries s => entries.foldr undo s) id j
  · rw [Journaled.revertToSnapshot, hsame]
    exact h
  · rw [Journaled.revertToSnapshot, hleft]
    have hmem : r ∈ j.revisions := hsplit ▸ mem_append_right _ mem_cons_self
    have hindices := h.indices
    rw [hsplit, pairwise_append] at hindices
    obtain ⟨hbefore, -, hle⟩ := hindices
    have hbound := h.bounds r hmem
    refine ⟨h.rewound r hmem, fun e he => h.respects e (mem_of_mem_take he), hbefore, ?_, ?_⟩
    · intro x hx
      rw [length_take, min_eq_left hbound]
      exact hle x hx r mem_cons_self
    · intro x hx
      have hx' : x.journalIndex ≤ r.journalIndex := hle x hx r mem_cons_self
      -- The entries that are undone now are the rest of those after the earlier snapshot.
      have hdrop : (j.journal.take r.journalIndex).drop x.journalIndex ++ j.journal.drop r.journalIndex =
          j.journal.drop x.journalIndex := by
        rw [← drop_append_of_le_length, take_append_drop]
        rw [length_take, min_eq_left hbound]
        exact hx'
      rw [← foldr_append, hdrop]
      exact h.rewound x (hsplit ▸ mem_append_left _ hx)

end Keeps

variable (hrefl : ∀ s, R s s) (htrans : ∀ s t u, R s t → R t u → R s u)
  (hact : ∀ o, Undoable undo R (act o))
include hrefl htrans hact

theorem since_or_forgotten (j₀) (ops) : Since undo R j₀ (run act undo j₀.snapshot ops) ∨
      Forgotten j₀ (run act undo j₀.snapshot ops) := by
  induction ops using reverseRecOn with
  | nil => exact Or.inl (since_snapshot hrefl j₀)
  | append_singleton ops op ih =>
    rw [run, foldl_append, foldl_cons, foldl_nil]
    rcases ih with ih | ih
    · cases op with
      | act o => exact Or.inl (ih.update htrans (hact o))
      | snapshot => exact Or.inl ih.snapshot
      | revertToSnapshot id => exact ih.revertToSnapshot id
    · exact Or.inr (ih.step op)

/-- Returning to a snapshot that is still valid restores the state and the journal from before it was
taken; the snapshots from before it, and no others, stay valid. -/
theorem revertToSnapshot_restores (j₀ : Journaled S E) (ops : List (Op O))
    (hvalid : j₀.nextRevID ∈ (run act undo j₀.snapshot ops).valid) :
    R ((run act undo j₀.snapshot ops).revertToSnapshot undo j₀.nextRevID).data j₀.data ∧
      ((run act undo j₀.snapshot ops).revertToSnapshot undo j₀.nextRevID).journal = j₀.journal ∧
      ((run act undo j₀.snapshot ops).revertToSnapshot undo j₀.nextRevID).valid = j₀.valid ∧
      ∃ later, (run act undo j₀.snapshot ops).valid = j₀.valid ++ j₀.nextRevID :: later ∧
        ∀ id ∈ later, j₀.nextRevID < id := by
  rcases since_or_forgotten hrefl htrans hact j₀ ops with h | h
  · obtain ⟨hdata, hjournal, hrev⟩ := h.restores
    obtain ⟨later, hrevisions, hlater⟩ := h.revisions
    refine ⟨hdata, hjournal, ?_, later.map (·.id), ?_, ?_⟩
    · rw [valid, hrev, valid]
    · rw [valid, hrevisions, map_append, map_cons, valid]
    · intro id hid
      obtain ⟨r, hr, rfl⟩ := mem_map.mp hid
      exact (hlater r hr).1
  · obtain ⟨r, hr, hid⟩ := mem_map.mp hvalid
    exact absurd hid (h.invalid r hr)

end Exact

end Journaled

end SatoshiNet.Lib
