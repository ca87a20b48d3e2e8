import Mathlib.Logic.Basic

/-!
Runs of a machine whose steps may fail.

`Always`: no step of a run fails and a property holds in every state reached; `StepsMeet`: every
step taken meets a condition on the state before it; `Meets`: the same where steps always succeed.
-/

namespace SatoshiNet.Lib

variable {S O E : Type*} (step : S → O → Except E S)

def Always (P : S → Prop) : S → List O → Prop
  | s, [] => P s
  | s, op :: ops => P s ∧ ∃ s', step s op = .ok s' ∧ Always P s' ops

def StepsMeet (C : S → O → Prop) : S → List O → Prop
  | _, [] => True
  | s, op :: ops => C s op ∧ ∀ s', step s op = .ok s' → StepsMeet C s' ops

instance decidableStepsMeet (C : S → O → Prop) [∀ s op, Decidable (C s op)] :
    (s : S) → (ops : List O) → Decidable (StepsMeet step C s ops)
  | _, [] => isTrue trivial
  | s, op :: ops =>
    match hstep : step s op with
    | .error _ => decidable_of_iff (C s op)
        ⟨fun h => ⟨h, fun _ hs' => nomatch hstep.symm.trans hs'⟩, And.left⟩
    | .ok t =>
      have := decidableStepsMeet C t ops
      decidable_of_iff (C s op ∧ StepsMeet step C t ops)
        ⟨fun h => ⟨h.1, fun _ hs' => Except.ok.inj (hstep.symm.trans hs') ▸ h.2⟩,
          fun h => ⟨h.1, h.2 t hstep⟩⟩

variable {step} {P I : S → Prop} {C A : S → O → Prop} {ops : List O} {s : S}

theorem Always.head (h : Always step P s ops) : P s := by
  cases ops with
  | nil => exact h
  | cons op ops => exact h.1

theorem Always.of_append {ops'} (h : Always step P s (ops ++ ops')) :
    ∃ s', ops.foldlM step s = .ok s' ∧ Always step P s' ops' := by
  induction ops generalizing s with
  | nil => exact ⟨s, rfl, h⟩
  | cons op ops ih =>
    obtain ⟨-, t, ht, hrest⟩ := h
    obtain ⟨s', hs', hlast⟩ := ih hrest
    refine ⟨s', ?_, hlast⟩
    rw [List.foldlM_cons, ht]
    exact hs'

theorem stepsMeet_of_forall {C : O → Prop} (h : ∀ op ∈ ops, C op) (s : S) :
    StepsMeet step (fun _ op => C op) s ops := by
  induction ops generalizing s with
  | nil => trivial
  | cons op ops ih =>
    exact ⟨h op List.mem_cons_self, fun s' _ => ih (fun o ho => h o (List.mem_cons_of_mem _ ho)) s'⟩

theorem always_of_stepsMeet (hI : ∀ s, I s → P s)
    (hstep : ∀ s op, I s → C s op → ∃ s', step s op = .ok s' ∧ I s') (s : S) (ops) (hs : I s)
    (h : StepsMeet step C s ops) : Always step P s ops := by
  induction ops generalizing s with
  | nil => exact hI s hs
  | cons op ops ih =>
    obtain ⟨s', hs', hI'⟩ := hstep s op hs h.1
    exact ⟨hI s hs, s', hs', ih s' hI' (h.2 s' hs')⟩

theorem always_iff_stepsMeet (hI : ∀ s, I s → P s)
    (hkeep : ∀ s op, I s → A s op → C s op → ∃ s', step s op = .ok s' ∧ I s')
    (hbreak : ∀ s op s', I s → A s op → step s op = .ok s' → P s' → C s op) (s : S) (ops) (hs : I s)
    (hA : StepsMeet step A s ops) : Always step P s ops ↔ StepsMeet step C s ops := by
  induction ops generalizing s with
  | nil => exact ⟨fun _ => trivial, fun _ => hI s hs⟩
  | cons op ops ih =>
    constructor
    · rintro ⟨-, s', hs', hrest⟩
      have hC : C s op := hbreak s op s' hs hA.1 hs' hrest.head
      obtain ⟨t, ht, hIt⟩ := hkeep s op hs hA.1 hC
      obtain rfl := Except.ok.inj (hs'.symm.trans ht)
      refine ⟨hC, fun u hu => ?_⟩
      obtain rfl := Except.ok.inj (hs'.symm.trans hu)
      exact (ih s' hIt (hA.2 s' hs')).mp hrest
    · rintro ⟨hC, hrest⟩
      obtain ⟨t, ht, hIt⟩ := hkeep s op hs hA.1 hC
      exact ⟨hI s hs, t, ht, (ih t hIt (hA.2 t ht)).mpr (hrest t ht)⟩

section Total

variable {next : S → O → S}

def Meets (next : S → O → S) (C : S → O → Prop) : S → List O → Prop
  | _, [] => True
  | s, op :: ops => C s op ∧ Meets next C (next s op) ops

instance decidableMeets (C : S → O → Prop) [∀ s op, Decidable (C s op)] :
    (s : S) → (ops : List O) → Decidable (Meets next C s ops)
  | _, [] => isTrue trivial
  | s, op :: ops =>
    have := decidableMeets C (next s op) ops
    inferInstanceAs (Decidable (C s op ∧ Meets next C (next s op) ops))

theorem foldl_of_meets (hstep : ∀ s op, I s → C s op → I (next s op)) (ops) {s : S} (hs : I s)
    (h : Meets next C s ops) : I (ops.foldl next s) := by
  induction ops generalizing s with
  | nil => exact hs
  | cons op ops ih => exact ih (hstep s op hs h.1) h.2

end Total

end SatoshiNet.Lib
