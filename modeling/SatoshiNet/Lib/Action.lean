import Mathlib.Logic.Basic

/-!
Actions that change a state and may stop with an error, the state kept as it was at the stop.

`wp a s Q E` says that from `s` the action either returns with `Q` or stops with `E`.
-/

namespace SatoshiNet.Lib

abbrev Action (σ ε α : Type) := ExceptT ε (StateM σ) α

namespace Action

variable {σ ε α β γ : Type} (a : Action σ ε α)

def exec (s : σ) : Except ε α × σ := Id.run (StateT.run (ExceptT.run a) s)

def wp (s : σ) (Q : α → σ → Prop) (E : ε → σ → Prop) : Prop :=
  match a.exec s with
  | (.ok x, t) => Q x t
  | (.error e, t) => E e t

def refuse (c : Bool) (e : ε) : Action σ ε Unit := if c then throw e else pure ()

def ofExcept (f : γ → ε) (x : Except γ α) : Action σ ε α :=
  match x with
  | .ok a => pure a
  | .error e => throw (f e)

theorem exec_bind (f : α → Action σ ε β) (s : σ) :
    (a >>= f).exec s = match a.exec s with
      | (.ok x, t) => (f x).exec t
      | (.error e, t) => (.error e, t) := by
  simp only [exec, ExceptT.run_bind, StateT.run_bind]
  rcases h : Id.run (StateT.run (ExceptT.run a) s) with ⟨_ | _, _⟩ <;> simp_all [Id.run] <;> rfl

@[simp] theorem exec_pure (x : α) (s : σ) : (pure x : Action σ ε α).exec s = (.ok x, s) := rfl

@[simp] theorem exec_get (s : σ) : (get : Action σ ε σ).exec s = (.ok s, s) := rfl

@[simp] theorem exec_ofExcept_ok (f : γ → ε) (x : α) (s : σ) :
    (ofExcept f (.ok x) : Action σ ε α).exec s = (.ok x, s) := rfl

variable {Q R : α → σ → Prop} {E F : ε → σ → Prop} {s : σ} {a : Action σ ε α}

theorem wp_mono (h : wp a s Q E) (hQ : ∀ x t, Q x t → R x t) (hE : ∀ e t, E e t → F e t) :
    wp a s R F := by
  simp only [wp] at h ⊢
  split at h
  · exact hQ _ _ h
  · exact hE _ _ h

theorem wp_exec (a : Action σ ε α) :
    wp a s (fun x t => a.exec s = (.ok x, t)) (fun e t => a.exec s = (.error e, t)) := by
  rw [wp]
  split <;> assumption

@[simp] theorem wp_pure (x : α) : wp (pure x : Action σ ε α) s Q E ↔ Q x s := Iff.rfl

@[simp] theorem wp_throw (e : ε) : wp (throw e : Action σ ε α) s Q E ↔ E e s := Iff.rfl

@[simp] theorem wp_get {Q : σ → σ → Prop} : wp (get : Action σ ε σ) s Q E ↔ Q s s := Iff.rfl

@[simp] theorem wp_set {Q : PUnit → σ → Prop} (t : σ) :
    wp (set t : Action σ ε PUnit) s Q E ↔ Q ⟨⟩ t := Iff.rfl

@[simp] theorem wp_bind {f : α → Action σ ε β} {Q : β → σ → Prop} :
    wp (a >>= f) s Q E ↔ wp a s (fun x t => wp (f x) t Q E) E := by
  simp only [wp, exec_bind]
  rcases a.exec s with ⟨_ | _, _⟩ <;> rfl

@[simp] theorem wp_refuse {Q : Unit → σ → Prop} (c) (e : ε) :
    wp (refuse c e) s Q E ↔ (c = true → E e s) ∧ (c = false → Q () s) := by
  cases c <;> simp [refuse]

@[simp] theorem wp_ofExcept (f : γ → ε) (x) : wp (ofExcept f x) s Q E ↔
      (∀ e, x = .error e → E (f e) s) ∧ (∀ a, x = .ok a → Q a s) := by
  cases x <;> simp [ofExcept]

@[simp] theorem wp_ite {c : Prop} [Decidable c] {b} :
    wp (if c then a else b) s Q E ↔ (c → wp a s Q E) ∧ (¬ c → wp b s Q E) := by
  by_cases hc : c <;> simp [hc]

variable {b : β} {step : β → α → Action σ ε β}

theorem wp_foldlM_done {I : List α → β → σ → Prop} (l)
    (hstep : ∀ done a b t, a ∈ l → I done b t → wp (step b a) t (I (done ++ [a])) E) {d}
    (h : I d b s) : wp (l.foldlM step b) s (I (d ++ l)) E := by
  induction l generalizing b s d with
  | nil =>
    rw [List.append_nil]
    exact h
  | cons a l ih =>
    rw [List.foldlM_cons, wp_bind]
    refine wp_mono (hstep d a b s List.mem_cons_self h) (fun b' t ht => ?_) fun _ _ he => he
    have hrest := ih (fun done x b t hx => hstep done x b t (List.mem_cons_of_mem _ hx)) ht
    rwa [List.append_assoc, List.singleton_append] at hrest

theorem wp_foldlM {I : β → σ → Prop} (l : List α)
    (hstep : ∀ b t, ∀ a ∈ l, I b t → wp (step b a) t I E) (h : I b s) :
    wp (l.foldlM step b) s I E :=
  wp_foldlM_done (I := fun _ => I) l (fun _ a b t ha => hstep b t a ha) (d := []) h

/-- Whichever way the action ends, it leaves a state with the property. -/
abbrev Ends (a : Action σ ε α) (s : σ) (P : σ → Prop) : Prop :=
  wp a s (fun _ t => P t) (fun _ t => P t)

def Keeps (P : σ → Prop) (a : Action σ ε α) : Prop :=
  ∀ s, P s → wp a s (fun _ t => P t) (fun _ t => P t)

theorem exec_of_wp {P : σ → Prop} (h : Ends a s P) : P (a.exec s).2 := by
  simp only [wp] at h
  split at h <;> simp_all

theorem Keeps.exec {P : σ → Prop} (h : Keeps P a) (hs : P s) : P (a.exec s).2 := exec_of_wp (h s hs)

theorem ok_of_wp (h : wp a s Q E) {x : α} (hx : (a.exec s).1 = .ok x) : Q x (a.exec s).2 := by
  simp only [wp] at h
  split at h <;> simp_all

theorem error_of_wp (h : wp a s Q E) (hx : ∀ x, (a.exec s).1 ≠ .ok x) : ∃ e, E e (a.exec s).2 := by
  simp only [wp] at h
  split at h
  · next x t heq => exact absurd (congrArg Prod.fst heq) (hx x)
  · next e t heq => exact ⟨e, heq ▸ h⟩

theorem exists_ok_of_wp (h : wp a s Q E) (hok : wp a s (fun _ _ => True) (fun _ _ => False)) :
    ∃ x, (a.exec s).1 = .ok x ∧ Q x (a.exec s).2 := by
  simp only [wp] at h hok
  split at h <;> simp_all

end Action

end SatoshiNet.Lib
