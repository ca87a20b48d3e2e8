import Mathlib.Algebra.BigOperators.Group.List.Basic

/-!
Rules for programs in `Except` that loop over a list.
-/

namespace SatoshiNet.Lib

open List

universe u

variable {S A E α β : Type u} {x : Except E α} {a : α}

theorem bind_eq_ok {f : α → Except E β} {r : β} :
    (x >>= f) = .ok r ↔ ∃ a, x = .ok a ∧ f a = .ok r := by
  cases x <;> simp [bind, Except.bind]

variable {c : Bool} {e : E} {r : PUnit.{u + 1}} {s s' : S} {step : S → A → Except E S}

theorem bind_eq_error {f : α → Except E β} :
    (x >>= f) = .error e ↔ x = .error e ∨ ∃ a, x = .ok a ∧ f a = .error e := by
  cases x <;> simp [bind, Except.bind]

theorem ite_error_eq_ok {c : Prop} [Decidable c] {r : α} :
    (if c then .error e else x) = .ok r ↔ ¬ c ∧ x = .ok r := by
  by_cases hc : c <;> simp [hc]

def require (c : Bool) (e : E) : Except E PUnit.{u + 1} := if c then .ok ⟨⟩ else .error e

theorem require_eq_ok : require c e = .ok r ↔ c = true := by
  cases c <;> simp [require]

theorem require_eq_error {e' : E} : require c e = .error e' ↔ c = false ∧ e = e' := by
  cases c <;> simp [require]

def orError (o : Option α) (e : E) : Except E α :=
  match o with
  | none => .error e
  | some a => .ok a

theorem orError_eq_ok {o} : orError o e = .ok a ↔ o = some a := by
  cases o <;> simp [orError]

theorem mapError_eq_ok {F : Type*} {f : E → F} : x.mapError f = .ok a ↔ x = .ok a := by
  cases x <;> simp [Except.mapError]

theorem map_eq_ok {α β : Type*} {x : Except E α} {f : α → β} {b : β} :
    x.map f = .ok b ↔ ∃ a, x = .ok a ∧ f a = b := by
  cases x <;> simp [Except.map]

section Forall₂

variable {α β : Type*} {R : α → β → Prop} {l : List α} {l' : List β}

theorem exists_of_forall₂_left (h : Forall₂ R l l') {a : α} (ha : a ∈ l) : ∃ b ∈ l', R a b := by
  induction h with
  | nil => cases ha
  | cons hab _ ih =>
    rcases mem_cons.mp ha with rfl | ha
    · exact ⟨_, mem_cons_self, hab⟩
    · obtain ⟨b, hb, hrel⟩ := ih ha
      exact ⟨b, mem_cons_of_mem _ hb, hrel⟩

theorem exists_of_forall₂_right (h : Forall₂ R l l') {b : β} (hb : b ∈ l') : ∃ a ∈ l, R a b :=
  exists_of_forall₂_left h.flip hb

theorem map_eq_of_forall₂ {γ : Type*} {g : β → γ} {k : α → γ} (h : Forall₂ R l l')
    (hg : ∀ a b, R a b → g b = k a) : l'.map g = l.map k := by
  induction h with
  | nil => rfl
  | cons hab _ ih => rw [map_cons, map_cons, hg _ _ hab, ih]

end Forall₂

section MapM

variable {f : α → Except E β} {l : List α} {bs : List β}

theorem mapM_cons_eq_ok :
    (a :: l).mapM f = .ok bs ↔ ∃ b, f a = .ok b ∧ ∃ rest, l.mapM f = .ok rest ∧ b :: rest = bs := by
  simp [bind_eq_ok, pure, Except.pure]

theorem mapM_eq_ok (d : β) (h : l.mapM f = .ok bs) : bs = l.map (fun a => (f a).toOption.getD d) ∧
      ∀ a ∈ l, f a = .ok ((f a).toOption.getD d) := by
  induction l generalizing bs with
  | nil => exact ⟨(Except.ok.inj h).symm, forall_mem_nil _⟩
  | cons a l ih =>
    obtain ⟨b, hb, rest, hrest, rfl⟩ := mapM_cons_eq_ok.mp h
    obtain ⟨rfl, hall⟩ := ih hrest
    rw [forall_mem_cons, map_cons, hb]
    exact ⟨rfl, rfl, hall⟩

theorem mapM_eq_ok_iff {g} (hg : ∀ a b, f a = .ok b → g a = b) :
    l.mapM f = .ok bs ↔ (∀ a ∈ l, ∃ b, f a = .ok b) ∧ l.map g = bs := by
  induction l generalizing bs with
  | nil => simp [pure, Except.pure]
  | cons a l ih =>
    rw [mapM_cons_eq_ok]
    constructor
    · rintro ⟨b, hb, rest, hrest, rfl⟩
      obtain ⟨hall, rfl⟩ := ih.mp hrest
      exact ⟨forall_mem_cons.mpr ⟨⟨b, hb⟩, hall⟩, by rw [map_cons, hg a b hb]⟩
    · rintro ⟨hall, rfl⟩
      obtain ⟨⟨b, hb⟩, hall⟩ := forall_mem_cons.mp hall
      exact ⟨b, hb, _, ih.mpr ⟨hall, rfl⟩, by rw [map_cons, hg a b hb]⟩

theorem forall₂_of_mapM (h : l.mapM f = .ok bs) : Forall₂ (fun a b => f a = .ok b) l bs := by
  induction l generalizing bs with
  | nil =>
    cases h
    exact .nil
  | cons a l ih =>
    obtain ⟨b, hb, rest, hrest, rfl⟩ := mapM_cons_eq_ok.mp h
    exact .cons hb (ih hrest)

theorem exists_of_mem_mapM (h : l.mapM f = .ok bs) {b : β} (hb : b ∈ bs) : ∃ a ∈ l, f a = .ok b :=
  exists_of_forall₂_right (forall₂_of_mapM h) hb

theorem map_of_mapM {γ : Type*} {g : β → γ} {k : α → γ} (hf : ∀ a b, f a = .ok b → g b = k a)
    (h : l.mapM f = .ok bs) : bs.map g = l.map k :=
  map_eq_of_forall₂ (forall₂_of_mapM h) hf

theorem forall_flatten_of_mapM {f : α → Except E (List β)}
    {bss : List (List β)} {P : β → Prop} (h : l.mapM f = .ok bss)
    (hf : ∀ a ∈ l, ∀ bs, f a = .ok bs → ∀ b ∈ bs, P b) : ∀ b ∈ bss.flatten, P b := by
  intro b hb
  obtain ⟨bs, hbs, hb⟩ := mem_flatten.mp hb
  obtain ⟨a, ha, hfa⟩ := exists_of_mem_mapM h hbs
  exact hf a ha bs hfa b hb

theorem exists_mem_of_mapM (h : l.mapM f = .ok bs) (ha : a ∈ l) : ∃ b ∈ bs, f a = .ok b :=
  exists_of_forall₂_left (forall₂_of_mapM h) ha

theorem exists_mapM_ok (h : ∀ a ∈ l, ∃ b, f a = .ok b) : ∃ bs, l.mapM f = .ok bs := by
  induction l with
  | nil => exact ⟨[], rfl⟩
  | cons a l ih =>
    obtain ⟨⟨b, hb⟩, hrest⟩ := forall_mem_cons.mp h
    obtain ⟨bs, hbs⟩ := ih hrest
    exact ⟨b :: bs, mapM_cons_eq_ok.mpr ⟨b, hb, bs, hbs, rfl⟩⟩

end MapM

theorem forM_eq_ok {f : α → Except E PUnit.{u + 1}} {l : List α} :
    l.forM f = .ok r ↔ ∀ a ∈ l, f a = .ok ⟨⟩ := by
  induction l with
  | nil => exact ⟨fun _ => forall_mem_nil _, fun _ => rfl⟩
  | cons a l ih =>
    show (f a >>= fun _ => l.forM f) = .ok r ↔ _
    rw [bind_eq_ok, forall_mem_cons, ← ih]
    exact ⟨fun ⟨_, ha, hl⟩ => ⟨ha, hl⟩, fun ⟨ha, hl⟩ => ⟨⟨⟩, ha, hl⟩⟩

theorem exists_of_isOk (h : x.isOk = true) : ∃ a, x = .ok a := by
  cases x with
  | error e => cases h
  | ok a => exact ⟨a, rfl⟩

theorem eq_ok_of_toOption {ε α : Type*} {x : Except ε α} {a : α} (h : x.toOption = some a) :
    x = .ok a := by
  cases x with
  | error _ => cases h
  | ok b => rw [Option.some.inj h]

theorem exists_of_any {p : α → Bool} (h : x.toOption.any p = true) :
    ∃ a, x = .ok a ∧ p a = true := by
  cases x with
  | error e => cases h
  | ok a => exact ⟨a, rfl, h⟩

def checkWhen (c : Bool) (x : Except E PUnit.{u + 1}) : Except E PUnit.{u + 1} :=
  if c then x else .ok ⟨⟩

theorem checkWhen_eq_ok {x : Except E PUnit.{u + 1}} :
    checkWhen c x = .ok r ↔ (c → x = .ok ⟨⟩) := by
  cases c <;> simp [checkWhen]

theorem foldlM_cons_eq_ok {a : A} {l : List A} :
    (a :: l).foldlM step s = .ok s' ↔ ∃ t, step s a = .ok t ∧ l.foldlM step t = .ok s' := by
  rw [foldlM_cons]
  exact bind_eq_ok

theorem foldlM_steps {l : List A} (h : l.foldlM step s = .ok s') :
    ∀ a ∈ l, ∃ t t', step t a = .ok t' := by
  induction l generalizing s with
  | nil => simp
  | cons a l ih =>
    obtain ⟨t, ht, hl⟩ := foldlM_cons_eq_ok.mp h
    exact forall_mem_cons.mpr ⟨⟨s, t, ht⟩, ih hl⟩

theorem foldlM_invariant {I : S → Prop} (l : List A)
    (hstep : ∀ s s', ∀ a ∈ l, I s → step s a = .ok s' → I s') (hs : I s)
    (h : l.foldlM step s = .ok s') : I s' := by
  induction l generalizing s with
  | nil => exact Except.ok.inj h ▸ hs
  | cons a l ih =>
    obtain ⟨t, ht, hl⟩ := foldlM_cons_eq_ok.mp h
    exact ih (fun s s' b hb => hstep s s' b (mem_cons_of_mem _ hb))
      (hstep s t a mem_cons_self hs ht) hl

theorem foldlM_measure {M : Type*} [AddMonoid M] {f : S → M} {w : A → M} (l : List A)
    (hstep : ∀ s s', ∀ a ∈ l, step s a = .ok s' → f s' = f s + w a) (h : l.foldlM step s = .ok s') :
    f s' = f s + (l.map w).sum := by
  induction l generalizing s with
  | nil =>
    cases h
    exact (add_zero _).symm
  | cons a l ih =>
    obtain ⟨t, ht, hl⟩ := foldlM_cons_eq_ok.mp h
    rw [ih (fun s s' b hb => hstep s s' b (mem_cons_of_mem _ hb)) hl,
      hstep s t a mem_cons_self ht, map_cons, sum_cons, add_assoc]

/-! ### A pass that may change every element and carries a state along -/

def walk (f : S → A → Except E (S × A)) : S → List A → Except E (S × List A)
  | s, [] => .ok (s, [])
  | s, a :: l => do
    let (s', a') ← f s a
    let (t, l') ← walk f s' l
    .ok (t, a' :: l')

variable {f : S → A → Except E (S × A)} {l l' : List A} {r : S × List A} {s t : S}

theorem walk_nil_eq_ok : walk f s [] = .ok r ↔ r = (s, []) := by
  rw [walk, Except.ok.injEq, eq_comm]

theorem walk_cons_eq_ok {a : A} : walk f s (a :: l) = .ok r ↔
      ∃ s' a', f s a = .ok (s', a') ∧ ∃ t l', walk f s' l = .ok (t, l') ∧ r = (t, a' :: l') := by
  rw [walk, bind_eq_ok]
  constructor
  · rintro ⟨⟨s', a'⟩, hf, h⟩
    obtain ⟨⟨t, l'⟩, hrest, h⟩ := bind_eq_ok.mp h
    exact ⟨s', a', hf, t, l', hrest, (Except.ok.inj h).symm⟩
  · rintro ⟨s', a', hf, t, l', hrest, rfl⟩
    exact ⟨(s', a'), hf, bind_eq_ok.mpr ⟨(t, l'), hrest, rfl⟩⟩

theorem walk_append_eq_ok {k} : walk f s (k ++ l) = .ok r ↔
      ∃ t k', walk f s k = .ok (t, k') ∧ ∃ u l', walk f t l = .ok (u, l') ∧ r = (u, k' ++ l') := by
  induction k generalizing s r with
  | nil =>
    constructor
    · intro h
      exact ⟨s, [], rfl, r.1, r.2, h, rfl⟩
    · rintro ⟨t, k', hk, u, l', hl, rfl⟩
      cases hk
      exact hl
  | cons a k ih =>
    rw [cons_append, walk_cons_eq_ok]
    constructor
    · rintro ⟨s', a', hf, t, rest, hrest, rfl⟩
      obtain ⟨t', k', hk, u, l', hl, heq⟩ := ih.mp hrest
      cases heq
      exact ⟨t', a' :: k', walk_cons_eq_ok.mpr ⟨s', a', hf, t', k', hk, rfl⟩, t, l', hl, rfl⟩
    · rintro ⟨t, k', hk, u, l', hl, rfl⟩
      obtain ⟨s', a', hf, t', rest, hrest, heq⟩ := walk_cons_eq_ok.mp hk
      cases heq
      exact ⟨s', a', hf, u, rest ++ l', ih.mpr ⟨t, rest, hrest, u, l', hl, rfl⟩, rfl⟩

theorem walk_forall₂ {I : S → Prop} {R : A → A → Prop} (l)
    (hstep : ∀ s a s' a', a ∈ l → I s → f s a = .ok (s', a') → I s' ∧ R a a') (hs : I s)
    (h : walk f s l = .ok (t, l')) : I t ∧ Forall₂ R l l' := by
  induction l generalizing s l' with
  | nil =>
    cases h
    exact ⟨hs, .nil⟩
  | cons a l ih =>
    obtain ⟨s', a', hf, t', rest, hrest, heq⟩ := walk_cons_eq_ok.mp h
    cases heq
    obtain ⟨hs', hrel⟩ := hstep s a s' a' mem_cons_self hs hf
    obtain ⟨ht, hall⟩ := ih (fun s b s' b' hb => hstep s b s' b' (mem_cons_of_mem _ hb)) hs' hrest
    exact ⟨ht, .cons hrel hall⟩

theorem walk_invariant {I : S → Prop} (l)
    (hstep : ∀ s a s' a', a ∈ l → I s → f s a = .ok (s', a') → I s') (hs : I s)
    (h : walk f s l = .ok (t, l')) : I t :=
  (walk_forall₂ (R := fun _ _ => True) l
    (fun s a s' a' ha hI hf => ⟨hstep s a s' a' ha hI hf, trivial⟩) hs h).1

theorem walk_measure {M : Type*} [AddCommMonoid M] {I : S → Prop} {m : S → M} {w : A → M} (l)
    (hstep : ∀ s a s' a', a ∈ l → I s → f s a = .ok (s', a') → I s' ∧ m s' + w a' = m s + w a)
    (hs : I s) (h : walk f s l = .ok (t, l')) : m t + (l'.map w).sum = m s + (l.map w).sum := by
  induction l generalizing s l' with
  | nil =>
    cases h
    rfl
  | cons a l ih =>
    obtain ⟨s', a', hf, t', rest, hrest, heq⟩ := walk_cons_eq_ok.mp h
    cases heq
    obtain ⟨hs', hbalance⟩ := hstep s a s' a' mem_cons_self hs hf
    have hrec := ih (fun s b s' b' hb => hstep s b s' b' (mem_cons_of_mem _ hb)) hs' hrest
    calc m t + ((a' :: rest).map w).sum
        = w a' + (m t + (rest.map w).sum) := by rw [map_cons, sum_cons, add_left_comm]
      _ = (m s' + w a') + (l.map w).sum := by rw [hrec, ← add_assoc, add_comm (w a')]
      _ = m s + ((a :: l).map w).sum := by
        rw [hbalance, map_cons, sum_cons, add_assoc]

end SatoshiNet.Lib
