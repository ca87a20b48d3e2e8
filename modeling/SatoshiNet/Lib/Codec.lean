import Mathlib.Data.List.Basic

/-!
Encodings that mark their own end: whatever follows the encoding of a value, the value and what
follows it can be told apart.  Concatenation keeps this property, so a format is checked field by
field.
-/

namespace SatoshiNet.Lib

open List

variable {α β γ σ : Type*}

/-- No encoding of a value in the domain can be read as that of another one, whatever follows. -/
def SelfDelimiting (dom : α → Prop) (enc : α → List σ) : Prop :=
  ∀ ⦃a b : α⦄, dom a → dom b → ∀ ⦃r s : List σ⦄, enc a ++ r = enc b ++ s → a = b ∧ r = s

namespace SelfDelimiting

variable {dom : α → Prop} {enc : α → List σ}

theorem of_decoder (dec : List σ → Option (α × List σ))
    (hdec : ∀ a, dom a → ∀ r, dec (enc a ++ r) = some (a, r)) : SelfDelimiting dom enc := by
  intro a b ha hb r s h
  have heq : some (a, r) = some (b, s) := by rw [← hdec a ha r, h, hdec b hb s]
  exact ⟨congrArg Prod.fst (Option.some.inj heq), congrArg Prod.snd (Option.some.inj heq)⟩

theorem of_length {n : ℕ} (hlen : ∀ a, (enc a).length = n)
    (hinj : ∀ a b, dom a → dom b → enc a = enc b → a = b) : SelfDelimiting dom enc := by
  intro a b ha hb r s h
  obtain ⟨henc, hrest⟩ := append_inj h ((hlen a).trans (hlen b).symm)
  exact ⟨hinj a b ha hb henc, hrest⟩

theorem append {dom₁ : α → Prop} {enc₁ : α → List σ} {dom₂ : β → Prop} {enc₂ : β → List σ}
    (h₁ : SelfDelimiting dom₁ enc₁) (h₂ : SelfDelimiting dom₂ enc₂) :
    SelfDelimiting (fun p : α × β => dom₁ p.1 ∧ dom₂ p.2) fun p => enc₁ p.1 ++ enc₂ p.2 := by
  rintro ⟨a, a'⟩ ⟨b, b'⟩ ha hb r s h
  simp only [append_assoc] at h
  obtain ⟨rfl, hsnd⟩ := h₁ ha.1 hb.1 h
  obtain ⟨rfl, hrest⟩ := h₂ ha.2 hb.2 hsnd
  exact ⟨rfl, hrest⟩

theorem flatMap (h : SelfDelimiting dom enc) :
    ∀ {l m : List α}, l.length = m.length → (∀ a ∈ l, dom a) → (∀ a ∈ m, dom a) →
      ∀ {r s : List σ}, l.flatMap enc ++ r = m.flatMap enc ++ s → l = m ∧ r = s := by
  intro l
  induction l with
  | nil =>
    intro m hlen _ _ r s heq
    obtain rfl := length_eq_zero_iff.mp hlen.symm
    exact ⟨rfl, heq⟩
  | cons a l ih =>
    intro m hlen hl hm r s heq
    cases m with
    | nil => cases hlen
    | cons b m =>
      simp only [flatMap_cons, append_assoc] at heq
      obtain ⟨rfl, htail⟩ := h (hl a mem_cons_self) (hm b mem_cons_self) heq
      obtain ⟨rfl, hrest⟩ := ih (Nat.succ.inj hlen) (fun c hc => hl c (mem_cons_of_mem _ hc))
        (fun c hc => hm c (mem_cons_of_mem _ hc)) htail
      exact ⟨rfl, hrest⟩

theorem counted {size : ℕ → Prop} {count} (hcount : SelfDelimiting size count)
    (h : SelfDelimiting dom enc) : SelfDelimiting (fun l : List α => size l.length ∧ ∀ a ∈ l, dom a)
      fun l => count l.length ++ l.flatMap enc := by
  intro l m hl hm r s heq
  simp only [append_assoc] at heq
  obtain ⟨hlen, heq⟩ := hcount hl.1 hm.1 heq
  exact h.flatMap hlen hl.2 hm.2 heq

end SelfDelimiting

end SatoshiNet.Lib
