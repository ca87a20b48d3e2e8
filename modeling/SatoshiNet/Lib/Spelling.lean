import SatoshiNet.Lib.Reader

/-!
What a reader accepts: every step has one lemma that says exactly which inputs it accepts, what it
returns and what it leaves.
-/

namespace SatoshiNet.Lib

open List

namespace Reader

variable {ε ε' α β : Type}

def le (e : ε) (width : ℕ) : Reader ε ℕ := do
  let bytes ← Reader.mapError (fun _ => e) (full width)
  pure (leNat bytes)

/-- So many values, each within what the weights of the ones before it have left. -/
def timesWithin (r : ℕ → Reader ε α) (weight : α → ℕ) : ℕ → ℕ → Reader ε (List α × ℕ)
  | 0, room => pure ([], room)
  | n + 1, room => do
    let a ← r room
    let rest ← timesWithin r weight n (room - weight a)
    pure (a :: rest.1, rest.2)

variable {data rest : Bytes} {n : ℕ} {a : α} {e : ε} {r : Reader ε α}

theorem run_pure {b : α} : (pure a : Reader ε α) data = .ok (b, rest) ↔ b = a ∧ data = rest := by
  show Except.ok (a, data) = _ ↔ _
  rw [Except.ok.injEq, Prod.mk.injEq, eq_comm (a := a)]

theorem run_bind {f} {b : β} :
    (r >>= f) data = .ok (b, rest) ↔ ∃ a mid, r data = .ok (a, mid) ∧ f a mid = .ok (b, rest) := by
  show Except.bind (r data) (fun x => f x.1 x.2) = _ ↔ _
  cases r data with
  | error e => exact ⟨nofun, nofun⟩
  | ok x =>
    constructor
    · intro h
      exact ⟨x.1, x.2, rfl, h⟩
    · rintro ⟨a, mid, hx, h⟩
      cases hx
      exact h

theorem run_check {c u} : check c e data = .ok (u, rest) ↔ c = true ∧ data = rest := by
  cases c with
  | false => exact ⟨nofun, nofun⟩
  | true =>
    show (pure () : Reader ε Unit) data = _ ↔ _
    rw [run_pure]
    exact ⟨fun h => ⟨rfl, h.2⟩, fun h => ⟨rfl, h.2⟩⟩

theorem run_mapError {f : ε → ε'} {x} : mapError f r data = .ok x ↔ r data = .ok x := mapError_eq_ok

theorem run_ofResult {x : Except ε α} :
    ofResult x data = .ok (a, rest) ↔ x = .ok a ∧ data = rest := by
  cases x with
  | error e => exact ⟨nofun, nofun⟩
  | ok b => simp [ofResult, Except.map]

theorem run_left : (left : Reader ε ℕ) data = .ok (n, rest) ↔ n = data.length ∧ data = rest := by
  rw [left, Except.ok.injEq, Prod.mk.injEq, eq_comm (a := data.length)]

theorem run_byte {b} : byte data = .ok (b, rest) ↔ data = b :: rest := by
  cases data with
  | nil => exact ⟨nofun, nofun⟩
  | cons c data => simp [byte]

theorem run_full {bytes} :
    full n data = .ok (bytes, rest) ↔ bytes.length = n ∧ data = bytes ++ rest := by
  rw [full]
  split_ifs with hshort
  · refine iff_of_false (fun h => by cases h) ?_
    · rintro ⟨rfl, rfl⟩
      rw [length_append] at hshort
      omega
  rw [Except.ok.injEq, Prod.mk.injEq]
  constructor
  · rintro ⟨rfl, rfl⟩
    exact ⟨length_take_of_le (by omega), (take_append_drop n data).symm⟩
  · rintro ⟨rfl, rfl⟩
    exact ⟨take_left, drop_left⟩

theorem run_le {width : ℕ} :
    le e width data = .ok (n, rest) ↔ n < 256 ^ width ∧ data = leBytes width n ++ rest := by
  simp only [le, run_bind, run_mapError, run_full, run_pure]
  constructor
  · rintro ⟨bytes, _, ⟨rfl, rfl⟩, rfl, rfl⟩
    exact ⟨leNat_lt bytes, by rw [leBytes_leNat]⟩
  · rintro ⟨hn, rfl⟩
    exact ⟨leBytes width n, rest, ⟨leBytes_length width n, rfl⟩, (leNat_leBytes width n hn).symm, rfl⟩

end Reader

variable {data rest : Bytes} {n : ℕ}

theorem readUvarintIn_eq_ok {more : ℕ} (h : readUvarintIn more data = .ok (n, rest)) :
    ∃ used, used ≠ [] ∧ data = used ++ rest ∧ n < 2 ^ (7 * more + 1) ∧
      (used.length = (uvarintIn more n).length → used = uvarintIn more n) := by
  induction more generalizing n data with
  | zero =>
    cases data with
    | nil => cases h
    | cons b data =>
      rw [readUvarintIn] at h
      split at h
      · cases h
      · cases h
        refine ⟨[b], cons_ne_nil _ _, rfl, by omega, fun _ => ?_⟩
        rw [uvarintIn, UInt8.ofNat_toNat]
  | succ more ih =>
    cases data with
    | nil => cases h
    | cons b data =>
      rw [readUvarintIn] at h
      split_ifs at h with hb
      · cases h
        have hpow : 2 ^ 7 ≤ 2 ^ (7 * (more + 1) + 1) := Nat.pow_le_pow_right (by decide) (by omega)
        refine ⟨[b], cons_ne_nil _ _, rfl, by omega, fun _ => ?_⟩
        rw [uvarintIn, if_pos hb, UInt8.ofNat_toNat]
      obtain ⟨⟨high, rest'⟩, hread, heq⟩ := map_eq_ok.mp h
      cases heq
      obtain ⟨used, hne, rfl, hlt, hcanonical⟩ := ih hread
      have hbyte : b.toNat < 256 := b.toNat_lt
      have hpow := uvarint_bound_succ more
      refine ⟨b :: used, cons_ne_nil _ _, rfl, by omega, fun hlen => ?_⟩
      have hpos := length_pos_of_ne_nil hne
      rw [uvarintIn] at hlen ⊢
      split_ifs at hlen with hlarge
      · rw [length_cons, length_singleton] at hlen
        omega
      · have hdiv : (b.toNat - 128 + 128 * high) / 128 = high := by omega
        have hmod : (b.toNat - 128 + 128 * high) % 128 + 128 = b.toNat := by omega
        rw [if_neg hlarge, hmod, hdiv, UInt8.ofNat_toNat]
        rw [hdiv, length_cons, length_cons] at hlen
        rw [hcanonical (by omega)]

theorem Reader.run_canonicalUvarint {ε : Type} {wrap} {noncanonical : ε} :
    canonicalUvarint wrap noncanonical data = .ok (n, rest) ↔
      n < 2 ^ 64 ∧ data = putUvarint n ++ rest := by
  constructor
  · intro h
    simp only [canonicalUvarint, run_bind, run_left, run_mapError, run_check, run_pure,
      decide_eq_true_eq] at h
    obtain ⟨_, _, ⟨rfl, rfl⟩, v, mid, hread, _, _, ⟨rfl, rfl⟩, _, _, ⟨hlen, rfl⟩, rfl, rfl⟩ := h
    obtain ⟨used, -, rfl, hlt, hcanonical⟩ := readUvarintIn_eq_ok hread
    refine ⟨hlt, ?_⟩
    rw [length_append, Nat.add_sub_cancel] at hlen
    rw [hcanonical hlen.symm]
    rfl
  · rintro ⟨hlt, rfl⟩
    exact Reads.canonicalUvarint hlt rest

/-! ### Formats with one spelling for each value -/

def Within {α : Type} (P : ℕ → α → Prop) (weight : α → ℕ) : ℕ → List α → Prop
  | _, [] => True
  | room, a :: l => P room a ∧ Within P weight (room - weight a) l

variable {room : ℕ}

theorem within_map {α β : Type} {P : ℕ → β → Prop} {weight : β → ℕ} {f : α → β} {l : List α} :
    Within P weight room (l.map f) ↔
      Within (fun room a => P room (f a)) (fun a => weight (f a)) room l := by
  induction l generalizing room with
  | nil => exact Iff.rfl
  | cons a l ih => exact and_congr_right fun _ => ih

theorem Within.mono {α : Type} {P Q : ℕ → α → Prop} {weight l} (h : Within P weight room l)
    (hPQ : ∀ room a, P room a → Q room a) : Within Q weight room l := by
  induction l generalizing room with
  | nil => trivial
  | cons a l ih => exact ⟨hPQ room a h.1, ih h.2⟩

theorem Within.forall_mem {α : Type} {P : ℕ → α → Prop} {weight l} {Q : α → Prop}
    (h : Within P weight room l) (hPQ : ∀ room a, P room a → Q a) : ∀ a ∈ l, Q a := by
  induction l generalizing room with
  | nil => exact forall_mem_nil _
  | cons a l ih => exact forall_mem_cons.mpr ⟨hPQ room a h.1, ih h.2⟩

/-- The reader accepts exactly the encodings of the values that have the property. -/
abbrev Spells {ε α : Type} (r : Reader ε α) (P : α → Prop) (enc : α → Bytes) : Prop :=
  ∀ {data a rest}, r data = .ok (a, rest) ↔ P a ∧ data = enc a ++ rest

namespace Spells

variable {ε ε' α : Type} {r : Reader ε α} {P : α → Prop} {enc : α → Bytes}

theorem mapError {f : ε → ε'} (h : Spells r P enc) : Spells (Reader.mapError f r) P enc :=
  Reader.run_mapError.trans h

theorem times (h : Spells r P enc) (n : ℕ) :
    Spells (Reader.times r n) (fun l => l.length = n ∧ ∀ a ∈ l, P a) (·.flatMap enc) := by
  induction n with
  | zero =>
    intro data l rest
    rw [Reader.times, Reader.run_pure]
    constructor
    · rintro ⟨rfl, rfl⟩
      exact ⟨⟨rfl, forall_mem_nil _⟩, rfl⟩
    · rintro ⟨⟨hlen, -⟩, rfl⟩
      obtain rfl := length_eq_zero_iff.mp hlen
      exact ⟨rfl, rfl⟩
  | succ n ih =>
    intro data l rest
    simp only [Reader.times, Reader.run_bind, Reader.run_pure]
    constructor
    · rintro ⟨a, mid, ha, l', rest', hl, rfl, rfl⟩
      obtain ⟨hPa, rfl⟩ := h.mp ha
      obtain ⟨⟨rfl, hPl⟩, rfl⟩ := ih.mp hl
      refine ⟨⟨rfl, forall_mem_cons.mpr ⟨hPa, hPl⟩⟩, ?_⟩
      rw [flatMap_cons, append_assoc]
    · rintro ⟨⟨hlen, hP⟩, rfl⟩
      cases l with
      | nil => cases hlen
      | cons a l =>
        obtain ⟨hPa, hPl⟩ := forall_mem_cons.mp hP
        refine ⟨a, l.flatMap enc ++ rest, h.mpr ⟨hPa, ?_⟩, l, rest,
          ih.mpr ⟨⟨Nat.succ.inj hlen, hPl⟩, rfl⟩, rfl, rfl⟩
        rw [flatMap_cons, append_assoc]

theorem timesWithin (weight) {r : ℕ → Reader ε α} {P : ℕ → α → Prop}
    (h : ∀ room, Spells (r room) (P room) enc) (n room : ℕ) :
    Spells (Reader.timesWithin r weight n room) (fun x => x.1.length = n ∧ Within P weight room x.1 ∧
      x.2 = room - (x.1.map weight).sum) (·.1.flatMap enc) := by
  induction n generalizing room with
  | zero =>
    intro data x rest
    rw [Reader.timesWithin, Reader.run_pure]
    constructor
    · rintro ⟨rfl, rfl⟩
      exact ⟨⟨rfl, trivial, rfl⟩, rfl⟩
    · obtain ⟨l, left⟩ := x
      rintro ⟨⟨hlen, -, hleft⟩, rfl⟩
      obtain rfl := length_eq_zero_iff.mp hlen
      exact ⟨Prod.ext rfl hleft, rfl⟩
  | succ n ih =>
    intro data x rest
    simp only [Reader.timesWithin, Reader.run_bind, Reader.run_pure]
    constructor
    · rintro ⟨a, mid, ha, ⟨l, left⟩, _, hl, rfl, rfl⟩
      obtain ⟨hPa, rfl⟩ := (h room).mp ha
      obtain ⟨⟨hlen, hPl, hleft⟩, rfl⟩ := (ih _).mp hl
      refine ⟨⟨congrArg Nat.succ hlen, ⟨hPa, hPl⟩, ?_⟩, ?_⟩
      · simp only [map_cons, sum_cons] at hleft ⊢
        omega
      · simp
    · obtain ⟨l, left⟩ := x
      rintro ⟨⟨hlen, hP, hleft⟩, rfl⟩
      cases l with
      | nil => cases hlen
      | cons a l =>
        simp only [map_cons, sum_cons] at hleft
        refine ⟨a, l.flatMap enc ++ rest, (h room).mpr ⟨hP.1, ?_⟩, (l, left), rest,
          (ih _).mpr ⟨⟨Nat.succ.inj hlen, hP.2, hleft.trans (Nat.sub_sub _ _ _).symm⟩, rfl⟩, rfl, rfl⟩
        simp

end Spells

end SatoshiNet.Lib
