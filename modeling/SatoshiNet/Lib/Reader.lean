import Mathlib.Data.Nat.Digits.Lemmas
import SatoshiNet.Lib.Bytes
import SatoshiNet.Lib.Fold

/-!
Readers of binary formats.  That a reader reads a value from an encoding, whatever follows, is a
property that sequencing, repetition and checks keep, so a format is checked along the structure of
its reader.
-/

namespace SatoshiNet.Lib

open List

inductive ReadError
  | unexpectedEOF | overflow
deriving DecidableEq

abbrev Reader (ε α : Type) := StateT Bytes (Except ε) α

namespace Reader

variable {ε ε' α β σ : Type}

def fail (e : ε) : Reader ε α := fun _ => .error e

def check (c : Bool) (e : ε) : Reader ε Unit := if c then pure () else fail e

def ofResult (x : Except ε α) : Reader ε α := fun data => x.map (·, data)

def mapError (f : ε → ε') (r : Reader ε α) : Reader ε' α := fun data => (r data).mapError f

def left : Reader ε ℕ := fun data => .ok (data.length, data)

def more (e : ε) : Reader ε Unit := fun data => if data = [] then .error e else .ok ((), data)

def byte : Reader ReadError UInt8
  | [] => .error .unexpectedEOF
  | b :: rest => .ok (b, rest)

def full (n : ℕ) : Reader ReadError Bytes := fun data =>
  if data.length < n then .error .unexpectedEOF else .ok (data.take n, data.drop n)

def iterate (step : ℕ → σ → Reader ε σ) : ℕ → ℕ → σ → Reader ε σ
  | _, 0, s => pure s
  | i, n + 1, s => do
    let s' ← step i s
    iterate step (i + 1) n s'

def times (r : Reader ε α) : ℕ → Reader ε (List α)
  | 0 => pure []
  | n + 1 => do
    let a ← r
    let rest ← times r n
    pure (a :: rest)

end Reader

/-! ### Numbers -/

/-- Seven bits a byte, the lowest first; ten bytes hold every number of 64 bits. -/
def uvarintIn : ℕ → ℕ → Bytes
  | 0, n => [UInt8.ofNat n]
  | more + 1, n =>
    if n < 128 then [UInt8.ofNat n] else UInt8.ofNat (n % 128 + 128) :: uvarintIn more (n / 128)

def putUvarint (n : ℕ) : Bytes := uvarintIn 9 n

def readUvarintIn : ℕ → Reader ReadError ℕ
  | _, [] => .error .unexpectedEOF
  | 0, b :: rest => if 1 < b.toNat then .error .overflow else .ok (b.toNat, rest)
  | more + 1, b :: rest =>
    if b.toNat < 128 then .ok (b.toNat, rest)
    else (readUvarintIn more rest).map fun r => (b.toNat - 128 + 128 * r.1, r.2)

def readUvarint : Reader ReadError ℕ := readUvarintIn 9

def Reader.canonicalUvarint {ε : Type} (wrap : ReadError → ε) (noncanonical : ε) : Reader ε ℕ := do
  let before ← left
  let v ← Reader.mapError wrap readUvarint
  let after ← left
  check ((putUvarint v).length = before - after) noncanonical
  pure v

variable {n : ℕ}

theorem uvarint_bound_succ (more : ℕ) : 2 ^ (7 * (more + 1) + 1) = 2 ^ (7 * more + 1) * 128 := by
  rw [show 7 * (more + 1) + 1 = 7 * more + 1 + 7 from by omega, pow_add]
  rfl

theorem readUvarintIn_uvarintIn (more : ℕ) (h : n < 2 ^ (7 * more + 1)) (rest) :
    readUvarintIn more (uvarintIn more n ++ rest) = .ok (n, rest) := by
  have hbyte : ∀ {k : ℕ}, k < 256 → (UInt8.ofNat k).toNat = k := by
    intro k hk
    rw [UInt8.toNat_ofNat', Nat.mod_eq_of_lt hk]
  induction more generalizing n with
  | zero =>
    have hn : (UInt8.ofNat n).toNat = n := hbyte (by omega)
    rw [uvarintIn, singleton_append, readUvarintIn, hn, if_neg (by omega)]
  | succ more ih =>
    rw [uvarintIn]
    by_cases hsmall : n < 128
    · rw [if_pos hsmall, singleton_append, readUvarintIn, hbyte (by omega), if_pos hsmall]
    have hdiv : n / 128 < 2 ^ (7 * more + 1) := by
      have hpow := uvarint_bound_succ more
      omega
    rw [if_neg hsmall, cons_append, readUvarintIn, hbyte (by omega), if_neg (by omega), ih hdiv]
    simp only [Except.map, Except.ok.injEq, Prod.mk.injEq, and_true]
    omega

theorem uvarintIn_ne_nil (more n : ℕ) : uvarintIn more n ≠ [] := by
  cases more with
  | zero => exact cons_ne_nil _ _
  | succ more =>
    rw [uvarintIn]
    split <;> exact cons_ne_nil _ _

theorem putUvarint_pos (n : ℕ) : 0 < (putUvarint n).length :=
  length_pos_of_ne_nil (uvarintIn_ne_nil 9 n)

def beNat (bytes : Bytes) : ℕ := leNat bytes.reverse

def beBytes (width n : ℕ) : Bytes := (leBytes width n).reverse

@[simp] theorem beBytes_length (width n : ℕ) : (beBytes width n).length = width := by
  rw [beBytes, length_reverse, leBytes_length]

theorem beNat_beBytes {width : ℕ} (h : n < 256 ^ width) : beNat (beBytes width n) = n := by
  rw [beNat, beBytes, reverse_reverse, leNat_leBytes width n h]

def natBytes (n : ℕ) : Bytes := ((Nat.digits 256 n).map UInt8.ofNat).reverse

theorem leNat_map_ofNat {digits} (h : ∀ d ∈ digits, d < 256) :
    leNat (digits.map UInt8.ofNat) = Nat.ofDigits 256 digits := by
  induction digits with
  | nil => rfl
  | cons d digits ih =>
    obtain ⟨hd, hdigits⟩ := forall_mem_cons.mp h
    rw [map_cons, leNat, ih hdigits, Nat.ofDigits_cons, UInt8.toNat_ofNat', Nat.mod_eq_of_lt hd]

theorem beNat_natBytes (n : ℕ) : beNat (natBytes n) = n := by
  rw [beNat, natBytes, reverse_reverse,
    leNat_map_ofNat fun d hd => Nat.digits_lt_base (by decide) hd, Nat.ofDigits_digits]

theorem natBytes_length_le {k : ℕ} (h : n < 256 ^ k) : (natBytes n).length ≤ k := by
  rw [natBytes, length_reverse, length_map]
  exact (Nat.digits_length_le_iff (by decide) n).mpr h

theorem head?_natBytes_ne_zero (n : ℕ) : (natBytes n).head? ≠ some 0 := by
  intro h
  have hne : n ≠ 0 := by
    rintro rfl
    simp [natBytes] at h
  rw [natBytes, head?_reverse, getLast?_map,
    getLast?_eq_some_getLast (Nat.digits_ne_nil_iff_ne_zero.mpr hne), Option.map_some] at h
  have hlast := Nat.getLast_digit_ne_zero 256 hne
  have hlt := Nat.digits_lt_base (b := 256) (m := n) (by decide)
    (getLast_mem (Nat.digits_ne_nil_iff_ne_zero.mpr hne))
  have hzero := congrArg UInt8.toNat (Option.some.inj h)
  rw [UInt8.toNat_ofNat', Nat.mod_eq_of_lt hlt] at hzero
  exact hlast hzero

theorem natBytes_eq_nil_iff : natBytes n = [] ↔ n = 0 := by
  rw [natBytes, reverse_eq_nil_iff, map_eq_nil_iff, Nat.digits_eq_nil_iff_eq_zero]

/-- A signed number of 64 bits as an unsigned one, small numbers of both signs staying small. -/
def zigzag (v : ℤ) : ℕ := if v < 0 then (-2 * v - 1).toNat else (2 * v).toNat

def unzigzag (n : ℕ) : ℤ := if n % 2 = 0 then n / 2 else -(n / 2) - 1

theorem unzigzag_zigzag (v : ℤ) : unzigzag (zigzag v) = v := by
  unfold unzigzag zigzag
  split_ifs <;> omega

theorem zigzag_lt {v : ℤ} (hlow : -2 ^ 63 ≤ v) (hhigh : v < 2 ^ 63) : zigzag v < 2 ^ 64 := by
  unfold zigzag
  split <;> omega

theorem length_mul_le_flatMap {α : Type*} {enc : α → Bytes} {min : ℕ} {l : List α}
    (h : ∀ a ∈ l, min ≤ (enc a).length) : l.length * min ≤ (l.flatMap enc).length := by
  induction l with
  | nil => simp
  | cons a l ih =>
    obtain ⟨ha, hl⟩ := forall_mem_cons.mp h
    have hrest := ih hl
    rw [length_cons, flatMap_cons, length_append, Nat.add_mul]
    omega

theorem length_le_flatMap {α : Type*} (enc : α → Bytes) {l : List α} {a : α} (ha : a ∈ l) :
    (enc a).length ≤ (l.flatMap enc).length :=
  (sublist_flatten_of_mem (mem_map_of_mem ha)).length_le

/-! ### What a reader reads -/

/-- From the encoding, whatever follows it, the reader reads the value and leaves what follows. -/
def Reads {ε α : Type} (r : Reader ε α) (bytes : Bytes) (a : α) : Prop :=
  ∀ rest, r (bytes ++ rest) = .ok (a, rest)

namespace Reads

open Reader

variable {ε ε' α β σ : Type}

theorem pure (a : α) : Reads (Pure.pure a : Reader ε α) [] a := fun _ => rfl

variable {a : α} {b : β} {bytes : Bytes} {r : Reader ε α}

theorem bind {f} {bytes'} (hr : Reads r bytes a) (hf : Reads (f a) bytes' b) :
    Reads (r >>= f) (bytes ++ bytes') b := by
  intro rest
  show Except.bind (r (bytes ++ bytes' ++ rest)) _ = _
  rw [append_assoc, hr]
  exact hf rest

variable {c : Bool} {enc : α → Bytes} {f : α → β} {l : List α} {n : ℕ} {x : Except ε α}

theorem map (hr : Reads r bytes a) : Reads (r >>= fun x => Pure.pure (f x)) bytes (f a) := by
  rw [← append_nil bytes]
  exact hr.bind (pure (f a))

theorem map_eq (hr : Reads r bytes a) (hf : f a = b) :
    Reads (r >>= fun x => Pure.pure (f x)) bytes b :=
  hf ▸ hr.map

theorem check (h : c = true) (e : ε) : Reads (Reader.check c e) [] () := by
  intro rest
  rw [Reader.check, if_pos h]
  rfl

theorem check_bind {e : ε} {f} (h : c = true) (hf : Reads (f ()) bytes b) :
    Reads (Reader.check c e >>= f) bytes b :=
  (check h e).bind hf

theorem ofResult (h : x = .ok a) : Reads (Reader.ofResult x) [] a := by
  intro rest
  rw [h]
  rfl

theorem ofResult_bind {f} (h : x = .ok a) (hf : Reads (f a) bytes b) :
    Reads (Reader.ofResult x >>= f) bytes b :=
  (ofResult h).bind hf

theorem mapError {f : ε → ε'} (hr : Reads r bytes a) : Reads (Reader.mapError f r) bytes a := by
  intro rest
  rw [Reader.mapError, hr]
  rfl

theorem byte (b) : Reads Reader.byte [b] b := fun _ => rfl

theorem full (bytes) : Reads (Reader.full bytes.length) bytes bytes := by
  intro rest
  rw [Reader.full, if_neg (by rw [length_append]; omega), take_left, drop_left]

theorem uvarint (h : n < 2 ^ 64) : Reads readUvarint (putUvarint n) n :=
  fun rest => readUvarintIn_uvarintIn 9 h rest

theorem canonicalUvarint {wrap} {noncanonical : ε} (h : n < 2 ^ 64) :
    Reads (Reader.canonicalUvarint wrap noncanonical) (putUvarint n) n := by
  intro rest
  have hread := uvarint h rest
  have hlen : (putUvarint n).length = (putUvarint n ++ rest).length - rest.length := by
    rw [length_append]
    omega
  simp only [Reader.canonicalUvarint, left, Reader.mapError, Bind.bind, StateT.bind, Except.bind, hread,
    Except.mapError, Reader.check, decide_eq_true hlen, if_true]
  rfl

theorem iterate {step : ℕ → σ → Reader ε σ} (next) {s : σ} (i : ℕ)
    (h : ∀ before a after, l = before ++ a :: after → Reads (step (i + before.length) (before.foldl
      next s)) (enc a) ((before ++ [a]).foldl next s)) :
    Reads (Reader.iterate step i l.length s) (l.flatMap enc) (l.foldl next s) := by
  induction l generalizing i s with
  | nil => exact pure s
  | cons a l ih =>
    refine (h [] a l rfl).bind (ih (i + 1) fun before b after hl => ?_)
    have hstep := h (a :: before) b after (by rw [hl, cons_append])
    rw [length_cons] at hstep
    rwa [Nat.add_assoc, Nat.add_comm 1]

theorem times (h : ∀ a ∈ l, Reads r (enc a) a) :
    Reads (Reader.times r l.length) (l.flatMap enc) l := by
  induction l with
  | nil => exact pure []
  | cons a l ih =>
    obtain ⟨ha, hl⟩ := forall_mem_cons.mp h
    exact ha.bind (ih hl).map

theorem run_eq (h : Reads r bytes a) : r bytes = .ok (a, []) := by
  have hnil := h []
  rwa [append_nil] at hnil

end Reads

def ReadsMore {ε α : Type} (r : Reader ε α) (bytes : Bytes) (a : α) : Prop :=
  ∀ rest, rest ≠ [] → r (bytes ++ rest) = .ok (a, rest)

theorem Reads.readsMore {ε α : Type} {r : Reader ε α} {bytes : Bytes} {a : α} (h : Reads r bytes a) :
    ReadsMore r bytes a := fun rest _ => h rest

namespace ReadsMore

variable {ε α β : Type}

theorem more (e : ε) : ReadsMore (Reader.more e) [] () := by
  intro rest hrest
  rw [nil_append, Reader.more, if_neg hrest]

variable {b : β} {bytes : Bytes} {r : Reader ε α} {a : α} {bytes' : Bytes} {e : ε}
  {f : Unit → Reader ε β}

theorem bind {f} (hr : ReadsMore r bytes a) (hf : ReadsMore (f a) bytes' b) :
    ReadsMore (r >>= f) (bytes ++ bytes') b := by
  intro rest hrest
  show Except.bind (r (bytes ++ bytes' ++ rest)) _ = _
  rw [append_assoc, hr _ (append_ne_nil_of_right_ne_nil _ hrest)]
  exact hf rest hrest

theorem more_bind (hf : ReadsMore (f ()) bytes b) :
    ReadsMore (Reader.more e >>= f) bytes b := (more e).bind hf

theorem bind_reads {f} (hr : ReadsMore r bytes a) (hne : bytes' ≠ []) (hf : Reads (f a) bytes' b) :
    Reads (r >>= f) (bytes ++ bytes') b := by
  intro rest
  show Except.bind (r (bytes ++ bytes' ++ rest)) _ = _
  rw [append_assoc, hr _ (append_ne_nil_of_left_ne_nil hne _)]
  exact hf rest

theorem reads_more_bind (hne : bytes ≠ []) (hf : Reads (f ()) bytes b) :
    Reads (Reader.more e >>= f) bytes b := (more e).bind_reads hne hf

theorem times {enc : α → Bytes} {l : List α} (h : ∀ a ∈ l, ReadsMore r (enc a) a) :
    ReadsMore (Reader.times r l.length) (l.flatMap enc) l := by
  induction l with
  | nil => exact (Reads.pure []).readsMore
  | cons a l ih =>
    obtain ⟨ha, hl⟩ := forall_mem_cons.mp h
    have hcons : ReadsMore (Reader.times r l.length >>= fun rest => Pure.pure (a :: rest))
        (l.flatMap enc) (a :: l) := by
      rw [← append_nil (l.flatMap enc)]
      exact (ih hl).bind (Reads.pure (a :: l)).readsMore
    exact ha.bind hcons

end ReadsMore

end SatoshiNet.Lib
