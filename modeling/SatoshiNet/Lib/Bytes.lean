import Mathlib.Data.Nat.ModEq
import Mathlib.Tactic.Ring

/-!
Numbers as bytes: little-endian fields of a fixed width and hexadecimal text.
-/

namespace SatoshiNet

abbrev Text := List Char

namespace Lib

open List

abbrev Bytes := List UInt8

def leNat : Bytes → ℕ
  | [] => 0
  | b :: bs => b.toNat + 256 * leNat bs

def leBytes : ℕ → ℕ → Bytes
  | 0, _ => []
  | width + 1, n => UInt8.ofNat n :: leBytes width (n / 256)

variable (bs : Bytes) (width n : ℕ)

@[simp] theorem leBytes_length : (leBytes width n).length = width := by
  induction width generalizing n with
  | zero => rfl
  | succ width ih => simp [leBytes, ih]

theorem leNat_leBytes (h : n < 256 ^ width) : leNat (leBytes width n) = n := by
  induction width generalizing n with
  | zero =>
    simp only [pow_zero, Nat.lt_one_iff] at h
    subst h
    rfl
  | succ width ih =>
    have hdiv : n / 256 < 256 ^ width := by
      rw [pow_succ] at h
      omega
    have hbyte : (UInt8.ofNat n).toNat = n % 256 := UInt8.toNat_ofNat'
    rw [leBytes, leNat, ih _ hdiv, hbyte]
    omega

theorem leBytes_leNat : leBytes bs.length (leNat bs) = bs := by
  induction bs with
  | nil => rfl
  | cons b bs ih =>
    have hb : b.toNat < 256 := b.toNat_lt
    have hbyte : UInt8.ofNat (b.toNat + 256 * leNat bs) = b := by
      rw [← UInt8.toNat_inj, UInt8.toNat_ofNat']
      omega
    have hdiv : (b.toNat + 256 * leNat bs) / 256 = leNat bs := by omega
    rw [length_cons, leNat, leBytes, hbyte, hdiv, ih]

theorem leNat_append (bs cs) : leNat (bs ++ cs) = leNat bs + 256 ^ bs.length * leNat cs := by
  induction bs with
  | nil => simp [leNat]
  | cons b bs ih =>
    simp only [cons_append, leNat, ih, length_cons, pow_succ]
    ring

theorem leNat_lt : leNat bs < 256 ^ bs.length := by
  induction bs with
  | nil => decide
  | cons b bs ih =>
    have hb := b.toNat_lt
    simp only [leNat, length_cons, pow_succ]
    omega

theorem leNat_lt_of_last (b) (hb : b.toNat < 128) : leNat (bs ++ [b]) < 128 * 256 ^ bs.length := by
  have hlt := leNat_lt bs
  have hle : 256 ^ bs.length * b.toNat ≤ 256 ^ bs.length * 127 := Nat.mul_le_mul_left _ (by omega)
  rw [leNat_append]
  simp only [leNat, Nat.mul_zero, Nat.add_zero]
  omega

def hexDigit (d : ℕ) : UInt8 := if d < 10 then UInt8.ofNat (48 + d) else UInt8.ofNat (87 + d)

def hexText : ℕ → ℕ → Bytes
  | 0, _ => []
  | width + 1, n => hexText width (n / 16) ++ [hexDigit (n % 16)]

@[simp] theorem hexText_length : (hexText width n).length = width := by
  induction width generalizing n with
  | zero => rfl
  | succ width ih => simp [hexText, ih]

def withLength : Bytes := leBytes 4 bs.length ++ bs

def readWithLength (data : Bytes) : Option (Bytes × Bytes) :=
  let rest := data.drop 4
  let n := leNat (data.take 4)
  if data.length < 4 ∨ rest.length < n then none else some (rest.take n, rest.drop n)

@[simp] theorem withLength_length : (withLength bs).length = 4 + bs.length := by
  rw [withLength, length_append, leBytes_length]

theorem readWithLength_withLength (bs rest) (h : bs.length < 2 ^ 32) :
    readWithLength (withLength bs ++ rest) = some (bs, rest) := by
  have htake : (withLength bs ++ rest).take 4 = leBytes 4 bs.length := by
    rw [withLength, append_assoc, take_append_of_le_length (by rw [leBytes_length]),
      take_of_length_le (by rw [leBytes_length])]
  have hdrop : (withLength bs ++ rest).drop 4 = bs ++ rest := by
    rw [withLength, append_assoc, drop_append, leBytes_length, Nat.sub_self,
      drop_zero, drop_of_length_le (by rw [leBytes_length]), nil_append]
  have hn : leNat (leBytes 4 bs.length) = bs.length := leNat_leBytes 4 _ (by omega)
  have hfits : ¬ ((withLength bs ++ rest).length < 4 ∨ (bs ++ rest).length < bs.length) := by
    simp only [length_append, withLength_length]
    omega
  simp only [readWithLength, htake, hdrop, hn, hfits, if_false, take_left', drop_left']

end Lib

end SatoshiNet
