import SatoshiNet.Lib.Fold
import SatoshiNet.Wire.Tx

/-!
The script builder: data and numbers are pushed with the shortest opcode, and the tokenizer takes
every push apart again.  A byte with an opcode of its own is pushed without data, so a reader that
looks at the data of the token finds nothing there.
-/

namespace SatoshiNet.Wire

open Lib List

inductive ScriptError
  | scriptTooLong | elementTooLong
  /-- The magnitude of the least `int64` does not fit and its last byte is looked up in vain. -/
  | indexOutOfRange
deriving DecidableEq

def maxScriptElementSize : ℕ := 520

def canonicalDataSize (data : Bytes) : ℕ :=
  if data.length = 0 then 1
  else if data.length = 1 ∧ data.headD 0 ≤ 16 then 1
  else if data.length = 1 ∧ data.headD 0 = 0x81 then 1
  else if data.length < 0x4c then 1 + data.length
  else if data.length ≤ 0xff then 2 + data.length
  else if data.length ≤ 0xffff then 3 + data.length
  else 5 + data.length

def pushOf (data : Bytes) : Script :=
  if data.length = 0 ∨ data.length = 1 ∧ data.headD 0 = 0 then [0]
  else if data.length = 1 ∧ data.headD 0 ≤ 16 then [0x50 + data.headD 0]
  else if data.length = 1 ∧ data.headD 0 = 0x81 then [0x4f]
  else if data.length < 0x4c then UInt8.ofNat data.length :: data
  else if data.length ≤ 0xff then 0x4c :: (leBytes 1 data.length ++ data)
  else if data.length ≤ 0xffff then 0x4d :: (leBytes 2 data.length ++ data)
  else 0x4e :: (leBytes 4 data.length ++ data)

def addOp (opcode : UInt8) (script : Script) : Except ScriptError Script :=
  if script.length + 1 > maxScriptSize then .error .scriptTooLong else .ok (script ++ [opcode])

def addData (data : Bytes) (script : Script) : Except ScriptError Script :=
  if script.length + canonicalDataSize data > maxScriptSize then .error .scriptTooLong
  else if data.length > maxScriptElementSize then .error .elementTooLong
  else .ok (script ++ pushOf data)

def lowBytes : ℕ → ℕ → Bytes
  | 0, _ => []
  | width + 1, n => if n = 0 then [] else UInt8.ofNat n :: lowBytes width (n / 256)

def setSign : Bytes → Bytes
  | [] => []
  | [b] => [b ||| 0x80]
  | b :: bs => b :: setSign bs

def scriptNumBytes (n : ℤ) : Bytes :=
  let result := lowBytes 8 n.natAbs
  if result.getLastD 0 &&& 0x80 ≠ 0 then result ++ [if n < 0 then 0x80 else 0]
  else if n < 0 then setSign result
  else result

def addInt64 (val : ℤ) (script : Script) : Except ScriptError Script :=
  if script.length + 1 > maxScriptSize then .error .scriptTooLong
  else if val = 0 then .ok (script ++ [0])
  else if val = -1 ∨ 1 ≤ val ∧ val ≤ 16 then .ok (script ++ [UInt8.ofNat (0x50 + val).toNat])
  else if val = -2 ^ 63 then .error .indexOutOfRange
  else addData (scriptNumBytes val) script

def pushOfInt64 (val : ℤ) : Script :=
  if val = 0 then [0]
  else if val = -1 ∨ 1 ≤ val ∧ val ≤ 16 then [UInt8.ofNat (0x50 + val).toNat]
  else pushOf (scriptNumBytes val)

def IsToken (piece : Script) : Prop :=
  ∃ opcode data, ∀ rest, nextToken (piece ++ rest) = some ⟨opcode, data, rest⟩

theorem IsToken.append_inj {p q r s} (hp : IsToken p) (hq : IsToken q) (h : p ++ r = q ++ s) :
    p = q ∧ r = s := by
  obtain ⟨opcode, data, hp⟩ := hp
  obtain ⟨opcode', data', hq⟩ := hq
  have htoken : some (Token.mk opcode data r) = some ⟨opcode', data', s⟩ := by
    rw [← hp r, h, hq s]
  obtain rfl : r = s := congrArg Token.rest (Option.some.inj htoken)
  exact ⟨append_cancel_right h, rfl⟩

variable {opcode : UInt8} {script script' : Script}

theorem nextToken_opcode (h : opcode.toNat = 0 ∨ 0x4e < opcode.toNat) (rest : Script) :
    nextToken (opcode :: rest) = some ⟨opcode, [], rest⟩ := by
  have hdata : ¬ (1 ≤ opcode ∧ opcode ≤ 0x4b) := by
    rw [UInt8.le_iff_toNat_le, UInt8.le_iff_toNat_le]
    intro ⟨hlow, hhigh⟩
    have h1 : (1 : UInt8).toNat = 1 := rfl
    have h2 : (0x4b : UInt8).toNat = 0x4b := rfl
    omega
  have hne : ∀ c : UInt8, 0 < c.toNat → c.toNat ≤ 0x4e → opcode ≠ c := by
    rintro c hpos hle rfl
    omega
  rw [nextToken, if_neg hdata, if_neg (hne _ (by decide) (by decide)),
    if_neg (hne _ (by decide) (by decide)), if_neg (hne _ (by decide) (by decide))]

theorem isToken_opcode (h : opcode.toNat = 0 ∨ 0x4e < opcode.toNat) :
    IsToken [opcode] := ⟨opcode, [], nextToken_opcode h⟩

variable {data : Bytes}

theorem pushData_leBytes {width : ℕ} (hfits : data.length < 256 ^ width)
    (hsmall : data.length < 2 ^ 31) (rest : Bytes) :
    pushData width (leBytes width data.length ++ data ++ rest) = some (data, rest) := by
  have hlen : (leBytes width data.length).length = width := leBytes_length width _
  have htake : (leBytes width data.length ++ data ++ rest).take width =
      leBytes width data.length := by
    rw [append_assoc]
    exact take_left' hlen
  have hdrop : (leBytes width data.length ++ data ++ rest).drop width = data ++ rest := by
    rw [append_assoc]
    exact drop_left' hlen
  have henough : ¬ (leBytes width data.length ++ data ++ rest).length < width := by
    simp only [length_append, hlen]
    omega
  have hread : ¬ (data.length > (data ++ rest).length ∨ data.length ≥ 2 ^ 31) := by
    rw [length_append]
    omega
  simp only [pushData, if_neg henough, htake, hdrop, leNat_leBytes width _ hfits, if_neg hread,
    take_left', drop_left']

def SmallPush (data : Bytes) : Prop := data.length = 1 ∧ (data.headD 0 ≤ 16 ∨ data.headD 0 = 0x81)

instance (data : Bytes) : Decidable (SmallPush data) :=
  inferInstanceAs (Decidable (_ ∧ _))

def pushedData (data : Bytes) : Bytes := if SmallPush data then [] else data

theorem pushedData_eq_self : pushedData data = data ↔ ¬ SmallPush data := by
  rw [pushedData]
  constructor
  · intro h hsmall
    rw [if_pos hsmall] at h
    have hlen := hsmall.1
    rw [← h] at hlen
    cases hlen
  · exact fun h => if_neg h

theorem pushOf_small (h : SmallPush data) :
    ∃ opcode : UInt8, pushOf data = [opcode] ∧ (opcode.toNat = 0 ∨ 0x4e < opcode.toNat) := by
  obtain ⟨hlen, hbyte⟩ := h
  rw [pushOf]
  by_cases hzero : data.headD 0 = 0
  · exact ⟨0, if_pos (.inr ⟨hlen, hzero⟩), .inl rfl⟩
  have hne : ¬ (data.length = 0 ∨ data.length = 1 ∧ data.headD 0 = 0) := by
    rintro (hnil | ⟨-, hhead⟩)
    · omega
    · exact hzero hhead
  rw [if_neg hne]
  by_cases h16 : data.headD 0 ≤ 16
  · refine ⟨0x50 + data.headD 0, if_pos ⟨hlen, h16⟩, .inr ?_⟩
    have hle := UInt8.le_iff_toNat_le.mp h16
    have h16' : (16 : UInt8).toNat = 16 := rfl
    have h50 : (0x50 : UInt8).toNat = 0x50 := rfl
    rw [UInt8.toNat_add, h50]
    omega
  · rw [if_neg fun hle => h16 hle.2, if_pos ⟨hlen, hbyte.resolve_left h16⟩]
    exact ⟨0x4f, rfl, .inr (by decide)⟩

theorem nextToken_pushOf (h : data.length ≤ maxScriptElementSize) :
    ∃ opcode, ∀ rest, nextToken (pushOf data ++ rest) = some ⟨opcode, pushedData data, rest⟩ := by
  rw [maxScriptElementSize] at h
  rw [pushedData]
  split_ifs with hsmall
  · obtain ⟨opcode, hpush, hopcode⟩ := pushOf_small hsmall
    rw [hpush]
    exact ⟨opcode, nextToken_opcode hopcode⟩
  by_cases hnil : data = []
  · subst hnil
    exact ⟨0, nextToken_opcode (.inl rfl)⟩
  have hpos := length_pos_of_ne_nil hnil
  have hzero : ¬ (data.length = 0 ∨ data.length = 1 ∧ data.headD 0 = 0) := by
    rintro (hlen | ⟨hlen, hhead⟩)
    · omega
    · exact hsmall ⟨hlen, .inl (by rw [hhead]; decide)⟩
  have h16 : ¬ (data.length = 1 ∧ data.headD 0 ≤ 16) := fun hle => hsmall ⟨hle.1, .inl hle.2⟩
  have hneg : ¬ (data.length = 1 ∧ data.headD 0 = 0x81) := fun heq => hsmall ⟨heq.1, .inr heq.2⟩
  rw [pushOf, if_neg hzero, if_neg h16, if_neg hneg]
  split_ifs with hshort h1 h2
  · have hnat : (UInt8.ofNat data.length).toNat = data.length := by
      rw [UInt8.toNat_ofNat']
      omega
    have hrange : 1 ≤ UInt8.ofNat data.length ∧ UInt8.ofNat data.length ≤ 0x4b := by
      rw [UInt8.le_iff_toNat_le, UInt8.le_iff_toNat_le, hnat]
      have h1 : (1 : UInt8).toNat = 1 := rfl
      have h2 : (0x4b : UInt8).toNat = 0x4b := rfl
      omega
    refine ⟨UInt8.ofNat data.length, fun rest => ?_⟩
    have hlen : ¬ (data ++ rest).length < data.length := by
      rw [length_append]
      omega
    rw [cons_append, nextToken, if_pos hrange, hnat, if_neg hlen, take_left' rfl, drop_left' rfl]
  · refine ⟨0x4c, fun rest => ?_⟩
    rw [cons_append, nextToken, if_neg (by decide), if_pos rfl,
      pushData_leBytes (by omega) (by omega)]
    rfl
  · refine ⟨0x4d, fun rest => ?_⟩
    rw [cons_append, nextToken, if_neg (by decide), if_neg (by decide), if_pos rfl,
      pushData_leBytes (by omega) (by omega)]
    rfl
  · omega

theorem isToken_pushOf (h : data.length ≤ maxScriptElementSize) : IsToken (pushOf data) := by
  obtain ⟨opcode, htoken⟩ := nextToken_pushOf h
  exact ⟨opcode, pushedData data, htoken⟩

theorem addData_eq_ok (h : addData data script = .ok script') :
    script' = script ++ pushOf data ∧ IsToken (pushOf data) := by
  simp only [addData, ite_error_eq_ok, Except.ok.injEq] at h
  exact ⟨h.2.2.symm, isToken_pushOf (Nat.le_of_not_lt h.2.1)⟩

theorem addInt64_eq_ok {val : ℤ} (h : addInt64 val script = .ok script') :
    script' = script ++ pushOfInt64 val ∧ IsToken (pushOfInt64 val) := by
  simp only [addInt64, ite_error_eq_ok] at h
  rw [pushOfInt64]
  obtain ⟨-, h⟩ := h
  split at h
  · rename_i h0
    rw [if_pos h0]
    exact ⟨(Except.ok.inj h).symm, isToken_opcode (.inl rfl)⟩
  rename_i h0
  rw [if_neg h0]
  split at h
  · rename_i hsmall
    rw [if_pos hsmall]
    refine ⟨(Except.ok.inj h).symm, isToken_opcode (.inr ?_)⟩
    rw [UInt8.toNat_ofNat']
    omega
  · rename_i hsmall
    rw [if_neg hsmall]
    exact addData_eq_ok (ite_error_eq_ok.mp h).2

/-! ### Reading numbers back, from the opcode or from the data -/

def clearSign : Bytes → Bytes
  | [] => []
  | [b] => [b &&& 0x7f]
  | b :: bs => b :: clearSign bs

/-- A number of at most eight bytes, the lowest first; the highest bit is the sign. -/
def extractScriptInt64 (data : Bytes) : ℤ :=
  if data.getLastD 0 &&& 0x80 ≠ 0 then -(leNat (clearSign data)) else leNat data

def extractInt64FromScript (opcode : UInt8) (data : Bytes) : ℤ :=
  if data = [] ∧ opcode = 0 then 0
  else if data = [] ∧ opcode = 0x4f then -1
  else if data = [] ∧ 0x51 ≤ opcode ∧ opcode ≤ 0x60 then opcode.toNat - 0x50
  else extractScriptInt64 data

theorem leNat_lowBytes {width n : ℕ} (h : n < 256 ^ width) : leNat (lowBytes width n) = n := by
  induction width generalizing n with
  | zero =>
    obtain rfl : n = 0 := by simpa using h
    rfl
  | succ width ih =>
    rw [lowBytes]
    split_ifs with hzero
    · exact hzero.symm
    · have hdiv : n / 256 < 256 ^ width := Nat.div_lt_of_lt_mul (by rwa [pow_succ, mul_comm] at h)
      rw [leNat, ih hdiv, UInt8.toNat_ofNat']
      omega

theorem lowBytes_last {width n : ℕ} (hpos : n ≠ 0) (h : n < 256 ^ width) :
    ∃ k, (lowBytes width n).length = k + 1 ∧ 256 ^ k ≤ n ∧
      ((lowBytes width n).getLastD 0).toNat = n / 256 ^ k := by
  induction width generalizing n with
  | zero =>
    rw [pow_zero] at h
    omega
  | succ width ih =>
    rw [lowBytes, if_neg hpos]
    by_cases hlow : n / 256 = 0
    · refine ⟨0, ?_⟩
      have hnil : lowBytes width 0 = [] := by
        cases width with
        | zero => rfl
        | succ width => rw [lowBytes, if_pos rfl]
      rw [hlow, hnil, pow_zero, Nat.div_one]
      refine ⟨rfl, Nat.pos_of_ne_zero hpos, ?_⟩
      rw [getLastD_cons, getLastD_nil, UInt8.toNat_ofNat']
      omega
    · have hdiv : n / 256 < 256 ^ width := Nat.div_lt_of_lt_mul (by rwa [pow_succ, mul_comm] at h)
      obtain ⟨k, hlen, hle, hlast⟩ := ih hlow hdiv
      have hne : lowBytes width (n / 256) ≠ [] := ne_nil_of_length_eq_add_one hlen
      refine ⟨k + 1, by rw [length_cons, hlen], ?_, ?_⟩
      · rw [pow_succ]
        calc 256 ^ k * 256 ≤ n / 256 * 256 := Nat.mul_le_mul_right 256 hle
          _ ≤ n := Nat.div_mul_le_self n 256
      · rw [pow_succ', ← Nat.div_div_eq_div_mul, ← hlast, getLastD_cons]
        cases hlow' : lowBytes width (n / 256) with
        | nil => exact absurd hlow' hne
        | cons b bs => rw [getLastD_cons, getLastD_cons]

theorem signBit_iff (b : UInt8) : b &&& 0x80 ≠ 0 ↔ 128 ≤ b.toNat := by
  have hbits : ∀ v : BitVec 8, v &&& 0x80#8 ≠ 0#8 ↔ 128 ≤ v.toNat := by decide
  have hcast : b &&& 0x80 = 0 ↔ b.toBitVec &&& 0x80#8 = 0#8 := UInt8.toBitVec_inj.symm
  rw [Ne, hcast]
  exact hbits b.toBitVec

theorem clearSign_append (bs : Bytes) (b : UInt8) : clearSign (bs ++ [b]) = bs ++ [b &&& 0x7f] := by
  induction bs with
  | nil => rfl
  | cons c cs ih =>
    cases cs with
    | nil => rfl
    | cons d ds => exact congrArg (c :: ·) ih

theorem extractInt64FromScript_range (h : data.length ≤ 8) :
    -2 ^ 63 ≤ extractInt64FromScript opcode data ∧ extractInt64FromScript opcode data < 2 ^ 63 := by
  have hop := opcode.toNat_lt
  rw [extractInt64FromScript]
  split_ifs
  · decide
  · decide
  · omega
  rcases eq_nil_or_concat data with rfl | ⟨bs, b, rfl⟩
  · decide
  rw [concat_eq_append] at h ⊢
  have hlen : bs.length ≤ 7 := by
    rw [length_append, length_singleton] at h
    omega
  have hpow : 128 * 256 ^ bs.length ≤ 2 ^ 63 := by
    calc 128 * 256 ^ bs.length ≤ 128 * 256 ^ 7 :=
          Nat.mul_le_mul_left _ (Nat.pow_le_pow_right (by decide) hlen)
      _ = 2 ^ 63 := by decide
  have hclear : (b &&& 0x7f).toNat < 128 := by
    rw [UInt8.toNat_and]
    exact Nat.lt_of_le_of_lt Nat.and_le_right (by decide)
  rw [extractScriptInt64, getLastD_concat]
  split_ifs with hsign
  · have := leNat_lt_of_last bs _ hclear
    rw [clearSign_append]
    omega
  · have hlow := mt (signBit_iff b).mpr hsign
    have := leNat_lt_of_last bs b (by omega)
    omega

theorem scriptNumBytes_spec {n : ℤ} (hlow : 16 < n) (hhigh : n < 2 ^ 63) :
    (scriptNumBytes n).length ≤ 8 ∧ ¬ SmallPush (scriptNumBytes n) ∧
      extractScriptInt64 (scriptNumBytes n) = n := by
  obtain ⟨m, rfl⟩ := Int.eq_ofNat_of_zero_le (by omega : 0 ≤ n)
  have hm : m < 2 ^ 63 := by exact_mod_cast hhigh
  have hm' : 16 < m := by exact_mod_cast hlow
  have hfits : m < 256 ^ 8 := hm.trans (by decide)
  obtain ⟨k, hlen, hle, hlast⟩ := lowBytes_last (by omega) hfits
  have hread := leNat_lowBytes hfits
  rw [scriptNumBytes]
  simp only [Int.natAbs_natCast]
  by_cases hbit : (lowBytes 8 m).getLastD 0 &&& 0x80 ≠ 0
  · have hlarge := (signBit_iff _).mp hbit
    have hk : k < 7 := by
      by_contra hk
      have hpow : 256 ^ 7 ≤ 256 ^ k := Nat.pow_le_pow_right (by decide) (by omega)
      rw [hlast, Nat.le_div_iff_mul_le (Nat.pow_pos (by decide))] at hlarge
      omega
    rw [if_pos hbit, if_neg (by omega)]
    refine ⟨?_, ?_, ?_⟩
    · rw [length_append, hlen, length_singleton]
      omega
    · rintro ⟨hone, -⟩
      rw [length_append, hlen, length_singleton] at hone
      omega
    · rw [extractScriptInt64, getLastD_concat, if_neg (by decide), leNat_append, hread]
      rfl
  · have hk : k < 8 := by
      by_contra hk
      have hpow : 256 ^ 8 ≤ 256 ^ k := Nat.pow_le_pow_right (by decide) (by omega)
      omega
    rw [if_neg hbit, if_neg (by omega)]
    refine ⟨by omega, ?_, ?_⟩
    · rintro ⟨hone, hsmall⟩
      obtain ⟨b, hb⟩ := length_eq_one_iff.mp hone
      obtain rfl : k = 0 := by omega
      rw [hb, getLastD_cons, getLastD_nil, signBit_iff] at hbit
      rw [hb, getLastD_cons, getLastD_nil, pow_zero, Nat.div_one] at hlast
      rw [hb] at hsmall
      rcases hsmall with hle16 | h81
      · have hle' := UInt8.le_iff_toNat_le.mp hle16
        have h16 : (16 : UInt8).toNat = 16 := rfl
        simp only [headD_cons] at hle'
        omega
      · simp only [headD_cons] at h81
        rw [h81] at hbit
        exact hbit (by decide)
    · rw [extractScriptInt64, if_neg hbit, hread]

theorem opcode_of_data {script token} (h : nextToken script = some token) (hdata : token.data ≠ []) :
    1 ≤ token.opcode ∧ token.opcode ≤ 0x4e := by
  have hpush : ∀ {width : ℕ} {op : UInt8} {rest : Script}, 1 ≤ op ∧ op ≤ 0x4e →
      (pushData width rest).map (fun d => (⟨op, d.1, d.2⟩ : Token)) = some token →
      1 ≤ token.opcode ∧ token.opcode ≤ 0x4e := by
    intro width op rest hop hmap
    obtain ⟨d, -, rfl⟩ := Option.map_eq_some_iff.mp hmap
    exact hop
  cases script with
  | nil => cases h
  | cons op rest =>
    simp only [nextToken] at h
    split_ifs at h with hshort hlen h1 h2 h4
    · cases h
      exact ⟨hshort.1, UInt8.le_trans hshort.2 (by decide)⟩
    · exact hpush (by rw [h1]; decide) h
    · exact hpush (by rw [h2]; decide) h
    · exact hpush (by rw [h4]; decide) h
    · cases h
      exact absurd rfl hdata

theorem nextToken_pushOfInt64 {n : ℤ} (hlow : 0 ≤ n) (hhigh : n < 2 ^ 63) (rest) :
    ∃ opcode data, nextToken (pushOfInt64 n ++ rest) = some ⟨opcode, data, rest⟩ ∧
      data.length ≤ 8 ∧ extractInt64FromScript opcode data = n ∧
      (opcode ≤ 0x4e ∨ 0x51 ≤ opcode ∧ opcode ≤ 0x60) := by
  rw [pushOfInt64]
  by_cases hzero : n = 0
  · subst hzero
    rw [if_pos rfl]
    exact ⟨0, [], nextToken_opcode (.inl rfl) rest, by decide, rfl, .inl (by decide)⟩
  rw [if_neg hzero]
  by_cases hsmall : n ≤ 16
  · rw [if_pos (.inr ⟨by omega, hsmall⟩)]
    have hnat : (UInt8.ofNat (0x50 + n).toNat).toNat = (0x50 + n).toNat := by
      rw [UInt8.toNat_ofNat']
      omega
    refine ⟨_, [], nextToken_opcode (.inr (by rw [hnat]; omega)) rest, by decide, ?_⟩
    have hne : ∀ c : UInt8, c.toNat ≤ 0x50 → UInt8.ofNat (0x50 + n).toNat ≠ c := by
      rintro c hc rfl
      rw [hnat] at hc
      omega
    have hrange : 0x51 ≤ UInt8.ofNat (0x50 + n).toNat ∧ UInt8.ofNat (0x50 + n).toNat ≤ 0x60 := by
      rw [UInt8.le_iff_toNat_le, UInt8.le_iff_toNat_le, hnat]
      have h51 : (0x51 : UInt8).toNat = 0x51 := rfl
      have h60 : (0x60 : UInt8).toNat = 0x60 := rfl
      omega
    refine ⟨?_, .inr hrange⟩
    rw [extractInt64FromScript, if_neg fun h => hne 0 (by decide) h.2,
      if_neg fun h => hne 0x4f (by decide) h.2, if_pos ⟨rfl, hrange⟩, hnat]
    omega
  · obtain ⟨hlen, hpush, hread⟩ := scriptNumBytes_spec (by omega) hhigh
    rw [if_neg (by omega)]
    obtain ⟨opcode, htoken⟩ := nextToken_pushOf (hlen.trans (by decide))
    simp only [pushedData_eq_self.mpr hpush] at htoken
    have hne : scriptNumBytes n ≠ [] := by
      intro hnil
      rw [hnil] at hread
      exact hzero hread.symm
    refine ⟨opcode, _, htoken rest, hlen, ?_, .inl (opcode_of_data (htoken rest) hne).2⟩
    rw [extractInt64FromScript, if_neg fun h => hne h.1, if_neg fun h => hne h.1,
      if_neg fun h => hne h.1, hread]

end SatoshiNet.Wire
