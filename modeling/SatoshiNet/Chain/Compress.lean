import SatoshiNet.Chain.UtxoView
import SatoshiNet.Lib.Reader
import SatoshiNet.Wire.Encoding

/-!
The compressed forms in which outputs are stored: numbers in groups of seven bits, amounts without
their trailing zeros, the six standard scripts without what they have in common.  Reading public
keys is a parameter.
-/

namespace SatoshiNet.Chain

open Lib Wire List

inductive DeserializeError
  | unexpectedEnd | invalidAmount | noSerializedBytes | mismatchedJournal
  | stxo (prevOut : OutPoint) (e : DeserializeError)

/-! ### Numbers -/

def serializeSizeVLQ (n : ℕ) : ℕ :=
  if n ≤ 0x7f then 1 else serializeSizeVLQ (n / 128 - 1) + 1
termination_by n
decreasing_by omega

/-- The groups of seven bits, the lowest first; every group but the last one to be written is marked. -/
def vlqGroups (highBitMask n : ℕ) : Bytes :=
  UInt8.ofNat (n % 128 + highBitMask) :: if n ≤ 0x7f then [] else vlqGroups 0x80 (n / 128 - 1)
termination_by n
decreasing_by omega

def putVLQ (n : ℕ) : Bytes := (vlqGroups 0 n).reverse

def deserializeVLQFrom (n : ℕ) : Bytes → ℕ × Bytes
  | [] => (n, [])
  | val :: rest =>
    let group := (n * 128 + val.toNat % 128) % 2 ^ 64
    if val.toNat < 0x80 then (group, rest) else deserializeVLQFrom ((group + 1) % 2 ^ 64) rest

def deserializeVLQ (serialized : Bytes) : ℕ × Bytes := deserializeVLQFrom 0 serialized

/-! ### Amounts -/

def stripZeros : ℕ → ℕ → ℕ × ℕ
  | 0, amount => (amount, 0)
  | most + 1, amount =>
    if amount % 10 = 0 then
      let rest := stripZeros most (amount / 10)
      (rest.1, rest.2 + 1)
    else (amount, 0)

def compressTxOutAmount (amount : ℕ) : ℕ :=
  if amount = 0 then 0
  else
    let stripped := stripZeros 9 amount
    if stripped.2 < 9 then
      (1 + 10 * (9 * (stripped.1 / 10) + stripped.1 % 10 - 1) + stripped.2) % 2 ^ 64
    else (10 + 10 * (stripped.1 - 1)) % 2 ^ 64

def decompressTxOutAmount (amount : ℕ) : ℕ :=
  if amount = 0 then 0
  else
    let exponent := (amount - 1) % 10
    let rest := (amount - 1) / 10
    let n := if exponent < 9 then rest / 9 * 10 + (rest % 9 + 1) else rest + 1
    n * 10 ^ exponent % 2 ^ 64

/-! ### Scripts -/

structure PubKeyLib where
  Key : Type
  parsePubKey : Bytes → Option Key
  serializeUncompressed : Key → Bytes

/-- A key is the first coordinate and the parity of the second. -/
structure PubKeyLib.Lawful (lib : PubKeyLib) : Prop where
  decompress : ∀ {x y : Bytes}, x.length = 32 → y.length = 32 →
    (lib.parsePubKey (0x04 :: (x ++ y))).isSome = true →
    ∃ key, lib.parsePubKey ((2 ||| (y.getLastD 0 &&& 1)) :: x) = some key ∧
      lib.serializeUncompressed key = 0x04 :: (x ++ y)

def isPubKeyHash (script : Script) : Option Bytes :=
  if script.length = 25 ∧ script.take 3 = [0x76, 0xa9, 0x14] ∧ script.drop 23 = [0x88, 0xac] then
    some ((script.drop 3).take 20)
  else none

def isScriptHash (script : Script) : Option Bytes :=
  if script.length = 23 ∧ script.take 2 = [0xa9, 0x14] ∧ script.drop 22 = [0x87] then
    some ((script.drop 2).take 20)
  else none

section Scripts

variable (keys : PubKeyLib)

/-- A short key of 33 bytes or a long one of 65, between the length and the signature check. -/
def isPubKey (script : Script) : Option Bytes :=
  if script.length = 35 ∧ script.take 1 = [0x21] ∧ script.drop 34 = [0xac] ∧
      (script.getD 1 0 = 0x02 ∨ script.getD 1 0 = 0x03) ∧
      (keys.parsePubKey ((script.drop 1).take 33)).isSome then some ((script.drop 1).take 33)
  else if script.length = 67 ∧ script.take 1 = [0x41] ∧ script.drop 66 = [0xac] ∧
      script.getD 1 0 = 0x04 ∧ (keys.parsePubKey ((script.drop 1).take 65)).isSome then
    some ((script.drop 1).take 65)
  else none

def numSpecialScripts : ℕ := 6

def compressedScriptSize (pkScript : Script) : ℕ :=
  if (isPubKeyHash pkScript).isSome then 21
  else if (isScriptHash pkScript).isSome then 21
  else if (isPubKey keys pkScript).isSome then 33
  else serializeSizeVLQ (pkScript.length + numSpecialScripts) + pkScript.length

def decodeCompressedScriptSize (serialized : Bytes) : ℕ :=
  let read := deserializeVLQ serialized
  if serialized = [] then 0
  else if read.1 = 0 ∨ read.1 = 1 then 21
  else if read.1 < numSpecialScripts then 33
  else read.1 - numSpecialScripts + (serialized.length - read.2.length)

def putPubKey (serializedPubKey : Bytes) : Bytes :=
  if serializedPubKey.headD 0 = 0x04 then
    (0x04 ||| (serializedPubKey.getD 64 0 &&& 0x01)) :: (serializedPubKey.drop 1).take 32
  else serializedPubKey.headD 0 :: (serializedPubKey.drop 1).take 32

def putCompressedScript (pkScript : Script) : Bytes :=
  match isPubKeyHash pkScript with
  | some hash => 0 :: hash
  | none => match isScriptHash pkScript with
    | some hash => 1 :: hash
    | none => match isPubKey keys pkScript with
      | some serializedPubKey => putPubKey serializedPubKey
      | none => putVLQ (pkScript.length + numSpecialScripts) ++ pkScript

def decompressScript (compressedPkScript : Bytes) : Script :=
  if compressedPkScript = [] then []
  else
    let read := deserializeVLQ compressedPkScript
    if read.1 = 0 then [0x76, 0xa9, 0x14] ++ read.2.take 20 ++ [0x88, 0xac]
    else if read.1 = 1 then [0xa9, 0x14] ++ read.2.take 20 ++ [0x87]
    else if read.1 = 2 ∨ read.1 = 3 then [0x21, UInt8.ofNat read.1] ++ read.2.take 32 ++ [0xac]
    else if read.1 = 4 ∨ read.1 = 5 then
      match keys.parsePubKey (UInt8.ofNat (read.1 - 2) :: (compressedPkScript.drop 1).take 32) with
      | none => []
      | some key => [0x41] ++ keys.serializeUncompressed key ++ [0xac]
    else read.2.take (read.1 - numSpecialScripts)

def readCompressedScript : Reader DeserializeError Script := fun serialized =>
  let scriptSize := decodeCompressedScriptSize serialized
  if serialized.length < scriptSize then .error .unexpectedEnd
  else .ok (decompressScript keys (serialized.take scriptSize), serialized.drop scriptSize)

end Scripts

/-! ### Numbers are read back -/

theorem length_vlqGroups (mask n : ℕ) : (vlqGroups mask n).length = serializeSizeVLQ n := by
  induction n using Nat.strong_induction_on generalizing mask with
  | _ n ih =>
    rw [vlqGroups, serializeSizeVLQ]
    split_ifs with hlast
    · rfl
    · rw [length_cons, ih _ (by omega)]

theorem length_putVLQ (n : ℕ) : (putVLQ n).length = serializeSizeVLQ n := by
  rw [putVLQ, length_reverse, length_vlqGroups]

theorem putVLQ_ne_nil (n : ℕ) : putVLQ n ≠ [] := by
  rw [putVLQ, vlqGroups, reverse_cons]
  exact append_ne_nil_of_right_ne_nil _ (cons_ne_nil _ _)

variable {m n : ℕ} {rest : Bytes}

theorem deserializeVLQFrom_marked (hm : m + 1 < 2 ^ 64) (hn : n = m / 128) :
    deserializeVLQFrom n (UInt8.ofNat (m % 128 + 0x80) :: rest) = deserializeVLQFrom (m + 1) rest := by
  have hval : (UInt8.ofNat (m % 128 + 0x80)).toNat = m % 128 + 128 := by
    rw [UInt8.toNat_ofNat']
    omega
  have hgroup : (n * 128 + (m % 128 + 128) % 128) % 2 ^ 64 = m := by omega
  simp only [deserializeVLQFrom, hval, hgroup]
  rw [if_neg (by omega), Nat.mod_eq_of_lt hm]

theorem deserializeVLQFrom_vlqGroups (hm : m + 1 < 2 ^ 64) (rest) :
    deserializeVLQFrom 0 ((vlqGroups 0x80 m).reverse ++ rest) = deserializeVLQFrom (m + 1) rest := by
  induction m using Nat.strong_induction_on generalizing rest with
  | _ m ih =>
    rw [vlqGroups, reverse_cons, append_assoc, singleton_append]
    split_ifs with hlast
    · rw [reverse_nil, nil_append]
      exact deserializeVLQFrom_marked hm (by omega)
    · rw [ih _ (by omega) (by omega)]
      exact deserializeVLQFrom_marked hm (by omega)

theorem deserializeVLQFrom_last (hm : m < 2 ^ 64) (hn : n = m / 128) :
    deserializeVLQFrom n (UInt8.ofNat (m % 128 + 0) :: rest) = (m, rest) := by
  have hval : (UInt8.ofNat (m % 128 + 0)).toNat = m % 128 := by
    rw [UInt8.toNat_ofNat']
    omega
  have hgroup : (n * 128 + m % 128 % 128) % 2 ^ 64 = m := by omega
  simp only [deserializeVLQFrom, hval, hgroup]
  rw [if_pos (by omega)]

theorem deserializeVLQ_putVLQ (h : n < 2 ^ 64) (rest) :
    deserializeVLQ (putVLQ n ++ rest) = (n, rest) := by
  rw [deserializeVLQ, putVLQ, vlqGroups, reverse_cons, append_assoc, singleton_append]
  split_ifs with hlast
  · rw [reverse_nil, nil_append]
    exact deserializeVLQFrom_last h (by omega)
  · rw [deserializeVLQFrom_vlqGroups (by omega)]
    exact deserializeVLQFrom_last h (by omega)

/-! ### Amounts are read back -/

theorem stripZeros_spec (most amount : ℕ) :
    amount = (stripZeros most amount).1 * 10 ^ (stripZeros most amount).2 ∧
      (stripZeros most amount).2 ≤ most ∧
      ((stripZeros most amount).2 < most → (stripZeros most amount).1 % 10 ≠ 0) := by
  induction most generalizing amount with
  | zero => exact ⟨(Nat.mul_one _).symm, le_rfl, fun h => absurd h (Nat.not_lt_zero _)⟩
  | succ most ih =>
    rw [stripZeros]
    split_ifs with hzero
    · obtain ⟨hmul, hle, hlast⟩ := ih (amount / 10)
      refine ⟨?_, Nat.succ_le_succ hle, fun hlt => hlast (Nat.lt_of_succ_lt_succ hlt)⟩
      rw [pow_succ, ← Nat.mul_assoc, ← hmul]
      omega
    · exact ⟨(Nat.mul_one _).symm, Nat.zero_le _, fun _ => hzero⟩

theorem decompress_compress {amount : ℕ} (h : (amount : ℤ) ≤ maxSatoshi) :
    decompressTxOutAmount (compressTxOutAmount amount) = amount := by
  rw [compressTxOutAmount]
  by_cases hzero : amount = 0
  · rw [if_pos hzero, hzero]
    rfl
  rw [if_neg hzero]
  obtain ⟨hmul, hle, hlast⟩ := stripZeros_spec 9 amount
  generalize stripZeros 9 amount = stripped at hmul hle hlast ⊢
  obtain ⟨a, e⟩ := stripped
  simp only at hmul hle hlast ⊢
  rw [maxSatoshi] at h
  have hpos : 0 < a := Nat.pos_of_ne_zero fun ha => hzero (by rw [hmul, ha, Nat.zero_mul])
  have hsmall : a ≤ amount := hmul ▸ Nat.le_mul_of_pos_right a (Nat.pow_pos (by decide))
  by_cases he : e < 9
  · have hdigit := hlast he
    rw [if_pos he, Nat.mod_eq_of_lt (by omega), decompressTxOutAmount, if_neg (by omega)]
    have hexp : (1 + 10 * (9 * (a / 10) + a % 10 - 1) + e - 1) % 10 = e := by omega
    have hrest : (1 + 10 * (9 * (a / 10) + a % 10 - 1) + e - 1) / 10 = 9 * (a / 10) + a % 10 - 1 := by omega
    have hn : (9 * (a / 10) + a % 10 - 1) / 9 * 10 + ((9 * (a / 10) + a % 10 - 1) % 9 + 1) = a := by omega
    simp only [hexp, hrest, hn]
    rw [if_pos he, ← hmul, Nat.mod_eq_of_lt (by omega)]
  · obtain rfl : e = 9 := by omega
    rw [if_neg he, Nat.mod_eq_of_lt (by omega), decompressTxOutAmount, if_neg (by omega)]
    have hexp : (10 + 10 * (a - 1) - 1) % 10 = 9 := by omega
    have hrest : (10 + 10 * (a - 1) - 1) / 10 + 1 = a := by omega
    simp only [hexp, hrest]
    rw [if_neg he, ← hmul, Nat.mod_eq_of_lt (by omega)]

section ScriptsBack

variable {keys : PubKeyLib} {b : UInt8} {bytes x : Bytes} {script : Script}

theorem deserializeVLQ_small (h : b.toNat < 0x80) (rest : Bytes) :
    deserializeVLQ (b :: rest) = (b.toNat, rest) := by
  have hgroup : (0 * 128 + b.toNat % 128) % 2 ^ 64 = b.toNat := by omega
  simp only [deserializeVLQ, deserializeVLQFrom, hgroup]
  rw [if_pos h]

theorem reads_compressedScript
    (hsize : ∀ rest, decodeCompressedScriptSize (bytes ++ rest) = bytes.length)
    (hscript : decompressScript keys bytes = script) :
    Reads (readCompressedScript keys) bytes script := by
  intro rest
  have henough : ¬ (bytes ++ rest).length < bytes.length := by
    rw [length_append]
    omega
  simp only [readCompressedScript, hsize]
  rw [if_neg henough, take_left, drop_left, hscript]

theorem take_append_middle {α : Type} (l : List α) (a b : ℕ) :
    l.take a ++ (l.drop a).take b ++ l.drop (a + b) = l := by
  rw [append_assoc, ← drop_drop, take_append_drop, take_append_drop]

variable {format : UInt8} {hash rest y : Bytes}

theorem isPubKeyHash_spec (h : isPubKeyHash script = some hash) :
    hash.length = 20 ∧ script = [0x76, 0xa9, 0x14] ++ hash ++ [0x88, 0xac] := by
  rw [isPubKeyHash] at h
  split_ifs at h with hform
  · obtain ⟨hlen, hhead, htail⟩ := hform
    cases h
    refine ⟨?_, ?_⟩
    · rw [length_take, length_drop]
      omega
    · rw [← hhead, ← htail]
      exact (take_append_middle script 3 20).symm

theorem isScriptHash_spec (h : isScriptHash script = some hash) :
    hash.length = 20 ∧ script = [0xa9, 0x14] ++ hash ++ [0x87] := by
  rw [isScriptHash] at h
  split_ifs at h with hform
  · obtain ⟨hlen, hhead, htail⟩ := hform
    cases h
    refine ⟨?_, ?_⟩
    · rw [length_take, length_drop]
      omega
    · rw [← hhead, ← htail]
      exact (take_append_middle script 2 20).symm

theorem drop_one_take (h : 2 ≤ script.length) (n : ℕ) :
    (script.drop 1).take (n + 1) = script.getD 1 0 :: (script.drop 2).take n := by
  match script, h with
  | a :: b :: rest, _ => rfl

theorem isPubKey_spec {key : Bytes} (h : isPubKey keys script = some key) :
    (∃ format x, (format = 0x02 ∨ format = 0x03) ∧ x.length = 32 ∧ key = format :: x ∧
      script = [0x21] ++ key ++ [0xac]) ∨
    (∃ x y, x.length = 32 ∧ y.length = 32 ∧ key = 0x04 :: (x ++ y) ∧
      (keys.parsePubKey key).isSome = true ∧ script = [0x41] ++ key ++ [0xac]) := by
  rw [isPubKey] at h
  split_ifs at h with hform hform
  · obtain ⟨hlen, hhead, htail, hformat, -⟩ := hform
    cases h
    refine .inl ⟨script.getD 1 0, (script.drop 2).take 32, hformat, ?_, drop_one_take (by omega) 32, ?_⟩
    · rw [length_take, length_drop]
      omega
    · rw [← hhead, ← htail]
      exact (take_append_middle script 1 33).symm
  · obtain ⟨hlen, hhead, htail, hformat, hkey⟩ := hform
    cases h
    refine .inr ⟨(script.drop 2).take 32, (script.drop 34).take 32, ?_, ?_, ?_, hkey, ?_⟩
    · rw [length_take, length_drop]
      omega
    · rw [length_take, length_drop]
      omega
    · rw [drop_one_take (by omega) 64, hformat]
      have hsplit : (script.drop 2).take (32 + 32) =
          (script.drop 2).take 32 ++ ((script.drop 2).drop 32).take 32 := take_add
      rw [hsplit, drop_drop]
    · rw [← hhead, ← htail]
      exact (take_append_middle script 1 65).symm

theorem parity_byte (b) : (0x04 ||| (b &&& 0x01)).toNat < 0x80 ∧
    ((0x04 ||| (b &&& 0x01)).toNat = 4 ∨ (0x04 ||| (b &&& 0x01)).toNat = 5) ∧
    UInt8.ofNat ((0x04 ||| (b &&& 0x01)).toNat - 2) = 2 ||| (b &&& 1) := by
  have hbits : ∀ v : BitVec 8, (0x04#8 ||| (v &&& 0x01#8)).toNat < 0x80 ∧
      ((0x04#8 ||| (v &&& 0x01#8)).toNat = 4 ∨ (0x04#8 ||| (v &&& 0x01#8)).toNat = 5) ∧
      BitVec.ofNat 8 ((0x04#8 ||| (v &&& 0x01#8)).toNat - 2) = 2#8 ||| (v &&& 1#8) := by decide
  obtain ⟨hlt, hcases, hback⟩ := hbits b.toBitVec
  exact ⟨hlt, hcases, UInt8.toBitVec_inj.mp hback⟩

theorem putPubKey_short (hformat : format = 0x02 ∨ format = 0x03) (hx : x.length = 32) :
    putPubKey (format :: x) = format :: x := by
  have hne : format ≠ 0x04 := by
    rcases hformat with rfl | rfl <;> decide
  rw [putPubKey, headD_cons, if_neg hne, drop_one, tail_cons, ← hx, take_length]

theorem putPubKey_long (hx : x.length = 32) (hy : y.length = 32) :
    putPubKey (0x04 :: (x ++ y)) = (0x04 ||| (y.getLastD 0 &&& 0x01)) :: x := by
  have hlast : (0x04 :: (x ++ y)).getD 64 0 = y.getLastD 0 := by
    rw [getD_cons_succ, getD_eq_getElem?_getD, getElem?_append_right (by omega), hx,
      getLastD_eq_getLast?, getLast?_eq_getElem?, hy]
  rw [putPubKey, headD_cons, if_pos rfl, hlast, drop_one, tail_cons, take_left' hx]

theorem decodeCompressedScriptSize_small (h : b.toNat < 0x80) :
    decodeCompressedScriptSize (b :: rest) = if b.toNat = 0 ∨ b.toNat = 1 then 21
      else if b.toNat < numSpecialScripts then 33
      else b.toNat - numSpecialScripts + ((b :: rest).length - rest.length) := by
  simp [decodeCompressedScriptSize, deserializeVLQ_small h]

theorem decompressScript_small (h : b.toNat < 0x80) : decompressScript keys (b :: rest) =
      if b.toNat = 0 then [0x76, 0xa9, 0x14] ++ rest.take 20 ++ [0x88, 0xac]
      else if b.toNat = 1 then [0xa9, 0x14] ++ rest.take 20 ++ [0x87]
      else if b.toNat = 2 ∨ b.toNat = 3 then [0x21, b] ++ rest.take 32 ++ [0xac]
      else if b.toNat = 4 ∨ b.toNat = 5 then
        match keys.parsePubKey (UInt8.ofNat (b.toNat - 2) :: rest.take 32) with
        | none => []
        | some key => [0x41] ++ keys.serializeUncompressed key ++ [0xac]
      else rest.take (b.toNat - numSpecialScripts) := by
  simp [decompressScript, deserializeVLQ_small h]

theorem reads_plainScript (hlen : script.length + numSpecialScripts < 2 ^ 64) :
    Reads (readCompressedScript keys) (putVLQ (script.length + numSpecialScripts) ++ script) script := by
  have hspecial : numSpecialScripts = 6 := rfl
  refine reads_compressedScript (fun rest => ?_) ?_
  · rw [append_assoc, decodeCompressedScriptSize, deserializeVLQ_putVLQ hlen,
      if_neg (append_ne_nil_of_left_ne_nil (putVLQ_ne_nil _) _), if_neg (by omega), if_neg (by omega)]
    simp only [length_append]
    omega
  · rw [decompressScript, deserializeVLQ_putVLQ hlen,
      if_neg (append_ne_nil_of_left_ne_nil (putVLQ_ne_nil _) _)]
    simp only
    rw [if_neg (by omega), if_neg (by omega), if_neg (by omega), if_neg (by omega), Nat.add_sub_cancel,
      take_length]

theorem reads_shortKey (hformat : format = 0x02 ∨ format = 0x03) (hx : x.length = 32) :
    Reads (readCompressedScript keys) (format :: x) ([0x21] ++ (format :: x) ++ [0xac]) := by
  refine reads_compressedScript (fun rest => ?_) ?_
  · rw [cons_append, length_cons, hx]
    rcases hformat with rfl | rfl
    · rw [decodeCompressedScriptSize_small (by decide), if_neg (by decide), if_pos (by decide)]
    · rw [decodeCompressedScriptSize_small (by decide), if_neg (by decide), if_pos (by decide)]
  · rcases hformat with rfl | rfl
    · rw [decompressScript_small (by decide), if_neg (by decide), if_neg (by decide), if_pos (by decide),
        ← hx, take_length]
      rfl
    · rw [decompressScript_small (by decide), if_neg (by decide), if_neg (by decide), if_pos (by decide),
        ← hx, take_length]
      rfl

theorem reads_longKey (hkeys : keys.Lawful) (hx : x.length = 32) (hy : y.length = 32)
    (hkey : (keys.parsePubKey (0x04 :: (x ++ y))).isSome = true) :
    Reads (readCompressedScript keys) ((0x04 ||| (y.getLastD 0 &&& 0x01)) :: x)
      ([0x41] ++ (0x04 :: (x ++ y)) ++ [0xac]) := by
  obtain ⟨hlt, hcases, hback⟩ := parity_byte (y.getLastD 0)
  obtain ⟨key, hparse, hlong⟩ := hkeys.decompress hx hy hkey
  have hspecial : numSpecialScripts = 6 := rfl
  refine reads_compressedScript (fun rest => ?_) ?_
  · rw [cons_append, length_cons, hx, decodeCompressedScriptSize_small hlt, if_neg (by omega),
      if_pos (by omega)]
  · have htake : x.take 32 = x := by rw [← hx, take_length]
    rw [decompressScript_small hlt, if_neg (by omega), if_neg (by omega), if_neg (by omega), if_pos hcases,
      hback, htake, hparse]
    simp only [hlong]

inductive ScriptForm (keys : PubKeyLib) : Script → Bytes → Prop
  | pubKeyHash {hash : Bytes} (h : hash.length = 20) :
      ScriptForm keys ([0x76, 0xa9, 0x14] ++ hash ++ [0x88, 0xac]) (0 :: hash)
  | scriptHash {hash : Bytes} (h : hash.length = 20) :
      ScriptForm keys ([0xa9, 0x14] ++ hash ++ [0x87]) (1 :: hash)
  | shortKey {format : UInt8} {x : Bytes} (hformat : format = 0x02 ∨ format = 0x03)
      (hx : x.length = 32) : ScriptForm keys ([0x21] ++ (format :: x) ++ [0xac]) (format :: x)
  | longKey {x y : Bytes} (hx : x.length = 32) (hy : y.length = 32)
      (hkey : (keys.parsePubKey (0x04 :: (x ++ y))).isSome = true) :
      ScriptForm keys ([0x41] ++ (0x04 :: (x ++ y)) ++ [0xac]) ((0x04 ||| (y.getLastD 0 &&& 0x01)) :: x)
  | plain (script : Script) :
      ScriptForm keys script (putVLQ (script.length + numSpecialScripts) ++ script)

theorem putCompressedScript_spec (keys) (script) :
    ScriptForm keys script (putCompressedScript keys script) ∧
      (putCompressedScript keys script).length = compressedScriptSize keys script := by
  unfold putCompressedScript compressedScriptSize
  cases hpkh : isPubKeyHash script with
  | some hash =>
    obtain ⟨hhash, rfl⟩ := isPubKeyHash_spec hpkh
    refine ⟨.pubKeyHash hhash, ?_⟩
    simp [hhash]
  | none =>
    cases hsh : isScriptHash script with
    | some hash =>
      obtain ⟨hhash, rfl⟩ := isScriptHash_spec hsh
      refine ⟨.scriptHash hhash, ?_⟩
      simp [hhash]
    | none =>
      cases hpk : isPubKey keys script with
      | none =>
        refine ⟨.plain script, ?_⟩
        simp [length_putVLQ]
      | some key =>
        simp only [Option.isSome_none, Option.isSome_some, Bool.false_eq_true, if_false, if_true]
        rcases isPubKey_spec hpk with ⟨format, x, hformat, hx, rfl, rfl⟩ | ⟨x, y, hx, hy, rfl, hkey, rfl⟩
        · rw [putPubKey_short hformat hx]
          exact ⟨.shortKey hformat hx, by rw [length_cons, hx]⟩
        · rw [putPubKey_long hx hy]
          exact ⟨.longKey hx hy hkey, by rw [length_cons, hx]⟩

theorem ScriptForm.reads (hkeys : keys.Lawful) (hform : ScriptForm keys script bytes)
    (hlen : script.length + numSpecialScripts < 2 ^ 64) :
    Reads (readCompressedScript keys) bytes script := by
  cases hform with
  | pubKeyHash hhash =>
    refine reads_compressedScript (fun rest => ?_) ?_
    · rw [cons_append, decodeCompressedScriptSize_small (by decide), if_pos (by decide),
        length_cons, hhash]
    · rw [decompressScript_small (by decide), if_pos (by decide), ← hhash, take_length]
  | scriptHash hhash =>
    refine reads_compressedScript (fun rest => ?_) ?_
    · rw [cons_append, decodeCompressedScriptSize_small (by decide), if_pos (by decide),
        length_cons, hhash]
    · rw [decompressScript_small (by decide), if_neg (by decide), if_pos (by decide), ← hhash,
        take_length]
  | shortKey hformat hx => exact reads_shortKey hformat hx
  | longKey hx hy hkey => exact reads_longKey hkeys hx hy hkey
  | plain => exact reads_plainScript hlen

theorem ScriptForm.ne_nil (hform : ScriptForm keys script bytes) : bytes ≠ [] := by
  cases hform with
  | plain => exact append_ne_nil_of_left_ne_nil (putVLQ_ne_nil _) _
  | _ => exact cons_ne_nil _ _

end ScriptsBack

end SatoshiNet.Chain
