import Mathlib.Data.Nat.Digits.Defs
import SatoshiNet.Lib.Codec
import SatoshiNet.Lib.Fold
import SatoshiNet.Wire.Tx

/-!
The wire encoding of transactions, and the serialization whose double hash is the transaction's
identifier.  The text form of a decimal amount and the bytes of a string are parameters.
-/

namespace SatoshiNet.Wire

open Lib List

inductive WireError
  | unexpectedEOF | nonCanonicalVarInt | tooLarge | invalidAmount | badFlag | superfluousWitness
deriving DecidableEq

def writeVarInt (val : ℕ) : Bytes :=
  if val < 0xfd then [UInt8.ofNat val]
  else if val ≤ 0xffff then 0xfd :: leBytes 2 val
  else if val ≤ 0xffffffff then 0xfe :: leBytes 4 val
  else 0xff :: leBytes 8 val

/-- A little-endian number of `width` bytes that a shorter form could not have held. -/
def readWide (width least : ℕ) (data : Bytes) : Except WireError (ℕ × Bytes) :=
  if data.length < width then .error .unexpectedEOF
  else if leNat (data.take width) < least then .error .nonCanonicalVarInt
  else .ok (leNat (data.take width), data.drop width)

def readVarInt : Bytes → Except WireError (ℕ × Bytes)
  | [] => .error .unexpectedEOF
  | discriminant :: rest =>
    if discriminant = 0xff then readWide 8 0x100000000 rest
    else if discriminant = 0xfe then readWide 4 0x10000 rest
    else if discriminant = 0xfd then readWide 2 0xfd rest
    else .ok (discriminant.toNat, rest)

def writeVarBytes (bytes : Bytes) : Bytes := writeVarInt bytes.length ++ bytes

theorem readWide_leBytes {width least n : ℕ} (hn : n < 256 ^ width) (hleast : least ≤ n) (rest) :
    readWide width least (leBytes width n ++ rest) = .ok (n, rest) := by
  have htake : (leBytes width n ++ rest).take width = leBytes width n :=
    take_left' (leBytes_length width n)
  have hdrop : (leBytes width n ++ rest).drop width = rest := drop_left' (leBytes_length width n)
  have hlen : ¬ (leBytes width n ++ rest).length < width := by
    rw [length_append, leBytes_length]
    omega
  rw [readWide, htake, hdrop, leNat_leBytes width n hn, if_neg hlen, if_neg (by omega)]

theorem readVarInt_writeVarInt {val : ℕ} (h : val < 2 ^ 64) (rest) :
    readVarInt (writeVarInt val ++ rest) = .ok (val, rest) := by
  rw [writeVarInt]
  split_ifs with h1 h2 h3
  · have hval : (UInt8.ofNat val).toNat = val := by
      rw [UInt8.toNat_ofNat']
      omega
    have hne : ∀ d : UInt8, 0xfd ≤ d.toNat → UInt8.ofNat val ≠ d := by
      rintro d hd rfl
      omega
    rw [singleton_append, readVarInt, if_neg (hne _ (by decide)), if_neg (hne _ (by decide)),
      if_neg (hne _ (by decide)), hval]
  · rw [cons_append, readVarInt, if_neg (by decide), if_neg (by decide), if_pos rfl]
    exact readWide_leBytes (Nat.lt_succ_of_le h2) (Nat.le_of_not_lt h1) rest
  · rw [cons_append, readVarInt, if_neg (by decide), if_pos rfl]
    exact readWide_leBytes (Nat.lt_succ_of_le h3) (Nat.lt_of_not_le h2) rest
  · rw [cons_append, readVarInt, if_pos rfl]
    exact readWide_leBytes h (Nat.lt_of_not_le h3) rest

theorem selfDelimiting_writeVarInt : SelfDelimiting (· < 2 ^ 64) writeVarInt :=
  .of_decoder (fun data => (readVarInt data).toOption) fun _ h rest => by
    rw [readVarInt_writeVarInt h]
    rfl

theorem selfDelimiting_writeVarBytes :
    SelfDelimiting (fun bytes : Bytes => bytes.length < 2 ^ 64) writeVarBytes := by
  intro a b ha hb r s h
  simp only [writeVarBytes, append_assoc] at h
  obtain ⟨hlen, h⟩ := selfDelimiting_writeVarInt ha hb h
  exact append_inj h hlen

structure TextLib where
  validate : Decimal → Bool
  toFormatString : Decimal → Bytes
  newDecimalFromFormatString : Bytes → Option Decimal
  stringBytes : Text → Bytes
  bytesString : Bytes → Text

structure TextLib.Exact (lib : TextLib) : Prop where
  read_format : ∀ d, lib.validate d = true →
    lib.newDecimalFromFormatString (lib.toFormatString d) = some d
  read_string : ∀ t, lib.bytesString (lib.stringBytes t) = t

structure Written where
  bytes : Bytes
  err : Option WireError

namespace Written

def done (bytes : Bytes) : Written := ⟨bytes, none⟩

def andThen (w v : Written) : Written :=
  match w.err with
  | none => ⟨w.bytes ++ v.bytes, v.err⟩
  | some _ => w

def all {α : Type*} (write : α → Written) : List α → Written
  | [] => done []
  | a :: l => (write a).andThen (all write l)

theorem err_andThen {w v : Written} : (w.andThen v).err = none ↔ w.err = none ∧ v.err = none := by
  cases hw : w.err <;> simp [andThen, hw]

theorem bytes_andThen {w v : Written} (h : w.err = none) :
    (w.andThen v).bytes = w.bytes ++ v.bytes := by
  simp only [andThen, h]

theorem err_all {α : Type*} {write} {l : List α} :
    (all write l).err = none ↔ ∀ a ∈ l, (write a).err = none := by
  induction l with
  | nil => simp [all, done]
  | cons a l ih => rw [all, err_andThen, ih, forall_mem_cons]

theorem bytes_all {α : Type*} {write} {l : List α} (h : ∀ a ∈ l, (write a).err = none) :
    (all write l).bytes = l.flatMap fun a => (write a).bytes := by
  induction l with
  | nil => rfl
  | cons a l ih =>
    rw [forall_mem_cons] at h
    rw [all, bytes_andThen h.1, ih h.2, flatMap_cons]

end Written

section Write

variable (lib : TextLib)

def writeAsset (asset : AssetInfo) : Written :=
  if lib.validate asset.amount then
    .done (writeVarBytes (lib.stringBytes asset.name.protocol) ++
      (writeVarBytes (lib.stringBytes asset.name.type) ++
        (writeVarBytes (lib.stringBytes asset.name.ticker) ++
          (writeVarBytes (lib.toFormatString asset.amount) ++ writeVarInt asset.bindingSat))))
  else ⟨[], some .invalidAmount⟩

def assetsWriteToBuf (assets : TxAssets) : Written :=
  (Written.done (writeVarInt assets.length)).andThen (.all (writeAsset lib) assets)

def int64Bytes (v : ℤ) : Bytes := leBytes 8 (v % 2 ^ 64).toNat

def writeTxOut (out : TxOut) : Written :=
  (Written.done (int64Bytes out.value)).andThen
    ((assetsWriteToBuf lib out.assets).andThen (.done (writeVarBytes out.pkScript)))

def writeTxOuts (outs : List TxOut) : Written :=
  (Written.done (writeVarInt outs.length)).andThen (.all (writeTxOut lib) outs)

def scriptSlabSize : ℕ := 2 ^ 22

structure MsgTxIn where
  previousOutPoint : OutPoint
  signatureScript : Script
  witness : List Bytes
  sequence : UInt32
deriving DecidableEq

structure MsgTx where
  version : ℤ
  txIn : List MsgTxIn
  txOut : List TxOut
  lockTime : UInt32
deriving DecidableEq

def txVersion : ℤ := 1

def txInBytes (txIn : MsgTxIn) : Bytes :=
  leBytes 32 txIn.previousOutPoint.hash.toNat ++ leBytes 4 txIn.previousOutPoint.index.toNat ++
    writeVarBytes txIn.signatureScript ++ leBytes 4 txIn.sequence.toNat

def MsgTx.serializeNoWitness (tx : MsgTx) : Written :=
  (Written.done (leBytes 4 (tx.version % 2 ^ 32).toNat ++ writeVarInt tx.txIn.length ++
      tx.txIn.flatMap txInBytes)).andThen
    ((writeTxOuts lib tx.txOut).andThen (.done (leBytes 4 tx.lockTime.toNat)))

/-- The identifier hashes what was written; an error of the writer is not looked at. -/
def MsgTx.txHash (doubleHash : Bytes → Hash) (tx : MsgTx) : Hash :=
  doubleHash (tx.serializeNoWitness lib).bytes

structure AssetInfo.Typed (asset : AssetInfo) : Prop where
  protocol : (lib.stringBytes asset.name.protocol).length < 2 ^ 63
  type : (lib.stringBytes asset.name.type).length < 2 ^ 63
  ticker : (lib.stringBytes asset.name.ticker).length < 2 ^ 63
  amount : (lib.toFormatString asset.amount).length < 2 ^ 63
  bindingSat : asset.bindingSat < 2 ^ 32

structure TxOut.Typed (out : TxOut) : Prop where
  value : -2 ^ 63 ≤ out.value ∧ out.value < 2 ^ 63
  pkScript : out.pkScript.length < 2 ^ 63
  length : out.assets.length < 2 ^ 63
  assets : ∀ a ∈ out.assets, a.Typed lib

structure MsgTx.Typed (tx : MsgTx) : Prop where
  length : tx.txOut.length < 2 ^ 63
  txOut : ∀ out ∈ tx.txOut, out.Typed lib

end Write

section Decodable

variable {lib : TextLib}

theorem int64Bytes_injective {v w : ℤ} (hv : -2 ^ 63 ≤ v ∧ v < 2 ^ 63) (hw : -2 ^ 63 ≤ w ∧ w < 2 ^ 63)
    (h : int64Bytes v = int64Bytes w) : v = w := by
  have hlt : ∀ u : ℤ, (u % 2 ^ 64).toNat < 256 ^ 8 := fun u => by omega
  have hnat := congrArg leNat h
  rw [int64Bytes, int64Bytes, leNat_leBytes 8 _ (hlt v), leNat_leBytes 8 _ (hlt w)] at hnat
  omega

theorem selfDelimiting_int64Bytes :
    SelfDelimiting (fun v : ℤ => -2 ^ 63 ≤ v ∧ v < 2 ^ 63) int64Bytes :=
  .of_length (fun _ => leBytes_length 8 _) fun _ _ => int64Bytes_injective

theorem writeAsset_eq_done {a} (h : (writeAsset lib a).err = none) :
    lib.validate a.amount = true ∧ (writeAsset lib a).bytes =
      writeVarBytes (lib.stringBytes a.name.protocol) ++
        (writeVarBytes (lib.stringBytes a.name.type) ++
          (writeVarBytes (lib.stringBytes a.name.ticker) ++
            (writeVarBytes (lib.toFormatString a.amount) ++ writeVarInt a.bindingSat))) := by
  rw [writeAsset] at h ⊢
  split_ifs with hv
  · exact ⟨hv, rfl⟩
  · rw [if_neg hv] at h
    cases h

theorem selfDelimiting_writeAsset (hlib : lib.Exact) :
    SelfDelimiting (fun a => AssetInfo.Typed lib a ∧ (writeAsset lib a).err = none)
      fun a => (writeAsset lib a).bytes := by
  have hstring : Function.Injective lib.stringBytes := Function.LeftInverse.injective hlib.read_string
  have hbytes := selfDelimiting_writeVarBytes
  have hfields := hbytes.append (hbytes.append (hbytes.append
    (hbytes.append selfDelimiting_writeVarInt)))
  have hdom : ∀ {x : Bytes}, x.length < 2 ^ 63 → x.length < 2 ^ 64 := fun h => by omega
  intro a b ⟨hta, hea⟩ ⟨htb, heb⟩ r s h
  obtain ⟨hva, hba⟩ := writeAsset_eq_done hea
  obtain ⟨hvb, hbb⟩ := writeAsset_eq_done heb
  have hin : ∀ c : AssetInfo, AssetInfo.Typed lib c → _ :=
    fun c hc => (⟨hdom hc.protocol, hdom hc.type, hdom hc.ticker, hdom hc.amount,
      Nat.lt_of_lt_of_le hc.bindingSat (by decide)⟩ : _ ∧ _ ∧ _ ∧ _ ∧ c.bindingSat < 2 ^ 64)
  simp only [hba, hbb] at h
  obtain ⟨hall, hrest⟩ := @hfields (_, _, _, _, _) (_, _, _, _, _) (hin a hta) (hin b htb) r s h
  simp only [Prod.mk.injEq] at hall
  obtain ⟨hprotocol, htype, hticker, hamount, hbinding⟩ := hall
  have hamount' : a.amount = b.amount := by
    have hread := congrArg lib.newDecimalFromFormatString hamount
    rw [hlib.read_format _ hva, hlib.read_format _ hvb] at hread
    exact Option.some.inj hread
  obtain ⟨⟨protocol, type, ticker⟩, amount, bindingSat⟩ := a
  obtain ⟨⟨protocol', type', ticker'⟩, amount', bindingSat'⟩ := b
  obtain rfl := hstring hprotocol
  obtain rfl := hstring htype
  obtain rfl := hstring hticker
  obtain rfl := hamount'
  obtain rfl := hbinding
  exact ⟨rfl, hrest⟩

theorem assetsWriteToBuf_done {assets} (h : (assetsWriteToBuf lib assets).err = none) :
    (∀ a ∈ assets, (writeAsset lib a).err = none) ∧ (assetsWriteToBuf lib assets).bytes =
      writeVarInt assets.length ++ assets.flatMap fun a => (writeAsset lib a).bytes := by
  have hall := Written.err_all.mp (Written.err_andThen.mp h).2
  refine ⟨hall, ?_⟩
  rw [assetsWriteToBuf, Written.bytes_andThen rfl, Written.bytes_all hall]
  rfl

theorem selfDelimiting_assetsWriteToBuf (hlib : lib.Exact) :
    SelfDelimiting (fun assets : TxAssets => assets.length < 2 ^ 63 ∧
        (∀ a ∈ assets, AssetInfo.Typed lib a) ∧ (assetsWriteToBuf lib assets).err = none)
      fun assets => (assetsWriteToBuf lib assets).bytes := by
  intro l m ⟨hll, htl, hel⟩ ⟨hlm, htm, hem⟩ r s h
  obtain ⟨hdl, hbl⟩ := assetsWriteToBuf_done hel
  obtain ⟨hdm, hbm⟩ := assetsWriteToBuf_done hem
  simp only [hbl, hbm] at h
  exact selfDelimiting_writeVarInt.counted (selfDelimiting_writeAsset hlib)
    ⟨by omega, fun a ha => ⟨htl a ha, hdl a ha⟩⟩ ⟨by omega, fun a ha => ⟨htm a ha, hdm a ha⟩⟩ h

theorem writeTxOut_done {out : TxOut} (h : (writeTxOut lib out).err = none) :
    (assetsWriteToBuf lib out.assets).err = none ∧ (writeTxOut lib out).bytes =
      int64Bytes out.value ++
        ((assetsWriteToBuf lib out.assets).bytes ++ writeVarBytes out.pkScript) := by
  have hassets := (Written.err_andThen.mp (Written.err_andThen.mp h).2).1
  refine ⟨hassets, ?_⟩
  rw [writeTxOut, Written.bytes_andThen rfl, Written.bytes_andThen hassets]
  rfl

theorem selfDelimiting_writeTxOut (hlib : lib.Exact) :
    SelfDelimiting (fun out => TxOut.Typed lib out ∧ (writeTxOut lib out).err = none)
      fun out => (writeTxOut lib out).bytes := by
  have hfields := selfDelimiting_int64Bytes.append
    ((selfDelimiting_assetsWriteToBuf hlib).append selfDelimiting_writeVarBytes)
  intro a b ⟨hta, hea⟩ ⟨htb, heb⟩ r s h
  obtain ⟨haa, hba⟩ := writeTxOut_done hea
  obtain ⟨hab, hbb⟩ := writeTxOut_done heb
  simp only [hba, hbb] at h
  obtain ⟨hall, hrest⟩ := @hfields (_, _, _) (_, _, _)
    ⟨hta.value, ⟨hta.length, hta.assets, haa⟩, Nat.lt_trans hta.pkScript (by decide)⟩
    ⟨htb.value, ⟨htb.length, htb.assets, hab⟩, Nat.lt_trans htb.pkScript (by decide)⟩ r s h
  obtain ⟨value, assets, pkScript⟩ := a
  obtain ⟨value', assets', pkScript'⟩ := b
  simp only [Prod.mk.injEq] at hall
  obtain ⟨rfl, rfl, rfl⟩ := hall
  exact ⟨rfl, hrest⟩

theorem writeTxOuts_injective (hlib : lib.Exact) {outs outs'} (hlen : outs.length < 2 ^ 63)
    (hlen' : outs'.length < 2 ^ 63) (htyped : ∀ out ∈ outs, TxOut.Typed lib out)
    (htyped' : ∀ out ∈ outs', TxOut.Typed lib out) (herr : (writeTxOuts lib outs).err = none)
    (herr' : (writeTxOuts lib outs').err = none)
    (h : (writeTxOuts lib outs).bytes = (writeTxOuts lib outs').bytes) : outs = outs' := by
  have hall := Written.err_all.mp (Written.err_andThen.mp herr).2
  have hall' := Written.err_all.mp (Written.err_andThen.mp herr').2
  rw [writeTxOuts, writeTxOuts, Written.bytes_andThen rfl, Written.bytes_andThen rfl,
    Written.bytes_all hall, Written.bytes_all hall'] at h
  have hcode := selfDelimiting_writeVarInt.counted (selfDelimiting_writeTxOut hlib)
  have hrest := congrArg (· ++ ([] : Bytes)) h
  exact (hcode ⟨by omega, fun a ha => ⟨htyped a ha, hall a ha⟩⟩
    ⟨by omega, fun a ha => ⟨htyped' a ha, hall' a ha⟩⟩ hrest).1

end Decodable

namespace Reference

def digitText (n : ℕ) : Bytes :=
  if n = 0 then [48] else (Nat.digits 10 n).reverse.map fun d => UInt8.ofNat (48 + d)

def digitRead (text : Bytes) : ℕ := Nat.ofDigits 10 (text.reverse.map fun b => b.toNat - 48)

theorem digitText_bounds {n : ℕ} {b} (h : b ∈ digitText n) : b.toNat < 58 := by
  rw [digitText] at h
  split at h
  · rw [mem_singleton.mp h]
    decide
  · obtain ⟨d, hd, rfl⟩ := mem_map.mp h
    have hlt := Nat.digits_lt_base (by decide) (mem_reverse.mp hd)
    rw [UInt8.toNat_ofNat']
    omega

theorem digitRead_digitText (n : ℕ) : digitRead (digitText n) = n := by
  rw [digitText]
  split_ifs with h
  · exact h.symm
  have hdigits : ((Nat.digits 10 n).map fun d => UInt8.ofNat (48 + d)).map (fun b => b.toNat - 48) =
      Nat.digits 10 n := by
    rw [map_map]
    refine (map_congr_left fun d hd => ?_).trans (map_id _)
    have hlt := Nat.digits_lt_base (by decide) hd
    simp only [Function.comp_apply, UInt8.toNat_ofNat', id]
    omega
  rw [digitRead, ← map_reverse, reverse_reverse, hdigits, Nat.ofDigits_digits]

def formatText (d : Decimal) : Bytes :=
  digitText d.value.toNat ++ 58 :: digitText d.precision.toNat

def formatRead (text : Bytes) : Option Decimal :=
  some ⟨digitRead ((text.dropWhile (· != 58)).drop 1), digitRead (text.takeWhile (· != 58))⟩

def textLib : TextLib where
  validate d := decide (0 ≤ d.value ∧ 0 ≤ d.precision ∧ d.precision ≤ 18)
  toFormatString := formatText
  newDecimalFromFormatString := formatRead
  stringBytes t := (String.ofList t).toByteArray.data.toList
  bytesString bytes := ((ByteArray.mk bytes.toArray).utf8Decode?.map Array.toList).getD []

theorem textLib_exact : textLib.Exact where
  read_format d hd := by
    have hrange : 0 ≤ d.value ∧ 0 ≤ d.precision ∧ d.precision ≤ 18 := of_decide_eq_true hd
    have hdigits : ∀ b ∈ digitText d.value.toNat, (b != 58) = true := by
      intro b hb
      have hlt := digitText_bounds hb
      rw [bne_iff_ne]
      rintro rfl
      exact absurd hlt (by decide)
    have hvalue : (formatText d).takeWhile (· != 58) = digitText d.value.toNat := by
      rw [formatText, takeWhile_append_of_pos hdigits, takeWhile_cons_of_neg (by decide),
        append_nil]
    have hprecision : ((formatText d).dropWhile (· != 58)).drop 1 = digitText d.precision.toNat := by
      rw [formatText, dropWhile_append_of_pos hdigits, dropWhile_cons_of_neg (by decide)]
      rfl
    have hread : formatRead (formatText d) = some ⟨d.precision.toNat, d.value.toNat⟩ := by
      rw [formatRead, hvalue, hprecision, digitRead_digitText, digitRead_digitText]
    have hd' : (⟨d.precision.toNat, d.value.toNat⟩ : Decimal) = d := by
      rw [Int.toNat_of_nonneg hrange.1, Int.toNat_of_nonneg hrange.2.1]
    exact hread.trans (congrArg some hd')
  read_string t := by
    have hdata : ByteArray.mk (String.ofList t).toByteArray.data.toList.toArray = t.utf8Encode := by
      rw [← String.toByteArray_ofList]
    simp only [textLib, hdata, utf8Decode?_utf8Encode, Option.map_some, Option.getD_some]

end Reference

end SatoshiNet.Wire
