import SatoshiNet.Contract.ManagedBalance
import SatoshiNet.Lib.Reader

/-!
The binary format of contract states.  The encoder and the decoder of the source keep the first
error and skip what comes after it; here the first error ends the computation.
-/

namespace SatoshiNet.Contract

open Lib Wire List
open ManagedBalance

inductive StateError
  | read (cause : ReadError)
  | invalidHeader | noncanonicalInteger | uint32Overflow | intOverflow
  | decimalSign | decimalPrecision | noncanonicalDecimal | invalidDecimal | decimalTextLimit
  | missingManagedAmount | unorderedKey | trailingBytes
  | managed (cause : ManagedError)

abbrev StateDecoder := Reader StateError

def maxProtocolDecimalTextLength : ℕ := 256

def textBytes (t : Text) : Bytes := (String.ofList t).toByteArray.data.toList

def bytesText (bytes : Bytes) : Text :=
  ((ByteArray.mk bytes.toArray).utf8Decode?.map Array.toList).getD []

@[simp] theorem bytesText_textBytes (t) : bytesText (textBytes t) = t := by
  have hdata : ByteArray.mk (String.ofList t).toByteArray.data.toList.toArray = t.utf8Encode := by
    rw [← String.toByteArray_ofList]
  simp only [bytesText, textBytes, hdata, utf8Decode?_utf8Encode, Option.map_some, Option.getD_some]

namespace StateEncoder

def u64 (v : ℕ) : Bytes := putUvarint v

def i64 (v : ℤ) : Bytes := putUvarint (zigzag v)

def blob (v : Bytes) : Bytes := u64 v.length ++ v

def text (v : Text) : Bytes := blob (textBytes v)

end StateEncoder

def textLength (v : ℤ) : ℕ := (if v < 0 then 1 else 0) + max 1 (Nat.digits 10 v.natAbs).length

variable (lib : DecimalLib)

def checkDecimal (v : Decimal) : Except StateError Unit := do
  require (lib.validate v) .invalidDecimal
  require (textLength v.value ≤ maxProtocolDecimalTextLength) .decimalTextLimit

def decimalBytes (v : Decimal) : Bytes :=
  (if v.sign < 0 then 2 else 1) ::
    (StateEncoder.u64 v.precision.toNat ++ StateEncoder.blob (natBytes v.value.natAbs))

/-- What a valid amount is known to satisfy: its places are in the range of the protocol. -/
structure PrecisionRange : Prop where
  valid : ∀ {v : Decimal}, lib.validate v = true → 0 ≤ v.precision ∧ v.precision ≤ lib.maxPrecision
  bounded : lib.maxPrecision < 2 ^ 63

def rangedLib : DecimalLib :=
  { Reference.decimalLib with validate := fun d => decide (0 ≤ d.precision) && decide (d.precision ≤ 18) }

theorem rangedLib_precisionRange : PrecisionRange rangedLib where
  valid {v} h := by
    have hboth : (decide (0 ≤ v.precision) && decide (v.precision ≤ 18)) = true := h
    rw [Bool.and_eq_true] at hboth
    exact ⟨of_decide_eq_true hboth.1, of_decide_eq_true hboth.2⟩
  bounded := by decide

def managedAssetBytes (a : AssetInfo) : Bytes :=
  StateEncoder.text a.name.protocol ++ (StateEncoder.text a.name.type ++
    (StateEncoder.text a.name.ticker ++ (decimalBytes a.amount ++ StateEncoder.u64 a.bindingSat)))

variable (b : ManagedBalance)

def managedBytes : Bytes :=
  StateEncoder.i64 b.value ++ (StateEncoder.u64 b.assets.length ++ b.assets.flatMap managedAssetBytes)

def ManagedBalance.normalize : ManagedBalance :=
  ⟨b.value, normalizeEntries b.assets⟩

def writeManagedBalance : Except StateError Bytes := do
  (b.validate lib.toAmountLib).mapError .managed
  b.normalize.assets.forM fun a => checkDecimal lib a.amount
  .ok (managedBytes b.normalize)

def managedHeader : Bytes := [77, 66, 1]

def ManagedBalance.marshalBinary : Except StateError Bytes := do
  let fields ← writeManagedBalance lib b
  .ok (managedHeader ++ fields)

namespace StateDecoder

open Reader

def u64 : StateDecoder ℕ := canonicalUvarint .read .noncanonicalInteger

def i64 : StateDecoder ℤ := do
  let v ← u64
  pure (unzigzag v)

def u32 : StateDecoder ℕ := do
  let v ← u64
  check (v < 2 ^ 32) .uint32Overflow
  pure v

def countEntries (minBytes : ℕ) : StateDecoder ℕ := do
  let n ← u64
  let rest ← left
  check (n ≤ rest / minBytes) (.read .unexpectedEOF)
  pure n

def counted {α : Type} (minBytes : ℕ) (r : StateDecoder α) : StateDecoder (List α) := do
  let n ← countEntries minBytes
  times r n

def blob : StateDecoder Bytes := do
  let n ← countEntries 1
  (full n).mapError .read

def text : StateDecoder Text := do
  let b ← blob
  pure (bytesText b)

def magnitude (tag : UInt8) : StateDecoder Decimal := do
  let p ← u64
  check ((p : ℤ) ≤ lib.maxPrecision) .decimalPrecision
  let raw ← blob
  check (raw.head? ≠ some 0 && !(tag = 2 && raw.isEmpty)) .noncanonicalDecimal
  -- Enough bytes for every text of the longest length.
  check (raw.length ≤ 107) .decimalTextLimit
  let n : ℤ := if tag = 2 then -(beNat raw : ℤ) else beNat raw
  check (textLength n ≤ maxProtocolDecimalTextLength) .decimalTextLimit
  pure ⟨p, n⟩

def decimal : StateDecoder (Option Decimal) := do
  let tag ← byte.mapError .read
  if tag = 0 then pure none
  else do
    check (tag ≤ 2) .decimalSign
    let v ← magnitude lib tag
    pure (some v)

def managedAsset : StateDecoder AssetInfo := do
  let protocol ← text
  let type ← text
  let ticker ← text
  let amount ← decimal lib
  let amount ← ofResult (orError amount .missingManagedAmount)
  let bindingSat ← u32
  pure ⟨⟨protocol, type, ticker⟩, amount, bindingSat⟩

def managedState : StateDecoder ManagedBalance := do
  let value ← i64
  let assets ← counted 5 (managedAsset lib)
  let _ ← ofResult (((mk value assets).validate lib.toAmountLib).mapError .managed)
  pure (mk value assets).normalize

def decodeAll {α : Type} (header : Bytes) (r : StateDecoder α) (data : Bytes) : Except StateError α := do
  require (header.isPrefixOf data) .invalidHeader
  let (a, rest) ← r (data.drop header.length)
  require rest.isEmpty .trailingBytes
  .ok a

end StateDecoder

def unmarshalManagedBalance (data : Bytes) : Except StateError ManagedBalance :=
  StateDecoder.decodeAll managedHeader (StateDecoder.managedState lib) data

namespace StateDecoder

open Reader

variable {n : ℕ} {v : ℤ}

theorem reads_u64 (h : n < 2 ^ 64) : Reads u64 (StateEncoder.u64 n) n := Reads.canonicalUvarint h

theorem reads_i64 (hlow : -2 ^ 63 ≤ v) (hhigh : v < 2 ^ 63) : Reads i64 (StateEncoder.i64 v) v := by
  have h := (reads_u64 (zigzag_lt hlow hhigh)).map (f := unzigzag)
  rwa [unzigzag_zigzag] at h

theorem reads_u32 (h : n < 2 ^ 32) : Reads u32 (StateEncoder.u64 n) n := by
  rw [← append_nil (StateEncoder.u64 n)]
  exact (reads_u64 (by omega)).bind (.check_bind (decide_eq_true h) (.pure n))

theorem reads_counted {α : Type} {minBytes : ℕ} {r : StateDecoder α} {enc : α → Bytes} {l : List α}
    (hmin : 0 < minBytes) (hcount : l.length < 2 ^ 64) (hlen : ∀ a ∈ l, minBytes ≤ (enc a).length)
    (hr : ∀ a ∈ l, Reads r (enc a) a) :
    Reads (counted minBytes r) (StateEncoder.u64 l.length ++ l.flatMap enc) l := by
  have hfits := length_mul_le_flatMap hlen
  intro rest
  have hu64 := reads_u64 hcount (l.flatMap enc ++ rest)
  have hle : l.length ≤ (l.flatMap enc ++ rest).length / minBytes := by
    rw [Nat.le_div_iff_mul_le hmin, length_append]
    omega
  rw [append_assoc]
  simp only [counted, countEntries, left, bind, StateT.bind, Except.bind, hu64, Reader.check,
    decide_eq_true hle, if_true]
  exact Reads.times hr rest

theorem reads_blob {v} (h : v.length < 2 ^ 64) : Reads blob (StateEncoder.blob v) v := by
  intro rest
  have hu64 := reads_u64 h (v ++ rest)
  have hle : v.length ≤ (v ++ rest).length / 1 := by
    rw [Nat.div_one, length_append]
    omega
  have hfull := (Reads.full v).mapError (f := StateError.read) rest
  simp only [blob, StateEncoder.blob, append_assoc, countEntries, left, bind, StateT.bind,
    Except.bind, hu64, Reader.check, decide_eq_true hle, if_true]
  exact hfull

theorem reads_text {t} (h : (textBytes t).length < 2 ^ 64) :
    Reads text (StateEncoder.text t) t := by
  have hmap := (reads_blob h).map (f := bytesText)
  rwa [bytesText_textBytes] at hmap

theorem natAbs_lt_of_textLength (h : textLength v ≤ maxProtocolDecimalTextLength) :
    v.natAbs < 10 ^ 256 := by
  apply (Nat.digits_length_le_iff (by decide) _).mp
  unfold textLength maxProtocolDecimalTextLength at h
  omega

theorem natBytes_length_of_textLength (h : textLength v ≤ maxProtocolDecimalTextLength) :
    (natBytes v.natAbs).length ≤ 107 := by
  apply natBytes_length_le
  have hlt := natAbs_lt_of_textLength h
  have hpow : (10 : ℕ) ^ 256 < 256 ^ 107 := by norm_num
  omega

variable {lib}

variable (hlib : PrecisionRange lib)
include hlib

theorem reads_magnitude {v} (hvalid : lib.validate v = true)
    (htext : textLength v.value ≤ maxProtocolDecimalTextLength) {tag}
    (htag : tag = if v.sign < 0 then 2 else 1) : Reads (magnitude lib tag)
      (StateEncoder.u64 v.precision.toNat ++ StateEncoder.blob (natBytes v.value.natAbs)) v := by
  obtain ⟨hlow, hhigh⟩ := hlib.valid hvalid
  have hbound := hlib.bounded
  have hlen := natBytes_length_of_textLength htext
  have hneg : tag = 2 ↔ v.value < 0 := by
    rw [htag, ← Decimal.sign_neg_iff]
    split <;> simp_all
  have hcanonical : ((natBytes v.value.natAbs).head? ≠ some 0 &&
      !(tag = 2 && (natBytes v.value.natAbs).isEmpty)) = true := by
    have hhead := head?_natBytes_ne_zero v.value.natAbs
    have hempty : ¬ (tag = 2 ∧ natBytes v.value.natAbs = []) := by
      rintro ⟨htwo, hnil⟩
      have := hneg.mp htwo
      have := natBytes_eq_nil_iff.mp hnil
      omega
    simpa [hhead] using not_and_or.mp hempty
  have hnumber : (if tag = 2 then -(beNat (natBytes v.value.natAbs) : ℤ)
      else beNat (natBytes v.value.natAbs)) = v.value := by
    rw [beNat_natBytes]
    split_ifs with htwo
    · have := hneg.mp htwo
      omega
    · have := hneg.not.mp htwo
      omega
  have hprecision : (v.precision.toNat : ℤ) = v.precision := Int.toNat_of_nonneg hlow
  refine (reads_u64 (by omega)).bind (.check_bind (decide_eq_true (by omega)) ?_)
  rw [← append_nil (StateEncoder.blob _)]
  refine (reads_blob (by omega)).bind (.check_bind hcanonical (.check_bind (decide_eq_true hlen) ?_))
  dsimp only
  rw [hnumber, hprecision]
  exact .check_bind (decide_eq_true htext) (.pure v)

theorem reads_decimal {v} (h : checkDecimal lib v = .ok ()) :
    Reads (decimal lib) (decimalBytes v) (some v) := by
  obtain ⟨_, hvalid, htext⟩ := bind_eq_ok.mp h
  have hmagnitude := reads_magnitude hlib (require_eq_ok.mp hvalid)
    (of_decide_eq_true (require_eq_ok.mp htext)) rfl
  refine ((Reads.byte _).mapError).bind ?_
  by_cases hneg : v.sign < 0
  · rw [if_pos hneg] at hmagnitude ⊢
    exact .check_bind rfl hmagnitude.map
  · rw [if_neg hneg] at hmagnitude ⊢
    exact .check_bind rfl hmagnitude.map

theorem reads_managedAsset {a} (hamount : checkDecimal lib a.amount = .ok ())
    (hbinding : a.bindingSat < 2 ^ 32) (hsize : (managedAssetBytes a).length < 2 ^ 64) :
    Reads (managedAsset lib) (managedAssetBytes a) a := by
  simp only [managedAssetBytes, StateEncoder.text, StateEncoder.blob, length_append] at hsize
  refine (reads_text (by omega)).bind ((reads_text (by omega)).bind ((reads_text (by omega)).bind ?_))
  refine (reads_decimal hlib hamount).bind ?_
  rw [← nil_append (StateEncoder.u64 _)]
  exact (Reads.ofResult rfl).bind (reads_u32 hbinding).map

omit hlib in
theorem minBytes_managedAsset (a) : 5 ≤ (managedAssetBytes a).length := by
  have h := fun n => putUvarint_pos n
  simp only [managedAssetBytes, decimalBytes, StateEncoder.text, StateEncoder.blob, StateEncoder.u64,
    length_append, length_cons]
  have h1 := h (textBytes a.name.protocol).length
  have h2 := h (textBytes a.name.type).length
  have h3 := h (textBytes a.name.ticker).length
  have h4 := h a.bindingSat
  omega

theorem reads_managedState {b} (hvalid : b.Valid lib.toAmountLib) (hnormal : b.normalize = b)
    (hvalue : b.value < 2 ^ 63) (hamounts : ∀ a ∈ b.assets, checkDecimal lib a.amount = .ok ())
    (hbindings : ∀ a ∈ b.assets, a.bindingSat < 2 ^ 32) (hsize : (managedBytes b).length < 2 ^ 64) :
    Reads (managedState lib) (managedBytes b) b := by
  have hmin : ∀ a ∈ b.assets, 5 ≤ (managedAssetBytes a).length := fun a _ => minBytes_managedAsset a
  have hcount := length_mul_le_flatMap hmin
  simp only [managedBytes, length_append] at hsize
  have hassets : Reads (counted 5 (managedAsset lib))
      (StateEncoder.u64 b.assets.length ++ b.assets.flatMap managedAssetBytes) b.assets := by
    apply reads_counted (by decide) (by omega) hmin
    intro a ha
    have hentry : (managedAssetBytes a).length ≤ _ := length_le_flatMap managedAssetBytes ha
    exact reads_managedAsset hlib (hamounts a ha) (hbindings a ha) (by omega)
  have hvalidate : (b.validate lib.toAmountLib).mapError StateError.managed = .ok () := by
    rw [validate_eq_ok.mpr hvalid]
    rfl
  have hlow := hvalid.value
  refine (reads_i64 (by omega) hvalue).bind ?_
  rw [← append_nil (_ ++ flatMap _ _)]
  refine hassets.bind ?_
  have hsame : (mk b.value b.assets).normalize = b := hnormal
  rw [hsame]
  exact (Reads.ofResult hvalidate).map

end StateDecoder

namespace ManagedBalance

theorem pairwise_normalizeEntries (assets) :
    (normalizeEntries assets).Pairwise fun a c => c.name.less a.name = false := by
  have htotal : Std.Total fun a c : AssetInfo => c.name.less a.name = false := ⟨fun a c => by
    simp only [AssetName.less_eq_false_iff]
    exact le_total _ _⟩
  have htrans : IsTrans AssetInfo fun a c => c.name.less a.name = false := ⟨fun a c d => by
    simp only [AssetName.less_eq_false_iff]
    exact le_trans⟩
  exact pairwise_insertionSort _ _

theorem normalizeEntries_idem (assets) :
    normalizeEntries (normalizeEntries assets) = normalizeEntries assets := by
  have hfilter : (normalizeEntries assets).filter (fun a => a.amount.sign ≠ 0) =
      normalizeEntries assets := by
    rw [filter_eq_self]
    intro a ha
    rw [normalizeEntries, mem_insertionSort] at ha
    exact (mem_filter.mp ha).2
  conv_lhs => rw [normalizeEntries, hfilter]
  exact (pairwise_normalizeEntries assets).insertionSort_eq

@[simp] theorem normalize_normalize (b : ManagedBalance) : b.normalize.normalize = b.normalize := by
  rw [normalize, normalize, normalizeEntries_idem]

variable {b : ManagedBalance}

theorem mem_of_mem_normalize {a} (h : a ∈ b.normalize.assets) : a ∈ b.assets :=
  mem_of_mem_filter ((perm_insertionSort _ _).mem_iff.mp h)

theorem Valid.normalize {lib} (h : b.Valid lib) : b.normalize.Valid lib where
  value := h.value
  names a ha := h.names a (mem_of_mem_normalize ha)
  distinct := by
    have hperm := (perm_insertionSort (fun a c : AssetInfo => c.name.less a.name = false)
      (b.assets.filter fun a => a.amount.sign ≠ 0)).map (·.name.text)
    exact hperm.nodup_iff.mpr (h.distinct.sublist (filter_sublist.map _))
  amounts a ha := h.amounts a (mem_of_mem_normalize ha)
  nonneg a ha := h.nonneg a (mem_of_mem_normalize ha)

end ManagedBalance

variable {lib} {b : ManagedBalance} {data : Bytes}

theorem marshalBinary_eq_ok : b.marshalBinary lib = .ok data ↔ b.Valid lib.toAmountLib ∧
      (∀ a ∈ b.normalize.assets, checkDecimal lib a.amount = .ok ()) ∧
        managedHeader ++ managedBytes b.normalize = data := by
  simp only [marshalBinary, writeManagedBalance, bind_eq_ok, mapError_eq_ok,
    validate_eq_ok, forM_eq_ok, Except.ok.injEq, exists_const]
  constructor
  · rintro ⟨_, ⟨hvalid, hamounts, rfl⟩, rfl⟩
    exact ⟨hvalid, hamounts, rfl⟩
  · rintro ⟨hvalid, hamounts, rfl⟩
    exact ⟨_, ⟨hvalid, hamounts, rfl⟩, rfl⟩

theorem decodeAll_eq_ok {α : Type} {header bytes : Bytes} {r : StateDecoder α} {a : α}
    (h : Reads r bytes a) : StateDecoder.decodeAll header r (header ++ bytes) = .ok a := by
  have hpre : header.isPrefixOf (header ++ bytes) = true :=
    isPrefixOf_iff_prefix.mpr (prefix_append _ _)
  simp only [StateDecoder.decodeAll, hpre, drop_left, h.run_eq]
  rfl

theorem unmarshal_marshalBinary (hlib : PrecisionRange lib) (h : b.marshalBinary lib = .ok data)
    (hvalue : b.value < 2 ^ 63) (hbindings : ∀ a ∈ b.assets, a.bindingSat < 2 ^ 32)
    (hsize : data.length < 2 ^ 64) : unmarshalManagedBalance lib data = .ok b.normalize := by
  obtain ⟨hvalid, hamounts, rfl⟩ := marshalBinary_eq_ok.mp h
  rw [length_append] at hsize
  apply decodeAll_eq_ok
  exact StateDecoder.reads_managedState hlib hvalid.normalize b.normalize_normalize hvalue hamounts
    (fun a ha => hbindings a (mem_of_mem_normalize ha)) (by omega)

end SatoshiNet.Contract
