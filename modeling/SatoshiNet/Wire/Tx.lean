import Mathlib.Algebra.Order.Monoid.Prod
import Mathlib.Algebra.Order.Pi
import Mathlib.Data.List.Sort
import Mathlib.Data.Rat.Defs
import Mathlib.Tactic.Abel
import Mathlib.Tactic.FieldSimp
import Mathlib.Tactic.Positivity
import SatoshiNet.Lib.Bytes

/-!
Asset names, scaled amounts and asset lists, and transactions as the chain sees them.
The operations on asset lists come from another package.  They are a parameter of the model, with
the laws that their documentation states: sums and differences are exact for every asset name.
-/

namespace SatoshiNet.Wire

open Lib

structure AssetName where
  (protocol type ticker : Text)
deriving DecidableEq

def AssetName.text (n : AssetName) : Text :=
  [':'].intercalate [n.protocol, n.type, n.ticker]

def satoshiAssetName : Text := [':', ':']

def newAssetNameFromString (name : Text) : Option AssetName :=
  match name.splitOn ':' with
  | [protocol, type, ticker] => some ⟨protocol, type, ticker⟩
  | _ => none

structure Decimal where
  (precision value : ℤ)
deriving DecidableEq

/-- One entry of an asset list; `bindingSat` assets ride on each satoshi, zero means unbound. -/
structure AssetInfo where
  name : AssetName
  amount : Decimal
  bindingSat : ℕ
deriving DecidableEq

abbrev TxAssets := List AssetInfo

abbrev Hash := BitVec 256

abbrev Script := Bytes

def zeroHash : Hash := 0

structure OutPoint where
  hash : Hash
  index : UInt32
deriving DecidableEq

structure TxIn where
  previousOutPoint : OutPoint
  signatureScript : Script
deriving DecidableEq

structure TxOut where
  value : ℤ
  assets : TxAssets
  pkScript : Script
deriving DecidableEq

structure Tx where
  hash : Hash
  txIn : List TxIn
  txOut : List TxOut
deriving DecidableEq

def maxPrevOutIndex : UInt32 := 0xffffffff

def anchorTxOutIndex : UInt32 := 0xfffffffe

def Tx.hasMarkerInput (marker : UInt32) (tx : Tx) : Bool :=
  match tx.txIn with
  | [txIn] => txIn.previousOutPoint.index == marker && txIn.previousOutPoint.hash == zeroHash
  | _ => false

def isCoinBase (tx : Tx) : Bool := tx.hasMarkerInput maxPrevOutIndex

def isAnchorTx (tx : Tx) : Bool := tx.hasMarkerInput anchorTxOutIndex

theorem isAnchorTx_of_isCoinBase {tx : Tx} (h : isCoinBase tx = true) : isAnchorTx tx = false := by
  revert h
  simp only [isCoinBase, isAnchorTx, Tx.hasMarkerInput]
  split
  · intro h
    have hidx := eq_of_beq (Bool.and_eq_true_iff.mp h).1
    rw [hidx, show (maxPrevOutIndex == anchorTxOutIndex) = false from by decide, Bool.false_and]
  · intro h
    cases h

def Tx.txID (tx : Tx) : Bytes := hexText 64 tx.hash.toNat

def Tx.outPoint (tx : Tx) (i : ℕ) : OutPoint := ⟨tx.hash, UInt32.ofNat i⟩

def opReturn : UInt8 := 0x6a

def maxScriptSize : ℕ := 10000

/-- A data push whose length is spelled by the `width` bytes after the opcode: the data and what
follows it. -/
def pushData (width : ℕ) (rest : Script) : Option (Script × Script) :=
  if rest.length < width then none
  else
    let dataLen := leNat (rest.take width)
    -- lengths from `2 ^ 31` on are sign extended by the tokenizer and refused
    if dataLen > (rest.drop width).length ∨ dataLen ≥ 2 ^ 31 then none
    else some ((rest.drop width).take dataLen, (rest.drop width).drop dataLen)

structure Token where
  opcode : UInt8
  (data rest : Script)

def nextToken : Script → Option Token
  | [] => none
  | op :: rest =>
    if 1 ≤ op ∧ op ≤ 0x4b then
      if rest.length < op.toNat then none
      else some ⟨op, rest.take op.toNat, rest.drop op.toNat⟩
    else if op = 0x4c then (pushData 1 rest).map fun d => ⟨op, d.1, d.2⟩
    else if op = 0x4d then (pushData 2 rest).map fun d => ⟨op, d.1, d.2⟩
    else if op = 0x4e then (pushData 4 rest).map fun d => ⟨op, d.1, d.2⟩
    else some ⟨op, [], rest⟩

/-- Whether the tokenizer reaches the end of the script; every step consumes a byte, so a
number of steps equal to the script's length is enough. -/
def tokenizes : ℕ → Script → Bool
  | _, [] => true
  | 0, _ :: _ => false
  | n + 1, op :: rest =>
    match nextToken (op :: rest) with
    | none => false
    | some token => tokenizes n token.rest

def checkScriptParses (script : Script) : Bool := tokenizes script.length script

def isUnspendable (pkScript : Script) : Bool :=
  match pkScript with
  | op :: _ => op == opReturn || decide (maxScriptSize < pkScript.length) ||
      !checkScriptParses pkScript
  | [] => false

theorem pushData_length {width : ℕ} {rest} {d} (h : pushData width rest = some d) :
    d.1.length < 2 ^ 31 ∧ d.2.length ≤ rest.length := by
  simp only [pushData] at h
  split_ifs at h
  · cases h
    simp only [List.length_drop, List.length_take]
    omega

theorem nextToken_length {script token} (h : nextToken script = some token) :
    token.data.length < 2 ^ 31 ∧ token.rest.length < script.length := by
  have hpush : ∀ {width : ℕ} {op : UInt8} {rest : Script},
      (pushData width rest).map (fun d => (⟨op, d.1, d.2⟩ : Token)) = some token →
      token.data.length < 2 ^ 31 ∧ token.rest.length < rest.length + 1 := by
    intro width op rest h
    obtain ⟨d, hd, rfl⟩ := Option.map_eq_some_iff.mp h
    have hlen := pushData_length hd
    exact ⟨hlen.1, Nat.lt_succ_of_le hlen.2⟩
  cases script with
  | nil => cases h
  | cons op rest =>
    simp only [nextToken] at h
    simp only [List.length_cons]
    split_ifs at h
    · cases h
      have hop := op.toNat_lt
      simp only [List.length_drop, List.length_take]
      omega
    · exact hpush h
    · exact hpush h
    · exact hpush h
    · cases h
      simp

open List Decimal

def Decimal.toRat (d : Decimal) : ℚ := d.value / (10 : ℚ) ^ d.precision

abbrev Wealth := ℤ × (AssetName → ℚ)

def holdings (assets : TxAssets) : AssetName → ℚ :=
  (assets.map fun a => Pi.single a.name a.amount.toRat).sum

@[simp] theorem holdings_nil : holdings [] = 0 := rfl

theorem holdings_cons (a : AssetInfo) (assets : TxAssets) :
    holdings (a :: assets) = Pi.single a.name a.amount.toRat + holdings assets := by
  rw [holdings, map_cons, sum_cons]
  rfl

/-- A failed merge says what it leaves in the list it was to merge into. -/
structure AssetLib where
  merge : TxAssets → TxAssets → Except TxAssets TxAssets
  split : TxAssets → TxAssets → Option TxAssets
  find : TxAssets → AssetName → Option AssetInfo
  equal : TxAssets → TxAssets → Bool
  validate : Decimal → Bool

theorem ten_zpow_pos (p : ℤ) : (0 : ℚ) < 10 ^ p := zpow_pos (by norm_num) p

def NonnegAssets (assets : TxAssets) : Prop := ∀ a ∈ assets, 0 ≤ a.amount.value

instance (assets : TxAssets) : Decidable (NonnegAssets assets) :=
  inferInstanceAs (Decidable (∀ a ∈ assets, 0 ≤ a.amount.value))

theorem Decimal.toRat_nonneg {d : Decimal} (h : 0 ≤ d.value) : 0 ≤ d.toRat :=
  div_nonneg (Int.cast_nonneg h) (ten_zpow_pos _).le

theorem NonnegAssets.holdings_nonneg {assets} (h : NonnegAssets assets) : 0 ≤ holdings assets := by
  induction assets with
  | nil => exact le_rfl
  | cons a assets ih =>
    obtain ⟨ha, hrest⟩ := forall_mem_cons.mp h
    rw [holdings_cons]
    exact add_nonneg (Pi.single_nonneg.mpr (toRat_nonneg ha)) (ih hrest)

structure AssetLib.Exact (lib : AssetLib) : Prop where
  merge : ∀ {a b c}, lib.merge a b = .ok c → holdings c = holdings a + holdings b
  merge_nonneg : ∀ {a b c}, lib.merge a b = .ok c → NonnegAssets a → NonnegAssets b → NonnegAssets c
  split : ∀ {a b c}, lib.split a b = some c → holdings c + holdings b = holdings a
  /-- Nothing is taken that is not there. -/
  split_nonneg : ∀ {a b c}, lib.split a b = some c → NonnegAssets a → NonnegAssets c
  equal : ∀ {a b}, lib.equal a b = true → holdings a = holdings b

namespace Reference

def scaleTo (precision : ℤ) (d : Decimal) : ℤ := d.value * 10 ^ (precision - d.precision).toNat

def add (d e : Decimal) : Decimal :=
  let precision := max d.precision e.precision
  ⟨precision, scaleTo precision d + scaleTo precision e⟩

def sub (d e : Decimal) : Decimal :=
  let precision := max d.precision e.precision
  ⟨precision, scaleTo precision d - scaleTo precision e⟩

variable {assets : TxAssets} {b : AssetInfo} {d : Decimal}

theorem scaleTo_toRat {precision : ℤ} (h : d.precision ≤ precision) :
    (scaleTo precision d : ℚ) / (10 : ℚ) ^ precision = d.toRat := by
  obtain ⟨k, rfl⟩ : ∃ k : ℕ, precision = d.precision + k := ⟨(precision - d.precision).toNat, by omega⟩
  have hpow := (ten_zpow_pos d.precision).ne'
  have hk : (d.precision + k - d.precision).toNat = k := by omega
  rw [scaleTo, hk, toRat, zpow_add₀ (by norm_num), zpow_natCast]
  push_cast
  field_simp

theorem add_toRat (d e) : (add d e).toRat = d.toRat + e.toRat := by
  rw [← scaleTo_toRat (le_max_left d.precision e.precision),
    ← scaleTo_toRat (le_max_right d.precision e.precision), ← add_div]
  simp [add, toRat]

theorem sub_toRat (d e) : (sub d e).toRat = d.toRat - e.toRat := by
  rw [← scaleTo_toRat (le_max_left d.precision e.precision),
    ← scaleTo_toRat (le_max_right d.precision e.precision), ← sub_div]
  simp [sub, toRat]

def insert (b : AssetInfo) : TxAssets → TxAssets
  | [] => [b]
  | a :: rest =>
    if a.name = b.name then { a with amount := add a.amount b.amount } :: rest
    else a :: insert b rest

def remove (b : AssetInfo) : TxAssets → Option TxAssets
  | [] => if b.amount.value = 0 then some [] else none
  | a :: rest =>
    if a.name = b.name then
      let left := sub a.amount b.amount
      if left.value < 0 then none
      else if left.value = 0 then some rest
      else some ({ a with amount := left } :: rest)
    else (remove b rest).map (a :: ·)

theorem holdings_insert (b assets) :
    holdings (insert b assets) = holdings assets + Pi.single b.name b.amount.toRat := by
  induction assets with
  | nil => simp [insert, holdings_cons]
  | cons a rest ih =>
    rw [insert]
    split_ifs with hname
    · simp only [holdings_cons, add_toRat, hname, Pi.single_add]
      abel
    · rw [holdings_cons, ih, holdings_cons, add_assoc]

theorem nonneg_insert (hb : 0 ≤ b.amount.value) (h : NonnegAssets assets) :
    NonnegAssets (insert b assets) := by
  have hadd : ∀ d e : Decimal, 0 ≤ d.value → 0 ≤ e.value → 0 ≤ (add d e).value := by
    intro d e hd he
    simp only [add, scaleTo]
    positivity
  induction assets with
  | nil => simpa [insert, NonnegAssets] using hb
  | cons a rest ih =>
    obtain ⟨ha, hrest⟩ := forall_mem_cons.mp h
    rw [insert]
    split
    · exact forall_mem_cons.mpr ⟨hadd _ _ ha hb, hrest⟩
    · exact forall_mem_cons.mpr ⟨ha, ih hrest⟩

theorem holdings_foldl_insert (a acc) :
    holdings (a.foldl (fun acc x => insert x acc) acc) = holdings acc + holdings a := by
  induction a generalizing acc with
  | nil => simp
  | cons x a ih => rw [foldl_cons, ih, holdings_insert, holdings_cons, add_assoc]

theorem nonneg_foldl_insert {a acc} (ha : NonnegAssets a) (hacc : NonnegAssets acc) :
    NonnegAssets (a.foldl (fun acc x => insert x acc) acc) :=
  foldlRecOn (motive := NonnegAssets) a _ hacc fun _ h x hx => nonneg_insert (ha x hx) h

theorem toRat_eq_zero (h : d.value = 0) : d.toRat = 0 := by
  rw [toRat, h, Int.cast_zero, zero_div]

theorem remove_spec {left} (h : remove b assets = some left) :
    holdings left + Pi.single b.name b.amount.toRat = holdings assets ∧
      (NonnegAssets assets → NonnegAssets left) := by
  induction assets generalizing left with
  | nil =>
    simp only [remove, Option.ite_none_right_eq_some] at h
    obtain ⟨hzero, ⟨⟩⟩ := h
    simp [toRat_eq_zero hzero]
  | cons a rest ih =>
    simp only [remove] at h
    split_ifs at h with hname hneg hzero
    · cases h
      have hsum := sub_toRat a.amount b.amount
      rw [toRat_eq_zero hzero, eq_comm, sub_eq_zero] at hsum
      exact ⟨by rw [holdings_cons, hname, hsum, add_comm], fun hn => (forall_mem_cons.mp hn).2⟩
    · cases h
      refine ⟨?_, fun hn => forall_mem_cons.mpr ⟨not_lt.mp hneg, (forall_mem_cons.mp hn).2⟩⟩
      simp only [holdings_cons, sub_toRat, hname, Pi.single_sub]
      abel
    · obtain ⟨left', hleft', rfl⟩ := Option.map_eq_some_iff.mp h
      obtain ⟨hsum, hnonneg⟩ := ih hleft'
      refine ⟨by rw [holdings_cons, holdings_cons, ← hsum, add_assoc], fun hn => ?_⟩
      obtain ⟨ha, hrest⟩ := forall_mem_cons.mp hn
      exact forall_mem_cons.mpr ⟨ha, hnonneg hrest⟩

theorem remove_all_spec {a b c} (h : b.foldlM (fun acc x => remove x acc) a = some c) :
    holdings c + holdings b = holdings a ∧ (NonnegAssets a → NonnegAssets c) := by
  induction b generalizing a with
  | nil =>
    cases h
    exact ⟨add_zero _, id⟩
  | cons x b ih =>
    rw [foldlM_cons] at h
    obtain ⟨mid, hmid, hrest⟩ := Option.bind_eq_some_iff.mp h
    obtain ⟨hsum, hnonneg⟩ := remove_spec hmid
    obtain ⟨hsum', hnonneg'⟩ := ih hrest
    refine ⟨?_, hnonneg' ∘ hnonneg⟩
    rw [← hsum, ← hsum', holdings_cons]
    abel

def lib : AssetLib where
  merge a b := .ok (b.foldl (fun acc x => insert x acc) a)
  split a b := b.foldlM (fun acc x => remove x acc) a
  find a name := a.find? fun x => x.name = name
  equal a b := decide (a = b)
  validate d := decide (0 ≤ d.precision)

theorem lib_exact : lib.Exact where
  merge := by
    intro a b c h
    obtain rfl := Except.ok.inj h
    exact holdings_foldl_insert b a
  merge_nonneg := by
    intro a b c h ha hb
    obtain rfl := Except.ok.inj h
    exact nonneg_foldl_insert hb ha
  split h := (remove_all_spec h).1
  split_nonneg h := (remove_all_spec h).2
  equal := by
    intro a b h
    rw [of_decide_eq_true h]

end Reference

end SatoshiNet.Wire
