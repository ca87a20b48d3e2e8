import Mathlib.Data.Char
import Mathlib.Data.Rat.Floor
import SatoshiNet.Wire.Tx

/-!
Decimal amounts, the asset list builder and the decimal arithmetic of the template contracts,
parameters with laws: amounts, sums and differences are exact, a new precision cuts off what does not
fit, a built list has one entry for each name, and a text says the amount it was made from.
-/

namespace SatoshiNet.Wire

open AssetInfo List Decimal

section

def Decimal.sign (d : Decimal) : ℤ := d.value.sign

def newDefaultDecimal (v : ℤ) : Decimal := ⟨0, v⟩

@[simp] theorem toRat_newDefaultDecimal (v : ℤ) : (newDefaultDecimal v).toRat = v := by
  simp [newDefaultDecimal, toRat]

variable {d : Decimal}

theorem Decimal.sign_pos_iff : 0 < d.sign ↔ 0 < d.value := Int.sign_pos_iff

theorem Decimal.sign_neg_iff : d.sign < 0 ↔ d.value < 0 := Int.sign_neg_iff

theorem Decimal.sign_eq_zero_iff : d.sign = 0 ↔ d.value = 0 := Int.sign_eq_zero_iff_zero

theorem Decimal.toRat_pos_iff : 0 < d.toRat ↔ 0 < d.value := by
  rw [toRat, div_pos_iff_of_pos_right (ten_zpow_pos _), Int.cast_pos]

theorem Decimal.toRat_nonneg_iff : 0 ≤ d.toRat ↔ 0 ≤ d.value := by
  rw [toRat, le_div_iff₀ (ten_zpow_pos _), zero_mul, Int.cast_nonneg_iff]

theorem Decimal.toRat_eq_zero_iff : d.toRat = 0 ↔ d.value = 0 := by
  rw [toRat, div_eq_zero_iff, or_iff_left (ten_zpow_pos _).ne', Int.cast_eq_zero]

theorem Decimal.sign_nonpos_iff : d.sign ≤ 0 ↔ d.toRat ≤ 0 := by
  rw [← not_lt, sign_pos_iff, ← toRat_pos_iff, not_lt]

def AssetName.less (a c : AssetName) : Bool :=
  if a.protocol ≠ c.protocol then a.protocol < c.protocol
  else if a.type ≠ c.type then a.type < c.type
  else a.ticker < c.ticker

def AssetName.sortKey (a : AssetName) : Text ×ₗ Text ×ₗ Text := toLex (a.protocol, toLex (a.type, a.ticker))

theorem AssetName.less_iff {a c : AssetName} : a.less c = true ↔ a.sortKey < c.sortKey := by
  rw [sortKey, sortKey, Prod.Lex.toLex_lt_toLex, Prod.Lex.toLex_lt_toLex, less]
  by_cases hprotocol : a.protocol = c.protocol
  · by_cases htype : a.type = c.type <;> simp [hprotocol, htype]
  · simp [hprotocol]

theorem AssetName.less_eq_false_iff {a c : AssetName} :
    c.less a = false ↔ a.sortKey ≤ c.sortKey := by
  rw [← Bool.not_eq_true, less_iff, not_lt]

structure AmountLib extends AssetLib where
  build : TxAssets → TxAssets
  newPrecision : Decimal → ℤ → Decimal
  (addAlignPrecision subAlignPrecision : Decimal → Decimal → Decimal)
  cmp : Decimal → Decimal → Ordering
  toText : Decimal → Text
  (getBindingSatAmount getUnboundAssetCount : TxAssets → ℤ)

def cut (precision : ℤ) (q : ℚ) : ℚ := ⌊q * 10 ^ precision⌋ / 10 ^ precision

structure AmountLib.Exact (lib : AmountLib) : Prop extends AssetLib.Exact lib.toAssetLib where
  build : ∀ a, holdings (lib.build a) = holdings a
  build_nonneg : ∀ {a}, NonnegAssets a → NonnegAssets (lib.build a)
  build_nodup : ∀ a, ((lib.build a).map name).Nodup
  /-- A list that needs no merging is only reordered. -/
  build_perm : ∀ {a}, (a.map name).Nodup → (∀ x ∈ a, 0 < x.amount.value) → (lib.build a).Perm a
  add : ∀ d e, (lib.addAlignPrecision d e).toRat = d.toRat + e.toRat
  sub : ∀ d e, (lib.subAlignPrecision d e).toRat = d.toRat - e.toRat
  cmp : ∀ d e, lib.cmp d e = compare d.toRat e.toRat
  precision : ∀ {d p}, 0 ≤ p → (lib.newPrecision d p).precision = p
  newPrecision : ∀ {d p}, 0 ≤ p → 0 ≤ d.value → (lib.newPrecision d p).toRat = cut p d.toRat

/-! ### Cutting off decimal places -/

variable (p : ℤ) (q : ℚ)

theorem cut_le : cut p q ≤ q := (div_le_iff₀ (ten_zpow_pos p)).mpr (Int.floor_le _)

theorem lt_cut_add : q < cut p q + (10 ^ p)⁻¹ := by
  rw [cut, ← one_div, ← add_div, lt_div_iff₀ (ten_zpow_pos p)]
  exact Int.lt_floor_add_one _

theorem cut_nonneg {q : ℚ} (h : 0 ≤ q) : 0 ≤ cut p q := by
  have hpow := ten_zpow_pos p
  exact div_nonneg (Int.cast_nonneg (Int.floor_nonneg.mpr (mul_nonneg h hpow.le))) hpow.le

theorem cut_of_eq_div {p : ℤ} {q : ℚ} {k : ℤ} (h : q = k / 10 ^ p) : cut p q = q := by
  rw [h, cut, div_mul_cancel₀ _ (ten_zpow_pos p).ne', Int.floor_intCast]

theorem cut_cut : cut p (cut p q) = cut p q := cut_of_eq_div rfl

theorem holdings_append (a b) : holdings (a ++ b) = holdings a + holdings b := by
  rw [holdings, map_append, sum_append]
  rfl

theorem holdings_perm {a b} (h : a.Perm b) : holdings a = holdings b := (h.map _).sum_eq

theorem NonnegAssets.perm {a b} (h : a.Perm b) (ha : NonnegAssets a) : NonnegAssets b :=
  fun x hx => ha x (h.mem_iff.mpr hx)

namespace Reference

def build (a : TxAssets) : TxAssets :=
  (a.foldl (fun acc x => insert x acc) []).insertionSort fun x y => y.name.less x.name = false

def newPrecision (d : Decimal) (p : ℤ) : Decimal :=
  ⟨p, if d.precision ≤ p then scaleTo p d else d.value.tdiv (10 ^ (d.precision - p).toNat)⟩

variable {acc : TxAssets}

theorem names_insert (b assets) : (insert b assets).map name = if b.name ∈ assets.map name
      then assets.map name else assets.map name ++ [b.name] := by
  induction assets with
  | nil => simp [insert]
  | cons a rest ih =>
    rw [insert]
    by_cases hname : a.name = b.name
    · simp [hname]
    · rw [if_neg hname, map_cons, ih]
      by_cases hmem : b.name ∈ rest.map name <;> simp [hmem, Ne.symm hname]

variable (a : TxAssets)

theorem nodup_foldl_insert (h : (acc.map name).Nodup) :
    ((a.foldl (fun acc x => insert x acc) acc).map name).Nodup := by
  induction a generalizing acc with
  | nil => exact h
  | cons x a ih =>
    refine ih ?_
    rw [names_insert]
    split_ifs with hmem
    · exact h
    · rw [← concat_eq_append]
      exact h.concat hmem

theorem insert_of_not_mem {b assets} (h : b.name ∉ assets.map name) :
    insert b assets = assets ++ [b] := by
  induction assets with
  | nil => rfl
  | cons a rest ih =>
    obtain ⟨hne, hrest⟩ := not_or.mp (mt mem_cons.mpr h)
    rw [insert, if_neg (Ne.symm hne), ih hrest, cons_append]

theorem foldl_insert_of_nodup (h : ((acc ++ a).map name).Nodup) :
    a.foldl (fun acc x => insert x acc) acc = acc ++ a := by
  induction a generalizing acc with
  | nil => rw [foldl_nil, append_nil]
  | cons x a ih =>
    have hnew : x.name ∉ acc.map name := by
      rw [map_append, map_cons] at h
      exact fun hmem => (nodup_append.mp h).2.2 _ hmem _ mem_cons_self rfl
    rw [foldl_cons, insert_of_not_mem hnew, ih (by simpa using h), append_assoc, singleton_append]

theorem newPrecision_toRat {d} (p : ℤ) (h : 0 ≤ d.value) :
    (newPrecision d p).toRat = cut p d.toRat := by
  by_cases hp : d.precision ≤ p
  · have hnew : (newPrecision d p).toRat = (scaleTo p d : ℚ) / 10 ^ p := by
      simp only [newPrecision, if_pos hp, toRat]
    rw [hnew, cut_of_eq_div (scaleTo_toRat hp).symm, scaleTo_toRat hp]
  obtain ⟨k, hk⟩ : ∃ k : ℕ, d.precision = p + k := ⟨(d.precision - p).toNat, by omega⟩
  have hpow := (ten_zpow_pos p).ne'
  have hexp : (d.precision - p).toNat = k := by omega
  have hscaled : d.toRat * 10 ^ p = (d.value : ℚ) / (10 ^ k : ℕ) := by
    rw [toRat, hk, zpow_add₀ (by norm_num), zpow_natCast]
    push_cast
    field_simp
  simp only [newPrecision, if_neg hp, hexp, toRat, Int.tdiv_eq_ediv_of_nonneg h]
  rw [cut]
  simp only [toRat] at hscaled
  rw [hscaled, Rat.floor_intCast_div_natCast]
  push_cast
  rfl

def amountLib : AmountLib where
  merge a b := .ok (build (a ++ b))
  split := lib.split
  find := lib.find
  equal := lib.equal
  validate := lib.validate
  build := build
  newPrecision := newPrecision
  addAlignPrecision := add
  subAlignPrecision := sub
  cmp d e := compare d.toRat e.toRat
  toText d := (toString d.value).toList
  getBindingSatAmount a := (a.map fun x =>
    if x.bindingSat = 0 then 0 else (newPrecision x.amount 0).value.tdiv x.bindingSat).sum
  getUnboundAssetCount _ := 0

theorem build_perm :
    (build a).Perm (a.foldl (fun acc x => insert x acc) []) := perm_insertionSort _ _

theorem holdings_build : holdings (build a) = holdings a := by
  rw [holdings_perm (build_perm a), holdings_foldl_insert, holdings_nil, zero_add]

theorem nonneg_build {a} (h : NonnegAssets a) : NonnegAssets (build a) :=
  (nonneg_foldl_insert h (forall_mem_nil _)).perm (build_perm a).symm

theorem amountLib_exact : amountLib.Exact where
  merge := by
    intro a b c h
    cases h
    rw [holdings_build, holdings_append]
  merge_nonneg := by
    intro a b c h ha hb
    cases h
    exact nonneg_build (forall_mem_append.mpr ⟨ha, hb⟩)
  split := lib_exact.split
  split_nonneg := lib_exact.split_nonneg
  equal := lib_exact.equal
  build := holdings_build
  build_nonneg := nonneg_build
  build_nodup a := ((build_perm a).map _).nodup_iff.mpr (nodup_foldl_insert a nodup_nil)
  build_perm := by
    intro a hnodup _
    have hsame : a.foldl (fun acc x => insert x acc) [] = [] ++ a := foldl_insert_of_nodup a hnodup
    exact (build_perm a).trans (List.Perm.of_eq hsame)
  add := add_toRat
  sub := sub_toRat
  cmp _ _ := rfl
  precision _ := rfl
  newPrecision _ h := newPrecision_toRat _ h

end Reference

end

open Option

structure DecimalLib extends AmountLib where
  newDecimal : ℤ → ℤ → Decimal
  newDecimalFromString : Text → ℤ → Option Decimal
  newDecimalFromFormatString : Text → Option Decimal
  (decimalAdd decimalSub decimalMul decimalMulV2 : Decimal → Decimal → Decimal)
  decimalDiv : Decimal → Decimal → Option Decimal
  sqrt : Decimal → Decimal
  (floorInt64 ceilInt64 : Decimal → Option ℤ)
  int64 : Decimal → ℤ
  subtract : TxAssets → AssetInfo → Option TxAssets
  getBindingSatNum : Decimal → ℕ → ℤ
  maxPrecision : ℤ

def inInt64 (n : ℤ) : Bool := -2 ^ 63 ≤ n && n < 2 ^ 63

namespace DecimalLib

variable (lib : DecimalLib)

/-- The reading of an amount text: without a place count in the text it has its own places. -/
def parseDecimalAmountString (text : Text) : Option Decimal :=
  if ':' ∈ text then lib.newDecimalFromFormatString text
  else if '.' ∈ text then
    lib.newDecimalFromString text ((text.dropWhile (· ≠ '.')).length - 1)
  else lib.newDecimalFromFormatString text

structure Lawful : Prop extends exact : AmountLib.Exact lib.toAmountLib where
  newDecimal_zero : ∀ p, (lib.newDecimal 0 p).toRat = 0
  zeroText : ∀ {p d}, lib.newDecimalFromString ['0'] p = some d → d.toRat = 0
  decimalAdd : ∀ d e, (lib.decimalAdd d e).toRat = d.toRat + e.toRat
  decimalSub : ∀ d e, (lib.decimalSub d e).toRat = d.toRat - e.toRat
  toText_ne_nil : ∀ d, lib.toText d ≠ []
  parse_precision : ∀ {t p d}, lib.newDecimalFromString t p = some d → d.precision = p
  parse_toText : ∀ {d p}, 0 ≤ d.value → cut p d.toRat = d.toRat →
    ∃ e, lib.newDecimalFromString (lib.toText d) p = some e ∧ e.toRat = d.toRat
  /-- Places that are too few cut the amount off or refuse it. -/
  parse_toText_le : ∀ {d p e}, 0 ≤ d.value →
    lib.newDecimalFromString (lib.toText d) p = some e → 0 ≤ e.toRat ∧ e.toRat ≤ d.toRat
  parseAmount_toText : ∀ {d}, 0 ≤ d.value →
    ∃ e, lib.parseDecimalAmountString (lib.toText d) = some e ∧ e.toRat = d.toRat

structure AssetLaws : Prop where
  find_mem : ∀ {a n x}, lib.find a n = some x → x ∈ a
  subtract_nonneg : ∀ {a x b}, lib.subtract a x = some b → NonnegAssets a → NonnegAssets b

end DecimalLib

namespace Reference

def ofRat (precision : ℤ) (q : ℚ) : Decimal := ⟨precision, ⌊q * 10 ^ precision⌋⟩

def signedDigits (n : ℤ) : Text := (if n < 0 then '-' else '+') :: Nat.toDigits 10 n.natAbs

def readDigits (t : Text) : ℤ :=
  let n : ℤ := Nat.ofDigitChars 10 t.tail 0
  if t.head? = some '-' then -n else n

theorem readDigits_signedDigits (n : ℤ) : readDigits (signedDigits n) = n := by
  simp only [readDigits, signedDigits, tail_cons, head?_cons, Nat.ofDigitChars_ten_toDigits]
  by_cases hneg : n < 0
  · rw [if_pos hneg, if_pos rfl]
    omega
  · rw [if_neg hneg, if_neg (by decide)]
    omega

theorem colon_not_mem_signedDigits (n : ℤ) : ':' ∉ signedDigits n := by
  rw [signedDigits, mem_cons]
  rintro (h | h)
  · split at h <;> exact absurd h (by decide)
  · exact absurd (Nat.isDigit_of_mem_toDigits (by decide) (by decide) h) (by decide)

def decimalText (d : Decimal) : Text := signedDigits d.value ++ ':' :: signedDigits d.precision

def decodeText (t : Text) : Option Decimal :=
  if ':' ∈ t then
    some ⟨readDigits (t.dropWhile (· ≠ ':')).tail, readDigits (t.takeWhile (· ≠ ':'))⟩
  -- a whole number has no place count
  else if t.all Char.isDigit then some ⟨0, Nat.ofDigitChars 10 t 0⟩
  else none

theorem colon_mem_decimalText (d) : ':' ∈ decimalText d :=
  mem_append_right _ mem_cons_self

theorem decodeText_decimalText (d) : decodeText (decimalText d) = some d := by
  have hbefore : ∀ c ∈ signedDigits d.value, (c ≠ ':') := fun c hc h =>
    colon_not_mem_signedDigits d.value (h ▸ hc)
  rw [decodeText, if_pos (colon_mem_decimalText d), decimalText,
    takeWhile_append_of_pos (by simpa using hbefore),
    dropWhile_append_of_pos (by simpa using hbefore)]
  simp [readDigits_signedDigits]

def decimalLib : DecimalLib where
  toAmountLib := { amountLib with toText := decimalText }
  newDecimal v p := ofRat p v
  newDecimalFromString t p := (decodeText t).map fun d => ofRat p d.toRat
  newDecimalFromFormatString := decodeText
  decimalAdd := add
  decimalSub := sub
  decimalMul d e := ofRat d.precision (d.toRat * e.toRat)
  decimalMulV2 d e := ofRat (d.precision + e.precision) (d.toRat * e.toRat)
  decimalDiv d e := if e.value = 0 then none else some (ofRat d.precision (d.toRat / e.toRat))
  sqrt d := ofRat d.precision (Nat.sqrt ⌊d.toRat⌋.toNat)
  floorInt64 d := if inInt64 ⌊d.toRat⌋ then some ⌊d.toRat⌋ else none
  ceilInt64 d := if inInt64 ⌈d.toRat⌉ then some ⌈d.toRat⌉ else none
  int64 d := ⌊d.toRat⌋
  subtract assets a := amountLib.split assets [a]
  getBindingSatNum d n := if n = 0 then 0 else ⌊d.toRat⌋ / n
  maxPrecision := 18

theorem decimalLib_lawful : decimalLib.Lawful where
  exact := { amountLib_exact with }
  newDecimal_zero p := by
    show cut p ((0 : ℤ) : ℚ) = 0
    simp [cut]
  zeroText {p d} h := by
    have hzero : decodeText ['0'] = some ⟨0, 0⟩ := by decide
    simp only [decimalLib, hzero, map_some, Option.some.injEq] at h
    rw [← h]
    show cut p (Decimal.toRat ⟨0, 0⟩) = 0
    simp [cut, Decimal.toRat]
  decimalAdd := add_toRat
  decimalSub := sub_toRat
  toText_ne_nil d := append_ne_nil_of_right_ne_nil _ (cons_ne_nil _ _)
  parse_precision h := by
    obtain ⟨e, -, rfl⟩ := map_eq_some_iff.mp h
    rfl
  parse_toText {d p} _ hfit :=
    ⟨ofRat p d.toRat, congrArg (Option.map _) (decodeText_decimalText d), hfit⟩
  parse_toText_le {d p e} hd h := by
    obtain ⟨d', hd', rfl⟩ := map_eq_some_iff.mp h
    obtain rfl := some.inj ((decodeText_decimalText d).symm.trans hd')
    exact ⟨cut_nonneg _ (Decimal.toRat_nonneg hd), cut_le _ _⟩
  parseAmount_toText {d} _ :=
    ⟨d, (if_pos (colon_mem_decimalText d)).trans (decodeText_decimalText d), rfl⟩

theorem decimalLib_assetLaws : decimalLib.AssetLaws where
  find_mem h := mem_of_find?_eq_some h
  subtract_nonneg h := amountLib_exact.split_nonneg h

end Reference

end SatoshiNet.Wire
