import SatoshiNet.Lib.Fold
import SatoshiNet.Wire.AmountLib

/-!
The quantity ledger of a contract: accepted satoshis and assets, with staged credits and debits; and
the decimal places an asset may have in a Result, with asset sets cut to them.
-/

namespace SatoshiNet.Contract

open Lib Wire List

def maxInt64 : ℤ := 2 ^ 63 - 1

def minInt64 : ℤ := -2 ^ 63

structure ManagedBalance where
  value : ℤ
  assets : TxAssets
deriving DecidableEq

inductive ManagedError
  | negativeSats
  | invalidAsset (name : Text)
  | duplicateAsset (name : Text)
  | assetAmount (name : Text)
  | negativeAsset (name : Text)
  | conflictingBinding (name : Text)
  | satsOverflow | merge
  | satsDeficit (spend available : ℤ)
  | assetDeficit | emptyName
deriving DecidableEq

abbrev ManagedM := Except ManagedError

namespace ManagedBalance

def worth (b : ManagedBalance) : Wealth := (b.value, holdings b.assets)

variable (lib : AmountLib)

def validateAsset (seen : List Text) (asset : AssetInfo) : ManagedM (List Text) :=
  let name := asset.name.text
  if name = satoshiAssetName ∨ asset.name.protocol = [] then .error (.invalidAsset name)
  else if name ∈ seen then .error (.duplicateAsset name)
  else if lib.validate asset.amount = false then .error (.assetAmount name)
  else if asset.amount.sign < 0 then .error (.negativeAsset name)
  else .ok (name :: seen)

variable (b : ManagedBalance) (assets : TxAssets)

def validate : ManagedM Unit :=
  if b.value < 0 then .error .negativeSats
  else do
    let _ ← b.assets.foldlM (validateAsset lib) []
    .ok ()

def normalizeEntries : TxAssets :=
  (assets.filter fun a => a.amount.sign ≠ 0).insertionSort fun a c => c.name.less a.name = false

def conflict (incoming : AssetInfo) : Bool :=
  b.assets.any fun existing =>
    incoming.name = existing.name && incoming.bindingSat ≠ existing.bindingSat

def checkAssetBindings : ManagedM Unit :=
  match assets.find? b.conflict with
  | some incoming => .error (.conflictingBinding incoming.name.text)
  | none => .ok ()

def credit (value : ℤ) (assets : TxAssets) : ManagedM ManagedBalance := do
  b.validate lib
  (ManagedBalance.mk value assets).validate lib
  b.checkAssetBindings assets
  require (value ≤ maxInt64 - b.value) .satsOverflow
  let merged ← (lib.merge b.assets assets).mapError fun _ => .merge
  .ok ⟨b.value + value, normalizeEntries merged⟩

def splitEntries (held spent : TxAssets) : ManagedM TxAssets :=
  if spent = [] then .ok held else orError (lib.split held spent) .assetDeficit

def debit (value : ℤ) (assets : TxAssets) : ManagedM ManagedBalance := do
  b.validate lib
  (ManagedBalance.mk value assets).validate lib
  b.checkAssetBindings assets
  require (value ≤ b.value) (.satsDeficit value b.value)
  let left ← splitEntries lib (normalizeEntries b.assets) assets
  .ok ⟨b.value - value, normalizeEntries left⟩

def isZero : Bool :=
  b.value = 0 && b.assets.all fun a => a.amount.sign = 0

def carrierUnits (asset : AssetInfo) : ℤ :=
  if asset.bindingSat = 0 ∨ asset.amount.sign = 0 then 0
  else (lib.newPrecision asset.amount 0).value.tdiv asset.bindingSat

def carrierTotal : ℤ := (assets.map (carrierUnits lib)).sum

def plainValue : ManagedM ℤ := do
  b.validate lib
  .ok (if b.value ≤ carrierTotal lib b.assets then 0 else b.value - carrierTotal lib b.assets)

def assetAmount (name : Text) : ManagedM Decimal :=
  if name = [] then .error .emptyName
  else if name = satoshiAssetName then (b.plainValue lib).map newDefaultDecimal
  else .ok (((b.assets.find? fun a => a.name.text = name).map (·.amount)).getD
    (newDefaultDecimal 0))

/-! ### What the checks make sure of -/

structure Valid (b : ManagedBalance) : Prop where
  value : 0 ≤ b.value
  names : ∀ a ∈ b.assets, a.name.text ≠ satoshiAssetName ∧ a.name.protocol ≠ []
  distinct : (b.assets.map (·.name.text)).Nodup
  amounts : ∀ a ∈ b.assets, lib.validate a.amount = true
  nonneg : NonnegAssets b.assets

variable {lib} {r : Unit} {seen seen' : List Text}

theorem validateAsset_eq_ok {asset} : validateAsset lib seen asset = .ok seen' ↔
      (asset.name.text ≠ satoshiAssetName ∧ asset.name.protocol ≠ []) ∧ asset.name.text ∉ seen ∧
        lib.validate asset.amount = true ∧ 0 ≤ asset.amount.value ∧
        asset.name.text :: seen = seen' := by
  simp [validateAsset, ite_error_eq_ok, Decimal.sign_neg_iff]

variable {assets : TxAssets} {b b' : ManagedBalance} {value : ℤ}

theorem foldlM_validateAsset_eq_ok : assets.foldlM (validateAsset lib) seen = .ok seen' ↔
      (∀ a ∈ assets, a.name.text ≠ satoshiAssetName ∧ a.name.protocol ≠ []) ∧
        (assets.map (·.name.text)).Nodup ∧ (∀ a ∈ assets, a.name.text ∉ seen) ∧
        (∀ a ∈ assets, lib.validate a.amount = true) ∧ NonnegAssets assets ∧
        (assets.map (·.name.text)).reverse ++ seen = seen' := by
  induction assets generalizing seen with
  | nil => simp [NonnegAssets, pure, Except.pure]
  | cons a assets ih =>
    rw [foldlM_cons_eq_ok]
    constructor
    · rintro ⟨t, ht, hrest⟩
      obtain ⟨hname, hseen, hamount, hnonneg, rfl⟩ := validateAsset_eq_ok.mp ht
      obtain ⟨hnames, hnodup, hfresh, hamounts, hall, rfl⟩ := ih.mp hrest
      refine ⟨forall_mem_cons.mpr ⟨hname, hnames⟩, ?_, ?_,
        forall_mem_cons.mpr ⟨hamount, hamounts⟩, forall_mem_cons.mpr ⟨hnonneg, hall⟩, ?_⟩
      · refine nodup_cons.mpr ⟨fun hmem => ?_, hnodup⟩
        obtain ⟨b, hb, heq⟩ := mem_map.mp hmem
        exact hfresh b hb (heq ▸ mem_cons_self)
      · exact forall_mem_cons.mpr
          ⟨hseen, fun b hb hmem => hfresh b hb (mem_cons_of_mem _ hmem)⟩
      · simp
    · rintro ⟨hnames, hnodup, hfresh, hamounts, hall, rfl⟩
      obtain ⟨hname, hnames⟩ := forall_mem_cons.mp hnames
      obtain ⟨hseen, hfresh⟩ := forall_mem_cons.mp hfresh
      obtain ⟨hamount, hamounts⟩ := forall_mem_cons.mp hamounts
      obtain ⟨hnonneg, hall⟩ := forall_mem_cons.mp hall
      obtain ⟨hnew, hnodup⟩ := nodup_cons.mp hnodup
      refine ⟨_, validateAsset_eq_ok.mpr ⟨hname, hseen, hamount, hnonneg, rfl⟩,
        ih.mpr ⟨hnames, hnodup, fun b hb hmem => ?_, hamounts, hall, by simp⟩⟩
      obtain heq | hmem := mem_cons.mp hmem
      · exact hnew (mem_map.mpr ⟨b, hb, heq⟩)
      · exact hfresh b hb hmem

theorem validate_eq_ok : b.validate lib = .ok r ↔ b.Valid lib := by
  rw [validate, ite_error_eq_ok, not_lt, bind_eq_ok]
  constructor
  · rintro ⟨hvalue, seen, hseen, _⟩
    obtain ⟨hnames, hnodup, _, hamounts, hnonneg, _⟩ := foldlM_validateAsset_eq_ok.mp hseen
    exact ⟨hvalue, hnames, hnodup, hamounts, hnonneg⟩
  · intro h
    exact ⟨h.value, _, foldlM_validateAsset_eq_ok.mpr
      ⟨h.names, h.distinct, fun _ _ => not_mem_nil, h.amounts, h.nonneg, rfl⟩, rfl⟩

def Agrees (b : ManagedBalance) (assets : TxAssets) : Prop :=
  ∀ incoming ∈ assets, ∀ existing ∈ b.assets,
    incoming.name = existing.name → incoming.bindingSat = existing.bindingSat

theorem checkAssetBindings_eq_ok : b.checkAssetBindings assets = .ok r ↔ b.Agrees assets := by
  have hfind : (assets.find? b.conflict = none) ↔ b.Agrees assets := by
    simp [find?_eq_none, conflict, Agrees]
  rw [checkAssetBindings, ← hfind]
  cases assets.find? b.conflict <;> simp

theorem credit_eq_ok :
    b.credit lib value assets = .ok b' ↔ b.Valid lib ∧ (ManagedBalance.mk value assets).Valid lib ∧
      b.Agrees assets ∧ value ≤ maxInt64 - b.value ∧
      ∃ merged, lib.merge b.assets assets = .ok merged ∧
        ⟨b.value + value, normalizeEntries merged⟩ = b' := by
  simp [credit, bind_eq_ok, validate_eq_ok, checkAssetBindings_eq_ok, require_eq_ok, mapError_eq_ok]

theorem debit_eq_ok :
    b.debit lib value assets = .ok b' ↔ b.Valid lib ∧ (ManagedBalance.mk value assets).Valid lib ∧
      b.Agrees assets ∧ value ≤ b.value ∧
      ∃ left, splitEntries lib (normalizeEntries b.assets) assets = .ok left ∧
        ⟨b.value - value, normalizeEntries left⟩ = b' := by
  simp [debit, bind_eq_ok, validate_eq_ok, checkAssetBindings_eq_ok, require_eq_ok]

theorem holdings_filter_sign (assets) :
    holdings (assets.filter fun a => a.amount.sign ≠ 0) = holdings assets := by
  induction assets with
  | nil => rfl
  | cons a assets ih =>
    rw [filter_cons]
    by_cases hzero : a.amount.sign = 0
    · rw [if_neg (by simpa using hzero), ih, holdings_cons,
        Decimal.toRat_eq_zero_iff.mpr (Decimal.sign_eq_zero_iff.mp hzero), Pi.single_zero, zero_add]
    · rw [if_pos (by simpa using hzero), holdings_cons, ih, holdings_cons]

@[simp] theorem holdings_normalizeEntries (assets) :
    holdings (normalizeEntries assets) = holdings assets := by
  rw [normalizeEntries, holdings_perm (perm_insertionSort _ _), holdings_filter_sign]

theorem nonneg_normalizeEntries (h : NonnegAssets assets) :
    NonnegAssets (normalizeEntries assets) := by
  refine NonnegAssets.perm (perm_insertionSort _ _).symm fun a ha => ?_
  exact h a (mem_of_mem_filter ha)

theorem credit_worth (hlib : lib.Exact) (h : b.credit lib value assets = .ok b') :
    b'.worth = b.worth + (value, holdings assets) := by
  obtain ⟨_, _, _, _, merged, hmerge, rfl⟩ := credit_eq_ok.mp h
  rw [worth, holdings_normalizeEntries, hlib.merge hmerge]
  rfl

theorem split_spec (hlib : lib.Exact) {E : Type} {e : E} {held spent left : TxAssets}
    (h : (if spent = [] then .ok held else orError (lib.split held spent) e) = .ok left) :
    holdings left + holdings spent = holdings held ∧ (NonnegAssets held → NonnegAssets left) := by
  split_ifs at h with hnil
  · cases h
    exact ⟨by rw [hnil, holdings_nil, add_zero], id⟩
  · exact ⟨hlib.split (orError_eq_ok.mp h), hlib.split_nonneg (orError_eq_ok.mp h)⟩

theorem debit_spec (hlib : lib.Exact) (h : b.debit lib value assets = .ok b') :
    b'.worth + (value, holdings assets) = b.worth ∧ 0 ≤ b'.worth := by
  obtain ⟨hb, _, _, hle, left, hleft, rfl⟩ := debit_eq_ok.mp h
  obtain ⟨hsum, hnonneg⟩ := split_spec hlib hleft
  rw [holdings_normalizeEntries] at hsum
  constructor
  · rw [worth, holdings_normalizeEntries, worth, ← hsum]
    exact Prod.ext (Int.sub_add_cancel _ _) rfl
  · have hnn := nonneg_normalizeEntries (hnonneg (nonneg_normalizeEntries hb.nonneg))
    exact ⟨sub_nonneg.mpr hle, hnn.holdings_nonneg⟩

end ManagedBalance

abbrev AssetPrecision := Option (Text → Option ℤ)

/-- A resolver may be missing; where it knows nothing of an asset the fallback applies. -/
structure AssetPrecisionPolicy where
  fallback : ℤ
  resolve : AssetPrecision

namespace AssetPrecisionPolicy

variable (lib : AmountLib) (policy : AssetPrecisionPolicy) (name : Text) (amount : Decimal)

def enabled : Bool :=
  policy.resolve.isSome || decide (0 < policy.fallback)

def assetPrecision : Option ℤ :=
  if name = [] then none
  else (policy.resolve.bind fun resolve => resolve name).filter fun p => 0 ≤ p

def precisionForAsset : Option ℤ :=
  if policy.enabled = false then none
  else if name = satoshiAssetName then some 0
  else some ((policy.assetPrecision name).getD policy.fallback)

def normalize : Decimal :=
  match policy.precisionForAsset name with
  | none => amount
  | some p => if p < 0 ∨ amount.precision = p then amount else lib.newPrecision amount p

def normalizeUp : Decimal :=
  match policy.precisionForAsset name with
  | none => amount
  | some p =>
    if p < 0 ∨ amount.precision = p then amount
    else if amount.precision < p ∨ amount.sign ≤ 0 then lib.newPrecision amount p
    else
      let divisor : ℤ := 10 ^ (amount.precision - p).toNat
      ⟨p, amount.value.tdiv divisor + if amount.value.tmod divisor ≠ 0 then 1 else 0⟩

end AssetPrecisionPolicy

variable (lib : AmountLib) (policy : AssetPrecisionPolicy) (assets : TxAssets)

def normalizeTxAssets : TxAssets :=
  if assets = [] then [] else lib.build assets

/-- The entries of an asset set that are still positive at the policy's precision. -/
def cutEntries : TxAssets :=
  assets.filterMap fun asset =>
    let amount := policy.normalize lib asset.name.text asset.amount
    if amount.sign ≤ 0 then none else some { asset with amount := amount }

def normalizeAssetSetPrecision (assets : TxAssets) (policy : AssetPrecisionPolicy) : TxAssets :=
  if assets = [] then []
  else if policy.enabled = false then normalizeTxAssets lib assets
  else lib.build (cutEntries lib policy assets)

def newAssetSet (assetName : Text) (amount : Decimal) : Option TxAssets :=
  if assetName = [] ∨ assetName = satoshiAssetName ∨ amount.sign = 0 then some []
  else (newAssetNameFromString assetName).bind fun name =>
    if amount.sign < 0 then none else some [⟨name, amount, 0⟩]

variable {lib}

@[simp] theorem holdings_normalizeTxAssets (hlib : lib.Exact) (assets) :
    holdings (normalizeTxAssets lib assets) = holdings assets := by
  rw [normalizeTxAssets]
  split_ifs with hnil
  · rw [hnil]
  · exact hlib.build assets

theorem nodup_normalizeTxAssets (hlib : lib.Exact) (assets) :
    ((normalizeTxAssets lib assets).map AssetInfo.name).Nodup := by
  rw [normalizeTxAssets]
  split
  · exact List.nodup_nil
  · exact hlib.build_nodup assets

variable {assets : TxAssets}

theorem nonneg_normalizeTxAssets (hlib : lib.Exact) (h : NonnegAssets assets) :
    NonnegAssets (normalizeTxAssets lib assets) := by
  rw [normalizeTxAssets]
  split
  · exact List.forall_mem_nil _
  · exact hlib.build_nonneg h

namespace AssetPrecisionPolicy

def cut (policy : AssetPrecisionPolicy) (name : Text) (q : ℚ) : ℚ :=
  match policy.precisionForAsset name with
  | none => q
  | some p => if p < 0 then q else Wire.cut p q

variable (policy : AssetPrecisionPolicy) (name : Text)

theorem cut_le (q : ℚ) : policy.cut name q ≤ q := by
  rw [cut]
  split
  · exact le_rfl
  · split
    · exact le_rfl
    · exact Wire.cut_le _ q

theorem cut_nonneg {q : ℚ} (h : 0 ≤ q) : 0 ≤ policy.cut name q := by
  rw [cut]
  split
  · exact h
  · split
    · exact h
    · exact Wire.cut_nonneg _ h

theorem cut_cut (q : ℚ) : policy.cut name (policy.cut name q) = policy.cut name q := by
  simp only [cut]
  cases policy.precisionForAsset name with
  | none => rfl
  | some p =>
    by_cases hp : p < 0
    · simp only [if_pos hp]
    · simp only [if_neg hp, Wire.cut_cut]

theorem cut_zero : policy.cut name 0 = 0 :=
  le_antisymm (policy.cut_le name 0) (policy.cut_nonneg name le_rfl)

theorem cut_of_not_enabled (h : policy.enabled = false) (q : ℚ) : policy.cut name q = q := by
  simp [cut, precisionForAsset, h]

variable {policy name}

theorem toRat_normalize (hlib : lib.Exact) {amount} (h : 0 ≤ amount.value) :
    (policy.normalize lib name amount).toRat = policy.cut name amount.toRat := by
  rw [normalize, cut]
  cases policy.precisionForAsset name with
  | none => rfl
  | some p =>
    by_cases hp : p < 0
    · simp [hp]
    · by_cases heq : amount.precision = p
      · simp only [heq, or_true, if_true, if_neg hp]
        exact (Wire.cut_of_eq_div (k := amount.value) (by rw [Decimal.toRat, heq])).symm
      · simp only [hp, heq, or_self, if_false]
        exact hlib.newPrecision (not_lt.mp hp) h

def up (policy : AssetPrecisionPolicy) (name : Text) (q : ℚ) : ℚ :=
  match policy.precisionForAsset name with
  | none => q
  | some p => if p < 0 then q else ⌈q * 10 ^ p⌉ / 10 ^ p

theorem up_mono : Monotone (policy.up name) := by
  intro q q' h
  rw [up, up]
  split
  · exact h
  · split_ifs
    · exact h
    · have hpow := ten_zpow_pos ‹ℤ›
      gcongr

theorem ceil_div {v d : ℤ} (hv : 0 ≤ v) (hd : 0 < d) :
    ⌈(v : ℚ) / d⌉ = v.tdiv d + if v.tmod d ≠ 0 then 1 else 0 := by
  have hparts := Int.mul_tdiv_add_tmod v d
  have hlt := Int.tmod_lt_of_pos v hd
  have hnonneg := Int.tmod_nonneg d hv
  rw [Int.ceil_eq_iff, lt_div_iff₀ (Int.cast_pos.mpr hd), div_le_iff₀ (Int.cast_pos.mpr hd)]
  obtain hzero | hpos := hnonneg.eq_or_lt
  · rw [if_neg (not_not.mpr hzero.symm), add_zero]
    norm_cast
    constructor <;> nlinarith
  · rw [if_pos hpos.ne']
    norm_cast
    constructor <;> nlinarith

theorem toRat_normalizeUp (hlib : lib.Exact) {amount} (h : 0 ≤ amount.value) :
    (policy.normalizeUp lib name amount).toRat = policy.up name amount.toRat := by
  rw [normalizeUp, up]
  cases policy.precisionForAsset name with
  | none => rfl
  | some p =>
    by_cases hp : p < 0
    · simp [hp]
    have hpow := (ten_zpow_pos p).ne'
    have hscaled : amount.toRat * 10 ^ p = amount.value * 10 ^ (p - amount.precision) := by
      rw [Decimal.toRat, zpow_sub₀ (by norm_num), div_mul_eq_mul_div, mul_div_assoc]
    simp only [hp, false_or, if_false]
    by_cases heq : amount.precision = p
    · rw [if_pos heq, hscaled, heq, sub_self, zpow_zero, mul_one, Int.ceil_intCast, Decimal.toRat, heq]
    rw [if_neg heq]
    by_cases hle : amount.precision < p ∨ amount.sign ≤ 0
    · -- The places that are added are empty.
      obtain ⟨k, hk⟩ : ∃ k : ℤ, amount.toRat * 10 ^ p = k := by
        rcases hle with hlt | hsign
        · refine ⟨amount.value * 10 ^ (p - amount.precision).toNat, ?_⟩
          rw [hscaled, ← Int.toNat_of_nonneg (sub_nonneg.mpr hlt.le)]
          norm_cast
        · refine ⟨0, ?_⟩
          rw [hscaled, le_antisymm (Int.sign_nonpos_iff.mp hsign) h, Int.cast_zero, zero_mul]
      rw [if_pos hle, hlib.newPrecision (not_lt.mp hp) h, Wire.cut, hk, Int.floor_intCast,
        Int.ceil_intCast]
    · rw [if_neg hle, Decimal.toRat]
      have hlt : p < amount.precision := lt_of_le_of_ne (not_lt.mp (not_or.mp hle).1) (Ne.symm heq)
      have hdivisor : (0 : ℤ) < 10 ^ (amount.precision - p).toNat := by positivity
      have hquotient : amount.toRat * 10 ^ p =
          amount.value / ((10 ^ (amount.precision - p).toNat : ℤ) : ℚ) := by
        rw [hscaled, ← neg_sub, zpow_neg, ← div_eq_mul_inv, ← Int.toNat_of_nonneg (sub_nonneg.mpr hlt.le)]
        norm_cast
      rw [hquotient, ceil_div h hdivisor]

end AssetPrecisionPolicy

theorem holdings_of_not_mem {n} (h : n ∉ assets.map AssetInfo.name) : holdings assets n = 0 := by
  induction assets with
  | nil => rfl
  | cons a assets ih =>
    obtain ⟨hne, hrest⟩ := not_or.mp (mt List.mem_cons.mpr h)
    rw [holdings_cons, Pi.add_apply, Pi.single_eq_of_ne hne, ih hrest, add_zero]

theorem cutEntries_cons (policy) (a : AssetInfo) (assets : TxAssets) :
    cutEntries lib policy (a :: assets) =
      (if (policy.normalize lib a.name.text a.amount).sign ≤ 0 then []
        else [{ a with amount := policy.normalize lib a.name.text a.amount }]) ++
      cutEntries lib policy assets := by
  by_cases hsign : (policy.normalize lib a.name.text a.amount).sign ≤ 0 <;>
    simp [cutEntries, hsign]

theorem holdings_cutEntries (hlib : lib.Exact) (policy) (hnodup : (assets.map AssetInfo.name).Nodup)
    (hnonneg : NonnegAssets assets) (n) :
    holdings (cutEntries lib policy assets) n = policy.cut n.text (holdings assets n) := by
  induction assets with
  | nil => exact (policy.cut_zero n.text).symm
  | cons a assets ih =>
    obtain ⟨hnew, hnodup⟩ := List.nodup_cons.mp hnodup
    obtain ⟨ha, hnonneg⟩ := List.forall_mem_cons.mp hnonneg
    have hamount : (policy.normalize lib a.name.text a.amount).toRat =
        policy.cut a.name.text a.amount.toRat := AssetPrecisionPolicy.toRat_normalize hlib ha
    -- a dropped entry is worth nothing
    have hhead : holdings (if (policy.normalize lib a.name.text a.amount).sign ≤ 0 then []
        else [{ a with amount := policy.normalize lib a.name.text a.amount }]) =
        Pi.single a.name (policy.cut a.name.text a.amount.toRat) := by
      split_ifs with hsign
      · have hpos : ¬ 0 < (policy.normalize lib a.name.text a.amount).toRat := by
          rw [Decimal.toRat_pos_iff, ← Decimal.sign_pos_iff]
          exact not_lt.mpr hsign
        have hzero : policy.cut a.name.text a.amount.toRat = 0 :=
          le_antisymm (hamount ▸ not_lt.mp hpos) (policy.cut_nonneg _ (Decimal.toRat_nonneg ha))
        rw [hzero, Pi.single_zero, holdings_nil]
      · rw [holdings_cons, holdings_nil, add_zero, hamount]
    rw [cutEntries_cons, holdings_append, hhead, Pi.add_apply, ih hnodup hnonneg, holdings_cons,
      Pi.add_apply]
    by_cases hn : n = a.name
    · subst hn
      rw [Pi.single_eq_same, Pi.single_eq_same, holdings_of_not_mem hnew, policy.cut_zero,
        add_zero, add_zero]
    · rw [Pi.single_eq_of_ne hn, Pi.single_eq_of_ne hn, zero_add, zero_add]

theorem holdings_normalizeAssetSetPrecision (hlib : lib.Exact) (policy)
    (hnodup : (assets.map AssetInfo.name).Nodup) (hnonneg : NonnegAssets assets) (n) :
    holdings (normalizeAssetSetPrecision lib assets policy) n =
      policy.cut n.text (holdings assets n) := by
  rw [normalizeAssetSetPrecision]
  split
  · rename_i hnil
    rw [hnil, holdings_nil, Pi.zero_apply, policy.cut_zero]
  · split_ifs with hoff
    · rw [holdings_normalizeTxAssets hlib, policy.cut_of_not_enabled _ hoff]
    · rw [hlib.build, holdings_cutEntries hlib policy hnodup hnonneg]

end SatoshiNet.Contract
