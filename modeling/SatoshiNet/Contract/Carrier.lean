import SatoshiNet.Contract.ResultOutput

/-!
The satoshis that the bound assets of a list need.  They are computed in four places, each in its own
way; only complete groups count everywhere.
-/

namespace SatoshiNet.Contract

open Lib Wire List ManagedBalance Decimal

inductive CarrierError
  | invalidAmount (name : Text)
  | negativeAmount (name : Text)
  | groupsOverflow (name : Text)
  | overflow | satoshiAsset
  | insufficient (value carrier : ℤ)
deriving DecidableEq

section Model

variable (lib : AmountLib)

def addBindingSats (total : ℤ) (asset : AssetInfo) : Except CarrierError ℤ := do
  require (lib.validate asset.amount) (.invalidAmount asset.name.text)
  require (0 ≤ asset.amount.sign) (.negativeAmount asset.name.text)
  if asset.bindingSat = 0 then .ok total
  else
    let amount := asset.amount.toRat
    let groups := amount.num.tdiv (amount.den * asset.bindingSat)
    require (0 ≤ groups && groups ≤ maxInt64) (.groupsOverflow asset.name.text)
    require (groups ≤ maxInt64 - total) .overflow
    .ok (total + groups)

def requiredBindingSats (assets : TxAssets) : Except CarrierError ℤ :=
  assets.foldlM (addBindingSats lib) 0

def checkAssetOutput (output : TxOut) : Except CarrierError Unit := do
  require (output.assets.all fun asset => asset.name ≠ ⟨[], [], []⟩) .satoshiAsset
  let carrier ← requiredBindingSats lib output.assets
  require (carrier ≤ output.value) (.insufficient output.value carrier)

end Model

/-- The complete groups of `bindingSat` in an amount; an unbound asset has none. -/
def completeGroups (asset : AssetInfo) : ℤ := ⌊asset.amount.toRat / asset.bindingSat⌋

def carrierSats (assets : TxAssets) : ℤ := (assets.map completeGroups).sum

variable {lib : AmountLib} {asset : AssetInfo} {assets : TxAssets} {n total : ℤ}

theorem completeGroups_nonneg (h : 0 ≤ asset.amount.value) : 0 ≤ completeGroups asset :=
  Int.floor_nonneg.mpr (div_nonneg (toRat_nonneg_iff.mpr h) (Nat.cast_nonneg _))

-- Cutting the amount to whole units first loses no complete group.
theorem carrierUnits_eq (hlib : lib.Exact) (h : 0 ≤ asset.amount.value) :
    carrierUnits lib asset = completeGroups asset := by
  have hvalue := hlib.newPrecision le_rfl h
  rw [toRat, hlib.precision le_rfl, Wire.cut] at hvalue
  simp only [zpow_zero, mul_one, div_one, Int.cast_inj] at hvalue
  rw [carrierUnits, completeGroups, Int.floor_div_natCast, hvalue, Int.tdiv_eq_ediv_of_nonneg
    (Int.floor_nonneg.mpr (toRat_nonneg_iff.mpr h))]
  split_ifs with hnone
  · rcases hnone with hbound | hsign
    · rw [hbound, Nat.cast_zero, Int.ediv_zero]
    · rw [toRat, sign_eq_zero_iff.mp hsign, Int.cast_zero, zero_div, Int.floor_zero, Int.zero_ediv]
  · rfl

theorem groups_eq (h : 0 ≤ asset.amount.value) :
    asset.amount.toRat.num.tdiv (asset.amount.toRat.den * asset.bindingSat) =
      completeGroups asset := by
  rw [Int.tdiv_eq_ediv_of_nonneg (Rat.num_nonneg.mpr (toRat_nonneg_iff.mpr h)), completeGroups,
    Int.floor_div_natCast, Rat.floor_def', Int.ediv_ediv_of_nonneg (Int.natCast_nonneg _)]

theorem addBindingSats_eq_ok (hvalid : lib.validate asset.amount = true)
    (h : 0 ≤ asset.amount.value) (hmax : total ≤ maxInt64) (htotal : 0 ≤ total) :
    addBindingSats lib total asset = .ok n ↔ n = total + completeGroups asset ∧ n ≤ maxInt64 := by
  have hgroups := completeGroups_nonneg h
  have hsign : 0 ≤ asset.amount.sign := Int.sign_nonneg_iff.mpr h
  simp only [addBindingSats, hvalid, hsign, bind_eq_ok, require_eq_ok, decide_true, exists_const,
    true_and, groups_eq h]
  split_ifs with hbound
  · have hzero : completeGroups asset = 0 := by simp [completeGroups, hbound]
    rw [hzero, Except.ok.injEq]
    omega
  · simp only [bind_eq_ok, require_eq_ok, exists_const, Bool.and_eq_true, decide_eq_true_eq,
      Except.ok.injEq]
    omega

theorem foldlM_addBindingSats_eq_ok (hvalid : ∀ a ∈ assets, lib.validate a.amount = true)
    (h : NonnegAssets assets) (hmax : total ≤ maxInt64) (htotal : 0 ≤ total) :
    assets.foldlM (addBindingSats lib) total = .ok n ↔
      n = total + carrierSats assets ∧ n ≤ maxInt64 := by
  induction assets generalizing total with
  | nil =>
    simp only [foldlM_nil, pure, Except.pure, Except.ok.injEq, carrierSats, map_nil, sum_nil]
    omega
  | cons a rest ih =>
    obtain ⟨hvalid, hvalids⟩ := forall_mem_cons.mp hvalid
    obtain ⟨h, hs⟩ := forall_mem_cons.mp h
    have hgroups := completeGroups_nonneg h
    have hrest : 0 ≤ carrierSats rest :=
      sum_nonneg (forall_mem_map.mpr fun b hb => completeGroups_nonneg (hs b hb))
    rw [foldlM_cons_eq_ok, carrierSats, map_cons, sum_cons, ← carrierSats, ← add_assoc]
    constructor
    · rintro ⟨next, hnext, hn⟩
      obtain ⟨rfl, hle⟩ := (addBindingSats_eq_ok hvalid h hmax htotal).mp hnext
      exact (ih hvalids hs hle (by omega)).mp hn
    · rintro ⟨rfl, hle⟩
      exact ⟨_, (addBindingSats_eq_ok hvalid h hmax htotal).mpr ⟨rfl, by omega⟩,
        (ih hvalids hs (by omega) (by omega)).mpr ⟨rfl, hle⟩⟩

theorem carrier_rules_agree (hlib : lib.Exact)
    (hvalid : ∀ a ∈ assets, lib.validate a.amount = true) (h : NonnegAssets assets) :
    (∀ n, requiredBindingSats lib assets = .ok n ↔ n = carrierSats assets ∧ n ≤ maxInt64) ∧
      (∀ n, resultAssetCarrierSats lib assets = .ok n ↔ n = carrierSats assets ∧ n ≤ maxInt64) ∧
      (∀ value, Valid lib ⟨value, assets⟩ →
        plainValue lib ⟨value, assets⟩ = .ok (max 0 (value - carrierSats assets))) ∧
      ∀ value pkScript, checkAssetOutput lib ⟨value, assets, pkScript⟩ = .ok () ↔
        (∀ a ∈ assets, a.name ≠ ⟨[], [], []⟩) ∧ carrierSats assets ≤ maxInt64 ∧
          carrierSats assets ≤ value := by
  have hrequired (n) : requiredBindingSats lib assets = .ok n ↔
      n = carrierSats assets ∧ n ≤ maxInt64 := by
    rw [requiredBindingSats, foldlM_addBindingSats_eq_ok hvalid h (by decide) le_rfl, zero_add]
  have htotal : carrierTotal lib assets = carrierSats assets :=
    congrArg sum (map_congr_left fun a ha => carrierUnits_eq hlib (h a ha))
  have hnonneg : 0 ≤ carrierSats assets :=
    sum_nonneg (forall_mem_map.mpr fun a ha => completeGroups_nonneg (h a ha))
  refine ⟨hrequired, fun n => ?_, fun value hbalance => ?_, fun value pkScript => ?_⟩
  · simp only [resultAssetCarrierSats, htotal, ite_error_eq_ok, Except.ok.injEq, minInt64]
    omega
  · simp only [plainValue, bind_eq_ok, validate_eq_ok, hbalance, htotal, true_and, exists_const,
      Except.ok.injEq]
    omega
  · simp only [checkAssetOutput, bind_eq_ok, require_eq_ok, exists_const, hrequired, all_eq_true,
      decide_eq_true_eq]
    grind

def boundAssets (amount : ℤ) : TxAssets := [⟨⟨['o'], ['f'], ['t']⟩, ⟨1, amount⟩, 3⟩]

theorem boundAssets_carrier : requiredBindingSats Reference.amountLib (boundAssets 75) = .ok 2 :=
  ((carrier_rules_agree Reference.amountLib_exact (by decide) (by decide)).1 2).mpr
    (by decide +kernel)

/-- A quantity whose groups overflow: two of the rules fail, the plain value is just zero. -/
theorem boundAssets_overflow : requiredBindingSats Reference.amountLib (boundAssets (2 ^ 70)) =
      .error (.groupsOverflow ['o', ':', 'f', ':', 't']) ∧
    resultAssetCarrierSats Reference.amountLib (boundAssets (2 ^ 70)) = .error .carrierOverflow ∧
    plainValue Reference.amountLib ⟨1000, boundAssets (2 ^ 70)⟩ = .ok 0 := by
  decide +kernel

end SatoshiNet.Contract
