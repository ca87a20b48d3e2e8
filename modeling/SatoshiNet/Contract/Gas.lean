import SatoshiNet.Contract.ManagedBalance

/-!
The price of gas: after every interval of blocks it falls by a fraction, down to a floor.
-/

namespace SatoshiNet.Contract

open Lib Wire

inductive GasError
  | negativeGas | invalidGasPrice

/-- A configuration as `Normalize` leaves it, with the values of the network. -/
structure GasConfig where
  gasAssetName : Text := "brc20:f:sgas".toList
  gasPriceDenominator : ℕ := 10000
  initialGasPriceNumerator : ℕ := 10000
  gasPriceDecayInterval : ℕ := 100000
  gasPriceDecayNumerator : ℕ := 90
  gasPriceDecayDenominator : ℕ := 100
  gasPriceFloorNumerator : ℕ := 1
  resultBaseGas : ℤ := 50000
  triggerBaseGas : ℤ := 150000

def executionGasUnitsPerGas : ℤ := 1000

def gasFeePrecision : ℤ := 8

def gasFeeDecimal (gas : ℤ) (priceNumerator priceDenominator : ℕ) : Except GasError Decimal :=
  if gas = 0 then .ok ⟨gasFeePrecision, 0⟩
  else if gas < 0 then .error .negativeGas
  else if priceNumerator = 0 ∨ priceDenominator = 0 then .error .invalidGasPrice
  else .ok ⟨gasFeePrecision, gas * priceNumerator * 10 ^ gasFeePrecision.toNat /
    (priceDenominator * executionGasUnitsPerGas)⟩

namespace GasConfig

variable (lib : AmountLib) (c : GasConfig)

/-- The loop over the intervals that have passed; its products are 64 bits wide. -/
def decayed (numerator : ℕ) : ℕ → ℕ
  | 0 => numerator
  | epochs + 1 =>
    if numerator ≤ c.gasPriceFloorNumerator then numerator
    else
      let next := numerator * c.gasPriceDecayNumerator % 2 ^ 64 / c.gasPriceDecayDenominator
      if next < c.gasPriceFloorNumerator then c.gasPriceFloorNumerator else decayed next epochs

def gasPriceNumeratorAtHeight (height : ℕ) : ℕ :=
  if c.gasPriceDecayInterval = 0 then c.initialGasPriceNumerator
  else c.decayed c.initialGasPriceNumerator (height / c.gasPriceDecayInterval)

def checkedCallFeeDecimalAtHeight (gasUsed : ℤ) (height : ℕ) : Except GasError Decimal :=
  gasFeeDecimal gasUsed (c.gasPriceNumeratorAtHeight height) c.gasPriceDenominator

/-- For a trigger with a Result: its whole gas limit is escrowed, and the base gas of the Result. -/
def contractFundingFee (gasLimit : ℤ) (height : ℕ) : Except GasError Decimal := do
  let fee ← c.checkedCallFeeDecimalAtHeight gasLimit height
  let resultFee ← c.checkedCallFeeDecimalAtHeight c.resultBaseGas height
  .ok (lib.addAlignPrecision fee resultFee)

variable {lib c} (hdecay : c.gasPriceDecayNumerator ≤ c.gasPriceDecayDenominator)
include hdecay

theorem decayed_le (numerator epochs : ℕ) : c.decayed numerator epochs ≤ numerator := by
  induction epochs generalizing numerator with
  | zero => exact le_rfl
  | succ epochs ih =>
    rw [decayed]
    split_ifs with hfloor
    · exact le_rfl
    have hnext : numerator * c.gasPriceDecayNumerator % 2 ^ 64 / c.gasPriceDecayDenominator ≤
        numerator :=
      Nat.div_le_of_le_mul ((Nat.mod_le _ _).trans
        ((Nat.mul_le_mul_left _ hdecay).trans_eq (Nat.mul_comm _ _)))
    dsimp only
    split_ifs
    · exact (not_le.mp hfloor).le
    · exact (ih _).trans hnext

theorem decayed_antitone (numerator : ℕ) : Antitone (c.decayed numerator) := by
  refine antitone_nat_of_succ_le fun epochs => ?_
  induction epochs generalizing numerator with
  | zero => exact decayed_le hdecay numerator 1
  | succ epochs ih =>
    rw [decayed, decayed]
    split_ifs
    · exact le_rfl
    · dsimp only
      split_ifs
      · exact le_rfl
      · exact ih _

theorem gasPriceNumeratorAtHeight_antitone : Antitone c.gasPriceNumeratorAtHeight := by
  intro height height' h
  simp only [gasPriceNumeratorAtHeight]
  split_ifs
  · exact le_rfl
  · exact decayed_antitone hdecay _ (Nat.div_le_div_right h)

theorem checkedCallFee_falls {gas : ℤ} {height height' fee fee'} (h : height ≤ height')
    (hfee : c.checkedCallFeeDecimalAtHeight gas height = .ok fee)
    (hfee' : c.checkedCallFeeDecimalAtHeight gas height' = .ok fee') :
    0 ≤ fee'.toRat ∧ fee'.toRat ≤ fee.toRat := by
  rw [checkedCallFeeDecimalAtHeight, gasFeeDecimal] at hfee hfee'
  split_ifs at hfee hfee' with hzero hneg <;> cases hfee <;> cases hfee'
  · exact ⟨Decimal.toRat_nonneg le_rfl, le_rfl⟩
  have hgas : 0 ≤ gas := not_lt.mp hneg
  have hunit : 0 ≤ (c.gasPriceDenominator : ℤ) * executionGasUnitsPerGas :=
    mul_nonneg (Int.natCast_nonneg _) (by decide)
  have hprice : (c.gasPriceNumeratorAtHeight height' : ℤ) ≤ c.gasPriceNumeratorAtHeight height :=
    Int.ofNat_le.mpr (gasPriceNumeratorAtHeight_antitone hdecay h)
  constructor
  · exact Decimal.toRat_nonneg (Int.ediv_nonneg (by positivity) hunit)
  · refine div_le_div_of_nonneg_right (Int.cast_le.mpr ?_) (ten_zpow_pos _).le
    obtain hzero | hpos := hunit.eq_or_lt
    · simp [← hzero]
    · exact Int.ediv_le_ediv hpos (by gcongr)

theorem contractFundingFee_falls (hlib : lib.Exact) {gas : ℤ} {height height' fee fee'}
    (h : height ≤ height') (hfee : c.contractFundingFee lib gas height = .ok fee)
    (hfee' : c.contractFundingFee lib gas height' = .ok fee') :
    0 ≤ fee'.toRat ∧ fee'.toRat ≤ fee.toRat := by
  simp only [contractFundingFee, bind_eq_ok, Except.ok.injEq] at hfee hfee'
  obtain ⟨call, hcall, result, hresult, rfl⟩ := hfee
  obtain ⟨call', hcall', result', hresult', rfl⟩ := hfee'
  have hcalls := checkedCallFee_falls hdecay h hcall hcall'
  have hresults := checkedCallFee_falls hdecay h hresult hresult'
  rw [hlib.add, hlib.add]
  exact ⟨add_nonneg hcalls.1 hresults.1, add_le_add hcalls.2 hresults.2⟩

end GasConfig

end SatoshiNet.Contract
