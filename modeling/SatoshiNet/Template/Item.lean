import SatoshiNet.Contract.Settlement

/-!
What all template contracts share: the invoke items they keep, the plan a settlement hands on, the
output that funds a call, and the amounts read from texts.
-/

namespace SatoshiNet.Template

open Lib Wire Contract Decimal

inductive InvokeAction
  | swap | refund | addLiquidity | removeLiquidity | exchange | config | funding | cancel | close
  | default
  | other (name : Text)
deriving DecidableEq

inductive OrderType
  | noSpec | sell | buy | refund | fund | addLiquidity | removeLiquidity | validate | close
  | exchange | cancel | unused
  | other (code : ℤ)
deriving DecidableEq

inductive ItemStatus
  | init | dealt | refunded | closedDirectly | cancelled
deriving DecidableEq

inductive InvokeReason
  | normal | refund | invalid | noEnoughAsset | slippageProtect
deriving DecidableEq

structure InvokeItem where
  id : ℤ
  action : InvokeAction
  orderType : OrderType
  (height orderTime : ℤ)
  (assetName address : Text)
  inUtxos : List Contract.OutPoint
  serviceFee : ℤ := 0
  gasFee : Option Decimal := none
  param : Bytes := []
  inValue : ℤ := 0
  inAmt : Option Decimal := none
  retainedAssetA : Option Decimal := none
  retainedAssetB : Option Decimal := none
  remainingAmt : Option Decimal := none
  remainingValue : ℤ := 0
  outAmt : Option Decimal := none
  outValue : ℤ := 0
  reason : InvokeReason := .normal
  done : ItemStatus := .init

def InvokeItem.finished (item : InvokeItem) : Bool := item.done ≠ .init

def InvokeItem.pending (item : InvokeItem) (height : ℤ) : Bool :=
  !item.finished && item.reason = .normal && item.height ≤ height

structure TemplateState (R : Type) where
  nextItemId : ℤ := 0
  items : List InvokeItem := []
  running : R

def TemplateState.pruneFinishedItems {R : Type} (s : TemplateState R) : TemplateState R :=
  { s with items := s.items.filter fun item => !item.finished }

/-! ### Parameters -/

structure LimitOrderInvokeParam where
  orderType : OrderType
  (assetName amt unitPrice : Text)

structure AddLiquidityInvokeParam where
  orderType : OrderType
  (assetName amt : Text)
  value : ℤ

structure RemoveLiquidityInvokeParam where
  orderType : OrderType
  (assetName lptAmt : Text)

structure AutopayConfigInvokeParam where
  amountPerBlock : Text
  blobKeyLimit : ℕ
  gasFundingAmount : Text

structure ParamLib where
  limitOrder : Bytes → Option LimitOrderInvokeParam
  addLiquidity : Bytes → Option AddLiquidityInvokeParam
  removeLiquidity : Bytes → Option RemoveLiquidityInvokeParam
  refund : Bytes → Option (List ℤ)
  exchange : Bytes → Option Text
  autopayConfig : Bytes → Option AutopayConfigInvokeParam

inductive TemplateError
  | invalidAsset | negativeAmount | missingOutput | notEnoughSats | notEnoughAsset | closed
  | closing | nonClosable | notDeployer | unsupportedAction | param | paramMismatch | invalidAmount
  | belowMinimum | gasFundingOnly | gasOnlyConfig | blobKeyLimit | fractionalSats | missingGasAsset
  | unknownPrecision | gasNotRepresentable | gasExceedsFunding | delegateFunding | delegateLimit
  | result (e : ResultError)
  | overflow | fee
deriving DecidableEq

abbrev TemplateM := Except TemplateError

/-! ### The funding output of a call -/

structure ContractOutput where
  outPoint : Contract.OutPoint
  txOutput : Option TxOut

namespace ContractOutput

variable (lib : DecimalLib) (o : ContractOutput)

def plainValue : ℤ :=
  match o.txOutput with
  | none => 0
  | some out =>
    let carrier := lib.getBindingSatAmount out.assets
    if out.value < carrier then 0 else out.value - carrier

def txAssets : TxAssets := (o.txOutput.map TxOut.assets).getD []

def assetAmount (assetName : Text) : TemplateM Decimal :=
  if assetName = [] then .error .invalidAsset
  else if assetName = satoshiAssetName then .ok (newDefaultDecimal (o.plainValue lib))
  else match newAssetNameFromString assetName with
    | none => .error .invalidAsset
    | some name =>
      .ok (((lib.find o.txAssets name).map (·.amount)).getD (newDefaultDecimal 0))

/-- Plain satoshis go out of the value, which must still carry the bound assets. -/
def subPlainSats (out : TxOut) (sats : ℤ) : TemplateM TxOut :=
  if out.value < sats ∨ out.value - sats < lib.getBindingSatAmount out.assets then
    .error .notEnoughSats
  else .ok { out with value := out.value - sats }

def subAsset (out : TxOut) (asset : AssetInfo) : TemplateM TxOut := do
  let left ← orError (lib.subtract out.assets asset) .notEnoughAsset
  if 0 < asset.bindingSat then
    let sats := lib.getBindingSatNum asset.amount asset.bindingSat
    if out.value - sats < lib.getBindingSatAmount left then .error .notEnoughSats
    else .ok { out with value := out.value - sats, assets := left }
  else .ok { out with assets := left }

def subAssetAmount (assetName : Text) (amount : Decimal) : TemplateM ContractOutput :=
  if amount.sign = 0 then .ok o
  else if amount.sign < 0 then .error .negativeAmount
  else do
    let out ← orError o.txOutput .missingOutput
    let left ← if assetName = satoshiAssetName then subPlainSats lib out (lib.int64 amount)
      else do
        let name ← orError (newAssetNameFromString assetName) .invalidAsset
        let existing ← orError (lib.find out.assets name) .invalidAsset
        subAsset lib out ⟨name, amount, existing.bindingSat⟩
    .ok { o with txOutput := some left }

end ContractOutput

def assetTypeFT : Text := ['f']

def checkTemplateAssetName (assetName : Text) : TemplateM Unit := do
  let name ← orError (newAssetNameFromString assetName) .invalidAsset
  require (name.type = assetTypeFT && name.protocol ≠ [] && name.ticker ≠ []) .invalidAsset

theorem checkTemplateAssetName_ne {assetName} (h : checkTemplateAssetName assetName = .ok ()) :
    assetName ≠ [] ∧ assetName ≠ satoshiAssetName := by
  constructor
  · rintro rfl
    exact absurd h (by decide)
  · rintro rfl
    exact absurd h (by decide)

/-! ### Plans -/

structure SettlementDeal where
  buyItemId : ℤ := 0
  sellItemId : ℤ := 0
  assetAmt : Text
  satValue : ℤ := 0
  unitPrice : Text

inductive TransferReason
  | deal | refund | autopay | minerFee
deriving DecidableEq

structure SettlementTransfer where
  itemId : ℤ := 0
  recipient : Text
  assetName : Text := []
  assetAmt : Text := []
  satValue : ℤ := 0
  reason : TransferReason
  asFee : Bool := false
deriving DecidableEq

structure SettlementPlan where
  deals : List SettlementDeal := []
  transfers : List SettlementTransfer := []
  itemIds : List ℤ := []
  inputs : List Contract.OutPoint := []
  gasFee : Option Decimal := none

namespace SettlementPlan

section

variable (plan : SettlementPlan)

def appendItemId (id : ℤ) : SettlementPlan :=
  if id ∈ plan.itemIds then plan else { plan with itemIds := plan.itemIds ++ [id] }

variable (transfers : List SettlementTransfer) (item : InvokeItem)

def addInputs : SettlementPlan :=
  if item.inUtxos = [] then plan
  else { plan with inputs := uniqueOutPoints (plan.inputs ++ item.inUtxos) }

def append : SettlementPlan :=
  { plan with transfers := plan.transfers ++ transfers }

@[simp] theorem appendItemId_transfers (id : ℤ) :
    (plan.appendItemId id).transfers = plan.transfers := by
  rw [appendItemId]
  split <;> rfl

@[simp] theorem addInputs_transfers : (plan.addInputs item).transfers = plan.transfers := by
  rw [addInputs]
  split <;> rfl

@[simp] theorem append_transfers :
    (plan.append transfers).transfers = plan.transfers ++ transfers := rfl

end

end SettlementPlan

/-! ### Amounts -/

def maxPriceDivisibility : ℤ := 10

def settlementPolicy (assetPrecision : AssetPrecision) : AssetPrecisionPolicy where
  fallback := maxPriceDivisibility
  resolve := assetPrecision

def unlessZero (d : Decimal) : Option Decimal := if d.sign = 0 then none else some d

section Amounts

variable (lib : DecimalLib)

def parseDecimalOrZero (text : Text) : Decimal :=
  if text = [] then lib.newDecimal 0 maxPriceDivisibility
  else (lib.newDecimalFromString text maxPriceDivisibility).getD
    (lib.newDecimal 0 maxPriceDivisibility)

def zeroDecimal : Decimal := parseDecimalOrZero lib ['0']

def decimalOrZero (d : Option Decimal) : Decimal := d.getD (zeroDecimal lib)

def decimalString (d : Option Decimal) : Text :=
  match d with
  | none => []
  | some d => if d.sign = 0 then [] else lib.toText d

def decimalAddAllowNil : Option Decimal → Option Decimal → Option Decimal
  | a, none => a
  | none, some b => if b.sign = 0 then none else some b
  | some a, some b => if b.sign = 0 then some a else some (lib.addAlignPrecision a b)

def decimalSubAllowNil (a : Option Decimal) (b : Option Decimal) : Decimal :=
  match b with
  | none => decimalOrZero lib a
  | some b =>
    if b.sign = 0 then decimalOrZero lib a
    else lib.subAlignPrecision (decimalOrZero lib a) b

def parsePositiveDecimal (text : Text) : Option Decimal :=
  if text = [] ∨ text = ['0'] then none
  else (lib.newDecimalFromString text maxPriceDivisibility).filter fun d =>
    lib.cmp d (newDefaultDecimal 0) = .gt

end Amounts

def amountOf (d : Option Decimal) : ℚ := d.elim 0 toRat

@[simp] theorem amountOf_none : amountOf none = 0 := rfl

@[simp] theorem amountOf_some (d) : amountOf (some d) = d.toRat := rfl

def textAmount (lib : DecimalLib) (text : Text) : ℚ :=
  if text = [] then 0 else amountOf (lib.parseDecimalAmountString text)

section Laws

variable {lib : DecimalLib} (hlib : lib.Lawful)
include hlib

@[simp] theorem toRat_zeroDecimal : (zeroDecimal lib).toRat = 0 := by
  rw [zeroDecimal, parseDecimalOrZero, if_neg (by decide)]
  cases h : lib.newDecimalFromString ['0'] maxPriceDivisibility with
  | none => exact hlib.newDecimal_zero _
  | some d => exact hlib.zeroText h

theorem toRat_decimalOrZero (d) : (decimalOrZero lib d).toRat = amountOf d := by
  cases d with
  | none => exact toRat_zeroDecimal hlib
  | some d => rfl

theorem amountOf_decimalAddAllowNil (a b) :
    amountOf (decimalAddAllowNil lib a b) = amountOf a + amountOf b := by
  have hzero : ∀ {d : Decimal}, d.sign = 0 → d.toRat = 0 := fun h =>
    toRat_eq_zero_iff.mpr (sign_eq_zero_iff.mp h)
  cases b with
  | none => cases a <;> exact (add_zero _).symm
  | some b =>
    by_cases hb : b.sign = 0
    · cases a <;> simp [decimalAddAllowNil, if_pos hb, hzero hb]
    · cases a with
      | none => simp [decimalAddAllowNil, if_neg hb]
      | some a => simp [decimalAddAllowNil, if_neg hb, hlib.add]

theorem toRat_decimalSubAllowNil (a b) :
    (decimalSubAllowNil lib a b).toRat = amountOf a - amountOf b := by
  cases b with
  | none => rw [decimalSubAllowNil, toRat_decimalOrZero hlib, amountOf_none, sub_zero]
  | some b =>
    rw [decimalSubAllowNil]
    split_ifs with hzero
    · rw [toRat_decimalOrZero hlib, amountOf_some,
        toRat_eq_zero_iff.mpr (sign_eq_zero_iff.mp hzero), sub_zero]
    · rw [hlib.sub, toRat_decimalOrZero hlib, amountOf_some]

variable {d e : Decimal}

theorem cmp_eq_lt : lib.cmp d e = .lt ↔ d.toRat < e.toRat := by
  rw [hlib.cmp, compare_lt_iff_lt]

theorem cmp_ne_lt : lib.cmp d e ≠ .lt ↔ e.toRat ≤ d.toRat := by
  rw [Ne, cmp_eq_lt hlib, not_lt]

theorem cmp_eq_gt : lib.cmp d e = .gt ↔ e.toRat < d.toRat := by
  rw [hlib.cmp, compare_gt_iff_gt]

theorem textAmount_decimalString (h : 0 ≤ d.value) :
    textAmount lib (decimalString lib (some d)) = d.toRat := by
  rw [decimalString]
  split_ifs with hzero
  · rw [textAmount, if_pos rfl, toRat_eq_zero_iff.mpr (sign_eq_zero_iff.mp hzero)]
  · obtain ⟨e, hparse, heq⟩ := hlib.parseAmount_toText h
    rw [textAmount, if_neg (hlib.toText_ne_nil d), hparse, amountOf_some, heq]

end Laws

end SatoshiNet.Template
