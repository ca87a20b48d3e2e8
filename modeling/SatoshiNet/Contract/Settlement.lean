import SatoshiNet.Contract.Funding
import SatoshiNet.Contract.Profit

/-!
The settlement of a Result plan: what a contract owes is paid from its managed balance, the rest
is its remainder, and a closed contract is paid out.
-/

namespace SatoshiNet.Contract

open Lib Wire

structure ResultGasRefund where
  recipient : Text
  inputs : List OutPoint
  (gasFee retainedGasFunding : Option Decimal)

inductive ResultInputScope
  | allContractUtxos | explicit
deriving DecidableEq

structure ResultPlan where
  contract : Text
  resultCount : ℤ := 0
  height : ℤ := 0
  itemIDs : List ℤ := []
  gasFee : Option Decimal := none
  satoshiFee : ℤ := 0
  gasRefunds : List ResultGasRefund := []
  inputScope : ResultInputScope := .allContractUtxos
  inputs : List OutPoint := []
  callFunding : List OutPoint := []
  refundFunding : List OutPoint := []
  inputUtxos : List Utxo := []
  feeOutputs : Outputs := []
  outputs : Outputs := []
  managedRemainder : Option ManagedBalance := none

structure ManagedResultRequest where
  plan : ResultPlan
  view : ResultPlanUtxoView
  managed : ManagedBalance
  closed : Bool
  (deployerAddress bootstrapAddress gasAssetName : Text)
  precision : AssetPrecisionPolicy

def cloneDecimal (d : Option Decimal) : Decimal := d.getD (newDefaultDecimal 0)

def cloneResultPlan (plan : ResultPlan) : ResultPlan :=
  { plan with
    gasFee := some (cloneDecimal plan.gasFee)
    gasRefunds := plan.gasRefunds.map fun r =>
      { r with
        gasFee := some (cloneDecimal r.gasFee)
        retainedGasFunding := some (cloneDecimal r.retainedGasFunding) } }

variable (lib : AmountLib)

/-! ### Gas refunds -/

def assetPlainSat : AssetName := ⟨[], [], []⟩

namespace Utxo

/-- Satoshis that carry no asset; a satoshi is also kept back for every partly bound asset. -/
def plainValue (u : Utxo) : ℤ :=
  match u.txOutput with
  | none => 0
  | some txOut =>
    let assetAmt := lib.getBindingSatAmount txOut.assets + lib.getUnboundAssetCount txOut.assets
    if txOut.assets = [] then txOut.value
    else if txOut.value < assetAmt then 0
    else txOut.value - assetAmt

def assetAmount (u : Utxo) (assetName : Text) : ResultM Decimal :=
  if assetName = [] then .error .invalidAsset
  else if assetName = satoshiAssetName then .ok (newDefaultDecimal (u.plainValue lib))
  else match newAssetNameFromString assetName with
    | none => .error .invalidAsset
    | some name =>
      if name = assetPlainSat then .ok (newDefaultDecimal (u.plainValue lib))
      else .ok (((lib.find u.txAssets name).map (·.amount)).getD (newDefaultDecimal 0))

end Utxo

def findUtxo (utxos : List Utxo) (p : OutPoint) : Option Utxo := utxos.find? fun u => u.outPoint = p

def addOutpointAsset (available : List Utxo) (assetName : Text) (total : Decimal) (p : OutPoint) :
    ResultM Decimal := do
  let u ← orError (findUtxo available p) (.inputNotAvailable p)
  let amount ← u.assetAmount lib assetName
  .ok (lib.addAlignPrecision total amount)

def totalOutpointAsset (available : List Utxo) (outpoints : List OutPoint) (assetName : Text) :
    ResultM Decimal :=
  (uniqueOutPoints outpoints).foldlM (addOutpointAsset lib available assetName)
    (newDefaultDecimal 0)

def resultGasRefundIntent (refund : ResultGasRefund) (available : List Utxo)
    (gasAssetName : Text) : ResultM (Option Decimal) :=
  if refund.recipient = [] ∨ gasAssetName = [] then .ok none
  else do
    let fundingGas ← totalOutpointAsset lib available refund.inputs gasAssetName
    let gasFee := cloneDecimal refund.gasFee
    let retained := cloneDecimal refund.retainedGasFunding
    let nonRefundable := lib.addAlignPrecision gasFee retained
    if fundingGas.sign = 0 then .ok none
    else if retained.sign < 0 ∨ gasFee.sign < 0 then .error .negativeGas
    else if lib.cmp fundingGas nonRefundable ≠ .gt then .ok none
    else .ok (some (lib.subAlignPrecision fundingGas nonRefundable))

def resultOutputWithAsset (recipient assetName : Text) (amount : Decimal) : ResultM ResultOutput :=
  if amount.sign = 0 then .ok { recipient := recipient }
  else if assetName = satoshiAssetName then do
    let sats ← decimalToInt64 lib amount
    let value ← orError (addInt64 0 sats) .amountOverflow
    .ok { recipient := recipient, value := value }
  else do
    let name ← orError (newAssetNameFromString assetName) (.invalidAssetName assetName)
    .ok { recipient := recipient, assets := lib.build [⟨name, amount, 0⟩] }

def gasRefundOutput (view : ResultPlanUtxoView) (gasAssetName : Text)
    (policy : AssetPrecisionPolicy) (refund : ResultGasRefund) : ResultM Outputs := do
  match ← resultGasRefundIntent lib refund view.utxos gasAssetName with
  | none => .ok []
  | some amount => do
    let output ← resultOutputWithAsset lib refund.recipient gasAssetName amount
    .ok [normalizeResultOutputPrecision lib output policy]

variable (decode : Text → Option ContractAddress)

def resultGasRefundOutputs (plan : ResultPlan) (view : ResultPlanUtxoView) (gasAssetName : Text)
    (policy : AssetPrecisionPolicy) : ResultM Outputs :=
  if plan.gasRefunds = [] then .ok []
  else do
    let _ ← orError (decode plan.contract) .contractAddress
    let outputs ← plan.gasRefunds.mapM (gasRefundOutput lib view gasAssetName policy)
    .ok outputs.flatten

/-! ### What outputs and gas leave -/

def splitSpent (held spent : TxAssets) : ResultM TxAssets :=
  if spent = [] then .ok held else orError (lib.split held spent) .outputsExceedAssets

def splitGas (held : TxAssets) (gasAssetName : Text) (gasFee : Decimal) : ResultM TxAssets :=
  if gasAssetName ≠ [] ∧ gasAssetName ≠ satoshiAssetName ∧ 0 < gasFee.sign then do
    let gas ← orError (newAssetSet gasAssetName gasFee) .invalidAsset
    orError (lib.split held gas) .insufficientGas
  else .ok held

def physicalRemainderAfterOutputs (held : ManagedBalance) (outputs : Outputs)
    (gasAssetName : Text) (gasFee : Decimal) : ResultM ManagedBalance := do
  let spentValue ← resultOutputsValue outputs
  let feeValue ← gasSats lib gasAssetName gasFee
  let spentValue ← orError (addInt64 spentValue feeValue) .feeOverflow
  require (spentValue ≤ held.value) (.outputsExceedSats spentValue held.value)
  let spentAssets ← resultOutputsAssets lib outputs
  let left ← splitSpent lib held.assets spentAssets
  let left ← splitGas lib left gasAssetName gasFee
  .ok ⟨held.value - spentValue, normalizeTxAssets lib left⟩

/-! ### The plan -/

def checkViewUtxo (contract : ContractAddress) (seen : List OutPoint) (u : Utxo) :
    ResultM (List OutPoint) :=
  if u.contract ≠ contract then .error .mixedContractFunding
  else if u.outPoint ∈ seen then .error .duplicateInput
  else .ok (u.outPoint :: seen)

def checkCallFunding (utxos : List Utxo) (_ : Unit) (input : OutPoint) : ResultM Unit :=
  if (findUtxo utxos input).isNone then .error (.missingCallFunding input) else .ok ()

def creditRefund (utxos : List Utxo) (budget : ManagedBalance) (input : OutPoint) :
    ResultM ManagedBalance := do
  let u ← orError (findUtxo utxos input) (.missingRefundFunding input)
  (budget.credit lib u.physicalValue u.txAssets).mapError .managed

variable (req : ManagedResultRequest)

/-- What the plan may spend: the managed balance and the refunds, or all explicit inputs. -/
def planBudget (physical : ManagedBalance) : ResultM ManagedBalance :=
  if req.plan.inputScope = .explicit then .ok physical
  else (uniqueOutPoints req.plan.refundFunding).foldlM (creditRefund lib req.view.utxos) req.managed

def paySatoshiFee (budget : ManagedBalance) (fee : ℤ) : ResultM ManagedBalance :=
  if fee < 0 then .error .negativeSatoshiFee
  else if fee = 0 then .ok budget
  else do
    let plain ← (budget.plainValue lib).mapError .managed
    if plain < fee then .error .insufficientPlainSats
    else .ok { budget with value := budget.value - fee }

/-- The bound outputs of the plan, gas refunds included, and its bound fee outputs. -/
def settledOutputs : ResultM (Outputs × Outputs) := do
  let kept := removeContractRetainOutputs
    (normalizeResultOutputsPrecision lib req.plan.outputs req.precision) req.plan.contract
  let refunds ← resultGasRefundOutputs lib decode req.plan req.view req.gasAssetName req.precision
  let outputs ← bindResultOutputs lib (kept ++ refunds) req.view.assets
  let feeOutputs ← bindResultOutputs lib
    (normalizeResultOutputsPrecision lib req.plan.feeOutputs req.precision) req.view.assets
  .ok (outputs, feeOutputs)

def resultFee : ResultM Decimal :=
  let fee := cloneDecimal req.plan.gasFee
  if fee.sign < 0 then .error .negativeResultFee
  else .ok (req.precision.normalizeUp lib req.gasAssetName fee)

/-- What nobody manages goes to the bootstrap address when a contract closes. -/
def anomalyOutputs (bootstrap : Text) (anomaly : ManagedBalance) : ResultM Outputs :=
  if anomaly.isZero then .ok []
  else if bootstrap = [] then .error .missingBootstrap
  else .ok [{ recipient := bootstrap, value := anomaly.value, assets := anomaly.assets }]

def closeOutputs (remainder anomaly : ManagedBalance) : ResultM Outputs :=
  if req.closed = false then .ok []
  else do
    let profit ← splitContractProfit lib
      { recipient := req.plan.contract, value := remainder.value, assets := remainder.assets }
      req.deployerAddress req.bootstrapAddress req.precision
    let surplus ← anomalyOutputs req.bootstrapAddress anomaly
    .ok (profit ++ surplus)

def mandatoryInputs (plan : ResultPlan) : List OutPoint :=
  plan.callFunding ++ if plan.inputScope = .explicit then plan.inputs else []

def changeOutputs (contract : Text) (change : ManagedBalance) : Outputs :=
  [({ recipient := contract, value := change.value, assets := change.assets } :
    ResultOutput)].filter fun o => !o.isZero

def augmentManagedResultPlan : ResultM ResultPlan :=
  if req.plan.managedRemainder.isSome then .ok (cloneResultPlan req.plan)
  else do
    let physical : ManagedBalance := ⟨req.view.value, req.view.assets⟩
    (req.managed.validate lib).mapError .managed
    (physical.validate lib).mapError .managed
    let _ ← req.view.utxos.foldlM (checkViewUtxo req.view.contract) []
    req.plan.callFunding.foldlM (checkCallFunding req.view.utxos) ()
    let budget ← planBudget lib req physical
    let anomaly ← (physical.debit lib budget.value budget.assets).mapError .uncovered
    let settlementBudget ← paySatoshiFee lib budget req.plan.satoshiFee
    let settled ← settledOutputs lib decode req
    let fee ← resultFee lib req
    let remainder ← physicalRemainderAfterOutputs lib settlementBudget
      (settled.1 ++ settled.2) req.gasAssetName fee
    require (req.plan.inputScope ≠ .explicit || remainder.isZero) .unsettledCallFunding
    let closing ← closeOutputs lib req remainder anomaly
    let outputs := settled.1 ++ closing
    let spends := outputs ++ settled.2
    let selected ← selectResultFunding lib req.view spends req.gasAssetName fee
      req.plan.satoshiFee (mandatoryInputs req.plan)
    let change ← physicalRemainderAfterOutputs lib
      ⟨selected.value - req.plan.satoshiFee, selected.assets⟩ spends req.gasAssetName fee
    let compacted ← compactResultOutputs lib (outputs ++ changeOutputs req.plan.contract change)
    .ok { req.plan with
      gasFee := some fee
      gasRefunds := []
      inputs := selected.inputs
      inputUtxos := selected.utxos
      feeOutputs := settled.2
      outputs := compacted
      managedRemainder := some remainder }

/-! ### The steps of a settlement -/

structure Account where
  (budget anomaly afterFee : ManagedBalance)
  (outputs feeOutputs : Outputs)
  fee : Decimal
  remainder : ManagedBalance
  closing : Outputs
  selected : ResultPlanUtxoView
  change : ManagedBalance
  compacted : Outputs

namespace Account

def spends (t : Account) : Outputs := t.outputs ++ t.closing ++ t.feeOutputs

def plan (t : Account) (req : ManagedResultRequest) : ResultPlan :=
  { req.plan with
    gasFee := some t.fee
    gasRefunds := []
    inputs := t.selected.inputs
    inputUtxos := t.selected.utxos
    feeOutputs := t.feeOutputs
    outputs := t.compacted
    managedRemainder := some t.remainder }

structure Follows (req : ManagedResultRequest) (t : Account) : Prop where
  managed : req.managed.Valid lib
  physical : (ManagedBalance.mk req.view.value req.view.assets).Valid lib
  utxos : ∃ seen, req.view.utxos.foldlM (checkViewUtxo req.view.contract) [] = .ok seen
  calls : req.plan.callFunding.foldlM (checkCallFunding req.view.utxos) () = .ok ()
  budget : planBudget lib req ⟨req.view.value, req.view.assets⟩ = .ok t.budget
  anomaly : (ManagedBalance.mk req.view.value req.view.assets).debit lib t.budget.value
    t.budget.assets = .ok t.anomaly
  afterFee : paySatoshiFee lib t.budget req.plan.satoshiFee = .ok t.afterFee
  outputs : settledOutputs lib decode req = .ok (t.outputs, t.feeOutputs)
  fee : resultFee lib req = .ok t.fee
  remainder : physicalRemainderAfterOutputs lib t.afterFee (t.outputs ++ t.feeOutputs)
    req.gasAssetName t.fee = .ok t.remainder
  explicit : req.plan.inputScope = .explicit → t.remainder.isZero = true
  closing : closeOutputs lib req t.remainder t.anomaly = .ok t.closing
  selected : selectResultFunding lib req.view t.spends req.gasAssetName t.fee req.plan.satoshiFee
    (mandatoryInputs req.plan) = .ok t.selected
  change : physicalRemainderAfterOutputs lib
    ⟨t.selected.value - req.plan.satoshiFee, t.selected.assets⟩ t.spends req.gasAssetName t.fee =
      .ok t.change
  compacted : compactResultOutputs lib
    (t.outputs ++ t.closing ++ changeOutputs req.plan.contract t.change) = .ok t.compacted

end Account

variable {lib decode}

theorem augmentManagedResultPlan_eq_ok {req} {plan} (hnew : req.plan.managedRemainder = none) :
    augmentManagedResultPlan lib decode req = .ok plan ↔
      ∃ t : Account, t.Follows lib decode req ∧ t.plan req = plan := by
  simp only [augmentManagedResultPlan, hnew, Option.isSome_none, Bool.false_eq_true, if_false,
    bind_eq_ok, mapError_eq_ok, ManagedBalance.validate_eq_ok, require_eq_ok, Except.ok.injEq]
  constructor
  · rintro ⟨_, hmanaged, _, hphysical, seen, hseen, _, hcalls, budget, hbudget, anomaly, hanomaly,
      afterFee, hafter, ⟨outputs, feeOutputs⟩, houtputs, fee, hfee, remainder, hremainder, _,
      hexplicit, closing, hclosing, selected, hselected, change, hchange, compacted, hcompacted,
      hplan⟩
    refine ⟨⟨budget, anomaly, afterFee, outputs, feeOutputs, fee, remainder, closing, selected,
      change, compacted⟩, ⟨hmanaged, hphysical, ⟨seen, hseen⟩, hcalls, hbudget, hanomaly, hafter,
      houtputs, hfee, hremainder, fun hscope => ?_, hclosing, hselected, hchange, hcompacted⟩, hplan⟩
    simpa [hscope] using hexplicit
  · rintro ⟨t, h, hplan⟩
    obtain ⟨seen, hseen⟩ := h.utxos
    refine ⟨(), h.managed, (), h.physical, seen, hseen, (), h.calls, t.budget, h.budget, t.anomaly,
      h.anomaly, t.afterFee, h.afterFee, (t.outputs, t.feeOutputs), h.outputs, t.fee, h.fee,
      t.remainder, h.remainder, ⟨⟩, ?_, t.closing, h.closing, t.selected, h.selected, t.change,
      h.change, t.compacted, h.compacted, hplan⟩
    by_cases hscope : req.plan.inputScope = .explicit
    · rw [h.explicit hscope, Bool.or_true]
    · rw [decide_eq_true hscope, Bool.true_or]

/-! ### The transactions of a Result -/

inductive ResultTxError
  | extraData | missingResolver | resolve | negativeValue
  | assetAmount (name : Text)
  | carrier (cause : ResultError)
  | insufficientCarrier (need have_ : ℤ)

abbrev ScriptResolver := ResultOutput → Option Script

variable (lib : AmountLib)

def checkAssetAmount (asset : AssetInfo) : Except ResultTxError Unit :=
  require (validateAssetDecimal lib asset.amount) (.assetAmount asset.name.text)

def resultTxOut (output : ResultOutput) (resolve : Option ScriptResolver) :
    Except ResultTxError TxOut := do
  require (output.extraData = []) .extraData
  let resolve ← orError resolve .missingResolver
  let pkScript ← orError (resolve output) .resolve
  require (0 ≤ output.value) .negativeValue
  output.assets.forM (checkAssetAmount lib)
  let carrier ← (resultAssetCarrierSats lib output.assets).mapError .carrier
  require (carrier ≤ output.value) (.insufficientCarrier carrier output.value)
  .ok ⟨output.value, output.assets, pkScript⟩

end SatoshiNet.Contract
