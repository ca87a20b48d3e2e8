import SatoshiNet.Contract.Gas
import SatoshiNet.Lib.Total
import SatoshiNet.Template.Invoke

/-!
The autopay contract: delegates deposit a fee asset, every settled block charges each its amount per
block, and a cancellation or the close returns the balances.  The history of deposits, charges and
refunds is kept beside the running data; no function reads it.
A settlement of a block: refused calls, cancellations, a batch of the closing, and otherwise one
payment of every delegate that can afford it.
-/

namespace SatoshiNet.Template

open Lib Wire Contract
open Std (ExtTreeMap)

inductive AutopayStatus
  | unset | funding | active | expired | closed
deriving DecidableEq

structure AutopayDelegate where
  amountPerBlock : Option Decimal := none
  blobKeyLimit : ℕ := 0
  balance : Option Decimal := none
  totalPaid : Option Decimal := none
  paidBlockCount : ℤ := 0
  lastPayHeight : ℤ := 0
  status : AutopayStatus := .unset

inductive LedgerEvent
  | deposited (address : Text) (amount : Decimal)
  | charged (height : ℤ) (address : Text) (amount : Decimal)
  | refunded (address : Text) (transfer : SettlementTransfer)
deriving DecidableEq

structure AutopayRunningData where
  gasBalance : Option Decimal := none
  closed : Bool := false
  feeBalance : Option Decimal := none
  autopayStatus : AutopayStatus := .unset
  activeHeight : ℤ := 0
  nextPayHeight : ℤ := 0
  lastPayHeight : ℤ := 0
  paidBlockCount : ℤ := 0
  autopayCloseStarted : Bool := false
  autopayDelegates : ExtTreeMap Text AutopayDelegate := ∅
  history : List LedgerEvent := []

structure AutopayContract where
  (recipient feeAssetName minAmountPerBlock : Text)
deriving DecidableEq

abbrev AutopayState := TemplateState AutopayRunningData

def autopayDefaultBlobKeyLimit : ℕ := 1

def autopayMaxBlobKeyLimit : ℕ := 1024

def autopayMaxDelegates : ℕ := 10000

section Contract

variable (lib : DecimalLib) (c : AutopayContract)

/-! ### Delegates -/

def AutopayContract.minAmount : Decimal := parseDecimalOrZero lib c.minAmountPerBlock

section

variable (running : AutopayRunningData) (address : Text)

def ensureDelegate : AutopayDelegate :=
  let delegate := running.autopayDelegates[address]?.getD {}
  { delegate with
    amountPerBlock := some (delegate.amountPerBlock.getD (c.minAmount lib))
    blobKeyLimit :=
      if delegate.blobKeyLimit = 0 then autopayDefaultBlobKeyLimit else delegate.blobKeyLimit
    status := if delegate.status = .unset then .funding else delegate.status }

def normalizeAutopayBlobKeyLimit (limit : ℕ) : ℕ :=
  if limit = 0 then autopayDefaultBlobKeyLimit else min limit autopayMaxBlobKeyLimit

def delegateStatus (delegate : AutopayDelegate) : AutopayStatus :=
  if lib.cmp (decimalOrZero lib delegate.balance) (decimalOrZero lib delegate.amountPerBlock) ≠ .lt
  then .active else .funding

def withStatus (delegate : AutopayDelegate) : AutopayDelegate :=
  { delegate with status := delegateStatus lib delegate }

def AutopayRunningData.setDelegate (delegate : AutopayDelegate) : AutopayRunningData :=
  { running with autopayDelegates := running.autopayDelegates.insert address delegate }

def AutopayRunningData.record (event : LedgerEvent) : AutopayRunningData :=
  { running with history := running.history ++ [event] }

def setDelegateConfig (amount : Option Decimal) (blobKeyLimit : ℕ) : AutopayRunningData :=
  match amount with
  | none => running
  | some amount =>
    if address = [] ∨ amount.sign ≤ 0 then running
    else running.setDelegate address (withStatus lib
      { ensureDelegate lib c running address with
        amountPerBlock := some amount
        blobKeyLimit := normalizeAutopayBlobKeyLimit blobKeyLimit })

def totalDelegateBalance : Decimal :=
  running.autopayDelegates.toList.foldl
    (fun total entry => lib.addAlignPrecision total (decimalOrZero lib entry.2.balance))
    (zeroDecimal lib)

def syncFeeBalance : AutopayRunningData :=
  { running with feeBalance := some (totalDelegateBalance lib running) }

def addDelegateBalance (amount : Option Decimal) : AutopayRunningData :=
  match amount with
  | none => running
  | some amount =>
    if address = [] ∨ amount.sign ≤ 0 then running
    else
      let delegate := ensureDelegate lib c running address
      let funded := withStatus lib
        { delegate with balance := decimalAddAllowNil lib delegate.balance (some amount) }
      (syncFeeBalance lib (running.setDelegate address funded)).record (.deposited address amount)

def addGasBalance (gas : Option Decimal) : AutopayRunningData :=
  { running with gasBalance := decimalAddAllowNil lib running.gasBalance gas }

end

/-! ### Funding without a call -/

variable (deployer : Text) (running : AutopayRunningData) (output : ContractOutput)
  (gasAssetName : Text)

def applyAutopayFunding : TemplateM AutopayRunningData := do
  let fee ← output.assetAmount lib c.feeAssetName
  let funded := if deployer = [] then running
    else addDelegateBalance lib c running deployer (some fee)
  let gassed ← if gasAssetName ≠ [] ∧ gasAssetName ≠ c.feeAssetName then do
      let gas ← output.assetAmount lib gasAssetName
      .ok (addGasBalance lib funded (some gas))
    else .ok funded
  .ok (if gassed.autopayStatus = .unset then { gassed with autopayStatus := .funding } else gassed)

def applyAutopayGasFunding : TemplateM AutopayRunningData :=
  if gasAssetName = [] ∨ c.feeAssetName = gasAssetName then .ok running
  else do
    let gas ← output.assetAmount lib gasAssetName
    .ok (addGasBalance lib running (some gas))

/-! ### Calls -/

def autopaySatoshiValue (amount : Decimal) : TemplateM ℤ := do
  require (validateAssetDecimal lib.toAmountLib amount) .invalidAmount
  let integer := lib.newPrecision amount 0
  require (lib.cmp integer amount = .eq) .fractionalSats
  (decimalToInt64 lib.toAmountLib integer).mapError .result

def autopayConfigGasAmount (param : AutopayConfigInvokeParam) : TemplateM Decimal :=
  if param.gasFundingAmount = [] then .ok (zeroDecimal lib)
  else do
    let gas ← orError (lib.parseDecimalAmountString param.gasFundingAmount) .invalidAmount
    require (0 ≤ gas.sign) .invalidAmount
    .ok gas

variable (params : ParamLib) (running : AutopayRunningData) (action : InvokeAction)
  (deployer : Text) (raw : Bytes) (closable : Bool) (state : AutopayState) (id : ℤ)
  (req : ApplyInvokeRequest) (item : InvokeItem)

def autopayGasOnlyConfig : Bool :=
  if action ≠ .config ∧ action ≠ .funding then false
  else match params.autopayConfig raw with
    | none => false
    | some param =>
      if param.amountPerBlock ≠ [] then false
      else match autopayConfigGasAmount lib param with
        | .ok gas => 0 < gas.sign
        | .error _ => false

def checkAutopayConfig : TemplateM Unit := do
  let config ← orError (params.autopayConfig raw) .param
  let gas ← autopayConfigGasAmount lib config
  require (!(action = .funding && (config.amountPerBlock ≠ [] || config.blobKeyLimit ≠ 0 ||
    gas.sign ≤ 0))) .gasFundingOnly
  if config.amountPerBlock = [] ∧ 0 < gas.sign then
    require (config.blobKeyLimit = 0) .gasOnlyConfig
  else do
    let amount ← orError (lib.parseDecimalAmountString config.amountPerBlock) .invalidAmount
    require (0 < amount.sign) .invalidAmount
    require (lib.cmp amount (c.minAmount lib) ≠ .lt) .belowMinimum
    require (config.blobKeyLimit ≤ autopayMaxBlobKeyLimit) .blobKeyLimit
    if c.feeAssetName = satoshiAssetName then do
      let _ ← autopaySatoshiValue lib amount
      .ok ()
    else .ok ()

def checkAutopayInvoke : TemplateM Unit :=
  match action with
  | .config | .funding => checkAutopayConfig lib c params action raw
  | .cancel | .close => require (raw = []) .param
  | _ => .error .unsupportedAction

def checkAutopayLifecycle : TemplateM Unit := do
  require (!(!running.closed && running.autopayCloseStarted && req.action ≠ .default &&
    !autopayGasOnlyConfig lib params req.action req.param)) .closing
  require (!running.closed) .closed
  if req.action = .close then do
    require closable .nonClosable
    require (deployer ≠ [] && req.invoker ≠ [] && req.invoker = deployer) .notDeployer
  else .ok ()

def gasPrecision : TemplateM ℤ :=
  if req.gasAssetName = satoshiAssetName then .ok 0
  else do
    let resolve ← orError req.assetPrecision .unknownPrecision
    let precision ← orError (resolve req.gasAssetName) .unknownPrecision
    require (0 ≤ precision && precision ≤ lib.maxPrecision) .unknownPrecision
    .ok precision

def splitAutopayGasFunding : TemplateM ContractOutput :=
  if req.action ≠ .config ∧ req.action ≠ .funding then .ok req.fundingOutput
  else do
    let param ← orError (params.autopayConfig req.param) .param
    let gas ← autopayConfigGasAmount lib param
    if gas.sign = 0 then .ok req.fundingOutput
    else do
      require (req.invoker ≠ [] && req.invoker = deployer) .notDeployer
      require (req.gasAssetName ≠ []) .missingGasAsset
      let precision ← gasPrecision lib req
      require (lib.cmp (lib.newPrecision gas precision) gas = .eq) .gasNotRepresentable
      let available ← req.fundingOutput.assetAmount lib req.gasAssetName
      require (lib.cmp available gas ≠ .lt) .gasExceedsFunding
      let output ← req.fundingOutput.subAssetAmount lib req.gasAssetName gas
      if param.amountPerBlock = [] then do
        let fee ← output.assetAmount lib c.feeAssetName
        require (fee.sign = 0) .delegateFunding
        .ok output
      else .ok output

def checkAutopayDelegateCapacity (address : Text) : TemplateM Unit :=
  require (address = [] || running.autopayDelegates.contains address ||
    running.autopayDelegates.size < autopayMaxDelegates) .delegateLimit

def newAutopayItemOf (inAmt : Decimal) : TemplateM InvokeItem :=
  let item : InvokeItem := {
    id := id, action := req.action, orderType := .noSpec, height := req.height,
    orderTime := req.timestamp, assetName := c.feeAssetName, address := req.invoker,
    inUtxos := [req.fundingOutput.outPoint], gasFee := req.resultGasFee, param := req.param,
    inValue := req.fundingOutput.plainValue lib,
    inAmt := unlessZero inAmt,
    remainingValue := req.fundingOutput.plainValue lib }
  match req.action with
  | .config | .funding => do
    checkAutopayInvoke lib c params req.action req.param
    .ok { item with orderType := .validate, done := .dealt }
  | .cancel => .ok { item with orderType := .cancel, inAmt := none }
  | .close => .ok { item with orderType := .close, inValue := 0 }
  | _ => .error .unsupportedAction

def fundedAmount (assetName : Text) (output : ContractOutput) : TemplateM Decimal :=
  if assetName = [] then .ok (zeroDecimal lib)
  else do
    let amt ← output.assetAmount lib assetName
    .ok (lib.addAlignPrecision (zeroDecimal lib) amt)

def newAutopayItem : TemplateM InvokeItem := do
  let inAmt ← fundedAmount lib c.feeAssetName req.fundingOutput
  newAutopayItemOf lib c params id req inAmt

def applyAutopayConfig : AutopayRunningData :=
  match decodeAutopayConfigItemParam params item with
  | .error _ => running
  | .ok param => match autopayConfigGasAmount lib param with
    | .error _ => running
    | .ok gas =>
      if param.amountPerBlock = [] then addGasBalance lib running (some gas)
      else match lib.parseDecimalAmountString param.amountPerBlock with
        | none => running
        | some amount =>
          addDelegateBalance lib c (setDelegateConfig lib c (addGasBalance lib running (some gas))
            item.address (some amount) param.blobKeyLimit) item.address item.inAmt

def applyAutopayRunningData : AutopayRunningData :=
  if item.reason = .invalid then running
  else match item.orderType with
    -- a plain transfer pays for the contract's own operation
    | .fund => addGasBalance lib running item.inAmt
    | .validate => applyAutopayConfig lib c params running item
    | _ => running

def AutopayContract.applyInvoke : TemplateM AutopayState := do
  checkAutopayLifecycle lib params state.running deployer closable req
  checkAutopayInvoke lib c params req.action req.param
  let output ← splitAutopayGasFunding lib c params deployer req
  checkWhen (req.action ≠ .close && !autopayGasOnlyConfig lib params req.action req.param)
    (checkAutopayDelegateCapacity state.running req.invoker)
  let item ← newAutopayItem lib c params state.nextItemId { req with fundingOutput := output }
  let item ← normalizeInvokeItemParam params lib c.feeAssetName item
  .ok { nextItemId := state.nextItemId + 1, items := state.items ++ [item]
        running := applyAutopayRunningData lib c params state.running item }

def newAutopayDefaultItem : TemplateM InvokeItem := do
  require (req.gasAssetName ≠ []) .missingGasAsset
  require (req.fundingOutput.txAssets.all fun asset => asset.name.text = req.gasAssetName)
    .gasFundingOnly
  let amount ← req.fundingOutput.assetAmount lib req.gasAssetName
  require (0 < amount.sign) .gasFundingOnly
  .ok {
    id := id, action := .default, orderType := .fund, height := req.height,
    orderTime := req.timestamp, assetName := req.gasAssetName, address := req.invoker,
    inUtxos := [req.fundingOutput.outPoint], param := req.param,
    inValue := req.fundingOutput.plainValue lib, inAmt := some amount,
    remainingAmt := some amount, done := .dealt,
    remainingValue := req.fundingOutput.plainValue lib }

def AutopayContract.applyDefaultInvoke : TemplateM AutopayState := do
  let item ← newAutopayDefaultItem lib state.nextItemId req
  let item ← normalizeInvokeItemParam params lib c.feeAssetName item
  .ok { nextItemId := state.nextItemId + 1, items := state.items ++ [item]
        running := applyAutopayRunningData lib c params state.running item }

def AutopayContract.applyInvalidInvoke (gasAssetName : Text) : TemplateM AutopayState := do
  let item ← invalidInvokeItem lib c.feeAssetName satoshiAssetName c.feeAssetName state.nextItemId
    req gasAssetName
  .ok { state with nextItemId := state.nextItemId + 1, items := state.items ++ [item] }

end Contract

/-- The gas asset of the network and what a triggered settlement costs at a height. -/
structure GasTerms where
  gasAssetName : Text
  triggerGasFee : ℤ → TemplateM Decimal

/-- The height becomes an unsigned number of 64 bits. -/
def autopayTriggerGasFee (lib : DecimalLib) (config : GasConfig)
    (assetPrecision : AssetPrecision) (height : ℤ) : TemplateM Decimal := do
  let blocks := (if height < 0 then height + 2 ^ 64 else height).toNat
  let fee ← (config.contractFundingFee lib.toAmountLib config.triggerBaseGas blocks).mapError
    fun _ => .fee
  .ok ((settlementPolicy assetPrecision).normalizeUp lib.toAmountLib config.gasAssetName fee)

def gasTerms (lib : DecimalLib) (config : GasConfig) (assetPrecision : AssetPrecision) :
    GasTerms :=
  ⟨config.gasAssetName, autopayTriggerGasFee lib config assetPrecision⟩

def maxContractResultOutputs : ℕ := 1000

/-- The outputs left for delegates beside those of the deployer and the bootstrap node. -/
def autopayMaxCloseDelegateOutputs : ℕ := maxContractResultOutputs - 2

section Settle

variable (lib : DecimalLib) (c : AutopayContract)

def autopayTransfer (recipient assetName : Text) (amount : Decimal) :
    TemplateM SettlementTransfer :=
  if assetName = satoshiAssetName then do
    let value ← autopaySatoshiValue lib amount
    .ok { recipient := recipient, assetName := assetName, satValue := value, reason := .autopay }
  else .ok { recipient := recipient, assetName := assetName,
             assetAmt := decimalString lib (some amount), reason := .autopay }

def balanceTransfer (recipient assetName : Text) (amount : Decimal) :
    TemplateM (Option SettlementTransfer) :=
  if recipient = [] ∨ assetName = [] ∨ amount.sign ≤ 0 then .ok none
  else (autopayTransfer lib recipient assetName amount).map some

def autopayPaymentTransfer (amount : Decimal) : TemplateM SettlementTransfer :=
  if c.recipient ≠ [] then autopayTransfer lib c.recipient c.feeAssetName amount
  else do
    let transfer ← autopayTransfer lib [] c.feeAssetName amount
    .ok { transfer with reason := .minerFee, asFee := true }

/-! ### Returning a balance -/

abbrev Settling := AutopayRunningData × SettlementPlan

abbrev SettlingWith (α : Type) := AutopayRunningData × SettlementPlan × α

variable (terms : GasTerms) (deployer : Text) (height : ℤ) (running : AutopayRunningData)
  (plan : SettlementPlan) (item : InvokeItem)

def returnBalance (address : Text) : TemplateM Settling := do
  let delegate := running.autopayDelegates[address]?.getD {}
  let transfer ← balanceTransfer lib address c.feeAssetName (decimalOrZero lib delegate.balance)
  let emptied := running.setDelegate address { delegate with balance := none, status := .closed }
  match transfer with
  | none => .ok (emptied, plan)
  | some transfer => .ok (emptied.record (.refunded address transfer), plan.append [transfer])

def applyAutopayCancel (acc : Settling) (item : InvokeItem) : TemplateM (Settling × InvokeItem) :=
  if item.pending height ∧ item.orderType = .cancel then do
    let acc' ← returnBalance lib c acc.1 ((acc.2.addInputs item).appendItemId item.id) item.address
    .ok (acc', { item with done := .cancelled })
  else .ok (acc, item)

def hasCancel (items : List InvokeItem) : Bool :=
  items.any fun item => item.pending height && item.orderType = .cancel

/-! ### Closing -/

def hasPendingDelegateBalance : Bool :=
  running.autopayDelegates.toList.any fun entry => 0 < (decimalOrZero lib entry.2.balance).sign

def sortedDelegateAddresses : List Text :=
  running.autopayDelegates.keys.filter fun address => address ≠ []

def closeBatch (limit : ℕ) (running : AutopayRunningData) : List Text :=
  ((sortedDelegateAddresses running).filter fun address =>
    0 < (decimalOrZero lib (running.autopayDelegates[address]?.getD {}).balance).sign).take limit

def closeBatchGasFee (height : ℤ) : TemplateM (Option Decimal) :=
  if running.autopayCloseStarted = false ∧ (item.gasFee.any fun fee => 0 < fee.sign) then .ok none
  else (terms.triggerGasFee height).map some

def returnGas : TemplateM (Option SettlementTransfer) :=
  match running.gasBalance with
  | none => .ok none
  | some gas => balanceTransfer lib deployer terms.gasAssetName gas

def finishClose : TemplateM (SettlingWith InvokeItem) :=
  if hasPendingDelegateBalance lib running then
    .ok ({ running with autopayStatus := .active }, plan, item)
  else do
    let gas ← returnGas lib terms deployer running
    .ok ({ running with gasBalance := none, closed := true, autopayStatus := .closed },
      plan.append gas.toList, { item with done := .dealt })

def payClosingGas (gasFee : Option Decimal) : Settling :=
  if gasFee.any fun fee => 0 < fee.sign then
    ({ running with gasBalance := some (decimalSubAllowNil lib running.gasBalance gasFee) },
      { plan with gasFee := gasFee })
  else (running, plan)

def enterClose : SettlementPlan :=
  (if running.autopayCloseStarted then plan else plan.addInputs item).appendItemId item.id

def closeItem : TemplateM (SettlingWith InvokeItem) :=
  if item.address ≠ deployer then
    .ok (running, enterClose running plan item,
      { item with reason := .invalid, done := .closedDirectly })
  else do
    let gasFee ← closeBatchGasFee terms running item height
    -- a batch that cannot be paid for waits
    if gasFee.any fun fee => lib.cmp (decimalOrZero lib running.gasBalance) fee = .lt then
      .ok (running, plan, item)
    else do
      let paid := payClosingGas lib running (enterClose running plan item) gasFee
      let started := { paid.1 with autopayCloseStarted := true }
      let returned ← (closeBatch lib autopayMaxCloseDelegateOutputs started).foldlM
        (fun acc address => returnBalance lib c acc.1 acc.2 address) (started, paid.2)
      finishClose lib terms deployer (syncFeeBalance lib returned.1) returned.2 item

/-- The first pending request to close, if there is one, ends the settlement. -/
def applyAutopayClose : List InvokeItem → TemplateM (Option (SettlingWith (List InvokeItem)))
  | [] => .ok none
  | item :: items =>
    if item.pending height ∧ item.orderType = .close then do
      let (running', plan', item') ← closeItem lib c terms deployer height running plan item
      .ok (some (running', plan', item' :: items))
    else do
      let closed ← applyAutopayClose items
      .ok (closed.map fun (running', plan', items') => (running', plan', item :: items'))

def closeUnlessClosed (items : List InvokeItem) :
    TemplateM (Option (SettlingWith (List InvokeItem))) :=
  if running.closed then .ok none
  else applyAutopayClose lib c terms deployer height running plan items

/-! ### Paying -/

variable (running : AutopayRunningData) (height : ℤ)

def hasActiveDelegate : Bool :=
  running.autopayDelegates.toList.any fun entry =>
    lib.cmp (decimalOrZero lib entry.2.balance) (decimalOrZero lib entry.2.amountPerBlock) ≠ .lt

def autopayFundingStatus : AutopayStatus :=
  let next := if running.nextPayHeight = 0 then height + 1 else running.nextPayHeight
  match terms.triggerGasFee next with
  | .error _ => .funding
  | .ok fee =>
    if lib.cmp (decimalOrZero lib running.gasBalance) fee ≠ .lt ∧ hasActiveDelegate lib running
    then .active else .funding

def delegateAmount (delegate : AutopayDelegate) : Decimal :=
  let amount := decimalOrZero lib delegate.amountPerBlock
  if amount.sign ≤ 0 then c.minAmount lib else amount

def collectAutopayFee (acc : AutopayRunningData × Decimal) (address : Text) :
    TemplateM (AutopayRunningData × Decimal) := do
  let (running, total) := acc
  let delegate := running.autopayDelegates[address]?.getD {}
  let amount := delegateAmount lib c delegate
  let balance := decimalOrZero lib delegate.balance
  if lib.cmp balance amount = .lt then
    .ok (running.setDelegate address { delegate with status := .funding }, total)
  else do
    checkWhen (c.feeAssetName = satoshiAssetName) ((autopaySatoshiValue lib amount).map fun _ => ⟨⟩)
    let charged := withStatus lib { delegate with
      balance := some (lib.subAlignPrecision balance amount)
      totalPaid := decimalAddAllowNil lib delegate.totalPaid (some amount)
      paidBlockCount := delegate.paidBlockCount + 1
      lastPayHeight := height }
    .ok ((running.setDelegate address charged).record (.charged height address amount),
      lib.addAlignPrecision total amount)

def collectAutopayFees : TemplateM (AutopayRunningData × Decimal) :=
  (sortedDelegateAddresses running).foldlM (collectAutopayFee lib c height)
    (running, zeroDecimal lib)

def startSchedule : AutopayRunningData :=
  if running.nextPayHeight = 0 then
    { running with activeHeight := height, nextPayHeight := height + 1 }
  else running

def payBlock (plan : SettlementPlan) (height : ℤ) : TemplateM Settling := do
  let gasFee ← terms.triggerGasFee height
  let running := startSchedule running height
  if height < running.nextPayHeight then
    .ok ({ running with autopayStatus := autopayFundingStatus lib terms running height }, plan)
  else if lib.cmp (decimalOrZero lib running.gasBalance) gasFee = .lt then
    .ok ({ running with autopayStatus := .funding }, plan)
  else do
    let (collected, total) ← collectAutopayFees lib c running height
    if total.sign ≤ 0 then .ok ({ collected with autopayStatus := .funding }, plan)
    else do
      let transfer ← autopayPaymentTransfer lib c total
      let paid := syncFeeBalance lib { collected with
        gasBalance := some (decimalSubAllowNil lib collected.gasBalance (some gasFee))
        paidBlockCount := collected.paidBlockCount + 1
        lastPayHeight := height
        nextPayHeight := height + 1 }
      .ok ({ paid with autopayStatus := autopayFundingStatus lib terms paid height },
        { plan.append [transfer] with gasFee := some gasFee })

/-! ### A block -/

def applyAutopayCancels (running : AutopayRunningData) (plan : SettlementPlan)
    (items : List InvokeItem) : TemplateM (SettlingWith (List InvokeItem)) := do
  let ((cancelled, plan'), items') ← walk (applyAutopayCancel lib c height) (running, plan) items
  .ok (if hasCancel height items then syncFeeBalance lib cancelled else cancelled, plan', items')

def AutopayContract.settle (state : AutopayState) (height : ℤ) :
    TemplateM (AutopayState × SettlementPlan) := do
  let (plan, items) ← applyInvalidItemsInRange lib c.feeAssetName satoshiAssetName (some height)
    height {} state.items
  let (running, plan, items) ← applyAutopayCancels lib c height state.running plan items
  let closing ← closeUnlessClosed lib c terms deployer height running plan items
  match closing with
  | some (running', plan', items') =>
    .ok ({ state with items := items', running := syncFeeBalance lib running' }, plan')
  | none =>
    if running.closed ∨ running.autopayStatus = .closed ∨ running.autopayStatus = .expired then
      .ok ({ state with items := items, running := running }, plan)
    else do
      let (running', plan') ← payBlock lib c terms running plan height
      .ok ({ state with items := items, running := running' }, plan')

end Settle

end SatoshiNet.Template
