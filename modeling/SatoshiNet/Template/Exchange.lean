import SatoshiNet.Template.Invoke

/-!
The exchange contract sells asset A from its pool for asset B, at prices that step with the height
or with the amount sold; a close pays the pools out to the deployer.
-/

namespace SatoshiNet.Template

open Lib Wire Contract

inductive ExchangePriceMode
  | height | soldA
deriving DecidableEq

structure ExchangePriceStep where
  (threshold bPerA : Text)

structure ExchangeContract where
  (assetAName assetBName : Text)
  priceMode : ExchangePriceMode
  steps : List ExchangePriceStep

structure ExchangeRunningData where
  assetAInPool : Option Decimal := none
  assetBInPool : Option Decimal := none
  totalDealAssetA : Option Decimal := none
  closed : Bool := false
deriving DecidableEq

abbrev ExchangeState := TemplateState ExchangeRunningData

def parseInt64 (text : Text) : Option ℤ :=
  let digits := if text.head? = some '-' ∨ text.head? = some '+' then text.tail else text
  let magnitude : ℤ := Nat.ofDigitChars 10 digits 0
  let n := if text.head? = some '-' then -magnitude else magnitude
  if digits ≠ [] ∧ (digits.all Char.isDigit) ∧ inInt64 n then some n else none

def maxExchangePriceSteps : ℕ := 128

section Contract

variable (lib : DecimalLib) (c : ExchangeContract)

/-! ### Deployment -/

def parseNonNegativeDecimal (text : Text) : Option Decimal :=
  if text = [] then none
  else (lib.newDecimalFromString text maxPriceDivisibility).filter fun d => 0 ≤ d.sign

def stepThreshold (mode : ExchangePriceMode) (text : Text) : Option Decimal :=
  match mode with
  | .height => ((parseInt64 text).filter fun height => 0 ≤ height).map newDefaultDecimal
  | .soldA => parseNonNegativeDecimal lib text

def checkPriceStep (mode : ExchangePriceMode) (prev : Option Decimal) (step : ExchangePriceStep) :
    TemplateM (Option Decimal) := do
  let _ ← orError (parsePositiveDecimal lib step.bPerA) .invalidAmount
  let threshold ← orError (stepThreshold lib mode step.threshold) .invalidAmount
  require (prev.elim (threshold.sign = 0) fun last => lib.cmp threshold last = .gt) .invalidAmount
  .ok (some threshold)

def ExchangeContract.checkContent : TemplateM Unit := do
  checkTemplateAssetName c.assetAName
  require (c.assetBName ≠ []) .invalidAsset
  checkWhen (c.assetBName ≠ satoshiAssetName) (checkTemplateAssetName c.assetBName)
  require (c.assetAName ≠ c.assetBName) .invalidAsset
  require (c.steps ≠ [] && c.steps.length ≤ maxExchangePriceSteps) .param
  let _ ← c.steps.foldlM (checkPriceStep lib c.priceMode) none
  .ok ()

/-! ### Funding -/

def applyExchangeFunding (running : ExchangeRunningData) (output : ContractOutput) :
    TemplateM ExchangeRunningData := do
  let amt ← output.assetAmount lib c.assetAName
  let funded := parseDecimalOrZero lib (lib.toText amt)
  .ok { running with assetAInPool := addPositive lib running.assetAInPool (some funded) }

/-! ### Calls -/

def exchangeInputB (output : ContractOutput) : TemplateM Decimal :=
  if c.assetBName = satoshiAssetName then .ok (newDefaultDecimal (output.plainValue lib))
  else do
    let amt ← output.assetAmount lib c.assetBName
    .ok (parseDecimalOrZero lib (lib.toText amt))

def exchangeFundingAmounts (output : ContractOutput) : TemplateM (Decimal × Decimal) := do
  let inputA ← output.assetAmount lib c.assetAName
  let inputB ← exchangeInputB lib c output
  .ok (parseDecimalOrZero lib (lib.toText inputA), inputB)

def newExchangeItem (id : ℤ) (action : InvokeAction) (req : ApplyInvokeRequest)
    (inputB : Decimal) : InvokeItem :=
  let paid := if 0 < inputB.sign then some inputB else none
  { id := id, action := action, orderType := .exchange, height := req.height,
    orderTime := req.timestamp, assetName := c.assetBName, address := req.invoker,
    inUtxos := [req.fundingOutput.outPoint], gasFee := req.resultGasFee, param := req.param,
    inAmt := paid, remainingAmt := paid }

def newExchangeCloseItem (id : ℤ) (req : ApplyInvokeRequest) (inputA inputB : Decimal) :
    InvokeItem :=
  { id := id, action := .close, orderType := .close, height := req.height,
    orderTime := req.timestamp, assetName := c.assetAName, address := req.invoker,
    inUtxos := [req.fundingOutput.outPoint], gasFee := req.resultGasFee, param := req.param,
    inAmt := some inputA, remainingAmt := some inputB,
    remainingValue := req.fundingOutput.plainValue lib }

variable (params : ParamLib) (deployer : Text) (closable : Bool) (state : ExchangeState) (id : ℤ)
  (req : ApplyInvokeRequest) (running : ExchangeRunningData) (item : InvokeItem)

def checkExchangeInvoke (action : InvokeAction) (raw : Bytes) : TemplateM Unit :=
  match action with
  | .exchange => do
    let minOut ← orError (params.exchange raw) .param
    if minOut = [] then .ok ()
    else do
      let _ ← orError (parsePositiveDecimal lib minOut) .invalidAmount
      .ok ()
  | .close => require (raw = []) .param
  | _ => .error .unsupportedAction

def newExchangeInvokeItem : TemplateM InvokeItem :=
  match req.action with
  | .exchange => do
    let _ ← orError (params.exchange req.param) .param
    let amounts ← exchangeFundingAmounts lib c req.fundingOutput
    .ok { newExchangeItem c id .exchange req amounts.2 with outAmt := positive amounts.1 }
  | .close => do
    let amounts ← exchangeFundingAmounts lib c req.fundingOutput
    .ok (newExchangeCloseItem lib c id req amounts.1 amounts.2)
  | _ => .error .unsupportedAction

def retainToPools : ExchangeRunningData :=
  { running with
    assetAInPool := addPositive lib running.assetAInPool item.retainedAssetA
    assetBInPool := addPositive lib running.assetBInPool item.retainedAssetB }

def applyExchangeRunningData : ExchangeRunningData :=
  let retained := retainToPools lib running item
  if item.reason = .invalid then retained
  else match item.orderType with
    | .fund => match item.inAmt with
      | none => retained
      | some amount => { retained with assetAInPool := addToPool lib retained.assetAInPool amount }
    | .exchange => match item.outAmt with
      | none => retained
      | some amount => { retained with assetAInPool := addToPool lib retained.assetAInPool amount }
    | _ => retained

def appendExchangeItem : ExchangeState :=
  { nextItemId := state.nextItemId + 1, items := state.items ++ [item]
    running := applyExchangeRunningData lib state.running item }

def ExchangeContract.applyInvoke : TemplateM ExchangeState := do
  checkLifecycle deployer closable state.running.closed req.action req.invoker
  checkExchangeInvoke lib params req.action req.param
  let item ← newExchangeInvokeItem lib c params state.nextItemId req
  let item ← normalizeInvokeItemParam params lib c.assetAName item
  .ok (appendExchangeItem lib state item)

def newExchangeDefaultItem (inputA inputB : Decimal) : Option InvokeItem :=
  if inputA.sign = 0 ∧ inputB.sign = 0 then none
  else
    let item := newExchangeItem c id .default req inputB
    some (if inputB.sign = 0 then
        { item with orderType := .fund, assetName := c.assetAName, inAmt := some inputA,
                    remainingAmt := some inputA }
      else { item with outAmt := positive inputA })

def ExchangeContract.applyDefaultInvoke : TemplateM ExchangeState := do
  checkLifecycle deployer closable state.running.closed .default req.invoker
  let kept ← retainIf lib req.applyDefaultRetention c.assetAName c.assetBName req.fundingOutput
  let amounts ← exchangeFundingAmounts lib c kept.2
  let item := newExchangeDefaultItem c state.nextItemId { req with fundingOutput := kept.2 }
    amounts.1 amounts.2
  item.elim (.ok state) fun item => do
    let item ← normalizeInvokeItemParam params lib c.assetAName
      { item with retainedAssetA := kept.1.assetA, retainedAssetB := kept.1.assetB }
    .ok (appendExchangeItem lib state item)

def ExchangeContract.applyInvalidInvoke (gasAssetName : Text) : TemplateM ExchangeState := do
  let item ← invalidInvokeItem lib c.assetAName c.assetBName c.assetAName state.nextItemId
    req gasAssetName
  .ok { state with nextItemId := state.nextItemId + 1, items := state.items ++ [item] }

/-! ### Prices -/

variable (policy : AssetPrecisionPolicy) (q : QuoteState) (height : ℤ)

def exchangePriceAt (soldA : Text) : Decimal :=
  let reached : ExchangePriceStep → Bool := fun step =>
    match c.priceMode with
    | .height => (parseInt64 step.threshold).any (· ≤ height)
    | .soldA => lib.cmp (parseDecimalOrZero lib soldA) (parseDecimalOrZero lib step.threshold) ≠ .lt
  parseDecimalOrZero lib (((c.steps.filter reached).getLast?.map (·.bPerA)).getD [])

def exchangeTierAvailableA (soldA : Decimal) : Option Decimal :=
  if c.priceMode ≠ .soldA then none
  else ((c.steps.map fun step => parseDecimalOrZero lib step.threshold).find? fun threshold =>
    lib.cmp threshold soldA = .gt).map fun threshold => lib.decimalSub threshold soldA

def costPrecision (assetB : Text) : ℤ :=
  min (policy.normalize lib.toAmountLib assetB (zeroDecimal lib)).precision maxPriceDivisibility

def exchangeFillCost (assetB : Text) (fillA price : Decimal) : Decimal :=
  let target := costPrecision lib policy assetB
  let value := fillA.value * price.value
  let shift := fillA.precision + price.precision - target
  if 0 < shift then
    let divisor : ℤ := 10 ^ shift.toNat
    ⟨target, value.tdiv divisor + if 0 < value.tmod divisor then 1 else 0⟩
  else ⟨target, value * 10 ^ (-shift).toNat⟩

/-! ### Quotes -/

structure QuoteState where
  (outA spentB currentSold remainingA remainingB : Decimal)

def cappedAt (amount bound : Decimal) : Decimal :=
  if lib.cmp amount bound = .gt then bound else amount

def QuoteState.tierA : Decimal :=
  (exchangeTierAvailableA lib c q.currentSold).elim q.remainingA (cappedAt lib · q.remainingA)

def quoteFill (q : QuoteState) : Option (Decimal × Decimal) := do
  let price := exchangePriceAt lib c height (lib.toText q.currentSold)
  guard (0 < q.remainingA.sign ∧ 0 < q.remainingB.sign ∧ 0 < price.sign)
  guard (0 < (q.tierA lib c).sign)
  let quotient ← lib.decimalDiv q.remainingB price
  guard (0 < quotient.sign)
  let fillA := policy.normalize lib.toAmountLib c.assetAName (cappedAt lib quotient (q.tierA lib c))
  guard (0 < fillA.sign)
  let costB := exchangeFillCost lib policy c.assetBName fillA price
  guard (lib.cmp costB q.remainingB ≠ .gt ∧ 0 < costB.sign)
  pure (fillA, costB)

def QuoteState.fill (fillA costB : Decimal) : QuoteState where
  outA := lib.decimalAdd q.outA fillA
  spentB := lib.decimalAdd q.spentB costB
  currentSold := lib.decimalAdd q.currentSold fillA
  remainingA := lib.decimalSub q.remainingA fillA
  remainingB := lib.decimalSub q.remainingB costB

def quoteLoop (policy : AssetPrecisionPolicy) (height : ℤ) : ℕ → QuoteState → QuoteState
  | 0, q => q
  | fuel + 1, q => match quoteFill lib c policy height q with
    | none => q
    | some (fillA, costB) => quoteLoop policy height fuel (q.fill lib fillA costB)

def quoteFuel (inputB : Decimal) : ℕ := (⌈inputB.toRat * 10 ^ maxPriceDivisibility⌉ + 1).toNat

def exchangeQuote (soldA : Text) (availableA inputB : Decimal)
    (assetPrecision : AssetPrecision) : QuoteState :=
  quoteLoop lib c (settlementPolicy assetPrecision) height (quoteFuel inputB)
    { outA := zeroDecimal lib, spentB := zeroDecimal lib,
      currentSold := parseDecimalOrZero lib soldA, remainingA := availableA, remainingB := inputB }

def QuoteState.unitPrice : Option Decimal :=
  if 0 < q.outA.sign then lib.decimalDiv q.spentB q.outA else some (zeroDecimal lib)

/-! ### Settlement -/

variable (assetPrecision : AssetPrecision) (height : ℤ) (running : ExchangeRunningData)
  (plan : SettlementPlan) (item : InvokeItem)

def exchangeTransfer (recipient assetName : Text) (amount : Decimal) (reason : TransferReason) :
    List SettlementTransfer :=
  if 0 < amount.sign then
    [{ itemId := item.id, recipient := recipient, assetName := assetName,
       assetAmt := decimalString lib (some amount), reason := reason }]
  else []

def markExchangeRefunded : SettlementPlan × InvokeItem :=
  let refundB := decimalOrZero lib item.remainingAmt
  (plan.append (exchangeTransfer lib item item.address c.assetBName refundB .refund),
    { item with reason := .refund, done := .refunded, outAmt := some refundB,
                remainingAmt := none })

abbrev Exchanging := ExchangeRunningData × SettlementPlan

def dealExchange (availableA inputB : Decimal) (quote : QuoteState) : Exchanging × InvokeItem :=
  let refundB := lib.decimalSub inputB quote.spentB
  let deal : SettlementDeal := {
    buyItemId := item.id, assetAmt := decimalString lib (some quote.outA),
    unitPrice := decimalString lib (quote.unitPrice lib) }
  let toDeployer := if deployer = [] then []
    else exchangeTransfer lib item deployer c.assetBName quote.spentB .deal
  (({ running with
      assetAInPool := some (lib.decimalSub availableA quote.outA)
      totalDealAssetA := addToPool lib running.totalDealAssetA quote.outA },
    ({ plan with deals := plan.deals ++ [deal] }).append
      (exchangeTransfer lib item item.address c.assetAName quote.outA .deal ++ toDeployer ++
        exchangeTransfer lib item item.address c.assetBName refundB .refund)),
    { item with outAmt := some quote.outA, remainingAmt := none, done := .dealt })

def settleExchangeItem : TemplateM (Exchanging × InvokeItem) :=
  let refunded := markExchangeRefunded lib c plan item
  let inputB := decimalOrZero lib item.remainingAmt
  let availableA := decimalOrZero lib running.assetAInPool
  if running.closed then .ok ((running, refunded.1), refunded.2)
  else if inputB.sign ≤ 0 then
    .ok ((running, plan), { item with reason := .noEnoughAsset, done := .closedDirectly })
  else if availableA.sign ≤ 0 then .ok ((running, refunded.1), refunded.2)
  else
    let quote := exchangeQuote lib c height
      (lib.toText (decimalOrZero lib running.totalDealAssetA)) availableA inputB assetPrecision
    if quote.outA.sign ≤ 0 ∨ quote.spentB.sign ≤ 0 then .ok ((running, refunded.1), refunded.2)
    else do
      let minOut ← exchangeItemMinimumOutput params lib item
      if 0 < minOut.sign ∧ lib.cmp quote.outA minOut = .lt then
        .ok ((running, refunded.1), refunded.2)
      else .ok (dealExchange lib c deployer running plan item availableA inputB quote)

def settleExchangeClose : Exchanging × InvokeItem :=
  if item.address ≠ deployer then
    ((running, plan), { item with reason := .invalid, done := .closedDirectly })
  else
    (({ running with assetAInPool := none, assetBInPool := none, closed := true }, plan.append (
        exchangeTransfer lib item deployer c.assetAName (decimalOrZero lib running.assetAInPool) .deal ++
        exchangeTransfer lib item deployer c.assetBName (decimalOrZero lib running.assetBInPool) .deal ++
        exchangeTransfer lib item deployer c.assetBName (decimalOrZero lib item.remainingAmt) .deal)),
      { item with done := .dealt })

def settleExchangeStep (acc : Exchanging) (item : InvokeItem) :
    TemplateM (Exchanging × InvokeItem) :=
  let entered := (acc.2.addInputs item).appendItemId item.id
  if item.finished ∨ height < item.height then .ok (acc, item)
  else match item.orderType with
    | .fund => .ok ((acc.1, entered), { item with done := .dealt })
    | .exchange =>
      settleExchangeItem lib c params deployer assetPrecision height acc.1 entered item
    | .close => .ok (settleExchangeClose lib c deployer acc.1 entered item)
    | _ => .ok (acc, item)

def ExchangeContract.settle (state : ExchangeState) (height : ℤ) :
    TemplateM (ExchangeState × SettlementPlan) := do
  let invalid ← applyInvalidItemsInRange lib c.assetAName c.assetBName none height {} state.items
  let settled ← walk (settleExchangeStep lib c params deployer assetPrecision height)
    (state.running, invalid.1) invalid.2
  .ok ({ state with items := settled.2, running := settled.1.1 }, settled.1.2)

end Contract

end SatoshiNet.Template
