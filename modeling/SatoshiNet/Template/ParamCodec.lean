import SatoshiNet.Lib.Spelling
import SatoshiNet.Template.Autopay
import SatoshiNet.Template.Exchange
import SatoshiNet.Wire.ScriptBuilder

/-!
Contents and call parameters of the template contracts as scripts.

Encoders push every field with the script builder; decoders look only at the data of a text field,
and at the opcode as well for a number.  Strings are their bytes here.
-/

namespace SatoshiNet.Template

open Lib Wire Contract

def goString (bytes : Bytes) : Text := bytes.map fun b => Char.ofNat b.toNat

inductive ParamField
  | orderType | assetName | assetAmt | unitPrice | satValue | lptAmt | minOutA | amountPerBlock
  | blobKeyLimit | itemID | baseContent | k | assetAName | assetBName | priceMode | priceStepCount
  | stepThreshold (i : ℕ)
  | stepBPerA (i : ℕ)
  | serviceName | recipient | feeAssetName | minAmountPerBlock

inductive ParamError
  | missing (field : ParamField)
  | exceedsEightBytes (field : ParamField)
  | invalid (field : ParamField)
  | notAnInteger | unexpectedFields | malformedPush | closeTakesNoParameters

abbrev ParamM := Except ParamError

inductive EncodeError
  | script (e : ScriptError)
  | content (e : TemplateError)
  | invalidItemID

abbrev EncodeM := Except EncodeError

/-! ### Fields -/

inductive Push
  | data (bytes : Bytes)
  | int (val : ℤ)

def Push.add (script : Script) : Push → Except ScriptError Script
  | .data bytes => addData bytes script
  | .int val => addInt64 val script

def buildScript (pushes : List Push) : EncodeM Script :=
  (pushes.foldlM Push.add []).mapError .script

variable (field : ParamField)

def nextField : Reader ParamError Token := fun script =>
  match nextToken script with
  | none => .error (.missing field)
  | some token => .ok (token, token.rest)

def readText : Reader ParamError Bytes := do
  let token ← nextField field
  pure token.data

def readNumber : Reader ParamError ℤ := do
  let token ← nextField field
  Reader.check (token.data.length ≤ 8) (.exceedsEightBytes field)
  pure (extractInt64FromScript token.opcode token.data)

def finish (script : Script) : ParamM Unit :=
  if script = [] then .ok ()
  else match nextToken script with
    | none => .error .malformedPush
    | some _ => .error .unexpectedFields

def decodeFields {α : Type} (r : Reader ParamError α) (script : Script) : ParamM α := do
  let x ← r script
  finish x.2
  .ok x.1

/-! ### Contents -/

@[ext]
structure TemplateLimitOrderContract where
  assetName : Bytes
deriving DecidableEq

@[ext]
structure TemplateAMMContract where
  (assetName assetAmt : Bytes)
  satValue : Int64
  k : Bytes
deriving DecidableEq

@[ext]
structure TemplateExchangePriceStep where
  (threshold bPerA : Bytes)
deriving DecidableEq

@[ext]
structure TemplateExchangeContract where
  (assetAName assetBName priceMode : Bytes)
  steps : List TemplateExchangePriceStep
deriving DecidableEq

@[ext]
structure TemplateAutopayContract where
  (serviceName recipient feeAssetName minAmountPerBlock : Bytes)
deriving DecidableEq

def exchangePriceModeHeight : Bytes := [0x68, 0x65, 0x69, 0x67, 0x68, 0x74]

def exchangePriceModeSoldA : Bytes := [0x73, 0x6f, 0x6c, 0x64, 0x5f, 0x61]

def readPriceMode (text : Bytes) : Option ExchangePriceMode :=
  if text = exchangePriceModeHeight then some .height
  else if text = exchangePriceModeSoldA then some .soldA
  else none

/-- Whether `strings.TrimSpace` leaves nothing: a sequence of white space in UTF-8. -/
def isBlank : Bytes → Bool
  | [] => true
  | 0xc2 :: b :: rest => (b = 0x85 || b = 0xa0) && isBlank rest
  | 0xe1 :: 0x9a :: 0x80 :: rest => isBlank rest
  | 0xe2 :: 0x80 :: b :: rest =>
    ((0x80 ≤ b && b ≤ 0x8a) || b = 0xa8 || b = 0xa9 || b = 0xaf) && isBlank rest
  | 0xe2 :: 0x81 :: 0x9f :: rest => isBlank rest
  | 0xe3 :: 0x80 :: 0x80 :: rest => isBlank rest
  | b :: rest => ((9 ≤ b && b ≤ 13) || b = 32) && isBlank rest

section Check

variable (lib : DecimalLib)

def checkPositive (text : Bytes) : TemplateM Unit := do
  let _ ← orError (parsePositiveDecimal lib (goString text)) .invalidAmount
  .ok ()

def checkTemplatePayableAssetName (assetName : Text) : TemplateM Unit :=
  if assetName = satoshiAssetName then .ok ()
  else do
    let name ← orError (newAssetNameFromString assetName) .invalidAsset
    require (name.protocol ≠ [] && name.ticker ≠ []) .invalidAsset

def TemplateLimitOrderContract.check (c : TemplateLimitOrderContract) : TemplateM Unit :=
  checkTemplateAssetName (goString c.assetName)

def TemplateAMMContract.check (c : TemplateAMMContract) : TemplateM Unit := do
  checkTemplateAssetName (goString c.assetName)
  require (0 < c.satValue.toInt) .param
  let assetAmt ← orError (parsePositiveDecimal lib (goString c.assetAmt)) .invalidAmount
  let k ← orError (parsePositiveDecimal lib (goString c.k)) .invalidAmount
  let expectedK := lib.decimalMul assetAmt (newDefaultDecimal c.satValue.toInt)
  require (lib.cmp k expectedK = .eq) .param

def TemplateExchangePriceStep.priceStep (step : TemplateExchangePriceStep) : ExchangePriceStep :=
  ⟨goString step.threshold, goString step.bPerA⟩

def TemplateExchangeContract.check (c : TemplateExchangeContract) : TemplateM Unit := do
  checkTemplateAssetName (goString c.assetAName)
  require (c.assetBName ≠ []) .invalidAsset
  checkWhen (goString c.assetBName ≠ satoshiAssetName) (checkTemplateAssetName (goString c.assetBName))
  require (c.assetAName ≠ c.assetBName) .invalidAsset
  let mode ← orError (readPriceMode c.priceMode) .param
  require (c.steps ≠ [] && c.steps.length ≤ maxExchangePriceSteps) .param
  let _ ← (c.steps.map (·.priceStep)).foldlM (checkPriceStep lib mode) none
  .ok ()

def TemplateAutopayContract.check (c : TemplateAutopayContract) : TemplateM Unit := do
  require (!isBlank c.serviceName) .param
  checkTemplatePayableAssetName (goString c.feeAssetName)
  let minAmount ← orError (parsePositiveDecimal lib (goString c.minAmountPerBlock)) .invalidAmount
  checkWhen (goString c.feeAssetName = satoshiAssetName)
    (require (lib.cmp minAmount (lib.newPrecision minAmount 0) = .eq) .fractionalSats)

end Check

def TemplateLimitOrderContract.encode (c : TemplateLimitOrderContract) : EncodeM Script :=
  buildScript [.data c.assetName]

def readLimitOrderContent : Reader ParamError TemplateLimitOrderContract := do
  let assetName ← readText .assetName
  pure ⟨assetName⟩

def TemplateLimitOrderContract.decode : Script → ParamM TemplateLimitOrderContract :=
  decodeFields readLimitOrderContent

def TemplateAMMContract.encode (c : TemplateAMMContract) : EncodeM Script := do
  let base ← TemplateLimitOrderContract.encode ⟨c.assetName⟩
  buildScript [.data base, .data c.assetAmt, .int c.satValue.toInt, .data c.k]

def TemplateAMMContract.decode : Script → ParamM TemplateAMMContract :=
  decodeFields do
    let content ← readText .baseContent
    let base ← Reader.ofResult (TemplateLimitOrderContract.decode content)
    let assetAmt ← readText .assetAmt
    let satValue ← readNumber .satValue
    let k ← readText .k
    pure ⟨base.assetName, assetAmt, .ofInt satValue, k⟩

def TemplateExchangeContract.encode (c : TemplateExchangeContract) : EncodeM Script :=
  buildScript ([.data c.assetAName, .data c.assetBName, .data c.priceMode, .int c.steps.length] ++
    c.steps.flatMap fun step => [.data step.threshold, .data step.bPerA])

def readPriceStep (i : ℕ) (steps : List TemplateExchangePriceStep) :
    Reader ParamError (List TemplateExchangePriceStep) := do
  let threshold ← readText (.stepThreshold i)
  let bPerA ← readText (.stepBPerA i)
  pure (steps ++ [⟨threshold, bPerA⟩])

def TemplateExchangeContract.decode : Script → ParamM TemplateExchangeContract :=
  decodeFields do
    let assetAName ← readText .assetAName
    let assetBName ← readText .assetBName
    let priceMode ← readText .priceMode
    let count ← readNumber .priceStepCount
    Reader.check (0 ≤ count && count ≤ maxExchangePriceSteps) (.invalid .priceStepCount)
    let steps ← Reader.iterate readPriceStep 0 count.toNat []
    pure ⟨assetAName, assetBName, priceMode, steps⟩

def TemplateAutopayContract.encode (lib : DecimalLib) (c : TemplateAutopayContract) :
    EncodeM Script := do
  (c.check lib).mapError .content
  buildScript [.data c.serviceName, .data c.recipient, .data c.feeAssetName, .data c.minAmountPerBlock]

def TemplateAutopayContract.decode : Script → ParamM TemplateAutopayContract :=
  decodeFields do
    let serviceName ← readText .serviceName
    let recipient ← readText .recipient
    let feeAssetName ← readText .feeAssetName
    let minAmountPerBlock ← readText .minAmountPerBlock
    pure ⟨serviceName, recipient, feeAssetName, minAmountPerBlock⟩

/-! ### Parameters -/

@[ext]
structure TemplateLimitOrderInvokeParam where
  orderType : Int64
  (assetName amt unitPrice : Bytes)
deriving DecidableEq

@[ext]
structure TemplateAddLiquidityInvokeParam where
  orderType : Int64
  (assetName amt : Bytes)
  value : Int64
deriving DecidableEq

@[ext]
structure TemplateRemoveLiquidityInvokeParam where
  orderType : Int64
  (assetName lptAmt : Bytes)
deriving DecidableEq

@[ext]
structure TemplateExchangeInvokeParam where
  minOutA : Bytes
deriving DecidableEq

@[ext]
structure TemplateAutopayConfigInvokeParam where
  amountPerBlock : Bytes
  blobKeyLimit : UInt32
  gasFundingAmount : Bytes
deriving DecidableEq

structure TemplateRefundInvokeParam where
  itemIDs : List Int64
deriving DecidableEq

def orderTypeSell : Int64 := 1

def orderTypeBuy : Int64 := 2

def orderTypeAddLiquidity : Int64 := 9

def orderTypeRemoveLiquidity : Int64 := 10

section CheckParam

variable (lib : DecimalLib)

def TemplateLimitOrderInvokeParam.check (p : TemplateLimitOrderInvokeParam) : TemplateM Unit := do
  require (p.orderType = orderTypeBuy || p.orderType = orderTypeSell) .param
  checkWhen (p.assetName ≠ []) (checkTemplateAssetName (goString p.assetName))
  checkPositive lib p.amt
  checkWhen (p.unitPrice ≠ []) (checkPositive lib p.unitPrice)

def TemplateLimitOrderInvokeParam.checkAMMSwap (p : TemplateLimitOrderInvokeParam) :
    TemplateM Unit := do
  require (p.orderType = orderTypeBuy || p.orderType = orderTypeSell) .param
  checkWhen (p.assetName ≠ []) (checkTemplateAssetName (goString p.assetName))
  checkWhen (p.amt ≠ [] && p.amt ≠ [0x30]) (checkPositive lib p.amt)
  checkPositive lib p.unitPrice

def TemplateAddLiquidityInvokeParam.check (p : TemplateAddLiquidityInvokeParam) :
    TemplateM Unit := do
  require (p.orderType = orderTypeAddLiquidity) .param
  checkWhen (p.assetName ≠ []) (checkTemplateAssetName (goString p.assetName))
  checkPositive lib p.amt
  require (0 < p.value.toInt) .param

def TemplateRemoveLiquidityInvokeParam.check (p : TemplateRemoveLiquidityInvokeParam) :
    TemplateM Unit := do
  require (p.orderType = orderTypeRemoveLiquidity) .param
  checkWhen (p.assetName ≠ []) (checkTemplateAssetName (goString p.assetName))
  checkPositive lib p.lptAmt

def TemplateExchangeInvokeParam.check (p : TemplateExchangeInvokeParam) : TemplateM Unit :=
  checkWhen (p.minOutA ≠ []) (checkPositive lib p.minOutA)

def TemplateAutopayConfigInvokeParam.param (p : TemplateAutopayConfigInvokeParam) :
    AutopayConfigInvokeParam :=
  ⟨goString p.amountPerBlock, p.blobKeyLimit.toNat, goString p.gasFundingAmount⟩

def TemplateAutopayConfigInvokeParam.check (c : AutopayContract) (action : InvokeAction)
    (p : TemplateAutopayConfigInvokeParam) : TemplateM Unit := do
  require (action = .config || action = .funding) .unsupportedAction
  let gas ← autopayConfigGasAmount lib p.param
  require (!(action = .funding && (p.amountPerBlock ≠ [] || p.blobKeyLimit ≠ 0 || gas.sign ≤ 0)))
    .gasFundingOnly
  if p.amountPerBlock = [] ∧ 0 < gas.sign then
    require (p.blobKeyLimit = 0) .gasOnlyConfig
  else do
    let amount ← orError (lib.parseDecimalAmountString (goString p.amountPerBlock)) .invalidAmount
    require (0 < amount.sign) .invalidAmount
    require (lib.cmp amount (c.minAmount lib) ≠ .lt) .belowMinimum
    require (p.blobKeyLimit.toNat ≤ autopayMaxBlobKeyLimit) .blobKeyLimit
    checkWhen (c.feeAssetName = satoshiAssetName) do
      let _ ← autopaySatoshiValue lib amount
      .ok ()

end CheckParam

def TemplateLimitOrderInvokeParam.encode (p : TemplateLimitOrderInvokeParam) : EncodeM Script :=
  buildScript [.int p.orderType.toInt, .data p.assetName, .data p.amt, .data p.unitPrice]

def TemplateLimitOrderInvokeParam.decode : Script → ParamM TemplateLimitOrderInvokeParam :=
  decodeFields do
    let orderType ← readNumber .orderType
    let assetName ← readText .assetName
    let amt ← readText .assetAmt
    let unitPrice ← readText .unitPrice
    pure ⟨.ofInt orderType, assetName, amt, unitPrice⟩

def TemplateAddLiquidityInvokeParam.encode (p : TemplateAddLiquidityInvokeParam) : EncodeM Script :=
  buildScript [.int p.orderType.toInt, .data p.assetName, .data p.amt, .int p.value.toInt]

def TemplateAddLiquidityInvokeParam.decode : Script → ParamM TemplateAddLiquidityInvokeParam :=
  decodeFields do
    let orderType ← readNumber .orderType
    let assetName ← readText .assetName
    let amt ← readText .assetAmt
    let value ← readNumber .satValue
    pure ⟨.ofInt orderType, assetName, amt, .ofInt value⟩

def TemplateRemoveLiquidityInvokeParam.encode (p : TemplateRemoveLiquidityInvokeParam) :
    EncodeM Script :=
  buildScript [.int p.orderType.toInt, .data p.assetName, .data p.lptAmt]

def TemplateRemoveLiquidityInvokeParam.decode :
    Script → ParamM TemplateRemoveLiquidityInvokeParam :=
  decodeFields do
    let orderType ← readNumber .orderType
    let assetName ← readText .assetName
    let lptAmt ← readText .lptAmt
    pure ⟨.ofInt orderType, assetName, lptAmt⟩

def TemplateExchangeInvokeParam.encode (p : TemplateExchangeInvokeParam) : EncodeM Script :=
  if p.minOutA = [] then .ok [] else buildScript [.data p.minOutA]

variable (script : Script)

def TemplateExchangeInvokeParam.decode : ParamM TemplateExchangeInvokeParam :=
  if script = [] then .ok ⟨[]⟩
  else decodeFields (do
    let minOutA ← readText .minOutA
    pure ⟨minOutA⟩) script

def TemplateAutopayConfigInvokeParam.encode (p : TemplateAutopayConfigInvokeParam) :
    EncodeM Script :=
  buildScript ([.data p.amountPerBlock, .int p.blobKeyLimit.toNat] ++
    if p.gasFundingAmount = [] then [] else [.data p.gasFundingAmount])

def readGasFunding : Reader ParamError Bytes := fun script =>
  if script = [] then .ok ([], [])
  else match nextToken script with
    | none => .error .malformedPush
    | some token => .ok (token.data, token.rest)

def TemplateAutopayConfigInvokeParam.decode : Script → ParamM TemplateAutopayConfigInvokeParam :=
  decodeFields do
    let amountPerBlock ← readText .amountPerBlock
    let limit ← readNumber .blobKeyLimit
    Reader.check (0 ≤ limit && limit ≤ 1024) (.invalid .blobKeyLimit)
    let gasFundingAmount ← readGasFunding
    pure ⟨amountPerBlock, .ofNat limit.toNat, gasFundingAmount⟩

def TemplateRefundInvokeParam.encode (p : TemplateRefundInvokeParam) : EncodeM Script := do
  require (p.itemIDs.all fun id => 0 ≤ id.toInt) .invalidItemID
  buildScript (p.itemIDs.map fun id => .int id.toInt)

def refundItemID (token : Token) : ParamM Int64 := do
  require (token.opcode ≤ 0x4e || token.opcode = 0x4f || (0x51 ≤ token.opcode && token.opcode ≤ 0x60))
    .notAnInteger
  require (token.data.length ≤ 8) (.exceedsEightBytes .itemID)
  let itemID := extractInt64FromScript token.opcode token.data
  require (0 ≤ itemID) (.invalid .itemID)
  .ok (.ofInt itemID)

/-- Every token is at least a byte, so as many steps as there are bytes are enough. -/
def refundItemIDs : ℕ → Script → ParamM (List Int64)
  | 0, script => if script = [] then .ok [] else .error .malformedPush
  | steps + 1, script =>
    if script = [] then .ok []
    else match nextToken script with
      | none => .error .malformedPush
      | some token => do
        let itemID ← refundItemID token
        let rest ← refundItemIDs steps token.rest
        .ok (itemID :: rest)

def TemplateRefundInvokeParam.decode : ParamM TemplateRefundInvokeParam := do
  let itemIDs ← refundItemIDs script.length script
  .ok ⟨itemIDs⟩

def TemplateCloseInvokeParam.encode : EncodeM Script := .ok []

def TemplateCloseInvokeParam.decode : ParamM Unit :=
  require (script = []) .closeTakesNoParameters

end SatoshiNet.Template
