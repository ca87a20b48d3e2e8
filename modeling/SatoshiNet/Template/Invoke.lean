import SatoshiNet.Template.Item

/-!
Calls to a template contract: the request, the checks of an item against its parameter bytes, calls
that were refused and what a settlement returns for them; and what calls read from outputs that hold
no negative amount.
-/

namespace SatoshiNet.Template

open Lib Wire Contract

structure ApplyInvokeRequest where
  action : InvokeAction
  param : Bytes := []
  invoker : Text
  fundingOutput : ContractOutput
  gasAssetName : Text := []
  assetPrecision : AssetPrecision := none
  height : ℤ
  timestamp : ℤ := 0
  resultGasFee : Option Decimal := none
  applyDefaultRetention : Bool := false

section Params

variable (params : ParamLib) (item : InvokeItem) (lib : DecimalLib)

def validateInvokeItemOrderType (encoded : OrderType) : TemplateM Unit :=
  if item.reason = .invalid ∨ item.orderType = encoded then .ok () else .error .paramMismatch

def resolveInvokeItemAssetName (expected encoded : Text) : TemplateM Text :=
  if expected ≠ [] ∧ encoded ≠ [] ∧ expected ≠ encoded then .error .paramMismatch
  else if expected ≠ [] then .ok expected
  else .ok encoded

def decodeLimitOrderItemParam : TemplateM LimitOrderInvokeParam :=
  if item.param = [] then
    if item.action = .default ∨ item.reason = .invalid then .ok ⟨.noSpec, [], [], []⟩
    else .error .param
  else do
    let param ← orError (params.limitOrder item.param) .param
    validateInvokeItemOrderType item param.orderType
    let _ ← resolveInvokeItemAssetName item.assetName param.assetName
    .ok param

def decodeRefundItemParam : TemplateM (List ℤ) := do
  let ids ← orError (params.refund item.param) .param
  validateInvokeItemOrderType item .refund
  .ok ids

def decodeAddLiquidityItemParam : TemplateM AddLiquidityInvokeParam := do
  let param ← orError (params.addLiquidity item.param) .param
  validateInvokeItemOrderType item param.orderType
  let _ ← resolveInvokeItemAssetName item.assetName param.assetName
  .ok param

def decodeRemoveLiquidityItemParam : TemplateM RemoveLiquidityInvokeParam := do
  let param ← orError (params.removeLiquidity item.param) .param
  validateInvokeItemOrderType item param.orderType
  let _ ← resolveInvokeItemAssetName item.assetName param.assetName
  .ok param

def exchangeItemMinimumOutput (item : InvokeItem) : TemplateM Decimal := do
  let minOut ← orError (params.exchange item.param) .param
  validateInvokeItemOrderType item .exchange
  .ok (parseDecimalOrZero lib minOut)

def decodeAutopayConfigItemParam : TemplateM AutopayConfigInvokeParam := do
  let param ← orError (params.autopayConfig item.param) .param
  validateInvokeItemOrderType item .validate
  .ok param

def validateDefaultItem : TemplateM Unit := do
  require (item.orderType = .buy || item.orderType = .sell || item.orderType = .fund ||
    item.orderType = .exchange) .paramMismatch
  if item.param = [] then .ok ()
  else do
    let param ← decodeLimitOrderItemParam params item
    require (param.orderType = .buy || param.orderType = .sell) .paramMismatch

def validateInvokeItemParamConsistency (item : InvokeItem) : TemplateM Unit :=
  if item.reason = .invalid then .ok ()
  else match item.action with
    | .default => validateDefaultItem params item
    | .swap => do let _ ← decodeLimitOrderItemParam params item; .ok ()
    | .refund => do let _ ← decodeRefundItemParam params item; .ok ()
    | .addLiquidity => do let _ ← decodeAddLiquidityItemParam params item; .ok ()
    | .removeLiquidity => do let _ ← decodeRemoveLiquidityItemParam params item; .ok ()
    | .exchange => do let _ ← exchangeItemMinimumOutput params lib item; .ok ()
    | .config | .funding => do let _ ← decodeAutopayConfigItemParam params item; .ok ()
    | .cancel => do
      require (item.param = []) .param
      validateInvokeItemOrderType item .cancel
    | .close => do
      require (item.param = []) .param
      validateInvokeItemOrderType item .close
    | .other _ => .ok ()

def itemAssetName (expected : Text) (item : InvokeItem) : TemplateM Text :=
  match item.action with
  | .default =>
    if item.param = [] then .ok item.assetName
    else do
      let param ← decodeLimitOrderItemParam params item
      resolveInvokeItemAssetName expected param.assetName
  | .swap => do
    let param ← decodeLimitOrderItemParam params item
    resolveInvokeItemAssetName expected param.assetName
  | .addLiquidity => do
    let param ← orError (params.addLiquidity item.param) .param
    resolveInvokeItemAssetName expected param.assetName
  | .removeLiquidity => do
    let param ← decodeRemoveLiquidityItemParam params item
    resolveInvokeItemAssetName expected param.assetName
  | _ => .ok item.assetName

def normalizeInvokeItemParam (expected : Text) (item : InvokeItem) : TemplateM InvokeItem :=
  if item.reason = .invalid then .ok item
  else do
    let name ← itemAssetName params expected item
    let named := { item with assetName := name }
    validateInvokeItemParamConsistency params lib named
    .ok named

variable {params}

theorem normalizeInvokeItemParam_eq_ok {lib} {expected} {item item'}
    (h : normalizeInvokeItemParam params lib expected item = .ok item') :
    ∃ name, item' = { item with assetName := name } := by
  rw [normalizeInvokeItemParam] at h
  split at h
  · exact ⟨item.assetName, (Except.ok.inj h).symm⟩
  · obtain ⟨name, -, h⟩ := bind_eq_ok.mp h
    obtain ⟨-, -, h⟩ := bind_eq_ok.mp h
    exact ⟨name, (Except.ok.inj h).symm⟩

end Params

section Invalid

variable (lib : DecimalLib) (assetA assetB : Text)

def decimalInt64 (d : Option Decimal) : TemplateM ℤ :=
  match d with
  | none => .ok 0
  | some d => do
    let out ← orError (lib.floorInt64 d) .overflow
    require (lib.cmp d (newDefaultDecimal out) = .eq) .fractionalSats
    .ok out

variable (output : ContractOutput) (item : InvokeItem)

def invalidRefundA : List SettlementTransfer :=
  match item.retainedAssetA with
  | none => []
  | some amount =>
    if 0 < amount.sign ∧ assetA ≠ [] then
      [{ itemId := item.id, recipient := item.address, assetName := assetA,
         assetAmt := lib.toText amount, reason := .refund }]
    else []

def invalidRefundB : TemplateM (List SettlementTransfer) :=
  match item.retainedAssetB with
  | none => .ok []
  | some amount =>
    if 0 < amount.sign ∧ assetB ≠ [] then
      if assetB = satoshiAssetName then do
        let value ← decimalInt64 lib (some amount)
        .ok [{ itemId := item.id, recipient := item.address, satValue := value, reason := .refund }]
      else if assetB ≠ assetA then
        .ok [{ itemId := item.id, recipient := item.address, assetName := assetB,
               assetAmt := lib.toText amount, reason := .refund }]
      else .ok []
    else .ok []

def invalidRefundTransfers : TemplateM (List SettlementTransfer) := do
  let refundB ← invalidRefundB lib assetA assetB item
  .ok (invalidRefundA lib assetA item ++ refundB)

def applyInvalidItem (first : Option ℤ) (height : ℤ) (plan : SettlementPlan) (item : InvokeItem) :
    TemplateM (SettlementPlan × InvokeItem) :=
  if item.finished || item.reason ≠ .invalid || first.any (item.height < ·) ||
      height < item.height then .ok (plan, item)
  else do
    let transfers ← invalidRefundTransfers lib assetA assetB item
    .ok ((((plan.addInputs item).append transfers).appendItemId item.id),
      { item with done := .refunded })

def applyInvalidItemsInRange (first : Option ℤ) (height : ℤ) (plan : SettlementPlan)
    (items : List InvokeItem) : TemplateM (SettlementPlan × List InvokeItem) :=
  walk (applyInvalidItem lib assetA assetB first height) plan items

structure DefaultInvokeRetention where
  assetA : Option Decimal := none
  assetB : Option Decimal := none

def subtractRetainedGasFee (amt : Option Decimal) (fee : Decimal) : TemplateM (Option Decimal) :=
  if lib.cmp (decimalOrZero lib amt) fee = .lt then .error .notEnoughAsset
  else .ok (some (lib.subAlignPrecision (decimalOrZero lib amt) fee))

def retainedFundingA : TemplateM (Option Decimal × Decimal) :=
  if assetA = [] then .ok (none, zeroDecimal lib)
  else do
    let amt ← output.assetAmount lib assetA
    let read := parseDecimalOrZero lib (lib.toText amt)
    .ok (decimalAddAllowNil lib none (some read), lib.decimalAdd (zeroDecimal lib) read)

def retainedFundingB : TemplateM (Option Decimal) :=
  if assetB = satoshiAssetName then
    .ok (decimalAddAllowNil lib none (some (newDefaultDecimal (output.plainValue lib))))
  else if assetB ≠ [] ∧ assetB ≠ assetA then do
    let amt ← output.assetAmount lib assetB
    .ok (decimalAddAllowNil lib none (some (parseDecimalOrZero lib (lib.toText amt))))
  else .ok none

def retainedFunding : TemplateM (DefaultInvokeRetention × Decimal) := do
  let keptA ← retainedFundingA lib assetA output
  let keptB ← retainedFundingB lib assetA assetB output
  .ok (⟨keptA.1, keptB⟩, keptA.2)

def chargeRetained (gasAssetName : Text) (fee : Option Decimal)
    (retention : DefaultInvokeRetention) : TemplateM DefaultInvokeRetention :=
  match fee with
  | none => .ok retention
  | some fee =>
    if fee.sign ≤ 0 then .ok retention
    else if gasAssetName = assetA then do
      let left ← subtractRetainedGasFee lib retention.assetA fee
      .ok { retention with assetA := left }
    else if gasAssetName = assetB then do
      let left ← subtractRetainedGasFee lib retention.assetB fee
      .ok { retention with assetB := left }
    else do
      let gas ← output.assetAmount lib gasAssetName
      require (lib.cmp (decimalOrZero lib (decimalAddAllowNil lib (some (zeroDecimal lib))
        (some gas))) fee ≠ .lt) .notEnoughAsset
      .ok retention

def invalidInvokeItem (contractAsset : Text) (id : ℤ) (req : ApplyInvokeRequest)
    (gasAssetName : Text) : TemplateM InvokeItem := do
  let (retention, inAmt) ← retainedFunding lib assetA assetB req.fundingOutput
  let retained ← chargeRetained lib assetA assetB req.fundingOutput gasAssetName req.resultGasFee
    retention
  .ok {
    id := id, action := req.action, orderType := .unused, height := req.height,
    orderTime := req.timestamp, assetName := contractAsset, address := req.invoker,
    inUtxos := [req.fundingOutput.outPoint], gasFee := req.resultGasFee, param := req.param,
    inValue := req.fundingOutput.plainValue lib,
    inAmt := unlessZero inAmt,
    retainedAssetA := retained.assetA, retainedAssetB := retained.assetB, reason := .invalid }

end Invalid

section Pools

variable (lib : DecimalLib)

def positive (d : Decimal) : Option Decimal := if 0 < d.sign then some d else none

def addToPool (pool : Option Decimal) (amount : Decimal) : Option Decimal :=
  some (lib.decimalAdd (decimalOrZero lib pool) amount)

def addPositive (pool : Option Decimal) (amount : Option Decimal) : Option Decimal :=
  match amount with
  | none => pool
  | some amount => if 0 < amount.sign then addToPool lib pool amount else pool

def checkLifecycle (deployer : Text) (closable closed : Bool) (action : InvokeAction)
    (invoker : Text) : TemplateM Unit := do
  require (!closed) .closed
  if action = .close then do
    require closable .nonClosable
    require (deployer ≠ [] && invoker ≠ [] && invoker = deployer) .notDeployer
  else .ok ()

/-- A hundredth of the asset stays in the pool when a plain transfer does not pay for its Result. -/
def defaultInvokeAssetRetainFee (amt : Decimal) : Option Decimal :=
  if amt.sign ≤ 0 then none
  else lib.decimalDiv (lib.decimalMulV2 amt (lib.newDecimal 1 (amt.precision + 2)))
    (lib.newDecimal 100 (amt.precision + 2))

variable (output : ContractOutput)

def takeRetained (assetName : Text) (fee : Option Decimal) :
    TemplateM (Option Decimal × ContractOutput) :=
  match fee with
  | none => .ok (none, output)
  | some fee => do
    let _ ← orError (newAssetNameFromString assetName) .invalidAsset
    let left ← output.subAssetAmount lib assetName fee
    .ok (some fee, left)

def retainDefaultInvokeAsset (assetName : Text) : TemplateM (Option Decimal × ContractOutput) := do
  let amt ← output.assetAmount lib assetName
  takeRetained lib output assetName
    ((defaultInvokeAssetRetainFee lib amt).filter fun fee => 0 < fee.sign)

def retainPlainSats : TemplateM (Option Decimal × ContractOutput) :=
  let fee := (output.plainValue lib).tdiv 100
  if 0 < fee then do
    let left ← output.subAssetAmount lib satoshiAssetName (newDefaultDecimal fee)
    .ok (some (newDefaultDecimal fee), left)
  else .ok (none, output)

def retainAssetA (assetA : Text) (output : ContractOutput) :
    TemplateM (Option Decimal × ContractOutput) :=
  if assetA = [] then .ok (none, output) else retainDefaultInvokeAsset lib output assetA

def retainAssetB (assetA assetB : Text) (output : ContractOutput) :
    TemplateM (Option Decimal × ContractOutput) :=
  if assetB = satoshiAssetName then retainPlainSats lib output
  else if assetB ≠ [] ∧ assetB ≠ assetA then retainDefaultInvokeAsset lib output assetB
  else .ok (none, output)

def retainDefaultInvokeFunding (assetA assetB : Text) (output : ContractOutput) :
    TemplateM (DefaultInvokeRetention × ContractOutput) := do
  let keptA ← retainAssetA lib assetA output
  let keptB ← retainAssetB lib assetA assetB keptA.2
  .ok (⟨decimalAddAllowNil lib none keptA.1, decimalAddAllowNil lib none keptB.1⟩, keptB.2)

def retainIf (retain : Bool) (assetA assetB : Text) (output : ContractOutput) :
    TemplateM (DefaultInvokeRetention × ContractOutput) :=
  if retain then retainDefaultInvokeFunding lib assetA assetB output else .ok ({}, output)

end Pools

open Decimal

def ContractOutput.Nonneg (o : ContractOutput) : Prop := NonnegAssets o.txAssets

instance (o : ContractOutput) : Decidable o.Nonneg :=
  inferInstanceAs (Decidable (NonnegAssets o.txAssets))

variable {lib : DecimalLib}

theorem plainValue_nonneg (o : ContractOutput) : 0 ≤ o.plainValue lib := by
  rw [ContractOutput.plainValue]
  split
  · exact le_rfl
  · simp only
    split_ifs <;> omega

theorem toRat_plainValue_nonneg (o : ContractOutput) :
    0 ≤ (newDefaultDecimal (o.plainValue lib)).toRat := by
  rw [toRat_newDefaultDecimal]
  exact_mod_cast plainValue_nonneg o

variable {name : Text} {o : ContractOutput}

theorem assetAmount_nonneg (hassets : lib.AssetLaws) (ho : o.Nonneg) {d : Decimal}
    (h : o.assetAmount lib name = .ok d) : 0 ≤ d.value := by
  rw [ContractOutput.assetAmount] at h
  split_ifs at h
  · cases h
    exact plainValue_nonneg o
  split at h
  · cases h
  · rename_i assetName _
    cases h
    cases hfind : lib.find o.txAssets assetName with
    | none => exact le_rfl
    | some asset => exact ho asset (hassets.find_mem hfind)

theorem subAsset_nonneg (hassets : lib.AssetLaws) {out left} {asset} (ho : NonnegAssets out.assets)
    (h : ContractOutput.subAsset lib out asset = .ok left) : NonnegAssets left.assets := by
  obtain ⟨rest, hrest, h⟩ := bind_eq_ok.mp h
  rw [orError_eq_ok] at hrest
  have hnonneg := hassets.subtract_nonneg hrest ho
  split at h
  · rw [ite_error_eq_ok] at h
    obtain rfl := Except.ok.inj h.2
    exact hnonneg
  · cases h
    exact hnonneg

theorem subAssetAmount_nonneg (hassets : lib.AssetLaws) {left} (ho : o.Nonneg) {amount}
    (h : o.subAssetAmount lib name amount = .ok left) : left.Nonneg := by
  rw [ContractOutput.subAssetAmount] at h
  split at h
  · cases h
    exact ho
  split at h
  · cases h
  obtain ⟨out, hout, h⟩ := bind_eq_ok.mp h
  rw [orError_eq_ok] at hout
  have ho : NonnegAssets out.assets := by
    rw [ContractOutput.Nonneg, ContractOutput.txAssets, hout] at ho
    exact ho
  split at h
  · obtain ⟨rest, hrest, h⟩ := bind_eq_ok.mp h
    cases h
    rw [ContractOutput.subPlainSats, ite_error_eq_ok] at hrest
    obtain rfl := Except.ok.inj hrest.2
    exact ho
  · obtain ⟨assetName, -, h⟩ := bind_eq_ok.mp h
    obtain ⟨existing, -, h⟩ := bind_eq_ok.mp h
    obtain ⟨rest, hrest, h⟩ := bind_eq_ok.mp h
    cases h
    exact subAsset_nonneg hassets ho hrest

section Laws

variable (hlib : lib.Lawful)
include hlib

theorem parseDecimalOrZero_toText_nonneg {d} (h : 0 ≤ d.value) :
    0 ≤ (parseDecimalOrZero lib (lib.toText d)).toRat := by
  rw [parseDecimalOrZero, if_neg (hlib.toText_ne_nil d)]
  cases hparse : lib.newDecimalFromString (lib.toText d) maxPriceDivisibility with
  | none => exact (hlib.newDecimal_zero _).ge
  | some e => exact (hlib.parse_toText_le h hparse).1

theorem decimalAddAllowNil_nonneg {a b} (ha : 0 ≤ amountOf a) (hb : 0 ≤ amountOf b) :
    0 ≤ amountOf (decimalAddAllowNil lib a b) := by
  rw [amountOf_decimalAddAllowNil hlib]
  exact add_nonneg ha hb

theorem amountOf_addToPool (pool) (amount) :
    amountOf (addToPool lib pool amount) = amountOf pool + amount.toRat := by
  rw [addToPool, amountOf_some, hlib.decimalAdd, toRat_decimalOrZero hlib]

theorem addPositive_nonneg {pool} (h : 0 ≤ amountOf pool) (amount) :
    0 ≤ amountOf (addPositive lib pool amount) := by
  unfold addPositive
  split
  · exact h
  · split_ifs with hpos
    · rw [amountOf_addToPool hlib]
      exact add_nonneg h (toRat_nonneg (sign_pos_iff.mp hpos).le)
    · exact h

def RetainedOk (kept : Option Decimal × ContractOutput) : Prop :=
  0 ≤ amountOf kept.1 ∧ kept.2.Nonneg

variable (hassets : lib.AssetLaws)
include hassets

variable {assetA assetB name : Text} {kept : Option Decimal × ContractOutput} {o : ContractOutput}

omit hlib in
theorem takeRetained_ok (ho : o.Nonneg) {fee} (hfee : 0 ≤ amountOf fee)
    (h : takeRetained lib o name fee = .ok kept) : RetainedOk kept := by
  unfold takeRetained at h
  split at h
  · cases h
    exact ⟨le_rfl, ho⟩
  · obtain ⟨-, -, h⟩ := bind_eq_ok.mp h
    obtain ⟨left, hleft, h⟩ := bind_eq_ok.mp h
    cases h
    exact ⟨hfee, subAssetAmount_nonneg hassets ho hleft⟩

omit hlib in
theorem retainDefaultInvokeAsset_ok (ho : o.Nonneg)
    (h : retainDefaultInvokeAsset lib o name = .ok kept) : RetainedOk kept := by
  obtain ⟨amt, -, h⟩ := bind_eq_ok.mp h
  refine takeRetained_ok hassets ho ?_ h
  cases hfee : (defaultInvokeAssetRetainFee lib amt).filter fun fee => 0 < fee.sign with
  | none => exact le_rfl
  | some fee =>
    have hpos : 0 < fee.sign := by simpa using (Option.filter_eq_some_iff.mp hfee).2
    exact toRat_nonneg (sign_pos_iff.mp hpos).le

omit hlib in
theorem retainPlainSats_ok (ho : o.Nonneg) (h : retainPlainSats lib o = .ok kept) :
    RetainedOk kept := by
  rw [retainPlainSats] at h
  split_ifs at h with hpos
  · obtain ⟨left, hleft, h⟩ := bind_eq_ok.mp h
    cases h
    exact ⟨toRat_nonneg hpos.le, subAssetAmount_nonneg hassets ho hleft⟩
  · cases h
    exact ⟨le_rfl, ho⟩

theorem retainIf_ok (ho : o.Nonneg) {retain} {kept}
    (h : retainIf lib retain assetA assetB o = .ok kept) :
    (0 ≤ amountOf kept.1.assetA ∧ 0 ≤ amountOf kept.1.assetB) ∧ kept.2.Nonneg := by
  rw [retainIf] at h
  split at h
  · obtain ⟨keptA, hA, h⟩ := bind_eq_ok.mp h
    obtain ⟨keptB, hB, h⟩ := bind_eq_ok.mp h
    cases h
    have hokA : RetainedOk keptA := by
      rw [retainAssetA] at hA
      split at hA
      · cases hA
        exact ⟨le_rfl, ho⟩
      · exact retainDefaultInvokeAsset_ok hassets ho hA
    have hokB : RetainedOk keptB := by
      rw [retainAssetB] at hB
      split_ifs at hB
      · exact retainPlainSats_ok hassets hokA.2 hB
      · exact retainDefaultInvokeAsset_ok hassets hokA.2 hB
      · cases hB
        exact ⟨le_rfl, hokA.2⟩
    exact ⟨⟨decimalAddAllowNil_nonneg hlib le_rfl hokA.1,
      decimalAddAllowNil_nonneg hlib le_rfl hokB.1⟩, hokB.2⟩
  · cases h
    exact ⟨⟨le_rfl, le_rfl⟩, ho⟩

/-! ### Refused calls -/

theorem retainedFunding_nonneg (ho : o.Nonneg) {kept : DefaultInvokeRetention × Decimal}
    (h : retainedFunding lib assetA assetB o = .ok kept) :
    0 ≤ amountOf kept.1.assetA ∧ 0 ≤ amountOf kept.1.assetB := by
  have hread : ∀ {name : Text} {amt : Decimal}, o.assetAmount lib name = .ok amt →
      0 ≤ amountOf (decimalAddAllowNil lib none (some (parseDecimalOrZero lib (lib.toText amt)))) :=
    fun hamt => decimalAddAllowNil_nonneg hlib le_rfl
      (parseDecimalOrZero_toText_nonneg hlib (assetAmount_nonneg hassets ho hamt))
  have hsats : 0 ≤ amountOf (decimalAddAllowNil lib none
      (some (newDefaultDecimal (o.plainValue lib)))) :=
    decimalAddAllowNil_nonneg hlib le_rfl (toRat_plainValue_nonneg o)
  obtain ⟨keptA, hA, h⟩ := bind_eq_ok.mp h
  obtain ⟨keptB, hB, h⟩ := bind_eq_ok.mp h
  cases h
  constructor
  · rw [retainedFundingA] at hA
    split at hA
    · cases hA
      exact le_rfl
    · obtain ⟨amt, hamt, hA⟩ := bind_eq_ok.mp hA
      cases hA
      exact hread hamt
  · rw [retainedFundingB] at hB
    split_ifs at hB
    · cases hB
      exact hsats
    · obtain ⟨amt, hamt, hB⟩ := bind_eq_ok.mp hB
      cases hB
      exact hread hamt
    · cases hB
      exact le_rfl

omit hassets in
theorem subtractRetainedGasFee_nonneg {amt left} {fee}
    (h : subtractRetainedGasFee lib amt fee = .ok left) : 0 ≤ amountOf left := by
  rw [subtractRetainedGasFee, ite_error_eq_ok] at h
  obtain ⟨hcmp, h⟩ := h
  cases h
  rw [cmp_eq_lt hlib, not_lt] at hcmp
  rw [amountOf_some, hlib.sub]
  linarith

theorem invalidInvokeItem_spec {req} (ho : req.fundingOutput.Nonneg) {contractAsset gas} {id : ℤ}
    {item} (h : invalidInvokeItem lib assetA assetB contractAsset id req gas = .ok item) :
    item.id = id ∧ item.orderType = .unused ∧ item.reason = .invalid ∧ item.remainingAmt = none ∧
      0 ≤ amountOf item.retainedAssetA ∧ 0 ≤ amountOf item.retainedAssetB := by
  obtain ⟨kept, hkept, h⟩ := bind_eq_ok.mp h
  obtain ⟨left, hleft, h⟩ := bind_eq_ok.mp h
  cases h
  obtain ⟨hA, hB⟩ := retainedFunding_nonneg hlib hassets ho hkept
  refine ⟨rfl, rfl, rfl, rfl, ?_⟩
  show 0 ≤ amountOf left.assetA ∧ 0 ≤ amountOf left.assetB
  unfold chargeRetained at hleft
  split at hleft
  · cases hleft
    exact ⟨hA, hB⟩
  split_ifs at hleft
  · cases hleft
    exact ⟨hA, hB⟩
  · obtain ⟨rest, hrest, hleft⟩ := bind_eq_ok.mp hleft
    cases hleft
    exact ⟨subtractRetainedGasFee_nonneg hlib hrest, hB⟩
  · obtain ⟨rest, hrest, hleft⟩ := bind_eq_ok.mp hleft
    cases hleft
    exact ⟨hA, subtractRetainedGasFee_nonneg hlib hrest⟩
  · obtain ⟨amt, _, hleft⟩ := bind_eq_ok.mp hleft
    obtain ⟨_, _, hleft⟩ := bind_eq_ok.mp hleft
    cases hleft
    exact ⟨hA, hB⟩

end Laws

end SatoshiNet.Template
