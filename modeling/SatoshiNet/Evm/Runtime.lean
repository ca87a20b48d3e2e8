import SatoshiNet.Evm.StateCodec
import SatoshiNet.Template.Item

/-!
The execution of a deployment or a call.
What it may read and spend: the funding of the call, what it has claimed of it, and the balance of a
contract with the intents that are still to be paid taken off.
The interpreter is not part of the repository; what it does is a sequence of events: operations of
the state database, snapshots and returns to its own snapshots, the frames of nested calls, and
calls of the precompiled contracts.
-/

namespace SatoshiNet.Evm

open Lib Contract Wire
open Template (ContractOutput)
open Std (ExtTreeMap)

section

inductive RunError
  | invalidAsset | negativeReserve | claimAmount
  | claimExceeds (name : Text)
  | balances
  | pendingExceeds (name : Text)
  | fundingOverlay | fractionalBalance
  | balanceRange (cause : ResultError)
  | nativeTransfer | crossContractCall | executionReverted | outOfGas | vm | negativeGas
  | gasOverflow | negativeSats | valueWithoutFunding
  | tooManyIntents (count : ℕ)
  | tooManyBlockIntents | missingScriptResolver | assetAmount
  | unknownPrecision (name : Text)
  | inexactAmount
  | intentOutput (index : ℕ) (cause : ResultError)
  | notSettleable (index : ℕ) (cause : ResultTxError)
  | invalidIntent
  | overspent (name : Text)
  | trigger (cause : EvmError)
  | triggerGas
  | triggerHeight (height : ℤ)
  | duplicateTrigger (id : Bytes)
  | triggerExists (id : Bytes)

abbrev RunM := Except RunError

structure AssetIntent where
  callID : Text
  intentIndex : ℕ := 0
  source : ContractAddress
  (recipient assetName : Text)
  amount : Decimal
  extraData : Bytes := []

variable (lib : DecimalLib)

/-! ### The funding of a call -/

structure FundingAssetView where
  outputs : List ContractOutput
  gasAssetName : Text
  gasFeeReserve : Option Decimal
  claimed : ExtTreeMap Text Decimal := ∅

namespace FundingAssetView

def addPositive (total amount : Decimal) : Decimal :=
  if 0 < amount.sign then lib.addAlignPrecision total amount else total

section

variable (v : FundingAssetView) (assetName : Text)

def carried : Decimal :=
  if assetName = satoshiAssetName then
    (v.outputs.map fun o => newDefaultDecimal (o.plainValue lib)).foldl (addPositive lib)
      (newDefaultDecimal 0)
  else
    ((v.outputs.flatMap (·.txAssets)).filter (·.name.text = assetName)).foldl
      (fun total a => addPositive lib total a.amount) (newDefaultDecimal 0)

def fundingAssetAmount : RunM Decimal :=
  if assetName = [] then .error .invalidAsset
  else
    let total := v.carried lib assetName
    if assetName ≠ v.gasAssetName then .ok total
    else
      let reserve := cloneDecimal v.gasFeeReserve
      if reserve.sign < 0 then .error .negativeReserve
      else if lib.cmp total reserve ≠ .gt then .ok (newDefaultDecimal 0)
      else .ok (lib.subAlignPrecision total reserve)

def claimFundingAsset (amount : Decimal) : RunM FundingAssetView := do
  require (assetName ≠ []) .invalidAsset
  require (0 < amount.sign) .claimAmount
  let available ← v.fundingAssetAmount lib assetName
  let next := match v.claimed[assetName]? with
    | some existing => lib.addAlignPrecision existing amount
    | none => amount
  require (lib.cmp next available ≠ .gt) (.claimExceeds assetName)
  .ok { v with claimed := v.claimed.insert assetName next }

def claimedAssetAmount : Decimal :=
  v.claimed[assetName]?.getD (newDefaultDecimal 0)

end

end FundingAssetView

/-! ### Balances -/

structure AssetBalanceReader where
  assetBalance : Address → Text → RunM (Option Decimal)
  includesFundingOutputs : Bool := false

abbrev Balances := Option (Address → Text → RunM Decimal)

variable (base : Option AssetBalanceReader) (funding : FundingAssetView) (target owner : Address)
  (assetName : Text)

def baseBalance : RunM Decimal :=
  match base with
  | none => .ok (newDefaultDecimal 0)
  | some reader => (reader.assetBalance owner assetName).map cloneDecimal

def overlayBalance : RunM Decimal := do
  require (assetName ≠ []) .invalidAsset
  let total ← baseBalance base owner assetName
  if owner ≠ target then .ok total
  else do
    let amount ← funding.fundingAssetAmount lib assetName
    .ok (lib.addAlignPrecision total amount)

def totalFundingAssetAmount : RunM Decimal :=
  if assetName = satoshiAssetName then .ok (funding.carried lib assetName)
  else funding.outputs.foldlM (fun total o =>
    match o.assetAmount lib assetName with
    | .ok amount => .ok (FundingAssetView.addPositive lib total amount)
    | .error _ => .error .invalidAsset) (newDefaultDecimal 0)

def balanceWithoutFunding : RunM Decimal := do
  let available ← baseBalance base owner assetName
  if base.any (·.includesFundingOutputs) then do
    let totalFunding ← totalFundingAssetAmount lib funding assetName
    require (0 ≤ (lib.subAlignPrecision available totalFunding).sign) .fundingOverlay
    .ok (lib.subAlignPrecision available totalFunding)
  else .ok available

def managedFundingBalance : RunM Decimal :=
  if owner ≠ target ∨ assetName = [] ∨ assetName ≠ funding.gasAssetName then
    overlayBalance lib base funding target owner assetName
  else do
    let available ← balanceWithoutFunding lib base funding owner assetName
    .ok (lib.addAlignPrecision available (funding.claimedAssetAmount assetName))

def executionBalances (funded : Bool) : Balances :=
  if funded then some (managedFundingBalance lib base funding target)
  else base.map fun reader owner assetName => (reader.assetBalance owner assetName).map cloneDecimal

def spendIntent (available : Decimal) (intent : AssetIntent) : Decimal :=
  if contractAddressHash intent.source = owner ∧ intent.assetName = assetName then
    lib.subAlignPrecision available intent.amount
  else available

def pendingIntentBalance (balances : Balances) (intents : List AssetIntent) (owner : Address)
    (assetName : Text) : RunM Decimal := do
  let available ← (balances.map fun read => read owner assetName).getD (.ok (newDefaultDecimal 0))
  let rest := intents.foldl (spendIntent lib owner assetName) available
  require (0 ≤ rest.sign) (.pendingExceeds assetName)
  .ok rest

end

structure AssetTransferRequest where
  (assetName recipient : Text)
  amount : Decimal
  extraData : Bytes

structure TriggerRegistration where
  id : Bytes
  (height gasLimit : BitVec 64)
  calldata : Bytes

def TriggerRegistration.trigger (reg : TriggerRegistration) (contract : ContractAddress) : Trigger :=
  ⟨reg.id, contract, triggerAtHeight, reg.height.toInt, reg.gasLimit.toInt, reg.calldata⟩

structure AbiLib where
  decodeAssetTransferIntents : Bytes → Option (List AssetTransferRequest)
  decodeTriggerRegistrationCall : Bytes → Option TriggerRegistration
  decodeClaimFunding : Bytes → Option (Text × Decimal)

def assetPrecompileAddress : Address := 0x534e01

def triggerPrecompileAddress : Address := 0x534e02

def opStaticCall : UInt8 := 0xfa

def testnetContractPrefix : Text := ['t', 'c']

def contractAddressFromGeth (hrp : Text) (addr : Address) : ContractAddress :=
  (newContractAddress (if hrp = [] then testnetContractPrefix else hrp) 1 contractTypeEVM addr).getD
    ⟨[], []⟩

/-! ### Events -/

inductive VmEvent
  | state (op : StateOp)
  | snapshot
  /-- The snapshot is given by its number among those of the execution. -/
  | revertToSnapshot (k : ℕ)
  | getBalance (addr : Address)
  | getCode (addr : Address)
  | enter (typ : UInt8) (source target : Address) (input : Bytes)
  | exit (failed : Bool)
  | claimFunding (input : Bytes)

structure AssetTraceFrame where
  source : Address := 0
  target : Address := 0
  input : Bytes := []
  intentLen : ℕ := 0
  triggerLen : ℕ := 0
  fundingSnapshot : Std.ExtTreeMap Text Decimal := ∅
  readOnly : Bool := false

structure EvmCallFrame where
  readOnly : Bool
  codeAddress : Address

structure VmEnv where
  abi : AbiLib
  (hrp callID : Text)
  base : Option AssetBalanceReader
  target : Address
  funded : Bool
  prior : List AssetIntent
  precompiles : List Address

/-- The frames of the two lists are the nested calls, the innermost one last. -/
structure Execution where
  db : MemoryStateDB
  taken : List ℕ := []
  frames : List AssetTraceFrame := []
  calls : List EvmCallFrame := []
  capturedIntents : List AssetIntent := []
  capturedTriggers : List Trigger := []
  funding : FundingAssetView
  err : Option RunError := none

variable (lib : DecimalLib)

namespace Execution

def readOnly (x : Execution) : Bool := x.calls.getLast?.any (·.readOnly)

variable (env : VmEnv) (x : Execution) (addr : Address)

def nativeBalance : RunM ℤ := do
  let amount ← pendingIntentBalance lib
    (executionBalances lib env.base x.funding env.target env.funded) (env.prior ++ x.capturedIntents)
    addr satoshiAssetName
  let integral := lib.newPrecision amount 0
  require (lib.cmp integral amount = .eq) .fractionalBalance
  (decimalToInt64 lib.toAmountLib integral).mapError .balanceRange

def getBalance : Execution :=
  if x.err.isSome then x
  else match x.nativeBalance lib env addr with
    | .ok _ => x
    | .error e => { x with err := some e }

/-- Native balances are a view of other assets: a change of one fails the execution. -/
def stateOp : StateOp → Execution
  | .subBalance addr amount | .addBalance addr amount =>
    let x := x.getBalance lib env addr
    if amount = 0 then x else { x with err := some .nativeTransfer }
  | .selfDestruct _ => { x with err := some .nativeTransfer }
  | op => if op.native then { x with db := x.db.update op.act } else x

def codeSize : ℕ :=
  ((x.db.data.account addr).map fun acct => acct.code.length).getD 0

def isNewContract : Bool :=
  (x.db.data.account addr).any (·.newContract)

def getCode : Execution :=
  if x.codeSize addr = 0 ∨ x.calls.length < 2 ∨ addr ∈ env.precompiles then x
  else if x.calls.getLast?.any (·.codeAddress = addr) ∧ x.calls.head?.all (·.codeAddress ≠ addr) then
    { x with err := some .crossContractCall }
  else x

def onEnter (typ : UInt8) (source target : Address) (input : Bytes) : Execution :=
  let readOnly := x.readOnly || typ = opStaticCall
  { x with
    calls := x.calls ++ [⟨readOnly, target⟩]
    frames := x.frames ++ [⟨source, target, input, x.capturedIntents.length, x.capturedTriggers.length,
      x.funding.claimed, readOnly⟩] }

def captureIntents (frame : AssetTraceFrame) : Execution :=
  match env.abi.decodeAssetTransferIntents frame.input with
  | none => x
  | some transfers =>
    { x with capturedIntents := x.capturedIntents ++ transfers.map fun t =>
        { callID := env.callID, source := contractAddressFromGeth env.hrp frame.source
          recipient := t.recipient, assetName := t.assetName, amount := t.amount
          extraData := t.extraData } }

def captureTrigger (frame : AssetTraceFrame) : Execution :=
  if x.codeSize frame.source = 0 ∧ !x.isNewContract frame.source then x
  else match env.abi.decodeTriggerRegistrationCall frame.input with
    | none => x
    | some reg =>
      { x with capturedTriggers := x.capturedTriggers ++
          [reg.trigger (contractAddressFromGeth env.hrp frame.source)] }

def onExit (failed : Bool) : Execution :=
  let frame := x.frames.getLast?.getD {}
  let x := { x with frames := x.frames.dropLast, calls := x.calls.dropLast }
  if failed || frame.readOnly then
    { x with
      capturedIntents := x.capturedIntents.take frame.intentLen
      capturedTriggers := x.capturedTriggers.take frame.triggerLen
      funding := { x.funding with claimed := frame.fundingSnapshot } }
  else if frame.target = assetPrecompileAddress then x.captureIntents env frame
  else if frame.target = triggerPrecompileAddress then x.captureTrigger env frame
  else x

def claimFunding (input : Bytes) : Execution :=
  if x.readOnly then x
  else match env.abi.decodeClaimFunding input with
    | none => x
    | some (assetName, amount) =>
      match x.funding.claimFundingAsset lib assetName amount with
      | .ok funding => { x with funding := funding }
      | .error _ => x

def step : VmEvent → Execution
  | .state op => x.stateOp lib env op
  | .snapshot => { x with db := x.db.snapshot, taken := x.taken ++ [x.db.nextRevID] }
  | .revertToSnapshot k =>
    match x.taken[k]? with
    | none => x
    | some id => { x with db := Journaled.revertToSnapshot Undo.apply id x.db }
  | .getBalance addr => x.getBalance lib env addr
  | .getCode addr => x.getCode env addr
  | .enter typ source target input => x.onEnter typ source target input
  | .exit failed => x.onExit env failed
  | .claimFunding input => x.claimFunding lib env input

def run (events : List VmEvent) : Execution :=
  events.foldl (step lib env) x

end Execution

/-! ### Committing -/

def maxExecutionAssetIntents : ℕ := 256

def maxEVMAssetIntentsPerBlock : ℕ := 1000

def maxEVMTriggerFutureBlocks : ℕ := 1000000

structure Runtime where
  state : MemoryStateDB
  contractPrefix : Text
  assetBalances : Option AssetBalanceReader
  assetIntents : List AssetIntent
  assetPrecision : AssetPrecisionPolicy
  resolveResultScript : Option ScriptResolver
  maxGasPerTrigger : ℤ

def validateExactAssetPrecision (policy : AssetPrecisionPolicy) (assetName : Text) (amount : Decimal) :
    RunM Unit := do
  require (0 < amount.sign) .assetAmount
  let precision ← if assetName = satoshiAssetName then .ok 0
    else orError (policy.assetPrecision assetName) (.unknownPrecision assetName)
  let canonical := lib.newPrecision amount precision
  require (0 < canonical.sign && lib.cmp canonical amount = .eq) .inexactAmount

namespace Runtime

variable (r : Runtime) (intents : List AssetIntent)

def checkIntent (entry : AssetIntent × ℕ) : RunM Unit := do
  validateExactAssetPrecision lib r.assetPrecision entry.1.assetName entry.1.amount
  let output ← (resultOutputWithAsset lib.toAmountLib entry.1.recipient entry.1.assetName
    entry.1.amount).mapError (.intentOutput entry.2)
  let _ ← (resultTxOut lib.toAmountLib { output with extraData := entry.1.extraData }
    r.resolveResultScript).mapError (.notSettleable entry.2)
  .ok ()

def addIntentTotal (totals : List ((Address × Text) × Decimal)) (intent : AssetIntent) :
    RunM (List ((Address × Text) × Decimal)) := do
  require (intent.assetName ≠ [] && 0 < intent.amount.sign) .invalidIntent
  let key := (contractAddressHash intent.source, intent.assetName)
  match totals.lookup key with
  | some total => .ok (totals.map fun entry =>
      if entry.1 = key then (key, lib.addAlignPrecision total intent.amount) else entry)
  | none => .ok (totals ++ [(key, intent.amount)])

def validateCapturedAssetIntents (balances : Balances) : RunM Unit :=
  match balances with
  | none => .ok ()
  | some read => do
    let totals ← intents.foldlM (addIntentTotal lib) []
    totals.forM fun entry => do
      let available ← read entry.1.1 entry.1.2
      require (lib.cmp available entry.2 ≠ .lt) (.overspent entry.1.2)

def checkTrigger (currentHeight : UInt64) (seen : List TriggerKey) (t : Trigger) :
    RunM (List TriggerKey) := do
  t.validate.mapError .trigger
  require (0 < t.gasLimit && !(0 < r.maxGasPerTrigger && r.maxGasPerTrigger < t.gasLimit)) .triggerGas
  require (t.height ≤ min (currentHeight.toNat + maxEVMTriggerFutureBlocks) (2 ^ 64 - 1))
    (.triggerHeight t.height)
  let key := newTriggerKey t.contract t.id
  require (key ∉ seen) (.duplicateTrigger t.id)
  require (key ∉ r.state.data.triggers) (.triggerExists t.id)
  .ok (key :: seen)

variable (triggers : List Trigger) (balances : Balances) (currentHeight : UInt64)

def checkEffects : RunM Unit := do
  require (intents.length ≤ maxExecutionAssetIntents) (.tooManyIntents intents.length)
  require (r.assetIntents.length + intents.length ≤ maxEVMAssetIntentsPerBlock) .tooManyBlockIntents
  require (intents.isEmpty || r.resolveResultScript.isSome) .missingScriptResolver
  intents.zipIdx.forM (r.checkIntent lib)
  validateCapturedAssetIntents lib (r.assetIntents ++ intents) balances
  let _ ← triggers.foldlM (r.checkTrigger currentHeight) []
  .ok ()

def registerTriggers : List Trigger → MemoryStateDB → MemoryStateDB × Option RunError
  | [], db => (db, none)
  | t :: triggers, db =>
    match db.data.registerTrigger t with
    | .ok _ => registerTriggers triggers (db.update (StateOp.registerTrigger t).act)
    | .error e => (db, some (.trigger e))

/-- After the checks the effects come one by one, and the last ones may fail. -/
def commitCapturedEffects : Runtime × Option RunError :=
  match r.checkEffects lib intents triggers balances currentHeight with
  | .error e => (r, some e)
  | .ok _ =>
    let numbered := intents.zipIdx.map fun entry =>
      { entry.1 with intentIndex := r.assetIntents.length + entry.2 }
    let (db, err) := registerTriggers triggers r.state
    ({ r with state := db, assetIntents := r.assetIntents ++ numbered }, err)

end Runtime

/-! ### Deploying and calling -/

inductive ResultStatus
  | success | revert | outOfGas | invalid
deriving DecidableEq

def resultStatusFromError : Option RunError → ResultStatus
  | none => .success
  | some .executionReverted => .revert
  | some .outOfGas => .outOfGas
  | some _ => .invalid

structure BlockContext where
  number : UInt64
  coinbase : Address

structure FundedRequest where
  callID : Text
  (gas value : ℤ)
  fundingOutput : Option ContractOutput
  gasAssetName : Text
  gasFeeReserve : Option Decimal
  block : BlockContext

/-- The caller and the target of a request are the addresses that its texts stand for. -/
structure CallRequest extends FundedRequest where
  (caller target : Address)

structure DeployRequest extends FundedRequest where
  caller : Address
  deployNonce : UInt64
  expectedContract : ContractAddress

structure VmAnswer where
  events : List VmEvent
  precompiles : List Address
  contractAddr : Address
  returnData : Bytes
  gasLeft : UInt64
  err : Option RunError

structure RunResult where
  contract : ContractAddress := ⟨[], []⟩
  runtimeCode : Bytes := []
  returnData : Bytes := []
  gasUsed : ℤ := 0
  gasLeft : ℤ := 0
  status : ResultStatus
  err : Option RunError
  retainedGasFunding : Option Decimal := none

def nativeFundingValue (value : ℤ) (funding : Option ContractOutput) : RunM ℤ :=
  match funding with
  | some output =>
    let physical := (output.txOutput.map TxOut.value).getD 0
    if physical < 0 then .error .negativeSats else .ok physical
  | none => if value ≠ 0 then .error .valueWithoutFunding else .ok 0

def gasUnitsInt64 (gas : UInt64) : RunM ℤ :=
  if 2 ^ 63 ≤ gas.toNat then .error .gasOverflow else .ok gas.toNat

def gasUsed (initial left : ℤ) : ℤ := if left > initial then 0 else initial - left

structure ExecutionRequest extends FundedRequest where
  target : Address
  accessed : List Address
  nonce : Option (Address × UInt64)

def CallRequest.execution (req : CallRequest) : ExecutionRequest :=
  { req.toFundedRequest with
    target := req.target
    accessed := [req.caller, req.block.coinbase, req.target]
    nonce := none }

def DeployRequest.execution (req : DeployRequest) : ExecutionRequest :=
  { req.toFundedRequest with
    target := contractAddressHash req.expectedContract
    accessed := [req.caller, req.block.coinbase]
    nonce := some (req.caller, req.deployNonce) }

namespace ExecutionRequest

variable (abi : AbiLib) (r : Runtime) (req : ExecutionRequest) (vm : VmAnswer)

def funding : FundingAssetView :=
  ⟨req.fundingOutput.toList, req.gasAssetName, req.gasFeeReserve, ∅⟩

def env : VmEnv where
  abi := abi
  hrp := r.contractPrefix
  callID := req.callID
  base := r.assetBalances
  target := req.target
  funded := req.fundingOutput.isSome
  prior := r.assetIntents
  precompiles := vm.precompiles

/-- The state the interpreter starts with: a snapshot, the nonce of a deployment, and the access
list. -/
def start : MemoryStateDB :=
  let db := r.state.snapshot
  let db := match req.nonce with
    | none => db
    | some (caller, nonce) => db.update (StateOp.setNonce caller nonce).act
  db.update (StateData.prepare (req.accessed ++ vm.precompiles))

def execute : Execution :=
  Execution.run lib (req.env abi r vm) { db := req.start r vm, funding := req.funding } vm.events

/-- The effects are committed unless something has failed; `bind` names the contract of a trigger. -/
def commit (bindTrigger : Trigger → Trigger) : Runtime × Option RunError :=
  let x := req.execute lib abi r vm
  let after := { r with state := x.db }
  match x.err.or vm.err with
  | some e => (after, some e)
  | none => after.commitCapturedEffects lib x.capturedIntents (x.capturedTriggers.map bindTrigger)
      (executionBalances lib r.assetBalances x.funding req.target req.fundingOutput.isSome) req.block.number

variable (bindTrigger : Trigger → Trigger)

def outcome : Runtime × Option RunError :=
  let result := req.commit lib abi r vm bindTrigger
  match gasUnitsInt64 vm.gasLeft with
  | .ok _ => result
  | .error e => (result.1, result.2.or (some e))

/-- An error takes everything back: the state, the intents, and the claims. -/
def finish : Runtime × FundingAssetView × Option RunError :=
  let x := req.execute lib abi r vm
  let result := req.outcome lib abi r vm bindTrigger
  match result.2 with
  | some e =>
    ({ result.1 with
        state := Journaled.revertToSnapshot Undo.apply r.state.nextRevID result.1.state
        assetIntents := result.1.assetIntents.take r.assetIntents.length },
      { x.funding with claimed := ∅ }, some e)
  | none =>
    ({ result.1 with
        state := (result.1.state.update StateData.finalise).discardSnapshot r.state.nextRevID },
      x.funding, none)

def result : Runtime × FundingAssetView × RunResult :=
  match (if req.gas < 0 then .error .negativeGas else nativeFundingValue req.value req.fundingOutput) with
  | .error e => (r, req.funding, { status := .invalid, err := some e })
  | .ok _ =>
    let (r', funding, err) := req.finish lib abi r vm bindTrigger
    let left := ((gasUnitsInt64 vm.gasLeft).toOption).getD 0
    (r', funding,
      { returnData := vm.returnData
        gasUsed := Evm.gasUsed req.gas left
        gasLeft := left
        status := resultStatusFromError err
        err := err
        retainedGasFunding := if err.isNone ∧ req.gasAssetName ≠ [] then
          some (funding.claimedAssetAmount req.gasAssetName) else none })

end ExecutionRequest

namespace Runtime

def call (abi : AbiLib) (r : Runtime) (req : CallRequest) (vm : VmAnswer) :
    Runtime × FundingAssetView × RunResult :=
  req.execution.result lib abi r vm fun t =>
    if contractAddressHash t.contract = 0 then
      { t with contract := contractAddressFromGeth r.contractPrefix req.target }
    else t

def deploy (abi : AbiLib) (r : Runtime) (req : DeployRequest) (vm : VmAnswer) :
    Runtime × FundingAssetView × RunResult :=
  let contract := contractAddressFromGeth r.contractPrefix vm.contractAddr
  let (r', funding, result) := req.execution.result lib abi r vm fun t => { t with contract := contract }
  (r', funding, { result with
      contract := contract
      runtimeCode := ((r'.state.data.account vm.contractAddr).map (·.code)).getD [] })

end Runtime

end SatoshiNet.Evm
