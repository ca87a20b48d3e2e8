import SatoshiNet.Contract.Payload
import SatoshiNet.Contract.UtxoOverlay
import SatoshiNet.Dkvs.Key
import SatoshiNet.Lib.Action

/-!
Contract calls run by a backend, and the funding of a successful call credited to its contract.
-/

namespace SatoshiNet.Contract

open Lib Wire List Action

inductive ExecError
  | backend (message : Text) | resolver (message : Text)
  -- the call is not admitted
  | noOutcome | deployPayload | deployFlags | invocationEnvelope | missingActor | refundRecipient
  | defaultOutputs | defaultFunding (vout : UInt32) (e : ManagedError) | defaultGas | externalResult
  -- the accounting is broken
  | storedPolicy | unknownStatus | failureAccounting | noManagedBalance | foreignFunding
  | duplicateFunding | fundingTarget | credit (e : ManagedError) | rejectedSuccess
  | unboundOutcome | missingResult | gasBudget | duplicateCall

abbrev ExecM := Except ExecError

structure ContractLifecycle where
  deployer : Text
  flags : UInt32
  closed : Bool

structure FundingOutput where
  outPoint : OutPoint
  contract : ContractAddress
  value : ℤ
  assets : TxAssets
deriving DecidableEq

/-- What is read off a transaction; one without a contract payload has no type. -/
structure ParsedTx where
  txID : Text
  type : Option Mining.TxType := none
  payload : Bytes := []
  deploy : Option DeployPayload := none
  invoke : Option InvokePayload := none
  contractOutputs : List FundingOutput := []

structure Call where
  txID : Text
  contract : ContractAddress
  action : Bytes
  actor : Text := []
  gasRefundRecipient : Text := []
  gasLimit : ℤ
  nonce : UInt64
  payload : Bytes
  funding : List FundingOutput

inductive ExecutionKind
  | deploy | invoke | trigger
deriving DecidableEq

/-- `assetIntents` is the number of the intents. -/
structure ExecutionOutcome where
  kind : Option ExecutionKind
  type : Option Mining.TxType
  (txID callID : Text)
  contract : ContractAddress
  status : UInt8
  gasUsed : ℤ
  gasFee : Option Decimal
  fundingInputs : List OutPoint
  gasRefundRecipient : Text
  assetIntents : ℕ
  (requiresResult closeContract : Bool)

def contractInvokeAPIDefault : Bytes := [100, 101, 102, 97, 117, 108, 116]

def contractInvokeAPIClose : Bytes := [99, 108, 111, 115, 101]

def ContractLifecycle.checkInvoke (l : ContractLifecycle) (action : Bytes) (actor : Text) : Bool :=
  l.flags &&& ~~~knownContractFlags = 0 && !l.closed && (action ≠ contractInvokeAPIClose ||
    l.flags &&& 1 = 0 && l.deployer ≠ [] && actor ≠ [] && actor = l.deployer)

/-- A backend keeps each managed balance at a place `ι` of its own. -/
structure ExecState (S ι : Type) where
  runtime : S
  ledger : ι → ManagedBalance

abbrev Work (S ι α : Type) := Action (ExecState S ι) ExecError α

inductive Entry
  | deploy | invoke | rejectFunding

structure Backend (S ι : Type) where
  contractType : UInt8
  run : Entry → Tx → ParsedTx → Call → Work S ι ExecutionOutcome
  defaultInvoke : Tx → Call → FundingOutput → Work S ι (Option ExecutionOutcome)
  lifecycle : S → ContractAddress → ExecM (Option ContractLifecycle)
  managedBalance : S → ContractAddress → Option ι

structure Executor (S ι : Type) where
  backend : Backend S ι
  hrp : Text
  (invokeBaseGas maxGasPerInvoke : ℤ)
  resolveActor : Option (Tx → Call → ExecM Text) := none
  resolveRefundRecipient : Option (Tx → Call → ExecM (Option Text)) := none

def contractTxFromParsed (p : ParsedTx) : Call where
  txID := p.txID
  contract := p.contractOutputs.head?.elim ⟨[], []⟩ (·.contract)
  action := p.invoke.elim [] (·.action)
  gasLimit := (p.invoke.elim (p.deploy.elim 0 (·.gasLimit)) (·.gasLimit)).toInt
  nonce := p.invoke.elim (p.deploy.elim 0 (·.deployNonce)) (·.callNonce)
  payload := p.invoke.elim (p.deploy.elim p.payload (·.contractContent)) (·.param)
  funding := p.contractOutputs

/-- Every default outcome is bound to its own funding output. -/
def validateDefaultOutcome (call : Call) (funding : FundingOutput) (outcome : ExecutionOutcome) :
    ExecM Unit := do
  require (outcome.kind = some .invoke ∧ outcome.type = some .invoke ∧ outcome.txID = call.txID ∧
    outcome.contract = call.contract ∧ outcome.callID ≠ [] ∧
    outcome.fundingInputs = [funding.outPoint] ∧ outcome.closeContract = false) .unboundOutcome
  require (outcome.status ≠ 0 ∨ outcome.requiresResult) .missingResult
  require (0 ≤ outcome.gasUsed ∧ outcome.gasUsed ≤ call.gasLimit) .gasBudget

namespace Executor

variable {S ι : Type}

section Model

variable [DecidableEq ι] (lib : AmountLib) (e : Executor S ι) (raw : Tx)

def resolveCall (call : Call) : ExecM Call := do
  let actor ← e.resolveActor.elim (.ok call.actor) fun f => f raw call
  require (Dkvs.trimSpace actor ≠ []) .missingActor
  let call := { call with actor := actor }
  let recipient ← e.resolveRefundRecipient.elim (.ok none) fun f => f raw call
  require (recipient.all fun r => Dkvs.trimSpace r ≠ []) .refundRecipient
  let recipient := recipient.getD call.gasRefundRecipient
  .ok { call with gasRefundRecipient := if recipient = [] then actor else recipient }

def checkLifecycle (s : S) (call : Call) : ExecM Bool := do
  match ← e.backend.lifecycle s call.contract with
  | none => .ok false
  | some l =>
    require (l.flags &&& ~~~knownContractFlags = 0) .storedPolicy
    .ok (l.checkInvoke call.action call.actor)

variable (txID : Text)

/-- The output of the transaction that an input names, if it pays the contract. -/
def fundingOutput (c : ContractAddress) (input : OutPoint) : Option TxOut :=
  if input.txID = txID then
    raw.txOut[input.vout.toNat]?.filter (contractAddressOf e.hrp ·.pkScript = .ok (some c))
  else none

def fundingWorth (c : ContractAddress) (input : OutPoint) : Wealth :=
  (e.fundingOutput raw txID c input).elim 0 fun out => (out.value, holdings out.assets)

def creditInputs (txID : Text) (c : ContractAddress) :
    List OutPoint → List OutPoint → ManagedBalance → ExecM ManagedBalance
  | [], _, next => .ok next
  | input :: rest, seen, next => do
    require (input.txID = txID ∧ input.vout.toNat < raw.txOut.length) .foreignFunding
    require (input ∉ seen) .duplicateFunding
    let output ← orError (e.fundingOutput raw txID c input) .fundingTarget
    let next ← (next.credit lib output.value output.assets).mapError .credit
    creditInputs txID c rest (input :: seen) next

/-- Only successful calls credit managed quantities, on a copy that is stored at the end. -/
def acceptOutcome (outcome : ExecutionOutcome) : Work S ι Unit := do
  refuse outcome.kind.isNone .noOutcome
  refuse (resultStatusInvalid < outcome.status) .unknownStatus
  if outcome.status ≠ 0 then
    refuse (!outcome.requiresResult && (outcome.assetIntents ≠ 0 ||
      outcome.gasFee.any (·.sign ≠ 0) || outcome.gasRefundRecipient ≠ [])) .failureAccounting
  else if outcome.fundingInputs = [] then pure ()
  else do
    let s ← get
    let i ← ofExcept id (orError (e.backend.managedBalance s.runtime outcome.contract)
      .noManagedBalance)
    let next ← ofExcept id
      (e.creditInputs lib raw txID outcome.contract outcome.fundingInputs [] (s.ledger i))
    set { s with ledger := Function.update s.ledger i next }

/-- One call for each output to a contract of the backend, if the transaction has no payload. -/
def findDefaultInvokeOutputs : ExecM (List FundingOutput) := do
  if ← (Mining.hasContractPayload raw).mapError fun _ => .defaultOutputs then .ok []
  else do
    let found ← raw.txOut.zipIdx.mapM fun out => do
      let c ← (contractAddressOf e.hrp out.1.pkScript).mapError fun _ => .defaultOutputs
      .ok ((c.filter fun c => e.backend.contractType = 0 ∨
        c.payload.getD 1 0 = e.backend.contractType).map fun c =>
          FundingOutput.mk ⟨txID, .ofNat out.2⟩ c out.1.value out.1.assets)
    .ok found.reduceOption

def defaultCall (envelope : Call) (out : FundingOutput) : ExecM (Call × FundingOutput) := do
  ((ManagedBalance.mk out.value out.assets).validate lib).mapError
    (.defaultFunding out.outPoint.vout)
  let gasLimit := Mining.defaultInvokeGasForType e.backend.contractType
  require (gasLimit ≠ 0 ∧ e.invokeBaseGas ≤ gasLimit ∧
    (0 < e.maxGasPerInvoke → gasLimit ≤ e.maxGasPerInvoke)) .defaultGas
  let call ← e.resolveCall raw { envelope with
    action := contractInvokeAPIDefault, contract := out.contract, payload := [], nonce := 0
    gasLimit := gasLimit, funding := [out] }
  .ok (call, out)

def runDefaultCall (c : Call × FundingOutput) : Work S ι ExecutionOutcome := do
  let s ← get
  let allowed ← ofExcept id (e.checkLifecycle s.runtime c.1)
  match ← if allowed then e.backend.defaultInvoke raw c.1 c.2 else pure none with
  | some outcome => pure outcome
  | none =>
    let outcome ← e.backend.run .rejectFunding raw { txID := [] } c.1
    refuse (outcome.status = 0) .rejectedSuccess
    pure outcome

def executeDefaultCall (seen : List Text) (c : Call × FundingOutput) : Work S ι (List Text) := do
  let outcome ← e.runDefaultCall raw c
  ofExcept id (validateDefaultOutcome c.1 c.2 outcome)
  refuse (seen.any (· = outcome.callID)) .duplicateCall
  e.acceptOutcome lib raw c.1.txID outcome
  pure (outcome.callID :: seen)

/-- Every call is admitted before the first one is run. -/
def executeDefaultTx (envelope : Call) : Work S ι Unit := do
  let outputs ← ofExcept id (e.findDefaultInvokeOutputs raw envelope.txID)
  let calls ← ofExcept id (outputs.mapM (e.defaultCall lib raw envelope))
  let _ ← calls.foldlM (e.executeDefaultCall lib raw) []

def executeParsedTx (parsed : ParsedTx) : Work S ι Unit := do
  let call := contractTxFromParsed parsed
  match parsed.type with
  | none => e.executeDefaultTx lib raw call
  | some .deploy =>
    let deploy ← ofExcept id (orError parsed.deploy .deployPayload)
    refuse (deploy.flags &&& ~~~knownContractFlags ≠ 0) .deployFlags
    let call ← ofExcept id (e.resolveCall raw call)
    let outcome ← e.backend.run .deploy raw parsed call
    e.acceptOutcome lib raw call.txID outcome
  | some .invoke =>
    refuse (call.funding.length ≠ 1 || !parsed.invoke.any (0 < ·.gasLimit)) .invocationEnvelope
    let call ← ofExcept id (e.resolveCall raw call)
    let s ← get
    let allowed ← ofExcept id (e.checkLifecycle s.runtime call)
    let outcome ← e.backend.run (if allowed then .invoke else .rejectFunding) raw parsed call
    e.acceptOutcome lib raw call.txID outcome
  | some .result => throw .externalResult
  | some .coinbaseStateRoot => pure ()

end Model

/-! ### What is credited -/

/-- Backend calls lead from `s` to a state; the last one answered with an outcome or not. -/
inductive Answers (e : Executor S ι) (raw : Tx) (s : ExecState S ι) :
    Option ExecutionOutcome → ExecState S ι → Prop
  | refl : Answers e raw s none s
  | run {entry p c o t r u} (h : Answers e raw s o t)
    (hrun : (e.backend.run entry raw p c).exec t = (r, u)) : Answers e raw s r.toOption u
  | default {c f o t r u} (h : Answers e raw s o t)
    (hrun : (e.backend.defaultInvoke raw c f).exec t = (r, u)) : Answers e raw s r.toOption.join u

def Stopped (e : Executor S ι) (raw : Tx) (s : ExecState S ι) (_ : ExecError)
    (t : ExecState S ι) : Prop := ∃ o, e.Answers raw s o t

variable {lib : AmountLib} {e : Executor S ι} {raw : Tx} {txID : Text} {s t : ExecState S ι}
  {o : ExecutionOutcome}

theorem creditInputs_spec (hlib : lib.Exact) {c inputs seen b b'}
    (h : e.creditInputs lib raw txID c inputs seen b = .ok b') :
    inputs.Nodup ∧ (∀ p ∈ inputs, p ∉ seen ∧ (e.fundingOutput raw txID c p).isSome) ∧
      b'.worth = b.worth + (inputs.map (e.fundingWorth raw txID c)).sum := by
  induction inputs generalizing seen b with
  | nil =>
    cases h
    simp
  | cons p rest ih =>
    simp only [creditInputs, bind_eq_ok, require_eq_ok, decide_eq_true_eq, orError_eq_ok,
      mapError_eq_ok, exists_const] at h
    obtain ⟨_, hseen, out, hout, next, hnext, hrest⟩ := h
    obtain ⟨hnodup, hpaid, hworth⟩ := ih hrest
    refine ⟨nodup_cons.mpr ⟨fun hp => (hpaid p hp).1 mem_cons_self, hnodup⟩, ?_, ?_⟩
    · exact forall_mem_cons.mpr ⟨⟨hseen, by rw [hout]; rfl⟩,
        fun q hq => ⟨fun hmem => (hpaid q hq).1 (mem_cons_of_mem _ hmem), (hpaid q hq).2⟩⟩
    · rw [hworth, ManagedBalance.credit_worth hlib hnext, map_cons, sum_cons, fundingWorth, hout,
        add_assoc]
      rfl

theorem Answers.wp_run {p} {c} (entry) {o} (h : e.Answers raw s o t) :
    (e.backend.run entry raw p c).wp t (fun o u => e.Answers raw s (some o) u) (e.Stopped raw s) :=
  wp_mono (wp_exec _) (fun _ _ hrun => .run h hrun) fun _ _ hrun => ⟨_, .run h hrun⟩

theorem runDefaultCall_spec (c) : (e.runDefaultCall raw c).wp s
    (fun o t => e.Answers raw s (some o) t) (e.Stopped raw s) := by
  simp only [runDefaultCall, wp_bind, wp_get, wp_ofExcept]
  refine ⟨fun _ _ => ⟨_, .refl⟩, fun allowed _ => ?_⟩
  have hreject : ∀ t, e.Answers raw s none t → wp (do
      let o ← e.backend.run .rejectFunding raw { txID := [] } c.1
      refuse (o.status = 0) ExecError.rejectedSuccess
      pure o) t (fun o u => e.Answers raw s (some o) u) (e.Stopped raw s) := by
    intro t ht
    simp only [wp_bind, wp_refuse, wp_pure]
    exact wp_mono (ht.wp_run _) (fun o u hu => ⟨fun _ => ⟨_, hu⟩, fun _ => hu⟩) fun _ _ h => h
  cases allowed with
  | false => exact hreject s .refl
  | true =>
    simp only [if_true, wp_bind]
    refine wp_mono (wp_exec _) (fun handled t hrun => ?_) fun _ _ hrun => ⟨_, .default .refl hrun⟩
    have ht : e.Answers raw s handled t := .default .refl hrun
    cases handled with
    | some o => exact ht
    | none => exact hreject t ht

theorem resolveCall_eq {call call'} (h : e.resolveCall raw call = .ok call') :
    call'.txID = call.txID ∧ call'.contract = call.contract := by
  simp only [resolveCall, bind_eq_ok, Except.ok.injEq] at h
  obtain ⟨_, _, _, _, _, _, _, _, rfl⟩ := h
  exact ⟨rfl, rfl⟩

theorem defaultCalls_bound {envelope : Call} {outputs : List FundingOutput}
    {calls : List (Call × FundingOutput)}
    (h : outputs.mapM (e.defaultCall lib raw envelope) = .ok calls) : calls.map Prod.snd = outputs ∧
      ∀ c ∈ calls, c.1.txID = envelope.txID ∧ c.1.contract = c.2.contract := by
  have hcall : ∀ out c, e.defaultCall lib raw envelope out = .ok c → c.2 = out ∧
      c.1.txID = envelope.txID ∧ c.1.contract = c.2.contract := by
    intro out c hc
    simp only [defaultCall, bind_eq_ok, Except.ok.injEq] at hc
    obtain ⟨_, _, _, _, call, hcall, rfl⟩ := hc
    exact ⟨rfl, resolveCall_eq hcall⟩
  refine ⟨?_, fun c hc => ?_⟩
  · rw [map_of_mapM (fun out c hc => (hcall out c hc).1) h, map_id']
  · obtain ⟨out, _, hout⟩ := exists_of_mem_mapM h hc
    exact (hcall out c hout).2

variable [DecidableEq ι]

/-- A successful call credits each listed output of the transaction once, to its contract only. -/
inductive Credited (e : Executor S ι) (raw : Tx) (txID : Text) (o : ExecutionOutcome)
    (s : ExecState S ι) : ExecState S ι → Prop
  | nothing (h : o.status ≠ 0 ∨ o.fundingInputs = []) : Credited e raw txID o s s
  | funded {i next} (hstatus : o.status = 0)
    (hplace : e.backend.managedBalance s.runtime o.contract = some i)
    (hnodup : o.fundingInputs.Nodup)
    (hpaid : ∀ p ∈ o.fundingInputs, (e.fundingOutput raw txID o.contract p).isSome)
    (hnext : next.worth = (s.ledger i).worth +
      (o.fundingInputs.map (e.fundingWorth raw txID o.contract)).sum) :
      Credited e raw txID o s { s with ledger := Function.update s.ledger i next }

/-- Calls for funding outputs, one after the other, each credited by itself. -/
inductive Settles (e : Executor S ι) (raw : Tx) (txID : Text) :
    ExecState S ι → List FundingOutput → ExecState S ι → Prop
  | nil (s : ExecState S ι) : Settles e raw txID s [] s
  | cons {s mid t u : ExecState S ι} {out outs o} (hanswer : e.Answers raw s (some o) mid)
    (hcredit : e.Credited raw txID o mid t) (hinput : o.fundingInputs = [out.outPoint])
    (hcontract : o.contract = out.contract) (h : Settles e raw txID t outs u) :
      Settles e raw txID s (out :: outs) u

theorem acceptOutcome_spec (hlib : lib.Exact) (h : e.Answers raw s (some o) t) :
    (e.acceptOutcome lib raw txID o).wp t (fun _ u => e.Credited raw txID o t u)
      (e.Stopped raw s) := by
  simp only [acceptOutcome, wp_bind, wp_refuse, wp_ite, wp_pure, wp_get, wp_ofExcept, wp_set,
    orError_eq_ok]
  have hstop : ∀ er, e.Stopped raw s er t := fun _ => ⟨_, h⟩
  refine ⟨fun _ => hstop _, fun _ => ⟨fun _ => hstop _, fun _ => ⟨fun hs => ?_, fun hs => ?_⟩⟩⟩
  · exact ⟨fun _ => hstop _, fun _ => .nothing (.inl hs)⟩
  · refine ⟨fun hi => .nothing (.inr hi), fun _ => ⟨fun _ _ => hstop _, fun i hi => ?_⟩⟩
    refine ⟨fun _ _ => hstop _, fun next hnext => ?_⟩
    obtain ⟨hnodup, hpaid, hworth⟩ := creditInputs_spec hlib hnext
    exact .funded (not_not.mp hs) hi hnodup (fun p hp => (hpaid p hp).2) hworth

theorem executeDefaultCalls_spec (hlib : lib.Exact) (calls : List (Call × FundingOutput))
    (seen : List Text) (hcalls : ∀ c ∈ calls, c.1.txID = txID ∧ c.1.contract = c.2.contract) :
    (calls.foldlM (e.executeDefaultCall lib raw) seen).wp s
      (fun _ t => e.Settles raw txID s (calls.map Prod.snd) t)
      (fun er t => ∃ done mid, done <+: calls.map Prod.snd ∧ e.Settles raw txID s done mid ∧
        e.Stopped raw mid er t) := by
  induction calls generalizing seen s with
  | nil => exact .nil s
  | cons c rest ih =>
    obtain ⟨⟨htxID, hto⟩, hrest⟩ := forall_mem_cons.mp hcalls
    have hstop : ∀ er t, e.Stopped raw s er t → ∃ done mid, done <+: c.2 :: rest.map Prod.snd ∧
        e.Settles raw txID s done mid ∧ e.Stopped raw mid er t :=
      fun _ _ h => ⟨[], s, nil_prefix, .nil s, h⟩
    simp only [foldlM_cons, map_cons, executeDefaultCall, wp_bind, wp_ofExcept, wp_refuse, wp_pure,
      htxID]
    refine wp_mono (runDefaultCall_spec c) (fun o mid hmid => ?_) hstop
    refine ⟨fun _ _ => hstop _ _ ⟨_, hmid⟩, fun _ hvalid => ⟨fun _ => hstop _ _ ⟨_, hmid⟩,
      fun _ => ?_⟩⟩
    simp only [validateDefaultOutcome, bind_eq_ok, require_eq_ok, decide_eq_true_eq,
      exists_const] at hvalid
    obtain ⟨⟨_, _, _, hcontract, _, hinput, _⟩, _⟩ := hvalid
    refine wp_mono (acceptOutcome_spec hlib hmid) (fun _ t hcredit => ?_) hstop
    have hcons : ∀ {outs u}, e.Settles raw txID t outs u → e.Settles raw txID s (c.2 :: outs) u :=
      .cons hmid hcredit hinput (hcontract.trans hto)
    refine wp_mono (ih _ hrest) (fun _ _ hu => hcons hu) fun _ _ hlater => ?_
    obtain ⟨done, mid', hdone, hsettles, ho⟩ := hlater
    exact ⟨c.2 :: done, mid', (prefix_cons_inj _).mpr hdone, hcons hsettles, ho⟩

/-- Funding is credited once, to the contract of the outcome, and only by a call that succeeded.
A default transaction settles its outputs one by one: where it stops, the earlier credits stay. -/
theorem executeParsedTx_credits (hlib : lib.Exact) (e : Executor S ι) (raw : Tx)
    (parsed : ParsedTx) (s : ExecState S ι) :
    (parsed.type ≠ none → (e.executeParsedTx lib raw parsed).wp s
      (fun _ t => parsed.type = some .coinbaseStateRoot ∧ t = s ∨
        ∃ o mid, e.Answers raw s (some o) mid ∧ e.Credited raw parsed.txID o mid t)
      (e.Stopped raw s)) ∧
    (parsed.type = none → (∀ er, e.findDefaultInvokeOutputs raw parsed.txID = .error er →
        (e.executeParsedTx lib raw parsed).exec s = (.error er, s)) ∧
      ∀ outputs, e.findDefaultInvokeOutputs raw parsed.txID = .ok outputs →
        (e.executeParsedTx lib raw parsed).wp s (fun _ t => e.Settles raw parsed.txID s outputs t)
          (fun er t => ∃ done mid, done <+: outputs ∧ e.Settles raw parsed.txID s done mid ∧
            e.Stopped raw mid er t)) := by
  have hstop : ∀ er, e.Stopped raw s er s := fun _ => ⟨none, .refl⟩
  have haccept : ∀ {call call' : Call} (entry), call.txID = parsed.txID →
      e.resolveCall raw call = .ok call' → (e.backend.run entry raw parsed call').wp s (fun o mid =>
        (e.acceptOutcome lib raw call'.txID o).wp mid
          (fun _ t => parsed.type = some .coinbaseStateRoot ∧ t = s ∨
            ∃ o mid, e.Answers raw s (some o) mid ∧ e.Credited raw parsed.txID o mid t)
          (e.Stopped raw s)) (e.Stopped raw s) := by
    intro call call' entry hid hcall
    rw [(resolveCall_eq hcall).1, hid]
    refine wp_mono (Answers.refl.wp_run entry) (fun o mid hmid => ?_) fun _ _ h => h
    exact wp_mono (acceptOutcome_spec hlib hmid)
      (fun _ t ht => .inr ⟨o, mid, hmid, ht⟩) fun _ _ h => h
  constructor
  · intro htype
    rw [executeParsedTx]
    cases hp : parsed.type with
    | none => exact absurd hp htype
    | some type =>
      rw [hp] at haccept
      cases type with
      | result => exact hstop .externalResult
      | coinbaseStateRoot => exact .inl ⟨rfl, rfl⟩
      | deploy =>
        simp only [wp_bind, wp_ofExcept, wp_refuse]
        exact ⟨fun _ _ => hstop _, fun _ _ => ⟨fun _ => hstop _, fun _ => ⟨fun _ _ => hstop _,
          fun call hcall => haccept _ rfl hcall⟩⟩⟩
      | invoke =>
        simp only [wp_bind, wp_ofExcept, wp_refuse, wp_get]
        refine ⟨fun _ => hstop _, fun _ => ⟨fun _ _ => hstop _, fun call hcall => ?_⟩⟩
        exact ⟨fun _ _ => hstop _, fun _ _ => haccept _ rfl hcall⟩
  · intro htype
    have hrun : e.executeParsedTx lib raw parsed =
        e.executeDefaultTx lib raw (contractTxFromParsed parsed) := by
      rw [executeParsedTx, htype]
    rw [hrun, executeDefaultTx]
    refine ⟨fun er her => ?_, fun outputs hfind => ?_⟩
    · rw [show (contractTxFromParsed parsed).txID = parsed.txID from rfl, her]
      rfl
    · simp only [wp_bind, wp_ofExcept, wp_pure]
      have hnothing : ∀ er, ∃ done mid, done <+: outputs ∧ e.Settles raw parsed.txID s done mid ∧
          e.Stopped raw mid er s := fun er => ⟨[], s, nil_prefix, .nil s, hstop er⟩
      refine ⟨fun _ _ => hnothing _, fun outputs' hfind' => ?_⟩
      cases hfind.symm.trans hfind'
      refine ⟨fun _ _ => hnothing _, fun calls hcalls => ?_⟩
      obtain ⟨rfl, hbound⟩ := defaultCalls_bound hcalls
      exact executeDefaultCalls_spec hlib calls [] hbound

section Sample

open Wire.Reference

def sampleOutcome (c : Call) : ExecutionOutcome :=
  ⟨some .invoke, some .invoke, c.txID, ['c'], c.contract, 0, 0, none, c.funding.map (·.outPoint),
    [], 0, true, false⟩

def sampleExecutor : Executor Unit ContractAddress where
  backend :=
    { contractType := 1
      run := fun _ _ _ c => pure (sampleOutcome c)
      defaultInvoke := fun _ c _ => pure (some (sampleOutcome c))
      lifecycle := fun _ _ => .ok (some ⟨['d'], 0, false⟩)
      managedBalance := fun _ c => some c }
  hrp := testnetContractHrp
  invokeBaseGas := 1
  maxGasPerInvoke := 0
  resolveActor := some fun _ _ => .ok ['a']

def samplePayment (contracts : List UInt8) : Tx where
  hash := 0
  txIn := []
  txOut := contracts.map fun c => ⟨5, [], [0, 0x63, 2, 0x43, 0x54, 3, 1, 1, c, 0x68, 0]⟩

def sampleState : ExecState Unit ContractAddress := ⟨(), fun _ => ⟨0, []⟩⟩

def payee : ContractAddress := ⟨testnetContractHrp, [1, 1, 7]⟩

theorem executeParsedTx_credits_payment :
    sampleExecutor.Settles (samplePayment [7]) ['t'] sampleState [⟨⟨['t'], 0⟩, payee, 5, []⟩]
      ((sampleExecutor.executeParsedTx amountLib (samplePayment [7]) { txID := ['t'] }).exec
        sampleState).2 :=
  ok_of_wp (((executeParsedTx_credits amountLib_exact sampleExecutor (samplePayment [7])
    { txID := ['t'] } sampleState).2 rfl).2 _ (eq_ok_of_toOption (by decide +kernel)))
    (eq_ok_of_toOption (a := ()) (by decide +kernel))

/-- The second call repeats the name of the first one, whose credit stays. -/
theorem executeParsedTx_credits_first : sampleState.ledger payee = ⟨0, []⟩ ∧
    ((sampleExecutor.executeParsedTx amountLib (samplePayment [7, 8]) { txID := ['t'] }).exec
      sampleState).map Except.toOption (·.ledger payee) = (none, ⟨5, []⟩) := by
  decide +kernel

end Sample

end Executor

end SatoshiNet.Contract
