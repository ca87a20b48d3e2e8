import SatoshiNet.Agent.Prediction

/-!
The calls of a prediction contract and its life cycle: a market becomes ready or is rejected, takes
bets until the deadline, and is settled once, by the confirmation of its result or by its close.
-/

namespace SatoshiNet.Agent

open Lib Wire List

structure ApplyReadyRequest where
  invoker : Text

structure ApplyRejectRequest where
  invoker : Text
  param : PredictionRejectParam

structure ApplyBetRequest where
  invoker : Text
  param : PredictionBetParam
  (assetName amount : Text)
  gasAmount : Text := []
  timeValue : ℤ

structure ApplyConfirmRequest where
  invoker : Text
  param : PredictionConfirmParam
  gasAmount : Text := []
  resultGasFee : Text := []
  timeValue : ℤ

structure ApplyCloseRequest where
  invoker : Text
  timeValue : ℤ

def betKeySeparator : Char := Char.ofNat 0

def predictionBetKey (address outcomeID : Text) : Text := address ++ betKeySeparator :: outcomeID

def RuntimeState.initial : RuntimeState where
  status := .pendingReady
  prediction := { status := .pendingResult }

section Calls

variable (lib : PredictionLib)

namespace PredictionRuntimeState

variable (p : PredictionRuntimeState)

def betRecord (address outcomeID amount : Text) : PredictionBetRecord :=
  let record := p.bets[predictionBetKey address outcomeID]?.getD {}
  { address := if record.address = [] then address else record.address
    outcomeID := if record.address = [] then outcomeID else record.outcomeID
    amount := decimalStringAdd lib record.amount amount }

def addBet (address outcomeID amount : Text) : PredictionRuntimeState :=
  { p with
    bets := p.bets.insert (predictionBetKey address outcomeID)
      (p.betRecord lib address outcomeID amount) }

def addGasBalance (amount : Text) : PredictionRuntimeState :=
  if amount = [] then p
  else
    let next := decimalStringAdd lib p.gasBalance amount
    { p with gasBalance := if (parseDecimalOrZero lib next).sign = 0 then [] else next }

def spentGasBalance (amount : Text) : Text :=
  let current := parseDecimalOrZero lib p.gasBalance
  let fee := parseDecimalOrZero lib amount
  if amount = [] then p.gasBalance
  else if current.sign ≤ 0 then []
  else if fee.sign ≤ 0 then p.gasBalance
  else if lib.cmp current fee ≠ .gt then []
  else lib.toText (lib.subAlignPrecision current fee)

def spendGasBalance (amount : Text) : PredictionRuntimeState :=
  { p with gasBalance := p.spentGasBalance lib amount }

end PredictionRuntimeState

def validateFlags (flags : ℕ) : AgentM Unit :=
  -- Only the lowest bit has a meaning.
  require (flags / 2 = 0) (.unknownFlags flags)

def newRuntimeWithDeployer (deploy : DeployPayload) (config : RuntimeConfig) (deployer : Text) :
    AgentM (Runtime × RuntimeState) := do
  validateFlags deploy.flags
  require (!config.mainNet && deploy.subType = subtypePrediction) (.subtypeDisabled deploy.subType)
  require (deploy.version = currentAgentVersion) (.unsupportedVersion deploy.version)
  let contract ← orError deploy.contractContent .undecodable
  contract.check lib
  require (contract.subtype = deploy.subType) (.subtypeMismatch contract.subtype deploy.subType)
  .ok (⟨deploy, deployer, contract, config⟩, .initial)

namespace Runtime

variable (r : Runtime) (s : RuntimeState)

def requireCoreNode (invoker : Text) : AgentM Unit := do
  require (r.config.coreNodeAddress ≠ []) .missingCoreNode
  require (invoker = r.config.coreNodeAddress) .notCoreNode

def validateContractClose (actor : Text) : AgentM Unit := do
  validateFlags r.deploy.flags
  require (!s.closed) .closed
  require (r.deploy.flags % 2 = 0) .nonClosable
  require (r.deployer ≠ [] && actor ≠ [] && actor = r.deployer) .notDeployer

def applyReady (req : ApplyReadyRequest) : AgentM RuntimeState := do
  r.requireCoreNode req.invoker
  require (!s.closed) .closed
  require (s.status = .pendingReady) .notPendingReady
  .ok { s with status := .ready, prediction := { s.prediction with status := .betting } }

def applyReject (req : ApplyRejectRequest) : AgentM RuntimeState := do
  r.requireCoreNode req.invoker
  require (!s.closed) .closed
  require (s.status = .pendingReady) .notPendingReady
  req.param.check
  .ok { s with
    status := .rejected
    prediction := { s.prediction with
      status := .rejected
      rejections := s.prediction.rejections ++ [⟨req.invoker, req.param⟩] } }

def applyBet (req : ApplyBetRequest) : AgentM RuntimeState := do
  require (!s.closed) .closed
  require (s.status = .ready) .notReady
  require (s.prediction.status = .betting) .notBetting
  require (req.timeValue ≤ r.contract.betDeadline) .deadlinePassed
  require (req.assetName = r.contract.betAsset) (.assetMismatch req.assetName r.contract.betAsset)
  req.param.check r.contract
  checkBetAmount lib req.amount r.contract.minBetUnit
  require (req.invoker ≠ []) .emptyInvoker
  .ok { s with
    prediction := (s.prediction.addBet lib req.invoker req.param.outcomeID req.amount).addGasBalance
      lib req.gasAmount }

def advancedStatus (status : PredictionStatus) (timeValue : ℤ) : PredictionStatus :=
  let status : PredictionStatus :=
    if status = .betting ∧ r.contract.betDeadline < timeValue then .closedForBet else status
  if status = .closedForBet ∧ r.contract.confirmAfter ≤ timeValue then .pendingResult else status

def advancePredictionStatus (timeValue : ℤ) : RuntimeState :=
  if s.closed ∨ s.status ≠ .ready then s
  else { s with
    prediction := { s.prediction with status := r.advancedStatus s.prediction.status timeValue } }

def applyConfirm (req : ApplyConfirmRequest) :
    AgentM (RuntimeState × PredictionSettlementPlan) := do
  r.requireCoreNode req.invoker
  require (!s.closed) .closed
  require (s.status = .ready) .notReady
  require (r.contract.betDeadline < req.timeValue) .stillOpen
  require (r.contract.confirmAfter ≤ req.timeValue) .confirmAfterNotReached
  req.param.check lib r.contract
  let plan ← r.buildSettlementPlan lib s.prediction.bets req.param
  let gas := (s.prediction.addGasBalance lib req.gasAmount).spendGasBalance lib req.resultGasFee
  .ok ({ s with
    status := .completed
    prediction := { gas with
      status := .settled
      confirmations := s.prediction.confirmations ++ [⟨req.invoker, req.param⟩] } }, plan)

def closePlan (bets : Std.ExtTreeMap Text PredictionBetRecord) : PredictionSettlementPlan :=
  r.refundPlan .close [] bets

def applyClose (req : ApplyCloseRequest) : AgentM (RuntimeState × PredictionSettlementPlan) := do
  r.validateContractClose s req.invoker
  if s.status = .completed ∨ s.status = .rejected then
    .ok ({ s with closed := true }, { assetName := r.contract.betAsset, resultType := .close })
  else do
    require (req.timeValue ≤ r.contract.betDeadline) .closeAfterDeadline
    .ok ({ s with
      status := .completed
      closed := true
      prediction := { s.prediction with status := .refundable } },
      r.closePlan s.prediction.bets)

end Runtime

/-- A call, the advance of the status at the end of a block, or what the end of a block does to a
contract that is closed. -/
inductive PredictionOp
  | ready (req : ApplyReadyRequest)
  | reject (req : ApplyRejectRequest)
  | bet (req : ApplyBetRequest)
  | advance (timeValue : ℤ)
  | confirm (req : ApplyConfirmRequest)
  | close (req : ApplyCloseRequest)
  | clearClosedGas

def PredictionOp.apply (r : Runtime) (s : RuntimeState) :
    PredictionOp → AgentM (RuntimeState × Option PredictionSettlementPlan)
  | .ready req => (r.applyReady s req).map (·, none)
  | .reject req => (r.applyReject s req).map (·, none)
  | .bet req => (r.applyBet lib s req).map (·, none)
  | .advance timeValue => .ok (r.advancePredictionStatus s timeValue, none)
  | .confirm req => (r.applyConfirm lib s req).map fun (s', plan) => (s', some plan)
  | .close req => (r.applyClose s req).map fun (s', plan) => (s', some plan)
  | .clearClosedGas =>
    .ok (if s.closed then { s with prediction := { s.prediction with gasBalance := [] } } else s, none)

/-- A call that was made, with the state before it and what came out of it. -/
structure PredictionEvent where
  before : RuntimeState
  op : PredictionOp
  after : RuntimeState
  plan : Option PredictionSettlementPlan
  accepted : Bool

def PredictionOp.event (r : Runtime) (s : RuntimeState) (op : PredictionOp) : PredictionEvent :=
  match op.apply lib r s with
  | .ok (s', plan) => ⟨s, op, s', plan, true⟩
  | .error _ => ⟨s, op, s, none, false⟩

def Runtime.history (r : Runtime) : RuntimeState → List PredictionOp → List PredictionEvent
  | _, [] => []
  | s, op :: ops => op.event lib r s :: r.history (op.event lib r s).after ops

def PredictionSettlementPlan.paysBets (plan : PredictionSettlementPlan) : Bool :=
  plan.refund || plan.transfers ≠ []

end Calls

/-! ### The life cycle -/

inductive Transition (lib : PredictionLib) (r : Runtime) (s : RuntimeState) :
    PredictionOp → RuntimeState → Option PredictionSettlementPlan → Prop
  | ready {req : ApplyReadyRequest} (hopen : s.closed = false) (hstatus : s.status = .pendingReady) :
    Transition lib r s (.ready req)
      { s with status := .ready, prediction := { s.prediction with status := .betting } } none
  | reject {req : ApplyRejectRequest} {p : PredictionRuntimeState} (hopen : s.closed = false)
    (hstatus : s.status = .pendingReady) (hbets : p.bets = s.prediction.bets) :
    Transition lib r s (.reject req) { s with status := .rejected, prediction := p } none
  | bet {req : ApplyBetRequest} {p : PredictionRuntimeState} (hopen : s.closed = false)
    (hstatus : s.status = .ready) (hbetting : s.prediction.status = .betting)
    (htime : req.timeValue ≤ r.contract.betDeadline)
    (houtcome : r.contract.hasOutcome req.param.outcomeID = true)
    (hamount : checkBetAmount lib req.amount r.contract.minBetUnit = .ok ())
    (hinvoker : req.invoker ≠ [])
    (hbets : p.bets = (s.prediction.addBet lib req.invoker req.param.outcomeID req.amount).bets) :
    Transition lib r s (.bet req) { s with prediction := p } none
  | advance {timeValue : ℤ} {p : PredictionRuntimeState} (hclosed : s.closed = true → p = s.prediction)
    (hbets : p.bets = s.prediction.bets) :
    Transition lib r s (.advance timeValue) { s with prediction := p } none
  | confirm {req : ApplyConfirmRequest} {p : PredictionRuntimeState} {plan : PredictionSettlementPlan}
    (hopen : s.closed = false) (hstatus : s.status = .ready)
    (hdeadline : r.contract.betDeadline < req.timeValue)
    (hafter : r.contract.confirmAfter ≤ req.timeValue)
    (hplan : r.buildSettlementPlan lib s.prediction.bets req.param = .ok plan)
    (hbets : p.bets = s.prediction.bets) :
    Transition lib r s (.confirm req) { s with status := .completed, prediction := p } (some plan)
  | close {req : ApplyCloseRequest} (hopen : s.closed = false)
    (hstatus : s.status = .completed ∨ s.status = .rejected) :
    Transition lib r s (.close req) { s with closed := true }
      (some { assetName := r.contract.betAsset, resultType := .close })
  | refund {req : ApplyCloseRequest} {p : PredictionRuntimeState} (hopen : s.closed = false)
    (hstatus : ¬(s.status = .completed ∨ s.status = .rejected))
    (hbets : p.bets = s.prediction.bets) :
    Transition lib r s (.close req) { s with status := .completed, closed := true, prediction := p }
      (some (r.closePlan s.prediction.bets))
  | clearClosedGas {p : PredictionRuntimeState} (hbets : p.bets = s.prediction.bets) :
    Transition lib r s .clearClosedGas { s with prediction := p } none

section LifeCycle

variable {lib : PredictionLib} {r : Runtime}

theorem bets_addGasBalance (p : PredictionRuntimeState) (amount : Text) :
    (p.addGasBalance lib amount).bets = p.bets := by
  rw [PredictionRuntimeState.addGasBalance]
  split <;> rfl

variable {op : PredictionOp} {ops : List PredictionOp} {s s' : RuntimeState}

theorem transition_of_apply {plan : Option PredictionSettlementPlan}
    (h : op.apply lib r s = .ok (s', plan)) : Transition lib r s op s' plan := by
  cases op with
  | ready req =>
    simp only [PredictionOp.apply, map_eq_ok, Runtime.applyReady, bind_eq_ok, require_eq_ok,
      Bool.not_eq_true', decide_eq_true_eq] at h
    obtain ⟨_, ⟨_, -, _, hopen, _, hstatus, heq⟩, hpair⟩ := h
    cases heq
    cases hpair
    exact .ready hopen hstatus
  | reject req =>
    simp only [PredictionOp.apply, map_eq_ok, Runtime.applyReject, bind_eq_ok, require_eq_ok,
      Bool.not_eq_true', decide_eq_true_eq] at h
    obtain ⟨_, ⟨_, -, _, hopen, _, hstatus, _, -, heq⟩, hpair⟩ := h
    cases heq
    cases hpair
    exact .reject hopen hstatus rfl
  | bet req =>
    simp only [PredictionOp.apply, map_eq_ok, Runtime.applyBet, bind_eq_ok, require_eq_ok,
      PredictionBetParam.check, Bool.not_eq_true', decide_eq_true_eq] at h
    obtain ⟨_, ⟨_, hopen, _, hstatus, _, hbetting, _, htime, _, -, _, houtcome, _, hamount, _,
      hinvoker, heq⟩, hpair⟩ := h
    cases heq
    cases hpair
    exact .bet hopen hstatus hbetting htime houtcome hamount hinvoker (bets_addGasBalance _ _)
  | advance timeValue =>
    cases h
    rw [Runtime.advancePredictionStatus]
    split_ifs with hopen
    · exact .advance (fun _ => rfl) rfl
    · exact .advance (fun hclosed => absurd (Or.inl hclosed) hopen) rfl
  | confirm req =>
    simp only [PredictionOp.apply, map_eq_ok, Runtime.applyConfirm, bind_eq_ok, require_eq_ok,
      Bool.not_eq_true', decide_eq_true_eq] at h
    obtain ⟨_, ⟨_, -, _, hopen, _, hstatus, _, hdeadline, _, hafter, _, -, _, hplan, heq⟩, hpair⟩ := h
    cases heq
    cases hpair
    exact .confirm hopen hstatus hdeadline hafter hplan (bets_addGasBalance _ _)
  | close req =>
    simp only [PredictionOp.apply, map_eq_ok, Runtime.applyClose, Runtime.validateContractClose,
      bind_eq_ok, require_eq_ok, Bool.not_eq_true', decide_eq_true_eq] at h
    obtain ⟨_, ⟨_, ⟨_, -, _, hopen, -⟩, heq⟩, hpair⟩ := h
    split_ifs at heq with hstatus
    · cases heq
      cases hpair
      exact .close hopen hstatus
    · obtain ⟨_, -, heq⟩ := bind_eq_ok.mp heq
      cases heq
      cases hpair
      exact .refund hopen hstatus rfl
  | clearClosedGas =>
    cases h
    split
    · exact .clearClosedGas rfl
    · exact .clearClosedGas rfl

def RuntimeState.Terminal (s : RuntimeState) : Prop := s.status = .completed ∨ s.status = .rejected

instance : DecidablePred RuntimeState.Terminal := fun s =>
  inferInstanceAs (Decidable (s.status = .completed ∨ s.status = .rejected))

theorem RuntimeState.Terminal.ne_ready (h : s.Terminal) : s.status ≠ .ready := by
  rcases h with h | h <;> rw [h] <;> decide

namespace Transition

variable {s s' : RuntimeState} {op : PredictionOp} {plan : Option PredictionSettlementPlan}

theorem terminal (h : Transition lib r s op s' plan) (hs : s.Terminal) : s'.Terminal := by
  cases h with
  | ready _ hstatus => exact absurd hs (by simp [RuntimeState.Terminal, hstatus])
  | reject => exact Or.inr rfl
  | confirm | refund => exact Or.inl rfl
  | bet | advance | close | clearClosedGas => exact hs

theorem of_paysBets {p} (h : Transition lib r s op s' (some p)) (hp : p.paysBets = true) :
    ¬s.Terminal ∧ s'.Terminal := by
  cases h with
  | confirm _ hstatus => exact ⟨fun hs => hs.ne_ready hstatus, Or.inl rfl⟩
  | close => exact absurd hp (by simp [PredictionSettlementPlan.paysBets])
  | refund _ hstatus => exact ⟨hstatus, Or.inl rfl⟩

theorem of_bets_ne (h : Transition lib r s op s' plan) (hne : s'.prediction.bets ≠ s.prediction.bets) :
    ∃ req, op = .bet req ∧ s.status = .ready ∧ s.prediction.status = .betting ∧
      req.timeValue ≤ r.contract.betDeadline := by
  cases h with
  | bet _ hstatus hbetting htime => exact ⟨_, rfl, hstatus, hbetting, htime⟩
  | ready | close => exact absurd rfl hne
  | reject _ _ hbets | advance _ hbets | confirm _ _ _ _ _ hbets | refund _ _ hbets
  | clearClosedGas hbets => exact absurd hbets hne

theorem of_confirm {req} (h : Transition lib r s (.confirm req) s' plan) :
    s.status = .ready ∧ r.contract.betDeadline < req.timeValue ∧
      r.contract.confirmAfter ≤ req.timeValue := by
  cases h with
  | confirm _ hstatus hdeadline hafter => exact ⟨hstatus, hdeadline, hafter⟩

theorem eq_of_closed (h : Transition lib r s op s' plan) (hclosed : s.closed = true)
    (hop : op ≠ .clearClosedGas) : s' = s := by
  cases h with
  | advance hkeep => rw [hkeep hclosed]
  | clearClosedGas => exact absurd rfl hop
  | ready hopen | reject hopen | bet hopen | confirm hopen | close hopen | refund hopen =>
    exact absurd (hopen.symm.trans hclosed) (by decide)

end Transition

variable (lib r) in
theorem event_cases (s op) : (op.event lib r s).before = s ∧ (op.event lib r s).op = op ∧
      ((op.event lib r s).accepted = true ∧
          Transition lib r s op (op.event lib r s).after (op.event lib r s).plan ∨
        (op.event lib r s).accepted = false ∧ (op.event lib r s).after = s ∧
          (op.event lib r s).plan = none) := by
  unfold PredictionOp.event
  cases h : op.apply lib r s with
  | error _ => exact ⟨rfl, rfl, Or.inr ⟨rfl, rfl, rfl⟩⟩
  | ok result => exact ⟨rfl, rfl, Or.inl ⟨rfl, transition_of_apply h⟩⟩

theorem exists_of_mem_history {e} (he : e ∈ r.history lib s ops) :
    ∃ s op, e = PredictionOp.event lib r s op := by
  induction ops generalizing s with
  | nil => cases he
  | cons op ops ih =>
    rcases mem_cons.mp he with rfl | he
    · exact ⟨s, op, rfl⟩
    · exact ih he

theorem terminal_event (hs : s.Terminal) : (op.event lib r s).after.Terminal := by
  obtain ⟨-, -, ⟨-, h⟩ | ⟨-, h, -⟩⟩ := event_cases lib r s op
  · exact h.terminal hs
  · exact h.symm ▸ hs

theorem terminal_history (hs : s.Terminal) :
    ∀ e ∈ r.history lib s ops, e.before.Terminal ∧ e.after.Terminal := by
  induction ops generalizing s with
  | nil => exact forall_mem_nil _
  | cons op ops ih =>
    intro e he
    rcases mem_cons.mp he with rfl | he
    · exact ⟨(event_cases lib r s op).1.symm ▸ hs, terminal_event hs⟩
    · exact ih (terminal_event hs) e he

theorem pairwise_terminal (s ops) :
    (r.history lib s ops).Pairwise fun e e' => e.after.Terminal → e'.after.Terminal := by
  induction ops generalizing s with
  | nil => exact .nil
  | cons op ops ih => exact .cons (fun e' he' hs => (terminal_history hs e' he').2) (ih _)

theorem allowance_le (h : s.Terminal → s'.Terminal) :
    (if s'.Terminal then 0 else 1) ≤ if s.Terminal then 0 else 1 := by
  by_cases hs : s.Terminal
  · rw [if_pos (h hs), if_pos hs]
  · rw [if_neg hs]
    split <;> omega

theorem countP_paysBets_le (s ops) :
    ((r.history lib s ops).filterMap (·.plan)).countP (·.paysBets) ≤ if s.Terminal then 0 else 1 := by
  induction ops generalizing s with
  | nil => exact Nat.zero_le _
  | cons op ops ih =>
    rw [Runtime.history]
    have hrest := ih (op.event lib r s).after
    obtain ⟨-, -, ⟨-, h⟩ | ⟨-, hafter, hplan⟩⟩ := event_cases lib r s op
    · cases hplan : (op.event lib r s).plan with
      | none =>
        rw [filterMap_cons_none hplan]
        exact hrest.trans (allowance_le h.terminal)
      | some p =>
        rw [filterMap_cons_some hplan, countP_cons]
        rw [hplan] at h
        by_cases hp : p.paysBets = true
        · obtain ⟨hs, hs'⟩ := h.of_paysBets hp
          rw [if_pos hs'] at hrest
          rw [if_pos hp, if_neg hs]
          exact Nat.succ_le_succ hrest
        · rw [if_neg hp, Nat.add_zero]
          exact hrest.trans (allowance_le h.terminal)
    · rw [filterMap_cons_none hplan]
      rw [hafter] at hrest ⊢
      exact hrest

variable (lib r) in
/-- Over every sequence of calls a market pays its bets at most once, takes bets only in the betting
phase and until the deadline, is confirmed only when it is ready and its times have come, never
becomes ready again once it was rejected or completed, and does not change any more once it is
closed.  Only the end of the block clears the gas balance of a closed contract. -/
theorem prediction_life_cycle (ops : List PredictionOp) :
    ((r.history lib .initial ops).filterMap (·.plan)).countP (·.paysBets) ≤ 1 ∧
      (∀ e ∈ r.history lib .initial ops, e.after.prediction.bets ≠ e.before.prediction.bets →
        ∃ req, e.op = .bet req ∧ e.before.status = .ready ∧ e.before.prediction.status = .betting ∧
          req.timeValue ≤ r.contract.betDeadline) ∧
      (∀ e ∈ r.history lib .initial ops, ∀ req, e.op = .confirm req → e.accepted = true →
        e.before.status = .ready ∧ r.contract.betDeadline < req.timeValue ∧
          r.contract.confirmAfter ≤ req.timeValue) ∧
      (r.history lib .initial ops).Pairwise (fun e e' =>
        e.after.status = .completed ∨ e.after.status = .rejected → e'.after.status ≠ .ready) ∧
      (∀ e ∈ r.history lib .initial ops, e.before.closed = true → e.op ≠ .clearClosedGas →
        e.after = e.before) := by
  refine ⟨countP_paysBets_le .initial ops, ?_, ?_, ?_, ?_⟩
  · intro e he hne
    obtain ⟨s, op, rfl⟩ := exists_of_mem_history he
    obtain ⟨hbefore, hop, ⟨-, h⟩ | ⟨-, hafter, -⟩⟩ := event_cases lib r s op
    · rw [hbefore] at hne ⊢
      rw [hop]
      exact h.of_bets_ne hne
    · exact absurd (by rw [hafter, hbefore]) hne
  · intro e he req hreq haccepted
    obtain ⟨s, op, rfl⟩ := exists_of_mem_history he
    obtain ⟨hbefore, hop, ⟨-, h⟩ | ⟨hrefused, -⟩⟩ := event_cases lib r s op
    · obtain rfl : op = .confirm req := hop.symm.trans hreq
      rw [hbefore]
      exact h.of_confirm
    · exact absurd (hrefused.symm.trans haccepted) (by decide)
  · exact (pairwise_terminal .initial ops).imp fun h hs => (h hs).ne_ready
  · intro e he hclosed hclear
    obtain ⟨s, op, rfl⟩ := exists_of_mem_history he
    obtain ⟨hbefore, hop, ⟨-, h⟩ | ⟨-, hafter, -⟩⟩ := event_cases lib r s op
    · rw [hbefore] at hclosed ⊢
      exact h.eq_of_closed hclosed (hop ▸ hclear)
    · rw [hafter, hbefore]

end LifeCycle

end SatoshiNet.Agent
