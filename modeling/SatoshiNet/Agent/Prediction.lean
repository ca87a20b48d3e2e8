import SatoshiNet.Contract.ManagedBalance
import SatoshiNet.Dkvs.Key
import SatoshiNet.Lib.Apportion
import SatoshiNet.Lib.Total

/-!
Prediction contracts: the market that is deployed, the parameters of the calls and their checks, the
runtime, and the plan by which it settles its bets: fees of the whole stake, the rest divided among
the winners; or every bet back where nobody can win.
Decimals, asset names and URLs come from other packages; they are fields of `PredictionLib`.
-/

namespace SatoshiNet.Agent

open Lib Wire Decimal
open Dkvs (trimSpace)

structure PredictionLib extends DecimalLib where
  (mulBigInt divBigInt : Decimal → ℤ → Decimal)
  newAssetNameFromString : Text → Bool
  parseHTTPURL : Text → Bool
  resultURLAllowed : Text → Text → Bool

structure PredictionLib.Lawful (lib : PredictionLib) : Prop
    extends decimals : DecimalLib.Lawful lib.toDecimalLib where
  mulBigInt : ∀ d n, lib.mulBigInt d n = ⟨d.precision, d.value * n⟩
  divBigInt : ∀ {d n}, 0 ≤ d.value → 0 < n → lib.divBigInt d n = ⟨d.precision, d.value / n⟩

def subtypePrediction : Text := ['p', 'r', 'e', 'd', 'i', 'c', 't', 'i', 'o', 'n']

def currentAgentVersion : ℕ := 1

def maxPredictionDecimalPrecision : ℤ := 10

def maxPredictionConfirmResultLen : ℕ := 128

inductive TimeBase
  | unix | height | other (name : Text)
deriving DecidableEq

inductive ResultType
  | outcome | cancelled | invalid | unverifiable | close | other (name : Text)
deriving DecidableEq

inductive AmountField
  | betAmount | minBetUnit

inductive AgentError
  | unknownFlags (flags : ℕ) | subtypeDisabled (subtype : Text)
  | unsupportedVersion (version : ℕ) | undecodable | subtypeMismatch (a b : Text)
  | invalidSubtype (subtype : Text) | emptyTitle | emptyDescription | invalidTimeBase (base : TimeBase)
  | invalidEventTime (time : ℤ) | invalidBetDeadline (time : ℤ) | invalidConfirmAfter (time : ℤ)
  | deadlineNotBeforeEvent | confirmNotAfterEvent | invalidSourceURL (url : Text)
  | invalidAssetName (name : Text) | invalidAmount (field : AmountField) (value : Text)
  | tooFewOutcomes | invalidOutcomeID (id : Text) | emptyOutcomeText (id : Text)
  | duplicateOutcome (id : Text) | unknownOutcome (id : Text) | outcomeNotEmpty (type : ResultType)
  | invalidResultType (type : ResultType) | resultURLOutside | emptyResult | resultTooLong (length : ℕ)
  | invalidObservedAt (time : ℤ) | emptyReason | invalidCheckedAt (time : ℤ)
  | belowMinUnit | minUnitZero | notMultiple
  | missingCoreNode | notCoreNode | closed | nonClosable | notDeployer | notPendingReady | notReady
  | notBetting | deadlinePassed | assetMismatch (name expected : Text) | emptyInvoker | stillOpen
  | confirmAfterNotReached | closeAfterDeadline | missingFeeRecipient
  | divisionByZero

abbrev AgentM := Except AgentError

structure PredictionOutcome where
  (id text : Text)

structure PredictionContract where
  subtype : Text := subtypePrediction
  (title description : Text)
  timeBase : TimeBase
  (eventTime betDeadline confirmAfter : ℤ)
  (sourceURL betAsset minBetUnit : Text)
  outcomes : List PredictionOutcome

structure PredictionBetParam where
  outcomeID : Text

structure PredictionConfirmParam where
  resultType : ResultType
  outcomeID : Text := []
  (result resultURL : Text)
  observedAt : ℤ
  agentVersion : ℕ := 0
  modelVersion : Text := []

structure PredictionRejectParam where
  reason : Text
  checkedAt : ℤ

/-! ### Checks -/

def checkOutcome (outcome : PredictionOutcome) : AgentM Unit := do
  require (outcome.id ≠ [] && outcome.id.all fun c => 'a' ≤ c && c ≤ 'z')
    (.invalidOutcomeID outcome.id)
  require (trimSpace outcome.text ≠ []) (.emptyOutcomeText outcome.id)

section

local instance : LawfulBEq Text := inferInstance

def checkOutcomes (seen : List Text) : List PredictionOutcome → AgentM Unit
  | [] => .ok ()
  | outcome :: rest => do
    checkOutcome outcome
    require (outcome.id ∉ seen) (.duplicateOutcome outcome.id)
    checkOutcomes (outcome.id :: seen) rest

end

section Checks

variable (lib : PredictionLib)

def parsePositiveDecimal (field : AmountField) (value : Text) : AgentM Decimal := do
  require (value ≠ [] && value ≠ ['0']) (.invalidAmount field value)
  let decimal ← orError (lib.newDecimalFromString value maxPredictionDecimalPrecision)
    (.invalidAmount field value)
  require (lib.cmp decimal (newDefaultDecimal 0) = .gt) (.invalidAmount field value)
  .ok decimal

def PredictionContract.check (c : PredictionContract) : AgentM Unit := do
  require (c.subtype = subtypePrediction) (.invalidSubtype c.subtype)
  require (trimSpace c.title ≠ []) .emptyTitle
  require (trimSpace c.description ≠ []) .emptyDescription
  require (c.timeBase = .unix || c.timeBase = .height) (.invalidTimeBase c.timeBase)
  require (0 < c.eventTime) (.invalidEventTime c.eventTime)
  require (0 < c.betDeadline) (.invalidBetDeadline c.betDeadline)
  require (0 < c.confirmAfter) (.invalidConfirmAfter c.confirmAfter)
  require (c.betDeadline < c.eventTime) .deadlineNotBeforeEvent
  require (c.eventTime < c.confirmAfter) .confirmNotAfterEvent
  require (lib.parseHTTPURL c.sourceURL) (.invalidSourceURL c.sourceURL)
  require (lib.newAssetNameFromString c.betAsset) (.invalidAssetName c.betAsset)
  let _ ← parsePositiveDecimal lib .minBetUnit c.minBetUnit
  require (2 ≤ c.outcomes.length) .tooFewOutcomes
  checkOutcomes [] c.outcomes

def PredictionContract.hasOutcome (c : PredictionContract) (id : Text) : Bool :=
  c.outcomes.any (·.id = id)

def PredictionBetParam.check (p : PredictionBetParam) (c : PredictionContract) : AgentM Unit :=
  require (c.hasOutcome p.outcomeID) (.unknownOutcome p.outcomeID)

def PredictionConfirmParam.checkOutcome (p : PredictionConfirmParam) (c : PredictionContract) :
    AgentM Unit :=
  match p.resultType with
  | .outcome => require (c.hasOutcome p.outcomeID) (.unknownOutcome p.outcomeID)
  | .cancelled | .invalid | .unverifiable => require (p.outcomeID = []) (.outcomeNotEmpty p.resultType)
  | .close | .other _ => .error (.invalidResultType p.resultType)

def byteLength (t : Text) : ℕ := (t.map Char.utf8Size).sum

def PredictionConfirmParam.check (p : PredictionConfirmParam) (c : PredictionContract) :
    AgentM Unit := do
  p.checkOutcome c
  require (lib.resultURLAllowed c.sourceURL p.resultURL) .resultURLOutside
  let result := trimSpace p.result
  require (result ≠ []) .emptyResult
  require (byteLength result ≤ maxPredictionConfirmResultLen) (.resultTooLong (byteLength result))
  require (0 < p.observedAt) (.invalidObservedAt p.observedAt)

def PredictionRejectParam.check (p : PredictionRejectParam) : AgentM Unit := do
  require (trimSpace p.reason ≠ []) .emptyReason
  require (0 < p.checkedAt) (.invalidCheckedAt p.checkedAt)

def checkBetAmount (amount minUnit : Text) : AgentM Unit := do
  let amt ← parsePositiveDecimal lib .betAmount amount
  let unit ← parsePositiveDecimal lib .minBetUnit minUnit
  require (lib.cmp amt unit ≠ .lt) .belowMinUnit
  let precision := max amt.precision unit.precision
  let alignedAmt := lib.newPrecision amt precision
  let alignedUnit := lib.newPrecision unit precision
  require (alignedUnit.value ≠ 0) .minUnitZero
  require (alignedAmt.value % alignedUnit.value = 0) .notMultiple

end Checks

/-! ### What the checks give -/

theorem mem_checkOutcomes {outcomes} {seen} (h : checkOutcomes seen outcomes = .ok ()) :
    ∀ o ∈ outcomes, o.id ≠ [] ∧ ∀ c ∈ o.id, 'a' ≤ c ∧ c ≤ 'z' := by
  induction outcomes generalizing seen with
  | nil => exact fun o ho => absurd ho List.not_mem_nil
  | cons o rest ih =>
    simp only [checkOutcomes, checkOutcome, bind_eq_ok, require_eq_ok, Bool.and_eq_true,
      decide_eq_true_eq, List.all_eq_true] at h
    obtain ⟨_, ⟨_, hid, -⟩, _, -, hrest⟩ := h
    intro o' ho'
    rcases List.mem_cons.mp ho' with rfl | ho'
    · exact hid
    · exact ih hrest o' ho'

section Laws

variable {lib : PredictionLib} (hlib : lib.Lawful)
include hlib

variable {d : Decimal} {p : ℤ}

theorem parsePositiveDecimal_eq_ok {field} {value}
    (h : parsePositiveDecimal lib field value = .ok d) :
    value ≠ [] ∧ lib.newDecimalFromString value maxPredictionDecimalPrecision = some d ∧
      d.precision = maxPredictionDecimalPrecision ∧ 0 < d.value := by
  simp only [parsePositiveDecimal, bind_eq_ok, require_eq_ok, orError_eq_ok, Bool.and_eq_true,
    decide_eq_true_eq] at h
  obtain ⟨_, ⟨hne, -⟩, d', hparse, _, hpos, h⟩ := h
  cases h
  rw [hlib.cmp, compare_gt_iff_gt, toRat_newDefaultDecimal, Int.cast_zero, toRat_pos_iff] at hpos
  exact ⟨hne, hparse, hlib.parse_precision hparse, hpos⟩

theorem newPrecision_eq (hp : 0 ≤ p) (hd : 0 ≤ d.toRat) :
    lib.newPrecision d p = ⟨p, ⌊d.toRat * 10 ^ p⌋⟩ := by
  have hprec : (lib.newPrecision d p).precision = p := hlib.precision hp
  have hrat := hlib.newPrecision hp (toRat_nonneg_iff.mp hd)
  have hpow := (ten_zpow_pos p).ne'
  rw [toRat, hprec, cut, div_left_inj' hpow, Int.cast_inj] at hrat
  cases hnew : lib.newPrecision d p with
  | mk precision value =>
    rw [hnew] at hprec hrat
    obtain rfl : precision = p := hprec
    rw [mk.injEq]
    exact ⟨rfl, hrat⟩

theorem newPrecision_of_eq_div {n : ℤ} (hp : 0 ≤ p) (hn : 0 ≤ n) (hd : d.toRat = n / 10 ^ p) :
    lib.newPrecision d p = ⟨p, n⟩ := by
  have hpow := ten_zpow_pos p
  have hnonneg : 0 ≤ d.toRat := by
    rw [hd]
    exact div_nonneg (Int.cast_nonneg hn) hpow.le
  rw [newPrecision_eq hlib hp hnonneg, hd, div_mul_cancel₀ _ hpow.ne', Int.floor_intCast]

theorem newPrecision_self (hd : 0 ≤ d.value) (hp : 0 ≤ d.precision) :
    lib.newPrecision d d.precision = d :=
  newPrecision_of_eq_div hlib hp hd rfl

theorem checkBetAmount_eq_ok {amount minUnit} (h : checkBetAmount lib amount minUnit = .ok ()) :
    ∃ amt unit, amount ≠ [] ∧
      lib.newDecimalFromString amount maxPredictionDecimalPrecision = some amt ∧
      lib.newDecimalFromString minUnit maxPredictionDecimalPrecision = some unit ∧
      0 < amt.toRat ∧ 0 < unit.toRat ∧ ∃ n : ℤ, amt.toRat = n * unit.toRat := by
  simp only [checkBetAmount, bind_eq_ok, require_eq_ok, decide_eq_true_eq] at h
  obtain ⟨amt, hamt, unit, hunit, _, -, _, -, hmod⟩ := h
  obtain ⟨hne, hamt, hamtPrec, hamtPos⟩ := parsePositiveDecimal_eq_ok hlib hamt
  obtain ⟨-, hunit, hunitPrec, hunitPos⟩ := parsePositiveDecimal_eq_ok hlib hunit
  have hten : (0 : ℤ) ≤ maxPredictionDecimalPrecision := by decide
  have hsame : max amt.precision unit.precision = amt.precision := by
    rw [hamtPrec, hunitPrec, max_self]
  have hsame' : amt.precision = unit.precision := hamtPrec.trans hunitPrec.symm
  rw [hsame, newPrecision_self hlib hamtPos.le (hamtPrec ▸ hten), hsame',
    newPrecision_self hlib hunitPos.le (hunitPrec ▸ hten)] at hmod
  obtain ⟨n, hn⟩ := Int.dvd_of_emod_eq_zero hmod
  refine ⟨amt, unit, hne, hamt, hunit, toRat_pos_iff.mpr hamtPos, toRat_pos_iff.mpr hunitPos, n, ?_⟩
  rw [toRat, toRat, hn, hsame']
  push_cast
  ring

end Laws

open Lib Wire
open Std (ExtTreeMap)

def predictionDeployerFeeBPS : ℤ := 600
def predictionAgentFeeBPS : ℤ := 300
def predictionBootstrapBPS : ℤ := 100
def predictionWinnerPoolBPS : ℤ := 9000
def predictionTotalBPS : ℤ := 10000

inductive AgentStatus
  | pendingReady | ready | rejected | invalid | completed | failed | disputed | expired
deriving DecidableEq

inductive PredictionStatus
  | betting | closedForBet | pendingResult | confirmed | settled | refundable | rejected
deriving DecidableEq

structure PredictionBetRecord where
  address : Text := []
  outcomeID : Text := []
  amount : Text := []

structure PredictionConfirmRecord where
  agent : Text
  param : PredictionConfirmParam

structure PredictionRejectRecord where
  agent : Text
  param : PredictionRejectParam

structure PredictionRuntimeState where
  status : PredictionStatus
  bets : ExtTreeMap Text PredictionBetRecord := ∅
  gasBalance : Text := []
  confirmations : List PredictionConfirmRecord := []
  rejections : List PredictionRejectRecord := []

structure RuntimeState where
  status : AgentStatus
  closed : Bool := false
  prediction : PredictionRuntimeState

structure RuntimeConfig where
  (coreNodeAddress agentAddress bootstrapAddress : Text)
  assetPrecision : Option (Text → Option ℤ) := none
  mainNet : Bool := false

structure DeployPayload where
  subType : Text
  (version flags : ℕ)
  contractContent : Option PredictionContract

structure Runtime where
  deploy : DeployPayload
  deployer : Text
  contract : PredictionContract
  config : RuntimeConfig

inductive PayReason
  | deployerFee | agentFee | bootstrapFee | winnerPayout | refund
deriving DecidableEq

structure PredictionSettlementOutput where
  (recipient assetName assetAmt : Text)
  reason : PayReason

structure PredictionSettlementPlan where
  assetName : Text
  resultType : ResultType
  outcomeID : Text := []
  refund : Bool := false
  transfers : List PredictionSettlementOutput := []
  deployerFeeBPS : ℤ := 0
  agentFeeBPS : ℤ := 0
  bootstrapFeeBPS : ℤ := 0
  winnerPoolFeeBPS : ℤ := 0

structure PredictionWinner where
  address : Text
  amount : Decimal

section Plan

variable (lib : PredictionLib)

def parseDecimalOrZero (value : Text) : Decimal :=
  if value = [] then newDefaultDecimal 0
  else (lib.newDecimalFromString value maxPredictionDecimalPrecision).getD (newDefaultDecimal 0)

def decimalStringAdd (a b : Text) : Text :=
  lib.toText (lib.decimalAdd (parseDecimalOrZero lib a) (parseDecimalOrZero lib b))

def decimalMulBPS (amount : Decimal) (bps : ℤ) : Decimal :=
  lib.divBigInt (lib.mulBigInt amount bps) predictionTotalBPS

def PredictionBetRecord.less (a b : PredictionBetRecord) : Bool :=
  if a.address ≠ b.address then a.address < b.address else a.outcomeID < b.outcomeID

variable (bets : ExtTreeMap Text PredictionBetRecord) (assetName : Text)

def betRecords : List PredictionBetRecord :=
  bets.toList.map (·.2)

def sortedBetRecords : List PredictionBetRecord :=
  (betRecords bets).insertionSort fun a b => b.less a = false

def PredictionWinner.before (a b : PredictionWinner) : Bool :=
  if lib.cmp a.amount b.amount ≠ .eq then lib.cmp a.amount b.amount = .gt
  else a.address < b.address

def winners (outcomeID : Text) : List PredictionWinner :=
  (((sortedBetRecords bets).filter (·.outcomeID = outcomeID)).map fun bet =>
    (⟨bet.address, parseDecimalOrZero lib bet.amount⟩ : PredictionWinner)).insertionSort
      fun a b => b.before lib a = false

def addAll (amounts : List Decimal) : Decimal := amounts.foldl lib.decimalAdd (newDefaultDecimal 0)

def totalBetAmount : Decimal :=
  addAll lib ((betRecords bets).map fun bet => parseDecimalOrZero lib bet.amount)

def refundTransfers (bets : ExtTreeMap Text PredictionBetRecord) :
    List PredictionSettlementOutput :=
  (sortedBetRecords bets).map fun bet => ⟨bet.address, assetName, bet.amount, .refund⟩

def winnerOutput (precision : ℤ) (winner : PredictionWinner) (share : ℤ) :
    PredictionSettlementOutput :=
  ⟨winner.address, assetName, lib.toText ⟨precision, share⟩, .winnerPayout⟩

def distributeWinnerPool (winnerPool : Decimal) (ws : List PredictionWinner)
    (assetPrecision : ℤ) : AgentM (List PredictionSettlementOutput) :=
  if ws = [] ∨ winnerPool.sign ≤ 0 then .ok []
  else
    let amounts := ws.map fun winner => lib.newPrecision winner.amount assetPrecision
    let totalWinnerAmount := lib.newPrecision (addAll lib amounts) assetPrecision
    let pool := lib.newPrecision winnerPool assetPrecision
    if totalWinnerAmount.value = 0 then .error .divisionByZero
    else
      let rawShares := amounts.map fun amount => pool.value * amount.value / totalWinnerAmount.value
      let remainder := pool.value - rawShares.sum
      -- The units that rounding down left over go to the first winners.
      .ok (List.zipWith (winnerOutput lib assetName assetPrecision) ws (bump remainder rawShares))

namespace Runtime

variable (r : Runtime)

def betAssetPrecision : ℤ :=
  if r.contract.betAsset = satoshiAssetName then 0
  else
    match r.config.assetPrecision with
    | none => maxPredictionDecimalPrecision
    | some resolve =>
      match resolve r.contract.betAsset with
      | none => maxPredictionDecimalPrecision
      | some precision => if precision < 0 then maxPredictionDecimalPrecision else precision

def refundPlan (type : ResultType) (outcomeID : Text) (bets : ExtTreeMap Text PredictionBetRecord) :
    PredictionSettlementPlan where
  assetName := r.contract.betAsset
  resultType := type
  outcomeID := outcomeID
  refund := true
  transfers := refundTransfers r.contract.betAsset bets

def feeOutputs (deployerFee agentFee bootstrapFee : Decimal) : List PredictionSettlementOutput := [
  ⟨r.deployer, r.contract.betAsset, lib.toText deployerFee, .deployerFee⟩,
  ⟨r.config.agentAddress, r.contract.betAsset, lib.toText agentFee, .agentFee⟩,
  ⟨r.config.bootstrapAddress, r.contract.betAsset, lib.toText bootstrapFee, .bootstrapFee⟩]

def outcomePlan (bets : ExtTreeMap Text PredictionBetRecord) (confirm : PredictionConfirmParam)
    (ws : List PredictionWinner) : AgentM PredictionSettlementPlan := do
  require (r.deployer ≠ [] && r.config.agentAddress ≠ [] && r.config.bootstrapAddress ≠ [])
    .missingFeeRecipient
  let precision := r.betAssetPrecision
  let total := lib.newPrecision (totalBetAmount lib bets) precision
  let deployerFee := decimalMulBPS lib total predictionDeployerFeeBPS
  let agentFee := decimalMulBPS lib total predictionAgentFeeBPS
  let bootstrapFee := decimalMulBPS lib total predictionBootstrapBPS
  let winnerPool := lib.decimalSub (lib.decimalSub (lib.decimalSub total deployerFee) agentFee)
    bootstrapFee
  let payouts ← distributeWinnerPool lib r.contract.betAsset winnerPool ws precision
  .ok {
    assetName := r.contract.betAsset
    resultType := confirm.resultType
    outcomeID := confirm.outcomeID
    transfers := r.feeOutputs lib deployerFee agentFee bootstrapFee ++ payouts
    deployerFeeBPS := predictionDeployerFeeBPS
    agentFeeBPS := predictionAgentFeeBPS
    bootstrapFeeBPS := predictionBootstrapBPS
    winnerPoolFeeBPS := predictionWinnerPoolBPS }

def buildSettlementPlan (bets : ExtTreeMap Text PredictionBetRecord)
    (confirm : PredictionConfirmParam) : AgentM PredictionSettlementPlan :=
  if confirm.resultType ≠ .outcome ∨ winners lib bets confirm.outcomeID = [] then
    .ok (r.refundPlan confirm.resultType confirm.outcomeID bets)
  else r.outcomePlan lib bets confirm (winners lib bets confirm.outcomeID)

end Runtime

end Plan

end SatoshiNet.Agent
