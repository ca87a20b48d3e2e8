import SatoshiNet.Chain.Anchor

/-!
The order of transactions in a block: the class of a transaction is read from its output scripts,
and a block must hold its transactions class by class.  The payload formats are parameters.
-/

namespace SatoshiNet.Mining

open Lib Wire Chain List

inductive TxType
  | deploy | invoke | result | coinbaseStateRoot
deriving DecidableEq

def TxType.code : TxType → ℕ
  | .deploy => 1
  | .invoke => 2
  | .result => 3
  | .coinbaseStateRoot => 4

def contractTypeTemplate : UInt8 := 1

def contractTypeEVM : UInt8 := 2

def contractTypeAgent : UInt8 := 3

structure TxClass where
  contractType : UInt8
  txType : TxType
  priority : ℕ
  gasLimit : ℤ
deriving DecidableEq

def TxClass.isWork (c : TxClass) : Bool := c.txType == .deploy || c.txType == .invoke

def TxClass.isResult (c : TxClass) : Bool := c.txType == .result

inductive ClassifyError
  | mixedOutputTypes | multipleSingletonOutputs | contractScript | payload | unknownContractType
deriving DecidableEq

abbrev ClassifyM := Except ClassifyError

structure PayloadLib where
  (deployGas invokeGas : Bytes → Option ℤ)
  decodesStateRoot : Bytes → Bool

def maxNullDataPayloadLen : ℕ := 512 - 8

/-- The content of the payload token; the number opcodes stand for one byte. -/
def payloadContent (token : Token) : Option Bytes :=
  if 1 ≤ token.opcode ∧ token.opcode ≤ 0x4e then some token.data
  else if token.opcode = 0 then some [0]
  else if token.opcode = 0x4f then some [0x81]
  else if 0x51 ≤ token.opcode ∧ token.opcode ≤ 0x60 then some [token.opcode - 0x50]
  else none

def contentTxType (contentType : ℤ) : Option TxType :=
  if contentType = 31 then some .deploy
  else if contentType = 32 then some .invoke
  else if contentType = 33 then some .result
  else if contentType = 34 then some .coinbaseStateRoot
  else none

def readNullDataScript (script : Script) : Option (TxType × Bytes) := do
  let ret ← nextToken script
  let magic ← nextToken ret.rest
  let kind ← nextToken magic.rest
  let token ← nextToken kind.rest
  let content ← payloadContent token
  let txType ← contentTxType (extractInt64FromScript kind.opcode kind.data % 256)
  if ret.opcode = opReturn ∧ magic.opcode = 0x60 ∧ kind.data.length ≤ 8 ∧
      content.length ≤ maxNullDataPayloadLen then
    some (txType, content)
  else none

def contractScriptMagic : Bytes := [0x43, 0x54]

def parseContractPkScript (pkScript : Script) : ClassifyM (Option UInt8) :=
  let payloadLen := (pkScript.getD 5 0).toNat
  let payloadEnd := 6 + payloadLen
  if pkScript.length < 11 then .ok none
  else if pkScript.getD 0 0 ≠ 0 ∨ pkScript.getD 1 0 ≠ 0x63 ∨ pkScript.getD 2 0 ≠ 2 ∨
      (pkScript.drop 3).take 2 ≠ contractScriptMagic then .ok none
  else if payloadLen < 3 ∨ pkScript.length ≠ payloadEnd + 2 ∨
      pkScript.getD payloadEnd 0 ≠ 0x68 ∨ pkScript.getD (payloadEnd + 1) 0 ≠ 0 then .ok none
  else if pkScript.getD 6 0 ≠ 1 ∨ pkScript.getD 7 0 = 0 then .error .contractScript
  else .ok (some (pkScript.getD 7 0))

/-- One output: payloads of one type are put together, and only work may be split over several. -/
def collectPayload (found : Option (TxType × Bytes)) (out : TxOut) :
    ClassifyM (Option (TxType × Bytes)) :=
  match readNullDataScript out.pkScript, found with
  | none, _ => .ok found
  | some (txType, content), none => .ok (some (txType, content))
  | some (nextType, content), some (txType, payload) =>
    if txType ≠ nextType then .error .mixedOutputTypes
    else if txType ≠ .deploy ∧ txType ≠ .invoke then .error .multipleSingletonOutputs
    else .ok (some (txType, payload ++ content))

variable (tx : Tx) (contractType : UInt8)

def collectBlockOrderPayload : ClassifyM (Option (TxType × Bytes)) :=
  tx.txOut.foldlM collectPayload none

/-- A script that announces contract work, whether or not its payload can be read. -/
def hasContractPayloadHeader (script : Script) : Bool :=
  (do
    let ret ← nextToken script
    let magic ← nextToken ret.rest
    let kind ← nextToken magic.rest
    some (decide (ret.opcode = opReturn ∧ magic.opcode = 0x60 ∧ (8 < kind.data.length ∨
      (contentTxType (extractInt64FromScript kind.opcode kind.data)).isSome)))).getD false

def classifyPayload (found : Option (TxType × Bytes)) (out : TxOut) :
    ClassifyM (Option (TxType × Bytes)) :=
  if (readNullDataScript out.pkScript).isNone && hasContractPayloadHeader out.pkScript then
    .error .payload
  else collectPayload found out

def hasContractPayload : ClassifyM Bool := do
  let found ← tx.txOut.foldlM classifyPayload none
  .ok found.isSome

def inferContractTypeFromOutputs : Option UInt8 :=
  tx.txOut.findSome? fun out =>
    match parseContractPkScript out.pkScript with
    | .ok contractType => contractType
    | .error _ => none

def priorityForContractType : ℕ :=
  if contractType = contractTypeTemplate then 1
  else if contractType = contractTypeEVM then 2
  else if contractType = contractTypeAgent then 3
  else 0

def evmDefaultInvokeGas : ℤ := 1000000

def invokeBaseGas : ℤ := 100000

def defaultInvokeGasForType : ℤ :=
  if contractType = contractTypeEVM then evmDefaultInvokeGas else invokeBaseGas

def findDefaultInvokeOutputs : ClassifyM (List UInt8) := do
  if ← hasContractPayload tx then .ok []
  else do
    let types ← tx.txOut.mapM fun out => parseContractPkScript out.pkScript
    .ok ((types.filterMap id).filter (· = contractType))

def classifyDefaultFor (tx : Tx) : List UInt8 → ClassifyM (Option TxClass)
  | [] => .ok none
  | contractType :: rest => do
    let outputs ← findDefaultInvokeOutputs tx contractType
    if outputs = [] then classifyDefaultFor tx rest
    else .ok (some ⟨contractType, .invoke, priorityForContractType contractType,
      defaultInvokeGasForType contractType⟩)

def classifyDefaultInvokeForBlockOrder : ClassifyM (Option TxClass) :=
  classifyDefaultFor tx [contractTypeTemplate, contractTypeEVM, contractTypeAgent]

section Classify

variable (lib : PayloadLib)

def gasLimitFor (contractType : UInt8) (gas : Option ℤ) : ClassifyM ℤ :=
  if priorityForContractType contractType = 0 then .error .unknownContractType
  else orError gas .payload

def workGasLimit (txType : TxType) (contractType : UInt8) (payload : Bytes) : ClassifyM ℤ :=
  match txType with
  | .deploy => gasLimitFor contractType (lib.deployGas payload)
  | .invoke => gasLimitFor contractType (lib.invokeGas payload)
  | .result | .coinbaseStateRoot => .ok 0

/-- Results and state roots that pay to no contract are taken for template ones. -/
def payloadContractType (txType : TxType) (tx : Tx) : Option UInt8 :=
  match inferContractTypeFromOutputs tx, txType with
  | some contractType, _ => some contractType
  | none, .result | none, .coinbaseStateRoot => some contractTypeTemplate
  | none, .deploy | none, .invoke => none

def classifyTxForBlockOrder (tx : Tx) : ClassifyM (Option TxClass) := do
  let found ← collectBlockOrderPayload tx
  match found with
  | none => classifyDefaultInvokeForBlockOrder tx
  | some (txType, payload) =>
    match payloadContractType txType tx with
    | none => .ok none
    | some contractType => do
      let gasLimit ← workGasLimit lib txType contractType payload
      .ok (some ⟨contractType, txType, priorityForContractType contractType, gasLimit⟩)

inductive OrderError
  | coinbaseStateRoot
  | malformed (index : ℕ) (e : ClassifyError)
  | nonContractAfterContract (index : ℕ)
  | stateRootOutsideCoinbase (index : ℕ)
  | afterResult (index : ℕ)
  | priority (index : ℕ)
deriving DecidableEq

def findCoinbaseStateRoot (tx : Tx) : Except OrderError Unit :=
  let roots := tx.txOut.filterMap fun out =>
    match readNullDataScript out.pkScript with
    | some (.coinbaseStateRoot, content) => some content
    | _ => none
  match roots with
  | [] => .ok ()
  | [content] => if lib.decodesStateRoot content then .ok () else .error .coinbaseStateRoot
  | _ :: _ :: _ => .error .coinbaseStateRoot

structure OrderState where
  (seenContract seenResult : Bool)
  highestWorkPriority : ℕ

def checkOrderStep (s : OrderState) (index : ℕ) (tx : Tx) : Except OrderError OrderState := do
  let found ← (classifyTxForBlockOrder lib tx).mapError (OrderError.malformed index)
  match found with
  | none => if s.seenContract then .error (.nonContractAfterContract index) else .ok s
  | some c =>
    if c.txType = .coinbaseStateRoot then .error (.stateRootOutsideCoinbase index)
    else if s.seenResult && !c.isResult then .error (.afterResult index)
    else if c.isResult then .ok { s with seenResult := true, seenContract := true }
    else if c.priority < s.highestWorkPriority then .error (.priority index)
    else .ok ⟨true, s.seenResult, max s.highestWorkPriority c.priority⟩

def checkOrderFrom : OrderState → ℕ → List Tx → Except OrderError Unit
  | _, _, [] => .ok ()
  | s, index, tx :: rest => do
    let s ← checkOrderStep lib s index tx
    checkOrderFrom s (index + 1) rest

def checkBlockOrder : List Tx → Except OrderError Unit
  | [] => .ok ()
  | coinbaseTx :: rest => do
    findCoinbaseStateRoot lib coinbaseTx
    checkOrderFrom lib ⟨false, false, 0⟩ 1 rest

end Classify

/-! ### Work and ordinary transactions are in order when their ranks are -/

section Rank

variable {lib : PayloadLib}

def rank (lib : PayloadLib) (tx : Tx) : ℕ :=
  match classifyTxForBlockOrder lib tx with
  | .ok (some c) => c.priority
  | _ => 0

def Plain (lib : PayloadLib) (tx : Tx) : Prop :=
  ∃ found, classifyTxForBlockOrder lib tx = .ok found ∧ ∀ c, found = some c → c.isWork = true

theorem classifyDefaultFor_priority {tx : Tx} {c} :
    ∀ {types : List UInt8}, (∀ t ∈ types, 0 < priorityForContractType t) →
      classifyDefaultFor tx types = .ok (some c) → 0 < c.priority := by
  intro types
  induction types with
  | nil =>
    intro _ h
    cases Except.ok.inj h
  | cons contractType types ih =>
    intro hpos h
    simp only [classifyDefaultFor, bind_eq_ok] at h
    obtain ⟨outputs, -, h⟩ := h
    split at h
    · exact ih (fun t ht => hpos t (mem_cons_of_mem _ ht)) h
    · obtain rfl := Option.some.inj (Except.ok.inj h)
      exact hpos contractType mem_cons_self

theorem priority_pos {tx : Tx} {c} (h : classifyTxForBlockOrder lib tx = .ok (some c))
    (hwork : c.isWork = true) : 0 < c.priority := by
  simp only [classifyTxForBlockOrder, bind_eq_ok] at h
  obtain ⟨found, -, h⟩ := h
  split at h
  · exact classifyDefaultFor_priority (by decide +kernel) h
  rename_i txType payload
  split at h
  · cases Except.ok.inj h
  rename_i contractType _
  obtain ⟨gasLimit, hgas, h⟩ := bind_eq_ok.mp h
  obtain rfl := Option.some.inj (Except.ok.inj h)
  have hknown : priorityForContractType contractType ≠ 0 := by
    cases txType with
    | deploy => exact (ite_error_eq_ok.mp hgas).1
    | invoke => exact (ite_error_eq_ok.mp hgas).1
    | result => cases hwork
    | coinbaseStateRoot => cases hwork
  exact Nat.pos_of_ne_zero hknown

def orderState (highest : ℕ) : OrderState := ⟨decide (0 < highest), false, highest⟩

theorem checkOrderStep_iff {tx : Tx} (hplain : Plain lib tx) {highest index : ℕ} {s} :
    checkOrderStep lib (orderState highest) index tx = .ok s ↔
      highest ≤ rank lib tx ∧ s = orderState (rank lib tx) := by
  obtain ⟨found, hfound, hwork⟩ := hplain
  cases found with
  | none =>
    have hrank : rank lib tx = 0 := by rw [rank, hfound]
    simp only [checkOrderStep, hfound, hrank, Except.mapError, orderState, bind_eq_ok,
      Except.ok.injEq, exists_eq_left', ite_error_eq_ok, decide_eq_true_eq, Nat.not_lt]
    constructor
    · rintro ⟨h0, rfl⟩
      obtain rfl := Nat.le_zero.mp h0
      exact ⟨h0, rfl⟩
    · rintro ⟨h0, rfl⟩
      obtain rfl := Nat.le_zero.mp h0
      exact ⟨h0, rfl⟩
  | some c =>
    have hw := hwork c rfl
    have hpos := priority_pos hfound hw
    have hrank : rank lib tx = c.priority := by rw [rank, hfound]
    have hroot : c.txType ≠ .coinbaseStateRoot := by
      intro h
      rw [TxClass.isWork, h] at hw
      cases hw
    have hresult : c.isResult = false := by
      rw [TxClass.isWork, Bool.or_eq_true] at hw
      rw [TxClass.isResult]
      rcases hw with hw | hw <;> rw [eq_of_beq hw] <;> rfl
    have hseen : (orderState highest).seenResult = false := rfl
    have hhighest : (orderState highest).highestWorkPriority = highest := rfl
    simp only [checkOrderStep, hfound, hrank, Except.mapError, bind_eq_ok, Except.ok.injEq,
      exists_eq_left', hroot, if_false, hresult, hseen, hhighest, Bool.false_and,
      Bool.false_eq_true, ite_error_eq_ok, Nat.not_lt]
    refine and_congr_right fun hle => ?_
    rw [orderState]
    rw [max_eq_right hle, decide_eq_true hpos]
    exact eq_comm

theorem checkOrderFrom_iff (txs) : ∀ (highest index : ℕ), (∀ tx ∈ txs, Plain lib tx) →
    (checkOrderFrom lib (orderState highest) index txs = .ok () ↔
      (∀ tx ∈ txs, highest ≤ rank lib tx) ∧ txs.Pairwise fun t t' => rank lib t ≤ rank lib t') := by
  induction txs with
  | nil => intro highest index _; simp [checkOrderFrom]
  | cons tx txs ih =>
    intro highest index hplain
    have hrest := fun highest index =>
      ih highest index fun t ht => hplain t (mem_cons_of_mem _ ht)
    simp only [checkOrderFrom, bind_eq_ok, checkOrderStep_iff (hplain tx mem_cons_self),
      pairwise_cons, forall_mem_cons]
    constructor
    · rintro ⟨s, ⟨hle, rfl⟩, h⟩
      obtain ⟨hall, hpair⟩ := (hrest _ _).mp h
      exact ⟨⟨hle, fun t ht => hle.trans (hall t ht)⟩, hall, hpair⟩
    · rintro ⟨⟨hle, -⟩, hall, hpair⟩
      exact ⟨_, ⟨hle, rfl⟩, (hrest _ _).mpr ⟨hall, hpair⟩⟩

theorem checkBlockOrder_iff {coinbaseTx : Tx} {txs}
    (hcoinbase : findCoinbaseStateRoot lib coinbaseTx = .ok ()) (hplain : ∀ tx ∈ txs, Plain lib tx) :
    checkBlockOrder lib (coinbaseTx :: txs) = .ok () ↔
      txs.Pairwise fun t t' => rank lib t ≤ rank lib t' := by
  have h := checkOrderFrom_iff txs 0 1 hplain
  simp only [Nat.zero_le, implies_true, true_and] at h
  rw [checkBlockOrder, hcoinbase]
  exact h

end Rank

end SatoshiNet.Mining
