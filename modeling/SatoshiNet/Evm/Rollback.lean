import SatoshiNet.Evm.Runtime
import SatoshiNet.Evm.Undo

/-!
A failed execution leaves no trace: whatever the interpreter does from the snapshot at its start on,
it can return to its own snapshots only, and these are all later.
-/

namespace SatoshiNet.Evm

open Lib Contract Wire List
open Lib.Journaled (Since)

variable (lib : DecimalLib)

structure Underway (db₀ : MemoryStateDB) (x : Execution) : Prop where
  since : Since Undo.apply (SameState False) db₀ x.db
  taken : ∀ id ∈ x.taken, db₀.nextRevID < id

variable {db db₀ : MemoryStateDB} {x : Execution}

theorem since_update {m} (h : Since Undo.apply (SameState False) db₀ db) (hm : Exact False m) :
    Since Undo.apply (SameState False) db₀ (db.update m) :=
  Since.update h (fun _ _ _ hst htu => hst.trans htu) hm

namespace Execution

variable {lib} {env : VmEnv} {x : Execution}

inductive Touches (x y : Execution) : Prop
  | none (hdb : y.db = x.db) (htaken : y.taken = x.taken)
  | op (op : StateOp) (hop : op.native = true) (hdb : y.db = x.db.update op.act)
    (htaken : y.taken = x.taken)
  | snapshot (hdb : y.db = x.db.snapshot) (htaken : y.taken = x.taken ++ [x.db.nextRevID])
  | revert (id : ℕ) (hid : id ∈ x.taken) (hdb : y.db = Journaled.revertToSnapshot Undo.apply id x.db)
    (htaken : y.taken = x.taken)

variable (lib env x) in
theorem getBalance_touches (addr) :
    (x.getBalance lib env addr).db = x.db ∧ (x.getBalance lib env addr).taken = x.taken := by
  unfold getBalance
  split
  · exact ⟨rfl, rfl⟩
  · split <;> exact ⟨rfl, rfl⟩

theorem stateOp_touches (op) : Touches x (x.stateOp lib env op) := by
  cases op with
  | subBalance addr amount | addBalance addr amount =>
    obtain ⟨hdb, htaken⟩ := getBalance_touches lib env x addr
    unfold stateOp
    dsimp only
    split
    · exact .none hdb htaken
    · exact .none hdb htaken
  | selfDestruct addr => exact .none rfl rfl
  | registerTrigger _ | removeTrigger _ _ | setContractDeployer _ _ | registerContractDeployment _ _ _
  | closeContract _ => exact .none rfl rfl
  | _ => exact .op _ rfl rfl rfl

theorem onExit_touches (failed) : Touches x (x.onExit env failed) := by
  unfold onExit
  dsimp only
  split_ifs
  · exact .none rfl rfl
  · unfold captureIntents
    split <;> exact .none rfl rfl
  · unfold captureTrigger
    split
    · exact .none rfl rfl
    · split <;> exact .none rfl rfl
  · exact .none rfl rfl

variable (lib env x) in
theorem step_touches (e) : Touches x (x.step lib env e) := by
  cases e with
  | state op => exact stateOp_touches op
  | snapshot => exact .snapshot rfl rfl
  | revertToSnapshot k =>
    rw [step]
    cases hk : x.taken[k]? with
    | none => exact .none rfl rfl
    | some id => exact .revert id (mem_of_getElem? hk) rfl rfl
  | getBalance addr =>
    obtain ⟨hdb, htaken⟩ := getBalance_touches lib env x addr
    exact .none hdb htaken
  | getCode addr =>
    rw [step, getCode]
    split
    · exact .none rfl rfl
    · split <;> exact .none rfl rfl
  | enter typ source target input => exact .none rfl rfl
  | exit failed => exact onExit_touches failed
  | claimFunding input =>
    rw [step, claimFunding]
    split
    · exact .none rfl rfl
    · split
      · exact .none rfl rfl
      · split <;> exact .none rfl rfl

end Execution

theorem Underway.touches {y} (h : Underway db₀ x) (htouches : Execution.Touches x y) :
    Underway db₀ y := by
  cases htouches with
  | none hdb htaken => exact ⟨hdb ▸ h.since, htaken ▸ h.taken⟩
  | op op hop hdb htaken => exact ⟨hdb ▸ since_update h.since (exact_act op), htaken ▸ h.taken⟩
  | snapshot hdb htaken =>
    refine ⟨hdb ▸ h.since.snapshot, ?_⟩
    rw [htaken]
    exact forall_mem_append.mpr ⟨h.taken, forall_mem_singleton.mpr h.since.next⟩
  | revert id hid hdb htaken => exact ⟨hdb ▸ h.since.revert_later (h.taken id hid), htaken ▸ h.taken⟩

theorem Underway.run (h : Underway db₀ x) (env) (events) : Underway db₀ (x.run lib env events) := by
  induction events generalizing x with
  | nil => exact h
  | cons e events ih => exact ih (h.touches (Execution.step_touches lib env x e))

/-! ### The start and the end -/

variable (sha256 : Bytes → Hash) (abi : AbiLib) (r : Runtime) (req : ExecutionRequest)
  (vm : VmAnswer) (bindTrigger : Trigger → Trigger)

theorem since_start : Since Undo.apply (SameState False) r.state (req.start r vm) := by
  have hsnapshot : Since Undo.apply (SameState False) r.state r.state.snapshot :=
    Journaled.since_snapshot (SameState.refl False) r.state
  unfold ExecutionRequest.start
  apply since_update _ (exact_of_does fun s => does_prepare s _)
  cases req.nonce with
  | none => exact hsnapshot
  | some entry => exact since_update hsnapshot (exact_act (.setNonce entry.1 entry.2))

theorem since_registerTriggers (triggers) (h : Since Undo.apply (SameState False) db₀ db) :
    Since Undo.apply (SameState False) db₀ (Runtime.registerTriggers triggers db).1 := by
  induction triggers generalizing db with
  | nil => exact h
  | cons t triggers ih =>
    rw [Runtime.registerTriggers]
    cases db.data.registerTrigger t with
    | ok _ => exact ih (since_update h (exact_act (.registerTrigger t)))
    | error _ => exact h

structure Revertible (r r' : Runtime) : Prop where
  since : Since Undo.apply (SameState False) r.state r'.state
  intents : r.assetIntents <+: r'.assetIntents

theorem revertible_commit : Revertible r (req.commit lib abi r vm bindTrigger).1 := by
  have hsince : Since Undo.apply (SameState False) r.state (req.execute lib abi r vm).db :=
    (Underway.run lib ⟨since_start r req vm, forall_mem_nil _⟩ _ vm.events).since
  unfold ExecutionRequest.commit
  dsimp only
  split
  · exact ⟨hsince, prefix_rfl⟩
  · unfold Runtime.commitCapturedEffects
    split
    · exact ⟨hsince, prefix_rfl⟩
    · exact ⟨since_registerTriggers _ hsince, prefix_append _ _⟩

theorem revertible_outcome : Revertible r (req.outcome lib abi r vm bindTrigger).1 := by
  unfold ExecutionRequest.outcome
  dsimp only
  split <;> exact revertible_commit lib abi r req vm bindTrigger

theorem SameState.marshalBinary {inside : Prop} {s t} (h : SameState inside s t) :
    s.marshalBinary lib = t.marshalBinary lib := by
  unfold StateData.marshalBinary StateData.sortedTriggers
  rw [h.accounts.values, h.triggers]

structure NoTrace (sha256 : Bytes → Hash) (r r' : Runtime) (funding funding' : FundingAssetView) :
    Prop where
  stateRoot : r'.state.data.stateRoot lib sha256 = r.state.data.stateRoot lib sha256
  triggers : r'.state.data.triggers = r.state.data.triggers
  intents : r'.assetIntents = r.assetIntents
  claims : funding'.claimed = funding.claimed

theorem resultStatusFromError_eq_success {err} :
    resultStatusFromError err = .success ↔ err = none := by
  unfold resultStatusFromError
  split <;> simp

theorem noTrace_finish (herr : (req.finish lib abi r vm bindTrigger).2.2 ≠ none) :
    NoTrace lib sha256 r (req.finish lib abi r vm bindTrigger).1 req.funding
      (req.finish lib abi r vm bindTrigger).2.1 := by
  have hrevertible := revertible_outcome lib abi r req vm bindTrigger
  unfold ExecutionRequest.finish at herr ⊢
  dsimp only at herr ⊢
  cases hout : (req.outcome lib abi r vm bindTrigger).2 with
  | none =>
    rw [hout] at herr
    exact absurd rfl herr
  | some e =>
    have hsame := hrevertible.since.restores.1
    obtain ⟨more, hmore⟩ := hrevertible.intents
    refine ⟨?_, hsame.triggers, ?_, rfl⟩
    · show StateData.stateRoot _ _ _ = _
      unfold StateData.stateRoot
      rw [hsame.marshalBinary]
    · show take _ _ = _
      rw [← hmore, take_left]

theorem noTrace_result (hstatus : (req.result lib abi r vm bindTrigger).2.2.status ≠ .success) :
    NoTrace lib sha256 r (req.result lib abi r vm bindTrigger).1 req.funding
      (req.result lib abi r vm bindTrigger).2.1 := by
  unfold ExecutionRequest.result at hstatus ⊢
  split
  · exact ⟨rfl, rfl, rfl, rfl⟩
  · rename_i heq
    rw [heq] at hstatus
    apply noTrace_finish
    intro herr
    exact hstatus (resultStatusFromError_eq_success.mpr herr)

/-- Whatever the interpreter does and answers: after a call or a deployment that does not succeed, the
state root, the triggers, the intents and the claims are those from before. -/
theorem failed_execution_leaves_no_trace :
    (∀ req : CallRequest, (r.call lib abi req vm).2.2.status ≠ .success →
      NoTrace lib sha256 r (r.call lib abi req vm).1 req.execution.funding (r.call lib abi req vm).2.1) ∧
    ∀ req : DeployRequest, (r.deploy lib abi req vm).2.2.status ≠ .success →
      NoTrace lib sha256 r (r.deploy lib abi req vm).1 req.execution.funding
        (r.deploy lib abi req vm).2.1 :=
  ⟨fun req => noTrace_result lib sha256 abi r req.execution vm _,
    fun req => noTrace_result lib sha256 abi r req.execution vm _⟩

theorem reverted_call_leaves_no_trace : ∃ (r : Runtime) (abi : AbiLib) (req : CallRequest) (vm : VmAnswer),
    (r.call Reference.decimalLib abi req vm).2.2.status = .revert ∧
    ((req.execution.execute Reference.decimalLib abi r vm).db.data.account 7).isSome ∧
    NoTrace Reference.decimalLib (fun _ => 1) r (r.call Reference.decimalLib abi req vm).1
      req.execution.funding (r.call Reference.decimalLib abi req vm).2.1 := by
  let r : Runtime := ⟨{ data := {} }, [], none, [], ⟨0, none⟩, none, 0⟩
  let abi : AbiLib := ⟨fun _ => none, fun _ => none, fun _ => none⟩
  let req : CallRequest := ⟨⟨[], 100, 0, none, [], none, ⟨5, 3⟩⟩, 1, 2⟩
  let vm : VmAnswer := ⟨[.enter 0xf1 1 2 [], .snapshot, .state (.setNonce 7 1), .exit true], [], 0, [], 0,
    some .executionReverted⟩
  have hstatus : (r.call Reference.decimalLib abi req vm).2.2.status = .revert := rfl
  refine ⟨r, abi, req, vm, hstatus, by decide, ?_⟩
  apply (failed_execution_leaves_no_trace Reference.decimalLib (fun _ => 1) abi r vm).1 req
  rw [hstatus]
  decide

/-! ### What an execution claims -/

section Claims

variable {lib} {v : FundingAssetView} {env : VmEnv}

variable (lib) in
def FundingAssetView.Covers (v : FundingAssetView) (claimed : Std.ExtTreeMap Text Decimal) : Prop :=
  ∀ name amount, claimed[name]? = some amount →
    ∃ available, v.fundingAssetAmount lib name = .ok available ∧ lib.cmp amount available ≠ .gt

variable (lib) in
structure WithinFunding (v : FundingAssetView) (x : Execution) : Prop where
  amount : ∀ name, x.funding.fundingAssetAmount lib name = v.fundingAssetAmount lib name
  claimed : v.Covers lib x.funding.claimed
  frames : ∀ frame ∈ x.frames, v.Covers lib frame.fundingSnapshot

theorem covers_empty : v.Covers lib ∅ := by
  intro name amount h
  simp at h

theorem WithinFunding.claim (h : WithinFunding lib v x) {name amount w}
    (hclaim : x.funding.claimFundingAsset lib name amount = .ok w) :
    WithinFunding lib v { x with funding := w } := by
  simp only [FundingAssetView.claimFundingAsset, bind_eq_ok, require_eq_ok, decide_eq_true_eq] at hclaim
  obtain ⟨_, _, _, _, available, havailable, _, hle, hclaim⟩ := hclaim
  cases hclaim
  refine { h with claimed := fun n a hn => ?_ }
  rw [Std.ExtTreeMap.getElem?_insert] at hn
  split_ifs at hn with heq
  · cases hn
    obtain rfl := Std.LawfulEqOrd.eq_of_compare heq
    exact ⟨available, (h.amount name).symm.trans havailable, hle⟩
  · exact h.claimed n a hn

theorem WithinFunding.step (h : WithinFunding lib v x) (e) :
    WithinFunding lib v (x.step lib env e) := by
  cases e with
  | enter typ source target input =>
    exact { h with frames := forall_mem_append.mpr ⟨h.frames, forall_mem_singleton.mpr h.claimed⟩ }
  | exit failed =>
    -- a frame that fails goes back to the claims from before it
    have hlast : v.Covers lib (x.frames.getLast?.getD {}).fundingSnapshot := by
      cases hframe : x.frames.getLast? with
      | none => exact covers_empty
      | some frame => exact h.frames frame (mem_of_getLast? hframe)
    have hframes := fun frame hframe => h.frames frame (mem_of_mem_dropLast hframe)
    rw [Execution.step]
    unfold Execution.onExit Execution.captureIntents Execution.captureTrigger
    dsimp only
    repeat' split
    all_goals first
      | exact { h with frames := hframes }
      | exact { h with claimed := hlast, frames := hframes }
  | claimFunding input =>
    rw [Execution.step, Execution.claimFunding]
    repeat' split
    all_goals first | exact h | exact h.claim ‹_›
  | _ =>
    unfold Execution.step Execution.stateOp Execution.getBalance Execution.getCode
    dsimp only
    repeat' split
    all_goals exact { h with }

/-- Whatever the interpreter does and however it nests and reverts its calls: what an execution has
claimed of an asset in the end is at most what its funding carries of it beyond the gas reserve. -/
theorem claims_within_funding (abi : AbiLib) (r : Runtime) (req : ExecutionRequest) (vm : VmAnswer)
    (bindTrigger : Trigger → Trigger) :
    req.funding.Covers lib (req.result lib abi r vm bindTrigger).2.1.claimed := by
  have hrun : WithinFunding lib req.funding (req.execute lib abi r vm) :=
    foldlRecOn vm.events _ ⟨fun _ => rfl, covers_empty, forall_mem_nil _⟩ fun x hx e _ => hx.step e
  have hfinish : req.funding.Covers lib (req.finish lib abi r vm bindTrigger).2.1.claimed := by
    unfold ExecutionRequest.finish
    dsimp only
    split
    · exact covers_empty
    · exact hrun.claimed
  unfold ExecutionRequest.result
  split
  · exact covers_empty
  · exact hfinish

end Claims

end SatoshiNet.Evm
