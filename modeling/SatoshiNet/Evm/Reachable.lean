import SatoshiNet.Evm.Rollback

/-!
The states that the execution of blocks can reach, and what holds in all of them: the flags of the
accounts, the ranges of their balances, and the limits and forms of the triggers.
-/

namespace SatoshiNet.Evm

open Lib Contract Wire
open Std (ExtTreeMap)

section Sound

abbrev Sound (s : StateData) : Prop := Holds SoundAccount s

variable {Q : MemoryAccount → Prop} {s : StateData}

theorem Holds.congr {inside : Prop} {t} (hsame : SameState inside s t) (ht : Holds Q t) :
    Holds Q s where
  accounts {addr _} hacct := ht.accounts ((hsame.accounts.lookup addr).symm.trans hacct)
  triggers := hsame.triggers ▸ ht.triggers

theorem soundAccount_new : SoundAccount {} :=
  ⟨by decide, ⟨by decide, fun _ ha => absurd ha List.not_mem_nil⟩, rfl⟩

theorem storableAccount_new : StorableAccount {} := ⟨soundAccount_new, rfl⟩

variable {change : MemoryAccount → MemoryAccount} {t : Trigger}
  {triggers : ExtTreeMap TriggerKey Trigger}

theorem Holds.modify (h : Holds Q s) (ref : ℕ) (hchange : ∀ acct, Q acct → Q (change acct)) :
    Holds Q { s with accounts := s.accounts.modify ref change } where
  accounts {addr acct} hacct := by
    rcases s.accounts.lookup_modify ref change addr with hsame | hmap
    · exact h.accounts (hsame.symm.trans hacct)
    · obtain ⟨old, hold, rfl⟩ := Option.map_eq_some_iff.mp (hmap.symm.trans hacct)
      exact hchange old (h.accounts hold)
  triggers := h.triggers

theorem Holds.ensure (h : Holds Q s) (hnew : Q {}) (addr) : Holds Q (s.ensure addr).2.1 := by
  unfold StateData.ensure
  cases s.accounts.table[addr]? with
  | some ref => exact h
  | none =>
    refine ⟨fun {a acct} hacct => ?_, h.triggers⟩
    have hlookup : (s.accounts.alloc addr {}).lookup a = some acct := hacct
    rw [PointerTable.lookup_alloc] at hlookup
    split at hlookup
    · exact Option.some.inj hlookup ▸ hnew
    · exact h.accounts hlookup

theorem Holds.onAccount (h : Holds Q s) (hnew : Q {}) (addr) {undo}
    (hchange : ∀ acct, Q acct → Q (change acct)) :
    Holds Q (StateData.onAccount addr change undo s).1 :=
  (h.ensure hnew addr).modify _ hchange

theorem Sound.setState (h : Sound s) (addr key value) :
    Sound (StateData.setState addr key value s).1 := by
  have horiginal : Sound (s.originalState addr key) := by
    unfold StateData.originalState
    dsimp only
    split <;> exact { h with }
  exact horiginal.onAccount soundAccount_new addr
    fun acct hacct => { hacct with }

theorem Storable.registerContractDeployment (h : Storable s) (addr deployer flags) :
    Storable (orUnchanged s (s.registerContractDeployment addr deployer flags)).1 := by
  cases hresult : s.registerContractDeployment addr deployer flags with
  | error _ => exact h
  | ok result =>
    simp only [StateData.registerContractDeployment, bind_eq_ok] at hresult
    obtain ⟨_, hflags, _, -, ref, -, _, -, hresult⟩ := hresult
    cases hresult
    refine h.modify ref fun acct hacct => ⟨⟨hflags, hacct.managed, hacct.selfDestruct⟩, ?_⟩
    exact congrArg (fun a : MemoryAccount => { a with deployerAddr := deployer, deployFlags := flags })
      hacct.ended

theorem StorableTriggers.erase (h : StorableTriggers triggers) (key) :
    StorableTriggers (triggers.erase key) where
  each {k t} hk := by
    rw [ExtTreeMap.getElem?_erase] at hk
    split at hk
    · cases hk
    · exact h.each hk
  total := ExtTreeMap.size_erase_le.trans h.total
  perContract contract := by
    have hle := countP_keys_erase_le triggers key (fun key => key.contract = contract)
    rw [List.countP_eq_length_filter, List.countP_eq_length_filter] at hle
    exact hle.trans (h.perContract contract)

structure TriggerForm (t : Trigger) : Prop where
  gas : t.gasLimit < 2 ^ 63
  height : t.height < 2 ^ 63
  contract : validateContractAddress t.contract = true →
    ∃ hrp version typ hash, newContractAddress hrp version typ hash = some t.contract

theorem StorableTriggers.insert (h : StorableTriggers triggers) {key} (ht : StorableTrigger key t)
    (htotal : key ∈ triggers ∨ triggers.size < maxEVMTriggersTotal)
    (hcontract : key ∈ triggers ∨ (triggers.keys.filter (·.contract = key.contract)).length <
      maxEVMTriggersPerContract) : StorableTriggers (triggers.insert key t) where
  each {k u} hk := by
    rw [ExtTreeMap.getElem?_insert] at hk
    split_ifs at hk with heq
    · obtain rfl := Std.LawfulEqOrd.eq_of_compare heq
      exact Option.some.inj hk ▸ ht
    · exact h.each hk
  total := by
    have hold := h.total
    rw [ExtTreeMap.size_insert]
    rcases htotal with hmem | hlt
    · rw [if_pos (ExtTreeMap.contains_iff_mem.mpr hmem)]
      exact hold
    · split
      · exact hold
      · omega
  perContract contract := by
    have hold := h.perContract contract
    have hcount := countP_keys_insert triggers key t (fun key => key.contract = contract)
    rw [List.countP_eq_length_filter, List.countP_eq_length_filter] at hcount
    rw [hcount]
    split_ifs with hnew
    · rcases hcontract with hmem | hlt
      · exact absurd hmem hnew.1
      · rw [← of_decide_eq_true hnew.2]
        omega
    · exact hold

theorem Holds.registerTrigger (h : Holds Q s) (ht : TriggerForm t) :
    Holds Q (orUnchanged s (s.registerTrigger t)).1 := by
  cases hresult : s.registerTrigger t with
  | error _ => exact h
  | ok result =>
    simp only [StateData.registerTrigger, bind_eq_ok, require_eq_ok, Bool.or_eq_true,
      decide_eq_true_eq] at hresult
    obtain ⟨_, hvalid, _, hgas, _, htotal, _, hcontract, hresult⟩ := hresult
    cases hresult
    have hcontractValid := (Trigger.validate_eq_ok.mp hvalid).2.1
    have hmem : ∀ {p : Prop}, (s.triggers[newTriggerKey t.contract t.id]?.isSome = true ∨ p) →
        (newTriggerKey t.contract t.id ∈ s.triggers ∨ p) := by
      intro p hp
      rwa [ExtTreeMap.isSome_getElem?_iff_mem] at hp
    refine ⟨h.accounts, h.triggers.insert ?_ (hmem htotal) (hmem hcontract)⟩
    exact ⟨rfl, hvalid, hgas, ht.gas, ht.height, ht.contract hcontractValid⟩

theorem Holds.removeTrigger (h : Holds Q s) (contract) (id) :
    Holds Q (StateData.removeTrigger contract id s).1 := by
  unfold StateData.removeTrigger
  dsimp only
  cases s.triggers[newTriggerKey contract id]? with
  | none => exact h
  | some previous => exact ⟨h.accounts, h.triggers.erase _⟩

theorem Holds.removeTriggers (h : Holds Q s) (triggers) :
    Holds Q (StateData.removeTriggers triggers s).1 := by
  induction triggers generalizing s with
  | nil => exact h
  | cons t ts ih => exact ih (h.removeTrigger t.contract t.id)

theorem Storable.closeContract (h : Storable s) (addr) :
    Storable (StateData.closeContract addr s).1 := by
  have hclosed : Storable (StateData.onAccount addr ({ · with closed := true })
      (fun acct => .closed acct.closed) s).1 := by
    refine h.onAccount storableAccount_new addr fun acct hacct =>
      ⟨{ hacct with }, ?_⟩
    exact congrArg (fun a : MemoryAccount => { a with closed := true }) hacct.ended
  exact hclosed.removeTriggers _

/-! ### The operations of the interpreter -/

theorem Sound.native (h : Sound s) {op : StateOp} (hop : op.native = true) :
    Sound (op.act s).1 := by
  have hkeeps : ∀ {change : MemoryAccount → MemoryAccount},
      (∀ acct, (change acct).deployFlags = acct.deployFlags ∧ (change acct).managed = acct.managed ∧
        (change acct).selfDestruct = acct.selfDestruct) →
      ∀ acct, SoundAccount acct → SoundAccount (change acct) := by
    intro change hchange acct hacct
    obtain ⟨hflags, hmanaged, hdestruct⟩ := hchange acct
    exact ⟨hflags ▸ hacct.flags, hmanaged ▸ hacct.managed, hdestruct ▸ hacct.selfDestruct⟩
  cases op with
  | createAccount addr => exact h.ensure soundAccount_new addr
  | setState addr key value => exact h.setState addr key value
  | createContract addr | setNonce addr nonce | setCode addr code | touch addr =>
    exact h.onAccount soundAccount_new addr (hkeeps fun _ => ⟨rfl, rfl, rfl⟩)
  | setTransientState addr key value =>
    exact h.onAccount soundAccount_new addr (hkeeps fun _ => ⟨rfl, rfl, rfl⟩)
  | addRefund v | subRefund v | addLog log => exact { h with }
  | addAddressToAccessList addr =>
    simp only [StateOp.act, StateData.addAddressToAccessList]
    split <;> exact { h with }
  | addSlotToAccessList addr slot =>
    simp only [StateOp.act, StateData.addSlotToAccessList, Journaled.andThen, StateData.addSlot,
      StateData.addAddressToAccessList]
    split <;> split <;> try split
    all_goals exact { h with }
  | _ => cases hop

end Sound

open List
open Lib.Journaled (Keeps Since)

variable {lib : DecimalLib}

abbrev KeepsSound (db : MemoryStateDB) : Prop := Keeps Undo.apply (SameState False) Sound db

variable {bindTrigger : Trigger → Trigger} {db : MemoryStateDB} {r : Runtime} {s : StateData}
  {m : StateData → Changed} {x : Execution}

theorem KeepsSound.update (h : KeepsSound db) (hm : Exact False m) (hsound : Sound (m db.data).1) :
    KeepsSound (db.update m) :=
  Keeps.update (R := SameState False) (fun _ _ hsame ht => Holds.congr hsame ht) hm hsound h

/-! ### What the interpreter keeps -/

theorem contractAddressFromGeth_form (hrp : Text) (addr)
    (h : validateContractAddress (contractAddressFromGeth hrp addr) = true) :
    ∃ hrp' version typ hash,
      newContractAddress hrp' version typ hash = some (contractAddressFromGeth hrp addr) := by
  unfold contractAddressFromGeth at h ⊢
  generalize hnew : newContractAddress _ _ _ _ = found at h ⊢
  cases found with
  | none => exact absurd h (by decide)
  | some c => exact ⟨_, _, _, _, hnew⟩

theorem TriggerForm.bind {t} (h : TriggerForm t) (hrp : Text) (addr) :
    TriggerForm { t with contract := contractAddressFromGeth hrp addr } :=
  ⟨h.gas, h.height, contractAddressFromGeth_form hrp addr⟩

namespace Execution

variable {env : VmEnv} {x : Execution}

theorem getBalance_captured (addr) :
    (x.getBalance lib env addr).capturedTriggers = x.capturedTriggers := by
  unfold getBalance
  split
  · rfl
  · split <;> rfl

theorem onExit_captured (failed) (h : ∀ t ∈ x.capturedTriggers, TriggerForm t) :
    ∀ t ∈ (x.onExit env failed).capturedTriggers, TriggerForm t := by
  unfold onExit
  dsimp only
  split_ifs
  · exact fun t ht => h t (mem_of_mem_take ht)
  · unfold captureIntents
    split <;> exact h
  · unfold captureTrigger
    split
    · exact h
    · split
      · exact h
      · exact forall_mem_append.mpr
          ⟨h, forall_mem_singleton.mpr
            ⟨BitVec.toInt_lt, BitVec.toInt_lt, contractAddressFromGeth_form _ _⟩⟩
  · exact h

theorem step_captured (e) (h : ∀ t ∈ x.capturedTriggers, TriggerForm t) :
    ∀ t ∈ (x.step lib env e).capturedTriggers, TriggerForm t := by
  cases e with
  | state op =>
    have hsame : (x.stateOp lib env op).capturedTriggers = x.capturedTriggers := by
      cases op with
      | subBalance addr amount | addBalance addr amount =>
        unfold stateOp
        dsimp only
        split <;> exact getBalance_captured addr
      | _ => rfl
    rw [step, hsame]
    exact h
  | snapshot => exact h
  | revertToSnapshot k =>
    rw [step]
    split <;> exact h
  | getBalance addr =>
    rw [step, getBalance_captured]
    exact h
  | getCode addr =>
    rw [step, getCode]
    split
    · exact h
    · split <;> exact h
  | enter typ source target input => exact h
  | exit failed => exact onExit_captured failed h
  | claimFunding input =>
    rw [step, claimFunding]
    split
    · exact h
    · split
      · exact h
      · split <;> exact h

end Execution

structure Ongoing (x : Execution) : Prop where
  keeps : KeepsSound x.db
  captured : ∀ t ∈ x.capturedTriggers, TriggerForm t

theorem Ongoing.step (h : Ongoing x) (env e) : Ongoing (x.step lib env e) := by
  refine ⟨?_, Execution.step_captured e h.captured⟩
  cases Execution.step_touches lib env x e with
  | none hdb => exact hdb ▸ h.keeps
  | op op hop hdb => exact hdb ▸ h.keeps.update (exact_act op) (h.keeps.data.native hop)
  | snapshot hdb => exact hdb ▸ h.keeps.snapshot
  | revert id hid hdb => exact hdb ▸ h.keeps.revertToSnapshot id

theorem Ongoing.run (h : Ongoing x) (env) (events) : Ongoing (x.run lib env events) := by
  induction events generalizing x with
  | nil => exact h
  | cons e events ih => exact ih (h.step env e)

/-! ### From the start to the end of an execution -/

theorem Sound.prepare (h : Sound s) (addresses) : Sound (StateData.prepare addresses s).1 := by
  unfold StateData.prepare
  have hcleared : Sound { s with logs := [], accessList := ∅, original := ∅ } := { h with }
  generalize { s with logs := [], accessList := ∅, original := ∅ } = t at hcleared
  induction addresses generalizing t with
  | nil => exact hcleared
  | cons addr addresses ih =>
    have hadded : Sound ((StateOp.addAddressToAccessList addr).act t).1 := hcleared.native rfl
    exact ih _ hadded

theorem keeps_start (h : KeepsSound r.state) (req : ExecutionRequest) (vm : VmAnswer) :
    KeepsSound (req.start r vm) := by
  have hprepare : ∀ {db : MemoryStateDB}, KeepsSound db →
      KeepsSound (db.update (StateData.prepare (req.accessed ++ vm.precompiles))) := fun hdb =>
    hdb.update (exact_of_does fun s => does_prepare s _) (hdb.data.prepare _)
  unfold ExecutionRequest.start
  apply hprepare
  cases req.nonce with
  | none => exact h.snapshot
  | some entry =>
    have hset : Sound ((StateOp.setNonce entry.1 entry.2).act r.state.data).1 := h.data.native rfl
    exact KeepsSound.update h.snapshot (exact_act (.setNonce entry.1 entry.2)) hset

variable (lib) in
theorem keeps_registerTriggers (h : KeepsSound db) {triggers}
    (htriggers : ∀ t ∈ triggers, TriggerForm t) :
    KeepsSound (Runtime.registerTriggers triggers db).1 := by
  induction triggers generalizing db with
  | nil => exact h
  | cons t triggers ih =>
    obtain ⟨ht, htriggers⟩ := forall_mem_cons.mp htriggers
    rw [Runtime.registerTriggers]
    cases db.data.registerTrigger t with
    | ok _ => exact ih (h.update (exact_act (.registerTrigger t)) (h.data.registerTrigger ht)) htriggers
    | error _ => exact h

variable (lib) in
theorem keeps_outcome (h : KeepsSound r.state) (abi : AbiLib) (req : ExecutionRequest)
    (vm : VmAnswer) (hbind : ∀ t, TriggerForm t → TriggerForm (bindTrigger t)) :
    KeepsSound (req.outcome lib abi r vm bindTrigger).1.state := by
  have hongoing : Ongoing (req.execute lib abi r vm) :=
    Ongoing.run ⟨keeps_start h req vm, forall_mem_nil _⟩ _ vm.events
  have hbound : ∀ t ∈ (req.execute lib abi r vm).capturedTriggers.map bindTrigger, TriggerForm t := by
    intro t ht
    obtain ⟨u, hu, rfl⟩ := mem_map.mp ht
    exact hbind u (hongoing.captured u hu)
  have hcommit : KeepsSound (req.commit lib abi r vm bindTrigger).1.state := by
    unfold ExecutionRequest.commit
    dsimp only
    split
    · exact hongoing.keeps
    · unfold Runtime.commitCapturedEffects
      split
      · exact hongoing.keeps
      · exact keeps_registerTriggers hongoing.keeps hbound
  unfold ExecutionRequest.outcome
  dsimp only
  split <;> exact hcommit

/-! ### The end of a transaction -/

def EndedAt (s : StateData) (ref : ℕ) : Prop :=
  ∀ acct, s.accounts.deref ref = some acct → acct.endTransaction = acct

theorem Sound.finaliseAccount (h : Sound s) (entry) :
    Sound (StateData.finaliseAccount entry s).1 := by
  unfold StateData.finaliseAccount
  dsimp only
  split
  · refine ⟨fun {a acct} hacct => ?_, h.triggers⟩
    have hlookup : (s.accounts.erase entry.1).lookup a = some acct := hacct
    rw [PointerTable.lookup_erase] at hlookup
    split at hlookup
    · cases hlookup
    · exact h.accounts hlookup
  · exact h.modify entry.2 fun _ hacct => { hacct with }

/-- No account appears, and what has ended has ended. -/
abbrev Ending (s t : StateData) : Prop :=
  (∀ (addr : Address) (ref : ℕ), t.accounts.table[addr]? = some ref →
    s.accounts.table[addr]? = some ref) ∧ ∀ ref, EndedAt s ref → EndedAt t ref

theorem finaliseAccount_ends (entry s) : ∃ t, t = (StateData.finaliseAccount entry s).1 ∧
      Ending s t ∧ (t.accounts.table[entry.1]? = none ∨ EndedAt t entry.2) := by
  refine ⟨_, rfl, ?_⟩
  unfold StateData.finaliseAccount
  dsimp only
  split
  · refine ⟨⟨fun addr ref htable => ?_, fun ref hended => hended⟩, Or.inl ?_⟩
    · have herased : (s.accounts.table.erase entry.1)[addr]? = some ref := htable
      rw [Std.ExtTreeMap.getElem?_erase] at herased
      split at herased
      · cases herased
      · exact herased
    · show (s.accounts.table.erase entry.1)[entry.1]? = none
      exact Std.ExtTreeMap.getElem?_erase_self
  · have hderef : ∀ ref, (s.accounts.modify entry.2 MemoryAccount.endTransaction).deref ref =
        (s.accounts.deref ref).map fun acct => if entry.2 = ref then acct.endTransaction else acct := by
      intro ref
      exact getElem?_modify _ _ _ _
    refine ⟨⟨fun _ _ htable => htable, fun ref hended acct hacct => ?_⟩, Or.inr fun acct hacct => ?_⟩
    · obtain ⟨old, hold, rfl⟩ := Option.map_eq_some_iff.mp ((hderef ref).symm.trans hacct)
      split
      · rfl
      · exact hended old hold
    · obtain ⟨old, -, rfl⟩ := Option.map_eq_some_iff.mp ((hderef entry.2).symm.trans hacct)
      rw [if_pos rfl]
      rfl

theorem finaliseAccounts_ends (l : List (Address × ℕ)) (hs : Sound s) :
    ∃ t, t = (l.foldr (fun entry => Journaled.andThen (StateData.finaliseAccount entry))
        (fun s => (s, [])) s).1 ∧ Sound t ∧ Ending s t ∧
      ∀ e ∈ l, t.accounts.table[e.1]? = none ∨ EndedAt t e.2 := by
  induction l generalizing s with
  | nil => exact ⟨s, rfl, hs, ⟨fun _ _ h => h, fun _ h => h⟩, forall_mem_nil _⟩
  | cons e l ih =>
    obtain ⟨u, rfl, ⟨htable, hended⟩, hhead⟩ := finaliseAccount_ends e s
    obtain ⟨t, ht, hsound, ⟨htable', hended'⟩, htail⟩ := ih (hs.finaliseAccount e)
    refine ⟨t, ht, hsound, ⟨fun addr ref h => htable addr ref (htable' addr ref h),
      fun ref h => hended' ref (hended ref h)⟩, forall_mem_cons.mpr ⟨?_, htail⟩⟩
    rcases hhead with hnone | hend
    · refine Or.inl ?_
      cases hlookup : t.accounts.table[e.1]? with
      | none => rfl
      | some ref => exact absurd (hnone.symm.trans (htable' e.1 ref hlookup)) nofun
    · exact Or.inr (hended' e.2 hend)

theorem storable_finalise (hs : Sound s) : Storable s.finalise.1 := by
  obtain ⟨t, ht, hsound, ⟨htable, -⟩, hends⟩ := finaliseAccounts_ends s.accounts.table.toList hs
  have hfinal : s.finalise.1 = { t with refund := 0 } := by rw [ht]; rfl
  rw [hfinal]
  refine ⟨fun {addr acct} hacct => ⟨hsound.accounts hacct, ?_⟩, hsound.triggers⟩
  obtain ⟨ref, href, hderef⟩ := Option.bind_eq_some_iff.mp
    (show t.accounts.lookup addr = some acct from hacct)
  have hmem := Std.ExtTreeMap.mem_toList_iff_getElem?_eq_some.mpr (htable addr ref href)
  rcases hends _ hmem with hnone | hend
  · exact absurd (hnone.symm.trans href) nofun
  · exact hend acct hderef

/-! ### Between two executions -/

structure Settled (db : MemoryStateDB) : Prop where
  revisions : db.revisions = []
  journal : db.journal = []
  storable : Storable db.data

theorem Storable.sound (h : Storable s) : Sound s :=
  ⟨fun hacct => (h.accounts hacct).toSoundAccount, h.triggers⟩

theorem Settled.keeps (h : Settled db) : KeepsSound db :=
  Journaled.keeps_of_nil h.storable.sound h.journal h.revisions

theorem Settled.update (h : Settled db) (hm : Storable (m db.data).1) : Settled (db.update m) :=
  ⟨h.revisions, (if_pos h.revisions).trans h.journal, hm⟩

theorem settled_finish (h : Settled r.state) (abi : AbiLib) (req : ExecutionRequest)
    (vm : VmAnswer) (hbind : ∀ t, TriggerForm t → TriggerForm (bindTrigger t)) :
    Settled (req.finish lib abi r vm bindTrigger).1.state := by
  have hsince := (revertible_outcome lib abi r req vm bindTrigger).since
  have hkeeps := keeps_outcome lib h.keeps abi req vm hbind
  unfold ExecutionRequest.finish
  dsimp only
  split
  · obtain ⟨hsame, hjournal, hrevisions⟩ := hsince.restores
    exact ⟨hrevisions.trans h.revisions, hjournal.trans h.journal, Holds.congr hsame h.storable⟩
  -- The snapshot is found among the revisions, and it was taken with nothing in the journal.
  obtain ⟨fresh, hleft⟩ := Journaled.leaveSnapshot_of_some (fun _ s => s)
    (j := (req.outcome lib abi r vm bindTrigger).1.state.update StateData.finalise) hsince.find
  show Settled (Journaled.discardSnapshot _ _)
  rw [Journaled.discardSnapshot, hleft, h.journal]
  exact ⟨h.revisions, rfl, storable_finalise hkeeps.data⟩

theorem settled_result (h : Settled r.state) (abi : AbiLib) (req : ExecutionRequest)
    (vm : VmAnswer) (hbind : ∀ t, TriggerForm t → TriggerForm (bindTrigger t)) :
    Settled (req.result lib abi r vm bindTrigger).1.state := by
  unfold ExecutionRequest.result
  split
  · exact h
  · exact settled_finish h abi req vm hbind

/-! ### Runs of blocks -/

/-- The balance of a contract is written through a pointer, outside of the journal. -/
def StateData.setManaged (addr : Address) (b : ManagedBalance) (s : StateData) : StateData :=
  match s.accounts.table[addr]? with
  | none => s
  | some ref => { s with accounts := s.accounts.modify ref ({ · with managed := b }) }

/-- Accounts, triggers and logs are copied; the access list belongs to a transaction. -/
def StateData.clone (s : StateData) : StateData where
  accounts := s.accounts.clone
  triggers := s.triggers
  logs := s.logs
  refund := s.refund

/-- What block execution does to the state: it deploys and calls, it registers and closes contracts, it
removes the triggers that were called, it credits funding and settles results, and it goes on from the
state that was stored for an earlier block.  A block works on a clone, and a close that fails goes back
to one. -/
inductive Reachable (lib : DecimalLib) (abi : AbiLib) : MemoryStateDB → Prop
  | initial : Reachable lib abi { data := {} }
  | call {r : Runtime} (h : Reachable lib abi r.state) (req : CallRequest) (vm : VmAnswer) :
    Reachable lib abi (r.call lib abi req vm).1.state
  | deploy {r : Runtime} (h : Reachable lib abi r.state) (req : DeployRequest) (vm : VmAnswer) :
    Reachable lib abi (r.deploy lib abi req vm).1.state
  | register {db : MemoryStateDB} (h : Reachable lib abi db) (addr : Address) (deployer : Bytes)
    (flags : UInt32) :
    Reachable lib abi (db.update (StateOp.registerContractDeployment addr deployer flags).act)
  | close {db : MemoryStateDB} (h : Reachable lib abi db) (addr : Address) :
    Reachable lib abi (db.update (StateOp.closeContract addr).act)
  | removeTrigger {db : MemoryStateDB} (h : Reachable lib abi db) (contract : ContractAddress)
    (id : Bytes) : Reachable lib abi (db.update (StateOp.removeTrigger contract id).act)
  | credit {db : MemoryStateDB} (h : Reachable lib abi db) {addr : Address} {acct : MemoryAccount}
    (hacct : db.data.account addr = some acct) {value : ℤ} {assets : TxAssets} {b : ManagedBalance}
    (hcredit : acct.managed.credit lib.toAmountLib value assets = .ok b) (hb : WordSized b) :
    Reachable lib abi { db with data := db.data.setManaged addr b }
  | settle {db : MemoryStateDB} (h : Reachable lib abi db) (addr : Address) {b : ManagedBalance}
    (hb : WordSized b) : Reachable lib abi { db with data := db.data.setManaged addr b }
  | restored {db : MemoryStateDB} (h : Reachable lib abi db) {data : Bytes} {s : StateData}
    (hdata : db.data.marshalBinary lib = .ok data) (hsize : data.length < 2 ^ 63)
    (hs : decodeMemoryStateDB lib data = .ok s) :
    Reachable lib abi { data := s }
  | clone {db : MemoryStateDB} (h : Reachable lib abi db) : Reachable lib abi { data := db.data.clone }

theorem Storable.setManaged (h : Storable s) (addr) {b} (hb : WordSized b) :
    Storable (s.setManaged addr b) := by
  unfold StateData.setManaged
  cases s.accounts.table[addr]? with
  | none => exact h
  | some ref =>
    refine h.modify ref fun acct hacct => ⟨⟨hacct.flags, hb, hacct.selfDestruct⟩, ?_⟩
    exact congrArg (fun a : MemoryAccount => { a with managed := b }) hacct.ended

theorem StorableAccount.stored {acct} (h : StorableAccount acct) : StorableAccount acct.stored where
  flags := h.flags
  managed := ⟨h.managed.value, fun a ha => h.managed.bindings a (ManagedBalance.mem_of_mem_normalize ha)⟩
  selfDestruct := h.selfDestruct
  ended := congrArg MemoryAccount.stored h.ended

theorem Storable.storedState (h : Storable s) : Storable (storedState s) where
  accounts {addr acct} hacct := by
    rw [account_storedState] at hacct
    obtain ⟨old, hold, rfl⟩ := Option.map_eq_some_iff.mp hacct
    exact (h.accounts hold).stored
  triggers := (storedState_spec s).2 ▸ h.triggers

theorem Storable.clone (h : Storable s) : Storable s.clone where
  accounts {addr _} hacct := h.accounts ((s.accounts.lookup_clone addr).symm.trans hacct)
  triggers := h.triggers

theorem storable_empty : Storable {} where
  accounts {addr acct} hacct := by simp [StateData.account, PointerTable.lookup] at hacct
  triggers := by
    refine ⟨fun {key t} h => by simp at h, by decide, fun contract => ?_⟩
    apply (length_filter_le _ _).trans
    rw [Std.ExtTreeMap.length_keys]
    decide

theorem Reachable.settled (hlib : PrecisionRange lib) {abi : AbiLib} (h : Reachable lib abi db) :
    Settled db := by
  induction h with
  | initial => exact ⟨rfl, rfl, storable_empty⟩
  | call h req vm ih =>
    refine settled_result ih abi req.execution vm fun t ht => ?_
    split
    · exact ht.bind _ _
    · exact ht
  | deploy h req vm ih => exact settled_result ih abi req.execution vm fun t ht => ht.bind _ _
  | register h addr deployer flags ih =>
    exact ih.update (ih.storable.registerContractDeployment addr deployer flags)
  | close h addr ih => exact ih.update (ih.storable.closeContract addr)
  | removeTrigger h contract id ih => exact ih.update (ih.storable.removeTrigger contract id)
  | credit h hacct hcredit hb ih => exact ⟨ih.revisions, ih.journal, ih.storable.setManaged _ hb⟩
  | settle h addr hb ih => exact ⟨ih.revisions, ih.journal, ih.storable.setManaged addr hb⟩
  | restored h hdata hsize hs ih =>
    have hround := decode_marshalBinary hlib ih.storable hdata (by omega)
    obtain rfl := Except.ok.inj (hround.symm.trans hs)
    exact ⟨rfl, rfl, ih.storable.storedState⟩
  | clone h ih => exact ⟨rfl, rfl, ih.storable.clone⟩

end SatoshiNet.Evm
