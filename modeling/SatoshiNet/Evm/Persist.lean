import SatoshiNet.Evm.Reachable

/-!
Copies of the state.  A clone shares no object with the original: whatever is done with it, the
original reads the same.  What survives being stored are the states whose managed balances have an
encoding.
-/

namespace SatoshiNet.Evm

open Lib Contract List

section

inductive Mutation
  | act (op : StateOp)
  | prepare (addresses : List Address)
  | finalise
  | setManaged (addr : Address) (b : ManagedBalance)
  | snapshot
  | revertToSnapshot (id : ℕ)
  | discardSnapshot (id : ℕ)

def Mutation.apply (db : MemoryStateDB) : Mutation → MemoryStateDB
  | .act op => db.update op.act
  | .prepare addresses => db.update (StateData.prepare addresses)
  | .finalise => db.update StateData.finalise
  | .setManaged addr b => { db with data := db.data.setManaged addr b }
  | .snapshot => db.snapshot
  | .revertToSnapshot id => Journaled.revertToSnapshot Undo.apply id db
  | .discardSnapshot id => db.discardSnapshot id

/-! ### Changes that stay away from a memory -/

variable {heap₀ : List MemoryAccount}

def Undo.Apart (heap₀ : List MemoryAccount) : Undo → Prop
  | .account ref _ | .restoreAccount _ ref => heap₀.length ≤ ref
  | _ => True

variable {db : MemoryStateDB} {m : StateData → Changed} {s : StateData}

theorem Undo.apart_apply {e : Undo} (he : e.Apart heap₀) (h : s.accounts.Apart heap₀) :
    (e.apply s).accounts.Apart heap₀ := by
  cases e with
  | account ref undo => exact h.modify he _
  | deleteAccount addr => exact h.erase addr
  | restoreAccount addr ref => exact h.restore addr he
  | refund prev | accessAddress addr | accessSlot addr slot | logs len | trigger key previous => exact h

structure StaysApart (heap₀ : List MemoryAccount) (result : Changed) : Prop where
  accounts : result.1.accounts.Apart heap₀
  entries : ∀ e ∈ result.2, e.Apart heap₀

theorem StaysApart.andThen {r r'} (h : StaysApart heap₀ r) (h' : StaysApart heap₀ r') :
    StaysApart heap₀ (r'.1, r.2 ++ r'.2) :=
  ⟨h'.accounts, forall_mem_append.mpr ⟨h.entries, h'.entries⟩⟩

variable {s : StateData}

theorem Does.apart {inside r} (hdoes : Does inside s r) (h : s.accounts.Apart heap₀) :
    StaysApart heap₀ r := by
  induction hdoes with
  | nothing _ haccounts => exact ⟨haccounts ▸ h, forall_mem_nil _⟩
  | create => exact ⟨h.alloc _ {}, forall_mem_singleton.mpr trivial⟩
  | change href => exact ⟨h.modify (h.table href) _, forall_mem_singleton.mpr (h.table href)⟩
  | @outside _ _ e he haccounts =>
    refine ⟨haccounts ▸ h, forall_mem_singleton.mpr ?_⟩
    cases e with
    | account _ _ | restoreAccount _ _ => cases he
    | _ => trivial
  | andThen _ _ ih ih' => exact (ih h).andThen (ih' (ih h).accounts)

section

variable (h : s.accounts.Apart heap₀)
include h

theorem apart_pure : StaysApart heap₀ (s, []) := ⟨h, forall_mem_nil _⟩

theorem apart_finaliseAccount {entry} (hentry : heap₀.length ≤ entry.2) :
    StaysApart heap₀ (StateData.finaliseAccount entry s) := by
  unfold StateData.finaliseAccount
  dsimp only
  split
  · exact ⟨h.erase entry.1, forall_mem_singleton.mpr hentry⟩
  · refine ⟨h.modify hentry _, ?_⟩
    dsimp only
    split
    · exact forall_mem_nil _
    · exact forall_mem_singleton.mpr hentry

theorem apart_finalise : StaysApart heap₀ s.finalise := by
  have hentries : ∀ entry ∈ s.accounts.table.toList, heap₀.length ≤ entry.2 := fun entry he =>
    h.table (Std.ExtTreeMap.mem_toList_iff_getElem?_eq_some.mp he)
  have hfold : ∀ (l : List (Address × ℕ)) (t : StateData), t.accounts.Apart heap₀ →
      (∀ entry ∈ l, heap₀.length ≤ entry.2) → StaysApart heap₀
        (l.foldr (fun entry => Journaled.andThen (StateData.finaliseAccount entry))
          (fun s => (s, [])) t) := by
    intro l
    induction l with
    | nil => exact fun t ht _ => apart_pure ht
    | cons entry l ih =>
      intro t ht hl
      obtain ⟨hentry, hl⟩ := forall_mem_cons.mp hl
      have hfirst := apart_finaliseAccount ht hentry
      exact hfirst.andThen (ih _ hfirst.accounts hl)
  have hall := hfold _ s h hentries
  exact { hall with }

end

/-! ### Mutations of the clone -/

/-- Neither the state nor what its journal would restore is in the memory. -/
structure Separate (heap₀ : List MemoryAccount) (db : MemoryStateDB) : Prop where
  accounts : db.data.accounts.Apart heap₀
  journal : ∀ e ∈ db.journal, e.Apart heap₀

theorem Separate.update (h : Separate heap₀ db) (hm : StaysApart heap₀ (m db.data)) :
    Separate heap₀ (db.update m) := by
  refine ⟨hm.accounts, ?_⟩
  show ∀ e ∈ (if db.revisions = [] then db.journal else db.journal ++ (m db.data).2), _
  split
  · exact h.journal
  · exact forall_mem_append.mpr ⟨h.journal, hm.entries⟩

theorem Separate.undo {entries : List Undo} (hentries : ∀ e ∈ entries, e.Apart heap₀)
    (h : s.accounts.Apart heap₀) : (entries.foldr Undo.apply s).accounts.Apart heap₀ := by
  induction entries with
  | nil => exact h
  | cons e es ih =>
    obtain ⟨he, hes⟩ := forall_mem_cons.mp hentries
    exact Undo.apart_apply he (ih hes)

theorem Separate.leaveSnapshot (h : Separate heap₀ db) (restore : List Undo → StateData → StateData)
    (id : ℕ) (hrestore : ∀ n, (restore (db.journal.drop n) db.data).accounts.Apart heap₀) :
    Separate heap₀ (db.leaveSnapshot restore id) := by
  obtain hsame | ⟨before, r, after, fresh, -, -, hleft⟩ := Journaled.leaveSnapshot_cases restore id db
  · exact hsame.symm ▸ h
  · rw [hleft]
    exact ⟨hrestore _, fun e he => h.journal e (mem_of_mem_take he)⟩

theorem Separate.apply (h : Separate heap₀ db) (m : Mutation) : Separate heap₀ (m.apply db) := by
  cases m with
  | act op => exact h.update ((@does_act True _ op).apart h.accounts)
  | prepare addresses => exact h.update ((does_prepare _ addresses).apart h.accounts)
  | finalise => exact h.update (apart_finalise h.accounts)
  | setManaged addr b =>
    refine ⟨?_, h.journal⟩
    show (db.data.setManaged addr b).accounts.Apart heap₀
    unfold StateData.setManaged
    cases hlookup : db.data.accounts.table[addr]? with
    | none => exact h.accounts
    | some ref => exact h.accounts.modify (h.accounts.table hlookup) _
  | snapshot => exact { h with }
  | revertToSnapshot id =>
    exact h.leaveSnapshot (fun entries s => entries.foldr Undo.apply s) id fun n =>
      Separate.undo (fun e he => h.journal e (mem_of_mem_drop he)) h.accounts
  | discardSnapshot id => exact h.leaveSnapshot (fun _ s => s) id fun _ => h.accounts

theorem separate_run (h : Separate heap₀ db) (ms : List Mutation) :
    Separate heap₀ (ms.foldl Mutation.apply db) := by
  induction ms generalizing db with
  | nil => exact h
  | cons m ms ih => exact ih (h.apply m)

theorem lookupIn_clone_run (s : StateData) (ms : List Mutation) (addr : Address) :
    s.accounts.lookupIn (ms.foldl Mutation.apply { data := s.clone }).data.accounts.heap addr =
      s.account addr := by
  have hclone : Separate s.accounts.heap { data := s.clone } :=
    ⟨s.accounts.apart_clone, forall_mem_nil _⟩
  exact PointerTable.lookupIn_eq (separate_run hclone ms).accounts.heap addr

end

open Wire

variable {lib : DecimalLib}

variable (lib) in
structure Encodable (b : ManagedBalance) : Prop where
  valid : b.validate lib.toAmountLib = .ok ()
  short : ∀ a ∈ b.assets, a.amount.sign ≠ 0 → textLength a.amount.value ≤ maxProtocolDecimalTextLength

theorem mem_normalize {b : ManagedBalance} {a : AssetInfo} :
    a ∈ b.normalize.assets ↔ a ∈ b.assets ∧ a.amount.sign ≠ 0 := by
  show a ∈ ManagedBalance.normalizeEntries b.assets ↔ _
  rw [ManagedBalance.normalizeEntries, (List.perm_insertionSort _ _).mem_iff, List.mem_filter,
    decide_eq_true_eq]

theorem exists_marshalBinary_iff {b : ManagedBalance} :
    (∃ data, b.marshalBinary lib = .ok data) ↔ Encodable lib b := by
  constructor
  · rintro ⟨data, hdata⟩
    obtain ⟨hvalid, hamounts, -⟩ := marshalBinary_eq_ok.mp hdata
    refine ⟨ManagedBalance.validate_eq_ok.mpr hvalid, fun a ha hsign => ?_⟩
    have hcheck := hamounts a (mem_normalize.mpr ⟨ha, hsign⟩)
    simp only [checkDecimal, bind_eq_ok, require_eq_ok, decide_eq_true_eq] at hcheck
    exact hcheck.choose_spec.2
  · intro h
    have hvalid := ManagedBalance.validate_eq_ok.mp h.valid
    refine ⟨_, marshalBinary_eq_ok.mpr ⟨hvalid, fun a ha => ?_, rfl⟩⟩
    obtain ⟨hmem, hsign⟩ := mem_normalize.mp ha
    have hamount := hvalid.amounts a hmem
    have hshort := h.short a hmem hsign
    simp only [checkDecimal, bind_eq_ok, require_eq_ok, decide_eq_true_eq]
    exact ⟨(), hamount, hshort⟩

theorem exists_stateMarshal_iff {s} (hs : Storable s) : (∃ data, s.marshalBinary lib = .ok data) ↔
      ∀ addr acct, s.account addr = some acct → Encodable lib acct.managed := by
  have hmem : ∀ {addr acct}, (addr, acct) ∈ s.accounts.values.toList ↔ s.account addr = some acct := by
    intro addr acct
    rw [Std.ExtTreeMap.mem_toList_iff_getElem?_eq_some, PointerTable.getElem?_values]
    rfl
  constructor
  · rintro ⟨data, hdata⟩ addr acct hacct
    obtain ⟨hencode, -⟩ := stateMarshal_eq_ok.mp hdata
    obtain ⟨_, hbytes⟩ := hencode _ (hmem.mpr hacct)
    exact exists_marshalBinary_iff.mp ⟨_, (encodeAccount_eq_ok.mp hbytes).2.1⟩
  · intro hall
    refine ⟨_, stateMarshal_eq_ok.mpr ⟨fun entry hentry => ?_, rfl⟩⟩
    have hacct := hmem.mp hentry
    obtain ⟨data, hdata⟩ := exists_marshalBinary_iff.mpr (hall _ _ hacct)
    obtain ⟨-, -, rfl⟩ := marshalBinary_eq_ok.mp hdata
    exact ⟨_, encodeAccount_eq_ok.mpr ⟨(hs.accounts hacct).flags, hdata, rfl⟩⟩

/-- What reading back must give: the same accounts with all that belongs to them, the managed
quantities among it, the same triggers, the same root, and the same calls due at every height. -/
structure Restores (lib : DecimalLib) (sha256 : Bytes → Hash) (s t : StateData) : Prop where
  accounts : ∀ addr, t.account addr = (s.account addr).map fun acct =>
    { acct with managed := acct.managed.normalize }
  managed : ∀ addr, (t.account addr).map (·.managed.worth) = (s.account addr).map (·.managed.worth)
  triggers : t.triggers = s.triggers
  stateRoot : t.stateRoot lib sha256 = s.stateRoot lib sha256
  due : ∀ height, t.dueTriggerCalls height = s.dueTriggerCalls height

theorem restores_storedState (sha256) {s} {data} (h : s.marshalBinary lib = .ok data) :
    Restores lib sha256 s (storedState s) where
  accounts := account_storedState s
  managed addr := by
    rw [account_storedState, Option.map_map]
    congr 1
    funext acct
    exact Prod.ext rfl (ManagedBalance.holdings_normalizeEntries _)
  triggers := (storedState_spec s).2
  stateRoot := by rw [StateData.stateRoot, StateData.stateRoot, marshalBinary_storedState h, h]
  due height := by
    rw [StateData.dueTriggerCalls, StateData.dueTriggerCalls, StateData.sortedTriggers,
      StateData.sortedTriggers, (storedState_spec s).2]

/-- A state that blocks lead to is stored and read back faithfully exactly if every managed balance in
it can be encoded; and a clone of it can be changed at will without a change of the original. -/
theorem stored_state_restores_iff (hlib : PrecisionRange lib) (sha256 : Bytes → Hash) {abi : AbiLib}
    {db : MemoryStateDB} (hreach : Reachable lib abi db)
    (hsize : ∀ data, db.data.marshalBinary lib = .ok data → data.length < 2 ^ 63) :
    ((∃ data s, db.data.marshalBinary lib = .ok data ∧ decodeMemoryStateDB lib data = .ok s ∧
        Restores lib sha256 db.data s) ↔
      ∀ addr acct, db.data.account addr = some acct → Encodable lib acct.managed) ∧
    ∀ (mutations : List Mutation) (addr : Address), db.data.accounts.lookupIn
        (mutations.foldl Mutation.apply { data := db.data.clone }).data.accounts.heap addr =
          db.data.account addr := by
  have hstorable := (hreach.settled hlib).storable
  refine ⟨?_, fun mutations addr => lookupIn_clone_run db.data mutations addr⟩
  rw [← exists_stateMarshal_iff hstorable]
  constructor
  · rintro ⟨data, _, hdata, -⟩
    exact ⟨data, hdata⟩
  · rintro ⟨data, hdata⟩
    have hlen := hsize data hdata
    exact ⟨data, _, hdata, decode_marshalBinary hlib hstorable hdata (by omega),
      restores_storedState sha256 hdata⟩

section TooLong

def smallRuntime : Runtime := ⟨{ data := {} }, [], none, [], ⟨0, none⟩, none, 0⟩

/-- A call of the precompile registers a trigger for height 9. -/
def smallAbi : AbiLib := ⟨fun _ => none, fun _ => some ⟨[1], 9, 5, []⟩, fun _ => none⟩

def smallDeployment : DeployRequest :=
  ⟨⟨[], 100, 0, none, [], none, ⟨5, 3⟩⟩, 1, 0, ⟨[], []⟩⟩

/-- The contract gets its code, writes a slot and registers a trigger. -/
def smallAnswer : VmAnswer :=
  ⟨[.enter 0xf0 1 7 [], .snapshot, .state (.createContract 7), .state (.setCode 7 [0]),
    .state (.setState 7 1 2), .enter 0xf1 7 triggerPrecompileAddress [], .exit false, .exit false],
    [], 7, [], 0, none⟩

def deployedState : MemoryStateDB :=
  (smallRuntime.deploy rangedLib smallAbi smallDeployment smallAnswer).1.state

def longName : AssetName := ⟨['o'], ['f'], ['x']⟩

def wholeBalance : ManagedBalance := ⟨0, [⟨longName, ⟨0, 10 ^ 250⟩, 0⟩]⟩

def creditedState : MemoryStateDB :=
  { deployedState with data := deployedState.data.setManaged 7 wholeBalance }

theorem reachable_credited : Reachable rangedLib smallAbi creditedState := by
  have hdeployed : Reachable rangedLib smallAbi deployedState :=
    .deploy (r := smallRuntime) .initial smallDeployment smallAnswer
  have hempty : (deployedState.data.account 7).map (·.managed) = some ⟨0, []⟩ := by decide +kernel
  obtain ⟨acct, hacct, hmanaged⟩ := Option.map_eq_some_iff.mp hempty
  have hcredit : ManagedBalance.credit rangedLib.toAmountLib ⟨0, []⟩ 0
      [⟨longName, ⟨0, 10 ^ 250⟩, 0⟩] = .ok wholeBalance := rfl
  rw [← hmanaged] at hcredit
  exact hdeployed.credit hacct hcredit ⟨by decide, by decide⟩

theorem credited_managed : (creditedState.data.account 7).map (·.managed) = some wholeBalance := by
  decide +kernel

/-- A contract with code, a slot, a trigger and a managed asset. -/
theorem credited_state_restores :
    (creditedState.data.account 7).map (fun acct => (acct.code, acct.storage.get 1)) = some ([0], 2) ∧
    creditedState.data.triggers.size = 1 ∧
    ∃ data s, creditedState.data.marshalBinary rangedLib = .ok data ∧
      decodeMemoryStateDB rangedLib data = .ok s ∧
      Restores rangedLib (fun _ => 1) creditedState.data s := by
  have hstorable := (reachable_credited.settled rangedLib_precisionRange).storable
  have hlen : (creditedState.data.marshalBinary rangedLib).toOption.any (·.length < 2 ^ 63) = true := by
    decide +kernel
  obtain ⟨data, hmarshal, hlen⟩ := exists_of_any hlen
  have hsize : ∀ d, creditedState.data.marshalBinary rangedLib = .ok d → d.length < 2 ^ 63 := by
    intro d hd
    obtain rfl := Except.ok.inj (hmarshal.symm.trans hd)
    exact of_decide_eq_true hlen
  refine ⟨by decide +kernel, by decide +kernel, ?_⟩
  apply (stored_state_restores_iff rangedLib_precisionRange (fun _ => 1) reachable_credited hsize).1.mpr
  exact (exists_stateMarshal_iff hstorable).mp ⟨data, hmarshal⟩

/-- Whole units first, and then a small part of one: both amounts are short. -/
def longBalance : ManagedBalance := ⟨0, [⟨longName, ⟨10, 10 ^ 250 * 10 ^ 10 + 1⟩, 0⟩]⟩

def longState : MemoryStateDB := { creditedState with data := creditedState.data.setManaged 7 longBalance }

theorem long_managed : (longState.data.account 7).map (·.managed) = some longBalance := by
  decide +kernel

theorem reachable_long : Reachable rangedLib smallAbi longState := by
  obtain ⟨acct, hacct, hmanaged⟩ := Option.map_eq_some_iff.mp credited_managed
  have hcredit : wholeBalance.credit rangedLib.toAmountLib 0 [⟨longName, ⟨10, 1⟩, 0⟩] =
      .ok longBalance := rfl
  rw [← hmanaged] at hcredit
  exact reachable_credited.credit hacct hcredit ⟨by decide, by decide⟩

theorem long_not_encodable : ¬ Encodable rangedLib longBalance := by
  intro h
  have hlt := StateDecoder.natAbs_lt_of_textLength (h.short _ List.mem_cons_self (by decide +kernel))
  revert hlt
  decide +kernel

/-- Two accepted credits lead to a state that cannot be stored, and its root is zero. -/
theorem long_balance_is_not_stored : ∃ (abi : AbiLib) (db : MemoryStateDB), Reachable rangedLib abi db ∧
    (¬ ∃ data s, db.data.marshalBinary rangedLib = .ok data ∧ decodeMemoryStateDB rangedLib data = .ok s) ∧
    db.data.stateRoot rangedLib (fun _ => 1) = 0 := by
  have hstorable := (reachable_long.settled rangedLib_precisionRange).storable
  obtain ⟨acct, hacct, hmanaged⟩ := Option.map_eq_some_iff.mp long_managed
  have hnone : ¬ ∃ data, longState.data.marshalBinary rangedLib = .ok data := by
    rw [exists_stateMarshal_iff hstorable]
    intro hall
    exact long_not_encodable (hmanaged ▸ hall 7 acct hacct)
  refine ⟨smallAbi, longState, reachable_long, fun ⟨data, _, hdata, _⟩ => hnone ⟨data, hdata⟩, ?_⟩
  rw [StateData.stateRoot]
  split
  · rename_i data hdata
    exact absurd ⟨data, hdata⟩ hnone
  · rfl

end TooLong

end SatoshiNet.Evm
