import SatoshiNet.Evm.StateDB

/-!
Every journaled operation is undone by the entries it writes, so returning to a snapshot restores
the state exactly, however snapshots and returns are nested in between.
-/

namespace SatoshiNet.Evm

open Lib Contract List
open Lib.Journaled (Undoable Respects)
open Std (ExtTreeMap)
open StateData

/-- The same state to every reader: accounts that nothing points to may be left in memory, and the
values remembered for gas accounting may differ.  The logs and the access list belong to one
transaction; they are compared inside of it. -/
structure SameState (inside : Prop) (s t : StateData) : Prop where
  accounts : s.accounts.Covers t.accounts
  triggers : s.triggers = t.triggers
  refund : s.refund = t.refund
  logs : inside → s.logs = t.logs
  accessList : inside → s.accessList = t.accessList

variable {inside : Prop}

variable (inside) in
theorem SameState.refl (s) : SameState inside s s :=
  ⟨.refl _, rfl, rfl, fun _ => rfl, fun _ => rfl⟩

theorem SameState.trans {s t u} (hst : SameState inside s t) (htu : SameState inside t u) :
    SameState inside s u :=
  ⟨hst.accounts.trans htu.accounts, hst.triggers.trans htu.triggers, hst.refund.trans htu.refund,
    fun h => (hst.logs h).trans (htu.logs h), fun h => (hst.accessList h).trans (htu.accessList h)⟩

def Undo.ofAccounts : Undo → Bool
  | .account _ _ | .deleteAccount _ | .restoreAccount _ _ => true
  | _ => false

theorem respects_apply {e} (he : ∀ addr ref, e ≠ .restoreAccount addr ref) :
    Respects Undo.apply (SameState inside) e := by
  intro s t h
  cases e with
  | account ref undo => exact { h with accounts := h.accounts.modify ref _ }
  | deleteAccount addr => exact { h with accounts := h.accounts.erase addr }
  | restoreAccount addr ref => exact absurd rfl (he addr ref)
  | refund prev => exact { h with refund := rfl }
  | accessAddress addr =>
    refine { h with accessList := fun hin => ?_ }
    simp only [Undo.apply, h.accessList hin]
  | accessSlot addr slot =>
    refine { h with accessList := fun hin => ?_ }
    simp only [Undo.apply, h.accessList hin]
  | logs previousLen =>
    exact { h with logs := fun hin => congrArg (take previousLen) (h.logs hin) }
  | trigger key previous =>
    refine { h with triggers := ?_ }
    simp only [Undo.apply, h.triggers]

variable (inside) in
/-- What the journaled operations consist of.  Every entry undoes its change, and an account is changed
through a pointer of the table. -/
inductive Does : StateData → Changed → Prop
  | nothing {s t} (h : SameState inside t s) (haccounts : t.accounts = s.accounts) : Does s (t, [])
  | create {s} {addr : Address} (h : s.accounts.table[addr]? = none) :
    Does s ({ s with accounts := s.accounts.alloc addr {} }, [.deleteAccount addr])
  | change {s ref change undo} {addr : Address} (href : s.accounts.table[addr]? = some ref)
    (hback : ∀ acct, (undo acct).restore (change acct) = acct) :
    Does s (s.changeAccount ref change undo)
  | outside {s t e} (he : e.ofAccounts = false) (haccounts : t.accounts = s.accounts)
    (hback : SameState inside (e.apply t) s) : Does s (t, [e])
  | andThen {s r r'} (h : Does s r) (h' : Does r.1 r') : Does s (r'.1, r.2 ++ r'.2)

variable {r : Changed} {s : StateData}

theorem Does.respects (h : Does inside s r) :
    ∀ e ∈ r.2, Respects Undo.apply (SameState inside) e := by
  induction h with
  | nothing => exact forall_mem_nil _
  | create | change => exact forall_mem_singleton.mpr (respects_apply nofun)
  | outside he =>
    refine forall_mem_singleton.mpr (respects_apply ?_)
    rintro addr ref rfl
    cases he
  | andThen _ _ ih ih' => exact forall_mem_append.mpr ⟨ih, ih'⟩

theorem Does.undone (h : Does inside s r) : SameState inside (r.2.foldr Undo.apply r.1) s := by
  induction h with
  | nothing h => exact h
  | @create s addr h =>
    exact { SameState.refl inside s with accounts := PointerTable.covers_erase_alloc h _ }
  | @change s ref change undo addr href hback =>
    have hsame : (s.accounts.modify ref change).modify ref
        ((undo ((s.accounts.deref ref).getD {})).restore ·) = s.accounts := by
      apply PointerTable.modify_modify
      intro acct hacct
      rw [hacct]
      exact hback acct
    refine { SameState.refl inside s with accounts := ?_ }
    show PointerTable.Covers ((s.accounts.modify ref change).modify ref
      ((undo ((s.accounts.deref ref).getD {})).restore ·)) s.accounts
    rw [hsame]
    exact .refl _
  | outside _ _ hback => exact hback
  | andThen h _ ih ih' =>
    rw [foldr_append]
    exact (Journaled.foldr_respects h.respects ih').trans ih

variable (inside) in
abbrev Exact (m : StateData → Changed) : Prop := Undoable Undo.apply (SameState inside) m

theorem exact_of_does {m} (h : ∀ s, Does inside s (m s)) : Exact inside m :=
  ⟨fun s => (h s).respects, fun s => (h s).undone⟩

/-! ### What the operations do -/

variable (addr : Address) (s : StateData)

theorem does_nothing : Does inside s (s, []) := .nothing (.refl inside s) rfl

theorem does_ensure : Does inside s (s.ensure addr).2 := by
  unfold ensure
  cases hlookup : s.accounts.table[addr]? with
  | some ref => exact does_nothing s
  | none => exact .create hlookup

theorem lookup_ensure : (s.ensure addr).2.1.accounts.table[addr]? = some (s.ensure addr).1 := by
  unfold ensure
  cases hlookup : s.accounts.table[addr]? with
  | some ref => exact hlookup
  | none => simp [PointerTable.alloc]

theorem does_onAccount {change undo} (h : ∀ acct, (undo acct).restore (change acct) = acct) :
    Does inside s (onAccount addr change undo s) :=
  (does_ensure addr s).andThen (.change (lookup_ensure addr s) h)

theorem does_setState (key value) : Does inside s (setState addr key value s) := by
  have horiginal : Does inside s (s.originalState addr key, []) := by
    unfold originalState
    dsimp only
    split <;> exact .nothing ⟨.refl _, rfl, rfl, fun _ => rfl, fun _ => rfl⟩ rfl
  have hset : Does inside (s.originalState addr key) (onAccount addr
      (fun acct => { acct with storage := acct.storage.set key value })
      (fun acct => .storage key (acct.storage.get key)) (s.originalState addr key)) :=
    does_onAccount addr _ fun acct => by simp only [AccountUndo.restore, Storage.set_set_get]
  exact horiginal.andThen hset

theorem does_setContractDeployer (recipient) :
    Does inside s (setContractDeployer addr recipient s) := by
  unfold setContractDeployer
  dsimp only
  split
  · exact does_ensure addr s
  · exact (does_ensure addr s).andThen (.change (lookup_ensure addr s) fun _ => rfl)

theorem does_registerContractDeployment (deployer flags) :
    Does inside s (orUnchanged s (s.registerContractDeployment addr deployer flags)) := by
  cases h : s.registerContractDeployment addr deployer flags with
  | error _ => exact does_nothing s
  | ok result =>
    simp only [registerContractDeployment, bind_eq_ok, orError_eq_ok] at h
    obtain ⟨_, -, _, -, ref, href, _, -, h⟩ := h
    cases h
    exact @Does.change _ _ ref _ (fun acct => .deployment acct.deployerAddr acct.deployFlags) _ href
      fun _ => rfl

theorem eq_of_eq_off {K V : Type} [Ord K] [Std.TransOrd K] [Std.LawfulEqOrd K]
    {m m' : ExtTreeMap K V} (k : K) (hon : m'[k]? = m[k]?)
    (hoff : ∀ key, k ≠ key → m'[key]? = m[key]?) : m' = m := by
  apply ExtTreeMap.ext_getElem?
  intro key
  by_cases hkey : k = key
  · rw [← hkey, hon]
  · exact hoff key hkey

theorem erase_insert_of_absent {K V : Type} [Ord K] [Std.TransOrd K] [Std.LawfulEqOrd K]
    {m : ExtTreeMap K V} {k : K} {v : V} (h : k ∉ m) : (m.insert k v).erase k = m :=
  eq_of_eq_off k (by simp [h]) fun key hkey => by
    simp [ExtTreeMap.getElem?_erase, ExtTreeMap.getElem?_insert, hkey]

theorem does_removeTrigger (contract) (id) : Does inside s (removeTrigger contract id s) := by
  unfold removeTrigger
  dsimp only
  cases hlookup : s.triggers[newTriggerKey contract id]? with
  | none => exact does_nothing s
  | some previous =>
    refine .outside rfl rfl { SameState.refl inside s with triggers := ?_ }
    exact eq_of_eq_off (newTriggerKey contract id) (by simp [Undo.apply, hlookup]) fun key hkey => by
      simp [Undo.apply, ExtTreeMap.getElem?_insert, ExtTreeMap.getElem?_erase, hkey]

theorem does_registerTrigger (trigger) :
    Does inside s (orUnchanged s (s.registerTrigger trigger)) := by
  cases h : s.registerTrigger trigger with
  | error _ => exact does_nothing s
  | ok result =>
    simp only [registerTrigger, bind_eq_ok] at h
    obtain ⟨_, -, _, -, _, -, _, -, h⟩ := h
    cases h
    refine .outside rfl rfl { SameState.refl inside s with triggers := ?_ }
    generalize newTriggerKey trigger.contract trigger.id = k
    cases hlookup : s.triggers[k]? <;>
      exact eq_of_eq_off k (by simp [Undo.apply, hlookup]) fun key hkey => by
        simp [Undo.apply, ExtTreeMap.getElem?_insert, ExtTreeMap.getElem?_erase, hkey]

theorem does_addAddressToAccessList : Does inside s (addAddressToAccessList addr s) := by
  unfold addAddressToAccessList
  split_ifs with habsent
  · exact does_nothing s
  · refine .outside rfl rfl { SameState.refl inside s with accessList := fun _ => ?_ }
    exact erase_insert_of_absent habsent

theorem does_addSlot (slot) : Does inside s (addSlot addr slot s) := by
  unfold addSlot
  cases hlookup : s.accessList[addr]? with
  | none => exact does_nothing s
  | some slots =>
    dsimp only
    split_ifs with habsent
    · exact does_nothing s
    refine .outside rfl rfl { SameState.refl inside s with accessList := fun _ => ?_ }
    apply ExtTreeMap.ext_getElem?
    intro a
    simp only [Undo.apply, ExtTreeMap.getElem?_modify, ExtTreeMap.getElem?_insert]
    split
    · rename_i hkey
      rw [← Std.LawfulEqOrd.eq_of_compare hkey, hlookup]
      simp [erase_insert_of_absent habsent]
    · rfl

theorem does_foldr {A : Type} {m : A → StateData → Changed}
    (h : ∀ a s, Does inside s (m a s)) (l : List A) :
    Does inside s (l.foldr (fun a => Journaled.andThen (m a)) (fun s => (s, [])) s) := by
  induction l generalizing s with
  | nil => exact does_nothing s
  | cons a l ih => exact (h a s).andThen (ih _)

theorem does_act (op : StateOp) : Does inside s (op.act s) := by
  cases op with
  | createAccount addr => exact does_ensure addr s
  | setState addr key value => exact does_setState addr s key value
  | setTransientState addr key value =>
    simp only [StateOp.act, setTransientState]
    exact does_onAccount addr s fun acct => by simp only [AccountUndo.restore, Storage.set_set_get]
  | addRefund v | subRefund v => exact .outside rfl rfl (.refl inside s)
  | addLog log =>
    exact .outside rfl rfl { SameState.refl inside s with logs := fun _ => take_left }
  | addAddressToAccessList addr => exact does_addAddressToAccessList addr s
  | addSlotToAccessList addr slot =>
    exact (does_addAddressToAccessList addr s).andThen (does_addSlot addr _ slot)
  | registerTrigger trigger => exact does_registerTrigger s trigger
  | removeTrigger contract id => exact does_removeTrigger s contract id
  | setContractDeployer addr recipient => exact does_setContractDeployer addr s recipient
  | registerContractDeployment addr deployer flags =>
    exact does_registerContractDeployment addr s deployer flags
  | closeContract addr =>
    have hclosed : Does inside s (onAccount addr ({ · with closed := true })
      (fun acct => .closed acct.closed) s) := does_onAccount addr s fun _ => rfl
    have hremoved := fun s' => @does_foldr inside s' _ _
      (fun t s => does_removeTrigger s t.contract t.id) (s.triggersOf addr)
    exact hclosed.andThen (hremoved _)
  | createContract addr | subBalance addr amount | addBalance addr amount | setNonce addr nonce
  | setCode addr code | selfDestruct addr | touch addr =>
    simp only [StateOp.act, createContract, subBalance, addBalance, setNonce, setCode, selfDestruct, touch]
    exact does_onAccount addr s fun _ => rfl

theorem does_prepare (addresses) : Does False s (prepare addresses s) := by
  -- what is cleared without an entry is not compared
  have hcleared : Does False s ({ s with logs := [], accessList := ∅, original := ∅ }, []) :=
    .nothing ⟨.refl _, rfl, rfl, nofun, nofun⟩ rfl
  exact hcleared.andThen (does_foldr _ (fun addr s => does_addAddressToAccessList addr s) addresses)

theorem exact_act (op : StateOp) : Exact inside op.act := exact_of_does fun s => does_act s op

namespace MemoryStateDB

def run (db : MemoryStateDB) (ops : List (Journaled.Op StateOp)) : MemoryStateDB :=
  Journaled.run StateOp.act Undo.apply db ops

def revertToSnapshot (db : MemoryStateDB) (id : ℕ) : MemoryStateDB :=
  Journaled.revertToSnapshot Undo.apply id db

end MemoryStateDB

theorem sameState_revert (db : MemoryStateDB) (ops : List (Journaled.Op StateOp))
    (hvalid : db.nextRevID ∈ (MemoryStateDB.run db.snapshot ops).valid) :
    SameState True (MemoryStateDB.revertToSnapshot (MemoryStateDB.run db.snapshot ops)
      db.nextRevID).data db.data :=
  (Journaled.revertToSnapshot_restores (SameState.refl True)
    (fun _ _ _ hst htu => SameState.trans hst htu) exact_act db ops hvalid).1

/-- A snapshot that is still valid is returned to exactly, whatever happened since; it and those
taken after it are then no longer valid, and those taken before it are. -/
theorem revertToSnapshot_exact (db : MemoryStateDB) (ops : List (Journaled.Op StateOp))
    (hvalid : db.nextRevID ∈ (MemoryStateDB.run db.snapshot ops).valid) :
    ∃ reverted, reverted = MemoryStateDB.revertToSnapshot (MemoryStateDB.run db.snapshot ops)
        db.nextRevID ∧
      (∀ addr, reverted.data.account addr = db.data.account addr) ∧
      reverted.data.triggers = db.data.triggers ∧
      reverted.data.refund = db.data.refund ∧
      reverted.data.logs = db.data.logs ∧
      reverted.data.accessList = db.data.accessList ∧
      reverted.valid = db.valid ∧
      ∃ later, (MemoryStateDB.run db.snapshot ops).valid = db.valid ++ db.nextRevID :: later ∧
        ∀ id ∈ later, db.nextRevID < id := by
  have hsame := sameState_revert db ops hvalid
  obtain ⟨-, -, hbefore, hlater⟩ := Journaled.revertToSnapshot_restores (SameState.refl True)
    (fun _ _ _ hst htu => SameState.trans hst htu) exact_act db ops hvalid
  exact ⟨_, rfl, hsame.accounts.lookup, hsame.triggers, hsame.refund, hsame.logs trivial,
    hsame.accessList trivial, hbefore, hlater⟩

theorem revertToSnapshot_nested : ∃ db : MemoryStateDB,
    db.nextRevID ∈ (MemoryStateDB.run db.snapshot
      [.act (.setNonce 7 1), .snapshot, .act (.addRefund 5)]).valid ∧
    (MemoryStateDB.revertToSnapshot (MemoryStateDB.run db.snapshot
      [.act (.setNonce 7 1), .snapshot, .act (.addRefund 5)]) db.nextRevID).data.account 7 = none := by
  have hvalid : (0 : ℕ) ∈ (MemoryStateDB.run (Journaled.snapshot ⟨{}, [], [], 0, by simp⟩)
      [.act (.setNonce 7 1), .snapshot, .act (.addRefund 5)]).valid := by decide
  refine ⟨⟨{}, [], [], 0, by simp⟩, hvalid, ?_⟩
  obtain ⟨_, rfl, haccount, -⟩ := revertToSnapshot_exact ⟨{}, [], [], 0, by simp⟩
    [.act (.setNonce 7 1), .snapshot, .act (.addRefund 5)] hvalid
  exact haccount 7

/-- A snapshot is used up by returning to it: a second return to it changes nothing, although all
the operations since are in the journal of an outer snapshot. -/
theorem second_revert_restores_nothing : ∃ db : MemoryStateDB, db.valid ≠ [] ∧
    (MemoryStateDB.revertToSnapshot (MemoryStateDB.run db.snapshot
      [.revertToSnapshot db.nextRevID, .act (.addRefund 5)]) db.nextRevID).data.refund ≠
        db.data.refund ∧
    db.nextRevID ∉ (MemoryStateDB.run db.snapshot [.revertToSnapshot db.nextRevID]).valid :=
  ⟨Journaled.snapshot ⟨{}, [], [], 0, by simp⟩, by decide, by decide, by decide⟩

end SatoshiNet.Evm
