import SatoshiNet.Contract.Funding
import SatoshiNet.Lib.Journal
import SatoshiNet.Lib.Pointers
import SatoshiNet.Lib.Reader

/-!
The state of the EVM contracts: accounts, triggers, logs, the refund counter and the access list.

The accounts are objects behind pointers, and the journal's entries are closures that hold such
pointers, written down here as what the closure assigns.
-/

namespace SatoshiNet.Evm

open Lib Contract
open Std (ExtTreeMap TransOrd LawfulEqOrd TransCmp)

abbrev Address := BitVec 160

abbrev Hash := BitVec 256

instance : TransOrd Address := inferInstance

instance : TransOrd Hash := inferInstance

/-! ### Slots -/

structure Storage where
  slots : ExtTreeMap Hash Hash := ∅
  nonzero : ∀ {key value : Hash}, slots[key]? = some value → value ≠ 0 := by simp

namespace Storage

abbrev empty : Storage := {}

def get (m : Storage) (key : Hash) : Hash := m.slots[key]?.getD 0

def set (m : Storage) (key value : Hash) : Storage :=
  if hzero : value = 0 then
    { slots := m.slots.erase key
      nonzero := fun {k v} h => by
        rw [ExtTreeMap.getElem?_erase] at h
        split at h
        · cases h
        · exact m.nonzero h }
  else
    { slots := m.slots.insert key value
      nonzero := fun {k v} h => by
        rw [ExtTreeMap.getElem?_insert] at h
        split at h
        · exact Option.some.inj h ▸ hzero
        · exact m.nonzero h }

theorem ext {m n : Storage} (h : m.slots = n.slots) : m = n := by
  cases m
  cases n
  congr

theorem getElem?_set (m : Storage) (key value k : Hash) : (m.set key value).slots[k]? =
      if k = key then (if value = 0 then none else some value) else m.slots[k]? := by
  unfold set
  split
  · simp [ExtTreeMap.getElem?_erase, eq_comm (a := key)]
  · simp [ExtTreeMap.getElem?_insert, eq_comm (a := key)]

theorem set_set_get (m : Storage) (key value : Hash) : (m.set key value).set key (m.get key) = m := by
  apply ext
  apply ExtTreeMap.ext_getElem?
  intro k
  rw [getElem?_set, getElem?_set]
  by_cases hk : k = key
  · rw [if_pos hk, hk, get]
    cases hm : m.slots[key]? with
    | none => exact if_pos rfl
    | some v => exact if_neg (m.nonzero hm)
  · rw [if_neg hk, if_neg hk]

end Storage

/-! ### Accounts, triggers and logs -/

structure MemoryAccount where
  balance : BitVec 256 := 0
  nonce : UInt64 := 0
  code : Bytes := []
  storage : Storage := .empty
  transient : Storage := .empty
  selfDestruct : Bool := false
  newContract : Bool := false
  touched : Bool := false
  deployerAddr : Bytes := []
  deployFlags : UInt32 := 0
  managed : ManagedBalance := ⟨0, []⟩
  closed : Bool := false

structure Trigger where
  id : Bytes
  contract : ContractAddress
  kind : UInt8
  (height gasLimit : ℤ)
  calldata : Bytes

structure TriggerKey where
  contract : Address
  id : Bytes
deriving DecidableEq

instance : Ord TriggerKey := ⟨compareLex (compareOn TriggerKey.contract) (compareOn TriggerKey.id)⟩

instance : TransOrd TriggerKey :=
  inferInstanceAs (TransCmp (compareLex (compareOn TriggerKey.contract) (compareOn TriggerKey.id)))

instance : LawfulEqOrd TriggerKey where
  eq_of_compare {a b} h := by
    obtain ⟨hcontract, hid⟩ := Ordering.then_eq_eq.mp h
    cases a
    cases b
    rw [TriggerKey.mk.injEq]
    exact ⟨LawfulEqOrd.eq_of_compare hcontract, LawfulEqOrd.eq_of_compare hid⟩

structure Log where
  address : Address
  topics : List Hash
  data : Bytes

inductive EvmError
  | unknownFlags (flags : UInt32) | missingDeployer | missingAccount | alreadyRegistered
  | missingTriggerId | invalidTriggerContract | invalidTriggerHeight | unknownTriggerKind (kind : UInt8)
  | missingTriggerGas | triggerLimit | contractTriggerLimit
deriving DecidableEq

def maxEVMTriggersPerContract : ℕ := 256

def maxEVMTriggersTotal : ℕ := 4096

def triggerAtHeight : UInt8 := 1

def contractPrefixes : List Text := [['c', 'a'], ['t', 'c']]

/-- The check of an address: a known network, the version, a type and something of a hash. -/
def validateContractAddress (c : ContractAddress) : Bool :=
  contractPrefixes.contains (c.hrp.map Char.toLower) && 3 ≤ c.payload.length && c.payload.getD 0 0 = 1 &&
    c.payload.getD 1 0 ≠ 0

def contractAddressHash (c : ContractAddress) : Address :=
  BitVec.ofNat 160 (beNat ((c.payload.drop 2 ++ List.replicate 20 0).take 20))

def newTriggerKey (contract : ContractAddress) (id : Bytes) : TriggerKey :=
  ⟨contractAddressHash contract, id⟩

def Trigger.validate (t : Trigger) : Except EvmError Unit := do
  require (t.id ≠ []) .missingTriggerId
  require (validateContractAddress t.contract) .invalidTriggerContract
  require (t.kind = triggerAtHeight) (.unknownTriggerKind t.kind)
  require (0 ≤ t.height) .invalidTriggerHeight

def validateFlags (flags : UInt32) : Except EvmError Unit :=
  -- Only the lowest bit has a meaning.
  require (flags.toNat / 2 = 0) (.unknownFlags flags)

/-! ### The journal -/

/-- What a closure of the journal assigns to the account it holds. -/
inductive AccountUndo
  | newContract (previous : Bool)
  | balance (prev : BitVec 256)
  | nonce (prev : UInt64)
  | code (prev : Bytes)
  | storage (key prev : Hash)
  | transient (key prev : Hash)
  | selfDestruct (prev : Bool)
  | deployerAddr (prev : Bytes)
  | deployment (previousDeployer : Bytes) (previousFlags : UInt32)
  | closed (prev : Bool)
  | touched (prev : Bool)
  | transients (previous : Storage)

def AccountUndo.restore (acct : MemoryAccount) : AccountUndo → MemoryAccount
  | .newContract previous => { acct with newContract := previous }
  | .balance prev => { acct with balance := prev }
  | .nonce prev => { acct with nonce := prev }
  | .code prev => { acct with code := prev }
  | .storage key prev => { acct with storage := acct.storage.set key prev }
  | .transient key prev => { acct with transient := acct.transient.set key prev }
  | .selfDestruct prev => { acct with selfDestruct := prev }
  | .deployerAddr prev => { acct with deployerAddr := prev }
  | .deployment previousDeployer previousFlags =>
    { acct with deployerAddr := previousDeployer, deployFlags := previousFlags }
  | .closed prev => { acct with closed := prev }
  | .touched prev => { acct with touched := prev }
  | .transients previous => { acct with transient := previous }

inductive Undo
  | account (ref : ℕ) (undo : AccountUndo)
  | deleteAccount (addr : Address)
  | restoreAccount (addr : Address) (ref : ℕ)
  | refund (prev : UInt64)
  | accessAddress (addr : Address)
  | accessSlot (addr : Address) (slot : Hash)
  | logs (previousLen : ℕ)
  | trigger (key : TriggerKey) (previous : Option Trigger)

structure StateData where
  accounts : PointerTable Address MemoryAccount := .empty
  triggers : ExtTreeMap TriggerKey Trigger := ∅
  logs : List Log := []
  refund : UInt64 := 0
  accessList : ExtTreeMap Address (ExtTreeMap Hash Unit) := ∅
  original : ExtTreeMap Address (ExtTreeMap Hash Hash) := ∅

abbrev MemoryStateDB := Journaled StateData Undo

def Undo.apply : Undo → StateData → StateData
  | .account ref undo, s => { s with accounts := s.accounts.modify ref (undo.restore ·) }
  | .deleteAccount addr, s => { s with accounts := s.accounts.erase addr }
  | .restoreAccount addr ref, s => { s with accounts := s.accounts.restore addr ref }
  | .refund prev, s => { s with refund := prev }
  | .accessAddress addr, s => { s with accessList := s.accessList.erase addr }
  | .accessSlot addr slot, s =>
    { s with accessList := s.accessList.modify addr fun slots => slots.erase slot }
  | .logs previousLen, s => { s with logs := s.logs.take previousLen }
  | .trigger key previous, s =>
    { s with triggers := match previous with
        | some previous => s.triggers.insert key previous
        | none => s.triggers.erase key }

/-- A state with the entries that undo what led to it. -/
abbrev Changed := StateData × List Undo

namespace StateData

def account (s : StateData) (addr : Address) : Option MemoryAccount := s.accounts.lookup addr

def getState (s : StateData) (addr : Address) (key : Hash) : Hash :=
  ((s.account addr).map fun acct => acct.storage.get key).getD 0

def originalState (addr : Address) (key : Hash) (s : StateData) : StateData :=
  let storage := s.original[addr]?.getD ∅
  if key ∈ storage then { s with original := s.original.insert addr storage }
  else { s with original := s.original.insert addr (storage.insert key (s.getState addr key)) }

def ensure (addr : Address) (s : StateData) : ℕ × Changed :=
  match s.accounts.table[addr]? with
  | some ref => (ref, s, [])
  | none => (s.accounts.heap.length, { s with accounts := s.accounts.alloc addr {} },
      [.deleteAccount addr])

def changeAccount (ref : ℕ) (change : MemoryAccount → MemoryAccount)
    (undo : MemoryAccount → AccountUndo) (s : StateData) : Changed :=
  ({ s with accounts := s.accounts.modify ref change },
    [.account ref (undo ((s.accounts.deref ref).getD {}))])

section

variable (addr : Address)

def onAccount (change : MemoryAccount → MemoryAccount)
    (undo : MemoryAccount → AccountUndo) (s : StateData) : Changed :=
  let (ref, s, created) := s.ensure addr
  let (s, changed) := s.changeAccount ref change undo
  (s, created ++ changed)

def createAccount (s : StateData) : Changed := (s.ensure addr).2

def createContract : StateData → Changed :=
  onAccount addr ({ · with newContract := true }) fun acct => .newContract acct.newContract

def subBalance (amount : BitVec 256) : StateData → Changed :=
  onAccount addr (fun acct => { acct with balance := acct.balance - amount })
    fun acct => .balance acct.balance

def addBalance (amount : BitVec 256) : StateData → Changed :=
  onAccount addr (fun acct => { acct with balance := acct.balance + amount })
    fun acct => .balance acct.balance

def setNonce (nonce : UInt64) : StateData → Changed :=
  onAccount addr ({ · with nonce := nonce }) fun acct => .nonce acct.nonce

def setCode (code : Bytes) : StateData → Changed :=
  onAccount addr ({ · with code := code }) fun acct => .code acct.code

def setState (key value : Hash) (s : StateData) : Changed :=
  onAccount addr (fun acct => { acct with storage := acct.storage.set key value })
    (fun acct => .storage key (acct.storage.get key)) (s.originalState addr key)

def setTransientState (key value : Hash) : StateData → Changed :=
  onAccount addr (fun acct => { acct with transient := acct.transient.set key value })
    fun acct => .transient key (acct.transient.get key)

def selfDestruct : StateData → Changed :=
  onAccount addr ({ · with selfDestruct := true }) fun acct => .selfDestruct acct.selfDestruct

def touch : StateData → Changed :=
  onAccount addr ({ · with touched := true }) fun acct => .touched acct.touched

end

def addRefund (v : UInt64) (s : StateData) : Changed :=
  ({ s with refund := s.refund + v }, [.refund s.refund])

def subRefund (v : UInt64) (s : StateData) : Changed :=
  ({ s with refund := if s.refund < v then 0 else s.refund - v }, [.refund s.refund])

def setContractDeployer (addr : Address) (recipient : Bytes) (s : StateData) : Changed :=
  let (ref, s, created) := s.ensure addr
  let acct := (s.accounts.deref ref).getD {}
  if acct.deployerAddr ≠ [] ∨ acct.closed = true then (s, created)
  else
    let (s, changed) := s.changeAccount ref ({ · with deployerAddr := recipient })
      fun acct => .deployerAddr acct.deployerAddr
    (s, created ++ changed)

def registerContractDeployment (addr : Address) (deployer : Bytes) (flags : UInt32) (s : StateData) :
    Except EvmError Changed := do
  validateFlags flags
  require (deployer ≠ []) .missingDeployer
  let ref ← orError s.accounts.table[addr]? .missingAccount
  let acct := (s.accounts.deref ref).getD {}
  require (acct.deployerAddr = [] && !acct.closed) .alreadyRegistered
  .ok (s.changeAccount ref ({ · with deployerAddr := deployer, deployFlags := flags })
    fun acct => .deployment acct.deployerAddr acct.deployFlags)

def removeTrigger (contract : ContractAddress) (id : Bytes) (s : StateData) : Changed :=
  let key := newTriggerKey contract id
  match s.triggers[key]? with
  | none => (s, [])
  | some previous => ({ s with triggers := s.triggers.erase key }, [.trigger key (some previous)])

def registerTrigger (trigger : Trigger) (s : StateData) : Except EvmError Changed := do
  trigger.validate
  require (0 < trigger.gasLimit) .missingTriggerGas
  let key := newTriggerKey trigger.contract trigger.id
  let previous := s.triggers[key]?
  require (previous.isSome || s.triggers.size < maxEVMTriggersTotal) .triggerLimit
  require (previous.isSome ||
    (s.triggers.keys.filter (·.contract = key.contract)).length < maxEVMTriggersPerContract)
    .contractTriggerLimit
  .ok ({ s with triggers := s.triggers.insert key trigger }, [.trigger key previous])

def removeTriggers (triggers : List Trigger) : StateData → Changed :=
  triggers.foldr (fun t => Journaled.andThen (removeTrigger t.contract t.id)) fun s => (s, [])

section

variable (addr : Address) (s : StateData)

def triggersOf : List Trigger :=
  (s.triggers.toList.filter (·.1.contract = addr)).map (·.2)

def closeContract : Changed :=
  Journaled.andThen (onAccount addr ({ · with closed := true }) fun acct => .closed acct.closed)
    (removeTriggers (s.triggersOf addr)) s

def addAddressToAccessList : Changed :=
  if addr ∈ s.accessList then (s, [])
  else ({ s with accessList := s.accessList.insert addr ∅ }, [.accessAddress addr])

def addSlot (slot : Hash) (s : StateData) : Changed :=
  match s.accessList[addr]? with
  | none => (s, [])
  | some slots =>
    if slot ∈ slots then (s, [])
    else ({ s with accessList := s.accessList.insert addr (slots.insert slot ()) },
      [.accessSlot addr slot])

def addSlotToAccessList (slot : Hash) : StateData → Changed :=
  Journaled.andThen (addAddressToAccessList addr) (addSlot addr slot)

end

def addLog (log : Log) (s : StateData) : Changed :=
  ({ s with logs := s.logs ++ [log] }, [.logs s.logs.length])

end StateData

/-! ### Transactions -/

def MemoryAccount.endTransaction (acct : MemoryAccount) : MemoryAccount :=
  { acct with transient := {}, newContract := false, touched := false }

namespace StateData

/-- What a transaction starts with; the access list is journaled, its clearing is not. -/
def prepare (addresses : List Address) (s : StateData) : Changed :=
  addresses.foldr (fun addr => Journaled.andThen (addAddressToAccessList addr)) (fun s => (s, []))
    { s with logs := [], accessList := ∅, original := ∅ }

def removable (acct : MemoryAccount) : Bool :=
  acct.selfDestruct || (acct.touched && acct.deployerAddr = [] && !acct.closed && acct.managed.isZero &&
    acct.nonce = 0 && acct.balance = 0 && acct.code = [])

def finaliseAccount (entry : Address × ℕ) (s : StateData) : Changed :=
  let acct := (s.accounts.deref entry.2).getD {}
  if removable acct then
    ({ s with accounts := s.accounts.erase entry.1 }, [.restoreAccount entry.1 entry.2])
  else
    ({ s with accounts := s.accounts.modify entry.2 MemoryAccount.endTransaction },
      if acct.transient.slots.isEmpty then [] else [.account entry.2 (.transients acct.transient)])

def finalise (s : StateData) : Changed :=
  let result := s.accounts.table.toList.foldr
    (fun entry => Journaled.andThen (finaliseAccount entry)) (fun s => (s, [])) s
  ({ result.1 with refund := 0 }, result.2)

end StateData

/-! ### The journaled operations -/

inductive StateOp
  | createAccount (addr : Address)
  | createContract (addr : Address)
  | subBalance (addr : Address) (amount : BitVec 256)
  | addBalance (addr : Address) (amount : BitVec 256)
  | setNonce (addr : Address) (nonce : UInt64)
  | setCode (addr : Address) (code : Bytes)
  | setState (addr : Address) (key value : Hash)
  | setTransientState (addr : Address) (key value : Hash)
  | selfDestruct (addr : Address)
  | touch (addr : Address)
  | addRefund (v : UInt64)
  | subRefund (v : UInt64)
  | addLog (log : Log)
  | addAddressToAccessList (addr : Address)
  | addSlotToAccessList (addr : Address) (slot : Hash)
  | registerTrigger (trigger : Trigger)
  | removeTrigger (contract : ContractAddress) (id : Bytes)
  | setContractDeployer (addr : Address) (recipient : Bytes)
  | registerContractDeployment (addr : Address) (deployer : Bytes) (flags : UInt32)
  | closeContract (addr : Address)

def StateOp.native : StateOp → Bool
  | .createAccount _ | .createContract _ | .setNonce _ _ | .setCode _ _ | .setState _ _ _
  | .setTransientState _ _ _ | .touch _ | .addRefund _ | .subRefund _ | .addLog _
  | .addAddressToAccessList _ | .addSlotToAccessList _ _ => true
  | _ => false

def orUnchanged (s : StateData) (result : Except EvmError Changed) : Changed :=
  match result with
  | .ok result => result
  | .error _ => (s, [])

def StateOp.act : StateOp → StateData → Changed
  | .createAccount addr => StateData.createAccount addr
  | .createContract addr => StateData.createContract addr
  | .subBalance addr amount => StateData.subBalance addr amount
  | .addBalance addr amount => StateData.addBalance addr amount
  | .setNonce addr nonce => StateData.setNonce addr nonce
  | .setCode addr code => StateData.setCode addr code
  | .setState addr key value => StateData.setState addr key value
  | .setTransientState addr key value => StateData.setTransientState addr key value
  | .selfDestruct addr => StateData.selfDestruct addr
  | .touch addr => StateData.touch addr
  | .addRefund v => StateData.addRefund v
  | .subRefund v => StateData.subRefund v
  | .addLog log => StateData.addLog log
  | .addAddressToAccessList addr => StateData.addAddressToAccessList addr
  | .addSlotToAccessList addr slot => StateData.addSlotToAccessList addr slot
  | .registerTrigger trigger => fun s => orUnchanged s (s.registerTrigger trigger)
  | .removeTrigger contract id => StateData.removeTrigger contract id
  | .setContractDeployer addr recipient => StateData.setContractDeployer addr recipient
  | .registerContractDeployment addr deployer flags => fun s =>
    orUnchanged s (s.registerContractDeployment addr deployer flags)
  | .closeContract addr => StateData.closeContract addr

end SatoshiNet.Evm
