import SatoshiNet.Contract.StateBinary
import SatoshiNet.Evm.StateDB

/-!
The state of the EVM contracts in bytes: what is stored for every block and what the state root is the
hash of.  What is stored is read back: the decoder rebuilds the accounts and the triggers of the state
whose encoding it is given.
-/

namespace SatoshiNet.Evm

open Lib Contract Wire
open List hiding lookup

section

inductive StateField
  | magic | version | accountCount | accountAddress | accountNonce | accountBalance | accountCode
  | accountDeployer | accountFlags | accountManaged | accountClosed | storageCount | storageKey
  | storageValue | triggerCount | triggerPrefix | triggerVersion | triggerType | triggerContract
  | triggerId | triggerKind | triggerHeight | triggerGas | triggerCalldata

inductive CodecError
  | decode (field : StateField) (index : List ℕ) (cause : ReadError)
  | invalidMagic
  | unsupportedVersion (version : UInt8)
  | duplicateAccount (addr : Address)
  | balanceOverflow (index : ℕ)
  | flagsOverflow (index : ℕ)
  | flags (cause : EvmError)
  | managed (cause : StateError)
  | invalidClosed (closed : UInt8)
  | gasOverflow (index : ℕ)
  | triggerContract (index : ℕ)
  | trigger (index : ℕ) (cause : EvmError)
  | trailingBytes

def stateCodecMagic : Bytes := [69, 86, 77, 83, 84, 65, 84, 69]

def stateCodecVersion : UInt8 := 1

def contractTypeEVM : UInt8 := 2

def newContractAddress (hrp : Text) (version typ : UInt8) (hash : Address) : Option ContractAddress :=
  let c : ContractAddress := ⟨hrp.map Char.toLower, version :: typ :: beBytes 20 hash.toNat⟩
  if contractPrefixes.contains c.hrp && version = 1 && typ ≠ 0 then some c else none

/-! ### Encoding -/

def writeBytes (b : Bytes) : Bytes := putUvarint b.length ++ b

def storageBytes (slot : Hash × Hash) : Bytes := beBytes 32 slot.1.toNat ++ beBytes 32 slot.2.toNat

def accountBytes (entry : Address × MemoryAccount) (managed : Bytes) : Bytes :=
  let acct := entry.2
  beBytes 20 entry.1.toNat ++ (putUvarint acct.nonce.toNat ++ (writeBytes (natBytes acct.balance.toNat) ++
    (writeBytes acct.code ++ (writeBytes acct.deployerAddr ++ (putUvarint acct.deployFlags.toNat ++
      (writeBytes managed ++ ([if acct.closed then 1 else 0] ++
        (putUvarint acct.storage.slots.toList.length ++
          acct.storage.slots.toList.flatMap storageBytes))))))))

def triggerBytes (t : Trigger) : Bytes :=
  writeBytes (textBytes t.contract.hrp) ++ ([t.contract.payload.getD 0 0] ++
    ([t.contract.payload.getD 1 0] ++ (beBytes 20 (contractAddressHash t.contract).toNat ++
      (writeBytes t.id ++ ([t.kind] ++ (putUvarint (zigzag t.height) ++
        (putUvarint t.gasLimit.toNat ++ writeBytes t.calldata)))))))

variable (lib : DecimalLib)

def encodeAccount (entry : Address × MemoryAccount) : Except CodecError Bytes := do
  (validateFlags entry.2.deployFlags).mapError .flags
  let managed ← (entry.2.managed.marshalBinary lib).mapError .managed
  .ok (accountBytes entry managed)

namespace StateData

def sortedTriggers (s : StateData) : List Trigger := s.triggers.toList.map (·.2)

def marshalBinary (s : StateData) : Except CodecError Bytes := do
  let accounts ← s.accounts.values.toList.mapM (encodeAccount lib)
  .ok (stateCodecMagic ++ ([stateCodecVersion] ++ (putUvarint accounts.length ++ (accounts.flatten ++
    (putUvarint s.sortedTriggers.length ++ s.sortedTriggers.flatMap triggerBytes)))))

def stateRootTag : Bytes :=
  [83, 65, 84, 79, 83, 72, 73, 78, 69, 84, 58, 69, 86, 77, 95, 83, 84, 65, 84, 69, 95, 82, 79, 79, 84, 0]

def stateRoot (sha256 : Bytes → Hash) (s : StateData) : Hash :=
  match s.marshalBinary lib with
  | .ok encoded => sha256 (stateRootTag ++ encoded)
  | .error _ => 0

end StateData

def Trigger.due (t : Trigger) (height : ℤ) : Bool := t.kind = triggerAtHeight && t.height ≤ height

/-- The triggers that are called at a height; a call takes its gas and its data from the trigger. -/
def StateData.dueTriggerCalls (s : StateData) (height : ℤ) : List Trigger :=
  s.sortedTriggers.filter (·.due height)

/-! ### Decoding -/

open Reader

def readBytes : Reader ReadError Bytes := do
  let n ← readUvarint
  let rest ← left
  check (n ≤ rest) .unexpectedEOF
  full n

def readField {α : Type} (f : StateField) (index : List ℕ) (r : Reader ReadError α) :
    Reader CodecError α := r.mapError (.decode f index)

def readSlot (i j : ℕ) (storage : Storage) : Reader CodecError Storage := do
  let key ← readField .storageKey [i, j] (full 32)
  let value ← readField .storageValue [i, j] (full 32)
  let value : Hash := BitVec.ofNat 256 (beNat value)
  pure (if value = 0 then storage else storage.set (BitVec.ofNat 256 (beNat key)) value)

def readAccountFields (i : ℕ) : Reader CodecError MemoryAccount := do
  let nonce ← readField .accountNonce [i] readUvarint
  let balance ← readField .accountBalance [i] readBytes
  check (balance.length ≤ 32) (.balanceOverflow i)
  let code ← readField .accountCode [i] readBytes
  let deployerAddr ← readField .accountDeployer [i] readBytes
  let flags ← readField .accountFlags [i] readUvarint
  check (flags < 2 ^ 32) (.flagsOverflow i)
  let _ ← ofResult ((validateFlags (UInt32.ofNat flags)).mapError .flags)
  let managed ← readField .accountManaged [i] readBytes
  let managed ← ofResult ((unmarshalManagedBalance lib managed).mapError .managed)
  let closed ← readField .accountClosed [i] byte
  check (closed ≤ 1) (.invalidClosed closed)
  let count ← readField .storageCount [i] readUvarint
  let storage ← iterate (readSlot i) 0 count .empty
  pure
    { nonce := UInt64.ofNat nonce
      balance := BitVec.ofNat 256 (beNat balance)
      code := code
      deployerAddr := deployerAddr
      deployFlags := UInt32.ofNat flags
      managed := managed
      closed := closed = 1
      storage := storage }

def readAccount (i : ℕ) (s : StateData) : Reader CodecError StateData := do
  let raw ← readField .accountAddress [i] (full 20)
  check (s.account (BitVec.ofNat 160 (beNat raw))).isNone
    (.duplicateAccount (BitVec.ofNat 160 (beNat raw)))
  let acct ← readAccountFields lib i
  pure { s with accounts := s.accounts.alloc (BitVec.ofNat 160 (beNat raw)) acct }

def readTriggerFields (i : ℕ) : Reader CodecError Trigger := do
  let hrp ← readField .triggerPrefix [i] readBytes
  let version ← readField .triggerVersion [i] byte
  let typ ← readField .triggerType [i] byte
  let hash ← readField .triggerContract [i] (full 20)
  let id ← readField .triggerId [i] readBytes
  let kind ← readField .triggerKind [i] byte
  let height ← readField .triggerHeight [i] readUvarint
  let gasLimit ← readField .triggerGas [i] readUvarint
  check (gasLimit < 2 ^ 63) (.gasOverflow i)
  let calldata ← readField .triggerCalldata [i] readBytes
  let contract ← ofResult (orError
    (newContractAddress (bytesText hrp) version typ (BitVec.ofNat 160 (beNat hash))) (.triggerContract i))
  pure ⟨id, contract, kind, unzigzag height, gasLimit, calldata⟩

def readTrigger (i : ℕ) (s : StateData) : Reader CodecError StateData := do
  let trigger ← readTriggerFields i
  let registered ← ofResult ((s.registerTrigger trigger).mapError (.trigger i))
  pure registered.1

def readState : Reader CodecError StateData := do
  let magic ← readField .magic [] (full 8)
  check (magic = stateCodecMagic) .invalidMagic
  let version ← readField .version [] byte
  check (version = stateCodecVersion) (.unsupportedVersion version)
  let accountCount ← readField .accountCount [] readUvarint
  let s ← iterate (readAccount lib) 0 accountCount {}
  let triggerCount ← readField .triggerCount [] readUvarint
  iterate readTrigger 0 triggerCount s

def decodeMemoryStateDB (data : Bytes) : Except CodecError StateData := do
  let (s, rest) ← readState lib data
  require rest.isEmpty .trailingBytes
  .ok s

end

open PointerTable

structure WordSized (b : ManagedBalance) : Prop where
  value : b.value < 2 ^ 63
  bindings : ∀ a ∈ b.assets, a.bindingSat < 2 ^ 32

structure SoundAccount (acct : MemoryAccount) : Prop where
  flags : validateFlags acct.deployFlags = .ok ()
  managed : WordSized acct.managed
  selfDestruct : acct.selfDestruct = false

structure StorableAccount (acct : MemoryAccount) : Prop extends SoundAccount acct where
  ended : acct.endTransaction = acct

structure StorableTrigger (key : TriggerKey) (t : Trigger) : Prop where
  key : newTriggerKey t.contract t.id = key
  valid : t.validate = .ok ()
  gas : 0 < t.gasLimit
  gasRange : t.gasLimit < 2 ^ 63
  heightRange : t.height < 2 ^ 63
  contract : ∃ hrp version typ hash, newContractAddress hrp version typ hash = some t.contract

structure StorableTriggers (triggers : Std.ExtTreeMap TriggerKey Trigger) : Prop where
  each : ∀ {key t}, triggers[key]? = some t → StorableTrigger key t
  total : triggers.size ≤ maxEVMTriggersTotal
  perContract : ∀ contract : Address,
    (triggers.keys.filter (·.contract = contract)).length ≤ maxEVMTriggersPerContract

/-- Every account has a property, and the triggers are as they can be stored. -/
structure Holds (Q : MemoryAccount → Prop) (s : StateData) : Prop where
  accounts : ∀ {addr acct}, s.account addr = some acct → Q acct
  triggers : StorableTriggers s.triggers

abbrev Storable (s : StateData) : Prop := Holds StorableAccount s

theorem reads_full_beBytes (width n : ℕ) :
    Reads (Reader.full width) (beBytes width n) (beBytes width n) := by
  have h := Reads.full (beBytes width n)
  rwa [beBytes_length] at h

theorem reads_readBytes {b} (h : b.length < 2 ^ 64) : Reads readBytes (writeBytes b) b := by
  intro rest
  have huvarint := Reads.uvarint h (b ++ rest)
  have hle : b.length ≤ (b ++ rest).length := by
    rw [length_append]
    omega
  simp only [readBytes, writeBytes, append_assoc, Reader.left, bind, StateT.bind, Except.bind,
    huvarint, Reader.check, decide_eq_true hle, if_true]
  exact Reads.full b rest

variable {acct : MemoryAccount} {bytes managed : Bytes} {entry : Address × MemoryAccount}
  {t : Trigger}

theorem reads_field {α : Type} {f} {index} {r} {a : α} (h : Reads r bytes a) :
    Reads (readField f index r) bytes a := h.mapError

theorem ofNat_beNat_beBytes (width : ℕ) {w : ℕ} (v) (hw : 2 ^ w = 256 ^ width) :
    BitVec.ofNat w (beNat (beBytes width v.toNat)) = v := by
  rw [beNat_beBytes (hw ▸ v.isLt), BitVec.ofNat_toNat, BitVec.setWidth_eq]

theorem reads_slot (i j : ℕ) (storage) {slot} (hvalue : slot.2 ≠ 0) :
    Reads (readSlot i j storage) (storageBytes slot) (storage.set slot.1 slot.2) := by
  have hkey := ofNat_beNat_beBytes 32 slot.1 (by norm_num)
  have hval := ofNat_beNat_beBytes 32 slot.2 (by norm_num)
  refine (reads_field (reads_full_beBytes 32 _)).bind ?_
  refine (reads_field (reads_full_beBytes 32 _)).map_eq ?_
  rw [hkey, hval, if_neg hvalue]

theorem slots_foldl_set (m : Storage) {l : List (Hash × Hash)} (h : ∀ e ∈ l, e.2 ≠ 0) :
    (l.foldl (fun m e => m.set e.1 e.2) m).slots = l.foldl (fun t e => t.insert e.1 e.2) m.slots := by
  induction l generalizing m with
  | nil => rfl
  | cons e l ih =>
    obtain ⟨he, hl⟩ := forall_mem_cons.mp h
    rw [foldl_cons, foldl_cons, ih _ hl]
    congr 1
    rw [Storage.set, dif_neg he]

theorem Storage.foldl_set_toList (m : Storage) :
    m.slots.toList.foldl (fun m e => m.set e.1 e.2) {} = m := by
  apply Storage.ext
  rw [slots_foldl_set]
  · exact rebuild_toList m.slots
  · intro e he
    exact m.nonzero (Std.ExtTreeMap.mem_toList_iff_getElem?_eq_some.mp he)

theorem reads_storage (i : ℕ) (m : Storage) :
    Reads (Reader.iterate (readSlot i) 0 m.slots.toList.length {}) (m.slots.toList.flatMap storageBytes)
      m := by
  have hiterate : Reads (Reader.iterate (readSlot i) 0 m.slots.toList.length {})
      (m.slots.toList.flatMap storageBytes) (m.slots.toList.foldl (fun m e => m.set e.1 e.2) {}) := by
    apply Reads.iterate
    intro before e after hsplit
    rw [foldl_append]
    apply reads_slot
    have hmem : e ∈ m.slots.toList := hsplit ▸ mem_append_right _ mem_cons_self
    exact m.nonzero (Std.ExtTreeMap.mem_toList_iff_getElem?_eq_some.mp hmem)
  rwa [Storage.foldl_set_toList] at hiterate

variable {lib : DecimalLib}

theorem length_le_storageBytes (slots : List (Hash × Hash)) :
    slots.length ≤ (slots.flatMap storageBytes).length := by
  have h : slots.length * 1 ≤ (slots.flatMap storageBytes).length := by
    apply length_mul_le_flatMap
    intro slot _
    rw [storageBytes, length_append, beBytes_length]
    omega
  omega

def MemoryAccount.stored (acct : MemoryAccount) : MemoryAccount :=
  { acct with managed := acct.managed.normalize }

theorem StorableAccount.eta (h : StorableAccount acct) :
    ({ nonce := acct.nonce, balance := acct.balance, code := acct.code
       deployerAddr := acct.deployerAddr, deployFlags := acct.deployFlags
       managed := acct.managed.normalize, closed := acct.closed
       storage := acct.storage } : MemoryAccount) = acct.stored := by
  have htransient : acct.transient = {} := congrArg MemoryAccount.transient h.ended.symm
  have hnew : acct.newContract = false := congrArg MemoryAccount.newContract h.ended.symm
  have htouched : acct.touched = false := congrArg MemoryAccount.touched h.ended.symm
  rw [MemoryAccount.stored, htransient, hnew, htouched, h.selfDestruct]

theorem reads_accountFields (hlib : PrecisionRange lib) (i : ℕ) {addr : Address}
    (hacct : StorableAccount acct) (hmanaged : acct.managed.marshalBinary lib = .ok managed)
    (hsize : (accountBytes (addr, acct) managed).length < 2 ^ 64) :
    Reads (readAccountFields lib i) ((accountBytes (addr, acct) managed).drop 20) acct.stored := by
  have hslots := length_le_storageBytes acct.storage.slots.toList
  simp only [accountBytes, writeBytes, length_append] at hsize
  rw [accountBytes, drop_left' (beBytes_length 20 _)]
  dsimp only
  have hbalance : (natBytes acct.balance.toNat).length ≤ 32 :=
    natBytes_length_le (lt_of_lt_of_eq acct.balance.isLt (by norm_num))
  have hdecoded := unmarshal_marshalBinary hlib hmanaged hacct.managed.value hacct.managed.bindings
    (by omega)
  have hflags : UInt32.ofNat acct.deployFlags.toNat = acct.deployFlags := UInt32.ofNat_toNat
  have hclosed : (if acct.closed then 1 else 0 : UInt8) ≤ 1 := by split <;> decide
  have hflag : decide ((if acct.closed then 1 else 0 : UInt8) = 1) = acct.closed := by
    cases acct.closed <;> rfl
  refine (reads_field (.uvarint acct.nonce.toNat_lt)).bind ?_
  refine (reads_field (reads_readBytes (by omega))).bind (.check_bind (decide_eq_true hbalance) ?_)
  refine (reads_field (reads_readBytes (by omega))).bind ?_
  refine (reads_field (reads_readBytes (by omega))).bind ?_
  refine (reads_field (.uvarint (by have := acct.deployFlags.toNat_lt; omega))).bind
    (.check_bind (decide_eq_true acct.deployFlags.toNat_lt) ?_)
  rw [hflags]
  refine (Reads.ofResult (mapError_eq_ok.mpr hacct.flags)).bind ?_
  refine (reads_field (reads_readBytes (by omega))).bind ?_
  refine (Reads.ofResult (mapError_eq_ok.mpr hdecoded)).bind ?_
  refine (reads_field (.byte _)).bind (.check_bind (decide_eq_true hclosed) ?_)
  refine (reads_field (.uvarint (by omega))).bind ?_
  refine (reads_storage i acct.storage).map_eq ?_
  rw [hflag, beNat_natBytes, BitVec.ofNat_toNat, BitVec.setWidth_eq, UInt64.ofNat_toNat]
  exact hacct.eta

def addAccount (s : StateData) (entry : Address × MemoryAccount) : StateData :=
  { s with accounts := s.accounts.alloc entry.1 entry.2.stored }

variable {data : Bytes} {s : StateData}

theorem reads_account (hlib : PrecisionRange lib) (i : ℕ) (hacct : StorableAccount entry.2)
    (hmanaged : entry.2.managed.marshalBinary lib = .ok managed)
    (hsize : (accountBytes entry managed).length < 2 ^ 64) (hnew : s.account entry.1 = none) :
    Reads (readAccount lib i s) (accountBytes entry managed) (addAccount s entry) := by
  have hfields := reads_accountFields hlib i hacct hmanaged hsize
  have hsplit : accountBytes entry managed =
      beBytes 20 entry.1.toNat ++ (accountBytes entry managed).drop 20 := by
    rw [accountBytes, drop_left' (beBytes_length 20 _)]
  have haddr := ofNat_beNat_beBytes 20 entry.1 (by norm_num)
  rw [hsplit]
  refine (reads_field (reads_full_beBytes 20 _)).bind ?_
  rw [haddr, hnew]
  exact .check_bind rfl hfields.map

theorem foldl_addAccount (l : List (Address × MemoryAccount)) :
    (l.foldl addAccount {}).accounts.values = rebuild (l.map fun e => (e.1, e.2.stored)) ∧
      (l.foldl addAccount {}).triggers = ∅ := by
  induction l using reverseRecOn with
  | nil => exact ⟨Std.ExtTreeMap.ext_getElem? fun {k} => by simp [lookup, rebuild], rfl⟩
  | append_singleton l e ih =>
    rw [foldl_append, foldl_cons, foldl_nil, map_append, map_singleton,
      rebuild_append_singleton, ← ih.1]
    exact ⟨values_alloc _ _ _, ih.2⟩

def storedAccount (entry : Address × MemoryAccount) : Bytes :=
  accountBytes entry (managedHeader ++ managedBytes entry.2.managed.normalize)

theorem encodeAccount_eq_ok :
    encodeAccount lib entry = .ok bytes ↔ validateFlags entry.2.deployFlags = .ok () ∧
      entry.2.managed.marshalBinary lib =
        .ok (managedHeader ++ managedBytes entry.2.managed.normalize) ∧ storedAccount entry = bytes := by
  simp only [encodeAccount, bind_eq_ok, mapError_eq_ok, Except.ok.injEq]
  constructor
  · rintro ⟨_, hflags, managed, hmanaged, rfl⟩
    obtain ⟨-, -, rfl⟩ := marshalBinary_eq_ok.mp hmanaged
    exact ⟨hflags, hmanaged, rfl⟩
  · rintro ⟨hflags, hmanaged, rfl⟩
    exact ⟨_, hflags, _, hmanaged, rfl⟩

def storedAccounts (s : StateData) : Std.ExtTreeMap Address MemoryAccount :=
  s.accounts.values.map fun _ acct => acct.stored

theorem toList_storedAccounts (s) :
    (storedAccounts s).toList = s.accounts.values.toList.map fun e => (e.1, e.2.stored) :=
  Std.ExtTreeMap.toList_map

theorem reads_accounts (hlib : PrecisionRange lib)
    (hacct : ∀ {addr acct}, s.account addr = some acct → StorableAccount acct)
    (hencode : ∀ entry ∈ s.accounts.values.toList, ∃ bytes, encodeAccount lib entry = .ok bytes)
    (hsize : (s.accounts.values.toList.flatMap storedAccount).length < 2 ^ 64) :
    Reads (Reader.iterate (readAccount lib) 0 s.accounts.values.toList.length {})
      (s.accounts.values.toList.flatMap storedAccount) (s.accounts.values.toList.foldl addAccount {}) := by
  apply Reads.iterate
  intro before e after hsplit
  have hmem : e ∈ s.accounts.values.toList := hsplit ▸ mem_append_right _ mem_cons_self
  obtain ⟨_, hbytes⟩ := hencode e hmem
  obtain ⟨-, hmanaged, -⟩ := encodeAccount_eq_ok.mp hbytes
  have hlookup := Std.ExtTreeMap.mem_toList_iff_getElem?_eq_some.mp hmem
  rw [getElem?_values] at hlookup
  rw [foldl_append]
  apply reads_account hlib _ (hacct hlookup) hmanaged
  · exact lt_of_le_of_lt (length_le_flatMap storedAccount hmem) hsize
  · have hfront := toList_storedAccounts s
    rw [hsplit, map_append, map_cons] at hfront
    show lookup _ _ = none
    rw [← getElem?_values, (foldl_addAccount before).1]
    have hnone := getElem?_rebuild_front hfront
    exact hnone

theorem newContractAddress_self {hrp : Text} {version typ hash} {c}
    (h : newContractAddress hrp version typ hash = some c) :
    newContractAddress c.hrp (c.payload.getD 0 0) (c.payload.getD 1 0) (contractAddressHash c) =
      some c := by
  unfold newContractAddress at h
  dsimp only at h
  split_ifs at h with hvalid
  · cases h
    have hhash : contractAddressHash ⟨hrp.map Char.toLower, version :: typ :: beBytes 20 hash.toNat⟩ =
        hash := by
      show BitVec.ofNat 160 (beNat ((beBytes 20 hash.toNat ++ _).take 20)) = hash
      rw [take_left' (beBytes_length 20 _), ofNat_beNat_beBytes 20 hash (by norm_num)]
    have hlower : (hrp.map Char.toLower).map Char.toLower = hrp.map Char.toLower := by
      have hmem : hrp.map Char.toLower ∈ contractPrefixes := by
        simp only [Bool.and_eq_true, contains_iff_mem] at hvalid
        exact hvalid.1.1
      generalize hrp.map Char.toLower = l at hmem ⊢
      simp only [contractPrefixes, mem_cons, not_mem_nil, or_false] at hmem
      rcases hmem with rfl | rfl <;> decide
    unfold newContractAddress
    rw [hhash]
    dsimp only
    rw [hlower]
    exact if_pos hvalid

theorem Trigger.validate_eq_ok {r} : t.validate = .ok r ↔
    t.id ≠ [] ∧ validateContractAddress t.contract = true ∧ t.kind = triggerAtHeight ∧ 0 ≤ t.height := by
  simp [Trigger.validate, bind_eq_ok, require_eq_ok]

theorem reads_triggerFields (i : ℕ) {key} (h : StorableTrigger key t)
    (hsize : (triggerBytes t).length < 2 ^ 64) :
    Reads (readTriggerFields i) (triggerBytes t) t := by
  obtain ⟨hrp, version, typ, hash, hcontract⟩ := h.contract
  obtain ⟨-, -, -, hheight⟩ := Trigger.validate_eq_ok.mp h.valid
  have hgas := h.gas
  have hgasRange := h.gasRange
  have haddr := ofNat_beNat_beBytes 20 (contractAddressHash t.contract) (by norm_num)
  simp only [triggerBytes, writeBytes, length_append] at hsize
  rw [triggerBytes]
  refine (reads_field (reads_readBytes (by omega))).bind ?_
  refine (reads_field (.byte _)).bind ((reads_field (.byte _)).bind ?_)
  refine (reads_field (reads_full_beBytes 20 _)).bind ?_
  refine (reads_field (reads_readBytes (by omega))).bind ((reads_field (.byte _)).bind ?_)
  refine (reads_field (.uvarint (zigzag_lt (by omega) h.heightRange))).bind ?_
  refine (reads_field (.uvarint (by omega))).bind (.check_bind (decide_eq_true (by omega)) ?_)
  rw [← append_nil (writeBytes t.calldata)]
  refine (reads_field (reads_readBytes (by omega))).bind ?_
  rw [haddr, bytesText_textBytes, newContractAddress_self hcontract]
  refine (Reads.ofResult rfl).map_eq ?_
  rw [unzigzag_zigzag, Int.toNat_of_nonneg (by omega)]

def addTrigger (s : StateData) (entry : TriggerKey × Trigger) : StateData :=
  { s with triggers := s.triggers.insert entry.1 entry.2 }

theorem foldl_addTrigger (s : StateData) (l : List (TriggerKey × Trigger)) :
    (l.foldl addTrigger s).accounts = s.accounts ∧
      (l.foldl addTrigger s).triggers = l.foldl (fun m e => m.insert e.1 e.2) s.triggers := by
  induction l generalizing s with
  | nil => exact ⟨rfl, rfl⟩
  | cons e l ih => exact ih (addTrigger s e)

theorem reads_trigger (i : ℕ) {entry} (h : StorableTrigger entry.1 entry.2)
    (hsize : (triggerBytes entry.2).length < 2 ^ 64) (hnew : s.triggers[entry.1]? = none)
    (htotal : s.triggers.size < maxEVMTriggersTotal)
    (hcontract : (s.triggers.keys.filter (·.contract = entry.1.contract)).length <
      maxEVMTriggersPerContract) :
    Reads (readTrigger i s) (triggerBytes entry.2) (addTrigger s entry) := by
  have hregister : s.registerTrigger entry.2 = .ok (addTrigger s entry, [.trigger entry.1 none]) := by
    simp only [StateData.registerTrigger, h.valid, h.key, hnew]
    simp [require, h.gas, htotal, hcontract, addTrigger, bind, Except.bind]
  rw [← append_nil (triggerBytes entry.2)]
  refine (reads_triggerFields i h hsize).bind ?_
  refine (Reads.ofResult (mapError_eq_ok.mpr hregister)).map

theorem reads_triggers {t : StateData} (h : StorableTriggers s.triggers) (hempty : t.triggers = ∅)
    (hsize : (s.triggers.toList.flatMap fun entry => triggerBytes entry.2).length < 2 ^ 64) :
    Reads (Reader.iterate readTrigger 0 s.triggers.toList.length t)
      (s.triggers.toList.flatMap fun entry => triggerBytes entry.2)
      (s.triggers.toList.foldl addTrigger t) := by
  apply Reads.iterate
  intro before e after hsplit
  have hmem : e ∈ s.triggers.toList := hsplit ▸ mem_append_right _ mem_cons_self
  have hbefore : (before.foldl addTrigger t).triggers = rebuild before := by
    rw [(foldl_addTrigger t before).2, hempty]
    rfl
  have hcount : ∀ p : TriggerKey → Bool, p e.1 = true →
      ((rebuild before).keys.filter p).length < (s.triggers.keys.filter p).length := fun p hp => by
    rw [← countP_eq_length_filter, ← countP_eq_length_filter]
    exact countP_keys_rebuild_lt hsplit p hp
  rw [foldl_append]
  apply reads_trigger _ (h.each (Std.ExtTreeMap.mem_toList_iff_getElem?_eq_some.mp hmem))
  · have hle := length_le_flatMap (fun entry : TriggerKey × Trigger => triggerBytes entry.2) hmem
    exact lt_of_le_of_lt hle hsize
  · rw [hbefore]
    exact getElem?_rebuild_front hsplit
  · have hlt := hcount (fun _ => true) rfl
    have htotal := h.total
    simp only [filter_true, Std.ExtTreeMap.length_keys] at hlt
    rw [hbefore]
    omega
  · have hlt := hcount (fun key => key.contract = e.1.contract) (decide_eq_true rfl)
    rw [hbefore]
    exact hlt.trans_le (h.perContract e.1.contract)

/-! ### The whole state -/

def storedState (s : StateData) : StateData :=
  s.triggers.toList.foldl addTrigger (s.accounts.values.toList.foldl addAccount {})

theorem storedState_spec (s : StateData) :
    (storedState s).accounts.values = storedAccounts s ∧ (storedState s).triggers = s.triggers := by
  obtain ⟨haccounts, htriggers⟩ := foldl_addAccount s.accounts.values.toList
  obtain ⟨haccounts', htriggers'⟩ := foldl_addTrigger (s.accounts.values.toList.foldl addAccount {})
    s.triggers.toList
  constructor
  · rw [storedState, haccounts', haccounts, ← toList_storedAccounts, rebuild_toList]
  · rw [storedState, htriggers', htriggers]
    exact rebuild_toList s.triggers

def storedBytes (s : StateData) : Bytes :=
  stateCodecMagic ++ ([stateCodecVersion] ++ (putUvarint s.accounts.values.toList.length ++
    (s.accounts.values.toList.flatMap storedAccount ++ (putUvarint s.triggers.toList.length ++
      s.triggers.toList.flatMap fun entry => triggerBytes entry.2))))

theorem stateMarshal_eq_ok : s.marshalBinary lib = .ok data ↔
    (∀ entry ∈ s.accounts.values.toList, ∃ bytes, encodeAccount lib entry = .ok bytes) ∧
      storedBytes s = data := by
  have hg : ∀ entry bytes, encodeAccount lib entry = .ok bytes → storedAccount entry = bytes :=
    fun _ _ h => (encodeAccount_eq_ok.mp h).2.2
  simp only [StateData.marshalBinary, bind_eq_ok, mapM_eq_ok_iff hg, Except.ok.injEq,
    StateData.sortedTriggers]
  constructor
  · rintro ⟨_, ⟨hall, rfl⟩, rfl⟩
    refine ⟨hall, ?_⟩
    rw [storedBytes, length_map, length_map, flatMap_map]
    rfl
  · rintro ⟨hall, rfl⟩
    refine ⟨_, ⟨hall, rfl⟩, ?_⟩
    rw [storedBytes, length_map, length_map, flatMap_map]
    rfl

theorem decode_marshalBinary (hlib : PrecisionRange lib) (hs : Storable s)
    (h : s.marshalBinary lib = .ok data) (hsize : data.length < 2 ^ 64) :
    decodeMemoryStateDB lib data = .ok (storedState s) := by
  obtain ⟨hencode, rfl⟩ := stateMarshal_eq_ok.mp h
  simp only [storedBytes, length_append] at hsize
  have haccounts : s.accounts.values.toList.length ≤
      (s.accounts.values.toList.flatMap storedAccount).length := by
    have hmul : s.accounts.values.toList.length * 1 ≤
        (s.accounts.values.toList.flatMap storedAccount).length := by
      apply length_mul_le_flatMap
      intro entry _
      rw [storedAccount, accountBytes, length_append, beBytes_length]
      omega
    omega
  have htriggers : s.triggers.toList.length ≤ 2 ^ 63 := by
    have htotal := hs.triggers.total
    rw [Std.ExtTreeMap.length_toList]
    unfold maxEVMTriggersTotal at htotal
    omega
  have hread : Reads (readState lib) (storedBytes s) (storedState s) := by
    refine (reads_field (.full stateCodecMagic)).bind (.check_bind rfl ?_)
    refine (reads_field (.byte stateCodecVersion)).bind (.check_bind rfl ?_)
    refine (reads_field (.uvarint (by omega))).bind ?_
    refine (reads_accounts hlib hs.accounts hencode (by omega)).bind ?_
    refine (reads_field (.uvarint (by omega))).bind ?_
    exact reads_triggers hs.triggers (foldl_addAccount _).2 (by omega)
  rw [decodeMemoryStateDB, hread.run_eq]
  rfl

theorem account_storedState (s) (addr) :
    (storedState s).account addr = (s.account addr).map MemoryAccount.stored := by
  show lookup _ _ = _
  rw [← getElem?_values, (storedState_spec s).1, storedAccounts,
    Std.ExtTreeMap.getElem?_map, getElem?_values]
  rfl

theorem marshalBinary_storedState (h : s.marshalBinary lib = .ok data) :
    (storedState s).marshalBinary lib = .ok data := by
  obtain ⟨hencode, rfl⟩ := stateMarshal_eq_ok.mp h
  obtain ⟨haccounts, htriggers⟩ := storedState_spec s
  have hsame : ∀ e : Address × MemoryAccount, storedAccount (e.1, e.2.stored) = storedAccount e := by
    intro e
    show accountBytes e (managedHeader ++ managedBytes e.2.managed.normalize.normalize) = _
    rw [ManagedBalance.normalize_normalize]
    rfl
  refine stateMarshal_eq_ok.mpr ⟨?_, ?_⟩
  · intro entry hentry
    rw [haccounts, toList_storedAccounts] at hentry
    obtain ⟨e, he, rfl⟩ := mem_map.mp hentry
    obtain ⟨bytes, hbytes⟩ := hencode e he
    obtain ⟨hflags, hmanaged, -⟩ := encodeAccount_eq_ok.mp hbytes
    obtain ⟨hvalid, hamounts, -⟩ := marshalBinary_eq_ok.mp hmanaged
    refine ⟨_, encodeAccount_eq_ok.mpr ⟨hflags, marshalBinary_eq_ok.mpr ⟨hvalid.normalize, ?_, rfl⟩, rfl⟩⟩
    show ∀ a ∈ e.2.managed.normalize.normalize.assets, _
    rwa [ManagedBalance.normalize_normalize]
  · rw [storedBytes, storedBytes, haccounts, htriggers, toList_storedAccounts, length_map,
      flatMap_map]
    simp only [hsame]

end SatoshiNet.Evm
