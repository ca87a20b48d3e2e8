import SatoshiNet.Lib.Spelling
import SatoshiNet.Wire.Encoding

/-!
Transactions on the wire, with and without witnesses.

A transaction is read in two steps.  The first takes the bytes apart and makes every check; the
second turns numbers and texts into the values that the node keeps, and there something can be lost.
-/

namespace SatoshiNet.Wire

open Lib List
open Reader
open MsgTxIn

inductive MessageEncoding
  | base | witness
deriving DecidableEq

structure WireAsset where
  (protocol type ticker amount : Bytes)
  bindingSat : ℕ
deriving DecidableEq

structure WireTxOut where
  value : ℤ
  assets : List WireAsset
  pkScript : Script
deriving DecidableEq

structure WireTx where
  version : ℤ
  txIn : List MsgTxIn
  txOut : List WireTxOut
  lockTime : UInt32
deriving DecidableEq

def maxMessagePayload : ℕ := 1024 * 1024 * 32

def maxTxInPerMessage : ℕ := maxMessagePayload / 41 + 1

def maxTxOutPerMessage : ℕ := maxMessagePayload / 9 + 1

def maxWitnessItemsPerInput : ℕ := 4000000

def maxWitnessItemSize : ℕ := 4000000

def hasWitness (txIn : List MsgTxIn) : Bool := txIn.any fun ti => !ti.witness.isEmpty

section Read

open Reader

def readFull (n : ℕ) : Reader WireError Bytes := (full n).mapError fun _ => .unexpectedEOF

def readLe (width : ℕ) : Reader WireError ℕ := le .unexpectedEOF width

def readInt (width : ℕ) : Reader WireError ℤ := do
  let n ← readLe width
  pure (if 2 * n < 256 ^ width then n else n - 256 ^ width)

def readVarIntBuf : Reader WireError ℕ := readVarInt

def readScriptBuf (room : ℕ) : Reader WireError Script := do
  let count ← readVarIntBuf
  check (count ≤ maxWitnessItemSize) .tooLarge
  check (count ≤ room) .tooLarge
  readFull count

def readStringBuf (room : ℕ) : Reader WireError Bytes := do
  let count ← readVarIntBuf
  check (count ≤ room) .tooLarge
  readFull count

variable (lib : TextLib) (room : ℕ)

def readAssetBuf : Reader WireError WireAsset := do
  let protocol ← readStringBuf room
  let type ← readStringBuf room
  let ticker ← readStringBuf room
  let amount ← readStringBuf room
  check (lib.newDecimalFromFormatString amount).isSome .invalidAmount
  let bindingSat ← readVarIntBuf
  pure ⟨protocol, type, ticker, amount, bindingSat⟩

def assetsReadFromBuf : Reader WireError (List WireAsset) := do
  let count ← readVarIntBuf
  times (readAssetBuf lib room) count

def readTxInBuf : Reader WireError MsgTxIn := do
  let hash ← readLe 32
  let index ← readLe 4
  let signatureScript ← readScriptBuf room
  let sequence ← readLe 4
  pure ⟨⟨.ofNat 256 hash, .ofNat index⟩, signatureScript, [], .ofNat sequence⟩

def readTxOutBuf : Reader WireError WireTxOut := do
  let value ← readInt 8
  let assets ← assetsReadFromBuf lib room
  let pkScript ← readScriptBuf room
  pure ⟨value, assets, pkScript⟩

def readWitness : Reader WireError (List Bytes × ℕ) := do
  let count ← readVarIntBuf
  check (count ≤ maxWitnessItemsPerInput) .tooLarge
  timesWithin readScriptBuf length count room

def readWitnesses : List MsgTxIn → ℕ → Reader WireError (List MsgTxIn)
  | [], _ => pure []
  | ti :: rest, room => do
    let items ← readWitness room
    let rest ← readWitnesses rest items.2
    pure ({ ti with witness := items.1 } :: rest)

/-- The number of inputs.  In the witness encoding a zero is the marker, and the flag follows. -/
def readInputCount (enc : MessageEncoding) : Reader WireError (Bool × ℕ) := do
  let count ← readVarIntBuf
  if count = 0 ∧ enc = .witness then do
    let flag ← readLe 1
    check (flag = 1) .badFlag
    let count ← readVarIntBuf
    pure (true, count)
  else pure (false, count)

def readFlagged (flagged : Bool) (txIn : List MsgTxIn) (room : ℕ) :
    Reader WireError (List MsgTxIn) :=
  if flagged then do
    let txIn ← readWitnesses txIn room
    check (hasWitness txIn) .superfluousWitness
    pure txIn
  else pure txIn

def readTx (enc : MessageEncoding) : Reader WireError WireTx := do
  let version ← readInt 4
  let inputs ← readInputCount enc
  check (inputs.2 ≤ maxTxInPerMessage) .tooLarge
  let ins ← timesWithin readTxInBuf (·.signatureScript.length) inputs.2 scriptSlabSize
  let count ← readVarIntBuf
  check (count ≤ maxTxOutPerMessage) .tooLarge
  let outs ← timesWithin (readTxOutBuf lib) (·.pkScript.length) count ins.2
  let txIn ← readFlagged inputs.1 ins.1 outs.2
  let lockTime ← readLe 4
  pure ⟨version, txIn, outs.1, .ofNat lockTime⟩

end Read

section Keep

variable (lib : TextLib)

def WireAsset.info (a : WireAsset) : AssetInfo :=
  ⟨⟨lib.bytesString a.protocol, lib.bytesString a.type, lib.bytesString a.ticker⟩,
    (lib.newDecimalFromFormatString a.amount).getD ⟨0, 0⟩, a.bindingSat % 2 ^ 32⟩

def deserializeTxAssets (data : Bytes) : Except WireError TxAssets := do
  let (assets, _) ← assetsReadFromBuf lib scriptSlabSize data
  .ok (assets.map (·.info lib))

def WireTxOut.txOut (out : WireTxOut) : TxOut := ⟨out.value, out.assets.map (·.info lib), out.pkScript⟩

def WireTx.msgTx (tx : WireTx) : MsgTx := ⟨tx.version, tx.txIn, tx.txOut.map (·.txOut lib), tx.lockTime⟩

variable (enc : MessageEncoding) (tx : MsgTx)

def MsgTx.btcDecode : Reader WireError MsgTx := do
  let tx ← readTx lib enc
  pure (tx.msgTx lib)

/-! ### Writing -/

def witnessBytes (ti : MsgTxIn) : Bytes :=
  writeVarInt ti.witness.length ++ ti.witness.flatMap writeVarBytes

def MsgTx.doWitness : Bool := enc = .witness && hasWitness tx.txIn

def MsgTx.btcEncode : Written :=
  (Written.done (leBytes 4 (tx.version % 2 ^ 32).toNat ++ ((if tx.doWitness enc then [0, 1] else []) ++
      (writeVarInt tx.txIn.length ++ tx.txIn.flatMap txInBytes)))).andThen
    ((writeTxOuts lib tx.txOut).andThen (.done
      ((if tx.doWitness enc then tx.txIn.flatMap witnessBytes else []) ++ leBytes 4 tx.lockTime.toNat)))

def varIntSerializeSize (val : ℕ) : ℕ :=
  if val < 0xfd then 1 else if val ≤ 0xffff then 3 else if val ≤ 0xffffffff then 5 else 9

def MsgTxIn.serializeSize (ti : MsgTxIn) : ℕ :=
  40 + varIntSerializeSize ti.signatureScript.length + ti.signatureScript.length

def witnessSerializeSize (items : List Bytes) : ℕ :=
  varIntSerializeSize items.length +
    (items.map fun item => varIntSerializeSize item.length + item.length).sum

def textSerializeSize (text : Bytes) : ℕ := varIntSerializeSize text.length + text.length

def assetSerializeSize (asset : AssetInfo) : ℕ :=
  textSerializeSize (lib.stringBytes asset.name.protocol) +
    textSerializeSize (lib.stringBytes asset.name.type) +
    textSerializeSize (lib.stringBytes asset.name.ticker) +
    textSerializeSize (lib.toFormatString asset.amount) + varIntSerializeSize asset.bindingSat

def txAssetsSerializeSize (assets : TxAssets) : ℕ :=
  varIntSerializeSize assets.length + (assets.map (assetSerializeSize lib)).sum

def TxOut.serializeSize (out : TxOut) : ℕ :=
  8 + txAssetsSerializeSize lib out.assets +
    (varIntSerializeSize out.pkScript.length + out.pkScript.length)

def scriptLocs : ℕ → List TxOut → List ℕ
  | _, [] => []
  | n, out :: rest =>
    let n := n + (8 + txAssetsSerializeSize lib out.assets + varIntSerializeSize out.pkScript.length)
    n :: scriptLocs (n + out.pkScript.length) rest

/-- The first witness may be an empty list and yet be `given`; the marker is counted by that. -/
def MsgTx.pkScriptLocs (given : Bool) (tx : MsgTx) : List ℕ :=
  scriptLocs lib (4 + varIntSerializeSize tx.txIn.length + varIntSerializeSize tx.txOut.length +
    (if !tx.txIn.isEmpty && given then 2 else 0) + (tx.txIn.map serializeSize).sum) tx.txOut

def MsgTx.baseSize : ℕ :=
  8 + varIntSerializeSize tx.txIn.length + varIntSerializeSize tx.txOut.length +
    (tx.txIn.map serializeSize).sum + (tx.txOut.map (TxOut.serializeSize lib)).sum

def MsgTx.serializeSize : ℕ :=
  tx.baseSize lib + if hasWitness tx.txIn then
    2 + (tx.txIn.map fun ti => witnessSerializeSize ti.witness).sum else 0

end Keep

/-! ### What is accepted -/

variable {data rest : Bytes} {room : ℕ} {txIn : List MsgTxIn} {n : ℕ} {out : List MsgTxIn} {v : ℤ}

theorem readWide_eq_ok {width least : ℕ} (h : readWide width least data = .ok (n, rest)) :
    least ≤ n ∧ n < 256 ^ width ∧ data = leBytes width n ++ rest := by
  rw [readWide] at h
  split_ifs at h with hlong hleast
  · cases h
    have hlen : (data.take width).length = width := length_take_of_le (by omega)
    have hlt := leNat_lt (data.take width)
    have hback := leBytes_leNat (data.take width)
    rw [hlen] at hlt hback
    exact ⟨by omega, hlt, by rw [hback, take_append_drop]⟩

theorem spells_readVarIntBuf : Spells readVarIntBuf (· < 2 ^ 64) writeVarInt := by
  intro data n rest
  constructor
  · intro h
    cases data with
    | nil => cases h
    | cons discriminant data =>
      simp only [readVarIntBuf, readVarInt] at h
      split_ifs at h with h8 h4 h2
      · obtain ⟨hleast, hlt, rfl⟩ := readWide_eq_ok h
        refine ⟨hlt, ?_⟩
        rw [writeVarInt, if_neg (by omega), if_neg (by omega), if_neg (by omega), h8, cons_append]
      · obtain ⟨hleast, hlt, rfl⟩ := readWide_eq_ok h
        refine ⟨by omega, ?_⟩
        rw [writeVarInt, if_neg (by omega), if_neg (by omega), if_pos (by omega), h4, cons_append]
      · obtain ⟨hleast, hlt, rfl⟩ := readWide_eq_ok h
        refine ⟨by omega, ?_⟩
        rw [writeVarInt, if_neg (by omega), if_pos (by omega), h2, cons_append]
      · cases h
        have hlt : discriminant.toNat < 256 := discriminant.toNat_lt
        have h8' : discriminant.toNat ≠ 0xff := fun heq => h8 (UInt8.toNat_inj.mp heq)
        have h4' : discriminant.toNat ≠ 0xfe := fun heq => h4 (UInt8.toNat_inj.mp heq)
        have h2' : discriminant.toNat ≠ 0xfd := fun heq => h2 (UInt8.toNat_inj.mp heq)
        refine ⟨by omega, ?_⟩
        rw [writeVarInt, if_pos (by omega), UInt8.ofNat_toNat, singleton_append]
  · rintro ⟨hn, rfl⟩
    exact readVarInt_writeVarInt hn rest

theorem run_readFull {bytes} :
    readFull n data = .ok (bytes, rest) ↔ bytes.length = n ∧ data = bytes ++ rest :=
  run_mapError.trans run_full

theorem spells_readInt (width : ℕ) : Spells (readInt width)
    (fun v => -256 ^ width ≤ 2 * v ∧ 2 * v < 256 ^ width)
    fun v => leBytes width (v % 256 ^ width).toNat := by
  have hpos : 0 < 256 ^ width := Nat.pow_pos (by decide)
  intro data v rest
  simp only [readInt, readLe, run_bind, run_le, run_pure]
  have hcast : ((256 ^ width : ℕ) : ℤ) = 256 ^ width := Nat.cast_pow 256 width
  generalize 256 ^ width = size at hpos hcast ⊢
  rw [← hcast]
  constructor
  · rintro ⟨n, _, ⟨hn, rfl⟩, hv, rfl⟩
    have hmod : v % (size : ℤ) = n := by
      split at hv
      · rw [hv]
        exact Int.emod_eq_of_lt (by omega) (by omega)
      · rw [hv, Int.sub_emod_right]
        exact Int.emod_eq_of_lt (by omega) (by omega)
    refine ⟨?_, by rw [hmod, Int.toNat_natCast]⟩
    split at hv <;> omega
  · rintro ⟨⟨hlow, hhigh⟩, rfl⟩
    have hnonneg := Int.emod_nonneg v (b := size) (by omega)
    have hlt := Int.emod_lt_of_pos v (b := size) (by omega)
    refine ⟨(v % size).toNat, rest, ⟨by omega, rfl⟩, ?_, rfl⟩
    rw [Int.toNat_of_nonneg hnonneg]
    by_cases hneg : v < 0
    · have hmod : v % (size : ℤ) = v + size := by
        rw [← Int.add_emod_right]
        exact Int.emod_eq_of_lt (by omega) (by omega)
      rw [if_neg (by omega), hmod]
      omega
    · have hmod : v % (size : ℤ) = v := Int.emod_eq_of_lt (by omega) (by omega)
      rw [if_pos (by omega), hmod]

theorem spells_readScriptBuf (room : ℕ) : Spells (readScriptBuf room)
    (fun script => script.length ≤ maxWitnessItemSize ∧ script.length ≤ room) writeVarBytes := by
  intro data script rest
  simp only [readScriptBuf, run_bind, spells_readVarIntBuf, run_check, run_readFull,
    decide_eq_true_eq]
  constructor
  · rintro ⟨count, _, ⟨-, rfl⟩, _, _, ⟨hitem, rfl⟩, _, _, ⟨hroom, rfl⟩, rfl, rfl⟩
    exact ⟨⟨hitem, hroom⟩, (append_assoc _ _ _).symm⟩
  · rintro ⟨⟨hitem, hroom⟩, rfl⟩
    have hlt : script.length < 2 ^ 64 := by
      unfold maxWitnessItemSize at hitem
      omega
    exact ⟨script.length, script ++ rest, ⟨hlt, append_assoc _ _ _⟩, (), _, ⟨hitem, rfl⟩, (), _,
      ⟨hroom, rfl⟩, rfl, rfl⟩

theorem spells_readStringBuf (room : ℕ) : Spells (readStringBuf room)
    (fun text => text.length < 2 ^ 64 ∧ text.length ≤ room) writeVarBytes := by
  intro data text rest
  simp only [readStringBuf, run_bind, spells_readVarIntBuf, run_check, run_readFull,
    decide_eq_true_eq]
  constructor
  · rintro ⟨count, _, ⟨hlt, rfl⟩, _, _, ⟨hle, rfl⟩, rfl, rfl⟩
    exact ⟨⟨hlt, hle⟩, (append_assoc _ _ _).symm⟩
  · rintro ⟨⟨hlt, hle⟩, rfl⟩
    exact ⟨text.length, text ++ rest, ⟨hlt, append_assoc _ _ _⟩, (), _, ⟨hle, rfl⟩, rfl, rfl⟩

def WireAsset.bytes (a : WireAsset) : Bytes :=
  writeVarBytes a.protocol ++ (writeVarBytes a.type ++ (writeVarBytes a.ticker ++
    (writeVarBytes a.amount ++ writeVarInt a.bindingSat)))

def WireTxOut.bytes (out : WireTxOut) : Bytes :=
  int64Bytes out.value ++ (writeVarInt out.assets.length ++ (out.assets.flatMap WireAsset.bytes ++
    writeVarBytes out.pkScript))

structure WireAsset.Fits (lib : TextLib) (room : ℕ) (a : WireAsset) : Prop where
  protocol : a.protocol.length < 2 ^ 64 ∧ a.protocol.length ≤ room
  type : a.type.length < 2 ^ 64 ∧ a.type.length ≤ room
  ticker : a.ticker.length < 2 ^ 64 ∧ a.ticker.length ≤ room
  amount : a.amount.length < 2 ^ 64 ∧ a.amount.length ≤ room
  decimal : (lib.newDecimalFromFormatString a.amount).isSome = true
  bindingSat : a.bindingSat < 2 ^ 64

structure WireTxOut.Fits (lib : TextLib) (room : ℕ) (out : WireTxOut) : Prop where
  value : -2 ^ 63 ≤ out.value ∧ out.value < 2 ^ 63
  count : out.assets.length < 2 ^ 64
  assets : ∀ a ∈ out.assets, a.Fits lib room
  pkScript : out.pkScript.length ≤ maxWitnessItemSize ∧ out.pkScript.length ≤ room

def MsgTxIn.Fits (room : ℕ) (ti : MsgTxIn) : Prop :=
  ti.signatureScript.length ≤ maxWitnessItemSize ∧ ti.signatureScript.length ≤ room

variable {lib : TextLib}

theorem spells_readAssetBuf (room : ℕ) :
    Spells (readAssetBuf lib room) (WireAsset.Fits lib room) WireAsset.bytes := by
  intro data a rest
  simp only [readAssetBuf, run_bind, spells_readStringBuf, run_check,
    spells_readVarIntBuf, run_pure]
  constructor
  · rintro ⟨protocol, _, ⟨hprotocol, rfl⟩, type, _, ⟨htype, rfl⟩, ticker, _, ⟨hticker, rfl⟩, amount, _,
      ⟨hamount, rfl⟩, _, _, ⟨hdecimal, rfl⟩, binding, _, ⟨hbinding, rfl⟩, rfl, rfl⟩
    refine ⟨⟨hprotocol, htype, hticker, hamount, hdecimal, hbinding⟩, ?_⟩
    simp [WireAsset.bytes]
  · rintro ⟨h, rfl⟩
    simp only [WireAsset.bytes, append_assoc]
    exact ⟨_, _, ⟨h.protocol, rfl⟩, _, _, ⟨h.type, rfl⟩, _, _, ⟨h.ticker, rfl⟩, _, _, ⟨h.amount, rfl⟩,
      (), _, ⟨h.decimal, rfl⟩, _, _, ⟨h.bindingSat, rfl⟩, rfl, rfl⟩

theorem run_readInt64 : readInt 8 data = .ok (v, rest) ↔
    (-2 ^ 63 ≤ v ∧ v < 2 ^ 63) ∧ data = int64Bytes v ++ rest := by
  have hsize : (256 : ℤ) ^ 8 = 2 ^ 64 := by norm_num
  rw [spells_readInt, hsize]
  refine and_congr_left fun _ => ?_
  omega

theorem spells_readTxOutBuf (room : ℕ) :
    Spells (readTxOutBuf lib room) (WireTxOut.Fits lib room) WireTxOut.bytes := by
  intro data out rest
  simp only [readTxOutBuf, assetsReadFromBuf, run_bind, run_readInt64, spells_readVarIntBuf,
    Spells.times (spells_readAssetBuf room), spells_readScriptBuf, run_pure]
  constructor
  · rintro ⟨value, _, ⟨hvalue, rfl⟩, assets, _, ⟨count, _, ⟨hcount, rfl⟩, ⟨rfl, hassets⟩, rfl⟩, pkScript,
      _, ⟨hscript, rfl⟩, rfl, rfl⟩
    refine ⟨⟨hvalue, hcount, hassets, hscript⟩, ?_⟩
    simp [WireTxOut.bytes]
  · rintro ⟨h, rfl⟩
    simp only [WireTxOut.bytes, append_assoc]
    exact ⟨_, _, ⟨h.value, rfl⟩, _, _, ⟨_, _, ⟨h.count, rfl⟩, ⟨rfl, h.assets⟩, rfl⟩, _, _,
      ⟨h.pkScript, rfl⟩, rfl, rfl⟩

theorem spells_readTxInBuf (room : ℕ) : Spells (readTxInBuf room)
    (fun ti => ti.witness = [] ∧ ti.Fits room) txInBytes := by
  intro data ti rest
  simp only [readTxInBuf, readLe, run_bind, run_le, spells_readScriptBuf, run_pure]
  constructor
  · rintro ⟨hash, _, ⟨hhash, rfl⟩, index, _, ⟨hindex, rfl⟩, script, _, ⟨hscript, rfl⟩, sequence, _,
      ⟨hsequence, rfl⟩, rfl, rfl⟩
    refine ⟨⟨rfl, hscript⟩, ?_⟩
    have hhash' : hash % 2 ^ 256 = hash := Nat.mod_eq_of_lt hhash
    have hindex' : index % 2 ^ 32 = index := Nat.mod_eq_of_lt hindex
    have hsequence' : sequence % 2 ^ 32 = sequence := Nat.mod_eq_of_lt hsequence
    simp only [txInBytes, append_assoc, BitVec.toNat_ofNat, UInt32.toNat_ofNat', hhash', hindex',
      hsequence']
  · rintro ⟨⟨hwitness, hscript⟩, rfl⟩
    simp only [txInBytes, append_assoc]
    refine ⟨_, _, ⟨ti.previousOutPoint.hash.isLt, rfl⟩, _, _, ⟨ti.previousOutPoint.index.toNat_lt, rfl⟩,
      _, _, ⟨hscript, rfl⟩, _, _, ⟨ti.sequence.toNat_lt, rfl⟩, ?_, rfl⟩
    rw [BitVec.ofNat_toNat, BitVec.setWidth_eq, UInt32.ofNat_toNat, UInt32.ofNat_toNat, ← hwitness]

def MsgTxIn.stripped (ti : MsgTxIn) : MsgTxIn := { ti with witness := [] }

def WitnessItemFits (room : ℕ) (item : Bytes) : Prop :=
  item.length ≤ maxWitnessItemSize ∧ item.length ≤ room

def WitnessesFit : ℕ → List MsgTxIn → Prop
  | _, [] => True
  | room, ti :: rest => (ti.witness.length ≤ maxWitnessItemsPerInput ∧
      Within WitnessItemFits length room ti.witness) ∧
    WitnessesFit (room - (ti.witness.map length).sum) rest

theorem hasWitness_eq_false : hasWitness txIn = false ↔ ∀ ti ∈ txIn, ti.witness = [] := by
  simp [hasWitness]

theorem map_stripped_of_no_witness (h : ∀ ti ∈ txIn, ti.witness = []) :
    txIn.map stripped = txIn := by
  refine (map_congr_left fun ti hti => ?_).trans (map_id txIn)
  rw [stripped, ← h ti hti]
  rfl

theorem witnessesFit_of_no_witness (h : ∀ ti ∈ txIn, ti.witness = []) (room : ℕ) :
    WitnessesFit room txIn := by
  induction txIn generalizing room with
  | nil => trivial
  | cons ti rest ih =>
    obtain ⟨hti, hrest⟩ := forall_mem_cons.mp h
    rw [WitnessesFit, hti]
    exact ⟨⟨Nat.zero_le _, trivial⟩, ih hrest _⟩

theorem run_readWitness {x} :
    readWitness room data = .ok (x, rest) ↔ (x.1.length ≤ maxWitnessItemsPerInput ∧
      Within WitnessItemFits length room x.1 ∧ x.2 = room - (x.1.map length).sum) ∧
      data = writeVarInt x.1.length ++ x.1.flatMap writeVarBytes ++ rest := by
  simp only [readWitness, run_bind, spells_readVarIntBuf, run_check,
    Spells.timesWithin length spells_readScriptBuf, decide_eq_true_eq, append_assoc]
  constructor
  · rintro ⟨count, _, ⟨-, rfl⟩, _, _, ⟨hcount, rfl⟩, ⟨rfl, hwithin, hroom⟩, rfl⟩
    exact ⟨⟨hcount, hwithin, hroom⟩, rfl⟩
  · rintro ⟨⟨hcount, hwithin, hroom⟩, rfl⟩
    have hlt : x.1.length < 2 ^ 64 := by
      unfold maxWitnessItemsPerInput at hcount
      omega
    exact ⟨_, _, ⟨hlt, rfl⟩, (), _, ⟨hcount, rfl⟩, ⟨rfl, hwithin, hroom⟩, rfl⟩

theorem run_readWitnesses : readWitnesses txIn room data = .ok (out, rest) ↔
      (txIn.map stripped = out.map stripped ∧ WitnessesFit room out) ∧
      data = out.flatMap witnessBytes ++ rest := by
  induction txIn generalizing room data out rest with
  | nil =>
    rw [readWitnesses, run_pure]
    constructor
    · rintro ⟨rfl, rfl⟩
      exact ⟨⟨rfl, trivial⟩, rfl⟩
    · rintro ⟨⟨hmap, -⟩, rfl⟩
      obtain rfl := map_eq_nil_iff.mp hmap.symm
      exact ⟨rfl, rfl⟩
  | cons ti txIn ih =>
    simp only [readWitnesses, run_bind, run_readWitness, ih, run_pure]
    constructor
    · rintro ⟨⟨items, left⟩, _, ⟨⟨hcount, hwithin, hleft⟩, rfl⟩, out', _, ⟨⟨hmap, hfit⟩, rfl⟩, rfl, rfl⟩
      obtain rfl : left = room - (items.map length).sum := hleft
      refine ⟨⟨?_, ⟨hcount, hwithin⟩, hfit⟩, ?_⟩
      · rw [map_cons, map_cons, hmap]
        rfl
      · simp [witnessBytes]
    · rintro ⟨⟨hmap, hfit⟩, rfl⟩
      cases out with
      | nil => cases hmap
      | cons ti' out =>
        obtain ⟨hhead, htail⟩ := cons.inj hmap
        obtain ⟨⟨hcount, hwithin⟩, hrest⟩ := hfit
        refine ⟨(ti'.witness, _), _, ⟨⟨hcount, hwithin, rfl⟩, ?_⟩, out, rest, ⟨⟨htail, hrest⟩, rfl⟩,
          ?_, rfl⟩
        · simp [witnessBytes]
        · have hfields := mk.inj hhead
          obtain ⟨point, script, items, sequence⟩ := ti'
          simp only at hfields
          rw [hfields.1, hfields.2.1, hfields.2.2.2]

theorem run_readFlagged {flagged} (hplain : ∀ ti ∈ txIn, ti.witness = []) :
    readFlagged flagged txIn room data = .ok (out, rest) ↔
      (txIn = out.map stripped ∧ hasWitness out = flagged ∧ WitnessesFit room out) ∧
      data = (if flagged then out.flatMap witnessBytes else []) ++ rest := by
  have hstrip := map_stripped_of_no_witness hplain
  cases flagged with
  | false =>
    rw [readFlagged, if_neg (by decide), run_pure, if_neg (by decide), nil_append]
    constructor
    · rintro ⟨rfl, rfl⟩
      exact ⟨⟨hstrip.symm, hasWitness_eq_false.mpr hplain, witnessesFit_of_no_witness hplain room⟩, rfl⟩
    · rintro ⟨⟨rfl, hwitness, -⟩, rfl⟩
      exact ⟨(map_stripped_of_no_witness (hasWitness_eq_false.mp hwitness)).symm, rfl⟩
  | true =>
    simp only [readFlagged, if_true, run_bind, run_readWitnesses, run_check, run_pure, hstrip]
    constructor
    · rintro ⟨out', _, ⟨⟨hmap, hfit⟩, rfl⟩, _, _, ⟨hwitness, rfl⟩, rfl, rfl⟩
      exact ⟨⟨hmap, hwitness, hfit⟩, rfl⟩
    · rintro ⟨⟨hmap, hwitness, hfit⟩, rfl⟩
      exact ⟨out, rest, ⟨⟨hmap, hfit⟩, rfl⟩, (), rest, ⟨hwitness, rfl⟩, rfl, rfl⟩

theorem run_readInputCount {enc} {x} :
    readInputCount enc data = .ok (x, rest) ↔ (x.2 < 2 ^ 64 ∧ (x.1 = true → enc = .witness) ∧
      (x.1 = false → enc = .witness → x.2 ≠ 0)) ∧
      data = (if x.1 then [0, 1] else []) ++ writeVarInt x.2 ++ rest := by
  obtain ⟨flagged, n⟩ := x
  simp only [readInputCount, run_bind, spells_readVarIntBuf]
  constructor
  · rintro ⟨count, mid, ⟨hcount, rfl⟩, h⟩
    split_ifs at h with hmarker
    · obtain ⟨rfl, rfl⟩ := hmarker
      simp only [readLe, run_bind, run_le, run_check, spells_readVarIntBuf,
        run_pure, decide_eq_true_eq, Prod.mk.injEq] at h
      obtain ⟨flag, _, ⟨-, rfl⟩, _, _, ⟨rfl, rfl⟩, m, _, ⟨hm, rfl⟩, ⟨rfl, rfl⟩, rfl⟩ := h
      refine ⟨⟨hm, fun _ => rfl, fun hfalse => Bool.noConfusion hfalse⟩, ?_⟩
      rw [if_pos rfl, append_assoc]
      rfl
    · obtain ⟨heq, rfl⟩ := run_pure.mp h
      cases heq
      refine ⟨⟨hcount, fun htrue => Bool.noConfusion htrue, fun _ henc hzero => hmarker ⟨hzero, henc⟩⟩, ?_⟩
      rw [if_neg (by decide), nil_append]
  · rintro ⟨⟨hn, hflag, hplain⟩, rfl⟩
    cases flagged with
    | false =>
      refine ⟨n, rest, ⟨hn, ?_⟩, ?_⟩
      · rw [if_neg (by decide), nil_append]
      · rw [if_neg fun hmarker => hplain rfl hmarker.2 hmarker.1]
        exact run_pure.mpr ⟨rfl, rfl⟩
    | true =>
      refine ⟨0, [1] ++ (writeVarInt n ++ rest), ⟨by decide, ?_⟩, ?_⟩
      · rw [if_pos rfl, append_assoc]
        rfl
      · rw [if_pos ⟨rfl, hflag rfl⟩]
        simp only [readLe, run_bind, run_le, run_check, spells_readVarIntBuf,
          run_pure, decide_eq_true_eq, Prod.mk.injEq]
        exact ⟨1, _, ⟨by decide, rfl⟩, (), _, ⟨rfl, rfl⟩, n, rest, ⟨hn, rfl⟩, ⟨trivial, rfl⟩, rfl⟩

def WireTx.doWitness (enc : MessageEncoding) (tx : WireTx) : Bool := enc = .witness && hasWitness tx.txIn

def WireTx.bytes (enc : MessageEncoding) (tx : WireTx) : Bytes :=
  leBytes 4 (tx.version % 2 ^ 32).toNat ++ ((if tx.doWitness enc then [0, 1] else []) ++
    (writeVarInt tx.txIn.length ++ (tx.txIn.flatMap txInBytes ++ (writeVarInt tx.txOut.length ++
      (tx.txOut.flatMap WireTxOut.bytes ++
        ((if tx.doWitness enc then tx.txIn.flatMap witnessBytes else []) ++
          leBytes 4 tx.lockTime.toNat))))))

def signatureSizes (txIn : List MsgTxIn) : ℕ := (txIn.map (·.signatureScript.length)).sum

def scriptSizes (txOut : List WireTxOut) : ℕ := (txOut.map (·.pkScript.length)).sum

/-- The decoder's limits: the machine ranges, the counts, and the buffer that all scripts share. -/
structure WireTx.Limits (lib : TextLib) (tx : WireTx) : Prop where
  version : -2 ^ 31 ≤ tx.version ∧ tx.version < 2 ^ 31
  inCount : tx.txIn.length ≤ maxTxInPerMessage
  txIn : Within MsgTxIn.Fits (·.signatureScript.length) scriptSlabSize tx.txIn
  outCount : tx.txOut.length ≤ maxTxOutPerMessage
  txOut : Within (WireTxOut.Fits lib) (·.pkScript.length)
    (scriptSlabSize - signatureSizes tx.txIn) tx.txOut
  witnesses : WitnessesFit (scriptSlabSize - signatureSizes tx.txIn - scriptSizes tx.txOut) tx.txIn

/-- The base encoding has no witnesses, and the witness encoding cannot say that there are no inputs. -/
structure WireTx.Fits (lib : TextLib) (enc : MessageEncoding) (tx : WireTx) : Prop
    extends tx.Limits lib where
  base : enc = .base → hasWitness tx.txIn = false
  witness : enc = .witness → tx.txIn ≠ []

theorem within_stripped :
    Within (fun room ti => ti.witness = [] ∧ ti.Fits room) (·.signatureScript.length) room
        (txIn.map stripped) ↔
      Within MsgTxIn.Fits (·.signatureScript.length) room txIn := by
  rw [within_map]
  have hcongr : (fun (room : ℕ) (ti : MsgTxIn) => ti.stripped.witness = [] ∧ ti.stripped.Fits room) =
      MsgTxIn.Fits := by
    funext room ti
    exact propext (and_iff_right rfl)
  rw [hcongr]
  exact Iff.rfl

theorem signatureSizes_stripped (txIn) :
    ((txIn.map stripped).map (·.signatureScript.length)).sum = signatureSizes txIn := by
  rw [map_map]
  rfl

theorem flatMap_stripped (txIn : List MsgTxIn) :
    (txIn.map stripped).flatMap txInBytes = txIn.flatMap txInBytes := by
  rw [flatMap_map]
  rfl

theorem run_readInt32 : readInt 4 data = .ok (v, rest) ↔
    (-2 ^ 31 ≤ v ∧ v < 2 ^ 31) ∧ data = leBytes 4 (v % 2 ^ 32).toNat ++ rest := by
  have hsize : (256 : ℤ) ^ 4 = 2 ^ 32 := by norm_num
  rw [spells_readInt, hsize]
  refine and_congr_left fun _ => ?_
  omega

theorem spells_readTx (enc : MessageEncoding) :
    Spells (readTx lib enc) (WireTx.Fits lib enc) (WireTx.bytes enc) := by
  intro data tx rest
  simp only [readTx, run_bind, run_readInt32, run_readInputCount, run_check,
    Spells.timesWithin (fun ti : MsgTxIn => ti.signatureScript.length) spells_readTxInBuf,
    Spells.timesWithin (fun out : WireTxOut => out.pkScript.length) spells_readTxOutBuf,
    spells_readVarIntBuf, readLe, run_le, run_pure, decide_eq_true_eq]
  constructor
  · rintro ⟨version, _, ⟨hversion, rfl⟩, ⟨flagged, n⟩, _, ⟨⟨-, hflag, hplain⟩, rfl⟩, _, _, ⟨hin, rfl⟩,
      ⟨ins, room⟩, _, ⟨⟨hlen, hins, hroom⟩, rfl⟩, m, _, ⟨-, rfl⟩, _, _, ⟨hout, rfl⟩, ⟨outs, room'⟩, _,
      ⟨⟨hlen', houts, hroom'⟩, rfl⟩, txIn, _, htxIn, lock, _, ⟨hlock, rfl⟩, rfl, rfl⟩
    have hnone : ∀ ti ∈ ins, ti.witness = [] := hins.forall_mem fun _ _ h => h.1
    obtain ⟨⟨rfl, hwitness, hfit⟩, rfl⟩ := (run_readFlagged hnone).mp htxIn
    simp only [length_map] at hlen
    obtain rfl : n = txIn.length := hlen.symm
    obtain rfl : m = outs.length := hlen'.symm
    obtain rfl : flagged = hasWitness txIn := hwitness.symm
    simp only [signatureSizes_stripped] at hroom
    obtain rfl : room = _ := hroom
    obtain rfl : room' = scriptSlabSize - signatureSizes txIn - scriptSizes outs := hroom'
    have hdo : WireTx.doWitness enc ⟨version, txIn, outs, .ofNat lock⟩ = hasWitness txIn := by
      rw [WireTx.doWitness]
      cases hw : hasWitness txIn with
      | false => exact Bool.and_false _
      | true => rw [hflag hw]; rfl
    refine ⟨⟨⟨hversion, hin, within_stripped.mp hins, hout, houts, hfit⟩, fun henc => ?_,
      fun henc => ?_⟩, ?_⟩
    · by_contra hw
      rw [Bool.not_eq_false] at hw
      rw [hflag hw] at henc
      cases henc
    · rintro hnil
      exact hplain (by rw [show txIn = [] from hnil]; rfl) henc (by rw [show txIn = [] from hnil]; rfl)
    · have hlock' : lock % 2 ^ 32 = lock := Nat.mod_eq_of_lt hlock
      simp only [WireTx.bytes, hdo, flatMap_stripped, append_assoc, UInt32.toNat_ofNat', hlock']
  · rintro ⟨h, rfl⟩
    have hstripped : ∀ ti ∈ tx.txIn.map stripped, ti.witness = [] := by
      simp [stripped]
    have hflag : tx.doWitness enc = true → enc = .witness := fun hdo =>
      of_decide_eq_true (Bool.and_eq_true_iff.mp hdo).1
    have hdo : hasWitness tx.txIn = tx.doWitness enc := by
      rw [WireTx.doWitness]
      cases henc : enc with
      | base => rw [h.base henc]; rfl
      | witness => rfl
    have hin : tx.txIn.length < 2 ^ 64 := h.inCount.trans_lt (by decide)
    have hout : tx.txOut.length < 2 ^ 64 := h.outCount.trans_lt (by decide)
    simp only [WireTx.bytes, append_assoc]
    refine ⟨_, _, ⟨h.version, rfl⟩, (tx.doWitness enc, tx.txIn.length), _, ⟨⟨hin, hflag, fun _ henc =>
      mt length_eq_zero_iff.mp (h.witness henc)⟩, rfl⟩, (), _, ⟨h.inCount, rfl⟩,
      (tx.txIn.map stripped, scriptSlabSize - signatureSizes tx.txIn), _,
      ⟨⟨length_map _, within_stripped.mpr h.txIn, ?_⟩, ?_⟩, _, _, ⟨hout, rfl⟩, (), _,
      ⟨h.outCount, rfl⟩, (tx.txOut, _), _, ⟨⟨rfl, h.txOut, rfl⟩, rfl⟩, tx.txIn, _,
      (run_readFlagged hstripped).mpr ⟨⟨rfl, hdo, h.witnesses⟩, rfl⟩, _, _,
      ⟨tx.lockTime.toNat_lt, rfl⟩, ?_, rfl⟩
    · rw [signatureSizes_stripped]
    · rw [flatMap_stripped]
    · rw [UInt32.ofNat_toNat]

end SatoshiNet.Wire
