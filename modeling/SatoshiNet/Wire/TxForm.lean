import SatoshiNet.Wire.TxCodec

/-!
The wire form of a transaction against the values that the node keeps: what is written is read back,
computed sizes are written sizes, and what was accepted is written again as it was sent exactly when
nothing of it was cut.
-/

namespace SatoshiNet.Wire

open Lib List
open Written

section Form

variable (lib : TextLib)

def AssetInfo.wire (a : AssetInfo) : WireAsset :=
  ⟨lib.stringBytes a.name.protocol, lib.stringBytes a.name.type, lib.stringBytes a.name.ticker,
    lib.toFormatString a.amount, a.bindingSat⟩

def TxOut.wire (out : TxOut) : WireTxOut := ⟨out.value, out.assets.map (·.wire lib), out.pkScript⟩

def MsgTx.wire (tx : MsgTx) : WireTx := ⟨tx.version, tx.txIn, tx.txOut.map (·.wire lib), tx.lockTime⟩

def MsgTx.Valid (tx : MsgTx) : Prop :=
  ∀ out ∈ tx.txOut, ∀ a ∈ out.assets, lib.validate a.amount = true

end Form

variable {lib : TextLib}

@[simp]
theorem Written.err_done (bytes) : (done bytes).err = none := rfl

theorem writeAsset_err {a} : (writeAsset lib a).err = none ↔ lib.validate a.amount = true := by
  rw [writeAsset]
  split_ifs with hvalid
  · exact ⟨fun _ => hvalid, fun _ => rfl⟩
  · exact iff_of_false (fun h => by cases h) hvalid

theorem assetsWriteToBuf_err {assets} : (assetsWriteToBuf lib assets).err = none ↔
    ∀ a ∈ assets, lib.validate a.amount = true := by
  simp only [assetsWriteToBuf, err_andThen, err_done, err_all, writeAsset_err, true_and]

variable {out : TxOut} {outs : List TxOut} {room : ℕ}

theorem writeTxOut_err : (writeTxOut lib out).err = none ↔
    ∀ a ∈ out.assets, lib.validate a.amount = true := by
  simp [writeTxOut, err_andThen, assetsWriteToBuf_err]

theorem writeTxOut_bytes (h : ∀ a ∈ out.assets, lib.validate a.amount = true) :
    (writeTxOut lib out).bytes = (out.wire lib).bytes := by
  obtain ⟨hassets, hbytes⟩ := writeTxOut_done (writeTxOut_err.mpr h)
  have hwrite : out.assets.flatMap (fun a => (writeAsset lib a).bytes) =
      out.assets.flatMap fun a => (a.wire lib).bytes :=
    flatMap_congr fun a ha => (writeAsset_eq_done (writeAsset_err.mpr (h a ha))).2
  rw [hbytes, (assetsWriteToBuf_done hassets).2, hwrite, WireTxOut.bytes, TxOut.wire, length_map,
    flatMap_map, append_assoc]

theorem writeTxOuts_err : (writeTxOuts lib outs).err = none ↔
    ∀ out ∈ outs, ∀ a ∈ out.assets, lib.validate a.amount = true := by
  simp only [writeTxOuts, err_andThen, err_done, err_all, writeTxOut_err, true_and]

theorem writeTxOuts_bytes (h : ∀ out ∈ outs, ∀ a ∈ out.assets, lib.validate a.amount = true) :
    (writeTxOuts lib outs).bytes =
      writeVarInt outs.length ++ (outs.map (·.wire lib)).flatMap WireTxOut.bytes := by
  have hwrite : outs.flatMap (fun out => (writeTxOut lib out).bytes) =
      outs.flatMap fun out => (out.wire lib).bytes :=
    flatMap_congr fun out hout => writeTxOut_bytes (h out hout)
  rw [writeTxOuts, bytes_andThen rfl,
    bytes_all fun out hout => writeTxOut_err.mpr (h out hout), hwrite, flatMap_map]
  rfl

variable {a : WireAsset} {enc : MessageEncoding} {out : WireTxOut} {tx : MsgTx} {w : WireTx}

theorem btcEncode_err : (tx.btcEncode lib enc).err = none ↔ tx.Valid lib := by
  simp [MsgTx.btcEncode, err_andThen, writeTxOuts_err, MsgTx.Valid]

theorem btcEncode_bytes (h : tx.Valid lib) (enc) :
    (tx.btcEncode lib enc).bytes = (tx.wire lib).bytes enc := by
  rw [MsgTx.btcEncode, bytes_andThen rfl, bytes_andThen (writeTxOuts_err.mpr h),
    writeTxOuts_bytes h, WireTx.bytes]
  simp only [done, append_assoc, MsgTx.wire, length_map]
  rfl

theorem serializeNoWitness_eq (tx : MsgTx) : tx.serializeNoWitness lib = tx.btcEncode lib .base := by
  rw [MsgTx.serializeNoWitness, MsgTx.btcEncode, append_assoc]
  rfl

theorem length_writeVarInt (val : ℕ) : (writeVarInt val).length = varIntSerializeSize val := by
  rw [writeVarInt, varIntSerializeSize]
  split_ifs <;> simp [leBytes_length]

theorem length_writeVarBytes (bytes) :
    (writeVarBytes bytes).length = varIntSerializeSize bytes.length + bytes.length := by
  rw [writeVarBytes, length_append, length_writeVarInt]

theorem length_wire_asset (a) : (a.wire lib).bytes.length = assetSerializeSize lib a := by
  simp [WireAsset.bytes, AssetInfo.wire, length_writeVarBytes, length_writeVarInt,
    assetSerializeSize, textSerializeSize, Nat.add_assoc]

theorem length_wire_txOut (out : TxOut) : (out.wire lib).bytes.length = out.serializeSize lib := by
  have hassets : (out.assets.map fun a => (a.wire lib).bytes.length) =
      out.assets.map (assetSerializeSize lib) :=
    map_congr_left fun a _ => length_wire_asset a
  simp [WireTxOut.bytes, TxOut.wire, int64Bytes, length_writeVarInt, flatMap_map, hassets,
    length_writeVarBytes, TxOut.serializeSize, txAssetsSerializeSize, Nat.add_assoc]

theorem length_txInBytes (ti) : (txInBytes ti).length = ti.serializeSize := by
  simp only [txInBytes, length_append, leBytes_length, length_writeVarBytes, MsgTxIn.serializeSize]
  omega

theorem length_witnessBytes (ti) : (witnessBytes ti).length = witnessSerializeSize ti.witness := by
  simp [witnessBytes, length_writeVarInt, length_writeVarBytes, witnessSerializeSize]

theorem length_wire (enc) (tx : MsgTx) :
    ((tx.wire lib).bytes enc).length = tx.baseSize lib + if tx.doWitness enc then
      2 + (tx.txIn.map fun ti => witnessSerializeSize ti.witness).sum else 0 := by
  have hdo : (tx.wire lib).doWitness enc = tx.doWitness enc := rfl
  have hin : tx.txIn.map (fun ti => (txInBytes ti).length) = tx.txIn.map MsgTxIn.serializeSize :=
    map_congr_left fun ti _ => length_txInBytes ti
  have hout : tx.txOut.map (fun out => (out.wire lib).bytes.length) =
      tx.txOut.map (TxOut.serializeSize lib) :=
    map_congr_left fun out _ => length_wire_txOut out
  have hwitness : tx.txIn.map (fun ti => (witnessBytes ti).length) =
      tx.txIn.map fun ti => witnessSerializeSize ti.witness :=
    map_congr_left fun ti _ => length_witnessBytes ti
  rw [WireTx.bytes, hdo]
  cases tx.doWitness enc with
  | false =>
    simp only [MsgTx.wire, length_append, leBytes_length, length_writeVarInt, length_map,
      flatMap_map, length_flatMap, hin, hout, MsgTx.baseSize, Bool.false_eq_true, if_false,
      length_nil]
    omega
  | true =>
    simp only [MsgTx.wire, length_append, leBytes_length, length_writeVarInt, length_map,
      flatMap_map, length_flatMap, hin, hout, hwitness, MsgTx.baseSize, if_true, length_cons,
      length_nil]
    omega

theorem scriptLocs_getElem? {outs : List TxOut} {out : TxOut} {i : ℕ} (n : ℕ)
    (h : outs[i]? = some out) : ∃ before after,
      (outs.flatMap fun out => (out.wire lib).bytes) = before ++ (out.pkScript ++ after) ∧
        (scriptLocs lib n outs)[i]? = some (n + before.length) := by
  induction outs generalizing n i with
  | nil => cases h
  | cons first outs ih =>
    have hsize : (first.wire lib).bytes.length = first.serializeSize lib := length_wire_txOut first
    cases i with
    | zero =>
      cases h
      obtain ⟨before, hsplit⟩ : ∃ before, (out.wire lib).bytes = before ++ out.pkScript := by
        simp only [WireTxOut.bytes, writeVarBytes, ← append_assoc]
        exact ⟨_, rfl⟩
      rw [hsplit, length_append, TxOut.serializeSize] at hsize
      refine ⟨before, _, by rw [flatMap_cons, hsplit, append_assoc], ?_⟩
      simp only [scriptLocs, getElem?_cons_zero, Option.some.injEq]
      omega
    | succ i =>
      obtain ⟨before, after, heq, hloc⟩ := ih _ h
      refine ⟨(first.wire lib).bytes ++ before, after, by rw [flatMap_cons, heq, append_assoc], ?_⟩
      rw [scriptLocs, getElem?_cons_succ, hloc, length_append, hsize, TxOut.serializeSize]
      simp only [Option.some.injEq]
      omega

/-- A location is that of its script exactly if the first witness is given just when the transaction
has one. -/
theorem pkScriptLocs_iff {out : TxOut} {i : ℕ} (given : Bool)
    (h : (tx.btcEncode lib .witness).err = none) (hout : tx.txOut[i]? = some out) :
    ∃ loc before after, (tx.pkScriptLocs lib given)[i]? = some loc ∧
      (tx.btcEncode lib .witness).bytes = before ++ (out.pkScript ++ after) ∧
      (loc = before.length ↔ (!tx.txIn.isEmpty && given) = hasWitness tx.txIn) ∧
      ((!tx.txIn.isEmpty && given) = hasWitness tx.txIn →
        ((tx.btcEncode lib .witness).bytes.drop loc).take out.pkScript.length = out.pkScript) := by
  obtain ⟨before, after, heq, hloc⟩ := @scriptLocs_getElem? lib _ _ _ _ hout
  have hin : tx.txIn.map (fun ti => (txInBytes ti).length) = tx.txIn.map MsgTxIn.serializeSize :=
    map_congr_left fun ti _ => length_txInBytes ti
  have hdo : (tx.wire lib).doWitness .witness = hasWitness tx.txIn := rfl
  have hbytes : (tx.btcEncode lib .witness).bytes = leBytes 4 (tx.version % 2 ^ 32).toNat ++
      ((if hasWitness tx.txIn then [0, 1] else []) ++ (writeVarInt tx.txIn.length ++
        (tx.txIn.flatMap txInBytes ++ (writeVarInt tx.txOut.length ++ before)))) ++
      (out.pkScript ++ (after ++ ((if hasWitness tx.txIn then tx.txIn.flatMap witnessBytes else []) ++
        leBytes 4 tx.lockTime.toNat))) := by
    rw [btcEncode_bytes (btcEncode_err.mp h), WireTx.bytes, hdo]
    simp [MsgTx.wire, flatMap_map, heq]
  rw [hbytes]
  refine ⟨_, _, _, hloc, rfl, (and_iff_left_of_imp fun hiff hagree => ?_).mpr ?_⟩
  · rw [hiff.mpr hagree, drop_left, take_left]
  · simp only [length_append, leBytes_length, length_writeVarInt, length_flatMap, hin]
    cases !tx.txIn.isEmpty && given <;> cases hasWitness tx.txIn <;> simp <;> omega

/-! ### What is read back -/

def MsgTx.stripped (tx : MsgTx) : MsgTx := { tx with txIn := tx.txIn.map MsgTxIn.stripped }

/-- What the decoder can take: its limits, amounts that are valid, numbers within their type. -/
structure MsgTx.Limits (lib : TextLib) (tx : MsgTx) : Prop where
  wire : (tx.wire lib).Limits lib
  valid : tx.Valid lib
  bindingSat : ∀ out ∈ tx.txOut, ∀ a ∈ out.assets, a.bindingSat < 2 ^ 32

theorem info_wire (hlib : lib.Exact) {a : AssetInfo} (hvalid : lib.validate a.amount = true)
    (hbinding : a.bindingSat < 2 ^ 32) : (a.wire lib).info lib = a := by
  simp only [WireAsset.info, AssetInfo.wire, hlib.read_string, hlib.read_format _ hvalid,
    Option.getD_some, Nat.mod_eq_of_lt hbinding]

theorem msgTx_wire (hlib : lib.Exact) (h : tx.Limits lib) : (tx.wire lib).msgTx lib = tx := by
  have hout : ∀ out ∈ tx.txOut, (out.wire lib).txOut lib = out := by
    intro out hmem
    have hassets : (out.assets.map (·.wire lib)).map (·.info lib) = out.assets := by
      rw [map_map]
      exact (map_congr_left fun a ha =>
        info_wire hlib (h.valid out hmem a ha) (h.bindingSat out hmem a ha)).trans (map_id _)
    rw [WireTxOut.txOut, TxOut.wire, hassets]
  have houts : (tx.txOut.map (·.wire lib)).map (·.txOut lib) = tx.txOut := by
    rw [map_map]
    exact (map_congr_left hout).trans (map_id _)
  rw [WireTx.msgTx, MsgTx.wire, houts]

theorem run_btcDecode {data rest} : MsgTx.btcDecode lib enc data = .ok (tx, rest) ↔
      ∃ w : WireTx, w.Fits lib enc ∧ data = w.bytes enc ++ rest ∧ tx = w.msgTx lib := by
  simp only [MsgTx.btcDecode, Reader.run_bind, spells_readTx, Reader.run_pure]
  constructor
  · rintro ⟨w, _, ⟨hfits, rfl⟩, rfl, rfl⟩
    exact ⟨w, hfits, rfl, rfl⟩
  · rintro ⟨w, hfits, rfl, rfl⟩
    exact ⟨w, rest, ⟨hfits, rfl⟩, rfl, rfl⟩

theorem hasWitness_stripped (txIn : List MsgTxIn) : hasWitness (txIn.map MsgTxIn.stripped) = false :=
  hasWitness_eq_false.mpr (by simp [MsgTxIn.stripped])

theorem MsgTx.Limits.stripped (h : tx.Limits lib) : tx.stripped.Limits lib where
  wire := by
    have hsizes : signatureSizes (tx.txIn.map MsgTxIn.stripped) = signatureSizes tx.txIn :=
      signatureSizes_stripped tx.txIn
    refine ⟨h.wire.version, ?_, ?_, h.wire.outCount, ?_, ?_⟩
    · exact (length_map _).le.trans h.wire.inCount
    · exact (within_stripped.mpr h.wire.txIn).mono fun _ _ hti => hti.2
    · have houts := h.wire.txOut
      simp only [MsgTx.wire, MsgTx.stripped] at houts ⊢
      rwa [hsizes]
    · exact witnessesFit_of_no_witness (hasWitness_eq_false.mp (hasWitness_stripped tx.txIn)) _
  valid := h.valid
  bindingSat := h.bindingSat

theorem bytes_base_stripped (tx : MsgTx) :
    (tx.stripped.wire lib).bytes .base = (tx.wire lib).bytes .base := by
  simp only [WireTx.bytes, WireTx.doWitness, MsgTx.wire, MsgTx.stripped, length_map, flatMap_stripped]
  rfl

/-- Within the limits every transaction is read back from the base encoding, without its witnesses, and
from the witness encoding exactly when it has inputs; the computed sizes are those of the encodings. -/
theorem transaction_roundtrip (hlib : lib.Exact) {tx : MsgTx} (h : tx.Limits lib) :
    (∀ enc, (tx.btcEncode lib enc).err = none) ∧
    (MsgTx.btcDecode lib .witness (tx.btcEncode lib .witness).bytes = .ok (tx, []) ↔ tx.txIn ≠ []) ∧
    MsgTx.btcDecode lib .base (tx.btcEncode lib .base).bytes = .ok (tx.stripped, []) ∧
    tx.serializeSize lib = (tx.btcEncode lib .witness).bytes.length ∧
    tx.baseSize lib = (tx.btcEncode lib .base).bytes.length := by
  simp only [btcEncode_bytes h.valid, length_wire]
  refine ⟨fun enc => btcEncode_err.mpr h.valid, ⟨fun hread => ?_, fun hin => ?_⟩, ?_, rfl, rfl⟩
  · obtain ⟨w, hfits, -, rfl⟩ := run_btcDecode.mp hread
    exact hfits.witness rfl
  · exact run_btcDecode.mpr ⟨tx.wire lib, ⟨h.wire, nofun, fun _ => hin⟩, (append_nil _).symm,
      (msgTx_wire hlib h).symm⟩
  · exact run_btcDecode.mpr ⟨tx.stripped.wire lib,
      ⟨h.stripped.wire, fun _ => hasWitness_stripped tx.txIn, nofun⟩,
      by rw [bytes_base_stripped, append_nil], (msgTx_wire hlib h.stripped).symm⟩

namespace Reference

def witnessTx : MsgTx :=
  ⟨1, [⟨⟨1, 0⟩, [0x51], [[1, 2], []], 0⟩], [⟨5, [⟨⟨['o'], ['f'], ['x']⟩, ⟨0, 7⟩, 2⟩], [0x51]⟩], 9⟩

theorem witnessTx_limits : witnessTx.Limits textLib := by
  have hasset : ∀ room, 3 ≤ room →
      WireAsset.Fits textLib room (AssetInfo.wire textLib ⟨⟨['o'], ['f'], ['x']⟩, ⟨0, 7⟩, 2⟩) := by
    intro room hroom
    have hone : ∀ c ∈ ['o', 'f', 'x'], (textLib.stringBytes [c]).length = 1 := by
      intro c hc
      simp only [mem_cons, not_mem_nil, or_false] at hc
      rcases hc with rfl | rfl | rfl <;> rfl
    have hthree : (textLib.toFormatString ⟨0, 7⟩).length = 3 := by decide
    have hfits : ∀ c ∈ ['o', 'f', 'x'], (textLib.stringBytes [c]).length < 2 ^ 64 ∧
        (textLib.stringBytes [c]).length ≤ room := by
      intro c hc
      rw [hone c hc]
      omega
    refine ⟨hfits _ (by decide), hfits _ (by decide), hfits _ (by decide), ?_, rfl, by decide⟩
    show (textLib.toFormatString ⟨0, 7⟩).length < 2 ^ 64 ∧ (textLib.toFormatString ⟨0, 7⟩).length ≤ room
    rw [hthree]
    omega
  refine ⟨⟨by decide, by decide, ⟨⟨by decide, by decide⟩, trivial⟩, by decide,
    ⟨⟨by decide, by decide, ?_, by decide⟩, trivial⟩,
    ⟨by decide, ⟨by decide, by decide⟩, ⟨by decide, by decide⟩, trivial⟩, trivial⟩, ?_, ?_⟩
  · exact forall_mem_singleton.mpr (hasset _ (by decide))
  · exact forall_mem_singleton.mpr (forall_mem_singleton.mpr (by decide))
  · exact forall_mem_singleton.mpr (forall_mem_singleton.mpr (by decide))

theorem witnessTx_roundtrip :
    MsgTx.btcDecode textLib .witness (witnessTx.btcEncode textLib .witness).bytes = .ok (witnessTx, []) :=
  (transaction_roundtrip textLib_exact witnessTx_limits).2.1.mpr (cons_ne_nil _ _)

theorem witnessTx_script_found : ∃ loc, (witnessTx.pkScriptLocs textLib true)[0]? = some loc ∧
    ((witnessTx.btcEncode textLib .witness).bytes.drop loc).take 1 = [0x51] := by
  obtain ⟨loc, _, _, hloc, -, -, hslice⟩ := @pkScriptLocs_iff textLib witnessTx _ 0 true
    (btcEncode_err.mpr witnessTx_limits.valid) rfl
  exact ⟨loc, hloc, hslice rfl⟩

/-- The only input has an empty witness that is given: no marker is written, but one is counted. -/
def unsignedTx : MsgTx := ⟨1, [⟨⟨1, 0⟩, [], [], 0⟩], [⟨5, [], [0x51]⟩], 0⟩

theorem unsignedTx_script_missed : (unsignedTx.btcEncode textLib .witness).err = none ∧
    (unsignedTx.pkScriptLocs textLib true).map (fun loc =>
      ((unsignedTx.btcEncode textLib .witness).bytes.drop loc).take 1) = [[0]] := by
  decide

def bareTx : MsgTx := ⟨1, [], [], 0⟩

/-- The count of no inputs is taken for the marker, and the count of no outputs for a bad flag. -/
theorem bareTx_not_read_back : bareTx.Limits textLib ∧
    MsgTx.btcDecode textLib .witness (bareTx.btcEncode textLib .witness).bytes = .error .badFlag := by
  refine ⟨⟨⟨by decide, by decide, trivial, by decide, trivial, trivial⟩, nofun, nofun⟩, ?_⟩
  decide

end Reference

/-! ### What is written again -/

/-- Strings keep their bytes, and the text of an amount is a string. -/
structure TextLib.Stable (lib : TextLib) : Prop where
  bytes_string : ∀ bytes, lib.stringBytes (lib.bytesString bytes) = bytes
  format_length : ∀ d, lib.validate d = true → (lib.toFormatString d).length < 2 ^ 64

/-- The number is within its type, and the amount is spelled as it would be written. -/
def WireAsset.Canonical (lib : TextLib) (a : WireAsset) : Prop :=
  a.bindingSat < 2 ^ 32 ∧ ∃ d, lib.newDecimalFromFormatString a.amount = some d ∧
    lib.validate d = true ∧ lib.toFormatString d = a.amount

def WireTx.Canonical (lib : TextLib) (tx : WireTx) : Prop :=
  ∀ out ∈ tx.txOut, ∀ a ∈ out.assets, a.Canonical lib

theorem wire_info (hlib : lib.Stable)
    (hdecimal : (lib.newDecimalFromFormatString a.amount).isSome = true) :
    lib.validate (a.info lib).amount = true ∧ (a.info lib).wire lib = a ↔ a.Canonical lib := by
  obtain ⟨d, hd⟩ := Option.isSome_iff_exists.mp hdecimal
  obtain ⟨protocol, type, ticker, amount, bindingSat⟩ := a
  simp only at hd
  simp only [WireAsset.info, AssetInfo.wire, hlib.bytes_string, hd, Option.getD_some, WireAsset.Canonical,
    WireAsset.mk.injEq, true_and]
  constructor
  · rintro ⟨hvalid, hamount, hbinding⟩
    exact ⟨by omega, d, rfl, hvalid, hamount⟩
  · rintro ⟨hbinding, d', hd', hvalid, hamount⟩
    obtain rfl := Option.some.inj hd'
    exact ⟨hvalid, hamount, Nat.mod_eq_of_lt hbinding⟩

structure WireAsset.Sized (a : WireAsset) : Prop where
  protocol : a.protocol.length < 2 ^ 64
  type : a.type.length < 2 ^ 64
  ticker : a.ticker.length < 2 ^ 64
  amount : a.amount.length < 2 ^ 64
  bindingSat : a.bindingSat < 2 ^ 64

theorem WireAsset.Fits.sized (h : a.Fits lib room) : a.Sized :=
  ⟨h.protocol.1, h.type.1, h.ticker.1, h.amount.1, h.bindingSat⟩

theorem WireAsset.Sized.rewritten (hlib : lib.Stable) (h : a.Sized)
    (hvalid : lib.validate (a.info lib).amount = true) : ((a.info lib).wire lib).Sized where
  protocol := (congrArg length (hlib.bytes_string a.protocol)).trans_lt h.protocol
  type := (congrArg length (hlib.bytes_string a.type)).trans_lt h.type
  ticker := (congrArg length (hlib.bytes_string a.ticker)).trans_lt h.ticker
  amount := hlib.format_length _ hvalid
  bindingSat := (Nat.mod_le _ _).trans_lt h.bindingSat

theorem selfDelimiting_wireAsset : SelfDelimiting WireAsset.Sized WireAsset.bytes := by
  have hbytes := selfDelimiting_writeVarBytes
  have hfields := hbytes.append (hbytes.append (hbytes.append
    (hbytes.append selfDelimiting_writeVarInt)))
  rintro ⟨protocol, type, ticker, amount, bindingSat⟩ ⟨protocol', type', ticker', amount', bindingSat'⟩
    ha hb r s h
  obtain ⟨heq, hrest⟩ := @hfields (protocol, type, ticker, amount, bindingSat)
    (protocol', type', ticker', amount', bindingSat')
    ⟨ha.protocol, ha.type, ha.ticker, ha.amount, ha.bindingSat⟩
    ⟨hb.protocol, hb.type, hb.ticker, hb.amount, hb.bindingSat⟩ r s h
  simp only [Prod.mk.injEq] at heq
  obtain ⟨rfl, rfl, rfl, rfl, rfl⟩ := heq
  exact ⟨rfl, hrest⟩

structure WireTxOut.Sized (out : WireTxOut) : Prop where
  value : -2 ^ 63 ≤ out.value ∧ out.value < 2 ^ 63
  count : out.assets.length < 2 ^ 64
  assets : ∀ a ∈ out.assets, a.Sized
  pkScript : out.pkScript.length < 2 ^ 64

theorem WireTxOut.Fits.sized (h : out.Fits lib room) : out.Sized :=
  ⟨h.value, h.count, fun a ha => (h.assets a ha).sized, h.pkScript.1.trans_lt (by decide)⟩

theorem WireTxOut.Sized.rewritten (hlib : lib.Stable) (h : out.Sized)
    (hvalid : ∀ a ∈ out.assets, lib.validate (a.info lib).amount = true) :
    ((out.txOut lib).wire lib).Sized := by
  refine ⟨h.value, ?_, ?_, h.pkScript⟩
  · simp only [TxOut.wire, WireTxOut.txOut, length_map]
    exact h.count
  · simp only [TxOut.wire, WireTxOut.txOut, map_map, forall_mem_map]
    exact fun a ha => (h.assets a ha).rewritten hlib (hvalid a ha)

theorem selfDelimiting_wireTxOut : SelfDelimiting WireTxOut.Sized WireTxOut.bytes := by
  have hassets := selfDelimiting_writeVarInt.counted selfDelimiting_wireAsset
  have hfields := selfDelimiting_int64Bytes.append (hassets.append selfDelimiting_writeVarBytes)
  rintro ⟨value, assets, pkScript⟩ ⟨value', assets', pkScript'⟩ ha hb r s h
  simp only [WireTxOut.bytes, append_assoc] at h
  obtain ⟨heq, hrest⟩ := @hfields (value, assets, pkScript) (value', assets', pkScript')
    ⟨ha.value, ⟨ha.count, ha.assets⟩, ha.pkScript⟩ ⟨hb.value, ⟨hb.count, hb.assets⟩, hb.pkScript⟩ r s
    (by simpa only [append_assoc] using h)
  simp only [Prod.mk.injEq] at heq
  obtain ⟨rfl, rfl, rfl⟩ := heq
  exact ⟨rfl, hrest⟩

theorem wire_txOut :
    (out.txOut lib).wire lib = out ↔ ∀ a ∈ out.assets, (a.info lib).wire lib = a := by
  obtain ⟨value, assets, pkScript⟩ := out
  simp only [WireTxOut.txOut, TxOut.wire, map_map, WireTxOut.mk.injEq, true_and, and_true]
  rw [← map_id assets, map_map, map_inj_left, map_id]
  rfl

theorem wire_msgTx :
    (w.msgTx lib).wire lib = w ↔ ∀ out ∈ w.txOut, (out.txOut lib).wire lib = out := by
  obtain ⟨version, txIn, txOut, lockTime⟩ := w
  simp only [WireTx.msgTx, MsgTx.wire, map_map, WireTx.mk.injEq, true_and, and_true]
  rw [← map_id txOut, map_map, map_inj_left, map_id]
  rfl

theorem valid_msgTx : (w.msgTx lib).Valid lib ↔
    ∀ out ∈ w.txOut, ∀ a ∈ out.assets, lib.validate (a.info lib).amount = true := by
  simp [MsgTx.Valid, WireTx.msgTx, WireTxOut.txOut]

theorem bytes_rewritten (hlib : lib.Stable) (hfits : w.Fits lib enc)
    (hvalid : (w.msgTx lib).Valid lib) :
    ((w.msgTx lib).wire lib).bytes enc = w.bytes enc ↔ (w.msgTx lib).wire lib = w := by
  refine ⟨fun h => ?_, fun h => by rw [h]⟩
  have hsized : ∀ out ∈ w.txOut, out.Sized := hfits.txOut.forall_mem fun _ _ hout => hout.sized
  have hdo : ((w.msgTx lib).wire lib).doWitness enc = w.doWitness enc := rfl
  simp only [WireTx.bytes, hdo] at h
  simp only [MsgTx.wire, WireTx.msgTx, length_map, append_cancel_left_eq] at h
  have hsized' : ∀ out ∈ (w.txOut.map (·.txOut lib)).map (·.wire lib), out.Sized := by
    simp only [map_map, forall_mem_map]
    exact fun out hout => (hsized out hout).rewritten hlib (valid_msgTx.mp hvalid out hout)
  have houts := (selfDelimiting_wireTxOut.flatMap (by simp) hsized' hsized h).1
  rw [WireTx.msgTx, MsgTx.wire, houts]

theorem rewritten_iff_canonical (hlib : lib.Stable) (hfits : w.Fits lib enc) :
    ((w.msgTx lib).btcEncode lib enc).err = none ∧
      ((w.msgTx lib).btcEncode lib enc).bytes = w.bytes enc ↔ w.Canonical lib := by
  have hdecimal : ∀ out ∈ w.txOut, ∀ a ∈ out.assets,
      (lib.newDecimalFromFormatString a.amount).isSome = true :=
    hfits.txOut.forall_mem fun _ _ hout a ha => (hout.assets a ha).decimal
  rw [btcEncode_err]
  constructor
  · rintro ⟨hvalid, hbytes⟩
    rw [btcEncode_bytes hvalid, bytes_rewritten hlib hfits hvalid, wire_msgTx] at hbytes
    intro out hout a ha
    exact (wire_info hlib (hdecimal out hout a ha)).mp
      ⟨valid_msgTx.mp hvalid out hout a ha, wire_txOut.mp (hbytes out hout) a ha⟩
  · intro h
    have hinfo := fun out hout a ha => (wire_info hlib (hdecimal out hout a ha)).mpr (h out hout a ha)
    have hvalid := valid_msgTx.mpr fun out hout a ha => (hinfo out hout a ha).1
    refine ⟨hvalid, ?_⟩
    rw [btcEncode_bytes hvalid, bytes_rewritten hlib hfits hvalid, wire_msgTx]
    exact fun out hout => wire_txOut.mpr fun a ha => (hinfo out hout a ha).2

def CanonicalForm (lib : TextLib) (enc : MessageEncoding) (data : Bytes) : Prop :=
  ∃ w : WireTx, w.Fits lib enc ∧ w.bytes enc = data ∧ w.Canonical lib

/-- Bytes that are accepted completely are written again as they are, and the identifier is the hash of
what was sent without witnesses, exactly when every asset in them is canonical. -/
theorem accepted_is_rewritten_iff (hlib : lib.Stable) {enc : MessageEncoding} {data : Bytes} {tx : MsgTx}
    (h : MsgTx.btcDecode lib enc data = .ok (tx, [])) :
    ((tx.btcEncode lib enc).err = none ∧ (tx.btcEncode lib enc).bytes = data ∧
      ∀ w : WireTx, w.Fits lib enc → w.bytes enc = data →
        ∀ doubleHash, tx.txHash lib doubleHash = doubleHash (w.bytes .base)) ↔
    CanonicalForm lib enc data := by
  obtain ⟨w, hfits, hdata, rfl⟩ := run_btcDecode.mp h
  rw [append_nil] at hdata
  subst hdata
  have hunique : ∀ v : WireTx, v.Fits lib enc → v.bytes enc = w.bytes enc → v = w := by
    intro v hv hbytes
    have hread := (spells_readTx enc).mpr ⟨hv, (append_nil (v.bytes enc)).symm⟩
    have hread' := (spells_readTx enc).mpr ⟨hfits, (append_nil (w.bytes enc)).symm⟩
    rw [hbytes, hread'] at hread
    exact (Prod.mk.inj (Except.ok.inj hread)).1.symm
  constructor
  · rintro ⟨herr, hbytes, -⟩
    exact ⟨w, hfits, rfl, (rewritten_iff_canonical hlib hfits).mp ⟨herr, hbytes⟩⟩
  · rintro ⟨v, hv, hbytes, hcanonical⟩
    obtain rfl := hunique v hv hbytes
    obtain ⟨herr, hsame⟩ := (rewritten_iff_canonical hlib hfits).mpr hcanonical
    refine ⟨herr, hsame, fun v' hv' hbytes' doubleHash => ?_⟩
    obtain rfl := hunique v' hv' hbytes'
    have hvalid := btcEncode_err.mp herr
    rw [btcEncode_bytes hvalid, bytes_rewritten hlib hfits hvalid] at hsame
    rw [MsgTx.txHash, serializeNoWitness_eq, btcEncode_bytes hvalid, hsame]

namespace Reference

def byteLib : TextLib where
  validate d := decide (d.precision = 0 ∧ 0 ≤ d.value ∧ d.value < 256)
  toFormatString d := [UInt8.ofNat d.value.toNat]
  newDecimalFromFormatString text :=
    match text with
    | [b] => some ⟨0, b.toNat⟩
    | _ => none
  stringBytes t := t.map fun c => UInt8.ofNat c.toNat
  bytesString bytes := bytes.map fun b => Char.ofNat b.toNat

theorem byteLib_stable : byteLib.Stable where
  bytes_string bytes := by
    have hbyte : ∀ b : UInt8, UInt8.ofNat (Char.ofNat b.toNat).toNat = b := by
      intro b
      have hvalid : b.toNat.isValidChar := Or.inl (b.toNat_lt.trans (by decide))
      rw [Char.ofNat, dif_pos hvalid]
      exact UInt8.ofNat_toNat
    simp only [byteLib, map_map]
    exact (map_congr_left fun b _ => hbyte b).trans (map_id _)
  format_length _ _ := show 1 < 2 ^ 64 by decide

def boundTx (bindingSat : ℕ) : WireTx :=
  ⟨1, [⟨⟨1, 0⟩, [], [], 0⟩], [⟨5, [⟨[111], [102], [120], [7], bindingSat⟩], [0x51]⟩], 0⟩

theorem boundTx_rewritten : ∃ tx, MsgTx.btcDecode byteLib .base ((boundTx 2).bytes .base) = .ok (tx, []) ∧
    (tx.btcEncode byteLib .base).bytes = (boundTx 2).bytes .base := by
  have hread : readTx byteLib .base ((boundTx 2).bytes .base) = .ok (boundTx 2, []) := by decide +kernel
  have hfits := ((spells_readTx .base).mp hread).1
  have hdecode : MsgTx.btcDecode byteLib .base ((boundTx 2).bytes .base) =
      .ok ((boundTx 2).msgTx byteLib, []) :=
    run_btcDecode.mpr ⟨_, hfits, (append_nil _).symm, rfl⟩
  have hcanonical : (boundTx 2).Canonical byteLib :=
    forall_mem_singleton.mpr (forall_mem_singleton.mpr
      ⟨by decide, ⟨0, 7⟩, rfl, by decide, rfl⟩)
  exact ⟨_, hdecode,
    ((accepted_is_rewritten_iff byteLib_stable hdecode).mpr ⟨_, hfits, rfl, hcanonical⟩).2.1⟩

/-- A number beyond its type is accepted and cut: what is written again differs from what was sent. -/
theorem oversized_binding_is_cut :
    ∃ tx, MsgTx.btcDecode byteLib .base ((boundTx (2 ^ 32 + 2)).bytes .base) = .ok (tx, []) ∧
      (tx.btcEncode byteLib .base).err = none ∧
      (tx.btcEncode byteLib .base).bytes = (boundTx 2).bytes .base ∧
      (boundTx 2).bytes .base ≠ (boundTx (2 ^ 32 + 2)).bytes .base := by
  refine ⟨(boundTx (2 ^ 32 + 2)).msgTx byteLib, ?_⟩
  decide +kernel

end Reference

end SatoshiNet.Wire
