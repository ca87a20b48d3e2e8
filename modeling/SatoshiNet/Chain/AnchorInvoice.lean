import SatoshiNet.Chain.Anchor
import SatoshiNet.Chain.NativeProof
import SatoshiNet.Wire.TxCodec

/-!
The invoice of an anchor transaction: the bytes that its signer signs, and the checks that leave no
second transaction for one invoice and one signature.  The formats inside a native proof and the
parser and serializer of signatures are parameters.
-/

namespace SatoshiNet.Chain.AnchorInvoice

open Lib Wire List Option

inductive InvoiceError
  | anchor (e : AnchorError)
  | wire (e : WireError)
  | script (e : ScriptError)
  | trailingData | signature | nonCanonicalScript | requiresOutputs | requiresOneInput
  | nonCanonicalTransaction | malformedCommitment | duplicateCommitment | nonCanonicalCommitment
  | oneCommittedItem | digestMismatch
deriving DecidableEq

abbrev InvoiceM := Except InvoiceError

/-- What the anchor checks take from outside: the text forms of the wire encoding, the formats inside
a native proof, its hash, and the signature format. -/
structure InvoiceLib extends TextLib where
  proof : NativeProof.ProofLib
  sha256 : Bytes → Bytes
  Signature : Type
  parseDERSignature : Bytes → Option Signature
  serialize : Signature → Bytes

/-- The data of a push; the other opcodes have none, which is not the same as empty data. -/
def tokenData (token : Token) : Option Bytes :=
  if 1 ≤ token.opcode ∧ token.opcode ≤ 0x4e then some token.data else none

section NativeProof

def sat20MagicNumber : UInt8 := 0x60

def contentTypeNativeAsset : ℤ := 9

def contentTypeMax : ℤ := 75

def maxPayloadLen : ℕ := 512 - 8

variable (script : Script)

/-- The marker that starts a protocol script, and the content type that follows it. -/
def readContentType : Option Token := do
  let ret ← nextToken script
  let magic ← nextToken ret.rest
  let kind ← nextToken magic.rest
  if ret.opcode = opReturn ∧ magic.opcode = sat20MagicNumber ∧ kind.data.length ≤ 8 then some kind
  else none

def readDataFromNullDataScript : Option (ℤ × Bytes) := do
  let kind ← readContentType script
  let ctype := extractInt64FromScript kind.opcode kind.data % 256
  let token ← nextToken kind.rest
  let data ← tokenData token
  if ctype ≤ contentTypeMax then some (ctype, data) else none

def nullDataScript (ctype : ℤ) (data : Bytes) : Except ScriptError Script := do
  if data.length > maxPayloadLen then .error .elementTooLong
  else
    let script ← addOp opReturn []
    let script ← addOp sat20MagicNumber script
    let script ← Wire.addInt64 ctype script
    addData data script

def truncatedMarker : Bool :=
  match readContentType script with
  | none => false
  | some kind => extractInt64FromScript kind.opcode kind.data == contentTypeNativeAsset

def canonicalCommitment (out : TxOut) (digest : Bytes) : Bool :=
  (match nullDataScript contentTypeNativeAsset digest with
    | .error _ => false
    | .ok canonical => canonical == out.pkScript) &&
  digest.length == 32 && out.value == 0 && out.assets.length == 0

def nativeMarker (digest : Option Bytes) (out : TxOut) : InvoiceM (Option Bytes) :=
  match readDataFromNullDataScript out.pkScript with
  | some (kind, data) =>
    if kind = contentTypeNativeAsset then
      if digest.isSome then .error .duplicateCommitment
      else if canonicalCommitment out data then .ok (some data)
      else .error .nonCanonicalCommitment
    else if truncatedMarker out.pkScript then .error .malformedCommitment
    else .ok digest
  | none =>
    if truncatedMarker out.pkScript then .error .malformedCommitment else .ok digest

variable (lib : InvoiceLib)

def nativeAssetProof (tx : MsgTx) : InvoiceM (Option Bytes) := do
  let digest ← tx.txOut.foldlM nativeMarker none
  let found := tx.txIn.any fun input => input.witness.any NativeProof.isProof
  match digest, tx.txIn.map MsgTxIn.witness with
  | none, _ => if found then .error .oneCommittedItem else .ok none
  | some digest, [[proof]] =>
    if !(NativeProof.decode lib.proof proof).isOk then .error .malformedCommitment
    else if lib.sha256 proof ≠ digest then .error .digestMismatch
    else .ok (some proof)
  | some _, _ => .error .oneCommittedItem

end NativeProof

section Invoice

variable (lib : InvoiceLib)

def invoiceField (field : AnchorField) (script : Script) : InvoiceM Token :=
  (nextField field script).mapError .anchor

def readStandardAssets (token : Token) : InvoiceM TxAssets :=
  match tokenData token with
  | none => .ok []
  | some data => (deserializeTxAssets lib.toTextLib data).mapError .wire

def parseStandardAnchorScript (script : Script) : InvoiceM AnchorInfo := do
  let utxo ← invoiceField .txid script
  let pkScript ← invoiceField .witnessScript utxo.rest
  let amount ← invoiceField .amount pkScript.rest
  if 8 < amount.data.length then .error (.anchor (.script .amount))
  else
    let assets ← invoiceField .assets amount.rest
    let txAssets ← readStandardAssets lib assets
    let sig ← invoiceField .signature assets.rest
    .ok ⟨utxo.data, pkScript.data, extractInt64FromScript amount.opcode amount.data, txAssets,
      sig.data⟩

def serializeTxAssets (assets : TxAssets) : InvoiceM Bytes :=
  match (assetsWriteToBuf lib.toTextLib assets).err with
  | none => .ok (assetsWriteToBuf lib.toTextLib assets).bytes
  | some e => .error (.wire e)

section

variable (fundingUtxo witnessScript : Bytes) (value : ℤ) (assets : TxAssets)

def standardAnchorScript : InvoiceM Script := do
  let assetsBuf ← serializeTxAssets lib assets
  (do let script ← addData fundingUtxo []
      let script ← addData witnessScript script
      let script ← Wire.addInt64 value script
      addData assetsBuf script).mapError InvoiceError.script

def standardAnchorScriptWithSig (invoiceSig : Bytes) : InvoiceM Script := do
  let assetsBuf ← serializeTxAssets lib assets
  (do let script ← addData fundingUtxo []
      let script ← addData witnessScript script
      let script ← Wire.addInt64 value script
      let script ← addData assetsBuf script
      addData invoiceSig script).mapError InvoiceError.script

def standardAnchorInvoice (outputs : List TxOut) (bindOutputs : Bool) : InvoiceM Bytes := do
  let invoice ← standardAnchorScript lib fundingUtxo witnessScript value assets
  if !bindOutputs then .ok invoice
  else if outputs.length = 0 then .error .requiresOutputs
  else
    match (writeTxOuts lib.toTextLib outputs).err with
    | none => .ok (invoice ++ (writeTxOuts lib.toTextLib outputs).bytes)
    | some e => .error (.wire e)

end

def checkAnchorTxEncoding (tx : MsgTx) : InvoiceM MsgTxIn :=
  match tx.txIn with
  | [input] =>
    if tx.version ≠ txVersion ∨ tx.lockTime ≠ 0 ∨ input.previousOutPoint.hash ≠ zeroHash ∨
        input.previousOutPoint.index ≠ anchorTxOutIndex ∨ input.sequence ≠ anchorTxOutIndex then
      .error .nonCanonicalTransaction
    else .ok input
  | _ => .error .requiresOneInput

def checkAnchorFields (script : Script) : InvoiceM Unit := do
  let utxo ← invoiceField .txid script
  let pkScript ← invoiceField .witnessScript utxo.rest
  let amount ← invoiceField .amount pkScript.rest
  if 8 < amount.data.length then .error (.anchor (.script .amount))
  else
    let assets ← invoiceField .assets amount.rest
    let sig ← invoiceField .signature assets.rest
    if sig.rest ≠ [] then .error .trailingData else .ok ()

def checkAnchorScriptEncoding (script : Script) : InvoiceM Unit := do
  checkAnchorFields script
  let info ← parseStandardAnchorScript lib script
  let sig ← orError (lib.parseDERSignature info.sig) .signature
  let canonical ← standardAnchorScriptWithSig lib info.utxo info.witnessScript info.value
    info.txAssets (lib.serialize sig)
  if script ≠ canonical then .error .nonCanonicalScript else .ok ()

def anchorInvoice (tx : MsgTx) (bindOutputs : Bool) : InvoiceM Bytes := do
  let native ← nativeAssetProof lib tx
  let bindOutputs := bindOutputs || native.isSome
  checkWhen bindOutputs ((checkAnchorTxEncoding tx).map fun _ => ())
  match tx.txIn with
  | [input] =>
    let info ← parseStandardAnchorScript lib input.signatureScript
    standardAnchorInvoice lib info.utxo info.witnessScript info.value info.txAssets tx.txOut
      bindOutputs
  | _ => .error .requiresOneInput

end Invoice

section Unique

variable {lib : InvoiceLib}

structure Fields (α : Type) where
  (utxo pkScript amount assets : α)

structure Reads (lib : InvoiceLib) (script : Script) (info : AnchorInfo) (t : Fields Token)
    (sig : Token) : Prop where
  utxo : nextToken script = some t.utxo
  pkScript : nextToken t.utxo.rest = some t.pkScript
  amount : nextToken t.pkScript.rest = some t.amount
  assets : nextToken t.amount.rest = some t.assets
  signature : nextToken t.assets.rest = some sig
  utxo_eq : info.utxo = t.utxo.data
  witnessScript_eq : info.witnessScript = t.pkScript.data
  value_eq : info.value = extractInt64FromScript t.amount.opcode t.amount.data
  txAssets_eq : readStandardAssets lib t.assets = .ok info.txAssets
  sig_eq : info.sig = sig.data

variable {info : AnchorInfo} {input : MsgTxIn} {script : Script} {tx : MsgTx}

theorem invoiceField_eq_ok {field} {token} :
    invoiceField field script = .ok token ↔ nextToken script = some token := by
  rw [invoiceField, mapError_eq_ok, nextField]
  cases nextToken script <;> simp

theorem parse_reads (h : parseStandardAnchorScript lib script = .ok info) :
    ∃ t sig, Reads lib script info t sig := by
  simp only [parseStandardAnchorScript, bind_eq_ok, ite_error_eq_ok, invoiceField_eq_ok] at h
  obtain ⟨utxo, hutxo, pkScript, hpk, amount, hamount, -, assets, hassets, txAssets, hread, sig,
    hsig, h⟩ := h
  cases h
  exact ⟨⟨utxo, pkScript, amount, assets⟩, sig, hutxo, hpk, hamount, hassets, hsig, rfl, rfl, rfl,
    hread, rfl⟩

def Fields.before (p : Fields Script) (rest : Script) : Script :=
  p.utxo ++ (p.pkScript ++ (p.amount ++ (p.assets ++ rest)))

structure Fields.AreTokens (p : Fields Script) : Prop where
  utxo : IsToken p.utxo
  pkScript : IsToken p.pkScript
  amount : IsToken p.amount
  assets : IsToken p.assets

theorem Fields.AreTokens.before_inj {p q : Fields Script} (hp : p.AreTokens) (hq : q.AreTokens)
    {r s : Script} (h : p.before r = q.before s) : p = q ∧ r = s := by
  obtain ⟨hutxo, h1⟩ := hp.utxo.append_inj hq.utxo h
  obtain ⟨hpk, h2⟩ := hp.pkScript.append_inj hq.pkScript h1
  obtain ⟨hamount, h3⟩ := hp.amount.append_inj hq.amount h2
  obtain ⟨hassets, h4⟩ := hp.assets.append_inj hq.assets h3
  obtain ⟨_, _, _, _⟩ := p
  obtain ⟨_, _, _, _⟩ := q
  subst hutxo hpk hamount hassets
  exact ⟨rfl, h4⟩

theorem standardAnchorScriptWithSig_eq_ok {sig}
    (h : standardAnchorScriptWithSig lib info.utxo info.witnessScript info.value info.txAssets sig
      = .ok script) : ∃ p : Fields Script, p.AreTokens ∧ script = p.before (pushOf sig) ∧
      standardAnchorScript lib info.utxo info.witnessScript info.value info.txAssets =
        .ok (p.before []) := by
  simp only [standardAnchorScriptWithSig, bind_eq_ok, mapError_eq_ok] at h
  obtain ⟨assetsBuf, hbuf, s1, h1, s2, h2, s3, h3, s4, h4, h5⟩ := h
  have hscript : standardAnchorScript lib info.utxo info.witnessScript info.value info.txAssets =
      .ok s4 := by
    simp only [standardAnchorScript, bind_eq_ok, mapError_eq_ok]
    exact ⟨assetsBuf, hbuf, s1, h1, s2, h2, s3, h3, h4⟩
  obtain ⟨rfl, ht1⟩ := addData_eq_ok h1
  obtain ⟨rfl, ht2⟩ := addData_eq_ok h2
  obtain ⟨rfl, ht3⟩ := addInt64_eq_ok h3
  obtain ⟨rfl, ht4⟩ := addData_eq_ok h4
  obtain ⟨rfl, -⟩ := addData_eq_ok h5
  refine ⟨⟨pushOf info.utxo, pushOf info.witnessScript, pushOfInt64 info.value, pushOf assetsBuf⟩,
    ⟨ht1, ht2, ht3, ht4⟩, ?_, ?_⟩
  · simp [Fields.before]
  · simpa only [Fields.before, nil_append, append_assoc, append_nil] using hscript

theorem checkAnchorScriptEncoding_eq_ok (h : checkAnchorScriptEncoding lib script = .ok ()) :
    ∃ info sig, parseStandardAnchorScript lib script = .ok info ∧
      lib.parseDERSignature info.sig = some sig ∧
      ∃ p : Fields Script, p.AreTokens ∧ script = p.before (pushOf (lib.serialize sig)) ∧
        standardAnchorScript lib info.utxo info.witnessScript info.value info.txAssets =
          .ok (p.before []) := by
  simp only [checkAnchorScriptEncoding, bind_eq_ok, orError_eq_ok, ite_error_eq_ok, not_not] at h
  obtain ⟨-, -, info, hinfo, sig, hsig, canonical, hcanonical, rfl, -⟩ := h
  exact ⟨info, sig, hinfo, hsig, standardAnchorScriptWithSig_eq_ok hcanonical⟩

theorem Reads.congr {p : Fields Script} (hp : p.AreTokens) {rest rest' : Script}
    {info' : AnchorInfo} {t t' : Fields Token} {sig sig' : Token}
    (h : Reads lib (p.before rest) info t sig) (h' : Reads lib (p.before rest') info' t' sig') :
    info'.utxo = info.utxo ∧ info'.witnessScript = info.witnessScript ∧ info'.value = info.value ∧
      info'.txAssets = info.txAssets := by
  obtain ⟨o1, d1, e1⟩ := hp.utxo
  obtain ⟨o2, d2, e2⟩ := hp.pkScript
  obtain ⟨o3, d3, e3⟩ := hp.amount
  obtain ⟨o4, d4, e4⟩ := hp.assets
  have hread : ∀ {r : Script} {i : AnchorInfo} {u : Fields Token} {s : Token},
      Reads lib (p.before r) i u s →
      i.utxo = d1 ∧ i.witnessScript = d2 ∧ i.value = extractInt64FromScript o3 d3 ∧
        readStandardAssets lib ⟨o4, d4, r⟩ = .ok i.txAssets := by
    intro r i u s hr
    have h1 := some.inj ((e1 _).symm.trans hr.utxo)
    have h2 := hr.pkScript
    rw [← h1] at h2
    have h2 := some.inj ((e2 _).symm.trans h2)
    have h3 := hr.amount
    rw [← h2] at h3
    have h3 := some.inj ((e3 _).symm.trans h3)
    have h4 := hr.assets
    rw [← h3] at h4
    have h4 := some.inj ((e4 _).symm.trans h4)
    refine ⟨?_, ?_, ?_, ?_⟩
    · rw [hr.utxo_eq, ← h1]
    · rw [hr.witnessScript_eq, ← h2]
    · rw [hr.value_eq, ← h3]
    · rw [h4, hr.txAssets_eq]
  obtain ⟨hu, hw, hv, ha⟩ := hread h
  obtain ⟨hu', hw', hv', ha'⟩ := hread h'
  refine ⟨hu'.trans hu.symm, hw'.trans hw.symm, hv'.trans hv.symm, ?_⟩
  exact Except.ok.inj (ha'.symm.trans ha)

theorem anchorInvoice_eq_ok {invoice} (hin : tx.txIn = [input])
    (hinfo : parseStandardAnchorScript lib input.signatureScript = .ok info)
    (h : anchorInvoice lib tx true = .ok invoice) :
    ∃ script, standardAnchorScript lib info.utxo info.witnessScript info.value info.txAssets =
        .ok script ∧ (writeTxOuts lib.toTextLib tx.txOut).err = none ∧
      invoice = script ++ (writeTxOuts lib.toTextLib tx.txOut).bytes := by
  simp only [anchorInvoice, Bool.true_or, bind_eq_ok, hin] at h
  obtain ⟨-, -, -, -, info', hinfo', h⟩ := h
  obtain rfl := Except.ok.inj (hinfo'.symm.trans hinfo)
  simp only [standardAnchorInvoice, bind_eq_ok, Bool.not_true, Bool.false_eq_true, if_false,
    ite_error_eq_ok] at h
  obtain ⟨script, hscript, -, h⟩ := h
  refine ⟨script, hscript, ?_⟩
  split at h
  · rename_i herr
    exact ⟨herr, (Except.ok.inj h).symm⟩
  · cases h

theorem checkAnchorTxEncoding_eq_ok (h : checkAnchorTxEncoding tx = .ok input) :
    tx.txIn = [input] ∧ tx.version = txVersion ∧ tx.lockTime = 0 ∧
      input.previousOutPoint = ⟨zeroHash, anchorTxOutIndex⟩ ∧ input.sequence = anchorTxOutIndex := by
  simp only [checkAnchorTxEncoding] at h
  split at h
  · rename_i input' hin
    simp only [ite_error_eq_ok, not_or, not_not, Except.ok.injEq] at h
    obtain ⟨⟨hversion, hlock, hhash, hindex, hsequence⟩, rfl⟩ := h
    refine ⟨hin, hversion, hlock, ?_, hsequence⟩
    rw [← hhash, ← hindex]
  · cases h

theorem txHash_congr {text} {doubleHash} {tx' input'} (h : checkAnchorTxEncoding tx = .ok input)
    (h' : checkAnchorTxEncoding tx' = .ok input')
    (hscript : input'.signatureScript = input.signatureScript) (hout : tx'.txOut = tx.txOut) :
    tx'.txHash text doubleHash = tx.txHash text doubleHash := by
  obtain ⟨hin, hversion, hlock, hprev, hsequence⟩ := checkAnchorTxEncoding_eq_ok h
  obtain ⟨hin', hversion', hlock', hprev', hsequence'⟩ := checkAnchorTxEncoding_eq_ok h'
  have hinput : txInBytes input' = txInBytes input := by
    rw [txInBytes, txInBytes, hscript, hprev, hprev', hsequence, hsequence']
  have hins : tx'.txIn.flatMap txInBytes = tx.txIn.flatMap txInBytes := by
    rw [hin, hin', flatMap_singleton, flatMap_singleton, hinput]
  have hcount : tx'.txIn.length = tx.txIn.length := by rw [hin, hin']; rfl
  rw [MsgTx.txHash, MsgTx.txHash, MsgTx.serializeNoWitness, MsgTx.serializeNoWitness, hversion,
    hversion', hcount, hins, hout, hlock, hlock']

/-- An invoice that binds the outputs fixes the locked output, its script, value and assets and
every output of the anchor; with the signature it fixes the transaction's identifier. -/
theorem anchorInvoice_fixes_tx (hlib : lib.toTextLib.Exact) (doubleHash : Bytes → Hash)
    {tx tx' : MsgTx} (htyped : tx.Typed lib.toTextLib) (htyped' : tx'.Typed lib.toTextLib)
    {input input' : MsgTxIn} (htx : checkAnchorTxEncoding tx = .ok input)
    (htx' : checkAnchorTxEncoding tx' = .ok input')
    (hscript : checkAnchorScriptEncoding lib input.signatureScript = .ok ())
    (hscript' : checkAnchorScriptEncoding lib input'.signatureScript = .ok ())
    {invoice : Bytes} (hinvoice : anchorInvoice lib tx true = .ok invoice)
    (hinvoice' : anchorInvoice lib tx' true = .ok invoice) :
    ∃ info info', parseStandardAnchorScript lib input.signatureScript = .ok info ∧
      parseStandardAnchorScript lib input'.signatureScript = .ok info' ∧
      info'.utxo = info.utxo ∧ info'.witnessScript = info.witnessScript ∧
      info'.value = info.value ∧ info'.txAssets = info.txAssets ∧ tx'.txOut = tx.txOut ∧
      (info'.sig = info.sig →
        tx'.txHash lib.toTextLib doubleHash = tx.txHash lib.toTextLib doubleHash) := by
  obtain ⟨info, sig, hinfo, hsig, p, hp, hscr, hhead⟩ := checkAnchorScriptEncoding_eq_ok hscript
  obtain ⟨info', sig', hinfo', hsig', p', hp', hscr', hhead'⟩ :=
    checkAnchorScriptEncoding_eq_ok hscript'
  obtain ⟨head, hh, herr, rfl⟩ :=
    anchorInvoice_eq_ok (checkAnchorTxEncoding_eq_ok htx).1 hinfo hinvoice
  obtain ⟨head', hh', herr', heq⟩ :=
    anchorInvoice_eq_ok (checkAnchorTxEncoding_eq_ok htx').1 hinfo' hinvoice'
  obtain rfl := Except.ok.inj (hh.symm.trans hhead)
  obtain rfl := Except.ok.inj (hh'.symm.trans hhead')
  -- the pushes mark their end, so the two invoices are split at the same place
  have hsplit : p.before (writeTxOuts lib.toTextLib tx.txOut).bytes =
      p'.before (writeTxOuts lib.toTextLib tx'.txOut).bytes := by
    simpa only [Fields.before, append_assoc, append_nil, nil_append] using heq
  obtain ⟨rfl, hbytes⟩ := hp.before_inj hp' hsplit
  have hout : tx'.txOut = tx.txOut := (writeTxOuts_injective hlib htyped.length htyped'.length
    htyped.txOut htyped'.txOut herr herr' hbytes).symm
  obtain ⟨t, s, hread⟩ := parse_reads (hscr ▸ hinfo)
  obtain ⟨t', s', hread'⟩ := parse_reads (hscr' ▸ hinfo')
  obtain ⟨hutxo, hwitness, hvalue, hassets⟩ := hread.congr hp hread'
  refine ⟨info, info', hinfo, hinfo', hutxo, hwitness, hvalue, hassets, hout, fun hsigs => ?_⟩
  refine txHash_congr htx htx' ?_ hout
  rw [hsigs, hsig] at hsig'
  rw [hscr, hscr', some.inj hsig']

end Unique

def sampleLib : InvoiceLib where
  toTextLib := Reference.textLib
  proof := NativeProof.taggedLib
  sha256 _ := []
  Signature := Bytes
  parseDERSignature bytes := if bytes.length = 8 then some bytes else none
  serialize := id

def sampleAssets : TxAssets := [⟨⟨"ordx".toList, "f".toList, "pearl".toList⟩, ⟨0, 40⟩, 10⟩]

def sampleScript : Script :=
  ((standardAnchorScriptWithSig sampleLib [0x61, 0x3a, 0x30] [0x51, 0x52] 1000 sampleAssets
    [0x30, 0x06, 0x02, 0x01, 0x01, 0x02, 0x01, 0x01]).toOption).getD []

def sampleTx (witness : List Bytes) : MsgTx :=
  ⟨txVersion, [⟨⟨zeroHash, anchorTxOutIndex⟩, sampleScript, witness, anchorTxOutIndex⟩],
    [⟨1000, sampleAssets, [0x51]⟩], 0⟩

theorem sampleTx_typed (witness) : (sampleTx witness).Typed sampleLib.toTextLib where
  length := show 1 < 2 ^ 63 by decide
  txOut out hout := by
    obtain rfl := mem_singleton.mp hout
    refine ⟨by decide, by decide, by decide, fun a ha => ?_⟩
    obtain rfl := mem_singleton.mp ha
    exact ⟨by decide +kernel, by decide +kernel, by decide +kernel, by decide +kernel, by decide⟩

theorem sampleTx_fixed : ∃ input input' invoice, checkAnchorTxEncoding (sampleTx []) = .ok input ∧
    checkAnchorTxEncoding (sampleTx [[1]]) = .ok input' ∧
    anchorInvoice sampleLib (sampleTx []) true = .ok invoice ∧
    anchorInvoice sampleLib (sampleTx [[1]]) true = .ok invoice ∧
    ∃ info info', parseStandardAnchorScript sampleLib input.signatureScript = .ok info ∧
      parseStandardAnchorScript sampleLib input'.signatureScript = .ok info' ∧
      info'.utxo = info.utxo ∧ info'.witnessScript = info.witnessScript ∧
      info'.value = info.value ∧ info'.txAssets = info.txAssets ∧
      (sampleTx [[1]]).txOut = (sampleTx []).txOut ∧
      (info'.sig = info.sig →
        (sampleTx [[1]]).txHash sampleLib.toTextLib (fun bytes => BitVec.ofNat 256 (leNat bytes)) =
          (sampleTx []).txHash sampleLib.toTextLib fun bytes => BitVec.ofNat 256 (leNat bytes)) := by
  obtain ⟨invoice, hinvoice⟩ := exists_of_isOk
    (x := anchorInvoice sampleLib (sampleTx []) true) (by decide +kernel)
  have hinvoice' : anchorInvoice sampleLib (sampleTx [[1]]) true = .ok invoice := by
    rw [← hinvoice]
    decide +kernel
  refine ⟨_, _, invoice, rfl, rfl, hinvoice, hinvoice', ?_⟩
  exact anchorInvoice_fixes_tx Reference.textLib_exact _ (sampleTx_typed _) (sampleTx_typed _) rfl rfl
    (by decide +kernel) (by decide +kernel) hinvoice hinvoice'

end SatoshiNet.Chain.AnchorInvoice
