import SatoshiNet.Chain.UtxoCache
import SatoshiNet.Wire.ScriptBuilder

/-!
Anchor transactions: how the locked output is read from the input script and checked under the
activation arguments of a caller.  Signatures, native proofs and the canonical re-encoding of a
script are parameters.
-/

namespace SatoshiNet.Chain

open Lib Wire List

structure ChainParams where
  net : UInt32
  (posV2Height nativeAssetHeight bip0034Height coinbaseMaturity subsidyReductionInterval : ℤ)
  genesisHash : Hash

def testNet : UInt32 := 0xae182817

def ChainParams.posV2Active (p : ChainParams) (height : ℤ) : Bool :=
  decide (0 < p.posV2Height) && decide (p.posV2Height ≤ height)

def ChainParams.nativeAssetsActive (p : ChainParams) (height : ℤ) : Bool :=
  decide (0 < p.nativeAssetHeight) && decide (p.nativeAssetHeight ≤ height)

structure AnchorInfo where
  utxo : Bytes
  witnessScript : Script
  value : ℤ
  txAssets : TxAssets
  sig : Bytes

inductive AnchorField
  | txid | witnessScript | amount | assets | signature
deriving DecidableEq

inductive AnchorError
  | oneInput | nativeProofEncoding | nativeNotActive | transactionEncoding | luckyMarker
  | scriptEncoding
  | script (field : AnchorField)
  | nativeProofRequired | signature | notCoreNode | lockedUtxo | nativeProof | operation | binding
  | amount | assets | ticker | duplicateInBlock | alreadyAnchored | keyRequired | corruptRecord
  | recordNotFound
deriving DecidableEq

abbrev AnchorM := Except AnchorError

structure AnchorVerifier where
  /-- The proof a native anchor carries, or that the anchor is not a native one. -/
  nativeAssetProof : Tx → AnchorM (Option Bytes)
  checkAnchorTxEncoding : Tx → AnchorM Unit
  luckyMetadataFromOutputs : List TxOut → AnchorM Bool
  checkAnchorScriptEncoding : Script → AnchorM Unit
  deserializeTxAssets : Bytes → Option TxAssets
  /-- The key of the two-party script that signed the invoice. -/
  invoiceSigner : AnchorInfo → List TxOut → Bool → AnchorM Script

/-- What the check asks of the outside: who is a core node now, what the other chain says of a
locked output, and whether a native proof holds against it. -/
structure AnchorContext where
  isCoreNode : Script → Bool
  lockedUtxoCovers : AnchorInfo → Bool
  validateNativeProof : Bytes → AnchorInfo → Bool → Bool

def isCanonicalPush (opcode : UInt8) (data : Script) : Bool :=
  if 0x60 < opcode then true
  else if opcode < 0x4c ∧ 0 < opcode ∧ data.length = 1 ∧ data.headD 0 ≤ 16 then false
  else if opcode = 0x4c ∧ data.length < 0x4c then false
  else if opcode = 0x4d ∧ data.length ≤ 0xff then false
  else if opcode = 0x4e ∧ data.length ≤ 0xffff then false
  else true

section Check

variable (v : AnchorVerifier) (ctx : AnchorContext)

def nextField (field : AnchorField) (script : Script) : AnchorM Token :=
  match nextToken script with
  | none => .error (.script field)
  | some token => .ok token

def nextPush (field : AnchorField) (script : Script) : AnchorM Token := do
  let token ← nextField field script
  if isCanonicalPush token.opcode token.data then .ok token else .error (.script field)

def readTxAssets (data : Bytes) : AnchorM TxAssets :=
  if data = [] then .ok []
  else
    match v.deserializeTxAssets data with
    | none => .error (.script .assets)
    | some txAssets => .ok txAssets

def parseAnchorScript (script : Script) : AnchorM AnchorInfo := do
  let utxo ← nextPush .txid script
  let witnessScript ← nextPush .witnessScript utxo.rest
  let amount ← nextField .amount witnessScript.rest
  if 8 < amount.data.length then .error (.script .amount)
  else
    let assets ← nextPush .assets amount.rest
    let txAssets ← readTxAssets v assets.data
    let sig ← nextField .signature assets.rest
    .ok ⟨utxo.data, witnessScript.data, extractInt64FromScript amount.opcode amount.data, txAssets,
      sig.data⟩

def protocolRGB11 : Text := "rgb11".toList

def checkAnchorPkScriptWithCoreCheck (tx : Tx) (script : Script)
    (checkUtxoAssets bindOutputs nativeProof : Bool) : AnchorM AnchorInfo := do
  let lucky ← v.luckyMetadataFromOutputs tx.txOut
  if lucky && !bindOutputs then .error .luckyMarker
  else
    checkWhen bindOutputs (v.checkAnchorScriptEncoding script)
    let info ← parseAnchorScript v script
    if (info.txAssets.any fun a => a.name.protocol == protocolRGB11) && !nativeProof then
      .error .nativeProofRequired
    else
      let signer ← v.invoiceSigner info tx.txOut bindOutputs
      if !ctx.isCoreNode signer then .error .notCoreNode
      else if checkUtxoAssets && !ctx.lockedUtxoCovers info then .error .lockedUtxo
      else .ok info

def checkAnchorInput (tx : Tx) (current bindOutputs nativeActive : Bool) : AnchorM AnchorInfo :=
  match tx.txIn with
  | [input] => do
    let proof ← v.nativeAssetProof tx
    if proof.isSome && !nativeActive then .error .nativeNotActive
    else
      let bindOutputs := bindOutputs || proof.isSome
      checkWhen bindOutputs (v.checkAnchorTxEncoding tx)
      let info ← checkAnchorPkScriptWithCoreCheck v ctx tx input.signatureScript
        (current && !proof.isSome) bindOutputs proof.isSome
      match proof with
      | none => .ok info
      | some proof =>
        if ctx.validateNativeProof proof info current then .ok info else .error .nativeProof
  | _ => .error .oneInput

def getLockedTxInfo (tx : Tx) (checkUtxoAssets bindOutputs nativeActive : Bool) :
    AnchorM AnchorInfo :=
  checkAnchorInput v ctx tx checkUtxoAssets bindOutputs nativeActive

end Check

section Spec

variable {v : AnchorVerifier} {ctx : AnchorContext}

variable {bindOutputs : Bool} {info : AnchorInfo} {script : Script} {tx : Tx}

theorem nextPush_eq_ok {field} {token} (h : nextPush field script = .ok token) :
    nextToken script = some token := by
  simp only [nextPush, nextField, bind_eq_ok] at h
  obtain ⟨t, ht, h⟩ := h
  split at ht
  · cases ht
  · rename_i htok
    split at h
    · rw [htok, Except.ok.inj ht, Except.ok.inj h]
    · cases h

theorem parseAnchorScript_bounds (h : parseAnchorScript v script = .ok info) :
    info.utxo.length < 2 ^ 31 ∧ info.witnessScript.length < 2 ^ 31 ∧
      -2 ^ 63 ≤ info.value ∧ info.value < 2 ^ 63 := by
  simp only [parseAnchorScript, bind_eq_ok, ite_error_eq_ok] at h
  obtain ⟨utxo, hutxo, witness, hwitness, amount, -, hamount, assets, -, txAssets, -, sig, -, h⟩ := h
  cases h
  exact ⟨(nextToken_length (nextPush_eq_ok hutxo)).1, (nextToken_length (nextPush_eq_ok hwitness)).1,
    extractInt64FromScript_range (Nat.not_lt.mp hamount)⟩

/-- What a successful check establishes about the transaction alone: `proof` is the native proof it
carries, `info` its invoice and `signer` the key that signed it. -/
structure Verified (v : AnchorVerifier) (tx : Tx) (bindOutputs : Bool) (proof : Option Bytes)
    (info : AnchorInfo) (signer : Script) : Prop where
  nativeAssetProof : v.nativeAssetProof tx = .ok proof
  txEncoding : bindOutputs || proof.isSome → v.checkAnchorTxEncoding tx = .ok ()
  lucky : ∃ lucky, v.luckyMetadataFromOutputs tx.txOut = .ok lucky ∧
    (lucky → bindOutputs || proof.isSome)
  script : ∃ input, tx.txIn = [input] ∧ parseAnchorScript v input.signatureScript = .ok info ∧
    (bindOutputs || proof.isSome → v.checkAnchorScriptEncoding input.signatureScript = .ok ())
  protocol : (info.txAssets.any fun a => a.name.protocol == protocolRGB11) → proof.isSome
  signed : v.invoiceSigner info tx.txOut (bindOutputs || proof.isSome) = .ok signer

theorem Verified.unique {proof proof'} {info'} {signer signer'}
    (h : Verified v tx bindOutputs proof info signer)
    (h' : Verified v tx bindOutputs proof' info' signer') :
    proof' = proof ∧ info' = info ∧ signer' = signer := by
  have hproof : proof' = proof := Except.ok.inj (h'.nativeAssetProof.symm.trans h.nativeAssetProof)
  subst hproof
  obtain ⟨input, hinput, hparse, -⟩ := h.script
  obtain ⟨input', hinput', hparse', -⟩ := h'.script
  obtain rfl : input' = input := (cons.inj (hinput'.symm.trans hinput)).1
  obtain rfl : info' = info := Except.ok.inj (hparse'.symm.trans hparse)
  exact ⟨rfl, rfl, Except.ok.inj (h'.signed.symm.trans h.signed)⟩

theorem checkAnchorPkScript_eq_ok {checkUtxoAssets nativeProof} :
    checkAnchorPkScriptWithCoreCheck v ctx tx script checkUtxoAssets bindOutputs nativeProof =
        .ok info ↔
      (∃ lucky, v.luckyMetadataFromOutputs tx.txOut = .ok lucky ∧ (lucky → bindOutputs)) ∧
      (bindOutputs → v.checkAnchorScriptEncoding script = .ok ()) ∧
      parseAnchorScript v script = .ok info ∧
      ((info.txAssets.any fun a => a.name.protocol == protocolRGB11) → nativeProof) ∧
      ∃ signer, v.invoiceSigner info tx.txOut bindOutputs = .ok signer ∧
        ctx.isCoreNode signer ∧ (checkUtxoAssets → ctx.lockedUtxoCovers info) := by
  simp only [checkAnchorPkScriptWithCoreCheck, bind_eq_ok, ite_error_eq_ok, checkWhen_eq_ok,
    Except.ok.injEq, Bool.and_eq_true, Bool.not_eq_true', not_and, Bool.not_eq_false]
  constructor
  · rintro ⟨lucky, hlucky, hbind, -, hscript, info', hparse, hnative, signer, hsigner, hcore,
      hlocked, rfl⟩
    exact ⟨⟨lucky, hlucky, hbind⟩, hscript, hparse, hnative, signer, hsigner, hcore, hlocked⟩
  · rintro ⟨⟨lucky, hlucky, hbind⟩, hscript, hparse, hnative, signer, hsigner, hcore, hlocked⟩
    exact ⟨lucky, hlucky, hbind, ⟨⟩, hscript, info, hparse, hnative, signer, hsigner, hcore,
      hlocked, rfl⟩

theorem checkAnchorInput_eq_ok {current nativeActive} :
    checkAnchorInput v ctx tx current bindOutputs nativeActive = .ok info ↔
      ∃ proof signer, Verified v tx bindOutputs proof info signer ∧
        (proof.isSome → nativeActive) ∧ ctx.isCoreNode signer ∧
        (current && !proof.isSome → ctx.lockedUtxoCovers info) ∧
        (∀ bytes, proof = some bytes → ctx.validateNativeProof bytes info current) := by
  rcases htxIn : tx.txIn with _ | ⟨input, _ | ⟨second, rest⟩⟩
  · refine ⟨fun h => ?_, fun ⟨_, _, h, _⟩ => ?_⟩
    · simp [checkAnchorInput, htxIn] at h
    · obtain ⟨_, hinput, -⟩ := h.script
      simp [htxIn] at hinput
  · constructor
    · intro h
      simp only [checkAnchorInput, htxIn, bind_eq_ok, ite_error_eq_ok, checkWhen_eq_ok,
        checkAnchorPkScript_eq_ok] at h
      obtain ⟨proof, hproof, hactive, -, htx, info', ⟨hlucky, hscript, hparse, hnative, signer,
        hsigner, hcore, hlocked⟩, hlast⟩ := h
      obtain ⟨rfl, hvalid⟩ : info' = info ∧
          ∀ bytes, proof = some bytes → ctx.validateNativeProof bytes info' current := by
        cases proof with
        | none => exact ⟨Except.ok.inj hlast, by simp⟩
        | some bytes =>
          simp only at hlast
          split_ifs at hlast with hv
          · exact ⟨Except.ok.inj hlast, by rintro _ ⟨⟩; exact hv⟩
      refine ⟨proof, signer, ⟨hproof, htx, hlucky, ⟨input, htxIn, hparse, hscript⟩, hnative,
        hsigner⟩, by simpa using hactive, hcore, hlocked, hvalid⟩
    · rintro ⟨proof, signer, hver, hactive, hcore, hlocked, hvalid⟩
      obtain ⟨input', hinput', hparse, hscript⟩ := hver.script
      obtain rfl : input = input' := (cons.inj (htxIn.symm.trans hinput')).1
      simp only [checkAnchorInput, htxIn, bind_eq_ok, ite_error_eq_ok, checkWhen_eq_ok,
        checkAnchorPkScript_eq_ok]
      refine ⟨proof, hver.nativeAssetProof, by simpa using hactive, ⟨⟩, hver.txEncoding, info,
        ⟨hver.lucky, hscript, hparse, hver.protocol, signer, hver.signed, hcore, hlocked⟩, ?_⟩
      cases proof with
      | none => rfl
      | some bytes => simp [hvalid bytes rfl]
  · refine ⟨fun h => ?_, fun ⟨_, _, h, _⟩ => ?_⟩
    · simp [checkAnchorInput, htxIn] at h
    · obtain ⟨_, hinput, -⟩ := h.script
      simp [htxIn] at hinput

end Spec

end SatoshiNet.Chain
