import SatoshiNet.Chain.Compress

/-!
Stored records: a compressed output with its assets, an entry of the unspent output set, and the
spend journal of a block, which is written from its last entry to its first.
-/

namespace SatoshiNet.Chain

open Lib Wire List
open Reader

def uint64 (v : ℤ) : ℕ := (v % 2 ^ 64).toNat

def int64 (n : ℕ) : ℤ := if n < 2 ^ 63 then n else n - 2 ^ 64

def int32 (n : ℕ) : ℤ := if n % 2 ^ 32 < 2 ^ 31 then (n % 2 ^ 32 : ℕ) else (n % 2 ^ 32 : ℕ) - 2 ^ 32

/-! ### Writing -/

def putString (content : Bytes) : Bytes := putVLQ content.length ++ content

def serializeSizeString (content : Bytes) : ℕ := serializeSizeVLQ content.length + content.length

section Records

variable (lib : TextLib) (keys : PubKeyLib) (asset : AssetInfo) (stxo : SpentTxOut) (amount : ℕ)
  (assets : TxAssets) (pkScript : Script)

def putAsset : Bytes :=
  putString (lib.stringBytes asset.name.protocol) ++ (putString (lib.stringBytes asset.name.type) ++
    (putString (lib.stringBytes asset.name.ticker) ++ (putString (lib.toFormatString asset.amount) ++
      putVLQ asset.bindingSat)))

def assetSize : ℕ :=
  serializeSizeString (lib.stringBytes asset.name.protocol) +
    serializeSizeString (lib.stringBytes asset.name.type) +
    serializeSizeString (lib.stringBytes asset.name.ticker) +
    serializeSizeString (lib.toFormatString asset.amount) + serializeSizeVLQ asset.bindingSat

def compressedTxOutSize : ℕ :=
  serializeSizeVLQ (compressTxOutAmount amount) +
    (serializeSizeVLQ assets.length + (assets.map (assetSize lib)).sum) + compressedScriptSize keys pkScript

def putCompressedTxOut : Bytes :=
  putVLQ (compressTxOutAmount amount) ++ (putVLQ assets.length ++ (assets.flatMap (putAsset lib) ++
    putCompressedScript keys pkScript))

def headerCode (height : ℤ) (isCoinBase : Bool) : ℕ := uint64 (2 * height) + isCoinBase.toNat

def serializeUtxoEntry (entry : UtxoEntry) : Option Bytes :=
  if entry.packedFlags.spent then none
  else some (putVLQ (headerCode entry.blockHeight entry.packedFlags.coinBase) ++
    putCompressedTxOut lib keys (uint64 entry.amount) entry.txAssets entry.pkScript)

def utxoEntrySize (entry : UtxoEntry) : ℕ :=
  serializeSizeVLQ (headerCode entry.blockHeight entry.packedFlags.coinBase) +
    compressedTxOutSize lib keys (uint64 entry.amount) entry.txAssets entry.pkScript

/-- An older format kept a version beside a height above zero; a zero stands in its place. -/
def putSpentTxOut : Bytes :=
  putVLQ (headerCode stxo.height stxo.isCoinBase) ++ ((if 0 < stxo.height then putVLQ 0 else []) ++
    putCompressedTxOut lib keys (uint64 stxo.amount) stxo.assets stxo.pkScript)

def spentTxOutSerializeSize : ℕ :=
  serializeSizeVLQ (headerCode stxo.height stxo.isCoinBase) +
    (if 0 < stxo.height then serializeSizeVLQ 0 else 0) +
    compressedTxOutSize lib keys (uint64 stxo.amount) stxo.assets stxo.pkScript

def serializeSpendJournalEntry (stxos : List SpentTxOut) : Bytes :=
  stxos.reverse.flatMap (putSpentTxOut lib keys)

/-! ### Reading -/

def readVLQ : Reader DeserializeError ℕ := fun serialized => .ok (deserializeVLQ serialized)

def deserializeStringChecked : Reader DeserializeError Bytes := fun serialized =>
  let read := deserializeVLQ serialized
  if serialized = [] then .error .unexpectedEnd
  else if read.2.length < read.1 then .error .unexpectedEnd
  else .ok (read.2.take read.1, read.2.drop read.1)

def readStoredAsset : Reader DeserializeError AssetInfo := do
  let protocol ← deserializeStringChecked
  more .unexpectedEnd
  let type ← deserializeStringChecked
  more .unexpectedEnd
  let ticker ← deserializeStringChecked
  more .unexpectedEnd
  let amount ← deserializeStringChecked
  more .unexpectedEnd
  let bindingSat ← readVLQ
  more .unexpectedEnd
  let amt ← ofResult (orError (lib.newDecimalFromFormatString amount) .invalidAmount)
  pure ⟨⟨lib.bytesString protocol, lib.bytesString type, lib.bytesString ticker⟩, amt,
    bindingSat % 2 ^ 32⟩

def decodeCompressedTxOut : Reader DeserializeError (ℕ × TxAssets × Script) := do
  let compressedAmount ← readVLQ
  more .unexpectedEnd
  let assetsCount ← readVLQ
  more .unexpectedEnd
  let txAssets ← times (readStoredAsset lib) (int64 assetsCount).toNat
  let script ← readCompressedScript keys
  pure (decompressTxOutAmount compressedAmount, txAssets, script)

def deserializeUtxoEntry : Reader DeserializeError UtxoEntry := do
  let code ← readVLQ
  more .unexpectedEnd
  let out ← decodeCompressedTxOut lib keys
  pure ⟨int64 out.1, out.2.1, out.2.2, int32 (code / 2), { coinBase := code % 2 = 1 }⟩

def readReserved (height : ℤ) : Reader DeserializeError Unit :=
  if 0 < height then do
    let _ ← readVLQ
    more .unexpectedEnd
  else pure ()

def decodeSpentTxOut : Reader DeserializeError SpentTxOut := do
  more .noSerializedBytes
  let code ← readVLQ
  more .unexpectedEnd
  readReserved (int32 (code / 2))
  let out ← decodeCompressedTxOut lib keys
  pure ⟨int64 out.1, out.2.1, out.2.2, int32 (code / 2), code % 2 = 1⟩

def journalInputs (txns : List Tx) : List OutPoint :=
  (txns.filter fun tx => transactionConsumesSpendJournal tx false).flatMap fun tx =>
    tx.txIn.map (·.previousOutPoint)

def readSpentTxOuts : List OutPoint → Reader DeserializeError (List SpentTxOut)
  | [] => pure []
  | prevOut :: prevOuts => do
    let stxo ← mapError (.stxo prevOut) (decodeSpentTxOut lib keys)
    let stxos ← readSpentTxOuts prevOuts
    pure (stxo :: stxos)

/-- The inputs are gone through from the last to the first, as the entries were written. -/
def deserializeSpendJournalEntry (serialized : Bytes) (txns : List Tx) :
    Except DeserializeError (List SpentTxOut × Bytes) :=
  if serialized = [] then
    if (journalInputs txns).length ≠ 0 then .error .mismatchedJournal else .ok ([], [])
  else (fun x => (x.1.reverse, x.2)) <$> readSpentTxOuts lib keys (journalInputs txns).reverse serialized

theorem length_putString (content) : (putString content).length = serializeSizeString content := by
  rw [putString, length_append, length_putVLQ, serializeSizeString]

theorem length_putAsset : (putAsset lib asset).length = assetSize lib asset := by
  simp only [putAsset, length_append, length_putString, length_putVLQ, assetSize]
  omega

theorem length_putCompressedTxOut :
    (putCompressedTxOut lib keys amount assets pkScript).length =
      compressedTxOutSize lib keys amount assets pkScript := by
  have hassets : (assets.flatMap (putAsset lib)).length = (assets.map (assetSize lib)).sum := by
    rw [length_flatMap, funext (length_putAsset lib)]
  simp only [putCompressedTxOut, length_append, length_putVLQ, hassets,
    (putCompressedScript_spec keys pkScript).2, compressedTxOutSize]
  omega

theorem length_putSpentTxOut :
    (putSpentTxOut lib keys stxo).length = spentTxOutSerializeSize lib keys stxo := by
  rw [putSpentTxOut, spentTxOutSerializeSize, length_append, length_append, length_putVLQ,
    length_putCompressedTxOut, apply_ite length, length_putVLQ, length_nil, Nat.add_assoc]

end Records

section Back

variable {lib : TextLib} {keys : PubKeyLib}

structure Storable (lib : TextLib) (amount : ℤ) (assets : TxAssets) (pkScript : Script) : Prop where
  amount : 0 ≤ amount ∧ amount ≤ maxSatoshi
  length : assets.length < 2 ^ 63
  typed : ∀ a ∈ assets, AssetInfo.Typed lib a
  amounts : ∀ a ∈ assets, lib.newDecimalFromFormatString (lib.toFormatString a.amount) = some a.amount
  pkScript : pkScript.length + numSpecialScripts < 2 ^ 63

theorem reads_readVLQ {n : ℕ} (h : n < 2 ^ 64) : Reads readVLQ (putVLQ n) n := by
  intro rest
  rw [readVLQ, deserializeVLQ_putVLQ h]

theorem reads_string {content} (h : content.length < 2 ^ 63) :
    Reads deserializeStringChecked (putString content) content := by
  intro rest
  have hread : deserializeVLQ (putString content ++ rest) = (content.length, content ++ rest) := by
    rw [putString, append_assoc, deserializeVLQ_putVLQ (by omega)]
  have hne : putString content ++ rest ≠ [] := by
    rw [putString, append_assoc]
    exact append_ne_nil_of_left_ne_nil (putVLQ_ne_nil _) _
  have henough : ¬ (content ++ rest).length < content.length := by
    rw [length_append]
    omega
  simp only [deserializeStringChecked, hread, if_neg hne, if_neg henough, take_left, drop_left]

theorem putCompressedScript_ne_nil (pkScript) : putCompressedScript keys pkScript ≠ [] :=
  (putCompressedScript_spec keys pkScript).1.ne_nil

theorem uint64_of_nonneg (h : 0 ≤ v ∧ v ≤ maxSatoshi) : (uint64 v : ℤ) = v := by
  rw [maxSatoshi] at h
  rw [uint64]
  omega

theorem compressTxOutAmount_lt (amount : ℕ) : compressTxOutAmount amount < 2 ^ 64 := by
  rw [compressTxOutAmount]
  split
  · decide
  · dsimp only
    split <;> exact Nat.mod_lt _ (by decide)

theorem putCompressedTxOut_ne_nil (amount : ℕ) (assets) (pkScript) :
    putCompressedTxOut lib keys amount assets pkScript ≠ [] :=
  append_ne_nil_of_left_ne_nil (putVLQ_ne_nil _) _

theorem headerCode_spec {height : ℤ} (isCoinBase) (h : -2 ^ 31 ≤ height ∧ height < 2 ^ 31) :
    headerCode height isCoinBase < 2 ^ 64 ∧ int32 (headerCode height isCoinBase / 2) = height ∧
      decide (headerCode height isCoinBase % 2 = 1) = isCoinBase := by
  have hbit : isCoinBase.toNat ≤ 1 := Bool.toNat_le isCoinBase
  have hhalf : headerCode height isCoinBase / 2 % 2 ^ 32 = (height % 2 ^ 32).toNat := by
    rw [headerCode, uint64]
    omega
  refine ⟨by rw [headerCode, uint64]; omega, ?_, ?_⟩
  · rw [int32, hhalf]
    split_ifs <;> omega
  · have hlow : headerCode height isCoinBase % 2 = isCoinBase.toNat := by
      rw [headerCode, uint64]
      omega
    rw [hlow]
    cases isCoinBase <;> rfl

theorem int64_uint64 (h : 0 ≤ v ∧ v ≤ maxSatoshi) : int64 (uint64 v) = v := by
  have hv := uint64_of_nonneg h
  rw [maxSatoshi] at h
  rw [int64, if_pos (by omega), hv]

theorem reads_reserved (height : ℤ) : ReadsMore (readReserved height)
    (if 0 < height then putVLQ 0 else []) () := by
  rw [readReserved]
  split
  · rw [← append_nil (putVLQ 0)]
    exact (reads_readVLQ (by decide)).readsMore.bind (.more _)
  · exact (Reads.pure ()).readsMore

theorem putSpentTxOut_ne_nil (stxo) : putSpentTxOut lib keys stxo ≠ [] :=
  append_ne_nil_of_left_ne_nil (putVLQ_ne_nil _) _

section

variable (hstring : ∀ t, lib.bytesString (lib.stringBytes t) = t)
include hstring

theorem readsMore_storedAsset {asset} (htyped : asset.Typed lib)
    (hamount : lib.newDecimalFromFormatString (lib.toFormatString asset.amount) = some asset.amount) :
    ReadsMore (readStoredAsset lib) (putAsset lib asset) asset := by
  have hbinding : asset.bindingSat < 2 ^ 64 := lt_trans htyped.bindingSat (by decide)
  refine (reads_string htyped.protocol).readsMore.bind (.more_bind ?_)
  refine (reads_string htyped.type).readsMore.bind (.more_bind ?_)
  refine (reads_string htyped.ticker).readsMore.bind (.more_bind ?_)
  refine (reads_string htyped.amount).readsMore.bind (.more_bind ?_)
  rw [← append_nil (putVLQ _)]
  refine (reads_readVLQ hbinding).readsMore.bind (.more_bind ?_)
  refine (Reads.ofResult_bind (a := asset.amount) (by rw [hamount]; rfl) ?_).readsMore
  rw [hstring, hstring, hstring, Nat.mod_eq_of_lt htyped.bindingSat]
  exact Reads.pure asset

variable {stxos : List SpentTxOut} {v : ℤ}

theorem reads_compressedTxOut (hkeys : keys.Lawful) {amount : ℤ} {assets} {pkScript}
    (h : Storable lib amount assets pkScript) :
    Reads (decodeCompressedTxOut lib keys) (putCompressedTxOut lib keys (uint64 amount) assets pkScript)
      (uint64 amount, assets, pkScript) := by
  have hscript : putCompressedScript keys pkScript ≠ [] := putCompressedScript_ne_nil pkScript
  have hlength := h.length
  have hcount : (int64 assets.length).toNat = assets.length := by
    rw [int64, if_pos (by omega), Int.toNat_natCast]
  have hamount : decompressTxOutAmount (compressTxOutAmount (uint64 amount)) = uint64 amount :=
    decompress_compress (by rw [uint64_of_nonneg h.amount]; exact h.amount.2)
  have hassets : ReadsMore (times (readStoredAsset lib) (int64 assets.length).toNat)
      (assets.flatMap (putAsset lib)) assets := by
    rw [hcount]
    exact ReadsMore.times fun a ha => readsMore_storedAsset hstring (h.typed a ha) (h.amounts a ha)
  refine (reads_readVLQ (compressTxOutAmount_lt _)).bind (ReadsMore.reads_more_bind ?_ ?_)
  · exact append_ne_nil_of_left_ne_nil (putVLQ_ne_nil _) _
  refine (reads_readVLQ (by omega)).bind (ReadsMore.reads_more_bind ?_ ?_)
  · exact append_ne_nil_of_right_ne_nil _ hscript
  refine hassets.bind_reads hscript ?_
  have hread := (putCompressedScript_spec keys pkScript).1.reads hkeys (lt_trans h.pkScript (by decide))
  rw [← append_nil (putCompressedScript keys pkScript)]
  refine hread.bind ?_
  rw [hamount]
  exact Reads.pure _

theorem reads_utxoEntry (hkeys : keys.Lawful) {entry : UtxoEntry}
    (h : Storable lib entry.amount entry.txAssets entry.pkScript)
    (hheight : -2 ^ 31 ≤ entry.blockHeight ∧ entry.blockHeight < 2 ^ 31) :
    Reads (deserializeUtxoEntry lib keys)
      (putVLQ (headerCode entry.blockHeight entry.packedFlags.coinBase) ++
        putCompressedTxOut lib keys (uint64 entry.amount) entry.txAssets entry.pkScript)
      { entry with packedFlags := { coinBase := entry.packedFlags.coinBase } } := by
  obtain ⟨hcode, hback, hflag⟩ := headerCode_spec entry.packedFlags.coinBase hheight
  refine (reads_readVLQ hcode).bind (ReadsMore.reads_more_bind (putCompressedTxOut_ne_nil _ _ _) ?_)
  rw [← append_nil (putCompressedTxOut _ _ _ _ _)]
  refine (reads_compressedTxOut hstring hkeys h).bind ?_
  rw [hback, hflag, int64_uint64 h.amount]
  exact Reads.pure _

def SpentTxOut.Storable (lib : TextLib) (stxo : SpentTxOut) : Prop :=
  Chain.Storable lib stxo.amount stxo.assets stxo.pkScript ∧ -2 ^ 31 ≤ stxo.height ∧ stxo.height < 2 ^ 31

theorem reads_spentTxOut (hkeys : keys.Lawful) {stxo} (h : stxo.Storable lib) :
    Reads (decodeSpentTxOut lib keys) (putSpentTxOut lib keys stxo) stxo := by
  obtain ⟨hout, hheight⟩ := h
  obtain ⟨hcode, hback, hflag⟩ := headerCode_spec stxo.isCoinBase hheight
  have hrest : putCompressedTxOut lib keys (uint64 stxo.amount) stxo.assets stxo.pkScript ≠ [] :=
    putCompressedTxOut_ne_nil _ _ _
  refine ReadsMore.reads_more_bind (putSpentTxOut_ne_nil stxo) ?_
  refine (reads_readVLQ hcode).bind (ReadsMore.reads_more_bind (append_ne_nil_of_right_ne_nil _ hrest) ?_)
  rw [hback]
  refine (reads_reserved stxo.height).bind_reads hrest ?_
  rw [← append_nil (putCompressedTxOut _ _ _ _ _)]
  refine (reads_compressedTxOut hstring hkeys hout).bind ?_
  rw [hflag, int64_uint64 hout.amount]
  exact Reads.pure _

theorem reads_spentTxOuts (hkeys : keys.Lawful) {prevOuts} (hlen : prevOuts.length = stxos.length)
    (h : ∀ stxo ∈ stxos, stxo.Storable lib) :
    Reads (readSpentTxOuts lib keys prevOuts) (stxos.flatMap (putSpentTxOut lib keys)) stxos := by
  induction stxos generalizing prevOuts with
  | nil =>
    rw [length_eq_zero_iff.mp hlen]
    exact Reads.pure []
  | cons stxo stxos ih =>
    obtain ⟨prevOut, prevOuts, rfl⟩ := exists_cons_of_length_eq_add_one hlen
    obtain ⟨hstxo, hstxos⟩ := forall_mem_cons.mp h
    refine (reads_spentTxOut hstring hkeys hstxo).mapError.bind ?_
    exact (ih (Nat.succ.inj hlen) hstxos).map

theorem deserializeSpendJournalEntry_serialize (hkeys : keys.Lawful) {txns}
    (hlen : (journalInputs txns).length = stxos.length) (h : ∀ stxo ∈ stxos, stxo.Storable lib) :
    deserializeSpendJournalEntry lib keys (serializeSpendJournalEntry lib keys stxos) txns =
      .ok (stxos, []) := by
  have hlast : (journalInputs txns).reverse.length = stxos.reverse.length := by
    rw [length_reverse, length_reverse, hlen]
  have hread := (reads_spentTxOuts hstring hkeys hlast fun stxo hstxo =>
    h stxo (mem_reverse.mp hstxo)).run_eq
  rw [deserializeSpendJournalEntry, serializeSpendJournalEntry]
  split
  · rename_i hempty
    have hnil : stxos = [] := by
      cases stxos using reverseRecOn with
      | nil => rfl
      | append_singleton stxos stxo =>
        rw [reverse_append, reverse_singleton, singleton_append, flatMap_cons] at hempty
        exact absurd hempty (append_ne_nil_of_left_ne_nil (putSpentTxOut_ne_nil stxo) _)
    rw [if_neg (by rw [hlen, hnil]; exact fun h => h rfl), hnil]
  · rw [hread]
    exact congrArg (fun l => Except.ok (l, [])) (reverse_reverse stxos)

end

theorem length_serializeSpendJournalEntry (lib) (keys) (stxos) :
    (serializeSpendJournalEntry lib keys stxos).length =
      (stxos.map (spentTxOutSerializeSize lib keys)).sum := by
  rw [serializeSpendJournalEntry, length_flatMap, funext (length_putSpentTxOut lib keys),
    map_reverse, sum_reverse]

/-- What is stored is read back whatever follows it, and the buffers have the right size: for an
output, for an unspent entry of the set, and for the journal of a block. -/
theorem stored_records_lossless (hstring : ∀ t, lib.bytesString (lib.stringBytes t) = t)
    (hkeys : keys.Lawful) : (∀ amount assets pkScript, Storable lib amount assets pkScript →
      (putCompressedTxOut lib keys (uint64 amount) assets pkScript).length =
          compressedTxOutSize lib keys (uint64 amount) assets pkScript ∧
        (uint64 amount : ℤ) = amount ∧
        Reads (decodeCompressedTxOut lib keys) (putCompressedTxOut lib keys (uint64 amount) assets pkScript)
          (uint64 amount, assets, pkScript)) ∧
    (∀ entry : UtxoEntry, Storable lib entry.amount entry.txAssets entry.pkScript →
      -2 ^ 31 ≤ entry.blockHeight ∧ entry.blockHeight < 2 ^ 31 → entry.packedFlags.spent = false →
      ∃ bytes, serializeUtxoEntry lib keys entry = some bytes ∧
        bytes.length = utxoEntrySize lib keys entry ∧
        Reads (deserializeUtxoEntry lib keys) bytes
          { entry with packedFlags := { coinBase := entry.packedFlags.coinBase } }) ∧
    ∀ (stxos : List SpentTxOut) (txns : List Tx), (∀ stxo ∈ stxos, stxo.Storable lib) →
      (journalInputs txns).length = stxos.length →
      (serializeSpendJournalEntry lib keys stxos).length =
          (stxos.map (spentTxOutSerializeSize lib keys)).sum ∧
        deserializeSpendJournalEntry lib keys (serializeSpendJournalEntry lib keys stxos) txns =
          .ok (stxos, []) := by
  refine ⟨fun amount assets pkScript h => ?_, fun entry h hheight hspent => ?_, fun stxos txns h hlen => ?_⟩
  · exact ⟨length_putCompressedTxOut .., uint64_of_nonneg h.amount, reads_compressedTxOut hstring hkeys h⟩
  · refine ⟨_, by rw [serializeUtxoEntry, hspent]; rfl, ?_, reads_utxoEntry hstring hkeys h hheight⟩
    rw [length_append, length_putVLQ, length_putCompressedTxOut, utxoEntrySize]
  · exact ⟨length_serializeSpendJournalEntry ..,
      deserializeSpendJournalEntry_serialize hstring hkeys hlen h⟩

end Back

namespace Reference

open Wire.Reference

def diagonalKeys : PubKeyLib where
  Key := Bytes
  parsePubKey
    | [] => none
    | format :: rest =>
      if format = 0x04 then if rest.drop 32 = rest.take 32 then some (rest.take 32) else none
      else some rest
  serializeUncompressed x := 0x04 :: (x ++ x)

theorem diagonalKeys_lawful : diagonalKeys.Lawful where
  decompress {x y} hx hy h := by
    have hparity : (2 ||| (y.getLastD 0 &&& 1) : UInt8) ≠ 0x04 := by
      have hbits : ∀ v : BitVec 8, (2#8 ||| (v &&& 1#8)) ≠ 4#8 := by decide
      exact fun heq => hbits (y.getLastD 0).toBitVec (congrArg UInt8.toBitVec heq)
    have hsame : y = x := by
      by_contra hne
      simp [diagonalKeys, take_left' hx, drop_left' hx, hne] at h
    exact ⟨x, by simp only [diagonalKeys, if_neg hparity], by rw [hsame]; rfl⟩

def sampleStxo : SpentTxOut :=
  ⟨5000000000, [⟨⟨"ordx".toList, "f".toList, "pearl".toList⟩, ⟨3, 12⟩, 7⟩],
    [0x21, 0x02] ++ replicate 32 9 ++ [0xac], 3, true⟩

def sampleSpend : Tx := ⟨0, [⟨⟨1, 0⟩, []⟩], []⟩

theorem sampleStxo_storable : sampleStxo.Storable textLib := by
  refine ⟨⟨by decide, by decide, ?_, ?_, by decide⟩, by decide⟩
  · intro a ha
    rw [mem_singleton.mp ha]
    exact ⟨by decide +kernel, by decide +kernel, by decide +kernel, by decide +kernel, by decide⟩
  · intro a ha
    rw [mem_singleton.mp ha]
    exact textLib_exact.read_format _ (by decide)

def sampleEntry : UtxoEntry :=
  ⟨sampleStxo.amount, sampleStxo.assets, sampleStxo.pkScript, sampleStxo.height, { coinBase := true }⟩

theorem sampleStxo_lossless : Reads (decodeCompressedTxOut textLib diagonalKeys)
        (putCompressedTxOut textLib diagonalKeys (uint64 sampleStxo.amount) sampleStxo.assets
          sampleStxo.pkScript)
        (uint64 sampleStxo.amount, sampleStxo.assets, sampleStxo.pkScript) ∧
      (∃ bytes, serializeUtxoEntry textLib diagonalKeys sampleEntry = some bytes ∧
        bytes.length = utxoEntrySize textLib diagonalKeys sampleEntry ∧
        Reads (deserializeUtxoEntry textLib diagonalKeys) bytes sampleEntry) ∧
      deserializeSpendJournalEntry textLib diagonalKeys
        (serializeSpendJournalEntry textLib diagonalKeys [sampleStxo]) [sampleSpend] =
      .ok ([sampleStxo], []) := by
  obtain ⟨hout, hentry, hjournal⟩ :=
    stored_records_lossless textLib_exact.read_string diagonalKeys_lawful
  refine ⟨(hout _ _ _ sampleStxo_storable.1).2.2, ?_, ?_⟩
  · exact hentry sampleEntry sampleStxo_storable.1 sampleStxo_storable.2 rfl
  · exact (hjournal [sampleStxo] [sampleSpend]
      (fun _ h => mem_singleton.mp h ▸ sampleStxo_storable) rfl).2

end Reference

end SatoshiNet.Chain
