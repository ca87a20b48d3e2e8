import SatoshiNet.Chain.Anchor

/-!
The records of anchored outputs.  Every anchor of a connected block is stored under the locked
output it names; a block is refused when it anchors an output that is stored already or that
another of its anchors names.
-/

namespace SatoshiNet.Chain

open Lib Wire List Function

def int64Bytes (n : ℤ) : Bytes := leBytes 8 (n % 2 ^ 64).toNat

def bytesInt64 (bs : Bytes) : ℤ :=
  if leNat bs < 2 ^ 63 then leNat bs else (leNat bs : ℤ) - 2 ^ 64

theorem bytesInt64_int64Bytes {n : ℤ} (h : -2 ^ 63 ≤ n ∧ n < 2 ^ 63) :
    bytesInt64 (int64Bytes n) = n := by
  have hle : leNat (int64Bytes n) = (n % 2 ^ 64).toNat := leNat_leBytes 8 _ (by omega)
  rw [bytesInt64, hle]
  split <;> omega

def serializeAnchorTxInfo (info : AnchorTxInfo) : Bytes :=
  withLength info.lockedUtxo ++ (withLength info.anchorTxid ++
    (withLength info.witnessScript ++ int64Bytes info.value))

def serializedMinLen : ℕ := 176

def deserializeAnchorTxInfo (data : Bytes) : AnchorM AnchorTxInfo :=
  if data.length < serializedMinLen then .error .corruptRecord
  else
    match readWithLength data with
    | none => .error .corruptRecord
    | some (lockedUtxo, data) =>
      match readWithLength data with
      | none => .error .corruptRecord
      | some (anchorTxid, data) =>
        match readWithLength data with
        | none => .error .corruptRecord
        | some (witnessScript, data) =>
          if data.length < 8 then .error .corruptRecord
          else .ok ⟨lockedUtxo, witnessScript, bytesInt64 (data.take 8), anchorTxid⟩

structure AnchorTxInfo.Fits (info : AnchorTxInfo) : Prop where
  lockedUtxo : info.lockedUtxo.length < 2 ^ 32
  anchorTxid : info.anchorTxid.length < 2 ^ 32
  witnessScript : info.witnessScript.length < 2 ^ 32
  value : -2 ^ 63 ≤ info.value ∧ info.value < 2 ^ 63

theorem deserializeAnchorTxInfo_serialize {info} (hfits : info.Fits)
    (hlen : serializedMinLen ≤ (serializeAnchorTxInfo info).length) :
    deserializeAnchorTxInfo (serializeAnchorTxInfo info) = .ok info := by
  have h8 : (int64Bytes info.value).length = 8 := leBytes_length 8 _
  rw [deserializeAnchorTxInfo, if_neg (Nat.not_lt.mpr hlen), serializeAnchorTxInfo]
  simp [readWithLength_withLength _ _ hfits.lockedUtxo, readWithLength_withLength _ _
    hfits.anchorTxid, readWithLength_withLength _ _ hfits.witnessScript, h8, take_of_length_le
    h8.le, bytesInt64_int64Bytes hfits.value]

theorem length_of_deserialize {data} {info} (h : deserializeAnchorTxInfo data = .ok info) :
    serializedMinLen ≤ data.length := by
  by_contra hshort
  rw [deserializeAnchorTxInfo, if_pos (Nat.not_le.mp hshort)] at h
  cases h

abbrev AnchorBucket := Bytes → Option Bytes

variable (bucket : AnchorBucket)

def dbPutAnchorTxInfo (info : AnchorTxInfo) : AnchorM AnchorBucket :=
  if info.lockedUtxo = [] then .error .keyRequired
  else .ok (update bucket info.lockedUtxo (some (serializeAnchorTxInfo info)))

def dbDeleteAnchorTxInfo (lockedUtxo anchorTxid : Bytes) : AnchorM AnchorBucket :=
  match bucket lockedUtxo with
  | none => .ok bucket
  | some value => do
    let info ← deserializeAnchorTxInfo value
    if info.anchorTxid ≠ anchorTxid then .ok bucket
    else .ok (update bucket lockedUtxo none)

def dbFetchAnchorTxInfo (lockedUtxo : Bytes) : AnchorM AnchorTxInfo :=
  match bucket lockedUtxo with
  | none => .error .recordNotFound
  | some value => deserializeAnchorTxInfo value

/-- Its callers drop the error, so an unreadable record counts as a missing one. -/
def fetchAnchorTx (lockedUtxo : Bytes) : Option AnchorTxInfo :=
  match bucket lockedUtxo with
  | none => none
  | some value => (deserializeAnchorTxInfo value).toOption

def AnchorInfo.record (info : AnchorInfo) (tx : Tx) : AnchorTxInfo :=
  ⟨info.utxo, info.witnessScript, info.value, tx.txID⟩

theorem AnchorInfo.record_fits {v} {script} {info} (tx : Tx)
    (h : parseAnchorScript v script = .ok info) : (info.record tx).Fits := by
  obtain ⟨hutxo, hwitness, hvalue⟩ := parseAnchorScript_bounds h
  have htxid : tx.txID.length = 64 := hexText_length 64 _
  exact ⟨by simp only [record]; omega, by simp only [record]; omega, by simp only [record]; omega,
    hvalue⟩

section Unique

variable (p : ChainParams) (block : Block)

def legacySameAnchor : Bool :=
  p.net == testNet &&
    ((block.height == 1708 && block.hash ==
        0xac11b5d39e67af3ea2177150be8021a969383c7528675e97a4c6c93ce4785964) ||
      (block.height == 1709 && block.hash ==
        0x7120c6cb241034f458893b38d7a01e8c8b65fd7962c0b42ac76e526ea355ef30))

def legacy1748 : Bool :=
  p.net == testNet && block.height == 1748 &&
    block.hash == 0xaf898ea0b898e1e93024aef9e39aefd26077421666eabbac37f14f7743fa712e

def txIDText (hash : Hash) : Bytes := hexText 64 hash.toNat

def approved1748Anchor (txid : Bytes) : Bool :=
  legacy1748 p block &&
    (txid == txIDText 0x12818525d7a1a6801dce1143e03c2b4bea6f59c8e76c2e7dad1cb6f2fff094e7 ||
      txid == txIDText 0xffd55194f0dae8daf18b1831fda96257cd73ad835869838cc49c1cf1f6bcbd49)

def approvedReplay (tx : Tx) (info : AnchorTxInfo) : Bool :=
  (legacySameAnchor p block &&
      tx.txID == txIDText 0x2025513a5ad2bdb180bc1d239915fa813237f9c6724acfcaf5ae02971d803215 &&
      info.anchorTxid == tx.txID) ||
    (approved1748Anchor p block info.anchorTxid && approved1748Anchor p block tx.txID) ||
    (legacy1748 p block &&
      tx.txID == txIDText 0x5da834f2e726daac5341dec4d7ce20c906969ac8517fb3b7f776b703b72030e9 &&
      (info.anchorTxid ==
          txIDText 0x5387e75dbb0b585ee6aa43cef65fe55854485202ca2cd4b6c10fb36fea04d89e ||
        info.anchorTxid == tx.txID))

variable (p : ChainParams) (v : AnchorVerifier) (ctx : AnchorContext) (bucket : AnchorBucket)
  (block : Block)

/-- One turn of the loop; `seen` are the outputs anchored by earlier transactions of the block. -/
def checkAnchorTxUnique (seen : List (Bytes × Hash)) (tx : Tx) : AnchorM (List (Bytes × Hash)) :=
  if !isAnchorTx tx then .ok seen
  else do
    let info ← getLockedTxInfo v ctx tx false (p.posV2Active block.height)
      (p.nativeAssetsActive block.height)
    let repeated := match seen.lookup info.utxo with
      | none => false
      | some prevHash => prevHash == tx.hash || !approved1748Anchor p block (txIDText prevHash) ||
          !approved1748Anchor p block tx.txID
    if repeated then .error .duplicateInBlock
    else
      let recorded := match fetchAnchorTx bucket info.utxo with
        | none => false
        | some record => !approvedReplay p block tx record
      if recorded then .error .alreadyAnchored
      else .ok ((info.utxo, tx.hash) :: seen)

def checkAnchorTxsUnique : AnchorM Unit := do
  let _ ← block.transactions.foldlM (checkAnchorTxUnique p v ctx bucket block) []
  return ()

/-- The anchors of a block as connecting it collects them, with the native argument left out. -/
def blockAnchors : AnchorM (List AnchorTxInfo) :=
  (block.transactions.filter isAnchorTx).mapM fun tx => do
    let info ← getLockedTxInfo v ctx tx false (p.posV2Active block.height) false
    return info.record tx

def connectAnchors : AnchorM AnchorBucket := do
  let anchorTxInfos ← blockAnchors p v ctx block
  anchorTxInfos.foldlM dbPutAnchorTxInfo bucket

def disconnectAnchor (height : ℤ) (bucket : AnchorBucket) (tx : Tx) : AnchorM AnchorBucket := do
  let info ← getLockedTxInfo v ctx tx false (p.posV2Active height) false
  dbDeleteAnchorTxInfo bucket info.utxo tx.txID

def disconnectAnchors : AnchorM AnchorBucket :=
  (block.transactions.filter isAnchorTx).foldlM (disconnectAnchor p v ctx block.height) bucket

end Unique

section Records

variable (v : AnchorVerifier)

def anchorInvoice (tx : Tx) : Option AnchorInfo :=
  match tx.txIn with
  | [input] => (parseAnchorScript v input.signatureScript).toOption
  | _ => none

def anchorRecord (tx : Tx) : Option AnchorTxInfo := (anchorInvoice v tx).map (·.record tx)

def anchorRecords (txs : List Tx) : List AnchorTxInfo :=
  (txs.filter isAnchorTx).filterMap (anchorRecord v)

def lockedUtxos (txs : List Tx) : List Bytes := (anchorRecords v txs).map (·.lockedUtxo)

def Readable (info : AnchorTxInfo) : Prop :=
  serializedMinLen ≤ (serializeAnchorTxInfo info).length

instance (info : AnchorTxInfo) : Decidable (Readable info) := Nat.decLe _ _

variable {v} {p : ChainParams} {ctx : AnchorContext} {bindOutputs current nativeActive : Bool}
  {info : AnchorInfo} {tx : Tx}

variable (h : getLockedTxInfo v ctx tx current bindOutputs nativeActive = .ok info)
include h

theorem anchorInvoice_of_getLockedTxInfo : anchorInvoice v tx = some info := by
  obtain ⟨proof, signer, hver, -⟩ := checkAnchorInput_eq_ok.mp h
  obtain ⟨input, hinput, hparse, -⟩ := hver.script
  simp only [anchorInvoice, hinput, hparse]
  rfl

theorem anchorRecord_of_getLockedTxInfo : anchorRecord v tx = some (info.record tx) := by
  rw [anchorRecord, anchorInvoice_of_getLockedTxInfo h]
  rfl

omit h

variable {record : AnchorTxInfo}

theorem anchorRecord_fits (h : anchorRecord v tx = some record) : record.Fits := by
  obtain ⟨info, hinfo, rfl⟩ := Option.map_eq_some_iff.mp h
  rw [anchorInvoice] at hinfo
  split at hinfo
  · rename_i input _
    cases hparse : parseAnchorScript v input.signatureScript with
    | error e =>
      rw [hparse] at hinfo
      cases hinfo
    | ok info' =>
      rw [hparse] at hinfo
      cases hinfo
      exact AnchorInfo.record_fits tx hparse
  · cases hinfo

theorem anchorRecord_length (h : anchorRecord v tx = some record) :
    (serializeAnchorTxInfo record).length =
      84 + record.lockedUtxo.length + record.witnessScript.length := by
  obtain ⟨info, -, rfl⟩ := Option.map_eq_some_iff.mp h
  have htxid : (info.record tx).anchorTxid.length = 64 := hexText_length 64 _
  have hvalue : (int64Bytes (info.record tx).value).length = 8 := leBytes_length 8 _
  simp only [serializeAnchorTxInfo, length_append, withLength_length, htxid, hvalue]
  omega

theorem mem_anchorRecords {txs} :
    record ∈ anchorRecords v txs ↔ ∃ tx ∈ txs, isAnchorTx tx ∧ anchorRecord v tx = some record := by
  simp [anchorRecords, and_assoc]

theorem anchorRecords_cons (tx : Tx) (txs) : anchorRecords v (tx :: txs) =
      (if isAnchorTx tx then (anchorRecord v tx).toList else []) ++ anchorRecords v txs := by
  cases htx : isAnchorTx tx with
  | false => simp [anchorRecords, htx]
  | true => cases hr : anchorRecord v tx <;> simp [anchorRecords, htx, hr]

end Records

section RecordSpecs

variable {p : ChainParams} {v : AnchorVerifier} {ctx : AnchorContext} {bucket : AnchorBucket}
  {block : Block} {bucket bucket' : AnchorBucket} {infos : List AnchorTxInfo}
  {seen seen' : List (Bytes × Hash)} {txs : List Tx} {u : Bytes}

variable (hsame : legacySameAnchor p block = false)
include hsame

theorem checkAnchorTxUnique_eq_ok {tx : Tx}
    (h1748 : legacy1748 p block = false) (hanchor : isAnchorTx tx = true)
    (h : checkAnchorTxUnique p v ctx bucket block seen tx = .ok seen') :
    ∃ record, anchorRecord v tx = some record ∧ seen.lookup record.lockedUtxo = none ∧
      fetchAnchorTx bucket record.lockedUtxo = none ∧
      seen' = (record.lockedUtxo, tx.hash) :: seen := by
  simp only [checkAnchorTxUnique, hanchor, Bool.not_true, Bool.false_eq_true, if_false,
    bind_eq_ok, ite_error_eq_ok] at h
  obtain ⟨info, hinfo, hseen, hstored, hok⟩ := h
  refine ⟨info.record tx, anchorRecord_of_getLockedTxInfo hinfo, ?_, ?_, (Except.ok.inj hok).symm⟩
  · show seen.lookup info.utxo = none
    split at hseen
    · assumption
    · simp [approved1748Anchor, h1748] at hseen
  · show fetchAnchorTx bucket info.utxo = none
    split at hstored
    · assumption
    · simp [approvedReplay, approved1748Anchor, hsame, h1748] at hstored

theorem foldlM_checkAnchorTxUnique (h1748 : legacy1748 p block = false)
    (h : txs.foldlM (checkAnchorTxUnique p v ctx bucket block) seen = .ok seen') :
    (lockedUtxos v txs).Nodup ∧
      ∀ u ∈ lockedUtxos v txs, seen.lookup u = none ∧ fetchAnchorTx bucket u = none := by
  induction txs generalizing seen with
  | nil => exact ⟨nodup_nil, by simp [lockedUtxos, anchorRecords]⟩
  | cons tx txs ih =>
    obtain ⟨mid, hmid, hrest⟩ := foldlM_cons_eq_ok.mp h
    cases htx : isAnchorTx tx with
    | false =>
      obtain rfl : seen = mid := by simpa [checkAnchorTxUnique, htx] using hmid
      simpa [lockedUtxos, anchorRecords_cons, htx] using ih hrest
    | true =>
      obtain ⟨record, hrecord, hseen, hstored, rfl⟩ :=
        checkAnchorTxUnique_eq_ok hsame h1748 htx hmid
      obtain ⟨hnodup, hnew⟩ := ih hrest
      have hlist : lockedUtxos v (tx :: txs) = record.lockedUtxo :: lockedUtxos v txs := by
        simp [lockedUtxos, anchorRecords_cons, htx, hrecord]
      have hlookup : ∀ u ∈ lockedUtxos v txs, u ≠ record.lockedUtxo ∧ seen.lookup u = none := by
        intro u hu
        have hu' := (hnew u hu).1
        rw [lookup_cons] at hu'
        by_cases heq : u = record.lockedUtxo
        · simp [heq] at hu'
        · simp only [beq_eq_false_iff_ne.mpr heq] at hu'
          exact ⟨heq, hu'⟩
      rw [hlist]
      exact ⟨nodup_cons.mpr ⟨fun hmem => (hlookup _ hmem).1 rfl, hnodup⟩, forall_mem_cons.mpr
        ⟨⟨hseen, hstored⟩, fun u hu => ⟨(hlookup u hu).2, (hnew u hu).2⟩⟩⟩

theorem checkAnchorTxsUnique_spec
    (h1748 : legacy1748 p block = false) (h : checkAnchorTxsUnique p v ctx bucket block = .ok ()) :
    (lockedUtxos v block.transactions).Nodup ∧
      ∀ u ∈ lockedUtxos v block.transactions, fetchAnchorTx bucket u = none := by
  obtain ⟨seen, hseen, -⟩ := bind_eq_ok.mp h
  obtain ⟨hnodup, hnew⟩ := foldlM_checkAnchorTxUnique hsame h1748 hseen
  exact ⟨hnodup, fun u hu => (hnew u hu).2⟩

omit hsame

theorem blockAnchors_eq_ok (h : blockAnchors p v ctx block = .ok infos) :
    infos = anchorRecords v block.transactions := by
  rw [blockAnchors] at h
  rw [anchorRecords]
  generalize block.transactions.filter isAnchorTx = txs at h
  induction txs generalizing infos with
  | nil => exact (Except.ok.inj h).symm
  | cons tx txs ih =>
    simp only [mapM_cons, bind_eq_ok] at h
    obtain ⟨record, ⟨info, hinfo, hrecord⟩, rest, hrest, hinfos⟩ := h
    cases hrecord
    cases hinfos
    rw [filterMap_cons, anchorRecord_of_getLockedTxInfo hinfo, ih hrest]

/-- The record of an anchor comes back from the store exactly when it has a key and is at least as
long as the reader asks, whatever lengths the check let through. -/
theorem anchorRecord_survives_iff {record : AnchorTxInfo} (bucket : AnchorBucket)
    (h : blockAnchors p v ctx block = .ok infos) (hrecord : record ∈ infos) :
    ((∃ stored, dbPutAnchorTxInfo bucket record = .ok stored ∧
        dbFetchAnchorTxInfo stored record.lockedUtxo = .ok record) ∧
      deserializeAnchorTxInfo (serializeAnchorTxInfo record) = .ok record) ↔
      record.lockedUtxo ≠ [] ∧
        serializedMinLen ≤ 84 + record.lockedUtxo.length + record.witnessScript.length := by
  obtain ⟨tx, -, -, hbuilt⟩ := mem_anchorRecords.mp (blockAnchors_eq_ok h ▸ hrecord)
  rw [← anchorRecord_length hbuilt]
  constructor
  · rintro ⟨⟨stored, hput, -⟩, hread⟩
    exact ⟨(ite_error_eq_ok.mp hput).1, length_of_deserialize hread⟩
  · rintro ⟨hkey, hlen⟩
    have hread := deserializeAnchorTxInfo_serialize (anchorRecord_fits hbuilt) hlen
    refine ⟨⟨_, if_neg hkey, ?_⟩, hread⟩
    rw [dbFetchAnchorTxInfo, update_self]
    exact hread

def recordEdits (infos : List AnchorTxInfo) : List (Edit Bytes Bytes) :=
  infos.map fun info => .insert info.lockedUtxo (serializeAnchorTxInfo info)

theorem foldlM_dbPutAnchorTxInfo_eq_ok : infos.foldlM dbPutAnchorTxInfo bucket = .ok bucket' ↔
      (∀ info ∈ infos, info.lockedUtxo ≠ []) ∧ bucket' = applyAll bucket (recordEdits infos) := by
  induction infos generalizing bucket with
  | nil =>
    rw [foldlM_nil, recordEdits, map_nil, applyAll_nil]
    exact ⟨fun h => ⟨by simp, (Except.ok.inj h).symm⟩, fun h => congrArg _ h.2.symm⟩
  | cons info infos ih =>
    simp only [foldlM_cons_eq_ok, dbPutAnchorTxInfo, ite_error_eq_ok, Except.ok.injEq,
      forall_mem_cons, and_assoc]
    constructor
    · rintro ⟨mid, hkey, rfl, hrest⟩
      exact ⟨hkey, ih.mp hrest⟩
    · rintro ⟨hkey, hrest⟩
      exact ⟨_, hkey, rfl, ih.mpr hrest⟩

theorem mem_of_lastEdit_recordEdits {left} (h : lastEdit u (recordEdits infos) = some left) :
    ∃ info ∈ infos, info.lockedUtxo = u ∧ left = some (serializeAnchorTxInfo info) := by
  obtain ⟨e, he, hkey, hleaves⟩ := mem_of_lastEdit h
  obtain ⟨info, hinfo, rfl⟩ := mem_map.mp he
  exact ⟨info, hinfo, hkey, hleaves.symm⟩

theorem lastEdit_recordEdits_eq_none :
    lastEdit u (recordEdits infos) = none ↔ u ∉ infos.map (·.lockedUtxo) := by
  rw [lastEdit_eq_none, recordEdits, forall_mem_map, mem_map]
  simp [Edit.key]

theorem foldlM_dbPutAnchorTxInfo (hnodup : (infos.map (·.lockedUtxo)).Nodup)
    (h : infos.foldlM dbPutAnchorTxInfo bucket = .ok bucket') :
    (∀ r ∈ infos, bucket' r.lockedUtxo = some (serializeAnchorTxInfo r)) ∧
      ∀ u ∉ infos.map (·.lockedUtxo), bucket' u = bucket u := by
  obtain ⟨-, rfl⟩ := foldlM_dbPutAnchorTxInfo_eq_ok.mp h
  refine ⟨fun r hr => ?_, fun u hu => ?_⟩
  · rw [applyAll_eq_lastEdit]
    cases hlast : lastEdit r.lockedUtxo (recordEdits infos) with
    | none => exact absurd (mem_map_of_mem hr) (lastEdit_recordEdits_eq_none.mp hlast)
    | some left =>
      obtain ⟨r', hr', hkey, rfl⟩ := mem_of_lastEdit_recordEdits hlast
      rw [inj_on_of_nodup_map hnodup hr' hr hkey]
      rfl
  · rw [applyAll_eq_lastEdit, lastEdit_recordEdits_eq_none.mpr hu]
    rfl

theorem dbDeleteAnchorTxInfo_stored {record} (hfits : record.Fits) (hread : Readable record)
    (h : bucket record.lockedUtxo = some (serializeAnchorTxInfo record)) :
    dbDeleteAnchorTxInfo bucket record.lockedUtxo record.anchorTxid =
      .ok (update bucket record.lockedUtxo none) := by
  simp only [dbDeleteAnchorTxInfo, h, deserializeAnchorTxInfo_serialize hfits hread]
  exact if_neg (not_not_intro rfl)

theorem foldlM_disconnectAnchor {height : ℤ}
    (hnodup : ((txs.filterMap (anchorRecord v)).map (·.lockedUtxo)).Nodup)
    (hstored : ∀ r ∈ txs.filterMap (anchorRecord v), Readable r ∧ bucket r.lockedUtxo = some
      (serializeAnchorTxInfo r))
    (h : txs.foldlM (disconnectAnchor p v ctx height) bucket = .ok bucket') (u) : bucket' u =
      if u ∈ (txs.filterMap (anchorRecord v)).map (·.lockedUtxo) then none else bucket u := by
  induction txs generalizing bucket with
  | nil =>
    cases h
    simp
  | cons tx txs ih =>
    obtain ⟨mid, hmid, hrest⟩ := foldlM_cons_eq_ok.mp h
    obtain ⟨info, hinfo, hdelete⟩ := bind_eq_ok.mp hmid
    have hrecord := anchorRecord_of_getLockedTxInfo hinfo
    have hlist : (tx :: txs).filterMap (anchorRecord v) =
        info.record tx :: txs.filterMap (anchorRecord v) := by
      rw [filterMap_cons, hrecord]
    rw [hlist] at hnodup hstored ⊢
    rw [map_cons, nodup_cons] at hnodup
    obtain ⟨hread, hhead⟩ := hstored _ mem_cons_self
    have hmid' := dbDeleteAnchorTxInfo_stored (anchorRecord_fits hrecord) hread hhead
    obtain rfl := Except.ok.inj (hmid'.symm.trans hdelete)
    have htail : ∀ r ∈ txs.filterMap (anchorRecord v), Readable r ∧
        update bucket (info.record tx).lockedUtxo none r.lockedUtxo =
          some (serializeAnchorTxInfo r) := by
      intro r hr
      have hne : r.lockedUtxo ≠ (info.record tx).lockedUtxo := fun heq =>
        hnodup.1 (heq ▸ mem_map_of_mem hr)
      rw [update_of_ne hne]
      exact hstored r (mem_cons_of_mem _ hr)
    rw [ih hnodup.2 htail hrest, map_cons]
    by_cases hu : u = (info.record tx).lockedUtxo
    · simp [hu]
    · simp only [update_of_ne hu, mem_cons, hu, false_or]

end RecordSpecs

end SatoshiNet.Chain
