import SatoshiNet.Chain.AnchorChain
import SatoshiNet.Chain.CacheConnect

/-!
Storing a block that was accepted, and taking it off the chain again.

Acceptance reads the anchors with the native proofs active at its height; connecting and
disconnecting read them again with native proofs off, and with the core nodes of their own time.
-/

namespace SatoshiNet.Chain

open Lib Wire List Option Function
open UtxoViewpoint

/-- The active chain, newest block first, and what is kept for it; a journal entry is the list it
spells. -/
structure ChainStore where
  chain : List Block
  cache : UtxoCache
  journal : Hash → Option (List SpentTxOut)
  anchors : AnchorBucket

inductive StoreError
  | notTip | spentInformation
  | utxo (error : UtxoError)
  | corruptJournal
  | anchor (error : AnchorError)

def dbPutUtxoView (db : Coins) (view : UtxoViewpoint) (outpoint : OutPoint) : Option SpentTxOut :=
  match view.entries outpoint with
  | none => db outpoint
  | some entry =>
    if !entry.packedFlags.modified then db outpoint
    else if entry.packedFlags.spent then none
    else some entry.stxo

namespace ChainStore

section Model

variable (p : ChainParams) (v : AnchorVerifier) (ctx : AnchorContext) (s : ChainStore)
  (block : Block)

def connectBlock (stxos : List SpentTxOut)
    (anchorTxInfos : List AnchorTxInfo) (full : Bool) : Except StoreError ChainStore := do
  require (s.chain.head?.map (·.hash) == some block.prevBlock) .notTip
  require (stxos.length == countSpentOutputs block) .spentInformation
  let cache := cond (p.posV2Active block.height) (s.cache.flush .required block.hash false full)
    s.cache
  let anchors ← (anchorTxInfos.foldlM dbPutAnchorTxInfo s.anchors).mapError .anchor
  return {
    chain := block :: s.chain
    cache := cache.flush .ifNeeded block.hash false full
    journal := update s.journal block.hash (some stxos)
    anchors := anchors }

def lockedTxInfo (height : ℤ) (tx : Tx) : UtxoM AnchorTxInfo :=
  match getLockedTxInfo v ctx tx false (p.posV2Active height) false with
  | .error _ => .error .anchorTx
  | .ok info => .ok (info.record tx)

/-- The block extends the active chain: its transactions go through the cache, then it is stored. -/
def connect (room : Room) (s : ChainStore) (block : Block)
    (full : Bool) : Except StoreError ChainStore := do
  let ((cache, stxos), anchorTxInfos) ← (UtxoCache.connectTransactions room
    (lockedTxInfo p v ctx block.height) block ((s.cache, []), some [])).mapError .utxo
  connectBlock p { s with cache := cache } block stxos (anchorTxInfos.getD []) full

def dbFetchSpendJournalEntry : Except StoreError (List SpentTxOut) :=
  let stxos := (s.journal block.hash).getD []
  let numStxos := countSpentOutputs block
  if stxos.length < numStxos then .error .corruptJournal
  else .ok (stxos.drop (stxos.length - numStxos))

def disconnectBlock (view : UtxoViewpoint) : Except StoreError ChainStore := do
  require (s.chain.head? == some block) .notTip
  let cache := s.cache.flush .required block.prevBlock false false
  let _ ← s.dbFetchSpendJournalEntry block
  let anchors ← (disconnectAnchors p v ctx s.anchors block).mapError .anchor
  return {
    chain := s.chain.tail
    cache := { cache with db := dbPutUtxoView cache.db view }
    journal := update s.journal block.hash none
    anchors := anchors }

/-- The chain grows above its tip and comes back to it.  A block that is on the chain is not
processed again. -/
inductive Returns (p : ChainParams) (v : AnchorVerifier) (room : Room) : ChainStore → ChainStore → Prop
  | refl (s : ChainStore) : Returns p v room s s
  | tour {s s₁ s₂ s₃ s' : ChainStore} {connectCtx disconnectCtx : AnchorContext} {block : Block}
      {full : Bool} {view : UtxoViewpoint} (hnew : ∀ b ∈ s.chain, b.hash ≠ block.hash)
      (hconnect : connect p v connectCtx room s block full = .ok s₁)
      (habove : Returns p v room s₁ s₂)
      (hdisconnect : disconnectBlock p v disconnectCtx s₂ block view = .ok s₃)
      (hrest : Returns p v room s₃ s') : Returns p v room s s'

end Model

end ChainStore

variable {p : ChainParams} {v : AnchorVerifier} {ctx : AnchorContext} {room : Room} {height : ℤ}

section Removal

def Legible (bucket : AnchorBucket) (u : Bytes) : Prop :=
  ∀ data, bucket u = some data → ∃ info, deserializeAnchorTxInfo data = .ok info

variable {bucket bucket' : AnchorBucket} {tx : Tx} {txs : List Tx} {u : Bytes} {txid : Bytes}

theorem dbDeleteAnchorTxInfo_isOk_iff :
    (∃ bucket', dbDeleteAnchorTxInfo bucket u txid = .ok bucket') ↔ Legible bucket u := by
  rw [dbDeleteAnchorTxInfo, Legible]
  cases bucket u with
  | none => simp
  | some data =>
    simp only [bind_eq_ok, some.injEq, forall_eq']
    constructor
    · rintro ⟨_, info, hinfo, -⟩
      exact ⟨info, hinfo⟩
    · rintro ⟨info, hinfo⟩
      by_cases htxid : info.anchorTxid = txid
      · exact ⟨_, info, hinfo, if_neg (not_not_intro htxid)⟩
      · exact ⟨_, info, hinfo, if_pos htxid⟩

theorem dbDeleteAnchorTxInfo_lookup (h : dbDeleteAnchorTxInfo bucket u txid = .ok bucket') :
    bucket' = bucket ∨ bucket' = update bucket u none := by
  rw [dbDeleteAnchorTxInfo] at h
  cases hu : bucket u with
  | none =>
    rw [hu] at h
    exact .inl (Except.ok.inj h).symm
  | some data =>
    simp only [hu, bind_eq_ok] at h
    obtain ⟨info, -, h⟩ := h
    split_ifs at h <;> cases h
    · exact .inl rfl
    · exact .inr rfl

theorem legible_of_eq_or_none (h : bucket' u = bucket u ∨ bucket' u = none)
    (hu : Legible bucket u) : Legible bucket' u := by
  rcases h with h | h
  · rwa [Legible, h]
  · intro data hdata
    rw [h] at hdata
    cases hdata

theorem disconnectAnchor_shrinks (h : disconnectAnchor p v ctx height bucket tx = .ok bucket') (u) :
    bucket' u = bucket u ∨ bucket' u = none := by
  obtain ⟨info, -, hdelete⟩ := bind_eq_ok.mp h
  rcases dbDeleteAnchorTxInfo_lookup hdelete with rfl | rfl
  · exact .inl rfl
  · by_cases hu : u = info.utxo
    · exact .inr (by rw [hu, update_self])
    · exact .inl (update_of_ne hu _ _)

theorem eq_or_none_trans {x y z : Option Bytes} (hx : x = y ∨ x = none) (hy : y = z ∨ y = none) :
    x = z ∨ x = none :=
  hx.elim (fun heq => heq ▸ hy) .inr

theorem foldlM_disconnectAnchor_shrinks
    (h : txs.foldlM (disconnectAnchor p v ctx height) bucket = .ok bucket') (u) :
    bucket' u = bucket u ∨ bucket' u = none :=
  foldlM_invariant (I := fun b : AnchorBucket => b u = bucket u ∨ b u = none) txs
    (fun _ _ _ _ hb hstep => eq_or_none_trans (disconnectAnchor_shrinks hstep u) hb) (.inl rfl) h

theorem foldlM_disconnectAnchor_isOk_iff :
    (∃ bucket', txs.foldlM (disconnectAnchor p v ctx height) bucket = .ok bucket') ↔
      ∀ tx ∈ txs, ∃ info, getLockedTxInfo v ctx tx false (p.posV2Active height) false = .ok info ∧
        Legible bucket info.utxo := by
  induction txs generalizing bucket with
  | nil => exact ⟨fun _ => by simp, fun _ => ⟨bucket, rfl⟩⟩
  | cons tx txs ih =>
    simp only [foldlM_cons_eq_ok, forall_mem_cons]
    constructor
    · rintro ⟨bucket', mid, hmid, hrest⟩
      obtain ⟨info, hinfo, hdelete⟩ := bind_eq_ok.mp hmid
      have hhead := dbDeleteAnchorTxInfo_isOk_iff.mp ⟨mid, hdelete⟩
      refine ⟨⟨info, hinfo, hhead⟩, fun tx' htx' => ?_⟩
      obtain ⟨info', hinfo', hlegible⟩ := ih.mp ⟨bucket', hrest⟩ tx' htx'
      refine ⟨info', hinfo', ?_⟩
      -- only the first output's own record can be gone by now
      by_cases hsame : info'.utxo = info.utxo
      · rwa [hsame]
      · rcases dbDeleteAnchorTxInfo_lookup hdelete with rfl | rfl
        · exact hlegible
        · rwa [Legible, update_of_ne hsame] at hlegible
    · rintro ⟨⟨info, hinfo, hlegible⟩, hall⟩
      obtain ⟨mid, hdelete⟩ := dbDeleteAnchorTxInfo_isOk_iff.mpr hlegible
      have hmid : disconnectAnchor p v ctx height bucket tx = .ok mid :=
        bind_eq_ok.mpr ⟨info, hinfo, hdelete⟩
      obtain ⟨bucket', hrest⟩ := ih.mpr fun tx' htx' => by
        obtain ⟨info', hinfo', hlegible'⟩ := hall tx' htx'
        exact ⟨info', hinfo', legible_of_eq_or_none (disconnectAnchor_shrinks hmid _) hlegible'⟩
      exact ⟨bucket', mid, hmid, hrest⟩

theorem foldlM_disconnectAnchor_removes {record : AnchorTxInfo} (htx : tx ∈ txs)
    (hrecord : anchorRecord v tx = some record)
    (hbucket : bucket record.lockedUtxo = some (serializeAnchorTxInfo record) ∨
      bucket record.lockedUtxo = none)
    (h : txs.foldlM (disconnectAnchor p v ctx height) bucket = .ok bucket') :
    bucket' record.lockedUtxo = none := by
  induction txs generalizing bucket with
  | nil => cases htx
  | cons tx' txs ih =>
    obtain ⟨mid, hmid, hrest⟩ := foldlM_cons_eq_ok.mp h
    have hshrinks := disconnectAnchor_shrinks hmid record.lockedUtxo
    rcases mem_cons.mp htx with rfl | htx
    · suffices hgone : mid record.lockedUtxo = none by
        simpa [hgone] using foldlM_disconnectAnchor_shrinks hrest record.lockedUtxo
      rcases hbucket with hstored | hnone
      · obtain ⟨info, hinfo, hdelete⟩ := bind_eq_ok.mp hmid
        obtain rfl : info.record tx = record :=
          some.inj ((anchorRecord_of_getLockedTxInfo hinfo).symm.trans hrecord)
        have hread : Readable (info.record tx) := by
          obtain ⟨info', hinfo'⟩ := dbDeleteAnchorTxInfo_isOk_iff.mp ⟨mid, hdelete⟩ _ hstored
          exact length_of_deserialize hinfo'
        have hown := dbDeleteAnchorTxInfo_stored (anchorRecord_fits hrecord) hread hstored
        obtain rfl := Except.ok.inj (hown.symm.trans hdelete)
        exact update_self ..
      · simpa [hnone] using hshrinks
    · exact ih htx (eq_or_none_trans hshrinks hbucket) hrest

end Removal

namespace ChainStore

section Steps

variable {view : UtxoViewpoint}

theorem lockedTxInfo_eq_ok {tx : Tx} {record} : lockedTxInfo p v ctx height tx = .ok record ↔
      ∃ info, getLockedTxInfo v ctx tx false (p.posV2Active height) false = .ok info ∧
        info.record tx = record := by
  rw [lockedTxInfo]
  cases getLockedTxInfo v ctx tx false (p.posV2Active height) false <;> simp

theorem anchorRecord_of_lockedTxInfo (tx : Tx) (record)
    (h : lockedTxInfo p v ctx height tx = .ok record) : anchorRecord v tx = some record := by
  obtain ⟨info, hinfo, rfl⟩ := lockedTxInfo_eq_ok.mp h
  exact anchorRecord_of_getLockedTxInfo hinfo

variable {block : Block} {s s' : ChainStore}

theorem connect_spec {full} (h : connect p v ctx room s block full = .ok s') :
    s'.chain = block :: s.chain ∧ (∃ stxos, stxos.length = countSpentOutputs block ∧
        s'.journal = update s.journal block.hash (some stxos)) ∧
      (∀ r ∈ anchorRecords v block.transactions, r.lockedUtxo ≠ []) ∧
      s'.anchors = applyAll s.anchors (recordEdits (anchorRecords v block.transactions)) := by
  simp only [connect, connectBlock, bind_eq_ok, mapError_eq_ok, require_eq_ok] at h
  obtain ⟨⟨⟨cache, stxos⟩, infos⟩, hconnect, _, -, _, hcount, anchors, hput, hs'⟩ := h
  obtain rfl := Except.ok.inj hs'
  obtain ⟨-, hinfos⟩ := UtxoCache.foldlM_connectTransaction_spec anchorRecord_of_lockedTxInfo hconnect
  obtain rfl : infos = some (anchorRecords v block.transactions) := hinfos
  obtain ⟨hnamed, rfl⟩ := foldlM_dbPutAnchorTxInfo_eq_ok.mp hput
  exact ⟨rfl, ⟨stxos, by simpa using hcount, rfl⟩, hnamed, rfl⟩

theorem disconnectBlock_eq_ok : (∃ s', disconnectBlock p v ctx s block view = .ok s') ↔
      s.chain.head? = some block ∧
        countSpentOutputs block ≤ ((s.journal block.hash).getD []).length ∧
        ∃ anchors, disconnectAnchors p v ctx s.anchors block = .ok anchors := by
  simp only [disconnectBlock, bind_eq_ok, mapError_eq_ok, require_eq_ok, beq_iff_eq,
    dbFetchSpendJournalEntry, ite_error_eq_ok, Nat.not_lt]
  constructor
  · rintro ⟨s', _, hhead, _, ⟨hlen, -⟩, anchors, hanchors, -⟩
    exact ⟨hhead, hlen, anchors, hanchors⟩
  · rintro ⟨hhead, hlen, anchors, hanchors⟩
    exact ⟨_, ⟨⟩, hhead, _, ⟨hlen, rfl⟩, anchors, hanchors, rfl⟩

theorem disconnectBlock_spec (h : disconnectBlock p v ctx s block view = .ok s') :
    s'.chain = s.chain.tail ∧ s'.journal = update s.journal block.hash none ∧
      disconnectAnchors p v ctx s.anchors block = .ok s'.anchors := by
  simp only [disconnectBlock, bind_eq_ok, mapError_eq_ok, require_eq_ok] at h
  obtain ⟨_, -, _, -, anchors, hanchors, hs'⟩ := h
  obtain rfl := Except.ok.inj hs'
  exact ⟨rfl, rfl, hanchors⟩

/-- Above a block the chain may have come and gone: the journals below are as they were, and of the
records some may be gone. -/
theorem Returns.spec (h : Returns p v room s s') :
    s'.chain = s.chain ∧ (∀ b ∈ s.chain, s'.journal b.hash = s.journal b.hash) ∧
      ∀ u, s'.anchors u = s.anchors u ∨ s'.anchors u = none := by
  induction h with
  | refl s => exact ⟨rfl, fun _ _ => rfl, fun _ => .inl rfl⟩
  | @tour s s₁ s₂ s₃ s' _ _ block _ _ hnew hconnect _ hdisconnect _ ihabove ihrest =>
    obtain ⟨hchain₁, ⟨stxos, -, hjournal₁⟩, -, hanchors₁⟩ := connect_spec hconnect
    obtain ⟨hchain₂, hjournal₂, hanchors₂⟩ := ihabove
    obtain ⟨hchain₃, hjournal₃, hanchors₃⟩ := disconnectBlock_spec hdisconnect
    obtain ⟨hchain', hjournal', hanchors'⟩ := ihrest
    have hback : s₃.chain = s.chain := by rw [hchain₃, hchain₂, hchain₁, tail_cons]
    refine ⟨hchain'.trans hback, fun b hb => ?_, fun u => ?_⟩
    · rw [hjournal' b (hback ▸ hb), hjournal₃, update_of_ne (hnew b hb),
        hjournal₂ b (hchain₁ ▸ mem_cons_of_mem _ hb), hjournal₁, update_of_ne (hnew b hb)]
    · refine eq_or_none_trans (hanchors' u) ?_
      have hshrinks := foldlM_disconnectAnchor_shrinks hanchors₃ u
      have habove := hanchors₂ u
      rw [hanchors₁, applyAll_eq_lastEdit] at habove
      cases hlast : lastEdit u (recordEdits (anchorRecords v block.transactions)) with
      | none =>
        rw [hlast, getD_none] at habove
        exact eq_or_none_trans hshrinks habove
      | some left =>
        -- the block's own record went with it
        obtain ⟨record, hmem, rfl, rfl⟩ := mem_of_lastEdit_recordEdits hlast
        rw [hlast, getD_some] at habove
        obtain ⟨tx, htx, hanchor, hrecord⟩ := mem_anchorRecords.mp hmem
        exact .inr (foldlM_disconnectAnchor_removes (mem_filter.mpr ⟨htx, hanchor⟩) hrecord
          habove hanchors₃)

end Steps

section Agreement

variable {connectCtx disconnectCtx : AnchorContext} {lib : AssetLib} {rules : BlockRules}

/-- An anchor that is read the same by its check, by its connection and by its disconnection. -/
structure StorableAnchor (v : AnchorVerifier) (connectCtx disconnectCtx : AnchorContext)
    (bindOutputs : Bool) (tx : Tx) : Prop where
  notNative : v.nativeAssetProof tx = .ok none
  named : ∀ info, anchorInvoice v tx = some info → info.utxo ≠ []
  signer : ∀ info signer, anchorInvoice v tx = some info →
    v.invoiceSigner info tx.txOut bindOutputs = .ok signer →
      connectCtx.isCoreNode signer ∧ disconnectCtx.isCoreNode signer

/-- A block that can be stored and taken off again, given what the cache finds before it. -/
structure Storable (v : AnchorVerifier) (connectCtx disconnectCtx : AnchorContext)
    (bindOutputs : Bool) (cache : UtxoCache) (block : Block) : Prop where
  anchors : ∀ tx ∈ block.transactions, isAnchorTx tx →
    StorableAnchor v connectCtx disconnectCtx bindOutputs tx
  readable : ∀ u data, applyAll (fun _ => none) (recordEdits (anchorRecords v block.transactions)) u =
    some data → serializedMinLen ≤ data.length
  inOrder : ∀ c ∈ earlySpends block.height block.transactions, (cache.found c).isSome

variable {block : Block} {bucket : AnchorBucket}

def AnchorsRead (p : ChainParams) (v : AnchorVerifier) (ctx : AnchorContext) (block : Block)
    (nativeActive : Bool) : Prop :=
  ∀ tx ∈ block.transactions, isAnchorTx tx →
    ∃ info, getLockedTxInfo v ctx tx false (p.posV2Active block.height) nativeActive = .ok info

theorem anchorsRead_of_checkAnchorTxsUnique
    (h : checkAnchorTxsUnique p v ctx bucket block = .ok ()) :
    AnchorsRead p v ctx block (p.nativeAssetsActive block.height) := by
  obtain ⟨seen, hseen, -⟩ := bind_eq_ok.mp h
  intro tx htx hanchor
  obtain ⟨_, _, hstep⟩ := foldlM_steps hseen tx htx
  simp only [checkAnchorTxUnique, hanchor, Bool.not_true, Bool.false_eq_true, if_false,
    bind_eq_ok] at hstep
  obtain ⟨info, hinfo, -⟩ := hstep
  exact ⟨info, hinfo⟩

/-- An accepted anchor is read again with native proofs off exactly when it carries none and its
signer still is a core node. -/
theorem getLockedTxInfo_isOk_iff {tx : Tx} {bindOutputs nativeActive} {info}
    (h : getLockedTxInfo v ctx tx false bindOutputs nativeActive = .ok info) (ctx') :
    (∃ info', getLockedTxInfo v ctx' tx false bindOutputs false = .ok info') ↔
      v.nativeAssetProof tx = .ok none ∧ ∀ signer,
        v.invoiceSigner info tx.txOut bindOutputs = .ok signer → ctx'.isCoreNode signer := by
  obtain ⟨proof, signer, hver, -⟩ := checkAnchorInput_eq_ok.mp h
  constructor
  · rintro ⟨info', h'⟩
    obtain ⟨proof', signer', hver', hoff, hcore, -⟩ := checkAnchorInput_eq_ok.mp h'
    obtain ⟨rfl, rfl, rfl⟩ := hver.unique hver'
    cases proof' with
    | some bytes => exact absurd (hoff rfl) (by simp)
    | none =>
      refine ⟨hver.nativeAssetProof, fun signer hsigner => ?_⟩
      have hsigned := hver.signed
      rw [isSome_none, Bool.or_false, hsigner] at hsigned
      rwa [Except.ok.inj hsigned]
  · rintro ⟨hproof, hcore⟩
    obtain rfl : proof = none := Except.ok.inj (hver.nativeAssetProof.symm.trans hproof)
    have hsigned := hver.signed
    rw [isSome_none, Bool.or_false] at hsigned
    exact ⟨info, checkAnchorInput_eq_ok.mpr ⟨none, signer, hver, by simp, hcore signer hsigned,
      by simp, by simp⟩⟩

variable {read : ReadEntry} {view loaded : UtxoViewpoint} {stxos : List SpentTxOut}
  {scan : BlockScan} {s s' : ChainStore} {full : Bool}

section Sane

variable (haccepted : Accepted p v ctx lib rules bucket read view block stxos loaded scan)
  (hsane : SaneBlock block) (htip : s.chain.head?.map (·.hash) = some block.prevBlock)
  (hreads : ∀ c, s.cache.read c = view.overlay read c)
include haccepted hsane htip hreads

theorem connect_isOk_iff : (∃ s', connect p v connectCtx room s block full = .ok s') ↔
      AnchorsRead p v connectCtx block false ∧
      (∀ r ∈ anchorRecords v block.transactions, r.lockedUtxo ≠ []) ∧
      ∀ c ∈ earlySpends block.height block.transactions, (s.cache.found c).isSome := by
  have hlive : SpendsMeet (fun es c => (applyAll loaded.unspentMap es c).isSome) block.height []
      block.transactions := (foldlM_checkConnectTx_spec haccepted.loop).1.spendsMeet
  have houtside : ∀ c ∉ outputKeys ([] ++ block.transactions) block.height,
      (loaded.unspentMap c).isSome → (s.cache.found c).isSome := by
    intro c hc hsome
    obtain ⟨coin, hcoin⟩ := isSome_iff_exists.mp hsome
    refine UtxoCache.found_isSome_of_read ?_
    rw [hreads c, ← haccepted.overlay c hc, overlay_of_unspentMap hcoin]
    rfl
  have hearly : SpendsMeet (fun es c => lastEdit c es = none → (s.cache.found c).isSome)
      block.height [] block.transactions ↔ _ :=
    @spendsMeet_early_iff block.height loaded.unspentMap (fun c => (s.cache.found c).isSome) []
      block.transactions hsane.hashes hlive houtside
  have htracks : UtxoCache.Tracks s.cache.found [] s.cache :=
    ⟨fun _ _ => rfl, fun _ _ hlast => nomatch hlast⟩
  have hcache := @UtxoCache.foldlM_connectTransaction_isOk_iff room
    (lockedTxInfo p v connectCtx block.height) block.height _ _ _ (anchorRecord v)
    anchorRecord_of_lockedTxInfo hsane.consumed (s.cache, []) [] htracks
    (hlive.imp fun es c hsome hlast => by
      rw [applyAll_eq_lastEdit, hlast] at hsome
      cases hsome)
  have hanchors : (∀ tx ∈ block.transactions, isAnchorTx tx →
      ∃ info, lockedTxInfo p v connectCtx block.height tx = .ok info) ↔
      AnchorsRead p v connectCtx block false := by
    simp only [lockedTxInfo_eq_ok]
    exact forall₃_congr fun tx _ _ =>
      ⟨fun ⟨_, info, h, _⟩ => ⟨info, h⟩, fun ⟨info, h⟩ => ⟨_, info, h, rfl⟩⟩
  rw [hanchors, hearly] at hcache
  rw [and_left_comm, ← hcache]
  constructor
  · rintro ⟨s', hs'⟩
    refine ⟨(connect_spec hs').2.2.1, ?_⟩
    simp only [connect, bind_eq_ok, mapError_eq_ok] at hs'
    obtain ⟨state', hstate', -⟩ := hs'
    exact ⟨state', hstate'⟩
  · rintro ⟨hnamed, ⟨⟨cache, stxos⟩, infos⟩, hstate⟩
    obtain ⟨hlen, hinfos⟩ := UtxoCache.foldlM_connectTransaction_spec anchorRecord_of_lockedTxInfo
      hstate
    obtain rfl : infos = some (anchorRecords v block.transactions) := hinfos
    have hcount : stxos.length = countSpentOutputs block := by
      rw [countSpentOutputs_eq hsane.coinBaseFirst]
      simpa using hlen
    simp only [connect, connectBlock, bind_eq_ok, mapError_eq_ok, require_eq_ok]
    exact ⟨_, _, hstate, ⟨⟩, by simpa using htip, ⟨⟩, by simpa using hcount, _,
      foldlM_dbPutAnchorTxInfo_eq_ok.mpr ⟨hnamed, rfl⟩, rfl⟩

omit haccepted hsane htip hreads

theorem record_of_applyAll {txs u data}
    (h : applyAll (fun _ => none) (recordEdits (anchorRecords v txs)) u = some data) :
    ∃ tx ∈ txs, isAnchorTx tx ∧ ∃ record, anchorRecord v tx = some record ∧ record.lockedUtxo = u ∧
      serializeAnchorTxInfo record = data ∧
      ∀ bucket, applyAll bucket (recordEdits (anchorRecords v txs)) u = some data := by
  rw [applyAll_eq_lastEdit] at h
  cases hlast : lastEdit u (recordEdits (anchorRecords v txs)) with
  | none =>
    rw [hlast] at h
    cases h
  | some left =>
    obtain ⟨record, hmem, hkey, rfl⟩ := mem_of_lastEdit_recordEdits hlast
    obtain ⟨tx, htx, hanchor, hrecord⟩ := mem_anchorRecords.mp hmem
    rw [hlast, getD_some] at h
    refine ⟨tx, htx, hanchor, record, hrecord, hkey, some.inj h, fun bucket => ?_⟩
    rw [applyAll_eq_lastEdit, hlast, getD_some, h]

include haccepted hsane htip hreads in
theorem storable_of_connects (hs' : connect p v connectCtx room s block full = .ok s')
    (hoff : ∃ t, disconnectBlock p v disconnectCtx s' block view = .ok t) :
    Storable v connectCtx disconnectCtx (p.posV2Active block.height) s.cache block := by
  obtain ⟨hanchors, hnamed, horder⟩ := (connect_isOk_iff haccepted hsane htip hreads).mp ⟨s', hs'⟩
  obtain ⟨-, -, -, hbucket⟩ := connect_spec hs'
  obtain ⟨-, -, hoff⟩ := disconnectBlock_eq_ok.mp hoff
  have hoffs := foldlM_disconnectAnchor_isOk_iff.mp hoff
  refine ⟨fun tx htx hanchor => ?_, fun u data hdata => ?_, horder⟩
  · obtain ⟨info, hinfo⟩ := anchorsRead_of_checkAnchorTxsUnique haccepted.unique tx htx hanchor
    have hinvoice := anchorInvoice_of_getLockedTxInfo hinfo
    obtain ⟨hplain, hcore⟩ := (getLockedTxInfo_isOk_iff hinfo _).mp (hanchors tx htx hanchor)
    obtain ⟨-, hcore'⟩ := (getLockedTxInfo_isOk_iff hinfo _).mp
      ((hoffs tx (mem_filter.mpr ⟨htx, hanchor⟩)).imp fun _ h => h.1)
    refine ⟨hplain, fun info' hinfo' => ?_, fun info' signer hinfo' hsigner => ?_⟩
    · exact hnamed (info'.record tx) (mem_anchorRecords.mpr ⟨tx, htx, hanchor, by
        rw [anchorRecord, hinfo']
        rfl⟩)
    · obtain rfl := some.inj (hinvoice.symm.trans hinfo')
      exact ⟨hcore signer hsigner, hcore' signer hsigner⟩
  · -- the record that stays is read when its anchor is taken off
    obtain ⟨tx, htx, hanchor, record, hrecord, rfl, rfl, hall⟩ := record_of_applyAll hdata
    obtain ⟨info, hinfo, hlegible⟩ := hoffs tx (mem_filter.mpr ⟨htx, hanchor⟩)
    obtain rfl := some.inj ((anchorRecord_of_getLockedTxInfo hinfo).symm.trans hrecord)
    obtain ⟨info', hinfo'⟩ := hlegible _ ((congrFun hbucket _).trans (hall _))
    exact length_of_deserialize hinfo'

theorem Storable.legible {bindOutputs} {cache s''}
    (h : Storable v connectCtx disconnectCtx bindOutputs cache block)
    (hs' : connect p v connectCtx room s block full = .ok s') (hreturns : Returns p v room s' s'')
    {tx : Tx} (htx : tx ∈ block.transactions) (hanchor : isAnchorTx tx) {record}
    (hrecord : anchorRecord v tx = some record) : Legible s''.anchors record.lockedUtxo := by
  obtain ⟨-, -, -, hbucket⟩ := connect_spec hs'
  refine legible_of_eq_or_none (hreturns.spec.2.2 _) fun data hdata => ?_
  cases hown : applyAll (fun _ => none) (recordEdits (anchorRecords v block.transactions))
      record.lockedUtxo with
  | none =>
    rw [applyAll_eq_lastEdit] at hown
    cases hlast : lastEdit record.lockedUtxo (recordEdits (anchorRecords v block.transactions)) with
    | none =>
      exact absurd (mem_map_of_mem (mem_anchorRecords.mpr ⟨tx, htx, hanchor, hrecord⟩))
        (lastEdit_recordEdits_eq_none.mp hlast)
    | some left =>
      obtain ⟨_, -, -, rfl⟩ := mem_of_lastEdit_recordEdits hlast
      rw [hlast] at hown
      cases hown
  | some data' =>
    have hlong := h.readable _ _ hown
    obtain ⟨tx', -, -, record', hrecord', -, rfl, hall⟩ := record_of_applyAll hown
    rw [hbucket, hall] at hdata
    cases hdata
    exact ⟨record', deserializeAnchorTxInfo_serialize (anchorRecord_fits hrecord') hlong⟩

include haccepted hsane htip hreads in
theorem connects_of_storable
    (h : Storable v connectCtx disconnectCtx (p.posV2Active block.height) s.cache block) :
    ∃ s', connect p v connectCtx room s block full = .ok s' ∧ ∀ s'' view', Returns p v room s' s'' →
        ∃ t, disconnectBlock p v disconnectCtx s'' block view' = .ok t := by
  have hanchors : ∀ ctx', ctx' = connectCtx ∨ ctx' = disconnectCtx →
      AnchorsRead p v ctx' block false := by
    intro ctx' hctx' tx htx hanchor
    obtain ⟨info, hinfo⟩ := anchorsRead_of_checkAnchorTxsUnique haccepted.unique tx htx hanchor
    have hstorable := h.anchors tx htx hanchor
    refine (getLockedTxInfo_isOk_iff hinfo ctx').mpr ⟨hstorable.notNative, fun signer hsigner => ?_⟩
    have hcore := hstorable.signer info signer (anchorInvoice_of_getLockedTxInfo hinfo) hsigner
    rcases hctx' with rfl | rfl
    · exact hcore.1
    · exact hcore.2
  have hnamed : ∀ r ∈ anchorRecords v block.transactions, r.lockedUtxo ≠ [] := by
    intro r hr
    obtain ⟨tx, htx, hanchor, hrecord⟩ := mem_anchorRecords.mp hr
    obtain ⟨info, hinfo, rfl⟩ := map_eq_some_iff.mp hrecord
    exact (h.anchors tx htx hanchor).named info hinfo
  obtain ⟨s', hs'⟩ := (connect_isOk_iff haccepted hsane htip hreads).mpr
    ⟨hanchors connectCtx (.inl rfl), hnamed, h.inOrder⟩
  refine ⟨s', hs', fun s'' view' hreturns => disconnectBlock_eq_ok.mpr ?_⟩
  obtain ⟨hchain, ⟨stxos', hlen, hjournal⟩, -, -⟩ := connect_spec hs'
  obtain ⟨hchain', hjournal', -⟩ := hreturns.spec
  refine ⟨by rw [hchain', hchain]; rfl, ?_, foldlM_disconnectAnchor_isOk_iff.mpr fun tx htx => ?_⟩
  · rw [hjournal' block (hchain ▸ mem_cons_self), hjournal, update_self, getD_some, hlen]
  · obtain ⟨htx, hanchor⟩ := mem_filter.mp htx
    obtain ⟨info, hinfo⟩ := hanchors disconnectCtx (.inr rfl) tx htx hanchor
    exact ⟨info, hinfo, h.legible hs' hreturns htx hanchor (anchorRecord_of_getLockedTxInfo hinfo)⟩

end Sane

/-- An accepted block is connected, and can be taken off whenever it is the tip again, exactly when
it is storable. -/
theorem connects_and_disconnects_iff {result : ViewSpend}
    (haccepted : checkConnectBlockFor p v ctx lib rules bucket read view block stxos = .ok result)
    (hsane : SaneBlock block) (htip : s.chain.head?.map (·.hash) = some block.prevBlock)
    (hreads : ∀ c, s.cache.read c = view.overlay read c) :
    (∃ s', connect p v connectCtx room s block full = .ok s' ∧
        ∀ s'' view', Returns p v room s' s'' →
          ∃ t, disconnectBlock p v disconnectCtx s'' block view' = .ok t) ↔
      Storable v connectCtx disconnectCtx (p.posV2Active block.height) s.cache block := by
  obtain ⟨loaded, scan, haccepted, -⟩ := checkConnectBlockFor_spec haccepted
  constructor
  · rintro ⟨s', hs', hoff⟩
    exact storable_of_connects haccepted hsane htip hreads hs' (hoff s' view (.refl s'))
  · exact connects_of_storable haccepted hsane htip hreads

end Agreement

section Samples

open AnchorChain

def sampleBlock : Block :=
  ⟨2, 1, 1, [⟨20, [⟨⟨zeroHash, 0xffffffff⟩, []⟩], [⟨0, [], [0x51]⟩]⟩, sampleAnchor 21 0x61,
      ⟨22, [⟨⟨21, 0⟩, []⟩], [⟨1, [], [0x51]⟩]⟩]⟩

def sampleStore : ChainStore where
  chain := [⟨1, 0, 0, []⟩]
  cache := ⟨MapSlice.new 8, fun _ => none, 1⟩
  journal _ := none
  anchors _ := none

def freshView : UtxoViewpoint := ⟨fun _ => none, [], 1⟩

def nativeVerifier : AnchorVerifier :=
  { sampleVerifier with nativeAssetProof := fun _ => .ok (some [1]) }

def nativeParams : ChainParams := { sampleParams with posV2Height := 1, nativeAssetHeight := 1 }

abbrev nativeCheck (v : AnchorVerifier) (block : Block) : RuleM ViewSpend :=
  checkConnectBlockFor nativeParams v sampleContext Reference.lib sampleRules (fun _ => none)
    (fun _ => none) freshView block []

theorem sampleBlock_sane : SaneBlock sampleBlock := ⟨by decide, by decide, by decide⟩

theorem sampleStore_reads (c) : sampleStore.cache.read c = freshView.overlay (fun _ => none) c := by
  rw [UtxoCache.read]
  simp only [sampleStore, MapSlice.get_new]
  rfl

theorem sampleBlock_storable : Storable sampleVerifier sampleContext sampleContext true
    sampleStore.cache sampleBlock where
  anchors tx htx hanchor := by
    have hall : ∀ tx ∈ sampleBlock.transactions, isAnchorTx tx →
        (anchorInvoice sampleVerifier tx).all fun info => decide (info.utxo ≠ []) := by
      decide +kernel
    refine ⟨rfl, fun info hinfo => ?_, fun _ _ _ _ => ⟨rfl, rfl⟩⟩
    have hnamed := hall tx htx hanchor
    rw [hinfo] at hnamed
    simpa using hnamed
  readable u data hdata := by
    have hall : ∀ r ∈ anchorRecords sampleVerifier sampleBlock.transactions, Readable r := by
      decide +kernel
    obtain ⟨tx, htx, hanchor, record, hrecord, -, rfl, -⟩ := record_of_applyAll hdata
    exact hall record (mem_anchorRecords.mpr ⟨tx, htx, hanchor, hrecord⟩)
  inOrder := by decide

theorem sampleBlock_connects_and_disconnects :
    Storable sampleVerifier sampleContext sampleContext true sampleStore.cache sampleBlock ∧
      ∃ s', connect nativeParams sampleVerifier sampleContext (fun _ => 8) sampleStore sampleBlock
          false = .ok s' ∧
        ∀ s'' view', Returns nativeParams sampleVerifier (fun _ => 8) s' s'' →
          ∃ t, disconnectBlock nativeParams sampleVerifier sampleContext s'' sampleBlock view' =
            .ok t := by
  have hok : (nativeCheck sampleVerifier sampleBlock).isOk = true := by decide +kernel
  obtain ⟨result, hresult⟩ := exists_of_isOk hok
  exact ⟨sampleBlock_storable, (connects_and_disconnects_iff hresult sampleBlock_sane rfl
    sampleStore_reads).mpr sampleBlock_storable⟩

/-- The same block is accepted with native proofs, but it cannot be connected. -/
theorem accepted_not_connected :
    (nativeCheck nativeVerifier sampleBlock).isOk = true ∧ SaneBlock sampleBlock ∧
      sampleStore.chain.head?.map (·.hash) = some sampleBlock.prevBlock ∧
      (∀ c, sampleStore.cache.read c = freshView.overlay (fun _ => none) c) ∧
      ∀ room full, ¬ ∃ s', connect nativeParams nativeVerifier sampleContext room sampleStore
        sampleBlock full = .ok s' := by
  have hok : (nativeCheck nativeVerifier sampleBlock).isOk = true := by decide +kernel
  refine ⟨hok, sampleBlock_sane, rfl, sampleStore_reads, fun room full hconnect => ?_⟩
  obtain ⟨result, hresult⟩ := exists_of_isOk hok
  obtain ⟨loaded, scan, haccepted, -⟩ := checkConnectBlockFor_spec hresult
  obtain ⟨hanchors, -⟩ :=
    (connect_isOk_iff haccepted sampleBlock_sane rfl sampleStore_reads).mp hconnect
  obtain ⟨info, hinfo⟩ := hanchors (sampleAnchor 21 0x61) (by decide) (by decide)
  cases hinfo

def sampleRecord (utxo : Bytes) : AnchorTxInfo := ⟨utxo, replicate 71 0x21, 1, txIDText 21⟩

theorem sampleBlock_record_survives :
    blockAnchors nativeParams sampleVerifier sampleContext sampleBlock =
        .ok [sampleRecord (sampleUtxo 0x61)] ∧
      ((∃ stored, dbPutAnchorTxInfo (fun _ => none) (sampleRecord (sampleUtxo 0x61)) = .ok stored ∧
          dbFetchAnchorTxInfo stored (sampleUtxo 0x61) = .ok (sampleRecord (sampleUtxo 0x61))) ∧
        deserializeAnchorTxInfo (serializeAnchorTxInfo (sampleRecord (sampleUtxo 0x61))) =
          .ok (sampleRecord (sampleUtxo 0x61))) := by
  have hanchors : blockAnchors nativeParams sampleVerifier sampleContext sampleBlock =
      .ok [sampleRecord (sampleUtxo 0x61)] := by decide +kernel
  exact ⟨hanchors, (anchorRecord_survives_iff _ hanchors mem_cons_self).mpr (by decide)⟩

def shortBlock : Block :=
  ⟨2, 1, 1, [⟨20, [⟨⟨zeroHash, 0xffffffff⟩, []⟩], [⟨0, [], [0x51]⟩]⟩, { sampleAnchor 21 0x61 with
    txIn := [⟨⟨zeroHash, anchorTxOutIndex⟩,
      0x01 :: 0x61 :: 0x47 :: replicate 71 0x21 ++ [0x51, 0x00, 0x01, 0x30]⟩] }]⟩

/-- The block is accepted and its record stored, but the record is too short to be read back. -/
theorem shortBlock_record_lost : (nativeCheck sampleVerifier shortBlock).isOk = true ∧
      blockAnchors nativeParams sampleVerifier sampleContext shortBlock =
        .ok [sampleRecord [0x61]] ∧
      (dbPutAnchorTxInfo (fun _ => none) (sampleRecord [0x61])).bind
        (dbFetchAnchorTxInfo · [0x61]) = .error .corruptRecord :=
  ⟨by decide +kernel, by decide +kernel, by decide +kernel⟩

end Samples

end ChainStore

end SatoshiNet.Chain
