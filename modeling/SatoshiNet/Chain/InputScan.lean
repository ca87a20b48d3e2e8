import SatoshiNet.Chain.Validate

/-!
Views that lie over a cache: what a view has no entry for is read from there.
Loading the inputs of a block leaves the outputs seen through the view as they were, except that
outputs of the block itself appear before their transaction.  With that, what a block that passed its
checks does to the view it was checked on.
-/

namespace SatoshiNet.Chain

open Lib Wire List Option Function

namespace UtxoViewpoint

def overlay (read : ReadEntry) (view : UtxoViewpoint) (op : OutPoint) : Option SpentTxOut :=
  unspent ((view.entries op).or (read op))

theorem overlay_none (view : UtxoViewpoint) : view.overlay (fun _ => none) = view.unspentMap := by
  funext op
  rw [overlay, or_none, unspentMap]

variable {view : UtxoViewpoint} {op : OutPoint}

theorem overlay_of_unspentMap {coin} (h : view.unspentMap op = some coin) (read) :
    view.overlay read op = some coin := by
  obtain ⟨entry, hentry, -⟩ := unspent_eq_some h
  rw [unspentMap, hentry] at h
  rw [overlay, hentry, some_or, h]

variable {read : ReadEntry}

theorem overlay_setEntry (view : UtxoViewpoint) (op : OutPoint) (entry : UtxoEntry) :
    (view.setEntry op entry).overlay read =
      update (view.overlay read) op (unspent (some entry)) := by
  funext op'
  by_cases hop : op' = op
  · subst hop
    simp [overlay, setEntry]
  · simp only [overlay, setEntry, update_of_ne hop]

theorem overlay_addTxOuts (view : UtxoViewpoint) (tx : Tx) (blockHeight : ℤ) :
    (view.addTxOuts tx blockHeight).overlay read =
      applyAll (view.overlay read) (outputEdits tx blockHeight) := by
  refine foldl_outputEdits (R := fun v es => overlay read v = applyAll (view.overlay read) es)
    (fun _ _ hp => by rw [addTxOut, if_pos hp]) (fun v es p hp hv => ?_) [] rfl
  rw [addTxOut, hp, if_neg Bool.false_ne_true, overlay_setEntry, hv, applyAll_append]
  rfl

theorem overlay_foldlM_spendTxIn {l : List TxIn} {state state' : ViewSpend}
    (h : l.foldlM spendTxIn state = .ok state') : state'.1.overlay read =
      applyAll (state.1.overlay read) ((l.map (·.previousOutPoint)).map .remove) := by
  induction l generalizing state with
  | nil =>
    cases h
    rfl
  | cons txIn l ih =>
    obtain ⟨mid, hmid, hrest⟩ := foldlM_cons_eq_ok.mp h
    rw [ih hrest, map_cons, map_cons, applyAll_cons]
    rw [spendTxIn] at hmid
    split at hmid
    · cases hmid
    · cases hmid
      simp [overlay_setEntry, Edit.apply]

theorem overlay_connectTransaction {blockHeight : ℤ} {state state' : ViewSpend} {tx : Tx}
    (h : connectTransaction blockHeight state tx = .ok state') :
    state'.1.overlay read = applyAll (state.1.overlay read) (txEdits tx blockHeight) := by
  rw [connectTransaction_eq, map_eq_ok] at h
  obtain ⟨mid, hmid, rfl⟩ := h
  rw [txEdits, applyAll_append, consumedInputs_eq, overlay_addTxOuts, overlay_foldlM_spendTxIn hmid]

theorem entries_fetchUtxosFromCache (view ops) (op) :
    (fetchUtxosFromCache read view ops).entries op =
      if op ∈ ops then read op else view.entries op := by
  rw [fetchUtxosFromCache]
  induction ops generalizing view with
  | nil => simp
  | cons o ops ih =>
    rw [foldl_cons, ih]
    by_cases hop : op = o
    · simp [hop]
    · simp [hop]

theorem overlay_fetchUtxosFromCache {ops} (h : ∀ op ∈ ops, view.entries op = none) :
    (fetchUtxosFromCache read view ops).overlay read = view.overlay read := by
  funext op
  rw [overlay, overlay, entries_fetchUtxosFromCache]
  split_ifs with hop
  · rw [h op hop, Option.or_self, Option.none_or]
  · rfl

theorem entries_of_hasEntry_eq_false (h : view.hasEntry op = false) :
    view.entries op = none ∧ op ∉ view.nilEntries := by
  simpa [hasEntry] using h

theorem overlay_fetchUtxos (view : UtxoViewpoint) (ops : List OutPoint) :
    (view.fetchUtxos read ops).overlay read = view.overlay read := by
  refine overlay_fetchUtxosFromCache fun op hop => ?_
  exact (entries_of_hasEntry_eq_false (by simpa using (mem_filter.mp hop).2)).1

section Scan

variable {block : Block}

def outputKeys (txs : List Tx) (blockHeight : ℤ) : List OutPoint :=
  txs.flatMap fun tx => (outputEdits tx blockHeight).map Edit.key

variable {blockHeight : ℤ} {i : ℕ} {txs : List Tx} {view : UtxoViewpoint}

theorem entries_addTxOuts (view : UtxoViewpoint) (tx : Tx) (blockHeight : ℤ) :
    (∀ op ∉ (outputEdits tx blockHeight).map Edit.key,
      (view.addTxOuts tx blockHeight).entries op = view.entries op) ∧
    (∀ op, (view.entries op).isSome → ((view.addTxOuts tx blockHeight).entries op).isSome) ∧
    (view.addTxOuts tx blockHeight).nilEntries = view.nilEntries := by
  refine foldl_outputEdits (R := fun v es => (∀ op ∉ es.map Edit.key, entries v op = view.entries op) ∧
    (∀ op, (view.entries op).isSome → (v.entries op).isSome) ∧ v.nilEntries = view.nilEntries)
    (fun _ _ hp => by rw [addTxOut, if_pos hp]) (fun v es p hp hv => ?_) []
    ⟨fun _ _ => rfl, fun _ h => h, rfl⟩
  rw [addTxOut, hp, if_neg Bool.false_ne_true]
  refine ⟨fun op hop => ?_, fun op hop => ?_, hv.2.2⟩
  · rw [map_append, mem_append, not_or, map_singleton, mem_singleton] at hop
    exact (update_of_ne hop.2 _ _).trans (hv.1 op hop.1)
  · simp only [setEntry]
    by_cases hown : op = tx.outPoint p.2
    · rw [hown, update_self]
      rfl
    · rw [update_of_ne hown]
      exact hv.2.1 op hop

/-- What the scan has done so far: it has only added entries, for outputs of transactions of the
block before position `i + 1`, and it needs only what the view had no entry for. -/
structure Scanned (view : UtxoViewpoint) (block : Block) (i : ℕ) (scan : InputScan) : Prop where
  grown : ∀ op, (view.entries op).isSome → (scan.view.entries op).isSome
  own : ∀ op, scan.view.entries op = view.entries op ∨ ∃ k ≤ i, ∃ tx,
    block.transactions[k]? = some tx ∧ op ∈ (outputEdits tx block.height).map Edit.key
  needed : ∀ op ∈ scan.needed, view.entries op = none
  nils : scan.view.nilEntries = view.nilEntries

variable {c : OutPoint} {index : ℕ} {l : List TxIn} {scan : InputScan} {txIn : TxIn}

theorem Scanned.mono {j : ℕ} (h : i ≤ j) (hs : Scanned view block i scan) :
    Scanned view block j scan :=
  ⟨hs.grown, fun op => (hs.own op).imp_right fun ⟨k, hk, hrest⟩ => ⟨k, hk.trans h, hrest⟩,
    hs.needed, hs.nils⟩

theorem Scanned.fromCache {op} (hs : Scanned view block i scan) (h : scan.view.hasEntry op = false) :
    Scanned view block i { scan with needed := scan.needed ++ [op] } := by
  refine ⟨hs.grown, hs.own, forall_mem_append.mpr ⟨hs.needed, forall_mem_singleton.mpr ?_⟩, hs.nils⟩
  refine not_isSome_iff_eq_none.mp fun hsome => ?_
  have hgrown := hs.grown op hsome
  rw [(entries_of_hasEntry_eq_false h).1] at hgrown
  cases hgrown

theorem Scanned.scanInput (hs : Scanned view block i scan) (txIn : TxIn) :
    Scanned view block i (scanInput block i scan txIn) := by
  have hcache : Scanned view block i (if scan.view.hasEntry txIn.previousOutPoint then scan
      else { scan with needed := scan.needed ++ [txIn.previousOutPoint] }) := by
    split_ifs with hnone
    · exact hs
    · exact hs.fromCache (by simpa using hnone)
  simp only [UtxoViewpoint.scanInput]
  split
  · exact hcache
  split
  · exact hcache
  split
  · exact hs
  split
  · exact hs
  rename_i index _ hle _ _ originTx htx
  obtain ⟨hsame, hgrown, hnils⟩ := entries_addTxOuts scan.view originTx block.height
  refine ⟨fun op hop => hgrown op (hs.grown op hop), fun op => ?_, hs.needed, hnils.trans hs.nils⟩
  by_cases hmem : op ∈ (outputEdits originTx block.height).map Edit.key
  · exact Or.inr ⟨index, Nat.not_lt.mp hle, originTx, htx, hmem⟩
  · rw [hsame op hmem]
    exact hs.own op

theorem Scanned.foldl_scanInput (hs : Scanned view block i scan) (l : List TxIn) :
    Scanned view block i (l.foldl (UtxoViewpoint.scanInput block i) scan) := by
  induction l generalizing scan with
  | nil => exact hs
  | cons txIn l ih => exact ih (hs.scanInput txIn)

theorem Scanned.scanTx (o : Tx × ℕ) (hs : Scanned view block o.2 scan) :
    Scanned view block o.2 (scanTx block scan o) := by
  rw [UtxoViewpoint.scanTx]
  split
  · exact hs
  · exact hs.foldl_scanInput _

theorem Scanned.foldl_scanTx (txs : List Tx) (hs : Scanned view block i scan) :
    Scanned view block (i + txs.length) ((txs.zipIdx i).foldl (UtxoViewpoint.scanTx block) scan) := by
  induction txs generalizing i scan with
  | nil => exact hs
  | cons tx txs ih =>
    rw [zipIdx_cons, foldl_cons, length_cons]
    have hnext := ih ((hs.scanTx (tx, i)).mono (Nat.le_succ i))
    exact hnext.mono (by omega)

theorem overlay_fetchInputUtxos {op} (h : op ∉ outputKeys block.transactions block.height) :
    (view.fetchInputUtxos read block).overlay read op = view.overlay read op := by
  obtain ⟨i, hs⟩ : ∃ i, Scanned view block i (findInputsToFetch view block) :=
    ⟨_, Scanned.foldl_scanTx (i := 0) _ ⟨fun _ h => h, fun _ => Or.inl rfl, by simp, rfl⟩⟩
  rw [overlay, overlay, fetchInputUtxos, entries_fetchUtxosFromCache]
  split_ifs with hop
  · rw [hs.needed op hop, Option.or_self, Option.none_or]
  · rcases hs.own op with heq | ⟨k, -, tx, htx, hmem⟩
    · rw [heq]
    · exact absurd (mem_flatMap.mpr ⟨tx, mem_of_getElem? htx, hmem⟩) h

def earlySpends (blockHeight : ℤ) : List Tx → List OutPoint
  | [] => []
  | tx :: rest => (consumedInputs tx).filter (outputKeys (tx :: rest) blockHeight).contains ++
      earlySpends blockHeight rest

theorem hash_of_mem_outputKeys (h : c ∈ outputKeys txs blockHeight) :
    c.hash ∈ txs.map (·.hash) := by
  obtain ⟨tx, htx, hkey⟩ := mem_flatMap.mp h
  obtain ⟨e, he, rfl⟩ := mem_map.mp hkey
  obtain ⟨q, -, rfl⟩ := mem_map.mp he
  exact mem_map.mpr ⟨tx, htx, rfl⟩

theorem mem_outputKeys_of_mem_earlySpends (h : c ∈ earlySpends blockHeight txs) :
    c ∈ outputKeys txs blockHeight := by
  induction txs with
  | nil => cases h
  | cons tx txs ih =>
    rcases mem_append.mp h with h | h
    · exact contains_iff_mem.mp (mem_filter.mp h).2
    · exact mem_append_right _ (ih h)

theorem inFlightIndex_eq (hnodup : (txs.map (·.hash)).Nodup) {k : ℕ} {hash}
    (h : (txs.map (·.hash))[k]? = some hash) : inFlightIndex txs hash = some k := by
  obtain ⟨tx, htx, rfl⟩ : ∃ tx, txs[k]? = some tx ∧ tx.hash = hash := by
    simpa using h
  rw [inFlightIndex]
  cases hfind : txs.zipIdx.reverse.find? fun p => p.1.hash == tx.hash with
  | none =>
    have hmem : (tx, k) ∈ txs.zipIdx.reverse := mem_reverse.mpr (mem_zipIdx_iff_getElem?.mpr htx)
    simpa using find?_eq_none.mp hfind _ hmem
  | some q =>
    have hq := mem_zipIdx_iff_getElem?.mp
      (mem_reverse.mp (mem_of_find?_eq_some hfind))
    have hhash : q.1.hash = tx.hash := by simpa using find?_some hfind
    have hpos : (txs.map (·.hash))[q.2]? = (txs.map (·.hash))[k]? := by
      rw [getElem?_map, getElem?_map, hq, htx]
      exact congrArg some hhash
    have hlt : q.2 < (txs.map (·.hash)).length := by
      rw [length_map]
      exact (List.getElem?_eq_some_iff.mp hq).1
    rw [map_some, (getElem?_inj hlt hnodup).mp hpos]

theorem needed_scanInput (hs : Scanned view block i scan)
    (hnodup : block.hashes.Nodup)
    (hindex : block.hashes[index]? = some txIn.previousOutPoint.hash)
    (hlate : i < index) (hnone : view.hasEntry txIn.previousOutPoint = false) :
    txIn.previousOutPoint ∈ (scanInput block i scan txIn).needed := by
  have hentry : scan.view.hasEntry txIn.previousOutPoint = false := by
    rcases hs.own txIn.previousOutPoint with heq | ⟨k, hk, tx, htx, hmem⟩
    · rw [hasEntry, heq, hs.nils]
      exact hnone
    have hhash : tx.hash = txIn.previousOutPoint.hash := by
      obtain ⟨e, he, hkey⟩ := mem_map.mp hmem
      obtain ⟨q, -, rfl⟩ := mem_map.mp he
      exact congrArg OutPoint.hash hkey
    have hpos : block.hashes[k]? = block.hashes[index]? := by
      rw [hindex, getElem?_map, htx, map_some, hhash]
    have hlt : k < block.hashes.length := by
      rw [length_map]
      exact (List.getElem?_eq_some_iff.mp htx).1
    have hsame := (getElem?_inj hlt hnodup).mp hpos
    omega
  simp [scanInput, inFlightIndex_eq hnodup hindex, hlate, hentry]

theorem needed_mono_scanInput {op} (h : op ∈ scan.needed) :
    op ∈ (scanInput block i scan txIn).needed := by
  have hcache : op ∈ (if scan.view.hasEntry txIn.previousOutPoint then scan
      else { scan with needed := scan.needed ++ [txIn.previousOutPoint] }).needed := by
    split
    · exact h
    · exact mem_append_left _ h
  simp only [scanInput]
  split
  · exact hcache
  split
  · exact hcache
  split
  · exact h
  split <;> exact h

theorem needed_mono_foldl_scanInput {op} (h : op ∈ scan.needed) :
    op ∈ (l.foldl (scanInput block i) scan).needed := by
  induction l generalizing scan with
  | nil => exact h
  | cons txIn l ih => exact ih (needed_mono_scanInput h)

theorem needed_mono_foldl_scanTx {l : List (Tx × ℕ)} {op : OutPoint} (h : op ∈ scan.needed) :
    op ∈ (l.foldl (scanTx block) scan).needed := by
  induction l generalizing scan with
  | nil => exact h
  | cons o l ih =>
    refine ih ?_
    rw [scanTx]
    split
    · exact h
    · exact needed_mono_foldl_scanInput h

theorem needed_foldl_scanInput {op} (hs : Scanned view block i scan)
    (hnodup : block.hashes.Nodup)
    (hindex : block.hashes[index]? = some op.hash) (hlate : i < index)
    (hnone : view.hasEntry op = false) (hop : op ∈ l.map (·.previousOutPoint)) :
    op ∈ (l.foldl (scanInput block i) scan).needed := by
  induction l generalizing scan with
  | nil => cases hop
  | cons txIn l ih =>
    rw [foldl_cons]
    rcases mem_cons.mp hop with rfl | hop
    · exact needed_mono_foldl_scanInput (needed_scanInput hs hnodup hindex hlate hnone)
    · exact ih (hs.scanInput txIn) hop

theorem needed_foldl_scanTx {done todo : List Tx} {op : OutPoint}
    (hblock : block.transactions = done ++ todo) (hdone : done ≠ [])
    (hnodup : block.hashes.Nodup)
    (hs : Scanned view block (done.length - 1) scan) (hnone : view.hasEntry op = false)
    (hop : op ∈ earlySpends block.height todo) :
    op ∈ ((todo.zipIdx (done.length - 1)).foldl (scanTx block) scan).needed := by
  induction todo generalizing done scan with
  | nil => cases hop
  | cons tx todo ih =>
    have hlen : 0 < done.length := length_pos_of_ne_nil hdone
    rw [zipIdx_cons, foldl_cons]
    rw [earlySpends, mem_append, mem_filter, contains_iff_mem] at hop
    rcases hop with ⟨hinput, hown⟩ | hop
    · refine needed_mono_foldl_scanTx ?_
      have hconsumes : transactionConsumesSpendJournal tx (isCoinBase tx) = true := by
        by_contra hnot
        rw [consumedInputs, if_neg hnot] at hinput
        cases hinput
      have hscans : transactionConsumesSpendJournal tx false = true := by
        simp only [transactionConsumesSpendJournal, Bool.and_eq_true] at hconsumes ⊢
        exact ⟨rfl, hconsumes.2⟩
      rw [consumedInputs, if_pos hconsumes] at hinput
      obtain ⟨index, hindex⟩ := mem_iff_getElem?.mp (hash_of_mem_outputKeys hown)
      rw [scanTx, hscans]
      have hlater : block.hashes[done.length + index]? = some op.hash := by
        rw [Block.hashes, hblock, map_append, getElem?_append_right (by simp)]
        simpa using hindex
      exact needed_foldl_scanInput hs hnodup hlater (by omega) hnone hinput
    · have hnext := @ih (scanTx block scan (tx, done.length - 1)) (done ++ [tx])
        (by simpa using hblock) (by simp)
        ((hs.scanTx (tx, done.length - 1)).mono (by simp)) hop
      have hcount : (done ++ [tx]).length - 1 = done.length - 1 + 1 := by
        rw [length_append, length_singleton]
        omega
      rwa [hcount] at hnext

theorem entries_fetchInputUtxos_early {op} (hfirst : CoinBaseFirst block)
    (hnodup : block.hashes.Nodup) (hnone : view.hasEntry op = false)
    (hop : op ∈ earlySpends block.height block.transactions) :
    (view.fetchInputUtxos read block).entries op = read op := by
  cases htxs : block.transactions with
  | nil =>
    rw [htxs] at hop
    cases hop
  | cons tx txs =>
    have hcoinbase : isCoinBase tx = true := hfirst (tx, 0) (by rw [htxs]; simp)
    have hrest : op ∈ earlySpends block.height txs := by
      have hnone : consumedInputs tx = [] := by
        simp [consumedInputs, transactionConsumesSpendJournal, hcoinbase]
      rw [htxs, earlySpends, hnone] at hop
      simpa using hop
    have hneeded : op ∈ (findInputsToFetch view block).needed := by
      rw [findInputsToFetch, htxs, tail_cons]
      exact @needed_foldl_scanTx block view _ [tx] txs op htxs (by simp) hnodup
        ⟨fun _ h => h, fun _ => Or.inl rfl, by simp, rfl⟩ hnone hrest
    rw [fetchInputUtxos, entries_fetchUtxosFromCache, if_pos hneeded]

end Scan

end UtxoViewpoint

open UtxoViewpoint

section Loop

variable {p : ChainParams} {v : AnchorVerifier} {ctx : AnchorContext} {lib : AssetLib}
  {rules : BlockRules}

def AllUnspent (blockHeight : ℤ) (m : Coins) : List Tx → Prop
  | [] => True
  | tx :: rest => (∀ c ∈ consumedInputs tx, (m c).isSome) ∧
      AllUnspent blockHeight (applyAll m (txEdits tx blockHeight)) rest

variable {height : ℤ} {scan scan' : BlockScan} {tx : Tx} {view : UtxoViewpoint}

theorem foldlM_addInput_isSome {maturity : ℤ} {l : List TxIn} {sum sum'}
    (h : l.foldlM (addInput lib maturity height view) sum = .ok sum') :
    ∀ c ∈ l.map (·.previousOutPoint), (view.unspentMap c).isSome := by
  rw [List.forall_mem_map]
  intro txIn hmem
  obtain ⟨_, _, hstep⟩ := foldlM_steps h txIn hmem
  simp only [addInput, bind_eq_ok, orError_eq_ok] at hstep
  obtain ⟨coin, hcoin, -⟩ := hstep
  rw [hcoin]
  rfl

theorem checkTransactionInputs_unspent {isNew : Bool} {fee}
    (h : checkTransactionInputs p v ctx lib rules tx isNew height view = .ok fee) :
    ∀ c ∈ consumedInputs tx, (view.unspentMap c).isSome := by
  cases hc : transactionConsumesSpendJournal tx (isCoinBase tx) with
  | false => simp [consumedInputs, hc]
  | true =>
    obtain ⟨hbase, hanchor⟩ : isCoinBase tx = false ∧ isAnchorTx tx = false := by
      simpa [transactionConsumesSpendJournal] using hc
    simp only [checkTransactionInputs, hbase, hanchor, Bool.false_eq_true, if_false,
      bind_eq_ok] at h
    obtain ⟨-, -, sums, hsums, -⟩ := h
    simpa only [consumedInputs, hc, if_true] using foldlM_addInput_isSome hsums

theorem checkConnectTx_eq_ok : checkConnectTx p v ctx lib rules height scan tx = .ok scan' ↔
      ∃ fee feeAssets, checkTransactionInputs p v ctx lib rules tx false height scan.connected.1 =
          .ok (fee, feeAssets) ∧
        scan'.totalFees = addInt64 scan.totalFees fee ∧ scan.totalFees ≤ scan'.totalFees ∧
        lib.merge scan.totalFeeAssets feeAssets = .ok scan'.totalFeeAssets ∧
        connectTransaction height scan.connected tx = .ok scan'.connected := by
  simp only [checkConnectTx, bind_eq_ok, mapError_eq_ok, require_eq_ok, decide_eq_true_eq]
  constructor
  · rintro ⟨⟨fee, feeAssets⟩, hfee, assets, hassets, -, hle, connected, hconnected, hscan⟩
    cases hscan
    exact ⟨fee, feeAssets, hfee, rfl, hle, hassets, hconnected⟩
  · rintro ⟨fee, feeAssets, hfee, htotal, hle, hassets, hconnected⟩
    refine ⟨(fee, feeAssets), hfee, _, hassets, ⟨⟩, htotal ▸ hle, _, hconnected, ?_⟩
    rw [← htotal]
    rfl

theorem foldlM_checkConnectTx_spec {txs}
    (h : txs.foldlM (checkConnectTx p v ctx lib rules height) scan = .ok scan') :
    AllUnspent height scan.connected.1.unspentMap txs ∧ ∀ read, scan'.connected.1.overlay read =
        applyAll (scan.connected.1.overlay read) (txs.flatMap fun tx => txEdits tx height) := by
  induction txs generalizing scan with
  | nil =>
    cases h
    exact ⟨trivial, fun _ => rfl⟩
  | cons tx txs ih =>
    obtain ⟨mid, hmid, hrest⟩ := foldlM_cons_eq_ok.mp h
    obtain ⟨fee, feeAssets, hfee, -, -, -, hconnected⟩ := checkConnectTx_eq_ok.mp hmid
    obtain ⟨hunspent, hoverlay⟩ := ih hrest
    have hstep : ∀ read, mid.connected.1.overlay read =
        applyAll (scan.connected.1.overlay read) (txEdits tx height) :=
      fun read => overlay_connectTransaction hconnected
    refine ⟨⟨checkTransactionInputs_unspent hfee, ?_⟩, fun read => ?_⟩
    · have hmap := hstep fun _ => none
      rw [overlay_none, overlay_none] at hmap
      rw [← hmap]
      exact hunspent
    · rw [hoverlay read, hstep read, flatMap_cons, applyAll_append]

end Loop

structure SaneBlock (block : Block) : Prop where
  coinBaseFirst : UtxoViewpoint.CoinBaseFirst block
  hashes : block.hashes.Nodup
  inputs : ∀ tx ∈ block.transactions, (tx.txIn.map (·.previousOutPoint)).Nodup

theorem SaneBlock.consumed {block} (h : SaneBlock block) :
    ∀ tx ∈ block.transactions, (consumedInputs tx).Nodup := by
  intro tx htx
  rw [consumedInputs]
  split
  · exact h.inputs tx htx
  · exact nodup_nil

section Accept

variable {p : ChainParams} {v : AnchorVerifier} {ctx : AnchorContext} {lib : AssetLib}
  {rules : BlockRules} {bucket : AnchorBucket} {read : ReadEntry}

/-- What an accepted block has gone through: `loaded` is the view with its inputs, `scan` the state
after its transactions. -/
structure Accepted (p : ChainParams) (v : AnchorVerifier) (ctx : AnchorContext) (lib : AssetLib)
    (rules : BlockRules) (bucket : AnchorBucket) (read : ReadEntry) (view : UtxoViewpoint)
    (block : Block) (stxos : List SpentTxOut) (loaded : UtxoViewpoint) (scan : BlockScan) :
    Prop where
  overlay : ∀ op ∉ outputKeys block.transactions block.height,
    loaded.overlay read op = view.overlay read op
  /-- Without the check for overwritten outputs the view is loaded as it came. -/
  early : enforcesBIP0030 p block = false → UtxoViewpoint.CoinBaseFirst block →
    block.hashes.Nodup →
    ∀ op ∈ earlySpends block.height block.transactions, view.hasEntry op = false →
      loaded.entries op = read op
  unique : checkAnchorTxsUnique p v ctx bucket block = .ok ()
  loop : block.transactions.foldlM (checkConnectTx p v ctx lib rules block.height)
    ⟨0, [], (loaded, stxos)⟩ = .ok scan
  coinbase : ∃ tx, block.transactions.head? = some tx ∧
    checkCoinbaseFees lib tx (addInt64 (calcBlockSubsidy p block.height) scan.totalFees)
      scan.totalFeeAssets = .ok ()

variable {block : Block} {view : UtxoViewpoint}

theorem overlay_checkBIP0030 {view'} (h : checkBIP0030 read view block = .ok view') :
    view'.overlay read = view.overlay read := by
  simp only [checkBIP0030] at h
  split at h
  · cases h
  · cases h
    exact overlay_fetchUtxos view (ownOutPoints block)

variable {stxos : List SpentTxOut}

theorem checkConnectBlockFor_spec {result}
    (h : checkConnectBlockFor p v ctx lib rules bucket read view block stxos = .ok result) :
    ∃ loaded scan, Accepted p v ctx lib rules bucket read view block stxos loaded scan ∧
      result.1.entries = scan.connected.1.entries := by
  simp only [checkConnectBlockFor, bind_eq_ok, require_eq_ok, mapError_eq_ok, orError_eq_ok] at h
  obtain ⟨_, -, _, -, view', hview', _, -, _, hunique, _, -, scan, hscan, tx, htx, _, hfees, _, -,
    hresult⟩ := h
  cases hresult
  have hoverlay : view'.overlay read = view.overlay read ∧
      (enforcesBIP0030 p block = false → view' = view) := by
    cases henforced : enforcesBIP0030 p block with
    | false =>
      rw [henforced, cond_false] at hview'
      obtain rfl := Except.ok.inj hview'
      exact ⟨rfl, fun _ => rfl⟩
    | true =>
      rw [henforced, cond_true] at hview'
      exact ⟨overlay_checkBIP0030 hview', fun h => nomatch h⟩
  refine ⟨_, scan, ⟨fun op hop => ?_, fun henforced hfirst hnodup op hop hnone => ?_, hunique, hscan,
    tx, htx, hfees⟩, rfl⟩
  · rw [overlay_fetchInputUtxos hop, hoverlay.1]
  · rw [← hoverlay.2 henforced] at hnone
    exact entries_fetchInputUtxos_early hfirst hnodup hnone hop

theorem Accepted.overlay_connected {loaded} {scan}
    (h : Accepted p v ctx lib rules bucket read view block stxos loaded scan) :
    scan.connected.1.overlay read = applyAll (view.overlay read) (blockEdits block) := by
  rw [(foldlM_checkConnectTx_spec h.loop).2 read]
  funext op
  -- the outputs that appeared early are written again by their own transaction
  rw [blockEdits, applyAll_eq_lastEdit, applyAll_eq_lastEdit]
  cases hlast : lastEdit op (block.transactions.flatMap fun tx => txEdits tx block.height) with
  | some left => rfl
  | none =>
    refine h.overlay op fun hmem => ?_
    obtain ⟨tx, htx, hkey⟩ := mem_flatMap.mp hmem
    obtain ⟨e, he, rfl⟩ := mem_map.mp hkey
    refine lastEdit_eq_none.mp hlast e (mem_flatMap.mpr ⟨tx, htx, ?_⟩) rfl
    exact mem_append_right _ he

end Accept

def sampleRules : BlockRules where
  validateContractBlock _ _ := true
  checkSigOps _ _ := true
  checkContractBaseGasFee _ _ _ := true
  requiresOrdinaryInput _ := false
  checkAscendingTickerInfo _ _ := true
  checkScripts _ _ := true

end SatoshiNet.Chain
