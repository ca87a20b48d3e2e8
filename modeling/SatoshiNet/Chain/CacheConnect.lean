import SatoshiNet.Chain.InputScan

/-!
Connecting an accepted block through the cache.

The cache looks an input up without asking whether it is spent, and knows nothing of outputs that
come later in the block.  The edits made so far are compared with what it found at first.
-/

namespace SatoshiNet.Chain

open Lib Wire List Option

namespace UtxoCache

variable {room : Room}

def found (s : UtxoCache) (outpoint : OutPoint) : Option UtxoEntry :=
  (s.cachedEntries.get outpoint).getD (dbFetchUtxoEntry (s.db outpoint))

variable {s : UtxoCache} {state : UtxoCache × List SpentTxOut}

theorem found_isSome_of_read {outpoint} (h : (s.read outpoint).isSome) :
    (s.found outpoint).isSome := by
  obtain ⟨coin, hcoin⟩ := isSome_iff_exists.mp h
  obtain ⟨entry, hentry, -⟩ := unspent_eq_some hcoin
  exact isSome_iff_exists.mpr ⟨entry, hentry⟩

theorem found_putEntry (s outpoint key) (entry) :
    (putEntry room s outpoint entry).found key = if key = outpoint then entry else s.found key := by
  rw [found, get_putEntry]
  split <;> rfl

theorem found_fetchEntries (s) (outpoints) : (fetchEntries room s outpoints).2.found = s.found := by
  refine fetchEntries_invariant (P := fun t => t.found = s.found) outpoints rfl
    fun t op ht _ hnone => ?_
  funext key
  rw [found_putEntry, ht]
  split_ifs with hkey
  · rw [hkey, found, hnone, getD_none]
  · rfl

variable {l : List TxIn} {state' : UtxoCache × List SpentTxOut} {txIn : TxIn}

theorem addTxIn_isOk_iff : (∃ state', addTxIn room state txIn = .ok state') ↔
      (state.1.found txIn.previousOutPoint).isSome := by
  have hfetch : (fetchEntries room state.1 [txIn.previousOutPoint]).1 =
      [state.1.found txIn.previousOutPoint] := rfl
  rw [addTxIn]
  generalize fetchEntries room state.1 [txIn.previousOutPoint] = fetched at hfetch
  obtain ⟨entries, s⟩ := fetched
  obtain rfl : entries = _ := hfetch
  cases state.1.found txIn.previousOutPoint <;> simp

theorem addTxIn_found (h : addTxIn room state txIn = .ok state') :
    (∀ op ≠ txIn.previousOutPoint, state'.1.found op = state.1.found op) ∧
      state'.2.length = state.2.length + 1 := by
  have hsame := @found_fetchEntries room state.1 [txIn.previousOutPoint]
  rw [addTxIn] at h
  split at h
  · rename_i entry s hfetch
    rw [hfetch] at hsame
    cases h
    refine ⟨fun op hop => ?_, length_append⟩
    rw [← hsame]
    split
    · rw [found, MapSlice.get_delete, if_neg hop]
      rfl
    · rw [found_putEntry, if_neg hop]
  · cases h

theorem foldlM_addTxIn_found (h : l.foldlM (addTxIn room) state = .ok state') :
    (∀ op ∉ l.map (·.previousOutPoint), state'.1.found op = state.1.found op) ∧
      state'.2.length = state.2.length + l.length := by
  induction l generalizing state with
  | nil =>
    cases h
    exact ⟨fun _ _ => rfl, rfl⟩
  | cons txIn l ih =>
    obtain ⟨mid, hmid, hrest⟩ := foldlM_cons_eq_ok.mp h
    obtain ⟨hsame, hlen⟩ := addTxIn_found hmid
    obtain ⟨hsame', hlen'⟩ := ih hrest
    refine ⟨fun op hop => ?_, ?_⟩
    · rw [map_cons, mem_cons, not_or] at hop
      rw [hsame' op hop.2, hsame op hop.1]
    · rw [hlen', hlen, length_cons]
      omega

theorem foldlM_addTxIn_isOk_iff (hnodup : (l.map (·.previousOutPoint)).Nodup) :
    (∃ state', l.foldlM (addTxIn room) state = .ok state') ↔
      ∀ op ∈ l.map (·.previousOutPoint), (state.1.found op).isSome := by
  induction l generalizing state with
  | nil => exact ⟨fun _ => by simp, fun _ => ⟨state, rfl⟩⟩
  | cons txIn l ih =>
    rw [map_cons, nodup_cons] at hnodup
    simp only [foldlM_cons_eq_ok, map_cons, forall_mem_cons]
    -- the other inputs are found or not as they were before this one was spent
    have hothers : ∀ mid, addTxIn room state txIn = .ok mid →
        ((∃ state', l.foldlM (addTxIn room) mid = .ok state') ↔
          ∀ op ∈ l.map (·.previousOutPoint), (state.1.found op).isSome) := by
      intro mid hmid
      rw [ih hnodup.2]
      refine forall₂_congr fun op hop => ?_
      rw [(addTxIn_found hmid).1 op fun heq => hnodup.1 (heq ▸ hop)]
    rw [← @addTxIn_isOk_iff room]
    constructor
    · rintro ⟨state', mid, hmid, hrest⟩
      exact ⟨⟨mid, hmid⟩, (hothers mid hmid).mp ⟨state', hrest⟩⟩
    · rintro ⟨⟨mid, hmid⟩, hall⟩
      obtain ⟨state', hrest⟩ := (hothers mid hmid).mpr hall
      exact ⟨state', mid, hmid, hrest⟩

/-! ### Following the edits of a block -/

/-- What the cache finds after some edits of what it found at first.  An outpoint whose last edit
removed it may have left a spent entry or none. -/
structure Tracks (first : OutPoint → Option UtxoEntry) (es : CoinEdits) (s : UtxoCache) : Prop where
  untouched : ∀ op, lastEdit op es = none → s.found op = first op
  created : ∀ op coin, lastEdit op es = some (some coin) → (s.found op).isSome

variable {first : OutPoint → Option UtxoEntry} {es : CoinEdits}

theorem Tracks.removes {s' : UtxoCache} (h : Tracks first es s) (l : List OutPoint)
    (hsame : ∀ op ∉ l, s'.found op = s.found op) : Tracks first (es ++ l.map .remove) s' := by
  refine ⟨fun op hop => ?_, fun op coin hop => ?_⟩ <;> rw [lastEdit_append, lastEdit_removes] at hop
  · split_ifs at hop with hmem
    · cases hop
    · rw [hsame op hmem, h.untouched op hop]
  · split_ifs at hop with hmem
    · cases hop
    · rw [hsame op hmem]
      exact h.created op coin hop

theorem Tracks.addTxOut (h : Tracks first es s) (outpoint) (txOut isCoinBase) (blockHeight : ℤ)
    (hspend : isUnspendable txOut.pkScript = false) :
    Tracks first (es ++ [.insert outpoint (TxOut.coin txOut isCoinBase blockHeight)])
      (addTxOut room s outpoint txOut isCoinBase blockHeight) := by
  simp only [UtxoCache.addTxOut, hspend, Bool.false_eq_true, if_false]
  refine ⟨fun op hop => ?_, fun op coin hop => ?_⟩ <;>
    simp only [lastEdit_append, lastEdit, Edit.key, Edit.leaves, none_or] at hop <;>
    rw [found_putEntry] <;> by_cases hkey : outpoint = op
  · simp [hkey] at hop
  · rw [if_neg (Ne.symm hkey)]
    exact h.untouched op (by simpa [hkey] using hop)
  · rw [if_pos hkey.symm]
    rfl
  · rw [if_neg (Ne.symm hkey)]
    exact h.created op coin (by simpa [hkey] using hop)

theorem Tracks.addTxOuts (h : Tracks first es s) (tx : Tx) (blockHeight : ℤ) :
    Tracks first (es ++ outputEdits tx blockHeight) (addTxOuts room s tx blockHeight) :=
  foldl_outputEdits (R := fun t es => Tracks first es t)
    (fun _ _ hp => by rw [UtxoCache.addTxOut, if_pos hp])
    (fun _ _ p hp ht => ht.addTxOut _ p.1 (isCoinBase tx) blockHeight hp) es h

end UtxoCache

/-- Every outpoint that the transactions consume meets a condition together with the edits made
before its transaction. -/
def SpendsMeet (P : CoinEdits → OutPoint → Prop) (blockHeight : ℤ) :
    CoinEdits → List Tx → Prop
  | _, [] => True
  | es, tx :: rest => (∀ c ∈ consumedInputs tx, P es c) ∧
      SpendsMeet P blockHeight (es ++ txEdits tx blockHeight) rest

variable {blockHeight : ℤ} {es : CoinEdits} {txs : List Tx}

theorem SpendsMeet.imp {P Q : CoinEdits → OutPoint → Prop}
    (hPQ : ∀ es c, P es c → Q es c) (h : SpendsMeet P blockHeight es txs) :
    SpendsMeet Q blockHeight es txs := by
  induction txs generalizing es with
  | nil => trivial
  | cons tx txs ih => exact ⟨fun c hc => hPQ es c (h.1 c hc), ih h.2⟩

theorem AllUnspent.spendsMeet {m} (h : AllUnspent blockHeight (applyAll m es) txs) :
    SpendsMeet (fun es c => (applyAll m es c).isSome) blockHeight es txs := by
  induction txs generalizing es with
  | nil => trivial
  | cons tx txs ih =>
    refine ⟨h.1, ih ?_⟩
    rw [applyAll_append]
    exact h.2

namespace UtxoCache

section Connect

variable {room : Room} {lockedTxInfo : Tx → UtxoM AnchorTxInfo} {blockHeight : ℤ}
  {first : OutPoint → Option UtxoEntry} {es : CoinEdits}
  {state' : CacheSpend} {tx : Tx} {txs : List Tx}

variable {spent : UtxoCache × List SpentTxOut} {infos : List AnchorTxInfo}

theorem addTxIns_some : addTxIns room lockedTxInfo (spent, some infos) tx = (do
    let spent ← (spendingInputs tx).foldlM (addTxIn room) spent
    if isAnchorTx tx then return (spent, some (infos ++ [← lockedTxInfo tx]))
    else return (spent, some infos)) := by
  rw [addTxIns, spendingInputs]
  cases hc : transactionConsumesSpendJournal tx (isCoinBase tx) with
  | false => cases isAnchorTx tx <;> rfl
  | true =>
    simp only [transactionConsumesSpendJournal, Bool.and_eq_true, Bool.not_eq_true'] at hc
    rw [hc.2]
    rfl

theorem connectTransaction_isOk_iff (hnodup : (consumedInputs tx).Nodup) :
    (∃ state', connectTransaction room lockedTxInfo blockHeight (spent, some infos) tx =
        .ok state') ↔
      (isAnchorTx tx → ∃ info, lockedTxInfo tx = .ok info) ∧
        ∀ c ∈ consumedInputs tx, (spent.1.found c).isSome := by
  have hrest : (∃ state', connectTransaction room lockedTxInfo blockHeight (spent, some infos) tx =
      .ok state') ↔ ∃ state', addTxIns room lockedTxInfo (spent, some infos) tx = .ok state' := by
    simp only [connectTransaction, bind_eq_ok]
    constructor
    · rintro ⟨_, state', h, _⟩
      exact ⟨state', h⟩
    · rintro ⟨state', h⟩
      exact ⟨_, state', h, rfl⟩
  rw [consumedInputs_eq] at hnodup ⊢
  rw [hrest, addTxIns_some, ← @foldlM_addTxIn_isOk_iff room _ _ hnodup]
  simp only [bind_eq_ok]
  constructor
  · rintro ⟨_, spent', hspent', h⟩
    refine ⟨fun htx => ?_, spent', hspent'⟩
    rw [if_pos htx] at h
    obtain ⟨info, hinfo, -⟩ := bind_eq_ok.mp h
    exact ⟨info, hinfo⟩
  · rintro ⟨hinfo, spent', hspent'⟩
    cases htx : isAnchorTx tx with
    | false => exact ⟨_, spent', hspent', rfl⟩
    | true =>
      obtain ⟨info, hinfo⟩ := hinfo htx
      exact ⟨_, spent', hspent', bind_eq_ok.mpr ⟨info, hinfo, rfl⟩⟩

variable {record : Tx → Option AnchorTxInfo}
  (hrecord : ∀ tx info, lockedTxInfo tx = .ok info → record tx = some info)
include hrecord

/-- What a connected transaction has done: it has made its edits, journalled what it consumed and
left a record when it is an anchor. -/
theorem connectTransaction_spec
    (h : connectTransaction room lockedTxInfo blockHeight (spent, some infos) tx = .ok state')
    (htracks : Tracks first es spent.1) : Tracks first (es ++ txEdits tx blockHeight) state'.1.1 ∧
      state'.1.2.length = spent.2.length + (consumedInputs tx).length ∧
      state'.2 = some (infos ++ ([tx].filter isAnchorTx).filterMap record) := by
  simp only [connectTransaction, bind_eq_ok] at h
  obtain ⟨⟨⟨s, stxos⟩, infos'⟩, hins, hret⟩ := h
  cases hret
  suffices hspent : Tracks first (es ++ (consumedInputs tx).map .remove) s ∧
      stxos.length = spent.2.length + (consumedInputs tx).length ∧
      infos' = some (infos ++ ([tx].filter isAnchorTx).filterMap record) by
    refine ⟨?_, hspent.2⟩
    rw [txEdits, ← append_assoc]
    exact hspent.1.addTxOuts tx blockHeight
  rw [addTxIns_some] at hins
  obtain ⟨spent', hspent', hins⟩ := bind_eq_ok.mp hins
  obtain ⟨hsame, hlen⟩ := foldlM_addTxIn_found hspent'
  rw [consumedInputs_eq, length_map, ← hlen]
  cases htx : isAnchorTx tx with
  | false =>
    rw [htx] at hins
    cases hins
    exact ⟨htracks.removes _ hsame, rfl, by simp [htx]⟩
  | true =>
    rw [if_pos htx] at hins
    obtain ⟨info, hinfo, hret⟩ := bind_eq_ok.mp hins
    cases hret
    exact ⟨htracks.removes _ hsame, rfl, by simp [htx, hrecord tx info hinfo]⟩

theorem foldlM_connectTransaction_spec
    (h : txs.foldlM (connectTransaction room lockedTxInfo blockHeight) (spent, some infos) =
      .ok state') :
    state'.1.2.length = spent.2.length + (txs.flatMap consumedInputs).length ∧
      state'.2 = some (infos ++ (txs.filter isAnchorTx).filterMap record) := by
  induction txs generalizing spent infos with
  | nil =>
    cases h
    simp
  | cons tx txs ih =>
    obtain ⟨⟨mid, infos'⟩, hmid, hrest⟩ := foldlM_cons_eq_ok.mp h
    have hstart : Tracks spent.1.found [] spent.1 :=
      ⟨fun _ _ => rfl, fun _ _ hlast => nomatch hlast⟩
    obtain ⟨-, hlen, rfl⟩ := connectTransaction_spec hrecord hmid hstart
    obtain ⟨hlen', hinfos⟩ := ih hrest
    refine ⟨?_, ?_⟩
    · rw [hlen', hlen, flatMap_cons, length_append]
      omega
    · rw [hinfos, append_assoc, ← filterMap_append, ← filter_append, singleton_append]

/-- When nothing consumes an outpoint that the block has removed, the block connects exactly when
its anchors can be read and the outpoints it did not create were found at first. -/
theorem foldlM_connectTransaction_isOk_iff (hnodup : ∀ tx ∈ txs, (consumedInputs tx).Nodup)
    {spent infos} (htracks : Tracks first es spent.1)
    (hlive : SpendsMeet (fun es c => lastEdit c es ≠ some none) blockHeight es txs) :
    (∃ state', txs.foldlM (connectTransaction room lockedTxInfo blockHeight) (spent, some infos) =
        .ok state') ↔
      (∀ tx ∈ txs, isAnchorTx tx → ∃ info, lockedTxInfo tx = .ok info) ∧
        SpendsMeet (fun es c => lastEdit c es = none → (first c).isSome) blockHeight es txs := by
  induction txs generalizing spent infos es with
  | nil => exact ⟨fun _ => ⟨by simp, trivial⟩, fun _ => ⟨_, rfl⟩⟩
  | cons tx txs ih =>
    obtain ⟨htx, hlive⟩ := hlive
    rw [forall_mem_cons] at hnodup
    have hfound : ∀ c ∈ consumedInputs tx,
        ((spent.1.found c).isSome ↔ (lastEdit c es = none → (first c).isSome)) := by
      intro c hc
      rcases hlast : lastEdit c es with _ | _ | coin
      · rw [htracks.untouched c hlast]
        simp
      · exact absurd hlast (htx c hc)
      · simp [htracks.created c coin hlast]
    have hhead := @connectTransaction_isOk_iff room lockedTxInfo blockHeight tx spent infos hnodup.1
    rw [forall₂_congr hfound] at hhead
    have htail : ∀ mid, connectTransaction room lockedTxInfo blockHeight (spent, some infos) tx =
        .ok mid → ((∃ state', txs.foldlM (connectTransaction room lockedTxInfo blockHeight) mid =
          .ok state') ↔ (∀ tx ∈ txs, isAnchorTx tx → ∃ info, lockedTxInfo tx = .ok info) ∧
            SpendsMeet (fun es c => lastEdit c es = none → (first c).isSome) blockHeight
              (es ++ txEdits tx blockHeight) txs) := by
      intro mid hmid
      obtain ⟨htracks', -, hinfos⟩ := connectTransaction_spec hrecord hmid htracks
      obtain ⟨spent', infos'⟩ := mid
      obtain rfl : infos' = _ := hinfos
      exact ih hnodup.2 htracks' hlive
    simp only [foldlM_cons_eq_ok, forall_mem_cons, SpendsMeet]
    constructor
    · rintro ⟨state', mid, hmid, hrest⟩
      obtain ⟨hanchor, hspends⟩ := hhead.mp ⟨mid, hmid⟩
      obtain ⟨hanchors, hall⟩ := (htail mid hmid).mp ⟨state', hrest⟩
      exact ⟨⟨hanchor, hanchors⟩, hspends, hall⟩
    · rintro ⟨⟨hanchor, hanchors⟩, hspends, hall⟩
      obtain ⟨mid, hmid⟩ := hhead.mpr ⟨hanchor, hspends⟩
      obtain ⟨state', hrest⟩ := (htail mid hmid).mpr ⟨hanchors, hall⟩
      exact ⟨state', mid, hmid, hrest⟩

end Connect

end UtxoCache

section Early

variable {blockHeight : ℤ} {c : OutPoint}

theorem mem_outputKeys_of_lastEdit {txs} {coin}
    (h : lastEdit c (txs.flatMap fun tx => txEdits tx blockHeight) = some (some coin)) :
    c ∈ UtxoViewpoint.outputKeys txs blockHeight := by
  obtain ⟨e, he, hkey, hleaves⟩ := mem_of_lastEdit h
  obtain ⟨tx, htx, he⟩ := mem_flatMap.mp he
  rcases mem_append.mp he with he | he
  · obtain ⟨_, -, rfl⟩ := mem_map.mp he
    cases hleaves
  · exact mem_flatMap.mpr ⟨tx, htx, mem_map.mpr ⟨e, he, hkey⟩⟩

theorem not_mem_outputKeys_of_lastEdit {txs}
    (h : lastEdit c (txs.flatMap fun tx => txEdits tx blockHeight) = none) :
    c ∉ UtxoViewpoint.outputKeys txs blockHeight := by
  intro hmem
  obtain ⟨tx, htx, hkey⟩ := mem_flatMap.mp hmem
  obtain ⟨e, he, rfl⟩ := mem_map.mp hkey
  exact lastEdit_eq_none.mp h e (mem_flatMap.mpr ⟨tx, htx, mem_append_right _ he⟩) rfl

/-- What has to hold of the outpoints that the transactions find from before, when their spends are
live and it holds outside the block anyway, has to hold of the early spends. -/
theorem spendsMeet_early_iff {m} {F : OutPoint → Prop} {done txs}
    (hhash : ((done ++ txs).map (·.hash)).Nodup)
    (hlive : SpendsMeet (fun es c => (applyAll m es c).isSome) blockHeight (done.flatMap fun tx =>
      txEdits tx blockHeight) txs)
    (houtside : ∀ c ∉ UtxoViewpoint.outputKeys (done ++ txs) blockHeight, (m c).isSome → F c) :
    SpendsMeet (fun es c => lastEdit c es = none → F c) blockHeight
        (done.flatMap fun tx => txEdits tx blockHeight) txs ↔
      ∀ c ∈ UtxoViewpoint.earlySpends blockHeight txs, F c := by
  induction txs generalizing done with
  | nil => exact ⟨fun _ => by simp [UtxoViewpoint.earlySpends], fun _ => trivial⟩
  | cons tx txs ih =>
    have hsplit : done ++ tx :: txs = (done ++ [tx]) ++ txs := by simp
    have hedits : (done.flatMap fun tx => txEdits tx blockHeight) ++ txEdits tx blockHeight =
        (done ++ [tx]).flatMap fun tx => txEdits tx blockHeight := by simp
    obtain ⟨hhead, htail⟩ := hlive
    have hrest := @ih (done ++ [tx]) (hsplit ▸ hhash) (hedits ▸ htail) (hsplit ▸ houtside)
    rw [SpendsMeet, hedits, hrest, UtxoViewpoint.earlySpends, forall_mem_append]
    refine and_congr_left fun _ => ?_
    simp only [mem_filter, and_imp, contains_iff_mem]
    refine forall₂_congr fun c hc => ?_
    have hlast : (applyAll m (done.flatMap fun tx => txEdits tx blockHeight) c).isSome := hhead c hc
    rw [applyAll_eq_lastEdit] at hlast
    constructor
    · -- the hash of an early spend is not one of a transaction that came before
      intro hfound hearly
      apply hfound
      rcases hedit : lastEdit c (done.flatMap fun tx => txEdits tx blockHeight) with _ | _ | coin
      · rfl
      · rw [hedit] at hlast
        cases hlast
      · rw [map_append, nodup_append] at hhash
        exact absurd rfl (hhash.2.2 _ (UtxoViewpoint.hash_of_mem_outputKeys
          (mem_outputKeys_of_lastEdit hedit)) _
          (UtxoViewpoint.hash_of_mem_outputKeys hearly))
    · intro hearly hedit
      by_cases hmem : c ∈ UtxoViewpoint.outputKeys (tx :: txs) blockHeight
      · exact hearly hmem
      · refine houtside c ?_ (by simpa [hedit] using hlast)
        rw [UtxoViewpoint.outputKeys, flatMap_append, mem_append, not_or]
        exact ⟨not_mem_outputKeys_of_lastEdit hedit, hmem⟩

theorem Accepted.early_unspent {p} {v ctx} {lib rules} {bucket} {read} {view loaded} {block} {stxos}
    {scan} (h : Accepted p v ctx lib rules bucket read view block stxos loaded scan)
    (hsane : SaneBlock block) (henforced : enforcesBIP0030 p block = false)
    (hc : c ∈ UtxoViewpoint.earlySpends block.height block.transactions)
    (hfresh : view.hasEntry c = false) : (view.overlay read c).isSome := by
  have hlive : SpendsMeet (fun es c => (applyAll loaded.unspentMap es c).isSome) block.height []
      block.transactions := (foldlM_checkConnectTx_spec h.loop).1.spendsMeet
  have hearly := @spendsMeet_early_iff block.height loaded.unspentMap
    (fun c => (loaded.unspentMap c).isSome) [] block.transactions hsane.hashes hlive
    fun _ _ hsome => hsome
  have hsome : (loaded.unspentMap c).isSome := by
    refine hearly.mp (hlive.imp fun es c hsome hlast => ?_) c hc
    rwa [applyAll_eq_lastEdit, hlast] at hsome
  rw [UtxoViewpoint.unspentMap, h.early henforced hsane.coinBaseFirst hsane.hashes c hc hfresh]
    at hsome
  rwa [UtxoViewpoint.overlay, (UtxoViewpoint.entries_of_hasEntry_eq_false hfresh).1, none_or]

end Early

end SatoshiNet.Chain
