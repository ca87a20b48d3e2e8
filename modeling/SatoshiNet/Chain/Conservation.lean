import SatoshiNet.Chain.AnchorChain
import SatoshiNet.Chain.CacheConnect
import SatoshiNet.Lib.Total

/-!
The total of satoshis and of every asset in the unspent output set.

Anchors bring in what is locked for them on the other chain, ordinary transactions leave a fee, and
the coinbase may claim the fees of its block or less.
-/

namespace SatoshiNet.Chain

open Lib Wire List Option
open UtxoViewpoint

def worth (coin : SpentTxOut) : Wealth := (coin.amount, holdings coin.assets)

def outputWorth (txOut : TxOut) : Wealth := (txOut.value, holdings txOut.assets)

variable (tx : Tx)

def created : Wealth := (tx.txOut.map outputWorth).sum

def unstored : Wealth :=
  ((tx.txOut.filter fun txOut => isUnspendable txOut.pkScript).map outputWorth).sum

def consumed (m : Coins) (tx : Tx) : Wealth :=
  ((consumedInputs tx).map fun c => (m c).elim 0 worth).sum

def locked (v : AnchorVerifier) (tx : Tx) : Wealth :=
  (anchorInvoice v tx).elim 0 fun info => (info.value, holdings info.txAssets)

def isOrdinary : Bool := transactionConsumesSpendJournal tx (isCoinBase tx)

def fees (blockHeight : ℤ) (m : Coins) : List Tx → Wealth
  | [] => 0
  | tx :: rest => (if isOrdinary tx then consumed m tx - created tx else 0) +
      fees blockHeight (applyAll m (txEdits tx blockHeight)) rest

def NoneCreates (blockHeight : ℤ) (m : Coins) : List Tx → Prop
  | [] => True
  | tx :: rest => (isOrdinary tx → created tx ≤ consumed m tx) ∧
      NoneCreates blockHeight (applyAll m (txEdits tx blockHeight)) rest

/-- What the sanity check of a transaction makes sure of; the size of a transaction bounds the number
of its outputs. -/
structure SaneOutputs (tx : Tx) : Prop where
  nonneg : ∀ txOut ∈ tx.txOut, 0 ≤ txOut.value
  total : (tx.txOut.map (·.value)).sum ≤ maxSatoshi
  count : tx.txOut.length < 2 ^ 32

/-! ### One transaction -/

theorem created_eq : created tx =
    ((tx.txOut.map (·.value)).sum, (tx.txOut.map fun txOut => holdings txOut.assets).sum) := by
  rw [created]
  induction tx.txOut with
  | nil => rfl
  | cons txOut l ih =>
    rw [map_cons, sum_cons, ih]
    rfl

theorem outputKeys_nodup {tx : Tx} {blockHeight : ℤ} (h : tx.txOut.length < 2 ^ 32) :
    ((outputEdits tx blockHeight).map Edit.key).Nodup := by
  have hsnd : ((tx.txOut.zipIdx.filter fun p => !isUnspendable p.1.pkScript).map Prod.snd).Nodup :=
    (nodup_zipIdx_map_snd tx.txOut).sublist (filter_sublist.map _)
  have hlt : ∀ i ∈ (tx.txOut.zipIdx.filter fun p => !isUnspendable p.1.pkScript).map Prod.snd,
      i < 2 ^ 32 := by
    intro i hi
    obtain ⟨q, hq, rfl⟩ := mem_map.mp hi
    have hlen := snd_lt_of_mem_zipIdx (mem_of_mem_filter hq)
    omega
  have hkeys : (outputEdits tx blockHeight).map Edit.key =
      ((tx.txOut.zipIdx.filter fun p => !isUnspendable p.1.pkScript).map Prod.snd).map
        tx.outPoint := by
    rw [outputEdits, List.map_map, List.map_map]
    rfl
  rw [hkeys]
  refine hsnd.map_on fun i hi j hj heq => ?_
  have hindex := congrArg (fun c : OutPoint => c.index.toNat) heq
  simpa only [Tx.outPoint, UInt32.toNat_ofNat_of_lt' (hlt i hi),
    UInt32.toNat_ofNat_of_lt' (hlt j hj)] using hindex

theorem sum_stored (blockHeight : ℤ) :
    ((tx.txOut.zipIdx.filter fun p => !isUnspendable p.1.pkScript).map fun p =>
      worth (TxOut.coin p.1 (isCoinBase tx) blockHeight)).sum = created tx - unstored tx := by
  have hworth : ∀ p : TxOut × ℕ, worth (TxOut.coin p.1 (isCoinBase tx) blockHeight) =
      outputWorth p.1 := fun _ => rfl
  simp only [hworth, created, unstored]
  generalize hstart : 0 = start
  clear hstart
  induction tx.txOut generalizing start with
  | nil => exact (sub_zero _).symm
  | cons txOut l ih =>
    rw [zipIdx_cons, filter_cons, filter_cons]
    cases isUnspendable txOut.pkScript <;> simp only [Bool.not_true, Bool.not_false,
      Bool.false_eq_true, if_false, if_true, ih, map_cons, sum_cons] <;> abel

theorem gainAll_txEdits {m} {tx : Tx} {blockHeight : ℤ} (hnodup : (consumedInputs tx).Nodup)
    (hcount : tx.txOut.length < 2 ^ 32)
    (hfresh : ∀ c ∈ (outputEdits tx blockHeight).map Edit.key, m c = none) :
    gainAll worth m (txEdits tx blockHeight) = created tx - unstored tx - consumed m tx := by
  have hfresh' : ∀ p ∈ tx.txOut.zipIdx.filter fun p => !isUnspendable p.1.pkScript,
      applyAll m ((consumedInputs tx).map .remove) (tx.outPoint p.2) = none := by
    intro p hp
    rw [applyAll_removes]
    split
    · rfl
    · exact hfresh _ (mem_map.mpr ⟨_, mem_map.mpr ⟨p, hp, rfl⟩, rfl⟩)
  have hkeys : ((tx.txOut.zipIdx.filter fun p => !isUnspendable p.1.pkScript).map fun p =>
      tx.outPoint p.2).Nodup := by
    have hnodup := @outputKeys_nodup tx blockHeight hcount
    rwa [outputEdits, List.map_map] at hnodup
  rw [txEdits, gainAll_append, gainAll_removes hnodup, outputEdits, gainAll_inserts hkeys hfresh',
    sum_stored, consumed]
  abel

section Edits

variable {blockHeight : ℤ} {m : Coins} {tx : Tx} {txs : List Tx}

theorem outputKeys_cons : outputKeys (tx :: txs) blockHeight =
      outputKeys [tx] blockHeight ++ outputKeys txs blockHeight := by
  simp [outputKeys]

theorem fresh_txEdits (hhash : ((tx :: txs).map (·.hash)).Nodup)
    (hfresh : ∀ c ∈ outputKeys (tx :: txs) blockHeight, m c = none) :
    ∀ c ∈ outputKeys txs blockHeight, applyAll m (txEdits tx blockHeight) c = none := by
  intro c hc
  rw [applyAll_eq_lastEdit]
  rcases hlast : lastEdit c (txEdits tx blockHeight) with _ | _ | coin
  · rw [getD_none, hfresh c (by rw [outputKeys_cons]; exact mem_append_right _ hc)]
  · rfl
  have hown : c.hash ∈ [tx].map Tx.hash :=
    hash_of_mem_outputKeys (mem_outputKeys_of_lastEdit (by rwa [flatMap_singleton]))
  have hlater := hash_of_mem_outputKeys hc
  rw [map_cons, map_nil, mem_singleton] at hown
  rw [map_cons, nodup_cons] at hhash
  exact absurd (hown ▸ hlater) hhash.1

theorem agree_txEdits {m'} (h : ∀ c ∉ outputKeys (tx :: txs) blockHeight, m' c = m c) :
    ∀ c ∉ outputKeys txs blockHeight,
      applyAll m' (txEdits tx blockHeight) c = applyAll m (txEdits tx blockHeight) c := by
  intro c hc
  rw [applyAll_eq_lastEdit, applyAll_eq_lastEdit]
  cases hlast : lastEdit c (txEdits tx blockHeight) with
  | some left => rfl
  | none =>
    refine h c ?_
    rw [outputKeys_cons, mem_append, not_or]
    exact ⟨not_mem_outputKeys_of_lastEdit (by rwa [flatMap_singleton]), hc⟩

theorem consumed_of_not_isOrdinary (h : isOrdinary tx = false) : consumed m tx = 0 := by
  rw [isOrdinary] at h
  rw [consumed, consumedInputs, h]
  rfl

theorem gainAll_flatMap_txEdits (hhash : (txs.map (·.hash)).Nodup)
    (hnodup : ∀ tx ∈ txs, (consumedInputs tx).Nodup) (hcount : ∀ tx ∈ txs, tx.txOut.length < 2 ^ 32)
    (hfresh : ∀ c ∈ outputKeys txs blockHeight, m c = none) :
    gainAll worth m (txs.flatMap fun tx => txEdits tx blockHeight) =
      ((txs.filter fun tx => !isOrdinary tx).map created).sum - (txs.map unstored).sum -
        fees blockHeight m txs := by
  induction txs generalizing m with
  | nil => simp [gainAll, fees]
  | cons tx txs ih =>
    have hown : ∀ c ∈ (outputEdits tx blockHeight).map Edit.key, m c = none := fun c hc =>
      hfresh c (mem_flatMap.mpr ⟨tx, mem_cons_self, hc⟩)
    have hnext := fresh_txEdits hhash hfresh
    rw [forall_mem_cons] at hnodup hcount
    rw [map_cons, nodup_cons] at hhash
    rw [flatMap_cons, gainAll_append, gainAll_txEdits hnodup.1 hcount.1 hown,
      ih hhash.2 hnodup.2 hcount.2 hnext, filter_cons, fees, map_cons, sum_cons]
    cases hord : isOrdinary tx with
    | true =>
      simp only [Bool.not_true, Bool.false_eq_true, if_false, if_true]
      abel
    | false =>
      simp only [Bool.not_false, Bool.false_eq_true, if_false, if_true, map_cons,
        sum_cons, consumed_of_not_isOrdinary hord]
      abel

end Edits

/-! ### The amounts a check adds up -/

theorem addInt64_eq {a b : ℤ} (h : 0 ≤ a + b) (h' : a + b < 2 ^ 63) : addInt64 a b = a + b := by
  rw [addInt64, Int.bmod_def]
  split <;> omega

variable {p : ChainParams} {v : AnchorVerifier} {ctx : AnchorContext} {lib : AssetLib}
  {rules : BlockRules} {view : UtxoViewpoint}

section Sums

variable (hexact : lib.Exact)
include hexact

theorem foldlM_takeOutput_spec {l : List TxOut} {rest rest'}
    (hnonneg : ∀ txOut ∈ l, 0 ≤ txOut.value) (hstart : 0 ≤ rest.1)
    (hbound : rest.1 + (l.map (·.value)).sum ≤ maxSatoshi)
    (h : l.foldlM (takeOutput lib) rest = .ok rest') : rest'.1 = rest.1 + (l.map (·.value)).sum ∧
      holdings rest'.2 + (l.map fun txOut => holdings txOut.assets).sum = holdings rest.2 ∧
      (NonnegAssets rest.2 → NonnegAssets rest'.2) := by
  induction l generalizing rest with
  | nil =>
    cases h
    simp
  | cons txOut l ih =>
    rw [forall_mem_cons] at hnonneg
    have htail : 0 ≤ (l.map (·.value)).sum := sum_nonneg (forall_mem_map.mpr hnonneg.2)
    rw [map_cons, sum_cons] at hbound
    obtain ⟨mid, hmid, hrest⟩ := foldlM_cons_eq_ok.mp h
    simp only [takeOutput, bind_eq_ok, orError_eq_ok] at hmid
    obtain ⟨assets, hassets, hmid⟩ := hmid
    cases hmid
    have hsum : addInt64 rest.1 txOut.value = rest.1 + txOut.value :=
      addInt64_eq (by omega) (by rw [maxSatoshi] at hbound; omega)
    simp only [hsum] at hrest
    obtain ⟨hvalue, hholdings, hkeeps⟩ := ih hnonneg.2 (by simp only; omega) (by simp only; omega) hrest
    refine ⟨?_, ?_, fun hn => hkeeps (hexact.split_nonneg hassets hn)⟩
    · rw [hvalue, map_cons, sum_cons]
      ring
    · rw [map_cons, sum_cons, ← hexact.split hassets, ← hholdings]
      abel

theorem foldlM_addInput_spec {maturity height : ℤ} {l : List TxIn} {sum sum'}
    (hstart : 0 ≤ sum.1 ∧ sum.1 ≤ maxSatoshi)
    (h : l.foldlM (addInput lib maturity height view) sum = .ok sum') :
    ((sum'.1, holdings sum'.2) : Wealth) = (sum.1, holdings sum.2) +
        (l.map fun txIn => (view.unspentMap txIn.previousOutPoint).elim 0 worth).sum ∧
      (0 ≤ sum'.1 ∧ sum'.1 ≤ maxSatoshi) ∧
      ((∀ txIn ∈ l, ∀ coin, view.unspentMap txIn.previousOutPoint = some coin →
        NonnegAssets coin.assets) → NonnegAssets sum.2 → NonnegAssets sum'.2) := by
  induction l generalizing sum with
  | nil =>
    cases h
    exact ⟨(add_zero _).symm, hstart, fun _ hn => hn⟩
  | cons txIn l ih =>
    obtain ⟨mid, hmid, hrest⟩ := foldlM_cons_eq_ok.mp h
    simp only [addInput, bind_eq_ok, orError_eq_ok, require_eq_ok, mapError_eq_ok,
      Bool.and_eq_true, decide_eq_true_eq] at hmid
    obtain ⟨coin, hcoin, _, -, _, hrange, assets, hassets, _, htotal, hmid⟩ := hmid
    cases hmid
    have hsum : addInt64 sum.1 coin.amount = sum.1 + coin.amount :=
      addInt64_eq (by omega) (by rw [maxSatoshi] at hrange hstart; omega)
    rw [hsum] at htotal hrest
    obtain ⟨hwealth, hrange', hkeeps⟩ := ih ⟨by simp only; omega, htotal.2⟩ hrest
    refine ⟨?_, hrange', fun hcoins hn => hkeeps (fun t ht => hcoins t (mem_cons_of_mem _ ht))
      (hexact.merge_nonneg hassets hn (hcoins txIn mem_cons_self coin hcoin))⟩
    rw [hwealth, map_cons, sum_cons, hcoin, elim_some, ← add_assoc]
    congr 1
    exact Prod.ext rfl (hexact.merge hassets)

end Sums

section Fees

variable {fee : ℤ × TxAssets} {metadata metadata' : Metadata}

theorem foldlM_addMetadata_nonneg {l} (h : l.foldlM (addMetadata lib) metadata = .ok metadata') :
    NonnegAssets l := by
  intro a ha
  obtain ⟨_, _, hstep⟩ := foldlM_steps h a ha
  simp only [addMetadata, bind_eq_ok, require_eq_ok, Bool.and_eq_true, decide_eq_true_eq] at hstep
  obtain ⟨_, -, _, ⟨-, hnonneg⟩, -⟩ := hstep
  exact hnonneg

theorem foldlM_inputMetadata_nonneg {l : List TxIn}
    (h : l.foldlM (inputMetadata lib view) metadata = .ok metadata') :
    ∀ txIn ∈ l, ∀ coin, view.unspentMap txIn.previousOutPoint = some coin →
      NonnegAssets coin.assets := by
  intro txIn hmem coin hcoin
  obtain ⟨_, _, hstep⟩ := foldlM_steps h txIn hmem
  simp only [inputMetadata, bind_eq_ok, orError_eq_ok] at hstep
  obtain ⟨coin', hcoin', hassets⟩ := hstep
  obtain rfl := some.inj (hcoin'.symm.trans hcoin)
  exact foldlM_addMetadata_nonneg hassets

variable {height : ℤ} {isNew : Bool} {l : List TxOut} {sum sum' : ℤ × TxAssets} {tx : Tx}

theorem checkTransactionInputs_fee (hexact : lib.Exact) {fee : ℤ} {feeAssets : TxAssets}
    (hsane : SaneOutputs tx) (hord : isOrdinary tx = true)
    (h : checkTransactionInputs p v ctx lib rules tx isNew height view = .ok (fee, feeAssets)) :
    consumed view.unspentMap tx = created tx + (fee, holdings feeAssets) ∧
      (0 ≤ fee ∧ fee ≤ maxSatoshi) ∧ NonnegAssets feeAssets := by
  obtain ⟨hbase, hanchor⟩ : isCoinBase tx = false ∧ isAnchorTx tx = false := by
    simpa [isOrdinary, transactionConsumesSpendJournal] using hord
  simp only [checkTransactionInputs, hbase, hanchor, Bool.false_eq_true, if_false, bind_eq_ok,
    require_eq_ok, decide_eq_true_eq] at h
  obtain ⟨_, hbindings, sums, hsums, rest, hrest, _, hle, _, -, hret⟩ := h
  cases hret
  simp only [checkTransactionAssetBindings, bind_eq_ok] at hbindings
  obtain ⟨metadata, hmetadata, -⟩ := hbindings
  obtain ⟨hin, hrange, hkeepsIn⟩ := foldlM_addInput_spec hexact
    ⟨le_rfl, by rw [maxSatoshi]; decide⟩ hsums
  obtain ⟨hvalue, hholdings, hkeepsOut⟩ := foldlM_takeOutput_spec hexact hsane.nonneg le_rfl
    (by simpa using hsane.total) hrest
  have hconsumed : consumed view.unspentMap tx = (sums.1, holdings sums.2) := by
    rw [isOrdinary] at hord
    rw [consumed, consumedInputs, if_pos hord, List.map_map, hin]
    exact (zero_add _).symm
  have hout : 0 ≤ (tx.txOut.map (·.value)).sum := sum_nonneg (forall_mem_map.mpr hsane.nonneg)
  simp only [zero_add] at hvalue
  refine ⟨?_, by omega, hkeepsOut (hkeepsIn (foldlM_inputMetadata_nonneg hmetadata)
    (by simp [NonnegAssets]))⟩
  rw [hconsumed, created_eq, hvalue]
  exact Prod.ext (by simp) (hholdings.symm.trans (add_comm _ _))

def Adds (lib : AssetLib) : List TxOut → ℤ × TxAssets → ℤ × TxAssets → Prop
  | [], sum, sum' => sum' = sum
  | txOut :: l, sum, sum' => ∃ merged, lib.merge sum.2 txOut.assets = .ok merged ∧
      Adds lib l (addInt64 sum.1 txOut.value, merged) sum'

theorem Adds.wealth (hexact : lib.Exact) (hnonneg : ∀ txOut ∈ l, 0 ≤ txOut.value)
    (hstart : 0 ≤ sum.1) (hbound : sum.1 + (l.map (·.value)).sum ≤ maxSatoshi)
    (h : Adds lib l sum sum') : ((sum'.1, holdings sum'.2) : Wealth) =
      (sum.1, holdings sum.2) + (l.map outputWorth).sum := by
  induction l generalizing sum with
  | nil =>
    obtain rfl : sum' = sum := h
    exact (add_zero _).symm
  | cons txOut l ih =>
    rw [forall_mem_cons] at hnonneg
    have htail : 0 ≤ (l.map (·.value)).sum := sum_nonneg (forall_mem_map.mpr hnonneg.2)
    rw [map_cons, sum_cons] at hbound
    obtain ⟨merged, hmerged, hrest⟩ := h
    have hsum : addInt64 sum.1 txOut.value = sum.1 + txOut.value :=
      addInt64_eq (by omega) (by rw [maxSatoshi] at hbound; omega)
    rw [hsum] at hrest
    rw [ih hnonneg.2 (by simp only; omega) (by simp only; omega) hrest, map_cons,
      sum_cons, ← add_assoc]
    congr 1
    exact Prod.ext rfl (hexact.merge hmerged)

def mergeOutputs (lib : AssetLib) (l : List TxOut) (assets : TxAssets) : Except TxAssets TxAssets :=
  l.foldlM (fun sum txOut => lib.merge sum txOut.assets) assets

theorem adds_of_checkAnchorOutput {info} (hmerges : (mergeOutputs lib l sum.2).isOk = true)
    (h : l.foldlM (checkAnchorOutput lib rules info) sum = .ok sum') : Adds lib l sum sum' := by
  induction l generalizing sum with
  | nil => exact (Except.ok.inj h).symm
  | cons txOut l ih =>
    obtain ⟨assets', hassets'⟩ := exists_of_isOk hmerges
    obtain ⟨merged, hmerged, hothers⟩ := foldlM_cons_eq_ok.mp hassets'
    obtain ⟨mid, hmid, hrest⟩ := foldlM_cons_eq_ok.mp h
    simp only [checkAnchorOutput, bind_eq_ok, hmerged] at hmid
    obtain ⟨_, -, _, -, hmid⟩ := hmid
    cases hmid
    refine ⟨merged, hmerged, ih ?_ hrest⟩
    rw [mergeOutputs, hothers]
    rfl

theorem adds_of_addCoinbaseOutput {expected}
    (h : l.foldlM (addCoinbaseOutput lib expected) sum = .ok sum') : Adds lib l sum sum' := by
  induction l generalizing sum with
  | nil => exact (Except.ok.inj h).symm
  | cons txOut l ih =>
    obtain ⟨mid, hmid, hrest⟩ := foldlM_cons_eq_ok.mp h
    simp only [addCoinbaseOutput, bind_eq_ok, mapError_eq_ok] at hmid
    obtain ⟨_, -, merged, hmerged, hmid⟩ := hmid
    cases hmid
    exact ⟨merged, hmerged, ih hrest⟩

theorem checkTransactionInputs_anchor (hexact : lib.Exact) (hsane : SaneOutputs tx)
    (hanchor : isAnchorTx tx = true) (hmerges : (mergeOutputs lib tx.txOut []).isOk = true)
    (h : checkTransactionInputs p v ctx lib rules tx isNew height view = .ok fee) :
    created tx = locked v tx := by
  have hbase : isCoinBase tx = false := by
    by_contra hbase
    simp [isAnchorTx_of_isCoinBase (by simpa using hbase)] at hanchor
  simp only [checkTransactionInputs, hbase, hanchor, Bool.false_eq_true, if_false, if_true,
    bind_eq_ok, mapError_eq_ok, checkAnchorTxValid, require_eq_ok] at h
  obtain ⟨_, ⟨info, hinfo, sum, hsum, _, hvalue, _, hequal, -⟩, -⟩ := h
  have hsums := (adds_of_checkAnchorOutput hmerges hsum).wealth hexact hsane.nonneg le_rfl
    (by simpa using hsane.total)
  rw [locked, anchorInvoice_of_getLockedTxInfo hinfo, elim_some, ← hexact.equal hequal,
    ← beq_iff_eq.mp hvalue, hsums, created]
  exact (zero_add _).symm

theorem checkTransactionInputs_unpaid (hord : isOrdinary tx = false)
    (h : checkTransactionInputs p v ctx lib rules tx isNew height view = .ok fee) :
    fee = (0, []) := by
  rw [checkTransactionInputs] at h
  cases hbase : isCoinBase tx with
  | true =>
    rw [hbase, if_pos rfl] at h
    exact (Except.ok.inj h).symm
  | false =>
    have hanchor : isAnchorTx tx = true := by
      simpa [isOrdinary, transactionConsumesSpendJournal, hbase] using hord
    simp only [hbase, hanchor, Bool.false_eq_true, if_false, if_true, bind_eq_ok] at h
    obtain ⟨_, -, hret⟩ := h
    exact (Except.ok.inj hret).symm

theorem checkCoinbaseFees_spec (hexact : lib.Exact) {expected : ℤ} {assets} (hsane : SaneOutputs tx)
    (hnonneg : NonnegAssets assets) (h : checkCoinbaseFees lib tx expected assets = .ok ()) :
    created tx ≤ (expected, holdings assets) := by
  simp only [checkCoinbaseFees, bind_eq_ok, require_eq_ok, decide_eq_true_eq, orError_eq_ok] at h
  obtain ⟨sum, hsum, _, hle, rest, hrest, -⟩ := h
  have hsums := (adds_of_addCoinbaseOutput hsum).wealth hexact hsane.nonneg le_rfl
    (by simpa using hsane.total)
  have hcreated : created tx = (sum.1, holdings sum.2) := by
    rw [hsums, created]
    exact (zero_add _).symm
  rw [hcreated, ← hexact.split hrest]
  exact ⟨hle, le_add_of_nonneg_left (hexact.split_nonneg hrest hnonneg).holdings_nonneg⟩

end Fees

section Totals

variable {read : ReadEntry} {m : Coins}

def BlockScan.fees (scan : BlockScan) : Wealth := (scan.totalFees, holdings scan.totalFeeAssets)

structure BlockScan.Sound (scan : BlockScan) : Prop where
  range : 0 ≤ scan.totalFees ∧ scan.totalFees < 2 ^ 63
  assets : NonnegAssets scan.totalFeeAssets

theorem addInt64_of_le {a b : ℤ} (ha : 0 ≤ a ∧ a < 2 ^ 63) (hb : 0 ≤ b ∧ b < 2 ^ 63)
    (h : a ≤ addInt64 a b) : addInt64 a b = a + b ∧ a + b < 2 ^ 63 := by
  rw [addInt64, Int.bmod_def] at *
  split at h <;> omega

variable {block : Block} {height : ℤ} {scan scan' : BlockScan} {tx : Tx} {txs : List Tx}

theorem consumed_eq_of_agree (hunspent : ∀ c ∈ consumedInputs tx, (view.unspentMap c).isSome)
    (hearly : earlySpends height (tx :: txs) = [])
    (hagree : ∀ c ∉ outputKeys (tx :: txs) height, view.overlay read c = m c) :
    consumed view.unspentMap tx = consumed m tx := by
  rw [consumed, consumed]
  refine congrArg sum (map_congr_left fun c hc => ?_)
  have hlate : c ∉ outputKeys (tx :: txs) height := by
    intro hmem
    exact filter_eq_nil_iff.mp (append_eq_nil_iff.mp hearly).1 c hc (contains_iff_mem.mpr hmem)
  obtain ⟨coin, hcoin⟩ := isSome_iff_exists.mp (hunspent c hc)
  rw [← hagree c hlate, overlay_of_unspentMap hcoin, hcoin]

theorem checkConnectTx_fees (hexact : lib.Exact) (hsane : SaneOutputs tx)
    (hearly : earlySpends height (tx :: txs) = [])
    (hagree : ∀ c ∉ outputKeys (tx :: txs) height,
      scan.connected.1.overlay read c = m c) (hscan : scan.Sound)
    (h : checkConnectTx p v ctx lib rules height scan tx = .ok scan') :
    scan'.Sound ∧
      scan'.fees = scan.fees + (if isOrdinary tx then consumed m tx - created tx else 0) ∧
      (isOrdinary tx → created tx ≤ consumed m tx) := by
  obtain ⟨fee, feeAssets, hfee, htotal, hle, hmerge, -⟩ := checkConnectTx_eq_ok.mp h
  have hsums : 0 ≤ fee ∧ fee ≤ maxSatoshi → NonnegAssets feeAssets →
      scan'.Sound ∧ scan'.fees = scan.fees + (fee, holdings feeAssets) := by
    intro hrange hnonneg
    rw [htotal] at hle
    have hexactSum := addInt64_of_le hscan.range ⟨hrange.1, by rw [maxSatoshi] at hrange; omega⟩ hle
    rw [hexactSum.1] at htotal
    refine ⟨⟨⟨by have := hscan.range; omega, by omega⟩,
      hexact.merge_nonneg hmerge hscan.assets hnonneg⟩, ?_⟩
    rw [BlockScan.fees, BlockScan.fees, htotal, hexact.merge hmerge]
    rfl
  cases hord : isOrdinary tx with
  | true =>
    obtain ⟨hconsumed, hrange, hnonneg⟩ := checkTransactionInputs_fee hexact hsane hord hfee
    rw [consumed_eq_of_agree (checkTransactionInputs_unspent hfee) hearly hagree] at hconsumed
    obtain ⟨hsound, hfees⟩ := hsums hrange hnonneg
    have hpaid : (0 : Wealth) ≤ (fee, holdings feeAssets) := ⟨hrange.1, hnonneg.holdings_nonneg⟩
    refine ⟨hsound, ?_, fun _ => ?_⟩
    · rw [hfees, if_pos rfl, hconsumed, add_sub_cancel_left]
    · rw [hconsumed]
      exact le_add_of_nonneg_right hpaid
  | false =>
    obtain ⟨rfl, rfl⟩ := Prod.mk.inj (checkTransactionInputs_unpaid hord hfee)
    obtain ⟨hsound, hfees⟩ := hsums ⟨le_rfl, by rw [maxSatoshi]; decide⟩ (by simp [NonnegAssets])
    exact ⟨hsound, by rw [hfees]; rfl, fun h => absurd h Bool.false_ne_true⟩

theorem foldlM_checkConnectTx_fees (hexact : lib.Exact) (hsane : ∀ tx ∈ txs, SaneOutputs tx)
    (hearly : earlySpends height txs = [])
    (hagree : ∀ c ∉ outputKeys txs height, scan.connected.1.overlay read c = m c)
    (hscan : scan.Sound)
    (h : txs.foldlM (checkConnectTx p v ctx lib rules height) scan = .ok scan') :
    scan'.Sound ∧ scan'.fees = scan.fees + fees height m txs ∧ NoneCreates height m txs := by
  induction txs generalizing scan m with
  | nil =>
    cases h
    exact ⟨hscan, (add_zero _).symm, trivial⟩
  | cons tx txs ih =>
    obtain ⟨mid, hmid, hrest⟩ := foldlM_cons_eq_ok.mp h
    rw [forall_mem_cons] at hsane
    obtain ⟨hsound, hfees, hpays⟩ := checkConnectTx_fees hexact hsane.1 hearly hagree hscan hmid
    obtain ⟨_, _, _, _, _, _, hconnected⟩ := checkConnectTx_eq_ok.mp hmid
    have hagree' : ∀ c ∉ outputKeys txs height,
        mid.connected.1.overlay read c = applyAll m (txEdits tx height) c := by
      rw [overlay_connectTransaction hconnected]
      exact agree_txEdits hagree
    obtain ⟨hsound', hfees', hcreates⟩ := ih hsane.2 (append_eq_nil_iff.mp hearly).2 hagree'
      hsound hrest
    refine ⟨hsound', ?_, hpays, hcreates⟩
    rw [hfees', hfees, fees, add_assoc]

theorem foldlM_checkConnectTx_locked (hexact : lib.Exact) (hsane : ∀ tx ∈ txs, SaneOutputs tx)
    (hmerges : ∀ tx ∈ txs, isAnchorTx tx → (mergeOutputs lib tx.txOut []).isOk = true)
    (h : txs.foldlM (checkConnectTx p v ctx lib rules height) scan = .ok scan') :
    ∀ tx ∈ txs, isAnchorTx tx → created tx = locked v tx := by
  intro tx htx hanchor
  obtain ⟨_, _, hstep⟩ := foldlM_steps h tx htx
  obtain ⟨_, _, hfee, -⟩ := checkConnectTx_eq_ok.mp hstep
  exact checkTransactionInputs_anchor hexact (hsane tx htx) hanchor (hmerges tx htx hanchor) hfee

def claimed (txs : List Tx) : Wealth := ((txs.filter isCoinBase).map created).sum

def lockedAll (v : AnchorVerifier) (txs : List Tx) : Wealth :=
  ((txs.filter isAnchorTx).map (locked v)).sum

def unstoredAll (txs : List Tx) : Wealth := (txs.map unstored).sum

theorem sum_not_isOrdinary (hlocked : ∀ tx ∈ txs, isAnchorTx tx → created tx = locked v tx) :
    ((txs.filter fun tx => !isOrdinary tx).map created).sum = claimed txs + lockedAll v txs := by
  induction txs with
  | nil => exact (add_zero _).symm
  | cons tx txs ih =>
    obtain ⟨hlocked, hothers⟩ := forall_mem_cons.mp hlocked
    have hrest := ih hothers
    simp only [claimed, lockedAll, filter_cons, isOrdinary, transactionConsumesSpendJournal,
      Bool.not_and, Bool.not_not] at hrest ⊢
    cases hbase : isCoinBase tx with
    | true => simp [hrest, isAnchorTx_of_isCoinBase hbase, add_assoc]
    | false =>
      cases hanchor : isAnchorTx tx with
      | true =>
        simp [hrest, hlocked hanchor]
        abel
      | false => simpa using hrest

/-- A block takes the set of unspent outputs from one map to another and creates nothing but what
is locked for its anchors; what the coinbase leaves of the fees is gone. -/
structure Conserves (v : AnchorVerifier) (block : Block) (m m' : Coins) : Prop where
  total_eq : total worth m' = total worth m + lockedAll v block.transactions -
    unstoredAll block.transactions - (fees block.height m block.transactions -
      claimed block.transactions)
  claimed_le : claimed block.transactions ≤ fees block.height m block.transactions
  noneCreates : NoneCreates block.height m block.transactions

theorem claimed_eq (h : UtxoViewpoint.CoinBaseFirst block)
    (htx : block.transactions.head? = some tx) : claimed block.transactions = created tx := by
  obtain ⟨rest, hrest⟩ := head?_eq_some_iff.mp htx
  have hfirst : isCoinBase tx = true := h (tx, 0) (by rw [hrest]; simp)
  have hothers : rest.filter isCoinBase = [] := by
    rw [filter_eq_nil_iff]
    intro tx' htx' hbase
    obtain ⟨i, hi⟩ := mem_iff_getElem?.mp htx'
    have hpos := h (tx', i + 1) (mem_zipIdx_iff_getElem?.mpr (by rw [hrest]; simpa using hi))
    rw [hbase] at hpos
    simp at hpos
  rw [claimed, hrest, filter_cons, hfirst, if_pos rfl, hothers, map_singleton, sum_singleton]

theorem overlay_of_entries {view' : UtxoViewpoint} (h : view.entries = view'.entries) :
    view.overlay read = view'.overlay read := by
  funext c
  rw [overlay, overlay, h]

theorem calcBlockSubsidy_eq (p) (height : ℤ) : calcBlockSubsidy p height = 0 := by
  rw [calcBlockSubsidy, baseSubsidy]
  split
  · rfl
  · exact Int.zero_shiftRight _

variable {bucket : AnchorBucket} {loaded : UtxoViewpoint} {stxos : List SpentTxOut}
  {result : ViewSpend} (hexact : lib.Exact) (hsane : SaneBlock block)
  (houtputs : ∀ tx ∈ block.transactions, SaneOutputs tx)
  (hmerges : ∀ tx ∈ block.transactions, isAnchorTx tx → (mergeOutputs lib tx.txOut []).isOk = true)
  (horder : ∀ c ∈ earlySpends block.height block.transactions,
    enforcesBIP0030 p block = false ∧ view.hasEntry c = false)
  (hfresh : ∀ c ∈ outputKeys block.transactions block.height, view.overlay read c = none)
  (hfinite : FiniteMap (view.overlay read))

include hsane horder hfresh in
theorem Accepted.earlySpends_eq_nil
    (h : Accepted p v ctx lib rules bucket read view block stxos loaded scan) :
    earlySpends block.height block.transactions = [] := by
  refine eq_nil_iff_forall_not_mem.mpr fun c hc => ?_
  have hsome := h.early_unspent hsane (horder c hc).1 hc (horder c hc).2
  rw [hfresh c (mem_outputKeys_of_mem_earlySpends hc)] at hsome
  cases hsome

include hexact hsane houtputs hmerges horder hfresh hfinite

theorem Accepted.conserves (h : Accepted p v ctx lib rules bucket read view block stxos loaded scan) :
    Conserves v block (view.overlay read) (scan.connected.1.overlay read) := by
  have hearly := h.earlySpends_eq_nil hsane horder hfresh
  obtain ⟨hsound, hfees, hcreates⟩ := foldlM_checkConnectTx_fees hexact houtputs hearly h.overlay
    ⟨⟨le_rfl, by norm_num⟩, by simp [NonnegAssets]⟩ h.loop
  have hlocked := foldlM_checkConnectTx_locked hexact houtputs hmerges h.loop
  have htotal : scan.fees = fees block.height (view.overlay read) block.transactions := by
    rw [hfees]
    exact zero_add _
  refine ⟨?_, ?_, hcreates⟩
  · rw [h.overlay_connected, total_applyAll hfinite, blockEdits,
      gainAll_flatMap_txEdits hsane.hashes hsane.consumed (fun tx htx => (houtputs tx htx).count)
        hfresh, sum_not_isOrdinary hlocked, unstoredAll]
    abel
  · obtain ⟨tx, htx, hclaims⟩ := h.coinbase
    have hsum : addInt64 0 scan.totalFees = scan.totalFees :=
      (addInt64_eq (by have := hsound.range; omega) (by have := hsound.range; omega)).trans
        (zero_add _)
    rw [calcBlockSubsidy_eq, hsum] at hclaims
    rw [claimed_eq hsane.coinBaseFirst htx, ← htotal]
    exact checkCoinbaseFees_spec hexact
      (houtputs tx (mem_of_mem_head? (by rw [htx]; rfl))) hsound.assets hclaims

theorem checkConnectBlockFor_conserves
    (haccepted : checkConnectBlockFor p v ctx lib rules bucket read view block stxos = .ok result) :
    Conserves v block (view.overlay read) (result.1.overlay read) := by
  obtain ⟨loaded, scan, h, hentries⟩ := checkConnectBlockFor_spec haccepted
  rw [overlay_of_entries hentries]
  exact h.conserves hexact hsane houtputs hmerges horder hfresh hfinite

end Totals

section Samples

open AnchorChain

def viewOf (entries : List (OutPoint × UtxoEntry)) : UtxoViewpoint :=
  ⟨fun op => entries.lookup op, [], 1⟩

def sampleAsset (amount : ℤ) : AssetInfo := ⟨⟨['f'], ['f'], ['a']⟩, ⟨0, amount⟩, 0⟩

def sampleEntry (amount assets : ℤ) (spent : Bool) : UtxoEntry :=
  ⟨amount, [sampleAsset assets], [0x51], 0, { spent := spent }⟩

def coinbaseClaiming (value : ℤ) (assets : TxAssets) : Tx :=
  ⟨20, [⟨⟨zeroHash, maxPrevOutIndex⟩, []⟩], [⟨value, assets, [0x51]⟩]⟩

def spending (hash : Hash) (input : OutPoint) (outputs : List (ℤ × ℤ)) : Tx :=
  ⟨hash, [⟨input, []⟩], outputs.map fun o => ⟨o.1, [sampleAsset o.2], [0x51]⟩⟩

theorem finite_overlay_viewOf (entries) : FiniteMap ((viewOf entries).overlay fun _ => none) := by
  refine (entries.map Prod.fst).toFinset.finite_toSet.subset fun op hop => ?_
  rw [overlay_none] at hop
  by_contra hmem
  refine hop ?_
  refine congrArg unspent (lookup_eq_none_iff.mpr fun q hq => bne_iff_ne.mpr ?_)
  rintro rfl
  exact hmem (by simpa using ⟨q.2, hq⟩)

/-- An anchor, and a transaction that pays a fee of two satoshis and six of an asset; the coinbase
claims one and four. -/
def feeBlock : Block :=
  ⟨2, 1, 1, [coinbaseClaiming 1 [sampleAsset 4], sampleAnchor 21 0x61, spending 22 ⟨7, 0⟩ [(3, 4)]]⟩

def coinView : UtxoViewpoint := viewOf [(⟨7, 0⟩, sampleEntry 5 10 false)]

instance (tx : Tx) : Decidable (SaneOutputs tx) :=
  decidable_of_iff (_ ∧ _ ∧ _) ⟨fun h => ⟨h.1, h.2.1, h.2.2⟩, fun h => ⟨h.nonneg, h.total, h.count⟩⟩

abbrev sampleCheck (view : UtxoViewpoint) (block : Block) : RuleM ViewSpend :=
  checkConnectBlockFor sampleParams sampleVerifier sampleContext Reference.lib sampleRules
    (fun _ => none) (fun _ => none) view block []

theorem feeBlock_conserves : ∃ result, sampleCheck coinView feeBlock = .ok result ∧
      Conserves sampleVerifier feeBlock (coinView.overlay fun _ => none)
        (result.1.overlay fun _ => none) := by
  have hok : (sampleCheck coinView feeBlock).isOk = true := by decide +kernel
  obtain ⟨result, hresult⟩ := exists_of_isOk hok
  exact ⟨result, hresult, checkConnectBlockFor_conserves Reference.lib_exact
    ⟨by decide, by decide, by decide⟩ (by decide) (by decide) (by decide) (by decide +kernel)
    (finite_overlay_viewOf _) hresult⟩

def Balances (v : AnchorVerifier) (block : Block) (m m' : Coins) : Prop :=
  total worth m' = total worth m + lockedAll v block.transactions - unstoredAll block.transactions

def Unbalances (view : UtxoViewpoint) (block : Block) : Prop :=
  SaneBlock block ∧ (∀ tx ∈ block.transactions, SaneOutputs tx) ∧
    ∃ result, sampleCheck view block = .ok result ∧
      ¬ Balances sampleVerifier block (view.overlay fun _ => none) (result.1.overlay fun _ => none)

theorem unbalances_of_gainAll {entries : List (OutPoint × UtxoEntry)} {block : Block}
    (hsane : SaneBlock block) (houtputs : ∀ tx ∈ block.transactions, SaneOutputs tx)
    (hok : (sampleCheck (viewOf entries) block).isOk = true)
    (hgain : (gainAll worth (viewOf entries).unspentMap (blockEdits block)).1 ≠
      (lockedAll sampleVerifier block.transactions - unstoredAll block.transactions).1) :
    Unbalances (viewOf entries) block := by
  obtain ⟨result, hresult⟩ := exists_of_isOk hok
  refine ⟨hsane, houtputs, result, hresult, fun hbalances => hgain ?_⟩
  obtain ⟨loaded, scan, h, hentries⟩ := checkConnectBlockFor_spec hresult
  rw [Balances, overlay_of_entries hentries, h.overlay_connected,
    total_applyAll (finite_overlay_viewOf entries),
    add_sub_assoc, add_right_inj, overlay_none] at hbalances
  rw [hbalances]

/-- Fees that the coinbase does not claim are lost, an output that is created again replaces the old
one, and an output that the view knows from before can be spent before it is created. -/
theorem not_always_balanced : Unbalances coinView feeBlock ∧
      Unbalances (viewOf [(⟨21, 0⟩, sampleEntry 9 0 false)])
        ⟨2, 1, 1, [coinbaseClaiming 0 [], sampleAnchor 21 0x61]⟩ ∧
      Unbalances (viewOf [(⟨7, 0⟩, sampleEntry 5 10 false), (⟨23, 0⟩, sampleEntry 2 4 true)])
        ⟨2, 1, 1, [coinbaseClaiming 0 [], spending 22 ⟨23, 0⟩ [(2, 4)],
          spending 23 ⟨7, 0⟩ [(2, 4), (3, 6)], spending 24 ⟨23, 1⟩ [(3, 6)]]⟩ :=
  ⟨unbalances_of_gainAll ⟨by decide, by decide, by decide⟩ (by decide) (by decide +kernel)
      (by decide +kernel),
    unbalances_of_gainAll ⟨by decide, by decide, by decide⟩ (by decide) (by decide +kernel)
      (by decide +kernel),
    unbalances_of_gainAll ⟨by decide, by decide, by decide⟩ (by decide) (by decide +kernel)
      (by decide +kernel)⟩

end Samples

end SatoshiNet.Chain
