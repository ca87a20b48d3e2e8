import SatoshiNet.Lib.Fold
import SatoshiNet.Lib.MapEdit
import SatoshiNet.Wire.Tx

/-!
Entries of the unspent output set, what a transaction does to a plain map of unspent outputs, and the
view that a block is connected to and disconnected from.  Both are compared with edits of a plain
map.
-/

namespace SatoshiNet.Chain

open Lib Wire List

section

def maxSatoshi : ℤ := 2100000000000000

structure TxoFlags where
  coinBase : Bool := false
  spent : Bool := false
  modified : Bool := false
  fresh : Bool := false

structure UtxoEntry where
  amount : ℤ
  txAssets : TxAssets
  pkScript : Script
  blockHeight : ℤ
  packedFlags : TxoFlags

/-- What an output is worth keeping for: the spend journal stores it, and it is also all that a
plain map of unspent outputs has to say about one. -/
structure SpentTxOut where
  amount : ℤ
  assets : TxAssets
  pkScript : Script
  height : ℤ
  isCoinBase : Bool
deriving DecidableEq

/-- The unspent outputs at one point of the chain. -/
abbrev Coins := OutPoint → Option SpentTxOut

abbrev CoinEdits := List (Edit OutPoint SpentTxOut)

namespace UtxoEntry

variable (entry : UtxoEntry)

def spend : UtxoEntry :=
  if entry.packedFlags.spent then entry
  else { entry with packedFlags := { entry.packedFlags with spent := true, modified := true } }

def stxo : SpentTxOut :=
  ⟨entry.amount, entry.txAssets, entry.pkScript, entry.blockHeight, entry.packedFlags.coinBase⟩

@[simp] theorem spend_spent : entry.spend.packedFlags.spent = true := by
  unfold spend
  split <;> simp_all

end UtxoEntry

def unspent : Option UtxoEntry → Option SpentTxOut
  | none => none
  | some entry => if entry.packedFlags.spent then none else some entry.stxo

@[simp] theorem unspent_spend (entry : UtxoEntry) : unspent (some entry.spend) = none := by
  simp [unspent]

theorem unspent_eq_some {found} {coin} (h : unspent found = some coin) :
    ∃ entry, found = some entry ∧ entry.packedFlags.spent = false ∧ entry.stxo = coin := by
  cases found with
  | none => cases h
  | some entry =>
    simp only [unspent] at h
    split at h
    · cases h
    · exact ⟨entry, rfl, by simp_all, Option.some.inj h⟩

def TxOut.coin (txOut : TxOut) (isCoinBase : Bool) (blockHeight : ℤ) : SpentTxOut :=
  ⟨txOut.value, txOut.assets, txOut.pkScript, blockHeight, isCoinBase⟩

variable (tx : Tx) (blockHeight : ℤ)

def transactionConsumesSpendJournal (isCoinbase : Bool) : Bool :=
  !isCoinbase && !isAnchorTx tx

def outputEdits : CoinEdits :=
  (tx.txOut.zipIdx.filter fun p => !isUnspendable p.1.pkScript).map fun p =>
    .insert (tx.outPoint p.2) (TxOut.coin p.1 (isCoinBase tx) blockHeight)

/-- A fold over the outputs of a transaction that passes over the unspendable ones makes the edits of
the others one by one. -/
theorem foldl_outputEdits {S : Type} {step} {tx : Tx} {blockHeight : ℤ} {R : S → CoinEdits → Prop}
    (hskip : ∀ s p, isUnspendable p.1.pkScript = true → step s p = s)
    (hstep : ∀ s es p, isUnspendable p.1.pkScript = false → R s es → R (step s p) (es ++ [.insert
      (tx.outPoint p.2) (TxOut.coin p.1 (isCoinBase tx) blockHeight)])) {s : S} (es) (h : R s es) :
    R (tx.txOut.zipIdx.foldl step s) (es ++ outputEdits tx blockHeight) := by
  rw [outputEdits]
  generalize tx.txOut.zipIdx = l
  induction l generalizing s es with
  | nil => rwa [filter_nil, map_nil, append_nil]
  | cons p l ih =>
    rw [foldl_cons, filter_cons]
    cases hp : isUnspendable p.1.pkScript with
    | true =>
      rw [hskip s p hp]
      exact ih es h
    | false =>
      rw [Bool.not_false, if_pos rfl, map_cons, append_cons]
      exact ih _ (hstep s es p hp h)

def consumedInputs : List OutPoint :=
  if transactionConsumesSpendJournal tx (isCoinBase tx) then tx.txIn.map (·.previousOutPoint)
  else []

/-- A transaction as edits of a plain map: it removes what it consumes, then inserts its
outputs. -/
def txEdits : CoinEdits :=
  (consumedInputs tx).map .remove ++ outputEdits tx blockHeight

def spendingInputs : List TxIn :=
  if transactionConsumesSpendJournal tx (isCoinBase tx) then tx.txIn else []

theorem consumedInputs_eq : consumedInputs tx = (spendingInputs tx).map (·.previousOutPoint) := by
  rw [consumedInputs, spendingInputs]
  split <;> rfl

theorem consumedInputs_removes : (consumedInputs tx).map (Edit.remove (V := SpentTxOut)) =
      (spendingInputs tx).flatMap fun txIn => [.remove txIn.previousOutPoint] := by
  rw [consumedInputs_eq, map_map, map_eq_flatMap]
  rfl

theorem journalAll_txEdits (m) (tx : Tx) (blockHeight : ℤ) :
    journalAll m (txEdits tx blockHeight) = journalAll m ((consumedInputs tx).map .remove) := by
  rw [txEdits, journalAll_append, outputEdits, journalAll_inserts, append_nil]

end

open Option Function

structure Block where
  (hash prevBlock : Hash)
  height : ℤ
  transactions : List Tx
deriving DecidableEq

abbrev Block.hashes (block : Block) : List Hash := block.transactions.map (·.hash)

inductive UtxoError
  | viewMissingInput (outpoint : OutPoint)
  | missingInput (outpoint : OutPoint)
  | badSpentInformation
  | legacyStxo (outpoint : OutPoint)
  | database | anchorTx
deriving DecidableEq

abbrev UtxoM := Except UtxoError

/-- The entries of a view.  The outpoints with a nil entry were looked up and not found; they read
as missing, but they are not looked up again. -/
structure UtxoViewpoint where
  entries : OutPoint → Option UtxoEntry
  nilEntries : List OutPoint
  bestHash : Hash

abbrev ViewSpend := UtxoViewpoint × List SpentTxOut

namespace UtxoViewpoint

section

variable (view : UtxoViewpoint) (outpoint : OutPoint)

def setEntry (entry : UtxoEntry) : UtxoViewpoint :=
  { view with entries := update view.entries outpoint (some entry) }

def unspentMap : Option SpentTxOut :=
  unspent (view.entries outpoint)

theorem unspentMap_setEntry (entry) : (view.setEntry outpoint entry).unspentMap =
      update view.unspentMap outpoint (unspent (some entry)) := by
  funext op
  by_cases hop : op = outpoint
  · subst hop
    simp [unspentMap, setEntry]
  · simp only [unspentMap, setEntry, update_of_ne hop]

def addTxOut (txOut : TxOut) (isCoinBase : Bool) (blockHeight : ℤ) : UtxoViewpoint :=
  if isUnspendable txOut.pkScript then view
  else
    -- an existing entry has all its fields overwritten, so it leaves no trace
    view.setEntry outpoint
      { amount := txOut.value
        txAssets := txOut.assets
        pkScript := txOut.pkScript
        blockHeight := blockHeight
        packedFlags := { fresh := true, modified := true, coinBase := isCoinBase } }

def addTxOuts (tx : Tx) (blockHeight : ℤ) : UtxoViewpoint :=
  tx.txOut.zipIdx.foldl
    (fun view p => view.addTxOut (tx.outPoint p.2) p.1 (isCoinBase tx) blockHeight) view

end

variable (view : UtxoViewpoint) (db : UtxoDb) (block : Block) (state : ViewSpend) (tx : Tx)

def spendTxIn (txIn : TxIn) : UtxoM ViewSpend :=
  match state.1.entries txIn.previousOutPoint with
  | none => .error (.viewMissingInput txIn.previousOutPoint)
  | some entry =>
    .ok (state.1.setEntry txIn.previousOutPoint entry.spend, state.2 ++ [entry.stxo])

def connectTransaction (blockHeight : ℤ) (state : ViewSpend) (tx : Tx) : UtxoM ViewSpend :=
  if !transactionConsumesSpendJournal tx (isCoinBase tx) then
    .ok (state.1.addTxOuts tx blockHeight, state.2)
  else do
    let (view, stxos) ← tx.txIn.foldlM spendTxIn state
    return (view.addTxOuts tx blockHeight, stxos)

def connectTransactions (stxos : List SpentTxOut) : UtxoM ViewSpend := do
  let (view, stxos) ← block.transactions.foldlM (connectTransaction block.height) (view, stxos)
  return ({ view with bestHash := block.hash }, stxos)

/-- The stored unspent output set, as far as a view reads it: any record of a transaction. -/
structure UtxoDb where
  fetchUtxoEntryByHash : Hash → UtxoM (Option UtxoEntry)

def maxOutputsPerBlock : ℕ := 4000000 / (4 * 9)

def scanOutputs (view : UtxoViewpoint) (hash : Hash) : ℕ → ℕ → Option UtxoEntry
  | 0, _ => none
  | n + 1, idx =>
    match view.entries ⟨hash, UInt32.ofNat idx⟩ with
    | some entry => some entry
    | none => scanOutputs view hash n (idx + 1)

def fetchEntryByHash (hash : Hash) : UtxoM (Option UtxoEntry) :=
  match view.scanOutputs hash maxOutputsPerBlock 0 with
  | some entry => .ok (some entry)
  | none => db.fetchUtxoEntryByHash hash

def dropOutput (isFirst : Bool) (view : UtxoViewpoint) (p : TxOut × ℕ) : UtxoViewpoint :=
  if isUnspendable p.1.pkScript then view
  else
    let entry := (view.entries (tx.outPoint p.2)).getD
      { amount := p.1.value
        txAssets := p.1.assets
        pkScript := p.1.pkScript
        blockHeight := block.height
        packedFlags := { coinBase := isFirst } }
    view.setEntry (tx.outPoint p.2) entry.spend

/-- The height and coinbase flag to restore; records of the old journal format lack them, and they
are looked up among the outputs of the disconnected transaction. -/
def legacyDetails (view : UtxoViewpoint) (originOut : OutPoint)
    (stxo : SpentTxOut) : UtxoM SpentTxOut :=
  if stxo.height = 0 then do
    match ← view.fetchEntryByHash db tx.hash with
    | none => .error (.legacyStxo originOut)
    | some utxo =>
      return { stxo with height := utxo.blockHeight, isCoinBase := utxo.packedFlags.coinBase }
  else .ok stxo

def restoreTxIn (state : ViewSpend) (txIn : TxIn) : UtxoM ViewSpend :=
  match state.2 with
  | [] => .error .badSpentInformation
  | stxo :: rest => do
    let originOut := txIn.previousOutPoint
    -- the nil entry that the source puts in the view first can be seen by the lookup
    let view := if (state.1.entries originOut).isNone then
        state.1.setEntry originOut
          { amount := 0, txAssets := [], pkScript := [], blockHeight := 0, packedFlags := {} }
      else state.1
    let stxo ← view.legacyDetails db tx originOut stxo
    return (view.setEntry originOut
      { amount := stxo.amount
        txAssets := stxo.assets
        pkScript := stxo.pkScript
        blockHeight := stxo.height
        packedFlags := { modified := true, coinBase := stxo.isCoinBase } }, rest)

def disconnectTransaction (p : Tx × ℕ) : UtxoM ViewSpend :=
  let tx := p.1
  let isCoinBase := p.2 == 0
  let view := tx.txOut.zipIdx.foldl (dropOutput block tx isCoinBase) state.1
  if !transactionConsumesSpendJournal tx isCoinBase then .ok (view, state.2)
  else tx.txIn.reverse.foldlM (restoreTxIn db tx) (view, state.2)

def countSpentOutputs : ℕ :=
  (block.transactions.zipIdx.map fun p =>
    if transactionConsumesSpendJournal p.1 (p.2 == 0) then p.1.txIn.length else 0).sum

def disconnectTransactions (view : UtxoViewpoint) (block : Block)
    (stxos : List SpentTxOut) : UtxoM UtxoViewpoint :=
  if stxos.length ≠ countSpentOutputs block then .error .badSpentInformation
  else do
    let (view, _) ← block.transactions.zipIdx.reverse.foldlM (disconnectTransaction db block)
      (view, stxos.reverse)
    return { view with bestHash := block.prevBlock }

/-! ### Connecting follows the edits of the block -/

theorem addTxOuts_unspentMap (blockHeight : ℤ) :
    (view.addTxOuts tx blockHeight).unspentMap =
      applyAll view.unspentMap (outputEdits tx blockHeight) := by
  refine foldl_outputEdits (R := fun v es => unspentMap v = applyAll view.unspentMap es)
    (fun _ _ hp => by rw [addTxOut, if_pos hp]) (fun v es p hp hv => ?_) [] rfl
  simp only [addTxOut, hp, Bool.false_eq_true, if_false, unspentMap_setEntry, hv, applyAll_append]
  rfl

def Agrees (m : Coins) (journal : List SpentTxOut) : Prop :=
  state.1.unspentMap = m ∧ state.2 = journal

variable {state : ViewSpend} {m : Coins}
  {journal rest : List SpentTxOut} {view view' : UtxoViewpoint}

theorem spendTxIn_follows (txIn) (hR : Agrees state m journal)
    (hfit : FitsAll m [.remove txIn.previousOutPoint]) :
    ∃ state', spendTxIn state txIn = .ok state' ∧
      Agrees state' (applyAll m [.remove txIn.previousOutPoint])
        (journal ++ journalAll m [.remove txIn.previousOutPoint]) := by
  obtain ⟨rfl, rfl⟩ := hR
  obtain ⟨coin, hcoin⟩ := isSome_iff_exists.mp hfit.1
  obtain ⟨entry, hentry, -, hstxo⟩ := unspent_eq_some hcoin
  refine ⟨_, by simp only [spendTxIn, hentry]; rfl, ?_, ?_⟩
  · simp [unspentMap_setEntry, Edit.apply]
  · simp only [journalAll, Edit.taken, hcoin, hstxo, toList_some, append_nil]

theorem connectTransaction_eq (blockHeight : ℤ) (tx : Tx) : connectTransaction blockHeight state tx =
    ((spendingInputs tx).foldlM spendTxIn state).map fun s =>
      (s.1.addTxOuts tx blockHeight, s.2) := by
  rw [connectTransaction, spendingInputs]
  cases transactionConsumesSpendJournal tx (isCoinBase tx) <;> rfl

theorem connectTransaction_follows (blockHeight : ℤ) (tx : Tx) (hR : Agrees state m journal)
    (hfit : FitsAll m (txEdits tx blockHeight)) :
    ∃ state', connectTransaction blockHeight state tx = .ok state' ∧
      Agrees state' (applyAll m (txEdits tx blockHeight))
        (journal ++ journalAll m (txEdits tx blockHeight)) := by
  obtain ⟨hin, -⟩ := (fitsAll_append m _ _).mp hfit
  rw [journalAll_txEdits, txEdits, applyAll_append]
  rw [consumedInputs_removes] at hin ⊢
  obtain ⟨state', hstate', hR'⟩ := foldlM_edits (spendingInputs tx)
    (fun _ _ _ txIn _ => spendTxIn_follows txIn) state m journal hR hin
  refine ⟨(state'.1.addTxOuts tx blockHeight, state'.2), ?_, ?_, hR'.2⟩
  · rw [connectTransaction_eq, hstate']
    rfl
  · rw [addTxOuts_unspentMap, hR'.1]

/-! ### Disconnecting takes the edits back -/

theorem dropOutputs_unspentMap (block : Block) (tx : Tx) (isFirst : Bool) (view : UtxoViewpoint)
    (l : List (TxOut × ℕ)) (outpoint : OutPoint) :
    (l.foldl (dropOutput block tx isFirst) view).unspentMap outpoint =
      if outpoint ∈ (l.filter fun p => !isUnspendable p.1.pkScript).map fun p => tx.outPoint p.2
      then none else view.unspentMap outpoint := by
  induction l generalizing view with
  | nil => rfl
  | cons p l ih =>
    rw [foldl_cons, ih]
    cases hp : isUnspendable p.1.pkScript with
    | true => simp only [dropOutput, hp, if_true, filter_cons, Bool.not_true,
        Bool.false_eq_true, if_false]
    | false =>
      simp only [dropOutput, hp, Bool.false_eq_true, if_false, unspentMap_setEntry, unspent_spend,
        filter_cons, Bool.not_false, if_true, map_cons, mem_cons]
      by_cases hop : outpoint = tx.outPoint p.2
      · simp [hop]
      · simp only [hop, false_or, update_of_ne hop]

theorem dropOutputs_undo (block : Block) (tx : Tx) (isFirst : Bool) (blockHeight : ℤ)
    (hfit : FitsAll m (outputEdits tx blockHeight))
    (hview : view.unspentMap = applyAll m (outputEdits tx blockHeight)) :
    (tx.txOut.zipIdx.foldl (dropOutput block tx isFirst) view).unspentMap = m := by
  funext outpoint
  rw [dropOutputs_unspentMap]
  split_ifs with hmem
  · exact (eq_none_of_fitsAll_inserts _ _ m _ outpoint hfit hmem).symm
  · rw [hview]
    exact applyAll_inserts_of_not_mem _ _ m _ outpoint hmem

theorem restoreTxIn_undo (db) (tx : Tx) (txIn) (hfit : FitsAll m [.remove txIn.previousOutPoint])
    (hheight : ∀ stxo ∈ journalAll m [.remove txIn.previousOutPoint], stxo.height ≠ 0)
    (hR : Agrees state (applyAll m [.remove txIn.previousOutPoint]) ((journalAll m [.remove
      txIn.previousOutPoint]).reverse ++ rest)) :
    ∃ state', restoreTxIn db tx state txIn = .ok state' ∧ Agrees state' m rest := by
  obtain ⟨coin, hcoin⟩ := isSome_iff_exists.mp hfit.1
  simp only [journalAll, Edit.taken, hcoin, toList_some, append_nil,
    mem_singleton, forall_eq] at hheight
  obtain ⟨hview, hstack⟩ := hR
  simp only [journalAll, Edit.taken, hcoin, toList_some, append_nil,
    reverse_singleton, singleton_append] at hstack
  simp only [restoreTxIn, hstack, legacyDetails, hheight, if_false]
  refine ⟨_, rfl, ?_, rfl⟩
  have hkeep : ∀ view : UtxoViewpoint, update (if (state.1.entries
      txIn.previousOutPoint).isNone = true then view.setEntry txIn.previousOutPoint
        { amount := 0, txAssets := [], pkScript := [], blockHeight := 0, packedFlags := {} }
      else view).unspentMap txIn.previousOutPoint (some coin) =
      update view.unspentMap txIn.previousOutPoint (some coin) := by
    intro view
    split
    · rw [unspentMap_setEntry, update_idem]
    · rfl
  rw [unspentMap_setEntry]
  refine (hkeep state.1).trans ?_
  rw [hview, applyAll_cons, applyAll_nil, Edit.apply, update_idem, ← hcoin, update_eq_self]

theorem disconnectTransaction_undo (db block p) (hfirst : isCoinBase p.1 = (p.2 == 0))
    (hfit : FitsAll m (txEdits p.1 block.height))
    (hheight : ∀ stxo ∈ journalAll m (txEdits p.1 block.height), stxo.height ≠ 0)
    (hR : Agrees state (applyAll m (txEdits p.1 block.height)) ((journalAll m (txEdits p.1
      block.height)).reverse ++ rest)) :
    ∃ state', disconnectTransaction db block state p = .ok state' ∧ Agrees state' m rest := by
  obtain ⟨tx, idx⟩ := p
  rw [journalAll_txEdits] at hheight hR
  obtain ⟨hin, hout⟩ := (fitsAll_append m _ _).mp hfit
  have hdrop := dropOutputs_undo block tx (idx == 0) block.height hout
    (hR.1.trans (applyAll_append m _ _))
  rw [consumedInputs_removes] at hin hheight hR hdrop
  have hdropped : Agrees (_, state.2) _ _ := ⟨hdrop, hR.2⟩
  have hloop := foldlM_reverse_edits (spendingInputs tx)
    (fun _ _ _ txIn _ => restoreTxIn_undo db tx txIn) _ m rest hin hheight hdropped
  simp only [spendingInputs, hfirst] at hloop
  simp only [disconnectTransaction]
  cases hc : transactionConsumesSpendJournal tx (idx == 0) <;> rw [hc] at hloop <;> exact hloop

/-! ### Whole blocks -/

def blockEdits (block : Block) : CoinEdits :=
  block.transactions.flatMap fun tx => txEdits tx block.height

theorem connectTransactions_follows (view : UtxoViewpoint) (block : Block)
    (hfit : FitsAll view.unspentMap (blockEdits block)) :
    ∃ view', view.connectTransactions block [] =
        .ok (view', journalAll view.unspentMap (blockEdits block)) ∧
      view'.unspentMap = applyAll view.unspentMap (blockEdits block) := by
  obtain ⟨⟨view', stxos⟩, hfold, hmap, rfl⟩ := foldlM_edits (R := Agrees) block.transactions
      (fun _ _ _ tx _ => connectTransaction_follows block.height tx) (view, []) view.unspentMap []
      ⟨rfl, rfl⟩ hfit
  refine ⟨{ view' with bestHash := block.hash }, ?_, hmap⟩
  rw [connectTransactions, hfold]
  rfl

variable {block : Block} {state' : ViewSpend}

theorem spendTxIn_length {txIn} (h : spendTxIn state txIn = .ok state') :
    state'.2.length = state.2.length + 1 := by
  simp only [spendTxIn] at h
  split at h
  · cases h
  · cases h
    simp

theorem connectTransaction_length {blockHeight : ℤ} {tx : Tx}
    (h : connectTransaction blockHeight state tx = .ok state') :
    state'.2.length = state.2.length + (consumedInputs tx).length := by
  rw [connectTransaction_eq, map_eq_ok] at h
  obtain ⟨spent, hspent, rfl⟩ := h
  have hlen := foldlM_measure (f := fun s : ViewSpend => s.2.length)
    (w := fun _ => 1) (spendingInputs tx) (fun s s' a _ hs => spendTxIn_length hs) hspent
  rw [hlen, consumedInputs_eq, length_map, map_const', sum_replicate, Nat.nsmul_eq_mul, mul_one]

theorem connectTransactions_length {stxos}
    (h : view.connectTransactions block [] = .ok (view', stxos)) :
    stxos.length = (block.transactions.flatMap consumedInputs).length := by
  obtain ⟨last, hlast, hret⟩ := bind_eq_ok.mp h
  obtain ⟨-, rfl⟩ := Prod.mk.inj (Except.ok.inj hret)
  have hlen := foldlM_measure (f := fun s : ViewSpend => s.2.length)
    (w := fun tx => (consumedInputs tx).length) block.transactions
    (fun s s' a _ hs => connectTransaction_length hs) hlast
  simpa only [length_nil, Nat.zero_add, length_flatMap] using hlen

def CoinBaseFirst (block : Block) : Prop :=
  ∀ p ∈ block.transactions.zipIdx, isCoinBase p.1 = (p.2 == 0)

instance (block : Block) : Decidable (CoinBaseFirst block) :=
  inferInstanceAs (Decidable (∀ p ∈ block.transactions.zipIdx, isCoinBase p.1 = (p.2 == 0)))

theorem countSpentOutputs_eq (h : CoinBaseFirst block) :
    countSpentOutputs block = (block.transactions.flatMap consumedInputs).length := by
  have hweights : block.transactions.zipIdx.map (fun p =>
      if transactionConsumesSpendJournal p.1 (p.2 == 0) then p.1.txIn.length else 0) =
      block.transactions.zipIdx.map fun p => (consumedInputs p.1).length := by
    refine map_congr_left fun p hp => ?_
    rw [consumedInputs, h p hp]
    split <;> simp
  rw [countSpentOutputs, hweights, length_flatMap]
  conv_rhs => rw [← List.zipIdx_map_fst 0 block.transactions, List.map_map]
  rfl

theorem flatMap_zipIdx_txEdits (block) :
    block.transactions.zipIdx.flatMap (fun p => txEdits p.1 block.height) = blockEdits block := by
  rw [blockEdits]
  conv_rhs => rw [← zipIdx_map_fst 0 block.transactions, flatMap_map]

variable (db : UtxoDb)

theorem disconnectTransactions_undo (hfirst : CoinBaseFirst block)
    (hfit : FitsAll view.unspentMap (blockEdits block))
    (hheight : ∀ stxo ∈ journalAll view.unspentMap (blockEdits block), stxo.height ≠ 0)
    (hlen : (journalAll view.unspentMap (blockEdits block)).length = countSpentOutputs block)
    (hview : view'.unspentMap = applyAll view.unspentMap (blockEdits block)) :
    ∃ view'', view'.disconnectTransactions db block
        (journalAll view.unspentMap (blockEdits block)) = .ok view'' ∧
      view''.unspentMap = view.unspentMap := by
  rw [← flatMap_zipIdx_txEdits] at hfit hheight hlen hview ⊢
  obtain ⟨⟨view'', rest⟩, hfold, hmap, -⟩ :=
    foldlM_reverse_edits (R := Agrees) (P := fun stxo => stxo.height ≠ 0) block.transactions.zipIdx
      (fun _ _ _ p hp => disconnectTransaction_undo db block p (hfirst p hp))
      (view', (journalAll view.unspentMap _).reverse) view.unspentMap [] hfit hheight
      ⟨hview, (append_nil _).symm⟩
  refine ⟨{ view'' with bestHash := block.prevBlock }, ?_, hmap⟩
  rw [disconnectTransactions, if_neg (not_not.mpr hlen), hfold]
  rfl

/-- Disconnecting a block gives back the unspent outputs it was connected to, when its first
transaction alone is a coinbase, every input finds an unspent entry, no output is created over an
unspent entry and no consumed entry has height zero. -/
theorem disconnectTransactions_connectTransactions (view view' : UtxoViewpoint)
    (block : Block) (stxos : List SpentTxOut)
    (hconnect : view.connectTransactions block [] = .ok (view', stxos)) :
    stxos.length = (block.transactions.flatMap consumedInputs).length ∧
      (CoinBaseFirst block → FitsAll view.unspentMap (blockEdits block) →
        (∀ stxo ∈ stxos, stxo.height ≠ 0) →
        stxos = journalAll view.unspentMap (blockEdits block) ∧
          ∃ view'', view'.disconnectTransactions db block stxos = .ok view'' ∧
            view''.unspentMap = view.unspentMap) := by
  refine ⟨connectTransactions_length hconnect, fun hfirst hfit hheight => ?_⟩
  obtain ⟨view₁, hconnect₁, hmap⟩ := connectTransactions_follows view block hfit
  rw [hconnect] at hconnect₁
  cases hconnect₁
  refine ⟨rfl, disconnectTransactions_undo db hfirst hfit hheight ?_ hmap⟩
  rw [connectTransactions_length hconnect, countSpentOutputs_eq hfirst]

def Undoes (view : UtxoViewpoint) (block : Block) : Prop :=
  ∀ view' stxos, view.connectTransactions block [] = .ok (view', stxos) →
    ∃ view'', view'.disconnectTransactions db block stxos = .ok view'' ∧
      view''.unspentMap = view.unspentMap

def afterUndo (view : UtxoViewpoint) (block : Block) (outpoint : OutPoint) :
    UtxoM (Option SpentTxOut) := do
  let (view', stxos) ← view.connectTransactions block []
  let view'' ← view'.disconnectTransactions db block stxos
  return view''.unspentMap outpoint

theorem afterUndo_of_undoes {db} (h : Undoes db view block)
    (haccept : (view.connectTransactions block []).isOk = true) (outpoint) :
    afterUndo db view block outpoint = .ok (view.unspentMap outpoint) := by
  cases hc : view.connectTransactions block [] with
  | error e => simp only [hc, Except.isOk, Except.toBool, Bool.false_eq_true] at haccept
  | ok result =>
    obtain ⟨view'', hview'', hmap⟩ := h result.1 result.2 hc
    have hstep : afterUndo db view block outpoint =
        result.1.disconnectTransactions db block result.2 >>= fun v => .ok (v.unspentMap outpoint) := by
      rw [afterUndo, hc]
      rfl
    rw [hstep, hview'', ← hmap]
    rfl

def sampleOutPoint : OutPoint := ⟨7, 0⟩

def sampleCoinBase : Tx := ⟨1, [⟨⟨zeroHash, maxPrevOutIndex⟩, []⟩], []⟩

def sampleSpender : Tx := ⟨2, [⟨sampleOutPoint, []⟩], [⟨5, [], []⟩]⟩

def sampleView (outpoint : OutPoint) (height : ℤ) (spent : Bool) : UtxoViewpoint :=
  ⟨update (fun _ => none) outpoint
    (some ⟨5, [], [], height, { spent := spent }⟩), [], zeroHash⟩

def sampleBlock (txs : List Tx) : Block := ⟨9, 8, 9, txs⟩

def emptyDb : UtxoDb := ⟨fun _ => .ok none⟩

theorem disconnectTransactions_connectTransactions_sample : ∃ view' stxos,
      (sampleView sampleOutPoint 3 false).connectTransactions
        (sampleBlock [sampleCoinBase, sampleSpender]) [] = .ok (view', stxos) ∧
      stxos.length = 1 ∧
      ∃ view'', view'.disconnectTransactions emptyDb
          (sampleBlock [sampleCoinBase, sampleSpender]) stxos = .ok view'' ∧
        view''.unspentMap = (sampleView sampleOutPoint 3 false).unspentMap := by
  have hall := disconnectTransactions_connectTransactions emptyDb
    (sampleView sampleOutPoint 3 false) _ (sampleBlock [sampleCoinBase, sampleSpender]) _ rfl
  exact ⟨_, _, rfl, hall.1, (hall.2 (by decide) (by decide) (by decide)).2⟩

/-- Each of the four conditions is needed: a consumed entry of height zero comes back with the
height of the block, an unspent entry that an output overwrites is lost, a spent entry that an
input consumes comes back unspent, and a block without a coinbase is refused. -/
theorem disconnectTransactions_not_undo :
    (CoinBaseFirst (sampleBlock [sampleCoinBase, sampleSpender]) ∧
      FitsAll (sampleView sampleOutPoint 0 false).unspentMap
        (blockEdits (sampleBlock [sampleCoinBase, sampleSpender])) ∧
      ¬ Undoes emptyDb (sampleView sampleOutPoint 0 false)
        (sampleBlock [sampleCoinBase, sampleSpender])) ∧
    (CoinBaseFirst (sampleBlock [{ sampleCoinBase with txOut := [⟨5, [], []⟩] }]) ∧
      ¬ Undoes emptyDb (sampleView ⟨1, 0⟩ 3 false)
        (sampleBlock [{ sampleCoinBase with txOut := [⟨5, [], []⟩] }])) ∧
    (CoinBaseFirst (sampleBlock [sampleCoinBase, sampleSpender]) ∧
      ¬ Undoes emptyDb (sampleView sampleOutPoint 3 true)
        (sampleBlock [sampleCoinBase, sampleSpender])) ∧
    (FitsAll (sampleView sampleOutPoint 3 false).unspentMap
        (blockEdits (sampleBlock [sampleSpender])) ∧
      ¬ Undoes emptyDb (sampleView sampleOutPoint 3 false) (sampleBlock [sampleSpender])) := by
  refine ⟨⟨by decide, by decide, fun h => ?_⟩, ⟨by decide, fun h => ?_⟩,
    ⟨by decide, fun h => ?_⟩, ⟨by decide, fun h => ?_⟩⟩
  · exact absurd (afterUndo_of_undoes h (by decide) sampleOutPoint) (by decide)
  · exact absurd (afterUndo_of_undoes h (by decide) ⟨1, 0⟩) (by decide)
  · exact absurd (afterUndo_of_undoes h (by decide) sampleOutPoint) (by decide)
  · exact absurd (afterUndo_of_undoes h (by decide) sampleOutPoint) (by decide)

end UtxoViewpoint

end SatoshiNet.Chain
