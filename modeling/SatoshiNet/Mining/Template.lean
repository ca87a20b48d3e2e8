import SatoshiNet.Lib.Heap
import SatoshiNet.Mining.BlockOrder
import Mathlib.Algebra.Order.Ring.Rat

/-!
How a block template chooses its transactions: a priority queue of those that are ready, and the
transactions that wait for others of the pool until these have been chosen.
-/

namespace SatoshiNet.Mining

open Lib Wire Chain

/-- What is known of a transaction's class; one that cannot be classified is taken as ordinary. -/
def contractMiningInfo (lib : PayloadLib) (tx : Tx) : Option TxClass :=
  match classifyTxForBlockOrder lib tx with
  | .ok found => found
  | .error _ => none

structure TxPrioItem (lib : PayloadLib) where
  tx : Tx
  anchorFundingUtxo : Bytes
  fee : ℤ
  priority : ℚ
  feePerKB : ℤ
  protocolFeeCandidate : Bool
  contract : Option TxClass
  contract_eq : contract = contractMiningInfo lib tx

instance (lib : PayloadLib) : Inhabited (TxPrioItem lib) :=
  ⟨⟨⟨0, [], []⟩, [], 0, 0, 0, false, _, rfl⟩⟩

def hashLess (left right : Hash) : Bool :=
  decide (leBytes 32 left.toNat < leBytes 32 right.toNat)

def compareMiningOrder (left right : Option TxClass) (leftHash rightHash : Hash) : Option Bool :=
  match left, right with
  | none, none => none
  | none, some _ => some true
  | some _, none => some false
  | some left, some right =>
    if left.priority ≠ right.priority then some (decide (left.priority < right.priority))
    else if left.gasLimit ≠ right.gasLimit then some (decide (left.gasLimit > right.gasLimit))
    else if left.txType ≠ right.txType then some (decide (left.txType.code < right.txType.code))
    else some (hashLess leftHash rightHash)

section Queue

variable {lib : PayloadLib} (left right : TxPrioItem lib)

def txPQByContractOrdering : Option Bool :=
  compareMiningOrder left.contract right.contract left.tx.hash right.tx.hash

def txPQByPriority : Bool :=
  (txPQByContractOrdering left right).getD
    (if left.priority = right.priority then decide (left.feePerKB > right.feePerKB)
      else decide (left.priority > right.priority))

def txPQByFee : Bool :=
  (txPQByContractOrdering left right).getD
    (if left.feePerKB = right.feePerKB then decide (left.priority > right.priority)
      else decide (left.feePerKB > right.feePerKB))

def lessFunc (sortedByFee : Bool) : TxPrioItem lib → TxPrioItem lib → Bool :=
  if sortedByFee then txPQByFee else txPQByPriority

end Queue

structure Source where
  txs : List Tx
  distinct : (txs.map Tx.hash).Nodup
  available : OutPoint → Bool
  haveTransaction : Hash → Bool
  have_pool : ∀ tx ∈ txs, haveTransaction tx.hash = true
  zero_unknown : haveTransaction zeroHash = false
  anchorFunding : Tx → Option Bytes
  /-- The pool takes one anchor for a locked output. -/
  anchors_distinct : ∀ tx ∈ txs, ∀ tx' ∈ txs, isAnchorTx tx = true → isAnchorTx tx' = true →
    anchorFunding tx = anchorFunding tx' → anchorFunding tx ≠ none → tx = tx'

structure Policy where
  (blockMinWeight blockMaxWeight blockPrioritySize : ℕ)
  txMinFreeFee : ℤ
  contractResultBuilder : Bool

/-- Everything else the choice depends on: the data of the transactions, the verdicts of the input
and script checks given what has been chosen, and the order in which a map is walked. -/
structure Terms (lib : PayloadLib) where
  policy : Policy
  (coinbaseWeight coinbaseSigOpCost : ℕ)
  finalized : Tx → Bool
  weight : Tx → ℕ
  (fee feePerKB : Tx → ℤ)
  priority : Tx → ℚ
  deAnchor : Tx → Bool
  sigOpCost : List Tx → Tx → Option ℕ
  checked : List Tx → Tx → Bool
  anchored : Bytes → Bool
  feeExempt : List Tx → Tx → Bool
  walk : List Tx → List (TxPrioItem lib) → List (TxPrioItem lib)
  walk_perm : ∀ chosen items, (walk chosen items).Perm items

structure TemplateState (lib : PayloadLib) where
  queue : List (TxPrioItem lib)
  sortedByFee : Bool
  waiting : List (TxPrioItem lib × List Hash)
  chosen : List Tx
  (blockWeight blockSigOpCost : ℕ)
  anchorFundingUtxos : List Bytes

section Setup

variable {lib : PayloadLib} (src : Source) (terms : Terms lib)

/-- The transactions of the pool that the inputs wait for, and whether every input was found; the
scan stops at one that is neither in the chain nor in the pool. -/
def scanInputs : List TxIn → List Hash × Bool
  | [] => ([], true)
  | input :: rest =>
    if src.available input.previousOutPoint then scanInputs rest
    else if !src.haveTransaction input.previousOutPoint.hash then ([], false)
    else
      let found := scanInputs rest
      (input.previousOutPoint.hash :: found.1, found.2)

variable (tx : Tx) (anchorFundingUtxo : Bytes)

def scanTx (tx : Tx) : List Hash × Bool :=
  if anchorFundingUtxo ≠ [] then ([], true) else scanInputs src tx.txIn

def protocolCandidate : Bool := isAnchorTx tx || terms.deAnchor tx

def prioItem : TxPrioItem lib :=
  ⟨tx, anchorFundingUtxo, terms.fee tx, terms.priority tx, terms.feePerKB tx,
    protocolCandidate terms tx, _, rfl⟩

def abandonedItem : TxPrioItem lib :=
  ⟨tx, anchorFundingUtxo, 0, 0, 0, protocolCandidate terms tx, _, rfl⟩

/-- The locked output of an anchor, nothing for the others, and no answer for a bad anchor. -/
def anchorFundingOf : Option Bytes :=
  if isAnchorTx tx then src.anchorFunding tx else some []

def addSourceTx (s : TemplateState lib) (tx : Tx) : TemplateState lib :=
  if isCoinBase tx || !terms.finalized tx then s
  else
    match anchorFundingOf src tx with
    | none => s
    | some utxo =>
      let found := scanTx src utxo tx
      if found.2 then
        if found.1 = [] then
          { s with queue := Heap.push (lessFunc s.sortedByFee) s.queue (prioItem terms tx utxo) }
        else { s with waiting := (prioItem terms tx utxo, found.1) :: s.waiting }
      else if found.1 = [] then s
      else { s with waiting := (abandonedItem terms tx utxo, found.1) :: s.waiting }

def startState : TemplateState lib :=
  ⟨[], decide (terms.policy.blockPrioritySize = 0), [], [], terms.coinbaseWeight,
    terms.coinbaseSigOpCost, []⟩

def fillQueue : TemplateState lib := src.txs.foldl (addSourceTx src terms) (startState terms)

end Setup

section Choose

variable {lib : PayloadLib} (src : Source) (terms : Terms lib)

inductive Verdict
  | skip | requeue | take

def minHighPriority : ℚ := 57600000

def maxBlockSigOpsCost : ℕ := 80000

variable (s : TemplateState lib) (item : TxPrioItem lib)

def shouldSkipLowFeeTx (sortedByFee exempt : Bool) (weight : ℕ) : Bool :=
  sortedByFee && !(item.contract.isSome || exempt) &&
    (decide (item.fee < terms.policy.txMinFreeFee) && decide (terms.policy.blockMinWeight ≤ weight))

def inputsPresent (chosen : List Tx) (tx : Tx) : Bool :=
  isAnchorTx tx || tx.txIn.all fun input =>
    src.available input.previousOutPoint ||
      chosen.any fun t => t.hash == input.previousOutPoint.hash

/-- The checks of the inputs, the scripts and the anchors, and last the fee of an anchor. -/
def checkItem (sortedByFee : Bool) (weight : ℕ) : Verdict :=
  if !inputsPresent src s.chosen item.tx || !terms.checked s.chosen item.tx then .skip
  else if item.anchorFundingUtxo ≠ [] ∧ (terms.anchored item.anchorFundingUtxo = true ∨
      item.anchorFundingUtxo ∈ s.anchorFundingUtxos) then .skip
  else if item.protocolFeeCandidate && shouldSkipLowFeeTx terms item sortedByFee
      (decide (item.anchorFundingUtxo ≠ []) || terms.feeExempt s.chosen item.tx) weight then .skip
  else .take

/-- What becomes of the item, and whether the queue is sorted by fees from here on. -/
def judge : Verdict × Bool :=
  let weight := s.blockWeight + terms.weight item.tx
  if terms.policy.contractResultBuilder && (item.contract.any TxClass.isResult) then (.skip, false)
  else if 2 ^ 32 ≤ weight ∨ terms.policy.blockMaxWeight ≤ weight then (.skip, false)
  else
    match terms.sigOpCost s.chosen item.tx with
    | none => (.skip, false)
    | some cost =>
      if maxBlockSigOpsCost < s.blockSigOpCost + cost then (.skip, false)
      else if !item.protocolFeeCandidate && shouldSkipLowFeeTx terms item s.sortedByFee false weight then
        (.skip, false)
      else if !s.sortedByFee && (decide (terms.policy.blockPrioritySize ≤ weight) ||
          decide (item.priority ≤ minHighPriority)) then
        if terms.policy.blockPrioritySize < weight ∨ item.priority < minHighPriority then
          (.requeue, true)
        else (checkItem src terms s item true weight, true)
      else (checkItem src terms s item s.sortedByFee weight, false)

def sortByFee : TemplateState lib :=
  { s with sortedByFee := true, queue := Heap.init (lessFunc true) s.queue }

def released (h : Hash) (waiting : List (TxPrioItem lib × List Hash)) : List (TxPrioItem lib) :=
  (waiting.filter fun w => decide (h ∈ w.2) && (w.2.filter (· ≠ h)).isEmpty).map Prod.fst

def stillWaiting (h : Hash) (waiting : List (TxPrioItem lib × List Hash)) :
    List (TxPrioItem lib × List Hash) :=
  (waiting.filter fun w => !(decide (h ∈ w.2) && (w.2.filter (· ≠ h)).isEmpty)).map
    fun w => (w.1, w.2.filter (· ≠ h))

def accept : TemplateState lib where
  queue := (terms.walk s.chosen (released item.tx.hash s.waiting)).foldl
    (Heap.push (lessFunc s.sortedByFee)) s.queue
  sortedByFee := s.sortedByFee
  waiting := stillWaiting item.tx.hash s.waiting
  chosen := s.chosen ++ [item.tx]
  blockWeight := s.blockWeight + terms.weight item.tx
  blockSigOpCost := s.blockSigOpCost + (terms.sigOpCost s.chosen item.tx).getD 0
  anchorFundingUtxos := if item.anchorFundingUtxo ≠ [] then
    item.anchorFundingUtxo :: s.anchorFundingUtxos else s.anchorFundingUtxos

/-- What is done with the item on top of the queue; `s` has the rest of the queue. -/
def handleItem : TemplateState lib :=
  let (verdict, switch) := judge src terms s item
  let s := if switch then sortByFee s else s
  match verdict with
  | .skip => s
  | .requeue => { s with queue := Heap.push (lessFunc s.sortedByFee) s.queue item }
  | .take => accept terms s item

def chooseLoop : ℕ → TemplateState lib → TemplateState lib
  | 0, s => s
  | fuel + 1, s =>
    match Heap.pop (lessFunc s.sortedByFee) s.queue with
    | none => s
    | some (item, rest) => chooseLoop fuel (handleItem src terms { s with queue := rest } item)

/-- How often the loop can still run: an item goes back into the queue only when the sorting
changes, which happens once. -/
def TemplateState.budget : ℕ :=
  s.queue.length + s.waiting.length + if s.sortedByFee then 0 else 1

def chooseTxs : List Tx :=
  let s := fillQueue src terms
  (chooseLoop src terms s.budget s).chosen

end Choose

end SatoshiNet.Mining
