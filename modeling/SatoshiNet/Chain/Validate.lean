import SatoshiNet.Chain.AnchorRecord

/-!
The checks a block passes before it is connected: its inputs are loaded into a view, every
transaction is checked against the view and connected to it, and the coinbase is held against the
fees.  Scripts, signature operations, contracts and tickers are parameters.
-/

namespace SatoshiNet.Chain

open Lib Wire

inductive RuleError
  | genesisBlock | inconsistentView
  | overwriteTx (outpoint : OutPoint)
  | missingTxOut (outpoint : OutPoint)
  | immatureSpend (outpoint : OutPoint)
  | badTxOutValue | badFees | spendTooHigh | badCoinbaseValue
  | anchorTxVerifyFailed (error : AnchorError)
  | contract | tooManySigOps | script
  | view (error : UtxoError)

abbrev RuleM := Except RuleError

structure BlockRules where
  (validateContractBlock checkSigOps : Block → UtxoViewpoint → Bool)
  checkContractBaseGasFee : Tx → TxAssets → ℤ → Bool
  requiresOrdinaryInput : TxOut → Bool
  checkAscendingTickerInfo : Tx → AnchorInfo → Bool
  checkScripts : Block → UtxoViewpoint → Bool

def addInt64 (a b : ℤ) : ℤ := (a + b).bmod (2 ^ 64)

abbrev ReadEntry := OutPoint → Option UtxoEntry

namespace UtxoViewpoint

variable (read : ReadEntry) (view : UtxoViewpoint) (block : Block)

def hasEntry (outpoint : OutPoint) : Bool :=
  (view.entries outpoint).isSome || view.nilEntries.contains outpoint

def fetchUtxosFromCache (outpoints : List OutPoint) : UtxoViewpoint :=
  outpoints.foldl
    (fun view op => { view with
      entries := Function.update view.entries op (read op)
      nilEntries := if (read op).isNone then op :: view.nilEntries else view.nilEntries }) view

def fetchUtxos (outpoints : List OutPoint) : UtxoViewpoint :=
  fetchUtxosFromCache read view (outpoints.filter fun op => !view.hasEntry op)

def inFlightIndex (transactions : List Tx) (hash : Hash) : Option ℕ :=
  (transactions.zipIdx.reverse.find? fun p => p.1.hash == hash).map (·.2)

/-- The scan of the inputs of a block: the view with the outputs of earlier transactions that it
has met, their positions, and the outpoints still needed. -/
structure InputScan where
  view : UtxoViewpoint
  loadedParents : List ℕ
  needed : List OutPoint

def scanInput (i : ℕ) (scan : InputScan) (txIn : TxIn) : InputScan :=
  let op := txIn.previousOutPoint
  let fromCache : InputScan :=
    if scan.view.hasEntry op then scan else { scan with needed := scan.needed ++ [op] }
  match inFlightIndex block.transactions op.hash with
  | none => fromCache
  | some index =>
    if i < index then fromCache
    else if index ∈ scan.loadedParents then scan
    else
      match block.transactions[index]? with
      | none => scan
      | some originTx =>
        { scan with
          view := scan.view.addTxOuts originTx block.height
          loadedParents := index :: scan.loadedParents }

def scanTx (scan : InputScan) (p : Tx × ℕ) : InputScan :=
  if !transactionConsumesSpendJournal p.1 false then scan
  else p.1.txIn.foldl (scanInput block p.2) scan

def findInputsToFetch : InputScan :=
  block.transactions.tail.zipIdx.foldl (scanTx block) ⟨view, [], []⟩

def fetchInputUtxos : UtxoViewpoint :=
  let scan := findInputsToFetch view block
  fetchUtxosFromCache read scan.view scan.needed

end UtxoViewpoint

section Anchors

variable (v : AnchorVerifier) (ctx : AnchorContext) (lib : AssetLib) (rules : BlockRules)

def checkAnchorOutput (info : AnchorInfo) (sum : ℤ × TxAssets) (txOut : TxOut) :
    AnchorM (ℤ × TxAssets) := do
  require (!rules.requiresOrdinaryInput txOut) .operation
  require (txOut.assets.all fun a =>
    match lib.find info.txAssets a.name with
    | none => false
    | some signed => signed.bindingSat == a.bindingSat) .binding
  let assets := match lib.merge sum.2 txOut.assets with
    | .ok merged => merged
    | .error left => left
  return (addInt64 sum.1 txOut.value, assets)

def checkAnchorTxValid (tx : Tx) (checkUtxoAssets bindOutputs nativeActive : Bool) :
    AnchorM AnchorInfo := do
  let info ← checkAnchorInput v ctx tx checkUtxoAssets bindOutputs nativeActive
  let (anchorValue, anchorAssets) ← tx.txOut.foldlM (checkAnchorOutput lib rules info) (0, [])
  require (anchorValue == info.value) .amount
  require (lib.equal anchorAssets info.txAssets) .assets
  require (rules.checkAscendingTickerInfo tx info) .ticker
  return info

end Anchors

section Inputs

variable (lib : AssetLib)

/-- The bindings of the assets that the inputs carry, as far as they have been read. -/
abbrev Metadata := List (AssetName × ℕ)

def noName : AssetName := ⟨[], [], []⟩

def addMetadata (metadata : Metadata) (a : AssetInfo) : RuleM Metadata := do
  require (a.name != noName) .badTxOutValue
  require (lib.validate a.amount && decide (0 ≤ a.amount.value)) .badTxOutValue
  require (match metadata.lookup a.name with
    | none => true
    | some binding => binding == a.bindingSat) .badTxOutValue
  return (a.name, a.bindingSat) :: metadata

def inputMetadata (view : UtxoViewpoint) (metadata : Metadata) (txIn : TxIn) : RuleM Metadata := do
  let coin ← orError (view.unspentMap txIn.previousOutPoint) (.missingTxOut txIn.previousOutPoint)
  coin.assets.foldlM (addMetadata lib) metadata

def checkTransactionAssetBindings (tx : Tx) (view : UtxoViewpoint) : RuleM Unit := do
  let metadata ← tx.txIn.foldlM (inputMetadata lib view) []
  require (tx.txOut.all fun txOut => txOut.assets.all fun a =>
    metadata.lookup a.name == some a.bindingSat) .badTxOutValue

def addInput (coinbaseMaturity txHeight : ℤ) (view : UtxoViewpoint) (sum : ℤ × TxAssets)
    (txIn : TxIn) : RuleM (ℤ × TxAssets) := do
  let op := txIn.previousOutPoint
  let coin ← orError (view.unspentMap op) (.missingTxOut op)
  require (!coin.isCoinBase || decide (coinbaseMaturity ≤ txHeight - coin.height))
    (.immatureSpend op)
  require (decide (0 ≤ coin.amount) && decide (coin.amount ≤ maxSatoshi)) .badTxOutValue
  let total := addInt64 sum.1 coin.amount
  let assets ← (lib.merge sum.2 coin.assets).mapError fun _ => .badTxOutValue
  require (decide (sum.1 ≤ total) && decide (total ≤ maxSatoshi)) .badTxOutValue
  return (total, assets)

def takeOutput (rest : ℤ × TxAssets) (txOut : TxOut) : RuleM (ℤ × TxAssets) := do
  let assets ← orError (lib.split rest.2 txOut.assets) .badFees
  return (addInt64 rest.1 txOut.value, assets)

end Inputs

section Block

variable (p : ChainParams) (v : AnchorVerifier) (ctx : AnchorContext) (lib : AssetLib)
  (rules : BlockRules)

def checkTransactionInputs (tx : Tx) (isNew : Bool) (txHeight : ℤ) (view : UtxoViewpoint) :
    RuleM (ℤ × TxAssets) :=
  if isCoinBase tx then .ok (0, [])
  else if isAnchorTx tx then do
    let _ ← (checkAnchorTxValid v ctx lib rules tx isNew (p.posV2Active txHeight)
      (p.nativeAssetsActive txHeight)).mapError .anchorTxVerifyFailed
    return (0, [])
  else do
    checkTransactionAssetBindings lib tx view
    let (totalSatoshiIn, totalInTxAssets) ←
      tx.txIn.foldlM (addInput lib p.coinbaseMaturity txHeight view) (0, [])
    let (totalSatoshiOut, feeTxAssets) ← tx.txOut.foldlM (takeOutput lib) (0, totalInTxAssets)
    require (decide (totalSatoshiOut ≤ totalSatoshiIn)) .spendTooHigh
    require (rules.checkContractBaseGasFee tx feeTxAssets txHeight) .badFees
    return (totalSatoshiIn - totalSatoshiOut, feeTxAssets)

def checkCoinbaseAssetBindings (actual expected : TxAssets) : Bool :=
  actual.all fun a =>
    match lib.find expected a.name with
    | none => false
    | some original => original.bindingSat == a.bindingSat

def addCoinbaseOutput (expectedFeeAssets : TxAssets) (sum : ℤ × TxAssets) (txOut : TxOut) :
    RuleM (ℤ × TxAssets) := do
  require (checkCoinbaseAssetBindings lib txOut.assets expectedFeeAssets) .badCoinbaseValue
  let assets ← (lib.merge sum.2 txOut.assets).mapError fun _ => .badCoinbaseValue
  return (addInt64 sum.1 txOut.value, assets)

def checkCoinbaseFees (coinbaseTx : Tx) (expectedSatoshiOut : ℤ) (expectedFeeAssets : TxAssets) :
    RuleM Unit := do
  let (totalSatoshiOut, totalAssetOut) ←
    coinbaseTx.txOut.foldlM (addCoinbaseOutput lib expectedFeeAssets) (0, [])
  require (decide (totalSatoshiOut ≤ expectedSatoshiOut)) .badCoinbaseValue
  let _ ← orError (lib.split expectedFeeAssets totalAssetOut) .badCoinbaseValue
  return ()

def isBIP0030Node (block : Block) : Bool :=
  (block.height == 91842 &&
      block.hash == 0x00000000000a4d0a398161ffc163c503763b1f4360639393e0e4c8e300e0caec) ||
    (block.height == 91880 &&
      block.hash == 0x00000000000743f190a18c5577a3c2d2a1f610ae9601ac046a38084ccb7cd721)

def ownOutPoints (block : Block) : List OutPoint :=
  block.transactions.flatMap fun tx => tx.txOut.zipIdx.map fun o => tx.outPoint o.2

def checkBIP0030 (read : ReadEntry) (view : UtxoViewpoint) (block : Block) : RuleM UtxoViewpoint :=
  let view := view.fetchUtxos read (ownOutPoints block)
  match (ownOutPoints block).find? fun op => (view.unspentMap op).isSome with
  | some op => .error (.overwriteTx op)
  | none => .ok view

def baseSubsidy : ℤ := 0

def calcBlockSubsidy (height : ℤ) : ℤ :=
  if p.subsidyReductionInterval = 0 then baseSubsidy
  else baseSubsidy >>> (height / p.subsidyReductionInterval).toNat

/-- The loop over the transactions: the fees so far, and the view with the spent outputs. -/
structure BlockScan where
  totalFees : ℤ
  totalFeeAssets : TxAssets
  connected : ViewSpend

def checkConnectTx (height : ℤ) (scan : BlockScan) (tx : Tx) : RuleM BlockScan := do
  let (txFee, feeAssets) ← checkTransactionInputs p v ctx lib rules tx false height scan.connected.1
  let totalFees := addInt64 scan.totalFees txFee
  let totalFeeAssets ← (lib.merge scan.totalFeeAssets feeAssets).mapError fun _ => .badFees
  require (decide (scan.totalFees ≤ totalFees)) .badFees
  let connected ← (UtxoViewpoint.connectTransaction height scan.connected tx).mapError .view
  return ⟨totalFees, totalFeeAssets, connected⟩

def enforcesBIP0030 (block : Block) : Bool :=
  !isBIP0030Node block && decide (block.height < p.bip0034Height)

def checkConnectBlockFor (bucket : AnchorBucket) (read : ReadEntry) (view : UtxoViewpoint)
    (block : Block) (stxos : List SpentTxOut) : RuleM ViewSpend := do
  require (block.hash != p.genesisHash) .genesisBlock
  require (view.bestHash == block.prevBlock) .inconsistentView
  let view ← cond (enforcesBIP0030 p block) (checkBIP0030 read view block) (.ok view)
  let view := view.fetchInputUtxos read block
  require (rules.validateContractBlock block view) .contract
  (checkAnchorTxsUnique p v ctx bucket block).mapError .anchorTxVerifyFailed
  require (rules.checkSigOps block view) .tooManySigOps
  let scan ← block.transactions.foldlM (checkConnectTx p v ctx lib rules block.height)
    ⟨0, [], (view, stxos)⟩
  -- the sanity check of a block has made sure that there is a first transaction
  let coinbaseTx ← orError block.transactions.head? .badCoinbaseValue
  checkCoinbaseFees lib coinbaseTx (addInt64 (calcBlockSubsidy p block.height) scan.totalFees)
    scan.totalFeeAssets
  require (rules.checkScripts block scan.connected.1) .script
  return ({ scan.connected.1 with bestHash := block.hash }, scan.connected.2)

end Block

end SatoshiNet.Chain
