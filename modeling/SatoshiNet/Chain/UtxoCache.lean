import SatoshiNet.Lib.Run
import SatoshiNet.Chain.MapSlice
import SatoshiNet.Chain.UtxoView

/-!
The write-back cache of the unspent output set.

Spent entries stay as tombstones until they are flushed, except that an entry marked fresh is
dropped when it is spent.  The cache is compared with a plain map over every interleaving of its
operations.
-/

namespace SatoshiNet.Chain

open Lib Wire List Option Function

structure AnchorTxInfo where
  lockedUtxo : Bytes
  witnessScript : Script
  value : ℤ
  anchorTxid : Bytes
deriving DecidableEq

structure UtxoCache where
  cachedEntries : MapSlice OutPoint (Option UtxoEntry)
  db : Coins
  lastFlushHash : Hash

abbrev CacheSpend := (UtxoCache × List SpentTxOut) × Option (List AnchorTxInfo)

/-- The capacity of a map made when the others are full, from the memory that is left. -/
abbrev Room := MapSlice OutPoint (Option UtxoEntry) → ℤ

inductive FlushMode
  | required | periodic | ifNeeded

def dbFetchUtxoEntry (stored : Option SpentTxOut) : Option UtxoEntry :=
  stored.map fun r => ⟨r.amount, r.assets, r.pkScript, r.height, { coinBase := r.isCoinBase }⟩

@[simp] theorem unspent_dbFetchUtxoEntry (stored) : unspent (dbFetchUtxoEntry stored) = stored := by
  cases stored <;> rfl

def writeBack (entry : Option UtxoEntry) (stored : Option SpentTxOut) : Option SpentTxOut :=
  match entry with
  | none => none
  | some entry =>
    if entry.packedFlags.spent then none
    else if !entry.packedFlags.modified then stored
    else some entry.stxo

namespace UtxoCache

section Model

variable (room : Room) (s : UtxoCache)

def putEntry (outpoint : OutPoint) (entry : Option UtxoEntry) : UtxoCache :=
  { s with cachedEntries := s.cachedEntries.put outpoint entry (room s.cachedEntries) }

def fetchEntries (outpoints : List OutPoint) : List (Option UtxoEntry) × UtxoCache :=
  let missingOps := outpoints.filter fun op => (s.cachedEntries.get op).isNone
  (outpoints.map fun op => (s.cachedEntries.get op).getD (dbFetchUtxoEntry (s.db op)),
    missingOps.foldl (fun t op => putEntry room t op (dbFetchUtxoEntry (s.db op))) s)

def addTxOut (outpoint : OutPoint) (txOut : TxOut) (isCoinBase : Bool)
    (blockHeight : ℤ) : UtxoCache :=
  if isUnspendable txOut.pkScript then s
  else
    putEntry room s outpoint (some
      { amount := txOut.value
        txAssets := txOut.assets
        pkScript := txOut.pkScript
        blockHeight := blockHeight
        packedFlags := { fresh := true, modified := true, coinBase := isCoinBase } })

def addTxOuts (tx : Tx) (blockHeight : ℤ) : UtxoCache :=
  tx.txOut.zipIdx.foldl
    (fun s p => addTxOut room s (tx.outPoint p.2) p.1 (isCoinBase tx) blockHeight) s

def addTxIn (state : UtxoCache × List SpentTxOut) (txIn : TxIn) :
    UtxoM (UtxoCache × List SpentTxOut) :=
  match fetchEntries room state.1 [txIn.previousOutPoint] with
  | ([some entry], s) =>
    .ok (if entry.packedFlags.fresh then
        { s with cachedEntries := s.cachedEntries.delete txIn.previousOutPoint }
      else putEntry room s txIn.previousOutPoint (some entry.spend), state.2 ++ [entry.stxo])
  | _ => .error (.missingInput txIn.previousOutPoint)

section

variable (lockedTxInfo : Tx → UtxoM AnchorTxInfo) (state : CacheSpend)

/-- `lockedTxInfo` reads the locked output an anchor refers to; it is only asked when the caller
wants the anchors collected. -/
def addTxIns (tx : Tx) : UtxoM CacheSpend :=
  if !transactionConsumesSpendJournal tx (isCoinBase tx) then
    if !isAnchorTx tx then .ok state
    else
      match state.2 with
      | none => .ok state
      | some anchorTxInfos => do
        let info ← lockedTxInfo tx
        return (state.1, some (anchorTxInfos ++ [info]))
  else do
    let spent ← tx.txIn.foldlM (addTxIn room) state.1
    return (spent, state.2)

def connectTransaction (blockHeight : ℤ) (state : CacheSpend) (tx : Tx) : UtxoM CacheSpend := do
  let ((s, stxos), anchorTxInfos) ← addTxIns room lockedTxInfo state tx
  return ((addTxOuts room s tx blockHeight, stxos), anchorTxInfos)

def connectTransactions (block : Block) (state : CacheSpend) : UtxoM CacheSpend :=
  block.transactions.foldlM (connectTransaction room lockedTxInfo block.height) state

end

end Model

def writeCache (s : UtxoCache) (bestHash : Hash) : UtxoCache :=
  { cachedEntries := s.cachedEntries.deleteMaps
    db := s.cachedEntries.entries.foldl
      (fun db e => update db e.1 (writeBack e.2 (db e.1))) s.db
    lastFlushHash := bestHash }

/-- `overdue` says that the periodic interval has passed, `full` that the memory in use has
reached its limit. -/
def flush (s : UtxoCache) (mode : FlushMode) (bestHash : Hash) (overdue full : Bool) : UtxoCache :=
  match mode with
  | .required => s.writeCache bestHash
  | .ifNeeded =>
    if bestHash = s.lastFlushHash then s else if full then s.writeCache bestHash else s
  | .periodic => if overdue || full then s.writeCache bestHash else s

/-! ### The cache stands for a plain map -/

def read (s : UtxoCache) (outpoint : OutPoint) : Option SpentTxOut :=
  unspent ((s.cachedEntries.get outpoint).getD (dbFetchUtxoEntry (s.db outpoint)))

/-- Reading gives the plain map, and an entry that was not modified is the stored one. -/
structure Represents (s : UtxoCache) (m : Coins) : Prop where
  read_eq : ∀ outpoint, s.read outpoint = m outpoint
  clean : ∀ outpoint entry, s.cachedEntries.get outpoint = some (some entry) →
    entry.packedFlags.modified = false → entry.packedFlags.spent = false →
    s.db outpoint = some entry.stxo

variable {room : Room}

theorem get_putEntry (s outpoint key) (entry) :
    (putEntry room s outpoint entry).cachedEntries.get key =
      if key = outpoint then some entry else s.cachedEntries.get key :=
  MapSlice.get_put _ _ _ _ _

variable {m : Coins} {s : UtxoCache}

section

variable (h : s.Represents m)
include h

theorem Represents.putEntry (outpoint) (entry)
    (hclean : ∀ e, entry = some e → e.packedFlags.modified = false → e.packedFlags.spent = false →
      s.db outpoint = some e.stxo) :
    (putEntry room s outpoint entry).Represents (update m outpoint (unspent entry)) := by
  constructor
  · intro key
    rw [read, get_putEntry]
    by_cases hkey : key = outpoint
    · subst hkey
      rw [if_pos rfl, getD_some, update_self]
    · rw [if_neg hkey, update_of_ne hkey]
      exact h.read_eq key
  · intro key e hget
    rw [get_putEntry] at hget
    split_ifs at hget with hkey
    · subst hkey
      exact hclean e (some.inj hget)
    · exact h.clean key e hget

theorem Represents.load (outpoint) (hm : m outpoint = s.db outpoint) :
    (UtxoCache.putEntry room s outpoint (dbFetchUtxoEntry (s.db outpoint))).Represents m := by
  have hsame : update m outpoint (unspent (dbFetchUtxoEntry (s.db outpoint))) = m := by
    rw [unspent_dbFetchUtxoEntry, ← hm, update_eq_self]
  rw [← hsame]
  refine h.putEntry outpoint _ fun e he _ _ => ?_
  cases hdb : s.db outpoint with
  | none => simp only [dbFetchUtxoEntry, hdb, map_none, reduceCtorEq] at he
  | some r =>
    simp only [dbFetchUtxoEntry, hdb, map_some, some.injEq] at he
    subst he
    rfl

omit h in
theorem fetchEntries_read (s) (outpoints) :
    (fetchEntries room s outpoints).1.map unspent = outpoints.map s.read := by
  simp only [fetchEntries, List.map_map]
  rfl

omit h in
theorem fetchEntries_invariant {P : UtxoCache → Prop} (outpoints) (h : P s)
    (hload : ∀ t op, P t → t.db = s.db → s.cachedEntries.get op = none → P (UtxoCache.putEntry room
      t op (dbFetchUtxoEntry (s.db op)))) : P (fetchEntries room s outpoints).2 := by
  refine (foldlRecOn (motive := fun t => P t ∧ t.db = s.db) _ _ ⟨h, rfl⟩
    fun t ht op hop => ⟨hload t op ht.1 ht.2 ?_, ht.2⟩).1
  exact isNone_iff_eq_none.mp (mem_filter.mp hop).2

theorem Represents.fetchEntries (outpoints) : (fetchEntries room s outpoints).2.Represents m := by
  refine fetchEntries_invariant (P := (Represents · m)) outpoints h fun t op ht hdb hnone => ?_
  rw [← hdb]
  refine ht.load op ?_
  rw [← h.read_eq op, read, hnone, getD_none, unspent_dbFetchUtxoEntry, hdb]

theorem Represents.addTxOut (outpoint) (txOut isCoinBase) (blockHeight : ℤ)
    (hspend : isUnspendable txOut.pkScript = false) :
    (addTxOut room s outpoint txOut isCoinBase blockHeight).Represents
      (update m outpoint (some (TxOut.coin txOut isCoinBase blockHeight))) := by
  simp only [UtxoCache.addTxOut, hspend, Bool.false_eq_true, if_false]
  refine h.putEntry outpoint _ fun e he hmod => ?_
  cases he
  cases hmod

theorem Represents.addTxOuts (tx : Tx) (blockHeight : ℤ) :
    (addTxOuts room s tx blockHeight).Represents (applyAll m (outputEdits tx blockHeight)) := by
  refine foldl_outputEdits (R := fun t es => Represents t (applyAll m es))
    (fun _ _ hp => by rw [UtxoCache.addTxOut, if_pos hp]) (fun t es p hp ht => ?_) [] h
  rw [applyAll_append]
  exact ht.addTxOut _ p.1 (isCoinBase tx) blockHeight hp

/-! ### Writing back -/

omit h in
theorem writeBack_idem (entry stored) :
    writeBack entry (writeBack entry stored) = writeBack entry stored := by
  cases entry with
  | none => rfl
  | some e =>
    simp only [writeBack]
    split_ifs <;> rfl

omit h in
theorem writeCache_db (s : UtxoCache) (bestHash : Hash) (outpoint : OutPoint) :
    (s.writeCache bestHash).db outpoint = match s.cachedEntries.get outpoint with
      | none => s.db outpoint
      | some entry => writeBack entry (s.db outpoint) := by
  -- entries of one outpoint agree, so a second visit writes what the first one wrote
  have hall : ∀ (l : List (OutPoint × Option UtxoEntry)) (db : Coins),
      (∀ e ∈ l, s.cachedEntries.get e.1 = some e.2) →
      l.foldl (fun db e => update db e.1 (writeBack e.2 (db e.1))) db outpoint =
        if outpoint ∈ l.map Prod.fst then
          match s.cachedEntries.get outpoint with
          | none => db outpoint
          | some entry => writeBack entry (db outpoint)
        else db outpoint := by
    intro l
    induction l with
    | nil =>
      intro db _
      simp
    | cons e l ih =>
      intro db hl
      have he := hl e mem_cons_self
      rw [foldl_cons, ih _ fun e' he' => hl e' (mem_cons_of_mem _ he'), map_cons]
      by_cases hop : outpoint = e.1
      · subst hop
        simp [he, writeBack_idem]
      · simp only [update_of_ne hop, mem_cons, hop, false_or]
  have hfold := hall s.cachedEntries.entries s.db fun e he => MapSlice.mem_entries.mp he
  refine Eq.trans hfold ?_
  cases hget : s.cachedEntries.get outpoint with
  | none => simp
  | some entry =>
    have hmem : outpoint ∈ s.cachedEntries.entries.map Prod.fst :=
      mem_map.mpr ⟨_, MapSlice.mem_entries.mpr hget, rfl⟩
    simp [hmem]

theorem Represents.writeCache_db_eq (bestHash : Hash) : (s.writeCache bestHash).db = m := by
  funext outpoint
  rw [writeCache_db, ← h.read_eq outpoint, read]
  cases hget : s.cachedEntries.get outpoint with
  | none => simp
  | some entry =>
    cases entry with
    | none => rfl
    | some e =>
      simp only [writeBack, getD_some, unspent]
      split_ifs with hspent hmod
      · rfl
      · exact h.clean outpoint e hget (by simpa using hmod) (by simpa using hspent)
      · rfl

theorem Represents.writeCache (bestHash) : (s.writeCache bestHash).Represents m := by
  have hget : ∀ op, (s.writeCache bestHash).cachedEntries.get op = none :=
    fun op => MapSlice.get_deleteMaps s.cachedEntries op
  constructor
  · intro op
    rw [read, hget, getD_none, unspent_dbFetchUtxoEntry, h.writeCache_db_eq]
  · intro op e he
    rw [hget] at he
    cases he

theorem Represents.flush (mode) (bestHash overdue full) :
    (s.flush mode bestHash overdue full).Represents m := by
  cases mode with
  | required => exact h.writeCache bestHash
  | periodic =>
    simp only [UtxoCache.flush]
    split_ifs
    · exact h.writeCache bestHash
    · exact h
  | ifNeeded =>
    simp only [UtxoCache.flush]
    split_ifs
    · exact h
    · exact h.writeCache bestHash
    · exact h

end

/-! ### Spending through the cache -/

/-- The cached entry is marked fresh although the database holds a record of the outpoint. -/
def freshOverStored (s : UtxoCache) (outpoint : OutPoint) : Bool :=
  match s.cachedEntries.get outpoint with
  | some (some entry) => entry.packedFlags.fresh && (s.db outpoint).isSome
  | _ => false

variable (room) in
theorem fetchEntries_single (s outpoint) : (fetchEntries room s [outpoint]).1 =
        [(s.cachedEntries.get outpoint).getD (dbFetchUtxoEntry (s.db outpoint))] ∧
      (fetchEntries room s [outpoint]).2.db = s.db ∧
      ∀ key, (fetchEntries room s [outpoint]).2.cachedEntries.get key = if key = outpoint then
          some ((s.cachedEntries.get outpoint).getD (dbFetchUtxoEntry (s.db outpoint)))
        else s.cachedEntries.get key := by
  cases hget : s.cachedEntries.get outpoint with
  | none =>
    simp only [fetchEntries, map_cons, map_nil, filter_cons, filter_nil, hget,
      isNone_none, if_true, foldl_cons, foldl_nil, getD_none, get_putEntry]
    exact ⟨trivial, rfl, fun key => trivial⟩
  | some entry =>
    simp only [fetchEntries, map_cons, map_nil, filter_cons, filter_nil, hget,
      isNone_some, Bool.false_eq_true, if_false, foldl_nil, getD_some]
    refine ⟨trivial, trivial, fun key => ?_⟩
    split_ifs with hkey
    · rw [hkey, hget]
    · rfl

/-- Spending a present output: the journal gets its contents, the other outpoints and the database
keep theirs, and the outpoint is dropped from the cache or left there as a tombstone. -/
structure SpendsTo (s : UtxoCache) (outpoints : List OutPoint) (s' : UtxoCache) : Prop where
  db_eq : s'.db = s.db
  get_of_not_mem : ∀ key, key ∉ outpoints → s'.cachedEntries.get key = s.cachedEntries.get key
  read_of_mem : ∀ op ∈ outpoints, s'.read op = if s.freshOverStored op then s.db op else none
  spent_of_mem : ∀ op ∈ outpoints, ∀ entry,
    s'.cachedEntries.get op = some (some entry) → entry.packedFlags.spent = true

variable (room) in
theorem addTxIn_spec (s) (stxos) (txIn) {coin} (hcoin : s.read txIn.previousOutPoint = some coin) :
    ∃ s', addTxIn room (s, stxos) txIn = .ok (s', stxos ++ [coin]) ∧
      s.SpendsTo [txIn.previousOutPoint] s' := by
  obtain ⟨hfst, hdb, hget⟩ := fetchEntries_single room s txIn.previousOutPoint
  obtain ⟨entry, hentry, hunspent, rfl⟩ := unspent_eq_some hcoin
  rw [hentry] at hfst hget
  have hpair : fetchEntries room s [txIn.previousOutPoint] =
      ([some entry], (fetchEntries room s [txIn.previousOutPoint]).2) := Prod.ext hfst rfl
  generalize (fetchEntries room s [txIn.previousOutPoint]).2 = t at hdb hget hpair
  cases hfresh : entry.packedFlags.fresh with
  | true =>
    -- only an entry made by `addTxOut` is fresh, so it was cached
    have hcached : s.cachedEntries.get txIn.previousOutPoint = some (some entry) := by
      cases hc : s.cachedEntries.get txIn.previousOutPoint with
      | some found => rw [hc, getD_some] at hentry; rw [hentry]
      | none =>
        rw [hc, getD_none] at hentry
        cases hr : s.db txIn.previousOutPoint with
        | none => simp only [dbFetchUtxoEntry, hr, map_none, reduceCtorEq] at hentry
        | some r =>
          simp only [dbFetchUtxoEntry, hr, map_some, some.injEq] at hentry
          subst hentry
          cases hfresh
    refine ⟨{ t with cachedEntries := t.cachedEntries.delete txIn.previousOutPoint }, ?_, hdb,
      ?_, ?_, ?_⟩
    · simp [addTxIn, hpair, hfresh]
    · intro key hkey
      have hne : key ≠ txIn.previousOutPoint := fun h => hkey (mem_singleton.mpr h)
      rw [MapSlice.get_delete, if_neg hne, hget, if_neg hne]
    · intro op hop
      obtain rfl := mem_singleton.mp hop
      simp only [read, MapSlice.get_delete, if_true, getD_none, unspent_dbFetchUtxoEntry,
        hdb, freshOverStored, hcached, hfresh, Bool.true_and]
      cases s.db txIn.previousOutPoint <;> rfl
    · intro op hop e he
      obtain rfl := mem_singleton.mp hop
      rw [MapSlice.get_delete, if_pos rfl] at he
      cases he
  | false =>
    refine ⟨putEntry room t txIn.previousOutPoint (some entry.spend), ?_, hdb, ?_, ?_, ?_⟩
    · simp [addTxIn, hpair, hfresh]
    · intro key hkey
      have hne : key ≠ txIn.previousOutPoint := fun h => hkey (mem_singleton.mpr h)
      rw [get_putEntry, if_neg hne, hget, if_neg hne]
    · intro op hop
      obtain rfl := mem_singleton.mp hop
      have hsafe : s.freshOverStored txIn.previousOutPoint = false := by
        unfold freshOverStored
        split
        · rename_i found hfound
          rw [hfound, getD_some, some.injEq] at hentry
          rw [hentry, hfresh, Bool.false_and]
        · rfl
      simp [read, get_putEntry, hsafe]
    · intro op hop e he
      obtain rfl := mem_singleton.mp hop
      rw [get_putEntry, if_pos rfl, some.injEq, some.injEq] at he
      rw [← he, UtxoEntry.spend_spent]

variable {ops : List OutPoint} {s' : UtxoCache}

theorem read_congr {key} (hdb : s'.db = s.db)
    (hget : s'.cachedEntries.get key = s.cachedEntries.get key) : s'.read key = s.read key := by
  rw [read, read, hdb, hget]

theorem SpendsTo.cons {s₁ s₂ op} (h₁ : s.SpendsTo [op] s₁) (h₂ : s₁.SpendsTo ops s₂)
    (hop : op ∉ ops) : s.SpendsTo (op :: ops) s₂ := by
  have hget : ∀ key ∈ ops, s₁.cachedEntries.get key = s.cachedEntries.get key := fun key hkey =>
    h₁.get_of_not_mem key fun h => hop (mem_singleton.mp h ▸ hkey)
  refine ⟨h₂.db_eq.trans h₁.db_eq, ?_, ?_, ?_⟩
  · intro key hkey
    rw [mem_cons, not_or] at hkey
    rw [h₂.get_of_not_mem key hkey.2, h₁.get_of_not_mem key fun h => hkey.1 (mem_singleton.mp h)]
  · intro key hkey
    rcases mem_cons.mp hkey with rfl | hkey
    · rw [read_congr h₂.db_eq (h₂.get_of_not_mem key hop), h₁.read_of_mem key mem_cons_self]
    · rw [h₂.read_of_mem key hkey, freshOverStored, freshOverStored, hget key hkey, h₁.db_eq]
  · intro key hkey entry hentry
    rcases mem_cons.mp hkey with rfl | hkey
    · rw [h₂.get_of_not_mem key hop] at hentry
      exact h₁.spent_of_mem key mem_cons_self entry hentry
    · exact h₂.spent_of_mem key hkey entry hentry

variable (room) in
theorem foldlM_addTxIn_spec (l : List TxIn) (s : UtxoCache) (stxos m)
    (hread : ∀ op ∈ l.map (·.previousOutPoint), s.read op = m op)
    (hfit : FitsAll m ((l.map (·.previousOutPoint)).map .remove)) :
    ∃ s', l.foldlM (addTxIn room) (s, stxos) =
        .ok (s', stxos ++ journalAll m ((l.map (·.previousOutPoint)).map .remove)) ∧
      s.SpendsTo (l.map (·.previousOutPoint)) s' := by
  induction l generalizing s stxos m with
  | nil =>
    refine ⟨s, ?_, rfl, fun _ _ => rfl, ?_, ?_⟩
    · simp only [map_nil, journalAll, append_nil]
      rfl
    · exact forall_mem_nil _
    · exact forall_mem_nil _
  | cons txIn l ih =>
    have hop : txIn.previousOutPoint ∉ l.map (·.previousOutPoint) := not_mem_of_fitsAll_removes hfit
    obtain ⟨coin, hcoin⟩ := isSome_iff_exists.mp hfit.1
    obtain ⟨s₁, hs₁, hspend₁⟩ := addTxIn_spec room s stxos txIn
      ((hread _ mem_cons_self).trans hcoin)
    have hread₁ : ∀ op ∈ l.map (·.previousOutPoint),
        s₁.read op = update m txIn.previousOutPoint none op := by
      intro op hmem
      have hne : op ≠ txIn.previousOutPoint := fun h => hop (h ▸ hmem)
      rw [update_of_ne hne, ← hread op (mem_cons_of_mem _ hmem)]
      exact read_congr hspend₁.db_eq
        (hspend₁.get_of_not_mem op fun h => hne (mem_singleton.mp h))
    obtain ⟨s₂, hs₂, hspend₂⟩ := ih s₁ (stxos ++ [coin]) _ hread₁ hfit.2
    refine ⟨s₂, ?_, hspend₁.cons hspend₂ hop⟩
    rw [foldlM_cons_eq_ok]
    refine ⟨_, hs₁, hs₂.trans ?_⟩
    simp only [map_cons, journalAll, Edit.taken, hcoin, toList_some, Edit.apply, append_assoc]

theorem Represents.spendsTo (h : s.Represents m) (hspend : s.SpendsTo ops s')
    (hsafe : ∀ op ∈ ops, s.freshOverStored op = false) :
    s'.Represents (applyAll m (ops.map .remove)) := by
  constructor
  · intro op
    rw [applyAll_removes]
    split_ifs with hop
    · rw [hspend.read_of_mem op hop, hsafe op hop]
      rfl
    · rw [read_congr hspend.db_eq (hspend.get_of_not_mem op hop), h.read_eq]
  · intro op entry hentry hmod hspent
    by_cases hop : op ∈ ops
    · rw [hspend.spent_of_mem op hop entry hentry] at hspent
      cases hspent
    · rw [hspend.get_of_not_mem op hop] at hentry
      rw [hspend.db_eq]
      exact h.clean op entry hentry hmod hspent

/-! ### Interleavings -/

inductive Op
  | fetchEntries (outpoints : List OutPoint)
  | addTxOuts (tx : Tx) (blockHeight : ℤ)
  | addTxIns (tx : Tx)
  | flush (mode : FlushMode) (bestHash : Hash) (overdue full : Bool)
  | writeCache (bestHash : Hash)

def Op.edits : Op → CoinEdits
  | addTxOuts tx blockHeight => outputEdits tx blockHeight
  | addTxIns tx => (consumedInputs tx).map .remove
  | _ => []

variable (room) (lockedTxInfo : Tx → UtxoM AnchorTxInfo)

def apply (s : UtxoCache) : Op → UtxoM UtxoCache
  | .fetchEntries outpoints => .ok (fetchEntries room s outpoints).2
  | .addTxOuts tx blockHeight => .ok (addTxOuts room s tx blockHeight)
  | .addTxIns tx => (addTxIns room lockedTxInfo ((s, []), none) tx).map (·.1.1)
  | .flush mode bestHash overdue full => .ok (s.flush mode bestHash overdue full)
  | .writeCache bestHash => .ok (s.writeCache bestHash)

def step (s : UtxoCache × Coins) (op : Op) : UtxoM (UtxoCache × Coins) := do
  let cache ← apply room lockedTxInfo s.1 op
  return (cache, applyAll s.2 op.edits)

/-- Outputs that are spent are in the plain map, outputs that are created are not. -/
def Admissible (s : UtxoCache × Coins) (op : Op) : Prop :=
  FitsAll s.2 op.edits

instance (s : UtxoCache × Coins) (op : Op) : Decidable (Admissible s op) :=
  decidableFitsAll _ _

/-- No input spends an entry that is fresh while the database still has a record of it. -/
def SpendsNoFreshOverStored (s : UtxoCache × Coins) : Op → Prop
  | .addTxIns tx => ∀ op ∈ consumedInputs tx, s.1.freshOverStored op = false
  | _ => True

instance (s : UtxoCache × Coins) :
    (op : Op) → Decidable (SpendsNoFreshOverStored s op)
  | .addTxIns tx =>
    inferInstanceAs (Decidable (∀ op ∈ consumedInputs tx, s.1.freshOverStored op = false))
  | .fetchEntries _ | .addTxOuts _ _ | .flush _ _ _ _ | .writeCache _ => isTrue trivial

/-- Reading any outpoint through the cache, or from the database after a flush, gives what the
plain map says. -/
def ReadsAsPlain (s : UtxoCache × Coins) : Prop :=
  (∀ op, (fetchEntries room s.1 [op]).1.map unspent = [s.2 op]) ∧
    ∀ bestHash, (s.1.writeCache bestHash).db = s.2

def new (maxEntries : ℤ) (db : Coins) (lastFlushHash : Hash) : UtxoCache :=
  ⟨MapSlice.new maxEntries, db, lastFlushHash⟩

theorem represents_new (maxEntries : ℤ) (db) (lastFlushHash) :
    (new maxEntries db lastFlushHash).Represents db := by
  have hget : ∀ op, (new maxEntries db lastFlushHash).cachedEntries.get op = none :=
    fun op => MapSlice.get_new maxEntries op
  constructor
  · intro op
    rw [read, hget, getD_none, unspent_dbFetchUtxoEntry]
    rfl
  · intro op entry hentry
    rw [hget] at hentry
    cases hentry

theorem Represents.readsAsPlain {s} (h : s.1.Represents s.2) : ReadsAsPlain room s := by
  refine ⟨fun op => ?_, fun bestHash => h.writeCache_db_eq bestHash⟩
  rw [fetchEntries_read, map_singleton, h.read_eq]

theorem addTxIns_spendsTo (h : s.Represents m) (tx : Tx)
    (hfit : FitsAll m ((consumedInputs tx).map .remove)) :
    ∃ s', apply room lockedTxInfo s (.addTxIns tx) = .ok s' ∧ s.SpendsTo (consumedInputs tx) s' := by
  rw [consumedInputs_eq] at hfit ⊢
  obtain ⟨s', hs', hspend⟩ := foldlM_addTxIn_spec room (spendingInputs tx) s [] m
    (fun op _ => h.read_eq op) hfit
  refine ⟨s', ?_, hspend⟩
  rw [spendingInputs] at hs'
  simp only [apply, addTxIns]
  cases hc : transactionConsumesSpendJournal tx (isCoinBase tx) <;> rw [hc] at hs'
  · cases hs'
    simp only [Bool.not_false, if_true, ite_self]
    rfl
  · rw [if_pos rfl] at hs'
    simp only [Bool.not_true, Bool.false_eq_true, if_false, hs']
    rfl

theorem step_keeps (s) (op : Op) (h : s.1.Represents s.2) (hadm : Admissible s op)
    (hsafe : SpendsNoFreshOverStored s op) :
    ∃ s', step room lockedTxInfo s op = .ok s' ∧ s'.1.Represents s'.2 := by
  cases op with
  | fetchEntries outpoints => exact ⟨_, rfl, h.fetchEntries outpoints⟩
  | addTxOuts tx blockHeight => exact ⟨_, rfl, h.addTxOuts tx blockHeight⟩
  | addTxIns tx =>
    obtain ⟨s', hs', hspend⟩ := addTxIns_spendsTo room lockedTxInfo h tx hadm
    refine ⟨(s', _), ?_, h.spendsTo hspend hsafe⟩
    simp only [step, hs']
    rfl
  | flush mode bestHash overdue full => exact ⟨_, rfl, h.flush mode bestHash overdue full⟩
  | writeCache bestHash => exact ⟨_, rfl, h.writeCache bestHash⟩

theorem step_breaks (s) (op : Op) (s') (h : s.1.Represents s.2) (hadm : Admissible s op)
    (hstep : step room lockedTxInfo s op = .ok s') (hplain : ReadsAsPlain room s') :
    SpendsNoFreshOverStored s op := by
  cases op with
  | addTxIns tx =>
    intro outpoint hop
    obtain ⟨t, ht, hspend⟩ := addTxIns_spendsTo room lockedTxInfo h tx hadm
    simp only [step, ht] at hstep
    cases hstep
    -- the spent outpoint must read as absent, but a dropped fresh entry uncovers the stored one
    have hread := hplain.1 outpoint
    rw [fetchEntries_read, map_singleton, cons.injEq] at hread
    have hnone : applyAll s.2 ((consumedInputs tx).map .remove) outpoint = none := by
      rw [applyAll_removes, if_pos hop]
    have hmem := (hspend.read_of_mem outpoint hop).symm.trans (hread.1.trans hnone)
    cases hfresh : s.1.freshOverStored outpoint with
    | false => rfl
    | true =>
      rw [hfresh, if_pos rfl] at hmem
      simp only [freshOverStored, hmem, isSome_none, Bool.and_false] at hfresh
      split at hfresh <;> cases hfresh
  | _ => trivial

/-- Over every interleaving of its operations, the cache reads as the plain map in every state
exactly when no input spends an entry that is fresh while the database still has a record of it. -/
theorem always_readsAsPlain_iff (maxEntries : ℤ) (db : Coins) (lastFlushHash : Hash) (ops : List Op)
    (hadm : StepsMeet (step room lockedTxInfo) Admissible (new maxEntries db lastFlushHash, db)
      ops) :
    Always (step room lockedTxInfo) (ReadsAsPlain room) (new maxEntries db lastFlushHash, db) ops ↔
      StepsMeet (step room lockedTxInfo) SpendsNoFreshOverStored
        (new maxEntries db lastFlushHash, db) ops :=
  always_iff_stepsMeet (I := fun s => s.1.Represents s.2) (fun _ h => h.readsAsPlain room)
    (step_keeps room lockedTxInfo) (step_breaks room lockedTxInfo) _ ops
    (represents_new maxEntries db lastFlushHash) hadm

def sampleAnchor : Tx := ⟨7, [⟨⟨zeroHash, anchorTxOutIndex⟩, []⟩], [⟨5, [], []⟩]⟩

def sampleSpend : Tx := ⟨2, [⟨⟨7, 0⟩, []⟩], []⟩

theorem always_readsAsPlain_iff_sample :
    Always (step (fun _ => 0) fun _ => .error .database) (ReadsAsPlain fun _ => 0)
      (new 1 (fun _ => none) 0, fun _ => none)
      [.addTxOuts sampleAnchor 1, .flush .required 1 false false, .fetchEntries [⟨7, 0⟩],
        .addTxIns sampleSpend, .writeCache 2, .addTxOuts sampleAnchor 3, .addTxIns sampleSpend] :=
  (always_readsAsPlain_iff (fun _ => 0) (fun _ => .error .database) 1 (fun _ => none) 0 _
    (by decide)).mpr (by decide)

/-- Created, flushed, spent, created again and spent again before the next flush, the output reads
as unspent. -/
theorem spent_output_reads_unspent :
    StepsMeet (step (fun _ => 0) fun _ => .error .database) Admissible
        (new 1 (fun _ => none) 0, fun _ => none)
        [.addTxOuts sampleAnchor 1, .writeCache 1, .addTxIns sampleSpend,
          .addTxOuts sampleAnchor 2, .addTxIns sampleSpend] ∧
      ∃ s, [Op.addTxOuts sampleAnchor 1, .writeCache 1, .addTxIns sampleSpend,
          .addTxOuts sampleAnchor 2, .addTxIns sampleSpend].foldlM
          (step (fun _ => 0) fun _ => .error .database)
          (new 1 (fun _ => none) 0, fun _ => none) = .ok s ∧
        s.2 ⟨7, 0⟩ = none ∧
        (fetchEntries (fun _ => 0) s.1 [⟨7, 0⟩]).1.map unspent = [some ⟨5, [], [], 1, false⟩] :=
  ⟨by decide, _, rfl, by decide, by decide⟩

end UtxoCache

end SatoshiNet.Chain
