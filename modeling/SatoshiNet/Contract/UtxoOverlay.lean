import SatoshiNet.Contract.Funding
import SatoshiNet.Mining.BlockOrder

/-!
The unspent outputs of contracts over a base provider: transactions that are applied spend
outpoints and create outputs, and the provider merges both with what the base has.
-/

namespace SatoshiNet.Contract

open Lib Wire List

inductive OverlayError
  | base (message : Text)
  | contractScript | unknownPrefix
  | negativeValue (vout : ℕ)
  | assetAmount (vout : ℕ)
deriving DecidableEq

abbrev OverlayM := Except OverlayError

def testnetContractHrp : Text := ['t', 'c']

def mainnetContractHrp : Text := ['c', 'a']

/-- Created outputs are kept under the text of the address, which spells the address out. -/
structure ContractUtxoOverlay where
  hrp : Text := testnetContractHrp
  contractType : UInt8 := 0
  base : Option (ContractAddress → OverlayM (List Utxo)) := none
  utxos : ContractAddress → List Utxo := fun _ => []
  spent : List OutPoint := []

def wireOutPointToFramework (p : Wire.OutPoint) : OutPoint :=
  ⟨(hexText 64 p.hash.toNat).map fun b => Char.ofNat b.toNat, p.index⟩

def contractAddressOf (hrp : Text) (pkScript : Script) : OverlayM (Option ContractAddress) := do
  match ← (Mining.parseContractPkScript pkScript).mapError fun _ => .contractScript with
  | none => .ok none
  | some _ =>
    let hrp := (if hrp = [] then testnetContractHrp else hrp).map Char.toLower
    require (hrp = mainnetContractHrp ∨ hrp = testnetContractHrp) .unknownPrefix
    .ok (some ⟨hrp, (pkScript.drop 6).take (pkScript.getD 5 0).toNat⟩)

namespace ContractUtxoOverlay

section Model

variable (lib : AmountLib) (o : ContractUtxoOverlay) (c : ContractAddress) (tx : Tx) (height : ℤ)

/-- The type of a contract is the second byte of its address; type zero stands for all. -/
def serves : Bool :=
  o.contractType = 0 || c.payload.getD 1 0 = o.contractType

def created (c : ContractAddress) (out : TxOut × ℕ) : Utxo :=
  ⟨wireOutPointToFramework (tx.outPoint out.2), c, height, some out.1⟩

def contractUtxo (out : TxOut × ℕ) : OverlayM (Option Utxo) := do
  match ← contractAddressOf o.hrp out.1.pkScript with
  | none => .ok none
  | some c =>
    if o.serves c = false then .ok none
    else do
      require (0 ≤ out.1.value) (.negativeValue out.2)
      require (out.1.assets.all fun a => validateAssetDecimal lib a.amount) (.assetAmount out.2)
      .ok (some (created tx height c out))

def contractUtxosFromTx : OverlayM (List Utxo) := do
  let found ← tx.txOut.zipIdx.mapM (o.contractUtxo lib tx height)
  .ok found.reduceOption

def spends : List OutPoint :=
  tx.txIn.map fun input => wireOutPointToFramework input.previousOutPoint

/-- The inputs are spent also when an output is refused. -/
def applyTx : OverlayM Unit × ContractUtxoOverlay :=
  let spent := o.spent ++ spends tx
  match o.contractUtxosFromTx lib tx height with
  | .error e => (.error e, { o with spent := spent })
  | .ok utxos =>
    (.ok (), { o with
      spent := spent, utxos := fun c => o.utxos c ++ utxos.filter (·.contract = c) })

def unspentAfter (seen : List OutPoint) : List Utxo → List Utxo
  | [] => []
  | u :: rest =>
    if u.outPoint ∈ o.spent ∨ u.outPoint ∈ seen then unspentAfter seen rest
    else u :: unspentAfter (u.outPoint :: seen) rest

def provider : OverlayM (List Utxo) := do
  let base ← o.base.elim (.ok []) (· c)
  .ok (sortUtxosForCanonicalSelection (o.unspentAfter [] (base ++ o.utxos c)))

def payment (out : TxOut × ℕ) : Option Utxo :=
  if contractAddressOf o.hrp out.1.pkScript = .ok (some c) ∧ o.serves c = true then
    some (created tx height c out)
  else none

def payments : List Utxo :=
  tx.txOut.zipIdx.filterMap (o.payment c tx height)

def applyTxs (txs : List (Tx × ℤ)) : OverlayM ContractUtxoOverlay :=
  txs.foldlM (fun o t => let (answer, next) := o.applyTx lib t.1 t.2; answer.map fun _ => next) o

end Model

/-! ### One list without spent or repeated outpoints -/

variable {lib : AmountLib} {o o' : ContractUtxoOverlay} {c : ContractAddress} {tx : Tx}
  {height : ℤ} {utxos : List Utxo} {seen : List OutPoint}

theorem mem_unspentAfter {u} : u ∈ o.unspentAfter seen utxos ↔
    u.outPoint ∉ o.spent ∧ u.outPoint ∉ seen ∧
      utxos.find? (fun v => v.outPoint = u.outPoint) = some u := by
  induction utxos generalizing seen with
  | nil => simp [unspentAfter]
  | cons v rest ih =>
    rw [unspentAfter, find?_cons]
    by_cases hv : v.outPoint = u.outPoint
    · split_ifs with hgone
      · rw [hv] at hgone
        rw [ih]
        tauto
      · rw [hv, not_or] at hgone
        rw [mem_cons, ih]
        simp [hv, hgone.1, hgone.2, eq_comm]
    · have hne : u ≠ v := fun h => hv (h ▸ rfl)
      split
      · simp [ih, hv]
      · simp [ih, hv, hne, Ne.symm hv]

theorem nodup_unspentAfter : ((o.unspentAfter seen utxos).map (·.outPoint)).Nodup := by
  induction utxos generalizing seen with
  | nil => exact nodup_nil
  | cons v rest ih =>
    rw [unspentAfter]
    split
    · exact ih
    · refine nodup_cons.mpr ⟨fun hmem => ?_, ih⟩
      obtain ⟨u, hu, heq⟩ := mem_map.mp hmem
      exact (mem_unspentAfter.mp hu).2.1 (heq ▸ mem_cons_self)

/-! ### The canonical order -/

def canonicalKey (u : Utxo) : ℤ ×ₗ Text ×ₗ ℕ :=
  toLex (u.height, toLex (u.outPoint.txID, u.outPoint.vout.toNat))

theorem less_iff {a b} : a.less b = true ↔ canonicalKey a < canonicalKey b := by
  rw [canonicalKey, canonicalKey, Prod.Lex.toLex_lt_toLex, Prod.Lex.toLex_lt_toLex, Utxo.less]
  by_cases hheight : a.height = b.height
  · by_cases htxid : a.outPoint.txID = b.outPoint.txID
    · simp [hheight, htxid, UInt32.lt_iff_toNat_lt]
    · simp [hheight, htxid]
  · simp [hheight]

theorem less_eq_false_iff {a b} : b.less a = false ↔ canonicalKey a ≤ canonicalKey b := by
  rw [← Bool.not_eq_true, less_iff, not_lt]

theorem outPoint_eq_of_key {a b} (h : canonicalKey a = canonicalKey b) :
    a.outPoint = b.outPoint := by
  obtain ⟨-, hpoint⟩ := Prod.mk.inj h
  obtain ⟨htxid, hvout⟩ := Prod.mk.inj hpoint
  rcases a with ⟨⟨_, _⟩, _⟩
  rcases b with ⟨⟨_, _⟩, _⟩
  cases htxid
  cases UInt32.toNat_inj.mp hvout
  rfl

theorem pairwise_less (h : (utxos.map (·.outPoint)).Nodup) :
    (sortUtxosForCanonicalSelection utxos).Pairwise fun a b => a.less b = true := by
  have hperm : (sortUtxosForCanonicalSelection utxos).Perm utxos := perm_insertionSort _ _
  have hsorted : (sortUtxosForCanonicalSelection utxos).Pairwise fun a b => b.less a = false := by
    have htotal : Std.Total fun a b : Utxo => b.less a = false :=
      ⟨fun a b => by simp only [less_eq_false_iff, le_total]⟩
    have htrans : IsTrans Utxo fun a b => b.less a = false :=
      ⟨fun a b c => by simpa only [less_eq_false_iff] using le_trans⟩
    exact pairwise_insertionSort _ _
  have hdistinct := pairwise_map.mp ((hperm.map (·.outPoint)).nodup_iff.mpr h)
  refine hsorted.imp₂ (fun a b hle hne => ?_) hdistinct
  rw [less_iff]
  exact (less_eq_false_iff.mp hle).lt_of_ne fun heq => hne (outPoint_eq_of_key heq)

theorem sortUtxos_perm {others : List Utxo} (h : utxos.Perm others)
    (hdistinct : (utxos.map (·.outPoint)).Nodup) :
    sortUtxosForCanonicalSelection utxos = sortUtxosForCanonicalSelection others := by
  have hperm : (sortUtxosForCanonicalSelection utxos).Perm (sortUtxosForCanonicalSelection others) :=
    (perm_insertionSort _ _).trans (h.trans (perm_insertionSort _ _).symm)
  refine hperm.eq_of_pairwise (fun a b _ _ hab hba => ?_) (pairwise_less hdistinct)
    (pairwise_less ((h.map _).nodup_iff.mp hdistinct))
  rw [less_iff] at hab hba
  exact absurd hba hab.asymm

/-- The funding of a Result does not depend on the order in which a provider gives its outputs:
nodes that see the same outputs choose the same inputs. -/
theorem selectResultFunding_canonical {view view' : ResultPlanUtxoView}
    (hcontract : view.contract = view'.contract) (hutxos : view.utxos.Perm view'.utxos)
    (hdistinct : (view.utxos.map (·.outPoint)).Nodup) (outputs : Outputs)
    (gasAsset : Text) (gasFee : Decimal) (satoshiFee : ℤ) (mandatory : List OutPoint) :
    selectResultFunding lib view outputs gasAsset gasFee satoshiFee mandatory =
      selectResultFunding lib view' outputs gasAsset gasFee satoshiFee mandatory := by
  simp only [selectResultFunding, sortUtxos_perm hutxos hdistinct, hcontract]

theorem selectResultFunding_canonical_two : fundSeven [0, 1, 2] = fundSeven [2, 0, 1] :=
  selectResultFunding_canonical rfl (Perm.map _ (by decide)) (by decide) _ _ _ _ _

theorem contractUtxo_payment {out found} (h : o.contractUtxo lib tx height out = .ok found) :
    found.filter (fun u => u.contract = c) = o.payment c tx height out := by
  obtain ⟨addr, haddr, h⟩ := bind_eq_ok.mp h
  rw [payment, haddr]
  cases addr with
  | none =>
    cases h
    simp
  | some c' =>
    dsimp only at h
    split_ifs at h with hserves
    · cases h
      have hother : c' = c → o.serves c = false := fun heq => heq ▸ hserves
      simpa using hother
    simp only [bind_eq_ok, require_eq_ok] at h
    obtain ⟨-, -, -, -, h⟩ := h
    cases h
    by_cases hc : c' = c
    · subst hc
      simp [created, hserves]
    · simp [created, hc]

theorem contractUtxosFromTx_payments (h : o.contractUtxosFromTx lib tx height = .ok utxos) :
    utxos.filter (fun u => u.contract = c) = o.payments c tx height := by
  obtain ⟨found, hfound, h⟩ := bind_eq_ok.mp h
  cases h
  have hmap : found.map (·.filter fun u => u.contract = c) =
      tx.txOut.zipIdx.map (o.payment c tx height) :=
    map_of_mapM (fun _ _ => contractUtxo_payment) hfound
  have hreduce := congrArg (filterMap id) hmap
  simp only [filterMap_map, Function.comp_def, id] at hreduce
  exact filter_filterMap.trans hreduce

structure Advanced (o o' : ContractUtxoOverlay) (txs : List (Tx × ℤ)) : Prop where
  hrp : o'.hrp = o.hrp
  contractType : o'.contractType = o.contractType
  base : o'.base = o.base
  spent : o'.spent = o.spent ++ txs.flatMap fun t => spends t.1
  utxos : ∀ c, o'.utxos c = o.utxos c ++ txs.flatMap fun t => o.payments c t.1 t.2

theorem payments_congr (hhrp : o'.hrp = o.hrp) (htype : o'.contractType = o.contractType) :
    o'.payments = o.payments := by
  rcases o with ⟨_, _⟩
  rcases o' with ⟨_, _⟩
  cases hhrp
  cases htype
  rfl

theorem Advanced.trans {mid txs txs'} (h : Advanced o mid txs) (h' : Advanced mid o' txs') :
    Advanced o o' (txs ++ txs') where
  hrp := h'.hrp.trans h.hrp
  contractType := h'.contractType.trans h.contractType
  base := h'.base.trans h.base
  spent := by rw [h'.spent, h.spent, flatMap_append, append_assoc]
  utxos c := by
    rw [h'.utxos, h.utxos, payments_congr h.hrp h.contractType, flatMap_append, append_assoc]

theorem advanced_applyTx {t}
    (h : ((o.applyTx lib t.1 t.2).1.map fun _ => (o.applyTx lib t.1 t.2).2) = .ok o') :
    Advanced o o' [t] := by
  rw [applyTx] at h
  cases hutxos : o.contractUtxosFromTx lib t.1 t.2 with
  | error e =>
    rw [hutxos] at h
    cases h
  | ok utxos =>
    rw [hutxos] at h
    cases h
    exact ⟨rfl, rfl, rfl, by simp, fun c => by simp [contractUtxosFromTx_payments hutxos]⟩

theorem advanced_applyTxs {txs} (h : o.applyTxs lib txs = .ok o') : Advanced o o' txs := by
  induction txs generalizing o with
  | nil =>
    cases h
    exact ⟨rfl, rfl, rfl, by simp, by simp⟩
  | cons t txs ih =>
    obtain ⟨mid, hmid, hrest⟩ := foldlM_cons_eq_ok.mp h
    exact (advanced_applyTx hmid).trans (ih hrest)

/-- After any transactions that were applied to a new overlay, the provider has for a contract what
the base and the transactions give it and nothing that they spend, each outpoint once, the entry of
the base before a created one, and in the one canonical order. -/
theorem overlay_exact {hrp : Text} {contractType : UInt8}
    {base : Option (ContractAddress → OverlayM (List Utxo))} {txs : List (Tx × ℤ)}
    (hrun : applyTxs lib { hrp := hrp, contractType := contractType, base := base } txs = .ok o)
    (c : ContractAddress) : (∀ e, base.elim (.ok []) (· c) = .error e → o.provider c = .error e) ∧
    ∀ found, base.elim (.ok []) (· c) = .ok found → ∃ out, o.provider c = .ok out ∧
      (out.Pairwise fun a b => a.less b = true) ∧ (out.map (·.outPoint)).Nodup ∧
      ∀ u, u ∈ out ↔ (∀ t ∈ txs, u.outPoint ∉ spends t.1) ∧
        (found ++ txs.flatMap fun t => o.payments c t.1 t.2).find?
          (fun v => v.outPoint = u.outPoint) = some u := by
  obtain ⟨hhrp, htype, hbase, hspent, hutxos⟩ := advanced_applyTxs hrun
  rw [provider, hbase]
  refine ⟨fun e he => by rw [he]; rfl, fun found hfound => ?_⟩
  have hperm : (sortUtxosForCanonicalSelection (o.unspentAfter [] (found ++ o.utxos c))).Perm
      (o.unspentAfter [] (found ++ o.utxos c)) := perm_insertionSort _ _
  refine ⟨_, by rw [hfound]; rfl, pairwise_less nodup_unspentAfter,
    (hperm.map _).nodup_iff.mpr nodup_unspentAfter, fun u => ?_⟩
  rw [hperm.mem_iff, mem_unspentAfter, hspent, hutxos, payments_congr hhrp htype]
  simp

def contractPayment (tag : UInt8) : TxOut :=
  ⟨5, [], [0, 0x63, 2, 0x43, 0x54, 3, 1, 2, tag, 0x68, 0]⟩

def paidContract : ContractAddress := ⟨testnetContractHrp, [1, 2, 0xaa]⟩

def overlayTxs : List (Tx × ℤ) :=
  [(⟨1, [], [contractPayment 0xaa, contractPayment 0xaa, contractPayment 0xbb]⟩, 7),
    (⟨2, [⟨⟨1, 0⟩, []⟩], []⟩, 7)]

open Wire.Reference

theorem overlay_exact_two : ∃ o out, applyTxs amountLib {} overlayTxs = .ok o ∧
    o.provider paidContract = .ok out ∧ out.map (·.outPoint.vout) = [1] ∧
    (out.map (·.outPoint)).Nodup := by
  have hrun : ((applyTxs amountLib {} overlayTxs).toOption.any fun o =>
      (o.provider paidContract).toOption.any fun out => out.map (·.outPoint.vout) = [1]) = true := by
    decide +kernel
  obtain ⟨o, ho, hprovider⟩ := exists_of_any hrun
  obtain ⟨out, hout, hvouts⟩ := exists_of_any hprovider
  obtain ⟨out', hout', -, hnodup, -⟩ := (overlay_exact ho paidContract).2 [] rfl
  rw [hout] at hout'
  cases hout'
  exact ⟨o, out, ho, hout, of_decide_eq_true hvouts, hnodup⟩

end ContractUtxoOverlay

end SatoshiNet.Contract
