import SatoshiNet.Contract.ResultOutput

/-!
The choice of the contract outputs that fund a Result: required inputs first; then every asset, by
one fitting output or by the largest ones; then the satoshis, which also carry the change.
-/

namespace SatoshiNet.Contract

open Lib Wire List

structure ContractAddress where
  hrp : Text
  payload : Bytes
deriving DecidableEq

structure Utxo where
  outPoint : OutPoint
  contract : ContractAddress
  height : ℤ
  txOutput : Option TxOut

namespace Utxo

def physicalValue (u : Utxo) : ℤ := (u.txOutput.map TxOut.value).getD 0

def txAssets (u : Utxo) : TxAssets := (u.txOutput.map TxOut.assets).getD []

def worth (u : Utxo) : Wealth := (u.physicalValue, holdings u.txAssets)

def less (a b : Utxo) : Bool :=
  if a.height ≠ b.height then a.height < b.height
  else if a.outPoint.txID ≠ b.outPoint.txID then a.outPoint.txID < b.outPoint.txID
  else a.outPoint.vout < b.outPoint.vout

end Utxo

def sortUtxosForCanonicalSelection (utxos : List Utxo) : List Utxo :=
  utxos.insertionSort fun a b => b.less a = false

structure ResultPlanUtxoView where
  contract : ContractAddress
  utxos : List Utxo
  inputs : List OutPoint
  value : ℤ
  assets : TxAssets

def uniqueAfter (seen : List OutPoint) : List OutPoint → List OutPoint
  | [] => []
  | p :: rest => if p ∈ seen then uniqueAfter seen rest else p :: uniqueAfter (p :: seen) rest

def uniqueOutPoints (ps : List OutPoint) : List OutPoint := uniqueAfter [] ps

variable (lib : AmountLib)

/-! ### The selection so far -/

structure Selection where
  total : ManagedBalance
  selected : List Utxo

namespace Selection

def used (s : Selection) (p : OutPoint) : Bool := s.selected.any fun u => u.outPoint = p

def add (s : Selection) (u : Utxo) : ResultM Selection :=
  if s.used u.outPoint then .ok s
  else ((s.total.credit lib u.physicalValue u.txAssets).mapError .managed).map
    fun total => ⟨total, s.selected ++ [u]⟩

end Selection

def fundingCandidates (s : Selection) (amount : Utxo → ResultM Decimal) :
    List Utxo → ResultM (List (Utxo × Decimal))
  | [] => .ok []
  | u :: rest =>
    if s.used u.outPoint then fundingCandidates s amount rest
    else do
      let amt ← amount u
      let others ← fundingCandidates s amount rest
      .ok (if 0 < amt.sign then (u, amt) :: others else others)

def bestCandidate (required : Decimal) (candidates : List (Utxo × Decimal)) :
    Option (Utxo × Decimal) :=
  candidates.foldl (fun best item =>
    if lib.cmp item.2 required ≠ .lt ∧ best.all (fun b => lib.cmp item.2 b.2 = .lt) then some item
    else best) none

def accumulate : Selection → Decimal → List (Utxo × Decimal) → ResultM (Selection × Bool)
  | s, _, [] => .ok (s, false)
  | s, remaining, item :: rest => do
    let s ← s.add lib item.1
    let remaining := lib.subAlignPrecision remaining item.2
    if remaining.sign ≤ 0 then .ok (s, true) else accumulate s remaining rest

variable (available : List Utxo) (s : Selection)

/-- The selection is kept where the candidates do not suffice; the caller decides whether that is
an error. -/
def chooseFunding (required : Decimal)
    (amount : Utxo → ResultM Decimal) : ResultM (Selection × Bool) := do
  let candidates ← fundingCandidates s amount available
  match bestCandidate lib required candidates with
  | some item => (s.add lib item.1).map (·, true)
  | none => accumulate lib s required (candidates.insertionSort fun x y => lib.cmp y.2 x.2 ≠ .gt)

def heldAmount (name : AssetName) (u : Utxo) : Decimal :=
  ((u.txAssets.find? fun held => held.name = name).map (·.amount)).getD (newDefaultDecimal 0)

def fundAsset (asset : AssetInfo) : ResultM Selection := do
  let current ← (s.total.assetAmount lib asset.name.text).mapError .managed
  let need := lib.subAlignPrecision asset.amount current
  if need.sign ≤ 0 then .ok s
  else do
    let chosen ← chooseFunding lib available s need fun u => .ok (heldAmount asset.name u)
    if chosen.2 then .ok chosen.1 else .error .insufficientFunds

def plainAmount (u : Utxo) : ResultM Decimal :=
  match u.txOutput with
  | none => .ok (newDefaultDecimal 0)
  | some txOut =>
    ((ManagedBalance.mk txOut.value txOut.assets).assetAmount lib satoshiAssetName).mapError .managed

def requiredSats (value : ℤ) (assets : TxAssets) (total : ManagedBalance) : ResultM ℤ := do
  let change ← orError (lib.split total.assets assets) .selectAssets
  let carrier ← resultAssetCarrierSats lib change
  orError (addInt64 value carrier) .carrierOverflow

/-- Adding an output with assets may raise what the change needs, so this is asked again after
every one. -/
def topUp (value : ℤ) (assets : TxAssets) :
    Selection → Bool → List Utxo → ResultM (Selection × Bool)
  | s, true, _ => .ok (s, true)
  | s, false, [] => .ok (s, false)
  | s, false, u :: rest =>
    if s.used u.outPoint ∨ u.txOutput = none then topUp value assets s false rest
    else do
      let plain ← plainAmount lib u
      if plain.sign ≤ 0 then topUp value assets s false rest
      else do
        let s ← s.add lib u
        let required ← requiredSats lib value assets s.total
        topUp value assets s (required ≤ s.total.value) rest

def addMandatory (input : OutPoint) : ResultM Selection := do
  let u ← orError (available.reverse.find? fun u => u.outPoint = input) (.inputNotAvailable input)
  s.add lib u

def gasSats (gasAsset : Text) (gasFee : Decimal) : ResultM ℤ :=
  if gasAsset = satoshiAssetName ∧ 0 < gasFee.sign then decimalToInt64 lib gasFee else .ok 0

def gasAssets (gasAsset : Text) (gasFee : Decimal) : ResultM TxAssets :=
  if gasAsset ≠ satoshiAssetName ∧ 0 < gasFee.sign then
    orError (newAssetSet gasAsset gasFee) .invalidAsset
  else .ok []

def fundingNeed (outputs : Outputs) (gasAsset : Text) (gasFee : Decimal)
    (satoshiFee : ℤ) : ResultM (ℤ × TxAssets) := do
  let value ← resultOutputsValue outputs
  let assets ← resultOutputsAssets lib outputs
  let value ← orError (addInt64 value satoshiFee) .outputOverflow
  let fee ← gasSats lib gasAsset gasFee
  let value ← orError (addInt64 value fee) .feeOverflow
  let feeAssets ← gasAssets gasAsset gasFee
  if gasAsset ≠ satoshiAssetName ∧ 0 < gasFee.sign then do
    let assets ← (lib.merge assets feeAssets).mapError fun _ => .mergeAssets
    .ok (value, assets)
  else .ok (value, assets)

/-- Too few plain satoshis are no error here: the change may still be carried. -/
def chooseSats (required : ℤ) (s : Selection) : ResultM Selection :=
  if s.total.value < required then
    (chooseFunding lib available s (newDefaultDecimal (required - s.total.value))
      (plainAmount lib)).map Prod.fst
  else .ok s

def topUpSats (value : ℤ) (assets : TxAssets) (s : Selection) : ResultM (Selection × Bool) := do
  let required ← requiredSats lib value assets s.total
  let s ← chooseSats lib available required s
  let required ← requiredSats lib value assets s.total
  topUp lib value assets s (required ≤ s.total.value) available

def selectResultFunding (view : ResultPlanUtxoView) (outputs : Outputs)
    (gasAsset : Text) (gasFee : Decimal) (satoshiFee : ℤ) (mandatory : List OutPoint) :
    ResultM ResultPlanUtxoView := do
  let need ← fundingNeed lib outputs gasAsset gasFee satoshiFee
  let available := sortUtxosForCanonicalSelection view.utxos
  let s ← (uniqueOutPoints mandatory).foldlM (addMandatory lib available) ⟨⟨0, []⟩, []⟩
  let s ← need.2.foldlM (fundAsset lib available) s
  let done ← topUpSats lib available need.1 need.2 s
  require done.2 .insufficientFunds
  let selected := sortUtxosForCanonicalSelection done.1.selected
  .ok ⟨view.contract, selected, selected.map Utxo.outPoint, done.1.total.value, done.1.total.assets⟩

/-! ### Selections grow one output at a time -/

def AddStep (s s' : Selection) : Prop :=
  ∃ u ∈ available, s.add lib u = .ok s'

abbrev Adds : Selection → Selection → Prop :=
  Relation.ReflTransGen (AddStep lib available)

variable {lib} {available : List Utxo} {enough : Bool} {s s' : Selection}
  {amount : Utxo → ResultM Decimal} {assets : TxAssets}
  {candidates : List (Utxo × Decimal)} {required : Decimal} {utxos : List Utxo} {value : ℤ}

theorem mem_fundingCandidates (h : fundingCandidates s amount utxos = .ok candidates) :
    ∀ item ∈ candidates, item.1 ∈ utxos := by
  induction utxos generalizing candidates with
  | nil =>
    cases h
    exact forall_mem_nil _
  | cons u rest ih =>
    rw [fundingCandidates] at h
    split at h
    · exact fun item hitem => mem_cons_of_mem _ (ih h item hitem)
    obtain ⟨amt, _, h⟩ := bind_eq_ok.mp h
    obtain ⟨others, hothers, h⟩ := bind_eq_ok.mp h
    cases h
    intro item hitem
    split at hitem
    · obtain rfl | hitem := mem_cons.mp hitem
      · exact mem_cons_self
      · exact mem_cons_of_mem _ (ih hothers item hitem)
    · exact mem_cons_of_mem _ (ih hothers item hitem)

theorem bestCandidate_mem {item} (h : bestCandidate lib required candidates = some item) :
    item ∈ candidates := by
  -- the best so far is one of the candidates before
  refine foldlRecOn (motive := fun best : Option (Utxo × Decimal) =>
    ∀ b ∈ best, b ∈ candidates) candidates _ (by simp) (fun best hbest x hx => ?_) item h
  split
  · rintro b hb
    rw [← Option.some.inj hb]
    exact hx
  · exact hbest

theorem accumulate_adds {remaining} {items} (hitems : ∀ item ∈ items, item.1 ∈ available)
    (h : accumulate lib s remaining items = .ok (s', enough)) : Adds lib available s s' := by
  induction items generalizing s remaining with
  | nil =>
    obtain ⟨rfl, _⟩ := Prod.mk.inj (Except.ok.inj h)
    exact .refl
  | cons item rest ih =>
    obtain ⟨hitem, hrest⟩ := forall_mem_cons.mp hitems
    rw [accumulate] at h
    obtain ⟨t, ht, h⟩ := bind_eq_ok.mp h
    have hstep : AddStep lib available s t := ⟨item.1, hitem, ht⟩
    dsimp only at h
    split at h
    · obtain ⟨rfl, _⟩ := Prod.mk.inj (Except.ok.inj h)
      exact .single hstep
    · exact .head hstep (ih hrest h)

theorem chooseFunding_adds (h : chooseFunding lib available s required amount = .ok (s', enough)) :
    Adds lib available s s' := by
  obtain ⟨candidates, hcandidates, h⟩ := bind_eq_ok.mp h
  have hmem := mem_fundingCandidates hcandidates
  split at h
  · rename_i item hbest
    obtain ⟨t, ht, heq⟩ := map_eq_ok.mp h
    obtain ⟨rfl, _⟩ := Prod.mk.inj heq
    exact .single ⟨item.1, hmem item (bestCandidate_mem hbest), ht⟩
  · refine accumulate_adds (fun item hitem => hmem item ?_) h
    exact (mem_insertionSort _).mp hitem

theorem fundAsset_adds {asset} (h : fundAsset lib available s asset = .ok s') :
    Adds lib available s s' := by
  obtain ⟨current, _, h⟩ := bind_eq_ok.mp h
  dsimp only at h
  split at h
  · cases h
    exact .refl
  · obtain ⟨chosen, hchosen, h⟩ := bind_eq_ok.mp h
    split at h
    · cases h
      exact chooseFunding_adds hchosen
    · cases h

theorem addMandatory_adds {input} (h : addMandatory lib available s input = .ok s') :
    Adds lib available s s' := by
  obtain ⟨u, hu, h⟩ := bind_eq_ok.mp h
  have hmem := mem_of_find?_eq_some (orError_eq_ok.mp hu)
  exact .single ⟨u, mem_reverse.mp hmem, h⟩

theorem foldlM_adds {A : Type} {step : Selection → A → ResultM Selection}
    (hstep : ∀ {s s' a}, step s a = .ok s' → Adds lib available s s') {l : List A}
    (h : l.foldlM step s = .ok s') : Adds lib available s s' :=
  foldlM_invariant (I := Adds lib available s) l
    (fun _ _ _ _ hs ha => hs.trans (hstep ha)) .refl h

theorem topUp_adds {ready} (hutxos : ∀ u ∈ utxos, u ∈ available)
    (h : topUp lib value assets s ready utxos = .ok (s', enough)) : Adds lib available s s' := by
  induction utxos generalizing s ready with
  | nil =>
    cases ready <;>
    · obtain ⟨rfl, _⟩ := Prod.mk.inj (Except.ok.inj h)
      exact .refl
  | cons u rest ih =>
    obtain ⟨hu, hrest⟩ := forall_mem_cons.mp hutxos
    cases ready with
    | true =>
      obtain ⟨rfl, _⟩ := Prod.mk.inj (Except.ok.inj h)
      exact .refl
    | false =>
      rw [topUp] at h
      split at h
      · exact ih hrest h
      obtain ⟨plain, _, h⟩ := bind_eq_ok.mp h
      split at h
      · exact ih hrest h
      · obtain ⟨t, ht, h⟩ := bind_eq_ok.mp h
        obtain ⟨required, _, h⟩ := bind_eq_ok.mp h
        exact .head ⟨u, hu, ht⟩ (ih hrest h)

theorem topUpSats_adds (h : topUpSats lib available value assets s = .ok (s', enough)) :
    Adds lib available s s' := by
  obtain ⟨required, _, h⟩ := bind_eq_ok.mp h
  obtain ⟨t, ht, h⟩ := bind_eq_ok.mp h
  obtain ⟨required', _, h⟩ := bind_eq_ok.mp h
  have hfirst : Adds lib available s t := by
    rw [chooseSats] at ht
    split at ht
    · obtain ⟨chosen, hchosen, rfl⟩ := map_eq_ok.mp ht
      exact chooseFunding_adds hchosen
    · cases ht
      exact .refl
  exact hfirst.trans (topUp_adds (fun _ hu => hu) h)

/-- The total of a selection is what its outputs hold, each of them counted once. -/
structure Funded (available : List Utxo) (s : Selection) : Prop where
  total : s.total.worth = (s.selected.map Utxo.worth).sum
  mem : ∀ u ∈ s.selected, u ∈ available
  nodup : (s.selected.map Utxo.outPoint).Nodup

theorem Funded.add (hlib : lib.Exact) (h : Funded available s)
    (hstep : AddStep lib available s s') : Funded available s' := by
  obtain ⟨u, hu, hadd⟩ := hstep
  rw [Selection.add] at hadd
  split_ifs at hadd with hunused
  · rw [← Except.ok.inj hadd]
    exact h
  obtain ⟨total, htotal, rfl⟩ := map_eq_ok.mp hadd
  have hworth := ManagedBalance.credit_worth hlib (mapError_eq_ok.mp htotal)
  refine ⟨?_, ?_, ?_⟩
  · rw [hworth, h.total, map_append, sum_append, map_singleton, sum_singleton]
    rfl
  · exact forall_mem_append.mpr ⟨h.mem, forall_mem_singleton.mpr hu⟩
  · rw [map_append, map_singleton]
    refine nodup_append.mpr ⟨h.nodup, nodup_singleton _, ?_⟩
    rintro p hp q hq rfl
    obtain ⟨v, hv, hpv⟩ := mem_map.mp hp
    rw [mem_singleton.mp hq] at hpv
    exact hunused (any_eq_true.mpr ⟨v, hv, decide_eq_true hpv⟩)

theorem Funded.adds (hlib : lib.Exact) (h : Funded available s) (hadds : Adds lib available s s') :
    Funded available s' := by
  induction hadds with
  | refl => exact h
  | tail _ hstep ih => exact ih.add hlib hstep

theorem selectResultFunding_funded (hlib : lib.Exact) {view out : ResultPlanUtxoView}
    {outputs : Outputs} {gasAsset : Text} {gasFee : Decimal} {satoshiFee : ℤ}
    {mandatory : List OutPoint}
    (h : selectResultFunding lib view outputs gasAsset gasFee satoshiFee mandatory = .ok out) :
    (out.utxos.map Utxo.worth).sum = (out.value, holdings out.assets) ∧
      (∀ u ∈ out.utxos, u ∈ view.utxos) ∧ (out.utxos.map Utxo.outPoint).Nodup ∧
      out.inputs = out.utxos.map Utxo.outPoint := by
  simp only [selectResultFunding, bind_eq_ok, require_eq_ok, Except.ok.injEq] at h
  obtain ⟨need, _, s₁, h₁, s₂, h₂, ⟨s₃, enough⟩, h₃, _, _, rfl⟩ := h
  have hstart : Funded (sortUtxosForCanonicalSelection view.utxos) ⟨⟨0, []⟩, []⟩ :=
    ⟨rfl, forall_mem_nil _, nodup_nil⟩
  have hadds := ((foldlM_adds addMandatory_adds h₁).trans
    (foldlM_adds fundAsset_adds h₂)).trans (topUpSats_adds h₃)
  have hfunded := hstart.adds hlib hadds
  have hperm : (sortUtxosForCanonicalSelection s₃.selected).Perm s₃.selected :=
    perm_insertionSort _ _
  refine ⟨?_, fun u hu => ?_, ((hperm.map _).nodup_iff).mpr hfunded.nodup, rfl⟩
  · rw [(hperm.map _).sum_eq, ← hfunded.total]
    rfl
  · exact (mem_insertionSort _).mp (hfunded.mem u (hperm.mem_iff.mp hu))

/-! ### What a selection covers -/

def Selection.Suffices (lib : AmountLib) (value : ℤ) (assets : TxAssets) (s : Selection) : Prop :=
  ∃ required, requiredSats lib value assets s.total = .ok required ∧ required ≤ s.total.value

theorem topUp_suffices {ready : Bool} (hready : ready → s.Suffices lib value assets)
    (h : topUp lib value assets s ready utxos = .ok (s', true)) : s'.Suffices lib value assets := by
  induction utxos generalizing s ready with
  | nil =>
    cases ready <;> cases h
    exact hready rfl
  | cons u rest ih =>
    cases ready with
    | true =>
      cases h
      exact hready rfl
    | false =>
      rw [topUp] at h
      split at h
      · exact ih hready h
      obtain ⟨plain, _, h⟩ := bind_eq_ok.mp h
      split at h
      · exact ih hready h
      obtain ⟨t, _, h⟩ := bind_eq_ok.mp h
      obtain ⟨required, hrequired, h⟩ := bind_eq_ok.mp h
      exact ih (fun hle => ⟨required, hrequired, of_decide_eq_true hle⟩) h

/-- The chosen outputs are different outputs of the view.  They hold what the outputs and the fees
need, and enough satoshis besides to carry the change. -/
theorem selected_funding_suffices (hlib : lib.Exact) {view out : ResultPlanUtxoView}
    {outputs : Outputs} {gasAsset : Text} {gasFee : Decimal} {satoshiFee : ℤ}
    {mandatory : List OutPoint}
    (h : selectResultFunding lib view outputs gasAsset gasFee satoshiFee mandatory = .ok out) :
    (out.utxos.map Utxo.worth).sum = (out.value, holdings out.assets) ∧
    (∀ u ∈ out.utxos, u ∈ view.utxos) ∧ (out.utxos.map Utxo.outPoint).Nodup ∧
    ∃ value assets change carrier,
      fundingNeed lib outputs gasAsset gasFee satoshiFee = .ok (value, assets) ∧
      lib.split out.assets assets = some change ∧
      resultAssetCarrierSats lib change = .ok carrier ∧ value + carrier ≤ out.value := by
  obtain ⟨hsum, hview, hnodup, -⟩ := selectResultFunding_funded hlib h
  refine ⟨hsum, hview, hnodup, ?_⟩
  simp only [selectResultFunding, topUpSats, bind_eq_ok, require_eq_ok, Except.ok.injEq] at h
  obtain ⟨⟨value, assets⟩, hneed, _, _, _, _, ⟨s, enough⟩, ⟨_, _, _, _, required, hrequired, htop⟩, _,
    henough, rfl⟩ := h
  cases (henough : enough = true)
  obtain ⟨required, hrequired, hle⟩ := topUp_suffices
    (fun hle => ⟨required, hrequired, of_decide_eq_true hle⟩) htop
  simp only [requiredSats, bind_eq_ok, orError_eq_ok] at hrequired
  obtain ⟨change, hchange, carrier, hcarrier, hadd⟩ := hrequired
  rw [eq_of_addInt64 hadd] at hle
  exact ⟨value, assets, change, carrier, hneed, hchange, hcarrier, hle⟩

def fundSeven (vouts : List UInt32) : ResultM ResultPlanUtxoView :=
  selectResultFunding Reference.amountLib
    ⟨⟨[], []⟩, vouts.map fun vout => ⟨⟨[], vout⟩, ⟨[], []⟩, 7, some ⟨5, [], []⟩⟩, [], 0, []⟩
    [{ recipient := [], value := 7 }] satoshiAssetName (newDefaultDecimal 1) 0 [⟨[], 2⟩]

theorem selected_funding_suffices_two : ∃ out, fundSeven [0, 1, 2] = .ok out ∧
    out.utxos.length = 2 ∧ (out.utxos.map Utxo.outPoint).Nodup := by
  obtain ⟨out, hout, hlen⟩ := exists_of_any (x := fundSeven [0, 1, 2])
    (p := fun out => out.utxos.length = 2) (by decide +kernel)
  obtain ⟨-, -, hnodup, -⟩ := selected_funding_suffices Reference.amountLib_exact hout
  exact ⟨out, hout, of_decide_eq_true hlen, hnodup⟩

end SatoshiNet.Contract
