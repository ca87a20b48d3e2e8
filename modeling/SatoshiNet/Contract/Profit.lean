import SatoshiNet.Contract.ResultOutput

/-!
How the surplus of a contract is shared between its deployer and the bootstrap address.
-/

namespace SatoshiNet.Contract

open Lib Wire List Decimal

variable (lib : AmountLib)

def deployerProfitBPS : ℤ := 7000

def totalProfitBPS : ℤ := 10000

inductive SurplusMode
  | toBootstrap | asProfit | toContract
deriving DecidableEq

structure SurplusRequest where
  (contract deployerAddress bootstrapAddress : Text)
  mode : SurplusMode
  precision : AssetPrecisionPolicy

def surplusRecipient (req : SurplusRequest) : Text :=
  if req.mode = .toContract then req.contract
  else if req.mode = .asProfit ∧ req.deployerAddress ≠ [] then req.deployerAddress
  else if req.bootstrapAddress ≠ [] then req.bootstrapAddress
  else req.contract

def splitInt64ByBPS (value bps : ℤ) : ℤ :=
  if value ≤ 0 ∨ bps ≤ 0 then 0
  else if totalProfitBPS ≤ bps then value
  else value * bps / totalProfitBPS

def shareUnits (bps : ℤ) (asset : AssetInfo) : ℤ := (asset.amount.value * bps).tdiv totalProfitBPS

def withUnits (units : AssetInfo → ℤ) (assets : TxAssets) : TxAssets :=
  (assets.map fun a => { a with amount := ⟨a.amount.precision, units a⟩ }).filter
    fun a => 0 < a.amount.value

def splitAssetsByBPS (assets : TxAssets) (bps : ℤ) : TxAssets × TxAssets :=
  if assets = [] then ([], [])
  else if bps ≤ 0 then ([], normalizeTxAssets lib assets)
  else if totalProfitBPS ≤ bps then (normalizeTxAssets lib assets, [])
  else (normalizeTxAssets lib (withUnits (shareUnits bps) assets),
    normalizeTxAssets lib (withUnits (fun a => a.amount.value - shareUnits bps a) assets))

def splitSurplusOutput (surplus : ResultOutput) (req : SurplusRequest) : ResultM Outputs :=
  let surplus := normalizeResultOutputPrecision lib surplus req.precision
  if surplus.isZero then .ok []
  else if req.mode ≠ .asProfit ∨ req.deployerAddress = [] ∨ req.bootstrapAddress = [] ∨
      req.deployerAddress = req.bootstrapAddress then
    .ok [{ surplus with recipient := surplusRecipient req }]
  else do
    let shares := splitAssetsByBPS lib surplus.assets deployerProfitBPS
    let deployer := normalizeResultOutputPrecision lib
      { recipient := req.deployerAddress, assets := shares.1 } req.precision
    let bootstrap := normalizeResultOutputPrecision lib
      { recipient := req.bootstrapAddress, assets := shares.2 } req.precision
    let deployerCarrier ← resultAssetCarrierSats lib deployer.assets
    let bootstrapCarrier ← resultAssetCarrierSats lib bootstrap.assets
    let total ← orError (addInt64 deployerCarrier bootstrapCarrier) (.profitCarrier 0 surplus.value)
    require (total ≤ surplus.value) (.profitCarrier total surplus.value)
    let plain := surplus.value - total
    let deployerPlain := splitInt64ByBPS plain deployerProfitBPS
    .ok (([{ deployer with value := deployerCarrier + deployerPlain },
      { bootstrap with value := bootstrapCarrier + (plain - deployerPlain) }] :
      Outputs).filter fun o => !o.isZero)

def splitContractProfit (profit : ResultOutput) (deployer bootstrap : Text)
    (precision : AssetPrecisionPolicy) : ResultM Outputs :=
  let profit := normalizeResultOutputPrecision lib profit precision
  if profit.isZero then .ok []
  else if deployer = [] ∨ bootstrap = [] then .error .missingProfitRecipient
  else splitSurplusOutput lib profit ⟨[], deployer, bootstrap, .asProfit, precision⟩

/-! ### Amounts at the precision of the policy -/

variable {lib} {policy : AssetPrecisionPolicy}

def Settled (policy : AssetPrecisionPolicy) (asset : AssetInfo) : Prop :=
  ∀ k : ℤ, policy.cut asset.name.text (mk asset.amount.precision k).toRat =
    (mk asset.amount.precision k).toRat

theorem settled_normalize (hlib : lib.Exact) (asset : AssetInfo) : Settled policy
      { asset with amount := policy.normalize lib asset.name.text asset.amount } := by
  intro k
  simp only [AssetPrecisionPolicy.cut, AssetPrecisionPolicy.normalize]
  cases policy.precisionForAsset asset.name.text with
  | none => rfl
  | some p =>
    by_cases hp : p < 0
    · simp only [if_pos hp]
    simp only [hp, false_or, if_false]
    have hprecision : (if asset.amount.precision = p then asset.amount
        else lib.newPrecision asset.amount p).precision = p := by
      split
      · assumption
      · exact hlib.precision (not_lt.mp hp)
    rw [hprecision]
    exact cut_of_eq_div rfl

variable {assets : TxAssets} {o : ResultOutput} {units : AssetInfo → ℤ} {outs : Outputs}
  {x : AssetInfo}

theorem mem_cutEntries (h : x ∈ cutEntries lib policy assets) : 0 < x.amount.value ∧ ∃ a ∈ assets,
      x = { a with amount := policy.normalize lib a.name.text a.amount } := by
  obtain ⟨a, ha, hx⟩ := mem_filterMap.mp h
  simp only [Option.ite_none_left_eq_some, not_le, Option.some.injEq] at hx
  obtain ⟨hsign, rfl⟩ := hx
  exact ⟨sign_pos_iff.mp hsign, a, ha, rfl⟩

theorem names_cutEntries (assets) :
    ((cutEntries lib policy assets).map AssetInfo.name).Sublist (assets.map AssetInfo.name) := by
  induction assets with
  | nil => exact List.Sublist.refl _
  | cons a assets ih =>
    rw [cutEntries_cons]
    split
    · exact ih.cons _
    · exact ih.cons_cons _

structure AtPrecision (policy : AssetPrecisionPolicy) (assets cutTo : TxAssets) : Prop where
  holdings : ∀ n, Wire.holdings cutTo n = policy.cut n.text (Wire.holdings assets n)
  nodup : (cutTo.map AssetInfo.name).Nodup
  nonneg : NonnegAssets cutTo
  settled : ∀ x ∈ cutTo, Settled policy x

theorem atPrecision_normalizeResultOutputPrecision (hlib : lib.Exact) (h : NonnegAssets o.assets) :
    AtPrecision policy o.assets (normalizeResultOutputPrecision lib o policy).assets := by
  have hnodup := nodup_normalizeTxAssets hlib o.assets
  have hnonneg := nonneg_normalizeTxAssets hlib h
  have hsame := holdings_normalizeTxAssets hlib o.assets
  rw [normalizeResultOutputPrecision]
  split_ifs with hoff
  · exact ⟨fun n => by rw [policy.cut_of_not_enabled _ hoff, normalizeResultOutput, hsame], hnodup,
      hnonneg, fun _ _ _ => policy.cut_of_not_enabled _ hoff _⟩
  change AtPrecision policy o.assets
    (normalizeAssetSetPrecision lib (normalizeTxAssets lib o.assets) policy)
  have hcut := holdings_normalizeAssetSetPrecision hlib policy hnodup hnonneg
  rw [hsame] at hcut
  rw [normalizeAssetSetPrecision] at hcut ⊢
  split_ifs with hnil
  · rw [if_pos hnil] at hcut
    exact ⟨hcut, nodup_nil, forall_mem_nil _, forall_mem_nil _⟩
  rw [if_neg hnil, if_neg hoff] at hcut
  have hnames : ((cutEntries lib policy (normalizeTxAssets lib o.assets)).map
      AssetInfo.name).Nodup := hnodup.sublist (names_cutEntries _)
  have hperm := hlib.build_perm hnames fun x hx => (mem_cutEntries hx).1
  refine ⟨hcut, hlib.build_nodup _, fun x hx => ?_, fun x hx => ?_⟩
  · exact (mem_cutEntries (hperm.mem_iff.mp hx)).1.le
  · obtain ⟨_, a, _, rfl⟩ := mem_cutEntries (hperm.mem_iff.mp hx)
    exact settled_normalize hlib a

@[simp] theorem normalizeResultOutputPrecision_value (o) :
    (normalizeResultOutputPrecision lib o policy).value = o.value := by
  rw [normalizeResultOutputPrecision]
  split <;> rfl

@[simp] theorem normalizeResultOutputPrecision_recipient (o) :
    (normalizeResultOutputPrecision lib o policy).recipient = o.recipient := by
  rw [normalizeResultOutputPrecision]
  split <;> rfl

/-! ### The shares add up -/

theorem holdings_withUnits (h : ∀ a ∈ assets, 0 ≤ units a) : holdings (withUnits units assets) =
      (assets.map fun a => Pi.single a.name (mk a.amount.precision (units a)).toRat).sum := by
  induction assets with
  | nil => rfl
  | cons a assets ih =>
    obtain ⟨ha, hrest⟩ := forall_mem_cons.mp h
    rw [map_cons, sum_cons, ← ih hrest, withUnits, map_cons, filter_cons]
    by_cases hpos : 0 < units a
    · rw [if_pos (by simpa using hpos), holdings_cons]
      rfl
    · have hzero : units a = 0 := by omega
      rw [if_neg (by simpa using hpos), toRat_eq_zero_iff.mpr hzero, Pi.single_zero, zero_add]
      rfl

theorem mem_withUnits (h : x ∈ withUnits units assets) : 0 < x.amount.value ∧ ∃ a ∈ assets,
      x = { a with amount := ⟨a.amount.precision, units a⟩ } := by
  obtain ⟨hmem, hpos⟩ := mem_filter.mp h
  obtain ⟨a, ha, rfl⟩ := mem_map.mp hmem
  exact ⟨of_decide_eq_true hpos, a, ha, rfl⟩

theorem names_withUnits (units) (assets) :
    ((withUnits units assets).map AssetInfo.name).Sublist (assets.map AssetInfo.name) := by
  have hsub := (filter_sublist (p := fun a : AssetInfo => decide (0 < a.amount.value))
    (l := assets.map fun a => { a with amount := ⟨a.amount.precision, units a⟩ })).map
      AssetInfo.name
  rw [map_map] at hsub
  exact hsub

theorem cut_holdings_of_settled (hnodup : (assets.map AssetInfo.name).Nodup)
    (h : ∀ x ∈ assets, Settled policy x) (n) :
    policy.cut n.text (holdings assets n) = holdings assets n := by
  induction assets with
  | nil => exact policy.cut_zero _
  | cons a assets ih =>
    obtain ⟨hnew, hnodup⟩ := nodup_cons.mp hnodup
    obtain ⟨ha, h⟩ := forall_mem_cons.mp h
    rw [holdings_cons, Pi.add_apply]
    by_cases hn : n = a.name
    · subst hn
      rw [Pi.single_eq_same, holdings_of_not_mem hnew, add_zero]
      exact ha a.amount.value
    · rw [Pi.single_eq_of_ne hn, zero_add, ih hnodup h]

theorem holdings_share (hlib : lib.Exact) (hnodup : (assets.map AssetInfo.name).Nodup)
    (hsettled : ∀ x ∈ assets, Settled policy x)
    (ho : o.assets = normalizeTxAssets lib (withUnits units assets)) :
    holdings (normalizeResultOutputPrecision lib o policy).assets =
      holdings (withUnits units assets) := by
  have hnonneg : NonnegAssets o.assets := by
    rw [ho]
    exact nonneg_normalizeTxAssets hlib fun x hx => (mem_withUnits hx).1.le
  funext n
  rw [(atPrecision_normalizeResultOutputPrecision hlib hnonneg).holdings, ho,
    holdings_normalizeTxAssets hlib]
  refine cut_holdings_of_settled (hnodup.sublist (names_withUnits units assets)) (fun x hx => ?_) n
  obtain ⟨_, a, ha, rfl⟩ := mem_withUnits hx
  exact hsettled a ha

theorem shareUnits_bounds {a} (h : 0 ≤ a.amount.value) :
    0 ≤ shareUnits deployerProfitBPS a ∧ 0 ≤ a.amount.value - shareUnits deployerProfitBPS a := by
  have hmul : 0 ≤ a.amount.value * deployerProfitBPS := Int.mul_nonneg h (by decide)
  rw [shareUnits, Int.tdiv_eq_ediv_of_nonneg hmul, deployerProfitBPS, totalProfitBPS]
  omega

theorem holdings_shares (h : NonnegAssets assets) :
    holdings (withUnits (shareUnits deployerProfitBPS) assets) +
      holdings (withUnits (fun a => a.amount.value - shareUnits deployerProfitBPS a) assets) =
      holdings assets := by
  rw [holdings_withUnits fun a ha => (shareUnits_bounds (h a ha)).1,
    holdings_withUnits fun a ha => (shareUnits_bounds (h a ha)).2, ← sum_map_add, holdings]
  refine congrArg sum (map_congr_left fun a _ => ?_)
  rw [← Pi.single_add]
  refine congrArg _ ?_
  simp only [toRat]
  rw [← add_div, ← Int.cast_add]
  congr 2
  omega

theorem splitAssetsByBPS_deployer (assets) : splitAssetsByBPS lib assets deployerProfitBPS =
      (normalizeTxAssets lib (withUnits (shareUnits deployerProfitBPS) assets),
        normalizeTxAssets lib
          (withUnits (fun a => a.amount.value - shareUnits deployerProfitBPS a) assets)) := by
  rw [splitAssetsByBPS]
  split
  · rename_i hnil
    rw [hnil]
    rfl
  · rw [if_neg (by decide), if_neg (by decide)]

theorem paidAll_filter_isZero (outputs) :
    paidAll (outputs.filter fun o => !o.isZero) = paidAll outputs := by
  induction outputs with
  | nil => rfl
  | cons o outputs ih =>
    rw [filter_cons, paidAll_cons]
    by_cases hzero : o.isZero = true
    · rw [if_neg (by simp [hzero]), ih, ResultOutput.worth_of_isZero hzero, zero_add]
    · rw [if_pos (by simpa using hzero), paidAll_cons, ih]

def cutWorth (policy : AssetPrecisionPolicy) (o : ResultOutput) : Wealth :=
  (o.value, fun n => policy.cut n.text (holdings o.assets n))

theorem worth_normalizeResultOutputPrecision (hlib : lib.Exact) (h : NonnegAssets o.assets) :
    (normalizeResultOutputPrecision lib o policy).worth = cutWorth policy o :=
  Prod.ext (normalizeResultOutputPrecision_value o)
    (funext (atPrecision_normalizeResultOutputPrecision hlib h).holdings)

theorem splitSurplusOutput_profit (hlib : lib.Exact) {surplus : ResultOutput}
    {req : SurplusRequest} (hnonneg : NonnegAssets surplus.assets) (hmode : req.mode = .asProfit)
    (hdeployer : req.deployerAddress ≠ []) (hbootstrap : req.bootstrapAddress ≠ [])
    (h : splitSurplusOutput lib surplus req = .ok outs) :
    (∀ o ∈ outs, o.recipient = req.deployerAddress ∨ o.recipient = req.bootstrapAddress) ∧
      paidAll outs = cutWorth req.precision surplus := by
  have hworth : (normalizeResultOutputPrecision lib surplus req.precision).worth =
      cutWorth req.precision surplus := worth_normalizeResultOutputPrecision hlib hnonneg
  have hat : AtPrecision req.precision surplus.assets
      (normalizeResultOutputPrecision lib surplus req.precision).assets :=
    atPrecision_normalizeResultOutputPrecision hlib hnonneg
  simp only [splitSurplusOutput] at h
  generalize normalizeResultOutputPrecision lib surplus req.precision = cutTo at h hworth hat
  split at h
  · rename_i hzero
    rw [← Except.ok.inj h, ← hworth, ResultOutput.worth_of_isZero hzero]
    exact ⟨forall_mem_nil _, rfl⟩
  simp only [hmode, hdeployer, hbootstrap, ne_eq, not_true_eq_false, false_or] at h
  split at h
  · have hrecipient : surplusRecipient req = req.deployerAddress := by
      simp [surplusRecipient, hmode, hdeployer]
    rw [← Except.ok.inj h, ← hworth, paidAll_eq]
    simp only [hrecipient, mem_singleton, forall_eq, true_or, map_cons, map_nil,
      sum_cons, sum_nil, add_zero, true_and]
    rfl
  · rw [splitAssetsByBPS_deployer] at h
    simp only [bind_eq_ok, orError_eq_ok, require_eq_ok, Except.ok.injEq] at h
    obtain ⟨dCarrier, _, bCarrier, _, total, htotal, _, _, rfl⟩ := h
    constructor
    · intro o ho
      have hmem := mem_of_mem_filter ho
      simp only [mem_cons, not_mem_nil, or_false] at hmem
      obtain rfl | rfl := hmem
      · exact Or.inl (normalizeResultOutputPrecision_recipient _)
      · exact Or.inr (normalizeResultOutputPrecision_recipient _)
    · rw [paidAll_filter_isZero, paidAll_eq, ← hworth]
      simp only [map_cons, map_nil, sum_cons, sum_nil, add_zero]
      refine Prod.ext ?_ ?_
      · simp only [ResultOutput.worth, Prod.fst_add, eq_of_addInt64 htotal]
        omega
      · simp only [ResultOutput.worth, Prod.snd_add]
        rw [holdings_share hlib hat.nodup hat.settled rfl,
          holdings_share hlib hat.nodup hat.settled rfl, holdings_shares hat.nonneg]

theorem splitContractProfit_spec (hlib : lib.Exact) {profit} {deployer bootstrap}
    (hnonneg : NonnegAssets profit.assets)
    (h : splitContractProfit lib profit deployer bootstrap policy = .ok outs) :
    (∀ o ∈ outs, o.recipient = deployer ∨ o.recipient = bootstrap) ∧
      paidAll outs = cutWorth policy profit := by
  have hworth : (normalizeResultOutputPrecision lib profit policy).worth =
      cutWorth policy profit := worth_normalizeResultOutputPrecision hlib hnonneg
  have hat : AtPrecision policy profit.assets
      (normalizeResultOutputPrecision lib profit policy).assets :=
    atPrecision_normalizeResultOutputPrecision hlib hnonneg
  simp only [splitContractProfit] at h
  split at h
  · rename_i hzero
    rw [← Except.ok.inj h, ← hworth, ResultOutput.worth_of_isZero hzero]
    exact ⟨forall_mem_nil _, rfl⟩
  · rw [ite_error_eq_ok, not_or] at h
    obtain ⟨hrecipients, hsum⟩ := splitSurplusOutput_profit hlib hat.nonneg rfl h.1.1 h.1.2 h.2
    refine ⟨hrecipients, hsum.trans (Prod.ext (normalizeResultOutputPrecision_value profit) ?_)⟩
    funext n
    simp only [cutWorth, hat.holdings, policy.cut_cut]

end SatoshiNet.Contract
