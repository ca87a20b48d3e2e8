import SatoshiNet.Contract.Settlement

/-!
A settled plan spends what it selects.  What an open contract keeps covers its managed remainder;
what a closed contract keeps is less than one unit of each asset.
-/

namespace SatoshiNet.Contract

open Lib Wire List Decimal

variable {lib : AmountLib}

/-! ### Gas -/

def gasWorth (gasAsset : Text) (fee : Decimal) : Wealth :=
  if gasAsset = satoshiAssetName then (⌊fee.toRat⌋, 0)
  else (newAssetNameFromString gasAsset).elim 0 fun name => (0, Pi.single name fee.toRat)

variable {amount fee : Decimal} {gasAsset : Text} {outputs : Outputs}
  {available : TxAssets} {bound : Outputs} {d : Decimal} {p : Text → Bool}
  {policy : AssetPrecisionPolicy} {refund : ResultGasRefund} {v : ℤ}

theorem decimalToInt64_eq (h : decimalToInt64 lib amount = .ok v) : amount.toRat = v ∧ 0 ≤ v := by
  simp only [decimalToInt64, bind_eq_ok, require_eq_ok, validateAssetDecimal, Bool.and_eq_true,
    decide_eq_true_eq, Except.ok.injEq] at h
  obtain ⟨_, ⟨_, hsign⟩, _, hprecision, _, _, rfl⟩ := h
  refine ⟨by rw [toRat, hprecision, zpow_zero, div_one], ?_⟩
  exact not_lt.mp fun hneg => absurd (sign_neg_iff.mpr hneg) (not_lt.mpr hsign)

theorem toRat_eq_zero_of_sign (h : 0 ≤ d.value) (hsign : ¬ 0 < d.sign) : d.toRat = 0 := by
  rw [sign_pos_iff] at hsign
  exact toRat_eq_zero_iff.mpr (le_antisymm (not_lt.mp hsign) h)

theorem gasSats_eq (hfee : 0 ≤ fee.value) (h : gasSats lib gasAsset fee = .ok v) :
    v = (gasWorth gasAsset fee).1 := by
  rw [gasSats] at h
  by_cases hgas : gasAsset = satoshiAssetName
  · rw [gasWorth, if_pos hgas]
    split_ifs at h with hsign
    · rw [(decimalToInt64_eq h).1, Int.floor_intCast]
    · rw [toRat_eq_zero_of_sign hfee fun hpos => hsign ⟨hgas, hpos⟩, Int.floor_zero]
      exact (Except.ok.inj h).symm
  · rw [if_neg fun hboth => hgas hboth.1] at h
    rw [gasWorth, if_neg hgas, ← Except.ok.inj h]
    cases newAssetNameFromString gasAsset <;> rfl

theorem newAssetSet_pos {gas} (hname : gasAsset ≠ []) (hsats : gasAsset ≠ satoshiAssetName)
    (hsign : 0 < fee.sign) (h : newAssetSet gasAsset fee = some gas) :
    ∃ name, newAssetNameFromString gasAsset = some name ∧ gas = [⟨name, fee, 0⟩] := by
  rw [newAssetSet, if_neg (by simp [hname, hsats, hsign.ne'])] at h
  obtain ⟨name, hparse, h⟩ := Option.bind_eq_some_iff.mp h
  rw [if_neg (not_lt.mpr hsign.le)] at h
  exact ⟨name, hparse, (Option.some.inj h).symm⟩

section

variable (hlib : lib.Exact)
include hlib

theorem splitGas_spec {held left : TxAssets} (hfee : 0 ≤ fee.value)
    (h : splitGas lib held gasAsset fee = .ok left) :
    holdings left + (gasWorth gasAsset fee).2 = holdings held ∧
      (NonnegAssets held → NonnegAssets left) := by
  rw [splitGas] at h
  split_ifs at h with hpaid
  · obtain ⟨hname, hsats, hsign⟩ := hpaid
    obtain ⟨gas, hgas, h⟩ := bind_eq_ok.mp h
    obtain ⟨name, hparse, rfl⟩ := newAssetSet_pos hname hsats hsign (orError_eq_ok.mp hgas)
    have hsplit := hlib.split (orError_eq_ok.mp h)
    rw [holdings_cons, holdings_nil, add_zero] at hsplit
    exact ⟨by rw [gasWorth, if_neg hsats, hparse]; exact hsplit,
      hlib.split_nonneg (orError_eq_ok.mp h)⟩
  · cases h
    refine ⟨?_, id⟩
    rw [gasWorth]
    split_ifs with hsats
    · exact add_zero _
    by_cases hname : gasAsset = []
    · rw [hname]
      exact add_zero _
    · rw [toRat_eq_zero_of_sign hfee fun hsign => hpaid ⟨hname, hsats, hsign⟩]
      cases newAssetNameFromString gasAsset with
      | none => exact add_zero _
      | some name => simp

theorem physicalRemainderAfterOutputs_spec {held left : ManagedBalance} (hfee : 0 ≤ fee.value)
    (h : physicalRemainderAfterOutputs lib held outputs gasAsset fee = .ok left) :
    left.worth + paidAll outputs + gasWorth gasAsset fee = held.worth ∧
      (NonnegAssets held.assets → NonnegAssets left.assets) := by
  simp only [physicalRemainderAfterOutputs, bind_eq_ok, orError_eq_ok, require_eq_ok,
    Except.ok.injEq] at h
  obtain ⟨outValue, houtValue, feeValue, hfeeValue, spent, hspent, _, _, outAssets, houtAssets,
    afterOutputs, hafterOutputs, afterGas, hafterGas, rfl⟩ := h
  obtain ⟨hsplit, hnonneg⟩ := ManagedBalance.split_spec hlib hafterOutputs
  obtain ⟨hgas, hnonneg'⟩ := splitGas_spec hlib hfee hafterGas
  refine ⟨Prod.ext ?_ ?_, fun hheld => nonneg_normalizeTxAssets hlib (hnonneg' (hnonneg hheld))⟩
  · have h₁ := resultOutputsValue_eq houtValue
    have h₂ := gasSats_eq hfee hfeeValue
    have h₃ := eq_of_addInt64 hspent
    simp only [ManagedBalance.worth, Prod.fst_add]
    omega
  · simp only [ManagedBalance.worth, Prod.snd_add, holdings_normalizeTxAssets hlib,
      ← resultOutputsAssets_holdings hlib houtAssets]
    rw [← hsplit, ← hgas]
    abel

theorem normalizeUp_nonneg (policy : AssetPrecisionPolicy) (name : Text) (h : 0 ≤ d.value) :
    0 ≤ (policy.normalizeUp lib name d).value := by
  have hzero : policy.up name 0 = 0 := by
    rw [AssetPrecisionPolicy.up]
    split <;> simp
  rw [← toRat_nonneg_iff, AssetPrecisionPolicy.toRat_normalizeUp hlib h, ← hzero]
  exact AssetPrecisionPolicy.up_mono (toRat_nonneg h)

theorem resultFee_nonneg {req : ManagedResultRequest} (h : resultFee lib req = .ok fee) :
    0 ≤ fee.value := by
  rw [resultFee, ite_error_eq_ok, sign_neg_iff, not_lt] at h
  rw [← Except.ok.inj h.2]
  exact normalizeUp_nonneg hlib _ _ h.1

/-! ### Outputs to the contract itself -/

theorem resultGasRefundIntent_pos {available}
    (h : resultGasRefundIntent lib refund available gasAsset = .ok (some amount)) :
    0 < amount.value := by
  rw [resultGasRefundIntent] at h
  split at h
  · cases h
  obtain ⟨funding, _, h⟩ := bind_eq_ok.mp h
  dsimp only at h
  split at h
  · cases h
  rw [ite_error_eq_ok] at h
  obtain ⟨_, h⟩ := h
  split_ifs at h with hcmp
  · cases h
  obtain rfl := Option.some.inj (Except.ok.inj h)
  rw [not_ne_iff, hlib.cmp, compare_gt_iff_gt] at hcmp
  rw [← toRat_pos_iff, hlib.sub]
  exact sub_pos.mpr hcmp

theorem resultOutputWithAsset_nonneg {recipient assetName} {o} (hamount : 0 ≤ amount.value)
    (h : resultOutputWithAsset lib recipient assetName amount = .ok o) :
    o.recipient = recipient ∧ NonnegAssets o.assets := by
  rw [resultOutputWithAsset] at h
  split_ifs at h
  · rw [← Except.ok.inj h]
    exact ⟨rfl, forall_mem_nil _⟩
  · obtain ⟨sats, _, h⟩ := bind_eq_ok.mp h
    obtain ⟨value, _, h⟩ := bind_eq_ok.mp h
    rw [← Except.ok.inj h]
    exact ⟨rfl, forall_mem_nil _⟩
  · obtain ⟨name, _, h⟩ := bind_eq_ok.mp h
    rw [← Except.ok.inj h]
    exact ⟨rfl, hlib.build_nonneg (forall_mem_singleton.mpr hamount)⟩

theorem gasRefundOutput_nonneg {view}
    (h : gasRefundOutput lib view gasAsset policy refund = .ok outputs) :
    ∀ o ∈ outputs, o.recipient = refund.recipient ∧ NonnegAssets o.assets := by
  obtain ⟨intent, hintent, h⟩ := bind_eq_ok.mp h
  cases intent with
  | none =>
    cases h
    exact forall_mem_nil _
  | some amount =>
    obtain ⟨output, houtput, h⟩ := bind_eq_ok.mp h
    cases h
    obtain ⟨hrecipient, hnonneg⟩ :=
      resultOutputWithAsset_nonneg hlib (resultGasRefundIntent_pos hlib hintent).le houtput
    refine forall_mem_singleton.mpr ⟨?_, ?_⟩
    · rw [normalizeResultOutputPrecision_recipient, hrecipient]
    · exact (atPrecision_normalizeResultOutputPrecision hlib hnonneg).nonneg

theorem resultGasRefundOutputs_nonneg {decode} {plan} {view refunds}
    (h : resultGasRefundOutputs lib decode plan view gasAsset policy = .ok refunds) :
    ∀ o ∈ refunds, (∃ r ∈ plan.gasRefunds, o.recipient = r.recipient) ∧ NonnegAssets o.assets := by
  rw [resultGasRefundOutputs] at h
  split at h
  · cases h
    exact forall_mem_nil _
  obtain ⟨_, _, h⟩ := bind_eq_ok.mp h
  obtain ⟨lists, hlists, h⟩ := bind_eq_ok.mp h
  cases h
  refine forall_flatten_of_mapM hlists fun r hr outs houts o ho => ?_
  obtain ⟨hrecipient, hnonneg⟩ := gasRefundOutput_nonneg hlib houts o ho
  exact ⟨⟨r, hr, hrecipient⟩, hnonneg⟩

end

theorem recipient_ne_of_mem_retain {contract : Text} (hcontract : contract ≠ []) :
    ∀ o ∈ removeContractRetainOutputs outputs contract, o.recipient ≠ contract := by
  intro o ho
  rw [removeContractRetainOutputs, if_neg hcontract] at ho
  exact of_decide_eq_true (mem_filter.mp ho).2

theorem paid_bindResultOutputs_snd (p) (h : bindResultOutputs lib outputs available = .ok bound) :
    (paid p bound).2 = (paid p outputs).2 := by
  induction outputs generalizing bound with
  | nil =>
    cases h
    rfl
  | cons o outputs ih =>
    obtain ⟨b, hb, rest, hrest, rfl⟩ := mapM_cons_eq_ok.mp h
    obtain ⟨hrecipient, hassets⟩ := bindResultOutput_spec hb
    rw [paid_cons, paid_cons, Prod.snd_add, Prod.snd_add, ih hrest, hrecipient]
    refine congrArg (· + (paid p outputs).2) ?_
    split
    · exact hassets
    · rfl

theorem exists_of_mem_bindResultOutputs (h : bindResultOutputs lib outputs available = .ok bound) :
    ∀ b ∈ bound, ∃ o ∈ outputs, b.recipient = o.recipient := by
  intro b hb
  obtain ⟨o, ho, hbind⟩ := exists_of_mem_mapM h hb
  exact ⟨o, ho, (bindResultOutput_spec hbind).1⟩

theorem value_nonneg_of_resultOutputsValue {value : ℤ}
    (h : resultOutputsValue outputs = .ok value) : ∀ o ∈ outputs, 0 ≤ o.value := by
  intro o ho
  obtain ⟨_, _, hstep⟩ := foldlM_steps h o ho
  exact (addOutputValue_eq_ok hstep).1

theorem paid_fst_nonneg (h : ∀ o ∈ outputs, 0 ≤ o.value) : 0 ≤ (paid p outputs).1 := by
  induction outputs with
  | nil => exact le_rfl
  | cons o outputs ih =>
    obtain ⟨ho, hrest⟩ := forall_mem_cons.mp h
    rw [paid_cons, Prod.fst_add]
    refine add_nonneg ?_ (ih hrest)
    split
    · exact ho
    · exact le_rfl

theorem paid_snd_nonneg (h : ∀ o ∈ outputs, p o.recipient = true → NonnegAssets o.assets) :
    0 ≤ (paid p outputs).2 := by
  induction outputs with
  | nil => exact le_rfl
  | cons o outputs ih =>
    obtain ⟨ho, hrest⟩ := forall_mem_cons.mp h
    rw [paid_cons, Prod.snd_add]
    refine add_nonneg ?_ (ih hrest)
    split
    · exact (ho ‹_›).holdings_nonneg
    · exact le_rfl

/-! ### The whole settlement -/

theorem ManagedBalance.worth_of_isZero {b : ManagedBalance} (h : b.isZero = true) :
    b.worth = 0 := by
  obtain ⟨hvalue, hassets⟩ := Bool.and_eq_true_iff.mp h
  have hnil : (b.assets.filter fun a => a.amount.sign ≠ 0) = [] := by
    refine filter_eq_nil_iff.mpr fun a ha => ?_
    have hzero := of_decide_eq_true (all_eq_true.mp hassets a ha)
    simp [hzero]
  rw [worth, of_decide_eq_true hvalue, ← holdings_filter_sign, hnil]
  rfl

theorem paySatoshiFee_spec {budget after} {fee : ℤ} (h : paySatoshiFee lib budget fee = .ok after) :
    after.worth + (fee, 0) = budget.worth ∧ after.assets = budget.assets := by
  rw [paySatoshiFee, ite_error_eq_ok] at h
  obtain ⟨_, h⟩ := h
  split_ifs at h with hzero
  · cases h
    exact ⟨by rw [hzero]; exact add_zero _, rfl⟩
  · obtain ⟨plain, _, h⟩ := bind_eq_ok.mp h
    rw [ite_error_eq_ok] at h
    obtain rfl := Except.ok.inj h.2
    exact ⟨Prod.ext (Int.sub_add_cancel _ _) (add_zero _), rfl⟩

theorem anomalyOutputs_spec {bootstrap : Text} {anomaly : ManagedBalance}
    {outs : Outputs} (h : anomalyOutputs bootstrap anomaly = .ok outs) :
    (∀ o ∈ outs, o.recipient = bootstrap) ∧ paidAll outs = anomaly.worth := by
  rw [anomalyOutputs] at h
  split at h
  · rename_i hzero
    cases h
    exact ⟨forall_mem_nil _, (ManagedBalance.worth_of_isZero hzero).symm⟩
  · rw [ite_error_eq_ok] at h
    obtain rfl := Except.ok.inj h.2
    exact ⟨forall_mem_singleton.mpr rfl, by rw [paidAll_cons]; exact add_zero _⟩

theorem paidAll_changeOutputs (contract) (change) :
    paidAll (changeOutputs contract change) = change.worth ∧
      paidTo contract (changeOutputs contract change) = change.worth := by
  have hall : ∀ o ∈ changeOutputs contract change, o.recipient = contract := by
    intro o ho
    rw [mem_singleton.mp (mem_of_mem_filter ho)]
  have hsum : paidAll (changeOutputs contract change) = change.worth := by
    rw [changeOutputs, paidAll_filter_isZero, paidAll_cons]
    exact add_zero _
  refine ⟨hsum, ?_⟩
  rw [← hsum, paidTo, paidAll, paid, paid, filter_true, filter_eq_self.mpr]
  exact fun o ho => decide_eq_true (hall o ho)

def ResultPlan.spent (plan : ResultPlan) : Wealth := (plan.inputUtxos.map Utxo.worth).sum

def ResultPlan.Balanced (gasAsset : Text) (plan : ResultPlan) : Prop :=
  plan.spent = paidAll plan.outputs + paidAll plan.feeOutputs + (plan.satoshiFee, 0) +
    gasWorth gasAsset (cloneDecimal plan.gasFee)

def ResultPlan.left (view : ResultPlanUtxoView) (plan : ResultPlan) : Wealth :=
  (view.value, holdings view.assets) - plan.spent + paidTo plan.contract plan.outputs

def ResultPlan.kept (view : ResultPlanUtxoView) (plan : ResultPlan) : Wealth :=
  plan.left view + paidTo plan.contract plan.feeOutputs

/-- Less than one unit at the precision of the policy; nothing where there is no precision. -/
def AssetPrecisionPolicy.Below (policy : AssetPrecisionPolicy) (name : Text) (q : ℚ) : Prop :=
  0 ≤ q ∧ match policy.precisionForAsset name with
    | none => q = 0
    | some p => if p < 0 then q = 0 else q < (10 ^ p)⁻¹

theorem AssetPrecisionPolicy.below_sub_cut (policy : AssetPrecisionPolicy) (name : Text) (q : ℚ) :
    policy.Below name (q - policy.cut name q) := by
  refine ⟨sub_nonneg.mpr (policy.cut_le name q), ?_⟩
  rw [cut]
  cases policy.precisionForAsset name with
  | none => exact sub_self q
  | some p =>
    by_cases hp : p < 0
    · simp [if_pos hp]
    · simp only [if_neg hp]
      exact sub_lt_iff_lt_add'.mpr (lt_cut_add p q)

namespace Account

variable {decode : Text → Option ContractAddress} {req : ManagedResultRequest} {t : Account}
  (hlib : lib.Exact) (h : t.Follows lib decode req)
include hlib h

theorem Follows.fee_nonneg : 0 ≤ t.fee.value := resultFee_nonneg hlib h.fee

theorem Follows.view :
    t.anomaly.worth + t.budget.worth = (req.view.value, holdings req.view.assets) ∧
      0 ≤ t.anomaly.worth := ManagedBalance.debit_spec hlib h.anomaly

theorem Follows.remainder_worth :
    t.remainder.worth + paidAll (t.outputs ++ t.feeOutputs) + gasWorth req.gasAssetName t.fee +
      (req.plan.satoshiFee, 0) = t.budget.worth ∧ NonnegAssets t.remainder.assets := by
  obtain ⟨hfee, hsame⟩ := paySatoshiFee_spec h.afterFee
  obtain ⟨hsum, hnonneg⟩ := physicalRemainderAfterOutputs_spec hlib (h.fee_nonneg hlib) h.remainder
  obtain ⟨_, hvalid, _⟩ := ManagedBalance.debit_eq_ok.mp h.anomaly
  exact ⟨by rw [hsum, hfee], hnonneg (hsame ▸ hvalid.nonneg)⟩

theorem Follows.selected_worth :
    (t.selected.utxos.map Utxo.worth).sum = t.change.worth + paidAll t.spends +
      gasWorth req.gasAssetName t.fee + (req.plan.satoshiFee, 0) := by
  obtain ⟨hsum, _⟩ := physicalRemainderAfterOutputs_spec hlib (h.fee_nonneg hlib) h.change
  rw [(selectResultFunding_funded hlib h.selected).1, hsum]
  exact Prod.ext (Int.sub_add_cancel _ _).symm (add_zero _).symm

theorem Follows.compacted_paid (p) : paid p t.compacted = paid p t.outputs + paid p t.closing +
      paid p (changeOutputs req.plan.contract t.change) := by
  rw [compactResultOutputs_paid hlib p h.compacted, paid_append, paid_append]

omit hlib in
theorem Follows.closing_open (hopen : req.closed = false) : t.closing = [] := by
  have hclosing := h.closing
  rw [closeOutputs, if_pos hopen] at hclosing
  exact (Except.ok.inj hclosing).symm

theorem Follows.closing_closed (hclosed : req.closed = true) :
    (∀ o ∈ t.closing, o.recipient = req.deployerAddress ∨ o.recipient = req.bootstrapAddress) ∧
      paidAll t.closing = (t.remainder.value,
        fun n => req.precision.cut n.text (holdings t.remainder.assets n)) + t.anomaly.worth := by
  have hclosing := h.closing
  rw [closeOutputs, if_neg (by rw [hclosed]; decide)] at hclosing
  obtain ⟨profit, hprofit, hclosing⟩ := bind_eq_ok.mp hclosing
  obtain ⟨surplus, hsurplus, hclosing⟩ := bind_eq_ok.mp hclosing
  obtain ⟨hrecipients, hsum⟩ := splitContractProfit_spec hlib (h.remainder_worth hlib).2 hprofit
  obtain ⟨hrecipients', hsum'⟩ := anomalyOutputs_spec hsurplus
  rw [← Except.ok.inj hclosing, paidAll_append]
  refine ⟨forall_mem_append.mpr ⟨hrecipients, fun o ho => Or.inr (hrecipients' o ho)⟩, ?_⟩
  rw [hsum', hsum]
  rfl

theorem Follows.outputs_to_contract
    (hcontract : req.plan.contract ≠ []) : 0 ≤ paidTo req.plan.contract t.outputs := by
  have houtputs := h.outputs
  simp only [settledOutputs, bind_eq_ok, Except.ok.injEq, Prod.mk.injEq] at houtputs
  obtain ⟨refunds, hrefunds, outputs, hbound, feeOutputs, _, rfl, _⟩ := houtputs
  constructor
  · obtain ⟨value, hvalue, _⟩ := bind_eq_ok.mp h.remainder
    exact paid_fst_nonneg fun o ho =>
      value_nonneg_of_resultOutputsValue hvalue o (mem_append_left _ ho)
  · rw [paidTo, paid_bindResultOutputs_snd _ hbound]
    refine paid_snd_nonneg fun o ho hto => ?_
    obtain ho | ho := mem_append.mp ho
    · exact absurd (of_decide_eq_true hto) (recipient_ne_of_mem_retain hcontract o ho)
    · exact (resultGasRefundOutputs_nonneg hlib hrefunds o ho).2

theorem Follows.left_worth :
    (req.view.value, holdings req.view.assets) - (t.selected.utxos.map Utxo.worth).sum +
      paidTo req.plan.contract t.compacted =
      t.anomaly.worth + t.remainder.worth - paidAll t.closing +
        (paidTo req.plan.contract t.outputs + paidTo req.plan.contract t.closing) := by
  have hspends : paidAll t.spends = paidAll t.outputs + paidAll t.closing + paidAll t.feeOutputs := by
    rw [spends, paidAll_append, paidAll_append]
  have hcompacted : paidTo req.plan.contract t.compacted = paidTo req.plan.contract t.outputs +
      paidTo req.plan.contract t.closing + t.change.worth := by
    rw [← (paidAll_changeOutputs req.plan.contract t.change).2]
    exact h.compacted_paid hlib _
  rw [← (h.view hlib).1, ← (h.remainder_worth hlib).1, h.selected_worth hlib, hcompacted, hspends,
    paidAll_append]
  abel

theorem Follows.balanced : (t.plan req).Balanced req.gasAssetName := by
  have hcompacted : paidAll t.compacted = paidAll t.outputs + paidAll t.closing +
      t.change.worth := by
    rw [← (paidAll_changeOutputs req.plan.contract t.change).1]
    exact h.compacted_paid hlib _
  change (t.selected.utxos.map Utxo.worth).sum = paidAll t.compacted + paidAll t.feeOutputs +
    (req.plan.satoshiFee, 0) + gasWorth req.gasAssetName t.fee
  rw [h.selected_worth hlib, hcompacted, spends, paidAll_append, paidAll_append]
  abel

theorem Follows.covers (hcontract : req.plan.contract ≠ []) (hopen : req.closed = false) :
    t.remainder.worth ≤ (t.plan req).left req.view := by
  have hleft := h.left_worth hlib
  simp only [h.closing_open hopen, paid_nil, sub_zero, add_zero] at hleft
  change t.remainder.worth ≤ (req.view.value, holdings req.view.assets) -
    (t.selected.utxos.map Utxo.worth).sum + paidTo req.plan.contract t.compacted
  rw [hleft, add_comm t.anomaly.worth, add_assoc]
  exact le_add_of_nonneg_right
    (add_nonneg (h.view hlib).2 (h.outputs_to_contract hlib hcontract))

theorem Follows.outputs_elsewhere
    (hcontract : req.plan.contract ≠ [])
    (hrefunds : ∀ r ∈ req.plan.gasRefunds, r.recipient ≠ req.plan.contract)
    (hfees : ∀ o ∈ req.plan.feeOutputs, o.recipient ≠ req.plan.contract) :
    paidTo req.plan.contract t.outputs = 0 ∧ paidTo req.plan.contract t.feeOutputs = 0 := by
  have houtputs := h.outputs
  simp only [settledOutputs, bind_eq_ok, Except.ok.injEq, Prod.mk.injEq] at houtputs
  obtain ⟨refunds, hrefund, outputs, hbound, feeOutputs, hfeeBound, rfl, rfl⟩ := houtputs
  constructor
  · refine paid_eq_zero fun b hb => decide_eq_false ?_
    obtain ⟨o, ho, heq⟩ := exists_of_mem_bindResultOutputs hbound b hb
    rw [heq]
    obtain ho | ho := mem_append.mp ho
    · exact recipient_ne_of_mem_retain hcontract o ho
    · obtain ⟨⟨r, hr, hto⟩, _⟩ := resultGasRefundOutputs_nonneg hlib hrefund o ho
      rw [hto]
      exact hrefunds r hr
  · refine paid_eq_zero fun b hb => decide_eq_false ?_
    obtain ⟨o, ho, heq⟩ := exists_of_mem_bindResultOutputs hfeeBound b hb
    obtain ⟨o', ho', rfl⟩ := mem_map.mp (mem_of_mem_filter ho)
    rw [heq, normalizeResultOutputPrecision_recipient]
    exact hfees o' ho'

theorem Follows.closed_left
    (hclosed : req.closed = true) (hdeployer : req.deployerAddress ≠ req.plan.contract)
    (hbootstrap : req.bootstrapAddress ≠ req.plan.contract)
    (houtputs : paidTo req.plan.contract t.outputs = 0) :
    (t.plan req).left req.view = (0, fun n => holdings t.remainder.assets n -
      req.precision.cut n.text (holdings t.remainder.assets n)) := by
  obtain ⟨hrecipients, hsum⟩ := h.closing_closed hlib hclosed
  have hclosing : paidTo req.plan.contract t.closing = 0 := by
    refine paid_eq_zero fun o ho => decide_eq_false ?_
    obtain hto | hto := hrecipients o ho
    · rw [hto]
      exact hdeployer
    · rw [hto]
      exact hbootstrap
  have hleft := h.left_worth hlib
  rw [houtputs, hclosing, add_zero, add_zero, hsum, add_comm t.anomaly.worth,
    add_sub_add_right_eq_sub] at hleft
  refine hleft.trans (Prod.ext ?_ rfl)
  exact sub_self t.remainder.value

end Account

/-- Every accepted plan balances.  An open contract keeps what it manages; a closed one, if nothing
is addressed to it, keeps no satoshi and of every asset only what no output can express. -/
theorem augmentManagedResultPlan_accounts (hlib : lib.Exact)
    {decode : Text → Option ContractAddress} {req : ManagedResultRequest} {plan : ResultPlan}
    (hnew : req.plan.managedRemainder = none)
    (h : augmentManagedResultPlan lib decode req = .ok plan) : plan.Balanced req.gasAssetName ∧
      (req.plan.contract ≠ [] → req.closed = false → req.plan.inputScope ≠ .explicit →
        ∃ remainder, plan.managedRemainder = some remainder ∧
          remainder.worth ≤ plan.left req.view) ∧
      (req.plan.contract ≠ [] → req.closed = true → req.deployerAddress ≠ req.plan.contract →
        req.bootstrapAddress ≠ req.plan.contract →
        (∀ r ∈ req.plan.gasRefunds, r.recipient ≠ req.plan.contract) →
        (∀ o ∈ req.plan.feeOutputs, o.recipient ≠ req.plan.contract) →
        (plan.kept req.view).1 = 0 ∧
          ∀ n, req.precision.Below n.text ((plan.kept req.view).2 n)) := by
  obtain ⟨t, ht, rfl⟩ := (augmentManagedResultPlan_eq_ok hnew).mp h
  refine ⟨ht.balanced hlib, fun hcontract hopen _ => ⟨t.remainder, rfl, ?_⟩, ?_⟩
  · exact ht.covers hlib hcontract hopen
  · intro hcontract hclosed hdeployer hbootstrap hrefunds hfees
    obtain ⟨houtputs, hfeeOutputs⟩ := ht.outputs_elsewhere hlib hcontract hrefunds hfees
    have hleft := ht.closed_left hlib hclosed hdeployer hbootstrap houtputs
    have hfee : paidTo (t.plan req).contract (t.plan req).feeOutputs = 0 := hfeeOutputs
    rw [ResultPlan.kept, hleft, hfee, add_zero]
    exact ⟨rfl, fun n => req.precision.below_sub_cut n.text _⟩

def sampleToken : AssetName := ⟨['o'], ['f'], ['t']⟩

def sampleAddress : ContractAddress := ⟨['t'], [1, 1, 7]⟩

def sampleInput : OutPoint := ⟨['a'], 0⟩

/-- A contract that manages its only output, whose assets settle in whole units. -/
def sampleRequest (plan : ResultPlan) (closed : Bool) (assets : TxAssets) :
    ManagedResultRequest where
  plan := plan
  view := ⟨sampleAddress, [⟨sampleInput, sampleAddress, 1, some ⟨10, assets, []⟩⟩], [sampleInput],
    10, assets⟩
  managed := ⟨10, assets⟩
  closed := closed
  deployerAddress := ['d']
  bootstrapAddress := ['b']
  gasAssetName := satoshiAssetName
  precision := ⟨0, some fun _ => some 0⟩

def oneAndAHalf : TxAssets := [⟨sampleToken, ⟨1, 15⟩, 0⟩]

def openRequest : ManagedResultRequest :=
  sampleRequest { contract := ['c'], satoshiFee := 1, outputs := [{ recipient := ['u'], value := 3 }] }
    false oneAndAHalf

def dustRequest : ManagedResultRequest := sampleRequest { contract := ['c'] } true oneAndAHalf

def selfFeeRequest : ManagedResultRequest :=
  sampleRequest { contract := ['c'], feeOutputs := [{ recipient := ['c'], value := 4 }] } true []

def selfRefundRequest : ManagedResultRequest :=
  sampleRequest { contract := ['c'], gasRefunds := [⟨['c'], [sampleInput], none, some ⟨0, 4⟩⟩] }
    true []

def settleSample (req : ManagedResultRequest) : ResultM ResultPlan :=
  augmentManagedResultPlan Reference.amountLib (fun _ => some sampleAddress) req

theorem settleSample_accounts :
    (∃ plan, settleSample openRequest = .ok plan ∧ plan.Balanced satoshiAssetName ∧
      ∃ remainder, plan.managedRemainder = some remainder ∧
        remainder.worth ≤ plan.left openRequest.view) ∧
    ∃ plan, settleSample dustRequest = .ok plan ∧ (plan.kept dustRequest.view).1 = 0 ∧
      ∀ n, dustRequest.precision.Below n.text ((plan.kept dustRequest.view).2 n) := by
  obtain ⟨plan, hplan⟩ := exists_of_isOk (x := settleSample openRequest) (by decide +kernel)
  obtain ⟨closed, hclosed⟩ := exists_of_isOk (x := settleSample dustRequest) (by decide +kernel)
  obtain ⟨hbalanced, hopen, _⟩ :=
    augmentManagedResultPlan_accounts Reference.amountLib_exact rfl hplan
  obtain ⟨_, _, hkept⟩ := augmentManagedResultPlan_accounts Reference.amountLib_exact rfl hclosed
  exact ⟨⟨plan, hplan, hbalanced, hopen (by decide) rfl (by decide)⟩, closed, hclosed,
    hkept (by decide) rfl (by decide) (by decide) (forall_mem_nil _) (forall_mem_nil _)⟩

/-- Something stays at a closed contract that is neither deployer nor bootstrap address. -/
def KeepsSomething (req : ManagedResultRequest) : Prop :=
  req.plan.managedRemainder = none ∧ req.closed = true ∧
    req.deployerAddress ≠ req.plan.contract ∧ req.bootstrapAddress ≠ req.plan.contract ∧
    ∃ plan, settleSample req = .ok plan ∧ plan.kept req.view ≠ 0

theorem closed_contract_not_emptied : KeepsSomething dustRequest ∧ KeepsSomething selfFeeRequest ∧
      KeepsSomething selfRefundRequest := by
  refine ⟨⟨rfl, rfl, by decide, by decide, ?_⟩, ⟨rfl, rfl, by decide, by decide, ?_⟩,
    ⟨rfl, rfl, by decide, by decide, ?_⟩⟩
  -- half a token is less than a whole unit
  · obtain ⟨plan, hplan, hkept⟩ := exists_of_any (x := settleSample dustRequest)
      (p := fun plan => (plan.kept dustRequest.view).2 sampleToken = 1 / 2) (by decide +kernel)
    refine ⟨plan, hplan, fun hzero => ?_⟩
    rw [hzero] at hkept
    exact absurd hkept (by decide +kernel)
  · obtain ⟨plan, hplan, hkept⟩ := exists_of_any (x := settleSample selfFeeRequest)
      (p := fun plan => (plan.kept selfFeeRequest.view).1 = 4) (by decide +kernel)
    refine ⟨plan, hplan, fun hzero => ?_⟩
    rw [hzero] at hkept
    exact absurd hkept (by decide)
  · obtain ⟨plan, hplan, hkept⟩ := exists_of_any (x := settleSample selfRefundRequest)
      (p := fun plan => (plan.kept selfRefundRequest.view).1 = 6) (by decide +kernel)
    refine ⟨plan, hplan, fun hzero => ?_⟩
    rw [hzero] at hkept
    exact absurd hkept (by decide)

end SatoshiNet.Contract
