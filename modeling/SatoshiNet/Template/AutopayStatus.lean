import SatoshiNet.Template.AutopayRun
import SatoshiNet.Template.Payout

/-!
The status of an autopay contract: when a settlement calls it active, the gas covers the trigger fee
of the next payment and some delegate can pay, as long as nobody cancels without a delegate.
-/

namespace SatoshiNet.Template

open Lib Wire Contract List Decimal
open Std (ExtTreeMap)
open AutopayRunningData
open AutopayStatus

def AutopayContract.Pays (lib : DecimalLib) (c : AutopayContract) (set : Option Decimal) : Prop :=
  ∃ amount, set = some amount ∧ 0 < amount.toRat ∧
    (c.feeAssetName = satoshiAssetName → ∃ v, autopaySatoshiValue lib amount = .ok v)

def GasTerms.Falls (terms : GasTerms) : Prop :=
  ∀ h h' fee fee', 0 ≤ h → h ≤ h' → terms.triggerGasFee h = .ok fee →
    terms.triggerGasFee h' = .ok fee' → fee'.toRat ≤ fee.toRat

/-- The price of gas only decays, and rounding up keeps the order. -/
theorem falls_gasTerms {lib : DecimalLib} (hlib : lib.Lawful) {config : GasConfig}
    (hdecay : config.gasPriceDecayNumerator ≤ config.gasPriceDecayDenominator) (assetPrecision) :
    (gasTerms lib config assetPrecision).Falls := by
  intro h h' fee fee' hnonneg hle hfee hfee'
  obtain ⟨raw, hraw, hfee⟩ := bind_eq_ok.mp hfee
  obtain ⟨raw', hraw', hfee'⟩ := bind_eq_ok.mp hfee'
  rw [if_neg (not_lt.mpr hnonneg), mapError_eq_ok] at hraw
  rw [if_neg (not_lt.mpr (hnonneg.trans hle)), mapError_eq_ok] at hraw'
  obtain ⟨hpos, hfalls⟩ := GasConfig.contractFundingFee_falls hdecay hlib.exact (Int.toNat_le_toNat hle)
    hraw hraw'
  rw [← Except.ok.inj hfee, ← Except.ok.inj hfee',
    AssetPrecisionPolicy.toRat_normalizeUp hlib.exact (toRat_nonneg_iff.mp hpos),
    AssetPrecisionPolicy.toRat_normalizeUp hlib.exact (toRat_nonneg_iff.mp (hpos.trans hfalls))]
  exact AssetPrecisionPolicy.up_mono hfalls

structure CanPay (lib : DecimalLib) (c : AutopayContract) (r : AutopayRunningData) (a : Text) :
    Prop where
  named : a ≠ []
  known : HasDelegate r a
  positive : 0 < (rateOf lib c r a).toRat
  covered : (rateOf lib c r a).toRat ≤ r.balanceOf a

def Truthful (lib : DecimalLib) (c : AutopayContract) (terms : GasTerms) (r : AutopayRunningData) :
    Prop :=
  r.autopayStatus = .active ↔
    (∃ fee, terms.triggerGasFee r.nextPayHeight = .ok fee ∧ fee.toRat ≤ amountOf r.gasBalance) ∧
      ∃ a, CanPay lib c r a

/-- Every delegate has its amount, and a contract that is not closed does not say so. -/
structure Orderly (lib : DecimalLib) (c : AutopayContract) (r : AutopayRunningData) : Prop where
  priced : ∀ a, HasDelegate r a → c.Pays lib (amountAt r a)
  stage : r.closed = false → r.autopayStatus ≠ .closed ∧ r.autopayStatus ≠ .expired

def KnownCancels (s : AutopayState) : AutopayOp → Prop
  | .settle height _ => ∀ item ∈ s.items, item.pending height = true → item.orderType = .cancel →
      HasDelegate s.running item.address
  | _ => True

section Steps

variable {lib : DecimalLib} {c : AutopayContract} {a : Text} {height : ℤ}
  {items items' : List InvokeItem} {plan plan' : SettlementPlan}
  {r r' r₀ : AutopayRunningData} {deployer : Text} {terms : GasTerms}

theorem Orderly.returning (h : Orderly lib c r₀)
    (hret : Returning lib (HasDelegate r₀) r₀ r plan) : Orderly lib c r := by
  refine ⟨fun a ha => ?_, fun hopen => ?_⟩
  · rw [hret.amounts]
    exact h.priced a ((hret.known a ha).elim id id)
  · obtain ⟨hopen, hsame | hactive⟩ := hret.stays hopen
    · rw [hsame]
      exact h.stage hopen
    · rw [hactive]
      exact ⟨noConfusion, noConfusion⟩

/-! ### What is pending after a pass -/

theorem pending_of_invalid
    (h : applyInvalidItemsInRange lib c.feeAssetName satoshiAssetName (some height) height plan
      items = .ok (plan', items')) {item} (hitem : item ∈ items')
    (hpending : item.pending height = true) : item ∈ items := by
  obtain ⟨a, ha, ⟨rfl, -⟩ | ⟨-, hreason, rfl⟩⟩ :=
    exists_of_forall₂_right (applyInvalidItemsInRange_items h) hitem
  · exact ha
  · simp [InvokeItem.pending, hreason] at hpending

theorem pending_of_cancels
    (h : applyAutopayCancels lib c height r plan items = .ok (r', plan', items')) {item}
    (hitem : item ∈ items') (hpending : item.pending height = true) : item ∈ items := by
  obtain ⟨⟨⟨cancelled, p⟩, its⟩, hwalk, hrun⟩ := bind_eq_ok.mp h
  cases hrun
  have hall : List.Forall₂ (fun a a' => a' = a ∨ a' = { a with done := .cancelled }) items items' := by
    refine (walk_forall₂ (I := fun _ => True) items ?_ trivial hwalk).2
    intro acc a acc' a' _ _ hstep
    rw [applyAutopayCancel] at hstep
    split at hstep
    · obtain ⟨_, -, heq⟩ := bind_eq_ok.mp hstep
      cases heq
      exact ⟨trivial, .inr rfl⟩
    · cases hstep
      exact ⟨trivial, .inl rfl⟩
  obtain ⟨a, ha, rfl | rfl⟩ := exists_of_forall₂_right hall hitem
  · exact ha
  · simp [InvokeItem.pending, InvokeItem.finished] at hpending

theorem applyAutopayClose_none (h : ∀ item ∈ items, item.pending height = true →
    item.orderType ≠ .close) :
    applyAutopayClose lib c terms deployer height r plan items = .ok none := by
  induction items with
  | nil => rfl
  | cons item items ih =>
    rw [applyAutopayClose, if_neg fun hc => h item mem_cons_self hc.1 hc.2,
      ih fun i hi => h i (mem_cons_of_mem _ hi)]
    rfl

/-! ### Who can pay -/

theorem AutopayContract.Pays.rate (h : c.Pays lib (amountAt r a)) :
    amountAt r a = some (rateOf lib c r a) := by
  obtain ⟨amount, hamount, hpos, -⟩ := h
  have hsign : ¬ amount.sign ≤ 0 := mt sign_nonpos_iff.mp (not_le.mpr hpos)
  have hset : (r.autopayDelegates[a]?.getD {}).amountPerBlock = some amount := hamount
  rw [hamount, rateOf, delegateAmount, hset]
  exact congrArg some (if_neg hsign).symm

variable (hlib : lib.Lawful) (hc : c.Checked lib)
include hlib hc

theorem hasActiveDelegate_iff (h : Orderly lib c r) (hb : Books lib r) :
    hasActiveDelegate lib r = true ↔ ∃ a, CanPay lib c r a := by
  have hentry : ∀ a d, r.autopayDelegates[a]? = some d → HasDelegate r a ∧
      (lib.cmp (decimalOrZero lib d.balance) (decimalOrZero lib d.amountPerBlock) ≠ .lt ↔
        (rateOf lib c r a).toRat ≤ r.balanceOf a) := by
    intro a d hd
    have hknown : HasDelegate r a := by rw [HasDelegate, hd]; rfl
    have hamount : d.amountPerBlock = amountAt r a := by rw [amountAt, hd]; rfl
    rw [cmp_ne_lt hlib, toRat_decimalOrZero hlib, toRat_decimalOrZero hlib, hamount,
      (h.priced a hknown).rate, balanceOf, hd]
    exact ⟨hknown, .rfl⟩
  rw [hasActiveDelegate, any_eq_true]
  constructor
  · rintro ⟨⟨a, d⟩, hmem, hcmp⟩
    obtain ⟨hknown, hiff⟩ := hentry a d (ExtTreeMap.mem_toList_iff_getElem?_eq_some.mp hmem)
    have hle := hiff.mp (of_decide_eq_true hcmp)
    have hpos := rateOf_pos hlib hc r a
    refine ⟨a, ?_, hknown, hpos, hle⟩
    rintro rfl
    rw [hb.nameless] at hle
    exact absurd hpos (not_lt.mpr hle)
  · rintro ⟨a, hpay⟩
    obtain ⟨d, hd⟩ := Option.isSome_iff_exists.mp hpay.known
    exact ⟨(a, d), ExtTreeMap.mem_toList_iff_getElem?_eq_some.mpr hd,
      decide_eq_true ((hentry a d hd).2.mpr hpay.covered)⟩

theorem truthful_of_status (hb : Books lib r) (h : ∀ a, HasDelegate r a → c.Pays lib (amountAt r a))
    (hnext : r.nextPayHeight ≠ 0)
    (hstatus : r.autopayStatus = autopayFundingStatus lib terms r height) :
    Orderly lib c r ∧ Truthful lib c terms r := by
  rw [autopayFundingStatus, if_neg hnext] at hstatus
  have hstage : r.autopayStatus ≠ .closed ∧ r.autopayStatus ≠ .expired := by
    rw [hstatus]
    split
    · decide
    · split <;> decide
  have horder : Orderly lib c r := ⟨h, fun _ => hstage⟩
  rw [Truthful, ← hasActiveDelegate_iff hlib hc horder hb]
  refine ⟨horder, ?_⟩
  cases hfee : terms.triggerGasFee r.nextPayHeight with
  | error e =>
    simp only [hfee] at hstatus
    simp [hstatus]
  | ok fee =>
    simp only [hfee, cmp_ne_lt hlib, toRat_decimalOrZero hlib] at hstatus
    split at hstatus <;> simp_all

omit hlib hc in
theorem collectAutopayFee_isOk (h : c.Pays lib (amountAt r a)) (total) :
    ∃ after, collectAutopayFee lib c height (r, total) a = .ok after ∧
      ∀ b, amountAt after.1 b = amountAt r b := by
  unfold collectAutopayFee
  simp only
  split
  · exact ⟨_, rfl, amountAt_setDelegate r rfl⟩
  have hcheck : checkWhen (c.feeAssetName = satoshiAssetName) ((autopaySatoshiValue lib
      (delegateAmount lib c (r.autopayDelegates[a]?.getD {}))).map fun _ => PUnit.unit) = .ok ⟨⟩ := by
    refine checkWhen_eq_ok.mpr fun hsats => ?_
    have hrate := h.rate
    obtain ⟨amount, hamount, -, hwhole⟩ := h
    obtain ⟨v, hv⟩ := hwhole (of_decide_eq_true hsats)
    cases hamount.symm.trans hrate
    exact map_eq_ok.mpr ⟨v, hv, rfl⟩
  rw [hcheck]
  exact ⟨_, rfl, amountAt_setDelegate r rfl⟩

omit hlib hc in
theorem collect_isOk (height : ℤ) {l : List Text} (h : ∀ a ∈ l, c.Pays lib (amountAt r a)) (total) :
    ∃ after, l.foldlM (collectAutopayFee lib c height) (r, total) = .ok after := by
  induction l generalizing r total with
  | nil => exact ⟨_, rfl⟩
  | cons a l ih =>
    obtain ⟨⟨q, sum⟩, hone, hsame⟩ := collectAutopayFee_isOk (h a mem_cons_self) total
    obtain ⟨after, hrest⟩ := ih (r := q)
      (fun b hb => (hsame b).symm ▸ h b (mem_cons_of_mem _ hb)) sum
    exact ⟨after, foldlM_cons_eq_ok.mpr ⟨_, hone, hrest⟩⟩

theorem collects_of_canPay (h : Orderly lib c r) (hb : Books lib r) (hs : Settled r)
    (hpay : CanPay lib c r a) : ∃ q total, 0 < total.toRat ∧
      collectAutopayFees lib c r r.nextPayHeight = .ok (q, total) := by
  obtain ⟨⟨q, total⟩, hrun⟩ := collect_isOk r.nextPayHeight
    (fun a ha => h.priced a (mem_sortedDelegateAddresses.mp ha).2) (zeroDecimal lib)
  have hcol := hs.collected hlib hc hb (lt_irrefl _) hrun
  obtain ⟨-, -, -, hle, -⟩ := hcol.events
  refine ⟨q, total, ?_, hrun⟩
  rw [← toRat_zeroDecimal hlib]
  refine lt_of_le_of_ne hle fun heq => ?_
  exact absurd hpay.covered (not_le.mpr ((hcol.idle heq.symm).2 a
    (mem_sortedDelegateAddresses.mpr ⟨hpay.named, hpay.known⟩)))

theorem payBlock_truthful (hheight : 0 ≤ height) (h : Orderly lib c r) (hb : Books lib r)
    (hs : Settled r) (hb' : Books lib r')
    (hrun : payBlock lib c terms r plan height = .ok (r', plan')) :
    Orderly lib c r' ∧ (terms.Falls → Truthful lib c terms r') := by
  obtain ⟨gasFee, hfee, hrun⟩ := bind_eq_ok.mp hrun
  obtain ⟨hgas, hd, hh⟩ := startSchedule_same r height
  have hs' := hs.start hheight
  have hstart : Books lib (startSchedule r height) := hb.congr (hgas ▸ hb.gas) hd hh
  have hpriced : ∀ a, HasDelegate (startSchedule r height) a →
      c.Pays lib (amountAt (startSchedule r height) a) := by
    intro a
    rw [HasDelegate, amountAt, hd]
    exact h.priced a
  have hnext : (startSchedule r height).nextPayHeight ≠ 0 := by
    rw [startSchedule]
    split
    · exact (Int.lt_add_one_of_le hheight).ne'
    · assumption
  have hfunding : funding ≠ .closed ∧ funding ≠ .expired := by decide
  simp only at hrun
  split at hrun
  · cases hrun
    exact (truthful_of_status hlib hc hb' hpriced hnext rfl).imp_right fun h _ => h
  rename_i hdue
  split_ifs at hrun with hshort
  · cases hrun
    refine ⟨⟨hpriced, fun _ => hfunding⟩, fun hfalls => iff_of_false noConfusion ?_⟩
    rintro ⟨⟨fee, hfee', hle⟩, -⟩
    rw [cmp_eq_lt hlib, toRat_decimalOrZero hlib] at hshort
    exact absurd (hle.trans_lt hshort)
      (not_lt.mpr (hfalls _ _ _ _ hs'.dated.1 (not_lt.mp hdue) hfee' hfee))
  · obtain ⟨⟨collected, total⟩, hcollect, hrun⟩ := bind_eq_ok.mp hrun
    have hcol := hs'.collected hlib hc hstart hdue hcollect
    have hpriced' : ∀ a, HasDelegate collected a → c.Pays lib (amountAt collected a) := by
      intro a ha
      rw [hcol.amounts a]
      exact hpriced a ((hcol.known a).mp ha)
    simp only at hrun
    split_ifs at hrun with hsign
    · cases hrun
      refine ⟨⟨hpriced', fun _ => hfunding⟩, fun _ => iff_of_false noConfusion ?_⟩
      rintro ⟨-, a, hpay⟩
      -- nothing was taken, so nobody could pay
      obtain ⟨-, -, -, hle, -⟩ := hcol.events
      obtain ⟨hsame, hshort⟩ := hcol.idle (le_antisymm
        ((sign_nonpos_iff.mp hsign).trans (toRat_zeroDecimal hlib).ge) hle)
      have hlt := hshort a (mem_sortedDelegateAddresses.mpr
        ⟨hpay.named, (hcol.known a).mp hpay.known⟩)
      rw [← hsame a, ← rateOf_congr (hcol.amounts a)] at hlt
      exact absurd hpay.covered (not_le.mpr hlt)
    · obtain ⟨transfer, -, hrun⟩ := bind_eq_ok.mp hrun
      cases hrun
      exact (truthful_of_status hlib hc hb' hpriced'
        (Int.lt_add_one_of_le hheight).ne' rfl).imp_right fun h _ => h

theorem settle_truthful {s s'} (hheight : 0 ≤ height) (h : Orderly lib c s.running)
    (hb : Books lib s.running ∧ Settled s.running) (hb' : Books lib s'.running)
    (hknown : KnownCancels s (.settle height terms))
    (hrun : c.settle lib terms deployer s height = .ok (s', plan)) :
    Orderly lib c s'.running ∧ (s.running.closed = false →
      (∀ item ∈ s.items, item.pending height = true → item.orderType ≠ .close) → terms.Falls →
      Truthful lib c terms s'.running) := by
  obtain ⟨⟨p, items⟩, hinvalid, hrun⟩ := bind_eq_ok.mp hrun
  obtain ⟨⟨r, p', items'⟩, hcancel, hrun⟩ := bind_eq_ok.mp hrun
  obtain ⟨hret, hset, hclosed⟩ := Returning.cancels hlib hc hb.1 hb.2
    (fun item hitem hp => hknown item (pending_of_invalid hinvalid hitem hp) hp) hcancel
  have hr := h.returning hret
  obtain ⟨closing, hclosing, hrun⟩ := bind_eq_ok.mp hrun
  cases closing with
  | some closed =>
    obtain ⟨r', p'', items''⟩ := closed
    cases hrun
    rw [closeUnlessClosed] at hclosing
    split at hclosing
    · cases hclosing
    · have hshut := h.returning (hret.close hlib hc hclosing)
      refine ⟨{ hshut with }, fun _ hnone => ?_⟩
      rw [applyAutopayClose_none fun item hitem hp => hnone item
        (pending_of_invalid hinvalid (pending_of_cancels hcancel hitem hp) hp) hp] at hclosing
      cases hclosing
  | none =>
    simp only at hrun
    split_ifs at hrun with hdone
    · cases hrun
      refine ⟨hr, fun hopen => ?_⟩
      obtain ⟨hstage, hstage'⟩ := hr.stage (hclosed.trans hopen)
      rcases hdone with hdone | hdone | hdone
      · exact absurd (hclosed.symm.trans hdone) (ne_true_of_eq_false hopen)
      · exact absurd hdone hstage
      · exact absurd hdone hstage'
    · obtain ⟨⟨r', p''⟩, hpay, hrun⟩ := bind_eq_ok.mp hrun
      cases hrun
      exact (payBlock_truthful hlib hc hheight hr hret.books hset hb' hpay).imp_right fun h _ _ => h

end Steps

section Run

variable {lib : DecimalLib} {params : ParamLib} {rt : AutopayRuntime} {c : AutopayContract}

theorem Orderly.setDelegate {r} {a} {d} (h : Orderly lib c r) (hd : c.Pays lib d.amountPerBlock) :
    Orderly lib c (r.setDelegate a d) := by
  refine ⟨fun b hb => ?_, h.stage⟩
  rw [HasDelegate, lookup_setDelegate] at hb
  rw [amountAt, lookup_setDelegate]
  split at hb
  · rw [if_pos (by assumption)]
    exact hd
  · rw [if_neg (by assumption)]
    exact h.priced b hb

theorem orderly_steady (hmin : c.Pays lib (some (c.minAmount lib))) :
    Steady lib c (Orderly lib c) where
  gas r d _ h := { h with }
  deposit r a d h := by
    cases d with
    | none => exact h
    | some amount =>
      rw [addDelegateBalance]
      split
      · exact h
      have hpays : c.Pays lib (some ((amountAt r a).getD (c.minAmount lib))) := by
        by_cases ha : HasDelegate r a
        · obtain ⟨v, hv, hrest⟩ := h.priced a ha
          exact ⟨v, by rw [hv]; rfl, hrest⟩
        · rw [amountAt, Option.not_isSome_iff_eq_none.mp ha]
          exact hmin
      have hset := h.setDelegate (a := a) (d := withStatus lib { ensureDelegate lib c r a with
        balance := decimalAddAllowNil lib (ensureDelegate lib c r a).balance (some amount) }) hpays
      exact { hset with }
  config r a amount limit hwhole h := by
    rw [setDelegateConfig]
    simp only
    split_ifs with hpos
    · exact h
    · have hsign : 0 < amount.sign := not_le.mp fun hle => hpos (Or.inr hle)
      exact h.setDelegate ⟨amount, rfl, toRat_pos_iff.mpr (sign_pos_iff.mp hsign), hwhole⟩
  status r h := ⟨h.priced, fun _ => ⟨noConfusion, noConfusion⟩⟩

theorem orderly_initial : Orderly lib c AutopayState.initial.running := by
  refine ⟨fun a ha => ?_, fun _ => ⟨noConfusion, noConfusion⟩⟩
  rw [HasDelegate, AutopayState.initial, ExtTreeMap.getElem?_empty] at ha
  cases ha

variable (hlib : lib.Lawful) (hc : rt.contract.Checked lib)
  (hmin : rt.contract.Pays lib (some (rt.contract.minAmount lib)))
include hlib hc hmin

theorem orderly_run {ops} (hops : ∀ op ∈ ops, op.Sound lib) {s}
    (hb : Books lib s.running ∧ Settled s.running) (h : Orderly lib rt.contract s.running)
    (hknown : Meets (AutopayOp.next lib params rt) KnownCancels s ops) :
    Orderly lib rt.contract (ops.foldl (AutopayOp.next lib params rt) s).running := by
  induction ops generalizing s with
  | nil => exact h
  | cons op ops ih =>
    have hop := hops op mem_cons_self
    refine ih (fun o ho => hops o (mem_cons_of_mem _ ho)) (books_next hlib hc hb hop)
      ((orderly_steady hmin).next hlib hop h ?_) hknown.2
    rintro height terms s' plan rfl hrun
    have hb' := (settle_spec hlib hc hop hb.1 hb.2 hrun).books
    exact (settle_truthful hlib hc hop h hb hb' hknown.1 hrun).1

/-- In every run in which only owners of a delegate cancel, the settlement of an open contract that
nobody closes says active exactly when the gas covers the fee of the next payment and some delegate
can pay its rate; then the next payment collects something. -/
theorem autopay_status_truthful (ops : List AutopayOp) (hops : ∀ op ∈ ops, op.Sound lib)
    (hknown : Meets (AutopayOp.next lib params rt) KnownCancels AutopayState.initial ops)
    {s : AutopayState} (hs : s = ops.foldl (AutopayOp.next lib params rt) AutopayState.initial)
    {height : ℤ} {terms : GasTerms} (hheight : 0 ≤ height) (hfalls : terms.Falls)
    (hcancels : KnownCancels s (.settle height terms)) (hopen : s.running.closed = false)
    (hclose : ∀ item ∈ s.items, item.pending height = true → item.orderType ≠ .close)
    {s' : AutopayState} {plan : SettlementPlan}
    (hrun : rt.contract.settle lib terms rt.deployer s height = .ok (s', plan)) :
    Truthful lib rt.contract terms s'.running ∧
      (s'.running.autopayStatus = .active → ∃ r total, 0 < total.toRat ∧
        collectAutopayFees lib rt.contract s'.running s'.running.nextPayHeight =
          .ok (r, total)) := by
  have hb : Books lib s.running ∧ Settled s.running := by
    rw [hs]
    exact books_run hlib hc hops books_initial
  have horder : Orderly lib rt.contract s.running := by
    rw [hs]
    exact orderly_run hlib hc hmin hops books_initial orderly_initial hknown
  have hblock := settle_spec hlib hc hheight hb.1 hb.2 hrun
  obtain ⟨horder', htrue⟩ := settle_truthful hlib hc hheight horder hb hblock.books hcancels hrun
  have htruth := htrue hopen hclose hfalls
  refine ⟨htruth, fun hactive => ?_⟩
  obtain ⟨-, a, hpay⟩ := htruth.mp hactive
  exact collects_of_canPay hlib hc horder' hblock.books hblock.settled hpay

end Run

/-! ### A cancel without a delegate, and a delegate that can pay -/

namespace Reference

open Wire.Reference

def strangerOps : List AutopayOp := [
  .gasFund (gasOutput 1000) networkGas.gasAssetName,
  .invoke { action := .cancel, invoker := ['b'], fundingOutput := fundedOutput 0, height := 1 }]

def stateAfter (ops : List AutopayOp) : AutopayState :=
  ops.foldl (AutopayOp.next decimalLib autopayParams autopayRuntime) AutopayState.initial

def settleAfter (ops : List AutopayOp) : TemplateM (AutopayState × SettlementPlan) :=
  autopayRuntime.contract.settle decimalLib networkGas autopayRuntime.deployer (stateAfter ops) 1

def collectedSign (s : AutopayState) : Option ℤ :=
  (collectAutopayFees decimalLib autopayRuntime.contract s.running
    s.running.nextPayHeight).toOption.map fun collected => collected.2.sign

end Reference

open Reference Wire.Reference in
theorem autopay_status_of_stranger : ∃ s plan, settleAfter strangerOps = .ok (s, plan) ∧
    s.running.closed = false ∧ s.running.autopayStatus = .active ∧ collectedSign s = some 0 ∧
    ¬ Truthful decimalLib autopayRuntime.contract networkGas s.running := by
  obtain ⟨⟨s, plan⟩, hrun, hs⟩ := exists_of_any (x := settleAfter strangerOps)
    (p := fun x => !x.1.running.closed && x.1.running.autopayStatus = .active &&
      collectedSign x.1 = some 0 && x.1.running.autopayDelegates.keys.all fun a =>
        decimalLib.cmp (decimalOrZero decimalLib (x.1.running.autopayDelegates[a]?.getD {}).balance)
          (rateOf decimalLib autopayRuntime.contract x.1.running a) = .lt) (by decide +kernel)
  simp only [Bool.and_eq_true, all_eq_true, decide_eq_true_eq, Bool.not_eq_true'] at hs
  obtain ⟨⟨⟨hopen, hactive⟩, hnothing⟩, hshort⟩ := hs
  refine ⟨s, plan, hrun, hopen, hactive, hnothing, fun htrue => ?_⟩
  obtain ⟨-, a, hpay⟩ := htrue.mp hactive
  have hlt := hshort a (ExtTreeMap.mem_keys.mpr (ExtTreeMap.mem_iff_isSome_getElem?.mpr hpay.known))
  rw [cmp_eq_lt decimalLib_lawful, toRat_decimalOrZero decimalLib_lawful, amountOf_balance_getD] at hlt
  exact absurd hpay.covered (not_le.mpr hlt)

open Reference Wire.Reference in
theorem autopay_status_of_delegate : ∃ s plan, settleAfter (autopayOps.take 2) = .ok (s, plan) ∧
    s.running.autopayStatus = .active ∧
    Truthful decimalLib autopayRuntime.contract networkGas s.running := by
  obtain ⟨⟨s, plan⟩, hrun, hactive⟩ := exists_of_any (x := settleAfter (autopayOps.take 2))
    (p := fun x => x.1.running.autopayStatus = .active) (by decide +kernel)
  have horder : ∀ item ∈ (stateAfter (autopayOps.take 2)).items, item.orderType = .validate := by
    decide +kernel
  refine ⟨s, plan, hrun, of_decide_eq_true hactive, (autopay_status_truthful decimalLib_lawful
    ⟨⟨⟨10, 10000000000⟩, by decide +kernel⟩, by decide⟩ ?_ (autopayOps.take 2) ?_
    ⟨trivial, trivial, trivial⟩ rfl (by decide) (falls_gasTerms decimalLib_lawful (by decide) none)
    (fun item hitem _ hcancel => ?_) (by decide +kernel)
    (fun item hitem _ hclose => ?_) hrun).1⟩
  · exact ⟨⟨10, 10000000000⟩, by decide +kernel, by norm_num [toRat],
      fun h => absurd h (by decide +kernel)⟩
  · exact forall_mem_cons.mpr ⟨sound_gasFund, forall_mem_singleton.mpr trivial⟩
  · cases (horder item hitem).symm.trans hcancel
  · cases (horder item hitem).symm.trans hclose

end SatoshiNet.Template
