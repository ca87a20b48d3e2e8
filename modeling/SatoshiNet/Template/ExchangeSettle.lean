import SatoshiNet.Template.Exchange
import SatoshiNet.Template.Payout

/-!
What the settlement of an exchange can do with an item: a quote never sells more than the pool nor
spends more than the deposit, and it stops by itself.
-/

namespace SatoshiNet.Template

open Lib Wire Contract List Option Decimal
open InvokeItem

section Quote

variable {lib : DecimalLib} (hlib : lib.Lawful) {c : ExchangeContract}
  {policy : AssetPrecisionPolicy} {height : ℤ} {q : QuoteState} {fillA costB : Decimal}
include hlib

omit hlib in
theorem toRat_pos_of_sign {d : Decimal} (h : 0 < d.sign) : 0 < d.toRat :=
  toRat_pos_iff.mpr (sign_pos_iff.mp h)

omit hlib in
theorem cappedAt_nonneg {amount bound} (hamount : 0 < amount.sign) (hbound : 0 < bound.sign) :
    0 ≤ (cappedAt lib amount bound).value := by
  rw [cappedAt]
  split
  · exact (sign_pos_iff.mp hbound).le
  · exact (sign_pos_iff.mp hamount).le

theorem toRat_cappedAt_le (amount bound) : (cappedAt lib amount bound).toRat ≤ bound.toRat := by
  rw [cappedAt]
  split_ifs with hcmp
  · exact le_rfl
  · rw [cmp_eq_gt hlib] at hcmp
    exact not_lt.mp hcmp

theorem toRat_tierA_le (q : QuoteState) : (q.tierA lib c).toRat ≤ q.remainingA.toRat := by
  rw [QuoteState.tierA]
  cases exchangeTierAvailableA lib c q.currentSold with
  | none => exact le_rfl
  | some tier => exact toRat_cappedAt_le hlib tier q.remainingA

omit hlib in
theorem quoteFill_eq_some : quoteFill lib c policy height q = some (fillA, costB) ↔
    let price := exchangePriceAt lib c height (lib.toText q.currentSold)
    (0 < q.remainingA.sign ∧ 0 < q.remainingB.sign ∧ 0 < price.sign) ∧ 0 < (q.tierA lib c).sign ∧
      ∃ quotient, lib.decimalDiv q.remainingB price = some quotient ∧ 0 < quotient.sign ∧
        policy.normalize lib.toAmountLib c.assetAName (cappedAt lib quotient (q.tierA lib c)) =
          fillA ∧ 0 < fillA.sign ∧ exchangeFillCost lib policy c.assetBName fillA price = costB ∧
        lib.cmp costB q.remainingB ≠ .gt ∧ 0 < costB.sign := by
  simp only [quoteFill, bind_eq_bind, bind_eq_some_iff, guard_eq_some',
    exists_const, Option.pure_def, Option.some.injEq, Prod.mk.injEq]
  constructor
  · rintro ⟨hrest, htier, quotient, hdiv, hquotient, hfill, hcost, rfl, rfl⟩
    exact ⟨hrest, htier, quotient, hdiv, hquotient, rfl, hfill, rfl, hcost⟩
  · rintro ⟨hrest, htier, quotient, hdiv, hquotient, rfl, hfill, rfl, hcost⟩
    exact ⟨hrest, htier, quotient, hdiv, hquotient, hfill, hcost, rfl, rfl⟩

theorem quoteFill_bounds (h : quoteFill lib c policy height q = some (fillA, costB)) :
    (0 < fillA.toRat ∧ fillA.toRat ≤ (q.tierA lib c).toRat ∧ fillA.toRat ≤ q.remainingA.toRat) ∧
      (0 < costB.toRat ∧ costB.toRat ≤ q.remainingB.toRat) ∧
      costB.precision = costPrecision lib policy c.assetBName := by
  obtain ⟨-, htier, quotient, -, hquotient, rfl, hfill, rfl, hcost, hcostPos⟩ :=
    quoteFill_eq_some.mp h
  have hle : (policy.normalize lib.toAmountLib c.assetAName
      (cappedAt lib quotient (q.tierA lib c))).toRat ≤ (q.tierA lib c).toRat := calc
    _ = policy.cut c.assetAName (cappedAt lib quotient (q.tierA lib c)).toRat :=
      AssetPrecisionPolicy.toRat_normalize hlib.exact (cappedAt_nonneg hquotient htier)
    _ ≤ (cappedAt lib quotient (q.tierA lib c)).toRat := policy.cut_le _ _
    _ ≤ (q.tierA lib c).toRat := toRat_cappedAt_le hlib _ _
  refine ⟨⟨toRat_pos_of_sign hfill, hle, hle.trans (toRat_tierA_le hlib q)⟩,
    ⟨toRat_pos_of_sign hcostPos, ?_⟩, ?_⟩
  · rw [Ne, cmp_eq_gt hlib] at hcost
    exact not_lt.mp hcost
  · rw [exchangeFillCost]
    split <;> rfl

structure QuoteState.Splits (q : QuoteState) (available input : ℚ) : Prop where
  outA : 0 ≤ q.outA.toRat
  spentB : 0 ≤ q.spentB.toRat
  remainingA : 0 ≤ q.remainingA.toRat
  remainingB : 0 ≤ q.remainingB.toRat
  sumA : q.outA.toRat + q.remainingA.toRat = available
  sumB : q.spentB.toRat + q.remainingB.toRat = input

variable {available input : ℚ}

theorem QuoteState.Splits.fill (hq : q.Splits available input)
    (h : quoteFill lib c policy height q = some (fillA, costB)) :
    (q.fill lib fillA costB).Splits available input := by
  obtain ⟨⟨hfill, -, hleA⟩, ⟨hcost, hleB⟩, -⟩ := quoteFill_bounds hlib h
  have hout := hq.outA
  have hspent := hq.spentB
  have hsumA := hq.sumA
  have hsumB := hq.sumB
  constructor <;> simp only [QuoteState.fill, hlib.decimalAdd, hlib.decimalSub] <;> linarith

theorem QuoteState.Splits.loop (fuel : ℕ) (hq : q.Splits available input) :
    (quoteLoop lib c policy height fuel q).Splits available input := by
  induction fuel generalizing q with
  | zero => exact hq
  | succ fuel ih =>
    rw [quoteLoop]
    split
    · exact hq
    · rename_i fillA costB hfill
      exact ih (hq.fill hlib hfill)

theorem splits_exchangeQuote (c) (height : ℤ) (soldA) {availableA inputB}
    (hA : 0 ≤ availableA.toRat) (hB : 0 ≤ inputB.toRat) (assetPrecision) :
    (exchangeQuote lib c height soldA availableA inputB assetPrecision).Splits
      availableA.toRat inputB.toRat := by
  refine QuoteState.Splits.loop hlib _ ⟨?_, ?_, hA, hB, ?_, ?_⟩
  · exact (toRat_zeroDecimal hlib).ge
  · exact (toRat_zeroDecimal hlib).ge
  · simp [toRat_zeroDecimal hlib]
  · simp [toRat_zeroDecimal hlib]

theorem QuoteState.Splits.refund {deposit} (hq : q.Splits available (amountOf deposit)) :
    0 ≤ (lib.decimalSub (decimalOrZero lib deposit) q.spentB).toRat := by
  rw [hlib.decimalSub, toRat_decimalOrZero hlib, ← hq.sumB, add_sub_cancel_left]
  exact hq.remainingB

theorem le_cost (h : quoteFill lib c policy height q = some (fillA, costB)) :
    1 ≤ costB.toRat * 10 ^ maxPriceDivisibility := by
  obtain ⟨-, ⟨hpos, -⟩, hprecision⟩ := quoteFill_bounds hlib h
  have hvalue : (1 : ℚ) ≤ costB.value := by exact_mod_cast toRat_pos_iff.mp hpos
  have hle : costB.precision ≤ maxPriceDivisibility := hprecision ▸ min_le_right _ _
  have hpow := ten_zpow_pos costB.precision
  calc (1 : ℚ) ≤ costB.value := hvalue
    _ = costB.toRat * 10 ^ costB.precision := by
      rw [toRat, div_mul_cancel₀ _ hpow.ne']
    _ ≤ costB.toRat * 10 ^ maxPriceDivisibility :=
      mul_le_mul_of_nonneg_left (zpow_le_zpow_right₀ (by norm_num) hle) hpos.le

theorem quoteLoop_stops (fuel : ℕ) (h : q.remainingB.toRat * 10 ^ maxPriceDivisibility < fuel) :
    quoteFill lib c policy height (quoteLoop lib c policy height fuel q) = none := by
  induction fuel generalizing q with
  | zero =>
    -- nothing is left of the deposit, so the loop does not start
    cases hfill : quoteFill lib c policy height q with
    | none => exact hfill
    | some fill =>
      obtain ⟨-, ⟨hpos, hle⟩, -⟩ := quoteFill_bounds hlib hfill
      have hpow := ten_zpow_pos maxPriceDivisibility
      have hprod : 0 < q.remainingB.toRat * 10 ^ maxPriceDivisibility :=
        mul_pos (hpos.trans_le hle) hpow
      exact absurd h (by simpa using hprod.le)
  | succ fuel ih =>
    rw [quoteLoop]
    split
    · assumption
    rename_i fillA costB hfill
    refine ih ?_
    have hcost := le_cost hlib hfill
    push_cast at h
    simp only [QuoteState.fill, hlib.decimalSub]
    linarith

theorem exchangeQuote_stops (soldA availableA inputB) (assetPrecision) :
    quoteFill lib c (settlementPolicy assetPrecision) height
      (exchangeQuote lib c height soldA availableA inputB assetPrecision) = none := by
  refine quoteLoop_stops hlib _ ?_
  have hceil := Int.le_ceil (inputB.toRat * 10 ^ maxPriceDivisibility)
  have hfuel : ((⌈inputB.toRat * 10 ^ maxPriceDivisibility⌉ + 1 : ℤ) : ℚ) ≤
      ((⌈inputB.toRat * 10 ^ maxPriceDivisibility⌉ + 1).toNat : ℤ) := by
    exact_mod_cast Int.self_le_toNat _
  rw [quoteFuel]
  push_cast at hfuel ⊢
  linarith

/-- The loop of a quote ends with nothing more to fill.  The pool is what is sold and what is left,
the deposit is what is spent and what is left, and nothing is negative. -/
theorem exchangeQuote_complete (soldA) {availableA inputB : Decimal} (assetPrecision)
    (hA : 0 ≤ availableA.toRat) (hB : 0 ≤ inputB.toRat) :
    (exchangeQuote lib c height soldA availableA inputB assetPrecision).Splits
      availableA.toRat inputB.toRat ∧
    quoteFill lib c (settlementPolicy assetPrecision) height
      (exchangeQuote lib c height soldA availableA inputB assetPrecision) = none :=
  ⟨splits_exchangeQuote hlib c height soldA hA hB assetPrecision,
    exchangeQuote_stops hlib soldA availableA inputB assetPrecision⟩

omit hlib in
/-- Three units at the first price and one at the second. -/
theorem exchangeQuote_complete_sale :
    let quote := exchangeQuote Reference.decimalLib
      ⟨['a'], ['b'], .soldA, [⟨['0'], ['2']⟩, ⟨['3'], ['4']⟩]⟩ 5 [] ⟨0, 10⟩ ⟨0, 10⟩ none
    quote.outA = ⟨10, 4 * 10 ^ 10⟩ ∧ quote.spentB = ⟨10, 10 * 10 ^ 10⟩ ∧
    quote.Splits (toRat ⟨0, 10⟩) (toRat ⟨0, 10⟩) :=
  ⟨by decide +kernel, by decide +kernel, (exchangeQuote_complete Reference.decimalLib_lawful [] none
    (by simp [toRat]) (by simp [toRat])).1⟩

end Quote

/-- Items an exchange keeps: refused calls, fundings, exchanges, and closes by the deployer. -/
structure ExchangeItem (deployer : Text) (item : InvokeItem) : Prop where
  remaining : 0 ≤ amountOf item.remainingAmt
  retainedA : 0 ≤ amountOf item.retainedAssetA
  retainedB : 0 ≤ amountOf item.retainedAssetB
  refused : item.reason = .invalid ↔ item.orderType = .unused
  kind : item.orderType = .unused ∨ item.orderType = .fund ∨ item.orderType = .exchange ∨
    item.orderType = .close
  close : item.orderType = .close → item.address = deployer

section Outcome

variable (lib : DecimalLib) (c : ExchangeContract) (deployer : Text) (height : ℤ)
  (r : ExchangeRunningData) (item : InvokeItem)

/-- What a settlement does with an item: the running data, the item and the transfers after it. -/
inductive ExchangeOutcome : ExchangeRunningData → InvokeItem → List SettlementTransfer → Prop
  | idle (h : ¬ item.due height ∨ item.orderType = .unused) : ExchangeOutcome r item []
  | funded (hdue : item.due height) (horder : item.orderType = .fund) :
    ExchangeOutcome r { item with done := .dealt } []
  | refunded (hdue : item.due height) (horder : item.orderType = .exchange) :
    ExchangeOutcome r
      { item with reason := .refund, done := .refunded,
                  outAmt := some (decimalOrZero lib item.remainingAmt), remainingAmt := none }
      (exchangeTransfer lib item item.address c.assetBName (decimalOrZero lib item.remainingAmt)
        .refund)
  | empty (hdue : item.due height) (horder : item.orderType = .exchange)
    (hopen : r.closed = false) (hzero : (decimalOrZero lib item.remainingAmt).sign ≤ 0) :
    ExchangeOutcome r { item with reason := .noEnoughAsset, done := .closedDirectly } []
  | dealt (hdue : item.due height) (horder : item.orderType = .exchange)
    (hopen : r.closed = false) (quote : QuoteState)
    (hquote : quote.Splits (amountOf r.assetAInPool) (amountOf item.remainingAmt)) :
    ExchangeOutcome
      { r with
        assetAInPool := some (lib.decimalSub (decimalOrZero lib r.assetAInPool) quote.outA)
        totalDealAssetA := addToPool lib r.totalDealAssetA quote.outA }
      { item with outAmt := some quote.outA, remainingAmt := none, done := .dealt }
      (exchangeTransfer lib item item.address c.assetAName quote.outA .deal ++
        exchangeTransfer lib item deployer c.assetBName quote.spentB .deal ++
        exchangeTransfer lib item item.address c.assetBName
          (lib.decimalSub (decimalOrZero lib item.remainingAmt) quote.spentB) .refund)
  | closed (hdue : item.due height) (horder : item.orderType = .close) :
    ExchangeOutcome { r with assetAInPool := none, assetBInPool := none, closed := true }
      { item with done := .dealt }
      (exchangeTransfer lib item deployer c.assetAName (decimalOrZero lib r.assetAInPool) .deal ++
        exchangeTransfer lib item deployer c.assetBName (decimalOrZero lib r.assetBInPool) .deal ++
        exchangeTransfer lib item deployer c.assetBName (decimalOrZero lib item.remainingAmt) .deal)

end Outcome

section Step

variable {lib : DecimalLib} (hlib : lib.Lawful) {c : ExchangeContract} {params : ParamLib}
  {deployer : Text} {assetPrecision : AssetPrecision} {height : ℤ}
  {r r' : ExchangeRunningData} {plan plan' : SettlementPlan} {item item' : InvokeItem}
include hlib

theorem settleExchangeItem_outcome (hdeployer : deployer ≠ [])
    (hpool : 0 ≤ amountOf r.assetAInPool) (hitem : ExchangeItem deployer item)
    (hdue : item.due height) (horder : item.orderType = .exchange)
    (h : settleExchangeItem lib c params deployer assetPrecision height r plan item =
      .ok ((r', plan'), item')) :
    ∃ new, plan'.transfers = plan.transfers ++ new ∧
      ExchangeOutcome lib c deployer height r item r' item' new := by
  have hA : 0 ≤ (decimalOrZero lib r.assetAInPool).toRat :=
    (toRat_decimalOrZero hlib r.assetAInPool).symm ▸ hpool
  have hB : 0 ≤ (decimalOrZero lib item.remainingAmt).toRat :=
    (toRat_decimalOrZero hlib item.remainingAmt).symm ▸ hitem.remaining
  have hrefund : ((r, (markExchangeRefunded lib c plan item).1),
      (markExchangeRefunded lib c plan item).2) = ((r', plan'), item') →
      ∃ new, plan'.transfers = plan.transfers ++ new ∧
        ExchangeOutcome lib c deployer height r item r' item' new := by
    rintro ⟨⟩
    exact ⟨_, rfl, .refunded hdue horder⟩
  rw [settleExchangeItem] at h
  simp only at h
  split at h
  · exact hrefund (Except.ok.inj h)
  rename_i hopen
  have hopen : r.closed = false := by simpa using hopen
  split_ifs at h with hzero
  · cases h
    exact ⟨[], (append_nil _).symm, .empty hdue horder hopen hzero⟩
  · exact hrefund (Except.ok.inj h)
  · exact hrefund (Except.ok.inj h)
  obtain ⟨minOut, -, h⟩ := bind_eq_ok.mp h
  split at h
  · exact hrefund (Except.ok.inj h)
  have hquote := splits_exchangeQuote hlib c height
    (lib.toText (decimalOrZero lib r.totalDealAssetA)) hA hB assetPrecision
  rw [toRat_decimalOrZero hlib, toRat_decimalOrZero hlib] at hquote
  cases h
  refine ⟨_, ?_, .dealt hdue horder hopen _ hquote⟩
  simp [if_neg hdeployer]

theorem settleExchangeStep_outcome (hdeployer : deployer ≠ [])
    (hpool : 0 ≤ amountOf r.assetAInPool) (hitem : ExchangeItem deployer item)
    (h : settleExchangeStep lib c params deployer assetPrecision height (r, plan) item =
      .ok ((r', plan'), item')) :
    ∃ new, plan'.transfers = plan.transfers ++ new ∧
      ExchangeOutcome lib c deployer height r item r' item' new := by
  have hentered : ((plan.addInputs item).appendItemId item.id).transfers = plan.transfers := by simp
  rw [settleExchangeStep] at h
  simp only at h
  split_ifs at h with hskip
  · cases h
    refine ⟨[], (append_nil _).symm, .idle (Or.inl fun hdue => ?_)⟩
    rcases hskip with hfinished | hlater
    · exact absurd hfinished (by simp [hdue.1])
    · exact absurd hdue.2 (not_le.mpr hlater)
  have hskip : item.due height := by
    rw [not_or, not_lt, Bool.not_eq_true] at hskip
    exact hskip
  split at h
  · rename_i horder
    cases h
    exact ⟨[], by rw [hentered, append_nil], .funded hskip horder⟩
  · rename_i horder
    obtain ⟨new, hnew, houtcome⟩ :=
      settleExchangeItem_outcome hlib hdeployer hpool hitem hskip horder h
    exact ⟨new, by rw [hnew, hentered], houtcome⟩
  · rename_i horder
    rw [settleExchangeClose, if_neg (not_not.mpr (hitem.close horder))] at h
    cases h
    exact ⟨_, by rw [SettlementPlan.append_transfers, hentered], .closed hskip horder⟩
  · rename_i hfund hexchange hclose
    cases h
    have horder : item.orderType = .unused := by
      rcases hitem.kind with horder | horder | horder | horder
      · exact horder
      · exact absurd horder hfund
      · exact absurd horder hexchange
      · exact absurd horder hclose
    exact ⟨[], (append_nil _).symm, .idle (Or.inr horder)⟩

end Step

def InvokeItem.offeredB (item : InvokeItem) : ℚ :=
  if item.finished = false ∧ (item.orderType = .exchange ∨ item.orderType = .close) then
    amountOf item.remainingAmt
  else 0

def InvokeItem.boughtA (item : InvokeItem) : ℚ :=
  if item.done = .dealt ∧ item.orderType = .exchange then amountOf item.outAmt else 0

variable {item : InvokeItem}

theorem InvokeItem.offeredB_of_finished (h : item.finished = true) : item.offeredB = 0 := by
  simp [offeredB, h]

theorem InvokeItem.offeredB_of_due {height : ℤ} (h : item.due height)
    (horder : item.orderType = .exchange ∨ item.orderType = .close) :
    item.offeredB = amountOf item.remainingAmt := if_pos ⟨h.1, horder⟩

theorem InvokeItem.boughtA_of_due {height : ℤ} (h : item.due height) : item.boughtA = 0 := by
  have hinit : item.done = .init := by simpa [finished] using h.1
  simp [boughtA, hinit]

section Account

variable {lib : DecimalLib} {c : ExchangeContract} {deployer : Text} {height : ℤ}
  {r r' : ExchangeRunningData} {item item' : InvokeItem} {new : List SettlementTransfer}
  {amount : Decimal} {assetName recipient : Text}

theorem mem_exchangeTransfer {reason t}
    (h : t ∈ exchangeTransfer lib item recipient assetName amount reason) :
    t.itemId = item.id ∧ t.recipient = recipient ∧ t.assetName = assetName ∧ t.reason = reason := by
  rw [exchangeTransfer] at h
  split at h
  · obtain rfl := mem_singleton.mp h
    exact ⟨rfl, rfl, rfl, rfl⟩
  · cases h

theorem paid_exchangeTransfer (hlib : lib.Lawful) {name} (reason) (h : 0 ≤ amount.toRat) :
    paid lib name (exchangeTransfer lib item recipient assetName amount reason) =
      if assetName = name then amount.toRat else 0 := by
  rw [exchangeTransfer]
  split
  · have htext := textAmount_decimalString hlib (toRat_nonneg_iff.mp h)
    simp [SettlementTransfer.pays, htext]
  · rename_i hpos
    rw [toRat_eq_zero_of_not_pos h hpos, paid_nil, ite_self]

theorem paid_exchangeTransfers (hlib : lib.Lawful) {name a b p q r} {ρ σ τ} {x y z}
    (hx : 0 ≤ x.toRat) (hy : 0 ≤ y.toRat) (hz : 0 ≤ z.toRat) :
    paid lib name (exchangeTransfer lib item p a x ρ ++ exchangeTransfer lib item q b y σ ++
      exchangeTransfer lib item r b z τ) =
        (if a = name then x.toRat else 0) + if b = name then y.toRat + z.toRat else 0 := by
  simp only [paid_append, paid_exchangeTransfer hlib _ hx, paid_exchangeTransfer hlib _ hy,
    paid_exchangeTransfer hlib _ hz]
  split_ifs <;> ring

namespace ExchangeOutcome

variable (h : ExchangeOutcome lib c deployer height r item r' item' new)
include h

theorem id_eq : item'.id = item.id := by
  cases h <;> rfl

theorem own : ∀ t ∈ new, t.itemId = item.id := by
  intro t ht
  cases h with
  | idle | funded | empty => cases ht
  | refunded => exact (mem_exchangeTransfer ht).1
  | dealt | closed =>
    simp only [mem_append] at ht
    obtain (ht | ht) | ht := ht <;> exact (mem_exchangeTransfer ht).1

variable {t : SettlementTransfer}

theorem due_of_mem (ht : t ∈ new) : item.due height := by
  cases h with
  | idle | funded | empty => cases ht
  | refunded hdue | dealt hdue | closed hdue => exact hdue

theorem progress : (item.due height ∧ item'.finished = true) ∨
      (item' = item ∧ (¬ item.due height ∨ item.orderType = .unused)) := by
  cases h with
  | idle h => exact Or.inr ⟨rfl, h⟩
  | funded hdue | refunded hdue | empty hdue | dealt hdue | closed hdue =>
    exact Or.inl ⟨hdue, by simp [finished]⟩

theorem closed_mono (hclosed : r.closed = true) : r'.closed = true := by
  cases h <;> first | exact hclosed | rfl

theorem closed_of_close (hdue : item.due height) (horder : item.orderType = .close) :
    r'.closed = true := by
  cases h with
  | idle hidle =>
    rcases hidle with hidle | hunused
    · exact absurd hdue hidle
    · exact absurd (horder.symm.trans hunused) nofun
  | funded _ hother | refunded _ hother | empty _ hother | dealt _ hother =>
    exact absurd (horder.symm.trans hother) nofun
  | closed => rfl

theorem pools_of_closed (hpools : r.closed = true → r.assetAInPool = none ∧ r.assetBInPool = none)
    (hclosed : r'.closed = true) : r'.assetAInPool = none ∧ r'.assetBInPool = none := by
  cases h with
  | idle | funded | refunded | empty => exact hpools hclosed
  | dealt _ _ hopen => exact absurd hclosed (by simp [hopen])
  | closed => exact ⟨rfl, rfl⟩

theorem refund_of_closed (hclosed : r.closed = true) (horder : item.orderType = .exchange)
    (ht : t ∈ new) :
    t.recipient = item.address ∧ t.assetName = c.assetBName ∧ t.reason = .refund := by
  cases h with
  | idle | funded => cases ht
  | refunded => exact (mem_exchangeTransfer ht).2
  | empty _ _ hopen | dealt _ _ hopen => exact absurd (hclosed.symm.trans hopen) nofun
  | closed _ hclose => exact absurd (horder.symm.trans hclose) nofun

theorem poolB_of_ne_close (horder : item.orderType ≠ .close) :
    r'.assetBInPool = r.assetBInPool := by
  cases h with
  | idle | funded | refunded | empty | dealt => rfl
  | closed _ hclose => exact absurd hclose horder

section

variable (hitem : ExchangeItem deployer item)
include hitem

theorem refused_eq : item'.refusedA = item.refusedA ∧ item'.refusedB = item.refusedB := by
  have hvalid : item.orderType ≠ .unused → item.refusedA = 0 ∧ item.refusedB = 0 := by
    intro horder
    have hreason : ¬ item.reason = .invalid := fun h => horder (hitem.refused.mp h)
    simp [refusedA, refusedB, hreason]
  cases h with
  | idle => exact ⟨rfl, rfl⟩
  | funded _ horder | refunded _ horder | empty _ horder | dealt _ horder | closed _ horder =>
    obtain ⟨hA, hB⟩ := hvalid (by simp [horder])
    rw [hA, hB]
    simp [refusedA, refusedB, finished]

theorem item_keeps : ExchangeItem deployer item' := by
  cases h with
  | idle => exact hitem
  | funded | closed => exact { hitem with }
  | refunded _ horder => exact { hitem with remaining := le_rfl, refused := by simp [horder] }
  | empty _ horder => exact { hitem with refused := by simp [horder] }
  | dealt => exact { hitem with remaining := le_rfl }

variable (hlib : lib.Lawful)
include hlib

omit hitem in
theorem poolA_nonneg (hpool : 0 ≤ amountOf r.assetAInPool) : 0 ≤ amountOf r'.assetAInPool := by
  cases h with
  | idle | funded | refunded | empty => exact hpool
  | dealt _ _ _ quote hquote =>
    have hremaining := hquote.remainingA
    have hsum := hquote.sumA
    rw [amountOf_some, hlib.decimalSub, toRat_decimalOrZero hlib]
    linarith
  | closed => exact le_rfl

omit hitem in
omit hlib in
theorem poolB_nonneg (hpool : 0 ≤ amountOf r.assetBInPool) : 0 ≤ amountOf r'.assetBInPool := by
  cases h with
  | idle | funded | refunded | empty | dealt => exact hpool
  | closed => exact le_rfl

section

variable (hpair : AssetPair c.assetAName c.assetBName)
include hpair

theorem sumA (hpoolA : 0 ≤ amountOf r.assetAInPool) (hpoolB : 0 ≤ amountOf r.assetBInPool) :
    amountOf r'.assetAInPool + paid lib c.assetAName new = amountOf r.assetAInPool := by
  have hremaining := hitem.remaining
  rw [← toRat_decimalOrZero hlib] at hpoolA hpoolB hremaining
  cases h with
  | idle | funded | empty => exact add_zero _
  | refunded =>
    rw [paid_exchangeTransfer hlib _ hremaining, if_neg (Ne.symm hpair.differ), add_zero]
  | dealt _ _ _ quote hquote =>
    rw [paid_exchangeTransfers hlib hquote.outA hquote.spentB (hquote.refund hlib), if_pos rfl,
      if_neg hpair.differ.symm, amountOf_some, hlib.decimalSub, toRat_decimalOrZero hlib]
    ring
  | closed =>
    rw [paid_exchangeTransfers hlib hpoolA hpoolB hremaining, if_pos rfl,
      if_neg hpair.differ.symm, amountOf_none, toRat_decimalOrZero hlib]
    ring

theorem sumB (hpoolA : 0 ≤ amountOf r.assetAInPool) (hpoolB : 0 ≤ amountOf r.assetBInPool) :
    amountOf r'.assetBInPool + (paid lib c.assetBName new + item'.offeredB) =
      amountOf r.assetBInPool + item.offeredB := by
  have hremaining := hitem.remaining
  rw [← toRat_decimalOrZero hlib] at hpoolA hpoolB hremaining
  cases h with
  | idle => rw [paid_nil, zero_add]
  | funded _ horder => simp [offeredB, finished, horder]
  | refunded hdue horder =>
    rw [paid_exchangeTransfer hlib _ hremaining, if_pos rfl, toRat_decimalOrZero hlib,
      offeredB_of_finished rfl, offeredB_of_due hdue (.inl horder), add_zero]
  | empty hdue horder _ hzero =>
    have hamount : amountOf item.remainingAmt = 0 := by
      rw [← toRat_decimalOrZero hlib]
      exact toRat_eq_zero_of_not_pos hremaining (not_lt.mpr hzero)
    simp [offeredB, finished, hamount]
  | dealt hdue horder _ quote hquote =>
    rw [paid_exchangeTransfers hlib hquote.outA hquote.spentB (hquote.refund hlib), if_pos rfl,
      if_neg hpair.differ, hlib.decimalSub, toRat_decimalOrZero hlib, offeredB_of_finished rfl,
      offeredB_of_due hdue (.inl horder)]
    ring
  | closed hdue horder =>
    rw [paid_exchangeTransfers hlib hpoolA hpoolB hremaining, if_pos rfl, if_neg hpair.differ,
      toRat_decimalOrZero hlib, toRat_decimalOrZero hlib, offeredB_of_finished rfl,
      offeredB_of_due hdue (.inr horder), amountOf_none]
    ring

theorem bought (horder : item.orderType ≠ .close) :
    paid lib c.assetAName new + item.boughtA = item'.boughtA := by
  have hremaining := hitem.remaining
  rw [← toRat_decimalOrZero hlib] at hremaining
  cases h with
  | idle => rw [paid_nil, zero_add]
  | funded hdue horder =>
    rw [boughtA_of_due hdue]
    simp [boughtA, horder]
  | refunded hdue =>
    rw [paid_exchangeTransfer hlib _ hremaining, if_neg (Ne.symm hpair.differ), boughtA_of_due hdue]
    simp [boughtA]
  | empty hdue =>
    rw [boughtA_of_due hdue]
    simp [boughtA]
  | dealt hdue hexchange _ quote hquote =>
    rw [paid_exchangeTransfers hlib hquote.outA hquote.spentB (hquote.refund hlib), if_pos rfl,
      if_neg hpair.differ.symm, boughtA_of_due hdue]
    simp [boughtA, hexchange]
  | closed _ hclose => exact absurd hclose horder

end

end

end ExchangeOutcome

end Account

end SatoshiNet.Template
