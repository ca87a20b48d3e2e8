import SatoshiNet.Template.AutopayLedger

/-!
The settlement of a block keeps the books of an autopay contract: it returns balances, each in its
plan, and charges every delegate at most once, its own rate.
-/

namespace SatoshiNet.Template

open Lib Wire Contract List Decimal
open Std (ExtTreeMap)
open AutopayRunningData

section Laws

variable {lib : DecimalLib} {c : AutopayContract}

def rateOf (lib : DecimalLib) (c : AutopayContract) (r : AutopayRunningData) (a : Text) : Decimal :=
  delegateAmount lib c (r.autopayDelegates[a]?.getD {})

def amountAt (r : AutopayRunningData) (a : Text) : Option Decimal :=
  (r.autopayDelegates[a]?.getD {}).amountPerBlock

variable {a b : Text} {d : AutopayDelegate} {r : AutopayRunningData}

theorem rateOf_congr {r'} (h : amountAt r' a = amountAt r a) :
    rateOf lib c r' a = rateOf lib c r a := by
  simp only [amountAt] at h
  rw [rateOf, delegateAmount, h, rateOf, delegateAmount]

theorem amountAt_setDelegate (r) (hd : d.amountPerBlock = amountAt r b) (a) :
    amountAt (r.setDelegate b d) a = amountAt r a := by
  rw [amountAt, lookup_setDelegate]
  split
  · subst a
    exact hd
  · rfl

def HasDelegate (r : AutopayRunningData) (a : Text) : Prop :=
  (r.autopayDelegates[a]?).isSome = true

theorem hasDelegate_setDelegate : HasDelegate (r.setDelegate b d) a ↔ b = a ∨ HasDelegate r a := by
  rw [HasDelegate, lookup_setDelegate, HasDelegate]
  split <;> simp_all

theorem mem_sortedDelegateAddresses : a ∈ sortedDelegateAddresses r ↔ a ≠ [] ∧ HasDelegate r a := by
  rw [sortedDelegateAddresses, mem_filter, ExtTreeMap.mem_keys,
    ExtTreeMap.mem_iff_isSome_getElem?, decide_eq_true_iff, and_comm]
  rfl

def StaysOpen (r r' : AutopayRunningData) : Prop :=
  r'.closed = false →
    r.closed = false ∧ (r'.autopayStatus = r.autopayStatus ∨ r'.autopayStatus = .active)

theorem StaysOpen.refl (r) : StaysOpen r r := fun h => ⟨h, .inl rfl⟩

/-- Before anyone is charged a settlement only returns balances, all of them in its plan. An entry it
makes in the table is that of an address in `K`. -/
structure Returning (lib : DecimalLib) (K : Text → Prop) (r₀ r : AutopayRunningData)
    (plan : SettlementPlan) : Prop where
  books : Books lib r
  next : r.nextPayHeight = r₀.nextPayHeight
  amounts : ∀ a, amountAt r a = amountAt r₀ a
  known : ∀ a, HasDelegate r a → HasDelegate r₀ a ∨ K a
  stays : StaysOpen r₀ r
  events : ∃ new, r.history = r₀.history ++ new ∧
    ∀ e ∈ new, ∃ a t, e = .refunded a t ∧ t ∈ plan.transfers

variable {deployer : Text} {height : ℤ} {plan plan' : SettlementPlan} {r r' r₀ : AutopayRunningData}
  {terms : GasTerms} {K : Text → Prop}

variable (h : Returning lib K r₀ r plan)
include h

theorem Returning.marks : r.marks = r₀.marks := by
  obtain ⟨new, hhistory, hnew⟩ := h.events
  have hnone : new.filterMap LedgerEvent.mark = [] := by
    rw [filterMap_eq_nil_iff]
    intro e he
    obtain ⟨a, t, rfl, -⟩ := hnew e he
    rfl
  rw [AutopayRunningData.marks, hhistory, filterMap_append, hnone, append_nil]
  rfl

theorem Returning.dated (h₀ : Settled r₀) : Dated r := by
  rw [Dated, h.marks, h.next]
  exact h₀.dated

theorem Returning.after (hgas : 0 ≤ amountOf r'.gasBalance)
    (hnext : r'.nextPayHeight = r.nextPayHeight) (hd : r'.autopayDelegates = r.autopayDelegates)
    (hh : r'.history = r.history) (hplan : plan.transfers ⊆ plan'.transfers)
    (hstays : StaysOpen r r') : Returning lib K r₀ r' plan' := by
  obtain ⟨new, hhistory, hnew⟩ := h.events
  refine ⟨h.books.congr hgas hd hh, hnext.trans h.next, fun a => ?_, fun a => ?_, fun hopen => ?_, new,
    hh.trans hhistory, ?_⟩
  · rw [amountAt, hd]
    exact h.amounts a
  · rw [HasDelegate, hd]
    exact h.known a
  · obtain ⟨hopen, hsame | hactive⟩ := hstays hopen
    · exact ⟨(h.stays hopen).1, hsame ▸ (h.stays hopen).2⟩
    · exact ⟨(h.stays hopen).1, .inr hactive⟩
  · intro e he
    obtain ⟨a, t, heq, ht⟩ := hnew e he
    exact ⟨a, t, heq, hplan ht⟩

theorem Returning.mono (hplan : plan.transfers ⊆ plan'.transfers) :
    Returning lib K r₀ r plan' := h.after h.books.gas rfl rfl rfl hplan (.refl r)

theorem Returning.congr (hgas : 0 ≤ amountOf r'.gasBalance)
    (hnext : r'.nextPayHeight = r.nextPayHeight) (hd : r'.autopayDelegates = r.autopayDelegates)
    (hh : r'.history = r.history) (hstays : StaysOpen r r') :
    Returning lib K r₀ r' plan := h.after hgas hnext hd hh (List.Subset.refl _) hstays

omit h

theorem stage_returnBalance (h : returnBalance lib c r plan a = .ok (r', plan')) :
    r'.closed = r.closed ∧ r'.autopayStatus = r.autopayStatus := by
  obtain ⟨transfer, -, h⟩ := bind_eq_ok.mp h
  cases transfer <;> cases h <;> exact ⟨rfl, rfl⟩

variable (hlib : lib.Lawful) (hc : c.Checked lib)
include hlib hc

omit hc in
theorem toRat_balance (r : AutopayRunningData) (a : Text) :
    (decimalOrZero lib (r.autopayDelegates[a]?.getD {}).balance).toRat = r.balanceOf a := by
  rw [toRat_decimalOrZero hlib, amountOf_balance_getD]

theorem Returning.returnBalance (h : Returning lib K r₀ r plan) (ha : HasDelegate r₀ a ∨ K a)
    (hret : returnBalance lib c r plan a = .ok (r', plan')) : Returning lib K r₀ r' plan' := by
  have hstays : StaysOpen r₀ r' := by
    obtain ⟨hclosed, hstatus⟩ := stage_returnBalance hret
    rw [StaysOpen, hclosed, hstatus]
    exact h.stays
  obtain ⟨transfer, htransfer, hret⟩ := bind_eq_ok.mp hret
  have hknown : ∀ d b, HasDelegate (r.setDelegate a d) b → HasDelegate r₀ b ∨ K b := by
    intro d b hb
    rcases hasDelegate_setDelegate.mp hb with rfl | hb
    · exact ha
    · exact h.known b hb
  have hamounts : ∀ d : AutopayDelegate, d.amountPerBlock = amountAt r a →
      ∀ b, amountAt (r.setDelegate a d) b = amountAt r₀ b :=
    fun d hd b => (amountAt_setDelegate r hd b).trans (h.amounts b)
  have hbalance := toRat_balance hlib r a
  rcases balanceTransfer_eq_ok htransfer with ⟨rfl, hguard⟩ | ⟨hpos, t, rfl, ht⟩
  · -- nothing to return: the balance was zero already
    cases hret
    have hzero : r.balanceOf a = 0 := by
      rcases hguard with hname | hasset | hsign
      · rw [hname]
        exact h.books.nameless
      · exact absurd hasset hc.feeAssetName
      · refine le_antisymm ?_ (h.books.balance a)
        rw [← hbalance]
        exact sign_nonpos_iff.mp hsign
    refine ⟨h.books.rewrite ?_ (amountOf_paid_getD r a), h.next, hamounts _ rfl, hknown _,
      hstays, h.events⟩
    rw [hzero]
    rfl
  · cases hret
    have hamount : t.amount lib = r.balanceOf a :=
      (amount_autopayTransfer hlib hpos.le ht).trans hbalance
    obtain ⟨new, hhistory, hnew⟩ := h.events
    refine ⟨h.books.write _ le_rfl (fun _ => rfl) (fun b => ?_) (fun b => ?_) (fun _ hm => ?_),
      h.next, hamounts _ rfl, hknown _, hstays, new ++ [.refunded a t], ?_, ?_⟩
    · simp only [LedgerEvent.deposit, LedgerEvent.refund, amountOf_none, amountOf_paid_getD, hamount]
      split <;> ring
    · simp [LedgerEvent.charge, amountOf_paid_getD]
    · cases hm
    · simp [record, setDelegate, hhistory]
    · refine forall_mem_append.mpr ⟨fun e he => ?_, forall_mem_singleton.mpr
        ⟨a, t, rfl, mem_append_right _ mem_cons_self⟩⟩
      obtain ⟨b, u, heq, hu⟩ := hnew e he
      exact ⟨b, u, heq, mem_append_left _ hu⟩

variable {after : AutopayRunningData × Decimal} {item item' : InvokeItem}
  {items items' : List InvokeItem}

theorem Returning.cancels (h : Books lib r) (hs : Settled r)
    (hK : ∀ item ∈ items, item.pending height = true → item.orderType = .cancel → K item.address)
    (hrun : applyAutopayCancels lib c height r plan items = .ok (r', plan', items')) :
    Returning lib K r r' plan' ∧ Settled r' ∧ r'.closed = r.closed := by
  obtain ⟨⟨⟨cancelled, p⟩, its⟩, hwalk, hrun⟩ := bind_eq_ok.mp hrun
  cases hrun
  have hinv : Returning lib K r cancelled plan' ∧ cancelled.closed = r.closed := by
    refine walk_invariant (I := fun acc => Returning lib K r acc.1 acc.2 ∧ acc.1.closed = r.closed)
      items ?_ ⟨⟨h, rfl, fun _ => rfl, fun _ => .inl, .refl r, [], (append_nil _).symm,
        forall_mem_nil _⟩, rfl⟩ hwalk
    rintro ⟨q, p⟩ item ⟨q', p'⟩ item' hitem ⟨hq, hclosed⟩ hstep
    rw [applyAutopayCancel] at hstep
    split_ifs at hstep with hpending
    · obtain ⟨acc', hret, heq⟩ := bind_eq_ok.mp hstep
      cases heq
      refine ⟨Returning.returnBalance hlib hc (hq.mono ?_)
        (.inr (hK item hitem hpending.1 hpending.2)) hret, (stage_returnBalance hret).1.trans hclosed⟩
      simp
    · cases hstep
      exact ⟨hq, hclosed⟩
  obtain ⟨hinv, hclosed⟩ := hinv
  split_ifs with hnone
  · exact ⟨hinv.congr hinv.books.gas rfl rfl rfl (.refl cancelled), Settled.sync hlib (hinv.dated hs),
      hclosed⟩
  have hsame : ((cancelled, plan') : Settling) = (r, plan) := by
    refine walk_invariant (I := fun acc => acc = (r, plan)) items ?_ rfl hwalk
    rintro acc item acc' item' hmem rfl hstep
    rw [applyAutopayCancel, if_neg, Except.ok.injEq, Prod.mk.injEq] at hstep
    · exact hstep.1.symm
    · intro hpending
      refine hnone (any_eq_true.mpr ⟨item, hmem, ?_⟩)
      simp [hpending.1, hpending.2]
  cases hsame
  exact ⟨hinv, hs, rfl⟩

omit hc in
theorem Returning.payClosingGas {gasFee} (h : Returning lib K r₀ r plan)
    (hfee : ¬ gasFee.any fun fee => lib.cmp (decimalOrZero lib r.gasBalance) fee = .lt) :
    Returning lib K r₀ (payClosingGas lib r plan gasFee).1 (payClosingGas lib r plan gasFee).2 := by
  unfold Template.payClosingGas
  split
  · refine h.after ?_ rfl rfl rfl (List.Subset.refl _) (.refl r)
    cases gasFee with
    | none => rw [amountOf_some, toRat_decimalSubAllowNil hlib, amountOf_none, sub_zero]; exact h.books.gas
    | some fee =>
      have hle : lib.cmp (decimalOrZero lib r.gasBalance) fee ≠ .lt := by simpa using hfee
      rw [cmp_ne_lt hlib, toRat_decimalOrZero hlib] at hle
      rw [amountOf_some, toRat_decimalSubAllowNil hlib, amountOf_some]
      exact sub_nonneg.mpr hle
  · exact h

omit hlib hc in
theorem Returning.finishClose (h : Returning lib K r₀ r plan)
    (hrun : finishClose lib terms deployer r plan item = .ok (r', plan', item')) :
    Returning lib K r₀ r' plan' := by
  unfold Template.finishClose at hrun
  split at hrun
  · cases hrun
    exact h.congr h.books.gas rfl rfl rfl fun hopen => ⟨hopen, .inr rfl⟩
  · obtain ⟨gas, -, hrun⟩ := bind_eq_ok.mp hrun
    cases hrun
    exact h.after le_rfl rfl rfl rfl (subset_append_left _ _) fun hopen => by cases hopen

theorem Returning.closeItem (h : Returning lib K r₀ r plan)
    (hrun : closeItem lib c terms deployer height r plan item = .ok (r', plan', item')) :
    Returning lib K r₀ r' plan' := by
  have hentered : Returning lib K r₀ r (enterClose r plan item) := by
    refine h.mono ?_
    rw [enterClose, SettlementPlan.appendItemId_transfers]
    split
    · exact List.Subset.refl _
    · rw [SettlementPlan.addInputs_transfers]
      exact List.Subset.refl _
  unfold Template.closeItem at hrun
  split at hrun
  · cases hrun
    exact hentered
  obtain ⟨gasFee, -, hrun⟩ := bind_eq_ok.mp hrun
  split_ifs at hrun with hfee
  · cases hrun
    exact h
  have hpaid := hentered.payClosingGas hlib hfee
  have hstarted : Returning lib K r₀
      { (Template.payClosingGas lib r (enterClose r plan item) gasFee).1 with
        autopayCloseStarted := true }
      (Template.payClosingGas lib r (enterClose r plan item) gasFee).2 :=
    hpaid.congr hpaid.books.gas rfl rfl rfl (.refl _)
  obtain ⟨⟨returned, p⟩, hbatch, hrun⟩ := bind_eq_ok.mp hrun
  have hreturned : Returning lib K r₀ returned p := by
    refine foldlM_invariant (I := fun acc => Returning lib K r₀ acc.1 acc.2) _ ?_
      hstarted hbatch
    rintro ⟨q, p⟩ ⟨q', p'⟩ a ha hq hret
    have hmem := (mem_filter.mp (mem_of_mem_take ha)).1
    exact hq.returnBalance hlib hc (hstarted.known a (mem_sortedDelegateAddresses.mp hmem).2) hret
  have hsynced : Returning lib K r₀ (syncFeeBalance lib returned) p :=
    hreturned.congr hreturned.books.gas rfl rfl rfl (.refl returned)
  exact hsynced.finishClose hrun

theorem Returning.close (h : Returning lib K r₀ r plan)
    (hrun : applyAutopayClose lib c terms deployer height r plan items =
      .ok (some (r', plan', items'))) : Returning lib K r₀ r' plan' := by
  induction items generalizing items' with
  | nil => cases hrun
  | cons item items ih =>
    rw [applyAutopayClose] at hrun
    split at hrun
    · obtain ⟨⟨q, p, it⟩, hclose, heq⟩ := bind_eq_ok.mp hrun
      cases heq
      exact h.closeItem hlib hc hclose
    · obtain ⟨closed, hclose, heq⟩ := bind_eq_ok.mp hrun
      obtain ⟨⟨q, p, its⟩, rfl, hmap⟩ := Option.map_eq_some_iff.mp (Except.ok.inj heq)
      obtain ⟨rfl, hrest⟩ := Prod.mk.inj hmap
      cases hrest
      exact ih hclose

/-- What collecting from the listed delegates does to the books and to the sum collected. -/
structure Collected (lib : DecimalLib) (c : AutopayContract) (height : ℤ) (l : List Text)
    (before after : AutopayRunningData × Decimal) : Prop where
  books : Books lib after.1
  gas : after.1.gasBalance = before.1.gasBalance
  fee : after.1.feeBalance = before.1.feeBalance
  next : after.1.nextPayHeight = before.1.nextPayHeight
  held : after.1.held + after.2.toRat = before.1.held + before.2.toRat
  amounts : ∀ a, amountAt after.1 a = amountAt before.1 a
  known : ∀ a, HasDelegate after.1 a ↔ HasDelegate before.1 a
  idle : after.2.toRat = before.2.toRat → (∀ a, after.1.balanceOf a = before.1.balanceOf a) ∧
    ∀ a ∈ l, before.1.balanceOf a < (rateOf lib c before.1 a).toRat
  events : ∃ new, after.1.history = before.1.history ++ new ∧
    (∀ e ∈ new, ∃ a ∈ l, e = .charged height a (rateOf lib c before.1 a)) ∧
    before.2.toRat ≤ after.2.toRat ∧ (new ≠ [] → before.2.toRat < after.2.toRat)

theorem rateOf_pos (r) (a) : 0 < (rateOf lib c r a).toRat := by
  rw [rateOf, delegateAmount]
  split_ifs with hsign
  · exact hc.minAmount_pos hlib
  · exact lt_of_not_ge (mt Decimal.sign_nonpos_iff.mpr hsign)

theorem collected_one {total : Decimal} (hb : Books lib r) (hname : a ≠ []) (ha : HasDelegate r a)
    (hfresh : (height, a) ∉ r.marks) (h : collectAutopayFee lib c height (r, total) a = .ok after) :
    Collected lib c height [a] (r, total) after ∧
      ∀ b, b ≠ a → (height, b) ∉ r.marks → (height, b) ∉ after.1.marks := by
  have hbalance := toRat_balance hlib r a
  have hrate : delegateAmount lib c (r.autopayDelegates[a]?.getD {}) = rateOf lib c r a := rfl
  have hknown : ∀ d b, HasDelegate (r.setDelegate a d) b ↔ HasDelegate r b := by
    intro d b
    rw [hasDelegate_setDelegate, or_iff_right_of_imp]
    rintro rfl
    exact ha
  unfold collectAutopayFee at h
  simp only at h
  split_ifs at h with hcmp
  · cases h
    refine ⟨⟨hb.rewrite (amountOf_balance_getD r a) (amountOf_paid_getD r a), rfl, rfl, rfl, ?_,
      amountAt_setDelegate r rfl, hknown _, fun _ => ⟨fun b => ?_, fun b hb => ?_⟩,
      [], (append_nil _).symm, forall_mem_nil _, le_rfl,
      fun hne => absurd rfl hne⟩, fun b _ hfresh => hfresh⟩
    · rw [held_setDelegate, amountOf_balance_getD, sub_self, add_zero]
    · rw [balanceOf_setDelegate, amountOf_balance_getD]
      exact ite_eq_right_iff.mpr fun heq => heq ▸ rfl
    · obtain rfl := mem_singleton.mp hb
      rwa [cmp_eq_lt hlib, hbalance, hrate] at hcmp
  · obtain ⟨-, -, h⟩ := bind_eq_ok.mp h
    cases h
    have hle : (rateOf lib c r a).toRat ≤ r.balanceOf a := by
      rw [← hbalance]
      exact (cmp_ne_lt hlib).mp hcmp
    have hpos := rateOf_pos hlib hc r a
    have hmore : total.toRat < (lib.addAlignPrecision total (rateOf lib c r a)).toRat := by
      rw [hlib.add]
      exact lt_add_of_pos_right _ hpos
    refine ⟨⟨hb.write _ ?_ (fun hnil => absurd hnil hname) (fun b => ?_) (fun b => ?_) ?_, rfl, rfl,
      rfl, ?_, amountAt_setDelegate r rfl, hknown _, fun heq => absurd heq hmore.ne',
      [.charged height a (rateOf lib c r a)], rfl, ?_, hmore.le, fun _ => hmore⟩,
      fun b hne hfresh => ?_⟩
    · rw [withStatus, amountOf_some, hlib.sub, hbalance, hrate]
      exact sub_nonneg.mpr hle
    · simp only [withStatus, amountOf_some, hlib.sub, hbalance, hrate, LedgerEvent.deposit,
        LedgerEvent.refund, amountOf_decimalAddAllowNil hlib, amountOf_paid_getD]
      split <;> ring
    · simp only [withStatus, LedgerEvent.charge, amountOf_decimalAddAllowNil hlib,
        amountOf_paid_getD, amountOf_some, hrate]
      split <;> ring
    · rintro mark hmark
      cases hmark
      exact hfresh
    · show (r.setDelegate a _).held + _ = _
      rw [held_setDelegate, withStatus, amountOf_some, hlib.sub, hbalance, hlib.add, hrate]
      ring
    · intro e he
      exact ⟨a, mem_singleton.mpr rfl, mem_singleton.mp he⟩
    · rw [marks_record]
      intro hmem
      rcases mem_append.mp hmem with hmem | hmem
      · exact hfresh hmem
      · have heq := mem_singleton.mp hmem
        exact hne (Prod.mk.inj heq).2

theorem collected_all {l : List Text} {before} (hnodup : l.Nodup)
    (hnames : ∀ a ∈ l, a ≠ [] ∧ HasDelegate before.1 a) (hb : Books lib before.1)
    (hfresh : ∀ a ∈ l, (height, a) ∉ before.1.marks)
    (h : l.foldlM (collectAutopayFee lib c height) before = .ok after) :
    Collected lib c height l before after := by
  induction l generalizing before with
  | nil =>
    cases h
    exact ⟨hb, rfl, rfl, rfl, rfl, fun _ => rfl, fun _ => .rfl,
      fun _ => ⟨fun _ => rfl, forall_mem_nil _⟩, [], (append_nil _).symm,
      forall_mem_nil _, le_rfl, fun hne => absurd rfl hne⟩
  | cons a l ih =>
    obtain ⟨hnot, hnodup⟩ := nodup_cons.mp hnodup
    obtain ⟨mid, hone, hrest⟩ := foldlM_cons_eq_ok.mp h
    obtain ⟨r, total⟩ := before
    obtain ⟨hname, ha⟩ := hnames a mem_cons_self
    obtain ⟨hfirst, hmarks⟩ := collected_one hlib hc hb hname ha (hfresh a mem_cons_self) hone
    have hne : ∀ b ∈ l, b ≠ a := fun b hb heq => hnot (heq ▸ hb)
    have htail := ih hnodup (fun b hb => (hnames b (mem_cons_of_mem _ hb)).imp_right
      (hfirst.known b).mpr) hfirst.books
      (fun b hb => hmarks b (hne b hb) (hfresh b (mem_cons_of_mem _ hb))) hrest
    have hrates : ∀ b, rateOf lib c mid.1 b = rateOf lib c r b :=
      fun b => rateOf_congr (hfirst.amounts b)
    obtain ⟨new, hhistory, hnew, hle, hlt⟩ := hfirst.events
    obtain ⟨new', hhistory', hnew', hle', hlt'⟩ := htail.events
    refine ⟨htail.books, htail.gas.trans hfirst.gas, htail.fee.trans hfirst.fee,
      htail.next.trans hfirst.next, htail.held.trans hfirst.held,
      fun b => (htail.amounts b).trans (hfirst.amounts b), fun b => (htail.known b).trans (hfirst.known b),
      fun heq => ?_, new ++ new', ?_, ?_, hle.trans hle', ?_⟩
    · have hmid : mid.2.toRat = total.toRat := le_antisymm (hle'.trans heq.le) hle
      obtain ⟨hsame, hshort⟩ := hfirst.idle hmid
      obtain ⟨hsame', hshort'⟩ := htail.idle (heq.trans hmid.symm)
      refine ⟨fun b => (hsame' b).trans (hsame b), fun b hb => ?_⟩
      rcases mem_cons.mp hb with rfl | hb
      · exact hshort b (mem_singleton.mpr rfl)
      · rw [← hsame b, ← hrates b]
        exact hshort' b hb
    · rw [hhistory', hhistory, append_assoc]
    · intro e he
      rcases mem_append.mp he with he | he
      · obtain ⟨b, hb, heq⟩ := hnew e he
        exact ⟨b, mem_cons.mpr (Or.inl (mem_singleton.mp hb)), heq⟩
      · obtain ⟨b, hb, heq⟩ := hnew' e he
        exact ⟨b, mem_cons_of_mem _ hb, heq.trans (by rw [hrates b])⟩
    · intro happend
      by_cases hnil : new = []
      · exact lt_of_le_of_lt hle (hlt' fun h' => happend (by rw [hnil, h', append_nil]))
      · exact lt_of_lt_of_le (hlt hnil) hle'

structure BlockSettled (lib : DecimalLib) (c : AutopayContract) (height : ℤ)
    (r₀ r : AutopayRunningData) (plan : SettlementPlan) : Prop where
  books : Books lib r
  settled : Settled r
  events : ∃ new, r.history = r₀.history ++ new ∧ ∀ e ∈ new,
    (∃ a t, e = .refunded a t ∧ t ∈ plan.transfers) ∨ ∃ a, e = .charged height a (rateOf lib c r₀ a)

omit hlib hc in
theorem Returning.blockSettled (h : Returning lib K r₀ r plan) (hgas : 0 ≤ amountOf r'.gasBalance)
    (hd : r'.autopayDelegates = r.autopayDelegates) (hh : r'.history = r.history)
    (hs : Settled r') : BlockSettled lib c height r₀ r' plan := by
  obtain ⟨new, hhistory, hnew⟩ := h.events
  exact ⟨h.books.congr hgas hd hh, hs, new, hh.trans hhistory, fun e he => Or.inl (hnew e he)⟩

omit hlib hc in
theorem Settled.start (h : Settled r) (hheight : 0 ≤ height) :
    Settled (startSchedule r height) := by
  rw [startSchedule]
  split_ifs with hzero
  · have hnext : 0 ≤ height + 1 := add_nonneg hheight zero_le_one
    refine ⟨h.fee, hnext, fun mark hmark => ?_⟩
    have hlt := h.dated.2 mark hmark
    rw [hzero] at hlt
    exact hlt.trans_le hnext
  · exact h

omit hlib hc in
theorem startSchedule_same (r) (height : ℤ) : (startSchedule r height).gasBalance = r.gasBalance ∧
      (startSchedule r height).autopayDelegates = r.autopayDelegates ∧
      (startSchedule r height).history = r.history := by
  rw [startSchedule]
  split <;> exact ⟨rfl, rfl, rfl⟩

theorem Settled.collected (hs : Settled r) (hb : Books lib r) (hdue : ¬ height < r.nextPayHeight)
    (h : collectAutopayFees lib c r height = .ok after) :
    Collected lib c height (sortedDelegateAddresses r) (r, zeroDecimal lib) after :=
  -- every charge so far is of an earlier height
  collected_all hlib hc (ExtTreeMap.nodup_keys.filter _) (fun _ => mem_sortedDelegateAddresses.mp) hb
    (fun _ _ hmem => hdue (hs.dated.2 _ hmem)) h

theorem payBlock_spec (hheight : 0 ≤ height) (h : Returning lib K r₀ r plan) (hs : Settled r)
    (hrun : payBlock lib c terms r plan height = .ok (r', plan')) :
    BlockSettled lib c height r₀ r' plan' := by
  obtain ⟨gasFee, -, hrun⟩ := bind_eq_ok.mp hrun
  obtain ⟨hgas, hd, hh⟩ := startSchedule_same r height
  have hs' := hs.start hheight
  have hstart : Books lib (startSchedule r height) := h.books.congr (hgas ▸ h.books.gas) hd hh
  simp only at hrun
  split at hrun
  · cases hrun
    exact h.blockSettled hstart.gas hd hh ⟨hs'.fee, hs'.dated⟩
  rename_i hdue
  split_ifs at hrun with hafford
  · cases hrun
    exact h.blockSettled hstart.gas hd hh ⟨hs'.fee, hs'.dated⟩
  obtain ⟨⟨collected, total⟩, hcollect, hrun⟩ := bind_eq_ok.mp hrun
  have hcol := hs'.collected hlib hc hstart hdue hcollect
  obtain ⟨new, hhistory, hnew⟩ := h.events
  obtain ⟨paid, hpaid, hcharged, hle, hlt⟩ := hcol.events
  have hrates : ∀ a, rateOf lib c (startSchedule r height) a = rateOf lib c r₀ a :=
    fun a => rateOf_congr ((congrArg (fun m => (m[a]?.getD {}).amountPerBlock) hd).trans
      (h.amounts a))
  have hall : ∀ plan'' : SettlementPlan, plan.transfers ⊆ plan''.transfers →
      ∀ e ∈ new ++ paid, (∃ a t, e = .refunded a t ∧ t ∈ plan''.transfers) ∨
        ∃ a, e = .charged height a (rateOf lib c r₀ a) := by
    intro plan'' hsub e he
    rcases mem_append.mp he with he | he
    · obtain ⟨a, t, heq, ht⟩ := hnew e he
      exact Or.inl ⟨a, t, heq, hsub ht⟩
    · obtain ⟨a, -, heq⟩ := hcharged e he
      exact Or.inr ⟨a, heq.trans (by rw [hrates a])⟩
  have hmerged : collected.history = r₀.history ++ (new ++ paid) := by
    rw [hpaid, hh, hhistory, append_assoc]
  have hzero : (zeroDecimal lib).toRat = 0 := toRat_zeroDecimal hlib
  simp only at hrun
  split at hrun
  · -- nobody could pay: no charge was recorded
    rename_i hsign
    cases hrun
    have hnone : total.toRat ≤ 0 := sign_nonpos_iff.mp hsign
    have hnil : paid = [] := by
      by_contra hne
      exact not_lt.mpr hnone (hzero ▸ hlt hne)
    have hheld := hcol.held
    rw [le_antisymm hnone (hzero ▸ hle), hzero, add_zero, add_zero] at hheld
    refine ⟨hcol.books.congr hcol.books.gas rfl rfl, ⟨?_, hs'.dated.1.trans_eq hcol.next.symm,
      fun mark hmark => ?_⟩, new ++ paid, hmerged, hall _ (List.Subset.refl _)⟩
    · exact (congrArg amountOf hcol.fee).trans (hs'.fee.trans hheld.symm)
    · have hmark' : mark ∈ collected.marks := hmark
      rw [AutopayRunningData.marks, hpaid, hnil, append_nil] at hmark'
      exact lt_of_lt_of_eq (hs'.dated.2 mark hmark') hcol.next.symm
  · obtain ⟨transfer, -, hrun⟩ := bind_eq_ok.mp hrun
    cases hrun
    refine ⟨hcol.books.congr ?_ rfl rfl, ⟨fee_syncFeeBalance hlib _, add_nonneg hheight zero_le_one,
      fun mark hmark => ?_⟩, new ++ paid, hmerged, hall _ (subset_append_left _ _)⟩
    · show 0 ≤ (decimalSubAllowNil lib collected.gasBalance (some gasFee)).toRat
      rw [toRat_decimalSubAllowNil hlib, amountOf_some, hcol.gas, ← toRat_decimalOrZero hlib]
      exact sub_nonneg.mpr ((cmp_ne_lt hlib).mp hafford)
    · have hmark' : mark ∈ collected.marks := hmark
      rw [AutopayRunningData.marks, hpaid, filterMap_append, mem_append] at hmark'
      show mark.1 < height + 1
      rcases hmark' with hold | hnow
      · exact (hs'.dated.2 mark hold).trans_le ((not_lt.mp hdue).trans (by omega))
      · obtain ⟨e, he, hmark⟩ := mem_filterMap.mp hnow
        obtain ⟨a, -, rfl⟩ := hcharged e he
        cases hmark
        exact lt_add_one _

theorem settle_spec (hheight : 0 ≤ height) {s s'} (hb : Books lib s.running)
    (hs : Settled s.running) (hrun : c.settle lib terms deployer s height = .ok (s', plan)) :
    BlockSettled lib c height s.running s'.running plan := by
  obtain ⟨⟨p, items⟩, -, hrun⟩ := bind_eq_ok.mp hrun
  obtain ⟨⟨r, p', items'⟩, hcancel, hrun⟩ := bind_eq_ok.mp hrun
  obtain ⟨hret, hset, -⟩ := Returning.cancels (K := fun _ => True) hlib hc hb hs
    (fun _ _ _ _ => trivial) hcancel
  obtain ⟨closing, hclosing, hrun⟩ := bind_eq_ok.mp hrun
  cases closing with
  | some closed =>
    obtain ⟨r', p'', items''⟩ := closed
    cases hrun
    rw [closeUnlessClosed] at hclosing
    split at hclosing
    · cases hclosing
    · have hclosed := hret.close hlib hc hclosing
      exact hclosed.blockSettled hclosed.books.gas rfl rfl (Settled.sync hlib (hclosed.dated hs))
  | none =>
    simp only at hrun
    split at hrun
    · cases hrun
      exact hret.blockSettled hret.books.gas rfl rfl hset
    · obtain ⟨⟨r', p''⟩, hpay, hrun⟩ := bind_eq_ok.mp hrun
      cases hrun
      exact payBlock_spec hlib hc hheight hret hset hpay

end Laws

end SatoshiNet.Template
