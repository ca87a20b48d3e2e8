import SatoshiNet.Template.ExchangeSettle

/-!
The settlement of a block: what it pays in all and for each item, and what a close does.
-/

namespace SatoshiNet.Template

open Lib Wire Contract List
open InvokeItem

structure ExchangeState.Sound (deployer : Text) (s : ExchangeState) : Prop where
  poolA : 0 ≤ amountOf s.running.assetAInPool
  poolB : 0 ≤ amountOf s.running.assetBInPool
  items : ∀ item ∈ s.items, ExchangeItem deployer item
  ids : (s.items.map (·.id)).Nodup
  fresh : ∀ item ∈ s.items, item.id < s.nextItemId
  closed : s.running.closed = true → s.running.assetAInPool = none ∧ s.running.assetBInPool = none

def InvokeItem.heldB (item : InvokeItem) : ℚ := item.refusedB + item.offeredB

variable {item : InvokeItem}

theorem InvokeItem.heldB_of_finished (h : item.finished = true) : item.heldB = 0 := by
  simp [heldB, refusedB, offeredB, h]

theorem ExchangeItem.heldB_of_exchange {deployer} {height : ℤ} (hitem : ExchangeItem deployer item)
    (hdue : item.due height) (horder : item.orderType = .exchange) :
    item.heldB = amountOf item.remainingAmt := by
  have hreason : ¬ item.reason = .invalid := fun h =>
    absurd (horder.symm.trans (hitem.refused.mp h)) nofun
  simp [heldB, refusedB, offeredB, hdue.1, horder, hreason]

section Settle

variable {lib : DecimalLib} {c : ExchangeContract} {params : ParamLib} {deployer : Text}
  {assetPrecision : AssetPrecision} {height : ℤ} {s s' : ExchangeState}
  {plan : SettlementPlan}

structure ExchangePasses (lib : DecimalLib) (c : ExchangeContract) (params : ParamLib)
    (deployer : Text) (assetPrecision : AssetPrecision) (height : ℤ)
    (s s' : ExchangeState) (plan : SettlementPlan) (refunds : SettlementPlan)
    (items : List InvokeItem) : Prop where
  invalid : applyInvalidItemsInRange lib c.assetAName c.assetBName none height {} s.items =
    .ok (refunds, items)
  settled : walk (settleExchangeStep lib c params deployer assetPrecision height)
    (s.running, refunds) items = .ok ((s'.running, plan), s'.items)
  next : s'.nextItemId = s.nextItemId

theorem settle_passes (h : c.settle lib params deployer assetPrecision s height = .ok (s', plan)) :
    ∃ refunds items,
      ExchangePasses lib c params deployer assetPrecision height s s' plan refunds items := by
  obtain ⟨⟨refunds, items⟩, hinvalid, h⟩ := bind_eq_ok.mp h
  obtain ⟨⟨⟨running, plan'⟩, items'⟩, hsettled, h⟩ := bind_eq_ok.mp h
  cases h
  exact ⟨refunds, items, hinvalid, hsettled, rfl⟩

namespace ExchangePasses

variable {refunds : SettlementPlan} {items : List InvokeItem}
  (h : ExchangePasses lib c params deployer assetPrecision height s s' plan refunds items)
include h

theorem refused_items :
    List.Forall₂ (fun a a' => (a' = a ∧ ¬ (a.due height ∧ a.reason = .invalid)) ∨
      (a.due height ∧ a.reason = .invalid ∧ a' = { a with done := .refunded })) s.items items := by
  refine (applyInvalidItemsInRange_items h.invalid).imp ?_
  rintro a a' (⟨rfl, hskip⟩ | hsettled)
  · exact Or.inl ⟨rfl, fun hdue => absurd (hskip hdue.1 hdue.2) (by simp)⟩
  · exact Or.inr hsettled

theorem refused_ids : items.map (·.id) = s.items.map (·.id) := by
  refine map_eq_of_forall₂ h.refused_items ?_
  rintro a b (⟨rfl, -⟩ | ⟨-, -, rfl⟩) <;> rfl

variable (hs : s.Sound deployer)
include hs

theorem sound_items : ∀ item ∈ items, ExchangeItem deployer item := by
  intro item hmem
  obtain ⟨a, ha, ⟨rfl, -⟩ | ⟨-, -, rfl⟩⟩ := exists_of_forall₂_right h.refused_items hmem
  · exact hs.items item ha
  · exact { hs.items a ha with }

structure Running (r : ExchangeRunningData) : Prop where
  poolA : 0 ≤ amountOf r.assetAInPool
  poolB : 0 ≤ amountOf r.assetBInPool
  closed : r.closed = true → r.assetAInPool = none ∧ r.assetBInPool = none

omit h in
theorem running_of_sound : Running s.running := { hs with }

variable (hlib : lib.Lawful) (hdeployer : deployer ≠ [])
include hlib hdeployer

variable {acc acc' : Exchanging} {item item' : InvokeItem}

omit h hs in
theorem step_outcome (hitem : ExchangeItem deployer item) (hacc : Running acc.1)
    (h : settleExchangeStep lib c params deployer assetPrecision height acc item =
      .ok (acc', item')) :
    Running acc'.1 ∧ ∃ new, acc'.2.transfers = acc.2.transfers ++ new ∧
      ExchangeOutcome lib c deployer height acc.1 item acc'.1 item' new := by
  obtain ⟨new, hnew, houtcome⟩ := settleExchangeStep_outcome hlib hdeployer hacc.poolA hitem h
  exact ⟨⟨houtcome.poolA_nonneg hlib hacc.poolA, houtcome.poolB_nonneg hacc.poolB,
    houtcome.pools_of_closed hacc.closed⟩, new, hnew, houtcome⟩

abbrev Settled (lib : DecimalLib) (c : ExchangeContract) (deployer : Text) (height : ℤ)
    (item item' : InvokeItem) : Prop :=
  ∃ r r' new, ExchangeOutcome lib c deployer height r item r' item' new

theorem outcomes : Running s'.running ∧ Forall₂ (Settled lib c deployer height) items s'.items := by
  refine walk_forall₂ (s := (s.running, refunds)) (t := (s'.running, plan))
    (I := fun acc => Running acc.1) items ?_
    (running_of_sound hs) h.settled
  intro acc item acc' item' hmem hacc hrun
  obtain ⟨hacc', new, -, houtcome⟩ :=
    step_outcome hlib hdeployer (h.sound_items hs item hmem) hacc hrun
  exact ⟨hacc', acc.1, acc'.1, new, houtcome⟩

theorem ids : s'.items.map (·.id) = s.items.map (·.id) := calc
  s'.items.map (·.id) = items.map (·.id) := by
    refine map_eq_of_forall₂ (h.outcomes hs hlib hdeployer).2 ?_
    rintro a b ⟨r, r', new, houtcome⟩
    exact houtcome.id_eq
  _ = s.items.map (·.id) := h.refused_ids

theorem sound : s'.Sound deployer := by
  have hids := h.ids hs hlib hdeployer
  obtain ⟨⟨hA, hB, hclosed⟩, -⟩ := h.outcomes hs hlib hdeployer
  refine ⟨hA, hB, ?_, hids ▸ hs.ids, ?_, hclosed⟩
  · intro item' hmem
    obtain ⟨item, hitem, r, r', new, houtcome⟩ :=
      exists_of_forall₂_right (h.outcomes hs hlib hdeployer).2 hmem
    exact houtcome.item_keeps (h.sound_items hs item hitem)
  · intro item' hmem
    have hid : item'.id ∈ s.items.map (·.id) := hids ▸ mem_map_of_mem hmem
    obtain ⟨item, hitem, heq⟩ := mem_map.mp hid
    rw [h.next, ← heq]
    exact hs.fresh item hitem

theorem account (name : Text) (pool : ExchangeRunningData → ℚ) (w : InvokeItem → ℚ) (p : ℤ → Bool)
    (hrefused : ∀ item ∈ s.items, item.due height → item.reason = .invalid → ∀ new,
      invalidRefundTransfers lib c.assetAName c.assetBName item = .ok new →
        paid lib name new + w { item with done := .refunded } = w item)
    (hstep : ∀ r item r' item' new, item ∈ items → Running r →
      ExchangeOutcome lib c deployer height r item r' item' new →
      pool r' + (if p item.id then paid lib name new + w item' else 0) =
        pool r + if p item.id then w item else 0) :
    pool s'.running + paidFor lib name p plan.transfers +
        (s'.items.map fun a => if p a.id then w a else 0).sum =
      pool s.running + (s.items.map fun a => if p a.id then w a else 0).sum := by
  have hfirst := applyInvalidItemsInRange_pays h.invalid p hrefused
  have hsecond := walk_pays lib name (s := (s.running, refunds)) (t := (s'.running, plan))
    (I := fun acc => Running acc.1)
    Prod.snd (fun acc => pool acc.1) w p items (by
      intro acc item acc' item' hmem hacc hrun
      obtain ⟨hacc', new, hnew, houtcome⟩ :=
        step_outcome hlib hdeployer (h.sound_items hs item hmem) hacc hrun
      exact ⟨hacc', houtcome.id_eq, new, hnew, houtcome.own,
        hstep acc.1 item acc'.1 item' new hmem hacc houtcome⟩)
    (running_of_sound hs) h.settled
  have hempty : paidFor lib name p ({} : SettlementPlan).transfers = 0 := rfl
  linarith

omit h hs hlib hdeployer in
theorem offeredB_of_refused (hitem : ExchangeItem deployer item) (hreason : item.reason = .invalid)
    (done) : offeredB { item with done := done } = 0 ∧ boughtA { item with done := done } = 0 := by
  have horder := hitem.refused.mp hreason
  simp [offeredB, boughtA, horder]

section

variable (hpair : AssetPair c.assetAName c.assetBName)
include hpair

omit h hs hdeployer in
theorem refused_pays (hitem : ExchangeItem deployer item) (hdue : item.due height)
    (hreason : item.reason = .invalid) {new}
    (hnew : invalidRefundTransfers lib c.assetAName c.assetBName item = .ok new) :
    paid lib c.assetAName new + refusedA { item with done := .refunded } = item.refusedA ∧
    paid lib c.assetBName new + heldB { item with done := .refunded } = item.heldB := by
  obtain ⟨hA, hB⟩ := paid_invalidRefundTransfers hlib hpair hitem.retainedA hitem.retainedB hnew
  have hbefore : item.refusedA = amountOf item.retainedAssetA ∧
      item.refusedB = amountOf item.retainedAssetB :=
    ⟨if_pos ⟨hdue.1, hreason⟩, if_pos ⟨hdue.1, hreason⟩⟩
  rw [hA, hB, heldB, heldB, hbefore.1, hbefore.2,
    (offeredB_of_refused hitem hreason .refunded).1, (offeredB_of_refused hitem hreason item.done).1]
  simp [refusedA, refusedB, finished]

theorem totalA :
    amountOf s.running.assetAInPool + (s.items.map (·.refusedA)).sum =
      amountOf s'.running.assetAInPool + (s'.items.map (·.refusedA)).sum +
        paid lib c.assetAName plan.transfers := by
  have haccount := h.account hs hlib hdeployer c.assetAName (fun r => amountOf r.assetAInPool)
    refusedA (fun _ => true)
    (fun item hmem hdue hreason new hnew =>
      (refused_pays hlib hpair (hs.items item hmem) hdue hreason hnew).1)
    (by
      intro r item r' item' new hmem hr houtcome
      have hitem := h.sound_items hs item hmem
      have hsum := houtcome.sumA hitem hlib hpair hr.poolA hr.poolB
      rw [if_pos rfl, if_pos rfl, (houtcome.refused_eq hitem).1]
      linarith)
  simp only [if_true, paidFor_all] at haccount
  linarith

theorem totalB :
    amountOf s.running.assetBInPool + (s.items.map (·.heldB)).sum =
      amountOf s'.running.assetBInPool + (s'.items.map (·.heldB)).sum +
        paid lib c.assetBName plan.transfers := by
  have haccount := h.account hs hlib hdeployer c.assetBName (fun r => amountOf r.assetBInPool)
    heldB (fun _ => true)
    (fun item hmem hdue hreason new hnew =>
      (refused_pays hlib hpair (hs.items item hmem) hdue hreason hnew).2)
    (by
      intro r item r' item' new hmem hr houtcome
      have hitem := h.sound_items hs item hmem
      have hsum := houtcome.sumB hitem hlib hpair hr.poolA hr.poolB
      rw [if_pos rfl, if_pos rfl, heldB, heldB, (houtcome.refused_eq hitem).2]
      linarith)
  simp only [if_true, paidFor_all] at haccount
  linarith

omit hpair hlib hdeployer in
theorem orderType_of_id {a} (hmem : item ∈ s.items) (ha : a ∈ items) (hid : a.id = item.id) :
    a.orderType = item.orderType := by
  obtain ⟨b, hb, hrel⟩ := exists_of_forall₂_right h.refused_items ha
  have hsame : a.id = b.id ∧ a.orderType = b.orderType := by
    rcases hrel with ⟨rfl, -⟩ | ⟨-, -, rfl⟩ <;> exact ⟨rfl, rfl⟩
  have heq : b = item := inj_on_of_nodup_map hs.ids hb hmem (hsame.1.symm.trans hid)
  rw [hsame.2, heq]

omit hpair in
theorem account_item (name : Text) (w : InvokeItem → ℚ)
    (hmem : item ∈ s.items) (hmem' : item' ∈ s'.items) (hid : item'.id = item.id)
    (hrefused : ∀ a ∈ s.items, a.due height → a.reason = .invalid → ∀ new,
      invalidRefundTransfers lib c.assetAName c.assetBName a = .ok new →
        paid lib name new + w { a with done := .refunded } = w a)
    (hstep : ∀ r a r' a' new, a ∈ items → a.orderType = item.orderType → Running r →
      ExchangeOutcome lib c deployer height r a r' a' new → paid lib name new + w a' = w a) :
    paidFor lib name (fun i => i = item.id) plan.transfers + w item' = w item := by
  have hids' : (s'.items.map (·.id)).Nodup := h.ids hs hlib hdeployer ▸ hs.ids
  have hsum' : (s'.items.map fun a => if a.id = item.id then w a else 0).sum = w item' :=
    hid ▸ sum_ite_key hids' hmem'
  have hsum : (s.items.map fun a => if a.id = item.id then w a else 0).sum = w item :=
    sum_ite_key hs.ids hmem
  have haccount := h.account hs hlib hdeployer name (fun _ => 0) w (fun i => i = item.id) hrefused
    (by
      intro r a r' a' new ha hr houtcome
      by_cases heq : a.id = item.id
      · have horder := h.orderType_of_id hs hmem ha heq
        simp [hstep r a r' a' new ha horder hr houtcome]
      · simp [heq])
  simp only [decide_eq_true_eq, hsum, hsum', zero_add] at haccount
  exact haccount

theorem itemA (hmem : item ∈ s.items) (hmem' : item' ∈ s'.items)
    (hid : item'.id = item.id) (horder : item.orderType ≠ .close) :
    paidFor lib c.assetAName (fun i => i = item.id) plan.transfers +
      (item'.refusedA - item'.boughtA) = item.refusedA - item.boughtA := by
  refine h.account_item hs hlib hdeployer c.assetAName (fun a => a.refusedA - a.boughtA) hmem hmem'
    hid ?_ ?_
  · intro a ha hdue hreason new hnew
    have hA := (refused_pays hlib hpair (hs.items a ha) hdue hreason hnew).1
    have hbought' := (offeredB_of_refused (hs.items a ha) hreason .refunded).2
    have hbought := (offeredB_of_refused (hs.items a ha) hreason a.done).2
    simp only [hbought']
    linarith
  · intro r a r' a' new ha hkind hr houtcome
    have hitem := h.sound_items hs a ha
    have hbought := houtcome.bought hitem hlib hpair (hkind ▸ horder)
    rw [(houtcome.refused_eq hitem).1]
    linarith

theorem itemB (hmem : item ∈ s.items) (hmem' : item' ∈ s'.items)
    (hid : item'.id = item.id) (horder : item.orderType ≠ .close) :
    paidFor lib c.assetBName (fun i => i = item.id) plan.transfers + item'.heldB = item.heldB := by
  refine h.account_item hs hlib hdeployer c.assetBName heldB hmem hmem' hid ?_ ?_
  · intro a ha hdue hreason new hnew
    exact (refused_pays hlib hpair (hs.items a ha) hdue hreason hnew).2
  · intro r a r' a' new ha hkind hr houtcome
    have hitem := h.sound_items hs a ha
    have hsum := houtcome.sumB hitem hlib hpair hr.poolA hr.poolB
    rw [houtcome.poolB_of_ne_close (hkind ▸ horder)] at hsum
    rw [heldB, heldB, (houtcome.refused_eq hitem).2]
    linarith

end

theorem progress (hmem : item ∈ s.items) :
    ∃ item' ∈ s'.items, item'.id = item.id ∧ (item.due height → item'.finished = true) ∧
      (¬ item.due height → item' = item) := by
  obtain ⟨a, ha, hrel⟩ := exists_of_forall₂_left h.refused_items hmem
  obtain ⟨item', hitem', r, r', new, houtcome⟩ :=
    exists_of_forall₂_left (h.outcomes hs hlib hdeployer).2 ha
  refine ⟨item', hitem', ?_⟩
  rcases hrel with ⟨rfl, hvalid⟩ | ⟨hdue, hreason, rfl⟩
  · refine ⟨houtcome.id_eq, ?_⟩
    rcases houtcome.progress with ⟨hdue, hdone⟩ | ⟨rfl, hidle⟩
    · exact ⟨fun _ => hdone, fun hnot => absurd hdue hnot⟩
    · refine ⟨fun hdue => ?_, fun _ => rfl⟩
      -- an item that is due and stays would be a refused call, and those are settled before
      have hunused := hidle.resolve_left (not_not.mpr hdue)
      exact absurd ⟨hdue, (hs.items item' hmem).refused.mpr hunused⟩ hvalid
  · refine ⟨houtcome.id_eq, fun _ => ?_, fun hnot => absurd hdue hnot⟩
    rcases houtcome.progress with ⟨-, hdone⟩ | ⟨rfl, -⟩
    · exact hdone
    · rfl

omit hs hlib hdeployer in
theorem refunds_of_refused {t} (ht : t ∈ refunds.transfers) :
    ∃ item ∈ s.items, item.id = t.itemId ∧ item.due height ∧ item.reason = .invalid :=
  (applyInvalidItemsInRange_transfers h.invalid t ht).resolve_left not_mem_nil

theorem due_of_transfer :
    ∀ t ∈ plan.transfers, ∃ item ∈ s.items, item.id = t.itemId ∧ item.due height := by
  have hwalk : Running s'.running ∧ ∀ t ∈ plan.transfers,
      ∃ item ∈ s.items, item.id = t.itemId ∧ item.due height := by
    refine walk_invariant (s := (s.running, refunds)) (t := (s'.running, plan))
      (I := fun acc => Running acc.1 ∧
      ∀ t ∈ acc.2.transfers, ∃ item ∈ s.items, item.id = t.itemId ∧ item.due height) items ?_
      ⟨running_of_sound hs, ?_⟩ h.settled
    · intro acc a acc' a' hmem hacc hrun
      obtain ⟨hacc', new, hnew, houtcome⟩ :=
        step_outcome hlib hdeployer (h.sound_items hs a hmem) hacc.1 hrun
      refine ⟨hacc', fun t ht => ?_⟩
      rw [hnew] at ht
      rcases mem_append.mp ht with ht | ht
      · exact hacc.2 t ht
      · obtain ⟨b, hb, hrel⟩ := exists_of_forall₂_right h.refused_items hmem
        have hdue := houtcome.due_of_mem ht
        rcases hrel with ⟨rfl, -⟩ | ⟨-, -, rfl⟩
        · exact ⟨a, hb, (houtcome.own t ht).symm, hdue⟩
        · exact absurd hdue.1 (by simp [finished])
    · intro t ht
      obtain ⟨item, hmem, hid, hdue, -⟩ := h.refunds_of_refused ht
      exact ⟨item, hmem, hid, hdue⟩
  exact hwalk.2

variable {after before l l' : List InvokeItem}

omit h hs in
theorem closed_of_walk (hl : ∀ a ∈ l, ExchangeItem deployer a) (hacc : Running acc.1)
    (hclose : acc.1.closed = true ∨ ∃ a ∈ l, a.due height ∧ a.orderType = .close)
    (h : walk (settleExchangeStep lib c params deployer assetPrecision height) acc l =
      .ok (acc', l')) : acc'.1.closed = true := by
  induction l generalizing acc l' with
  | nil =>
    obtain ⟨rfl, -⟩ := Prod.mk.inj (walk_nil_eq_ok.mp h)
    exact hclose.resolve_right (by simp)
  | cons a l ih =>
    obtain ⟨mid, a', hstep, t, rest, hrest, heq⟩ := walk_cons_eq_ok.mp h
    cases heq
    obtain ⟨hitem, hl⟩ := forall_mem_cons.mp hl
    obtain ⟨hmid, new, -, houtcome⟩ := step_outcome hlib hdeployer hitem hacc hstep
    refine ih hl hmid ?_ hrest
    rcases hclose with hclosed | ⟨b, hb, hdue, horder⟩
    · exact Or.inl (houtcome.closed_mono hclosed)
    · rcases mem_cons.mp hb with rfl | hb
      · exact Or.inl (houtcome.closed_of_close hdue horder)
      · exact Or.inr ⟨b, hb, hdue, horder⟩

omit hlib hdeployer in
theorem close_kept (hmem : item ∈ s.items) (horder : item.orderType ≠ .unused) : item ∈ items := by
  obtain ⟨a, ha, ⟨rfl, -⟩ | ⟨-, hreason, -⟩⟩ := exists_of_forall₂_left h.refused_items hmem
  · exact ha
  · exact absurd ((hs.items item hmem).refused.mp hreason) horder

theorem closes (hmem : item ∈ s.items) (hdue : item.due height)
    (horder : item.orderType = .close) : s'.running.closed = true :=
  closed_of_walk hlib hdeployer (h.sound_items hs) (running_of_sound hs)
    (Or.inr ⟨item, h.close_kept hs hmem (by simp [horder]), hdue, horder⟩) h.settled

omit h hs in
theorem transfers_of_others {i : ℤ} {P : SettlementTransfer → Prop}
    (hl : ∀ a ∈ l, ExchangeItem deployer a) (hother : ∀ a ∈ l, a.id ≠ i) (hacc : Running acc.1)
    (hP : ∀ t ∈ acc.2.transfers, t.itemId = i → P t)
    (h : walk (settleExchangeStep lib c params deployer assetPrecision height) acc l =
      .ok (acc', l')) : Running acc'.1 ∧ ∀ t ∈ acc'.2.transfers, t.itemId = i → P t := by
  refine walk_invariant (I := fun acc => Running acc.1 ∧
    ∀ t ∈ acc.2.transfers, t.itemId = i → P t) l ?_ ⟨hacc, hP⟩ h
  intro acc a acc' a' hmem hacc hrun
  obtain ⟨hacc', new, hnew, houtcome⟩ := step_outcome hlib hdeployer (hl a hmem) hacc.1 hrun
  refine ⟨hacc', fun t ht hid => ?_⟩
  rw [hnew] at ht
  rcases mem_append.mp ht with ht | ht
  · exact hacc.2 t ht hid
  · exact absurd ((houtcome.own t ht).symm.trans hid) (hother a hmem)

omit hlib hdeployer in
theorem split_items (hitems : s.items = before ++ item :: after)
    (horder : item.orderType ≠ .unused) : ∃ before' after', items = before' ++ item :: after' ∧
      ∀ a ∈ before, a.orderType ≠ .unused → a ∈ before' := by
  have hkept : ∀ a ∈ s.items, a.orderType ≠ .unused → a.reason ≠ .invalid :=
    fun a ha hkind hreason => hkind ((hs.items a ha).refused.mp hreason)
  have hpass := h.refused_items.flip
  rw [hitems] at hpass hkept
  have hbefore := forall₂_take_append items before (item :: after) hpass
  have hrest := forall₂_drop_append items before (item :: after) hpass
  obtain ⟨item', after', hitem', -, hdrop⟩ := forall₂_cons_right_iff.mp hrest
  have hsame : item' = item := by
    rcases hitem' with ⟨heq, -⟩ | ⟨-, hreason, -⟩
    · exact heq
    · exact absurd hreason (hkept item (mem_append_right _ mem_cons_self) horder)
  refine ⟨items.take before.length, after', ?_, fun a ha hkind => ?_⟩
  · rw [← hsame, ← hdrop, take_append_drop]
  · obtain ⟨a', ha', ⟨rfl, -⟩ | ⟨-, hreason, -⟩⟩ := exists_of_forall₂_right hbefore ha
    · exact ha'
    · exact absurd hreason (hkept a (mem_append_left _ ha) hkind)

theorem refunded_of_closed (hitems : s.items = before ++ item :: after)
    (horder : item.orderType = .exchange)
    (hclose : s.running.closed = true ∨ ∃ a ∈ before, a.due height ∧ a.orderType = .close) :
    ∀ t ∈ plan.transfers, t.itemId = item.id →
      t.recipient = item.address ∧ t.assetName = c.assetBName ∧ t.reason = .refund := by
  obtain ⟨before', after', rfl, hkept⟩ := h.split_items hs hitems (by simp [horder])
  have hsound := h.sound_items hs
  have hmem : item ∈ s.items := hitems ▸ mem_append_right _ mem_cons_self
  have hids : ((before' ++ item :: after').map (·.id)).Nodup := h.refused_ids ▸ hs.ids
  rw [map_append, map_cons] at hids
  obtain ⟨-, hids, hbeforeIds⟩ := nodup_append.mp hids
  have hbeforeOther : ∀ a ∈ before', a.id ≠ item.id := fun a ha =>
    hbeforeIds a.id (mem_map_of_mem ha) item.id mem_cons_self
  have hafterOther : ∀ a ∈ after', a.id ≠ item.id := fun a ha heq =>
    (nodup_cons.mp hids).1 (heq ▸ mem_map_of_mem ha)
  have hfirst : ∀ t ∈ refunds.transfers, t.itemId = item.id →
      t.recipient = item.address ∧ t.assetName = c.assetBName ∧ t.reason = .refund := by
    intro t ht hid
    obtain ⟨a, ha, haid, -, hreason⟩ := h.refunds_of_refused ht
    have heq : a = item := inj_on_of_nodup_map hs.ids ha hmem (haid.trans hid)
    have hunused := (hs.items item hmem).refused.mp (heq ▸ hreason)
    exact absurd (horder.symm.trans hunused) nofun
  obtain ⟨mid, before'', hbefore, acc', rest, hrest, heq⟩ := walk_append_eq_ok.mp h.settled
  obtain ⟨mid', item', hstep, last, rest', hafter, heq'⟩ := walk_cons_eq_ok.mp hrest
  obtain ⟨rfl, -⟩ := Prod.mk.inj heq
  obtain ⟨rfl, -⟩ := Prod.mk.inj heq'
  have hbeforeSound : ∀ a ∈ before', ExchangeItem deployer a := fun a ha =>
    hsound a (mem_append_left _ ha)
  obtain ⟨hmid, hmidP⟩ := transfers_of_others hlib hdeployer hbeforeSound hbeforeOther
    (running_of_sound hs) hfirst hbefore
  have hclosed : mid.1.closed = true := by
    refine closed_of_walk hlib hdeployer hbeforeSound (running_of_sound hs) ?_ hbefore
    refine hclose.imp_right ?_
    rintro ⟨a, ha, hdue, hkind⟩
    exact ⟨a, hkept a ha (by simp [hkind]), hdue, hkind⟩
  obtain ⟨hmid', new, hnew, houtcome⟩ := step_outcome hlib hdeployer
    (hsound item (mem_append_right _ mem_cons_self)) hmid hstep
  refine (transfers_of_others hlib hdeployer
    (fun a ha => hsound a (mem_append_right _ (mem_cons_of_mem _ ha))) hafterOther hmid'
    ?_ hafter).2
  intro t ht hid
  rw [hnew] at ht
  rcases mem_append.mp ht with ht | ht
  · exact hmidP t ht hid
  · exact houtcome.refund_of_closed hclosed horder ht

end ExchangePasses

end Settle

end SatoshiNet.Template
