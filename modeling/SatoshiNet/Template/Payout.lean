import SatoshiNet.Lib.Total
import SatoshiNet.Template.Invoke

/-!
What the transfers of a plan pay, in all and for each item, and the account of a pass that settles
one item after the other.
-/

namespace SatoshiNet.Template

open Lib Wire Contract List

section Paid

variable (lib : DecimalLib) (name : Text)

def SettlementTransfer.pays (t : SettlementTransfer) : ℚ :=
  (if t.assetName = name then textAmount lib t.assetAmt else 0) +
    if name = satoshiAssetName then (t.satValue : ℚ) else 0

def paid (ts : List SettlementTransfer) : ℚ := (ts.map (·.pays lib name)).sum

def paidFor (p : ℤ → Bool) (ts : List SettlementTransfer) : ℚ :=
  (ts.map fun t => if p t.itemId then t.pays lib name else 0).sum

variable {lib name}

@[simp] theorem paid_nil : paid lib name [] = 0 := rfl

@[simp] theorem paid_singleton (t) : paid lib name [t] = t.pays lib name := by
  rw [paid, map_singleton, sum_singleton]

@[simp] theorem paid_append (ts us) :
    paid lib name (ts ++ us) = paid lib name ts + paid lib name us := by
  rw [paid, map_append, sum_append]
  rfl

@[simp] theorem paidFor_append (p) (ts us) :
    paidFor lib name p (ts ++ us) = paidFor lib name p ts + paidFor lib name p us := by
  rw [paidFor, map_append, sum_append]
  rfl

theorem paidFor_all (ts) : paidFor lib name (fun _ => true) ts = paid lib name ts := by
  simp [paidFor, paid]

theorem paidFor_of_itemId {p} {id : ℤ} {ts} (h : ∀ t ∈ ts, t.itemId = id) :
    paidFor lib name p ts = if p id then paid lib name ts else 0 := by
  induction ts with
  | nil => simp [paidFor]
  | cons t ts ih =>
    obtain ⟨ht, hts⟩ := forall_mem_cons.mp h
    rw [← singleton_append, paidFor_append, paid_append, ih hts]
    by_cases hp : p id <;> simp [paidFor, paid, ht, hp]

variable (lib name) in
theorem walk_pays {S : Type} {f : S → InvokeItem → TemplateM (S × InvokeItem)}
    {I : S → Prop} (plan : S → SettlementPlan) (pool : S → ℚ) (w : InvokeItem → ℚ) (p : ℤ → Bool)
    (l : List InvokeItem)
    (hstep : ∀ s a s' a', a ∈ l → I s → f s a = .ok (s', a') → I s' ∧ a'.id = a.id ∧
      ∃ new, (plan s').transfers = (plan s).transfers ++ new ∧ (∀ t ∈ new, t.itemId = a.id) ∧
        pool s' + (if p a.id then paid lib name new + w a' else 0) =
          pool s + if p a.id then w a else 0)
    {s t : S} {l' : List InvokeItem} (hs : I s) (h : walk f s l = .ok (t, l')) :
    pool t + paidFor lib name p (plan t).transfers +
        (l'.map fun a => if p a.id then w a else 0).sum =
      pool s + paidFor lib name p (plan s).transfers +
        (l.map fun a => if p a.id then w a else 0).sum := by
  refine walk_measure (m := fun s => pool s + paidFor lib name p (plan s).transfers) l ?_ hs h
  intro s a s' a' hmem hI hrun
  obtain ⟨hI', hid, new, htransfers, hown, hbalance⟩ := hstep s a s' a' hmem hI hrun
  refine ⟨hI', ?_⟩
  rw [htransfers, paidFor_append, paidFor_of_itemId hown, hid]
  by_cases hp : p a.id <;> simp only [hp, if_true, if_false, Bool.false_eq_true] at hbalance ⊢ <;>
    linarith

end Paid

/-! ### Refused calls -/

def InvokeItem.refusedA (item : InvokeItem) : ℚ :=
  if item.finished = false ∧ item.reason = .invalid then amountOf item.retainedAssetA else 0

def InvokeItem.refusedB (item : InvokeItem) : ℚ :=
  if item.finished = false ∧ item.reason = .invalid then amountOf item.retainedAssetB else 0

section Refused

variable {lib : DecimalLib} {assetA assetB : Text} {item item' : InvokeItem}
  {plan plan' : SettlementPlan} {first : Option ℤ} {height : ℤ}

def InvokeItem.due (item : InvokeItem) (height : ℤ) : Prop :=
  item.finished = false ∧ item.height ≤ height

theorem applyInvalidItem_cases
    (h : applyInvalidItem lib assetA assetB first height plan item = .ok (plan', item')) :
    (plan' = plan ∧ item' = item ∧
      (item.due height → item.reason = .invalid → first.any (item.height < ·) = true)) ∨
    (item.due height ∧ item.reason = .invalid ∧ item' = { item with done := .refunded } ∧
      ∃ new, invalidRefundTransfers lib assetA assetB item = .ok new ∧
        plan'.transfers = plan.transfers ++ new) := by
  rw [applyInvalidItem] at h
  split_ifs at h with hskip
  · cases h
    refine Or.inl ⟨rfl, rfl, fun hdue hreason => ?_⟩
    simpa [hdue.1, hreason, not_lt.mpr hdue.2] using hskip
  · obtain ⟨new, hnew, h⟩ := bind_eq_ok.mp h
    cases h
    simp only [Bool.or_eq_true, decide_eq_true_eq, not_or, not_lt, Bool.not_eq_true, ne_eq,
      not_not] at hskip
    exact Or.inr ⟨⟨hskip.1.1.1, hskip.2⟩, hskip.1.1.2, rfl, new, hnew, by simp⟩

variable {new : List SettlementTransfer}

theorem itemId_invalidRefundTransfers
    (h : invalidRefundTransfers lib assetA assetB item = .ok new) :
    ∀ t ∈ new, t.itemId = item.id := by
  obtain ⟨refundB, hB, h⟩ := bind_eq_ok.mp h
  cases h
  intro t ht
  rcases mem_append.mp ht with ht | ht
  · rw [invalidRefundA] at ht
    split at ht
    · cases ht
    · split_ifs at ht
      · rw [mem_singleton.mp ht]
      · cases ht
  · rw [invalidRefundB] at hB
    split at hB
    · cases hB
      cases ht
    split_ifs at hB
    · obtain ⟨value, -, hB⟩ := bind_eq_ok.mp hB
      cases hB
      rw [mem_singleton.mp ht]
    · cases hB
      rw [mem_singleton.mp ht]
    · cases hB
      cases ht
    · cases hB
      cases ht

variable {d : Decimal} {items items' : List InvokeItem}

section

variable (h : applyInvalidItemsInRange lib assetA assetB first height plan items = .ok (plan', items'))
include h

theorem applyInvalidItemsInRange_items : List.Forall₂ (fun a a' =>
      (a' = a ∧ (a.due height → a.reason = .invalid → first.any (a.height < ·) = true)) ∨
      (a.due height ∧ a.reason = .invalid ∧ a' = { a with done := .refunded })) items items' := by
  refine (walk_forall₂ (I := fun _ => True) items ?_ trivial h).2
  intro s a s' a' _ _ hrun
  refine ⟨trivial, ?_⟩
  rcases applyInvalidItem_cases hrun with ⟨-, heq, hskip⟩ | ⟨hdue, hreason, heq, -⟩
  · exact Or.inl ⟨heq, hskip⟩
  · exact Or.inr ⟨hdue, hreason, heq⟩

theorem applyInvalidItemsInRange_transfers : ∀ t ∈ plan'.transfers, t ∈ plan.transfers ∨
      ∃ a ∈ items, a.id = t.itemId ∧ a.due height ∧ a.reason = .invalid := by
  refine walk_invariant (I := fun q : SettlementPlan => ∀ t ∈ q.transfers, t ∈ plan.transfers ∨
    ∃ a ∈ items, a.id = t.itemId ∧ a.due height ∧ a.reason = .invalid) items ?_
    (fun t ht => Or.inl ht) h
  intro q a q' a' hmem hq hrun t ht
  rcases applyInvalidItem_cases hrun with ⟨rfl, -, -⟩ | ⟨hdue, hreason, -, new, hnew, htransfers⟩
  · exact hq t ht
  · rw [htransfers] at ht
    rcases mem_append.mp ht with ht | ht
    · exact hq t ht
    · exact Or.inr ⟨a, hmem, (itemId_invalidRefundTransfers hnew t ht).symm, hdue, hreason⟩

theorem applyInvalidItemsInRange_pays {name : Text} {w : InvokeItem → ℚ} (p : ℤ → Bool)
    (hw : ∀ a ∈ items, a.due height → a.reason = .invalid → ∀ new,
      invalidRefundTransfers lib assetA assetB a = .ok new →
        paid lib name new + w { a with done := .refunded } = w a) :
    paidFor lib name p plan'.transfers + (items'.map fun a => if p a.id then w a else 0).sum =
      paidFor lib name p plan.transfers + (items.map fun a => if p a.id then w a else 0).sum := by
  have hpays := walk_pays lib name (I := fun _ => True) id (fun _ => 0) w p items ?_ trivial h
  · simpa only [zero_add, id] using hpays
  intro s a s' a' hmem _ hrun
  refine ⟨trivial, ?_⟩
  rcases applyInvalidItem_cases hrun with ⟨rfl, rfl, -⟩ | ⟨hdue, hreason, rfl, new, hnew, htransfers⟩
  · exact ⟨rfl, [], (append_nil _).symm, nofun, by simp⟩
  · exact ⟨rfl, new, htransfers, itemId_invalidRefundTransfers hnew,
      by rw [hw a hmem hdue hreason new hnew]⟩

end

variable (hlib : lib.Lawful)
include hlib

theorem toRat_decimalInt64 {v : ℤ} (h : decimalInt64 lib (some d) = .ok v) : (v : ℚ) = d.toRat := by
  obtain ⟨out, -, h⟩ := bind_eq_ok.mp h
  obtain ⟨_, hcmp, h⟩ := bind_eq_ok.mp h
  obtain rfl := Except.ok.inj h
  have heq : lib.cmp d (newDefaultDecimal out) = .eq := by simpa [require_eq_ok] using hcmp
  rw [hlib.cmp, compare_eq_iff_eq, toRat_newDefaultDecimal] at heq
  exact heq.symm

theorem textAmount_toText (h : 0 < d.sign) : textAmount lib (lib.toText d) = d.toRat := by
  obtain ⟨e, hparse, heq⟩ := hlib.parseAmount_toText (Decimal.sign_pos_iff.mp h).le
  rw [textAmount, if_neg (hlib.toText_ne_nil d), hparse, amountOf_some, heq]

omit hlib in
theorem toRat_eq_zero_of_not_pos (h : 0 ≤ d.toRat) (hpos : ¬ 0 < d.sign) : d.toRat = 0 :=
  le_antisymm (Decimal.sign_nonpos_iff.mp (not_lt.mp hpos)) h

structure AssetPair (assetA assetB : Text) : Prop where
  assetA_ne : assetA ≠ []
  assetB_ne : assetB ≠ []
  assetA_sats : assetA ≠ satoshiAssetName
  differ : assetA ≠ assetB

theorem paid_invalidRefundTransfers (hpair : AssetPair assetA assetB)
    (hA : 0 ≤ amountOf item.retainedAssetA) (hB : 0 ≤ amountOf item.retainedAssetB)
    (h : invalidRefundTransfers lib assetA assetB item = .ok new) :
    paid lib assetA new = amountOf item.retainedAssetA ∧
      paid lib assetB new = amountOf item.retainedAssetB := by
  obtain ⟨refundB, hrefund, h⟩ := bind_eq_ok.mp h
  cases h
  have hpaidA : paid lib assetA (invalidRefundA lib assetA item) = amountOf item.retainedAssetA ∧
      paid lib assetB (invalidRefundA lib assetA item) = 0 := by
    rw [invalidRefundA]
    split
    · rename_i hnone
      rw [hnone]
      exact ⟨rfl, rfl⟩
    rename_i amount hsome
    rw [hsome] at hA ⊢
    split_ifs with hpos
    · simp [SettlementTransfer.pays, hpair.assetA_sats, hpair.differ, textAmount_toText hlib hpos.1]
    · have hzero : amount.toRat = 0 :=
        toRat_eq_zero_of_not_pos hA fun hsign => hpos ⟨hsign, hpair.assetA_ne⟩
      exact ⟨hzero.symm, rfl⟩
  have hpaidB : paid lib assetA refundB = 0 ∧
      paid lib assetB refundB = amountOf item.retainedAssetB := by
    rw [invalidRefundB] at hrefund
    split at hrefund
    · rename_i hnone
      cases hrefund
      rw [hnone]
      exact ⟨rfl, rfl⟩
    rename_i amount hsome
    rw [hsome] at hB ⊢
    simp only [if_pos hpair.differ.symm] at hrefund
    split_ifs at hrefund with hpos hsats
    · obtain ⟨value, hvalue, hrefund⟩ := bind_eq_ok.mp hrefund
      cases hrefund
      simp [SettlementTransfer.pays, hsats, hpair.assetA_sats, hpair.assetA_ne.symm,
        toRat_decimalInt64 hlib hvalue, show ([] : Text) ≠ satoshiAssetName by decide]
    · cases hrefund
      simp [SettlementTransfer.pays, hsats, hpair.assetA_sats, hpair.differ.symm,
        textAmount_toText hlib hpos.1]
    · cases hrefund
      have hzero : amount.toRat = 0 :=
        toRat_eq_zero_of_not_pos hB fun hsign => hpos ⟨hsign, hpair.assetB_ne⟩
      exact ⟨rfl, hzero.symm⟩
  exact ⟨by rw [paid_append, hpaidA.1, hpaidB.1, add_zero],
    by rw [paid_append, hpaidA.2, hpaidB.2, zero_add]⟩

end Refused

end SatoshiNet.Template
