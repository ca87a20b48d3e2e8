import SatoshiNet.Lib.Run
import SatoshiNet.Template.Autopay

/-!
The books of an autopay contract: what was deposited for a delegate is its balance, what it paid
and what it got back, and no block charges a delegate twice.
-/

namespace SatoshiNet.Template

open Lib Wire Contract List
open Std (ExtTreeMap)

/-! ### Readings of the history -/

def SettlementTransfer.amount (lib : DecimalLib) (t : SettlementTransfer) : ℚ :=
  t.satValue + textAmount lib t.assetAmt

def LedgerEvent.deposit (address : Text) : LedgerEvent → ℚ
  | .deposited a d => if a = address then d.toRat else 0
  | _ => 0

def LedgerEvent.charge (address : Text) : LedgerEvent → ℚ
  | .charged _ a d => if a = address then d.toRat else 0
  | _ => 0

def LedgerEvent.refund (lib : DecimalLib) (address : Text) : LedgerEvent → ℚ
  | .refunded a t => if a = address then t.amount lib else 0
  | _ => 0

def LedgerEvent.mark : LedgerEvent → Option (ℤ × Text)
  | .charged height a _ => some (height, a)
  | _ => none

namespace AutopayRunningData

variable (lib : DecimalLib) (r : AutopayRunningData) (address : Text)

def balanceOf : ℚ := amountOf (r.autopayDelegates[address]?.bind (·.balance))

def paidOf : ℚ := amountOf (r.autopayDelegates[address]?.bind (·.totalPaid))

def deposits : ℚ := (r.history.map (LedgerEvent.deposit address)).sum

def charges : ℚ := (r.history.map (LedgerEvent.charge address)).sum

def refunds : ℚ := (r.history.map (LedgerEvent.refund lib address)).sum

def marks : List (ℤ × Text) := r.history.filterMap LedgerEvent.mark

def held : ℚ := tableTotal (fun d : AutopayDelegate => amountOf d.balance) r.autopayDelegates

end AutopayRunningData

open AutopayRunningData

structure Books (lib : DecimalLib) (r : AutopayRunningData) : Prop where
  gas : 0 ≤ amountOf r.gasBalance
  balance : ∀ a, 0 ≤ r.balanceOf a
  nameless : r.balanceOf [] = 0
  account : ∀ a, r.deposits a = r.balanceOf a + r.paidOf a + r.refunds lib a
  paid : ∀ a, r.paidOf a = r.charges a
  once : r.marks.Nodup

def Dated (r : AutopayRunningData) : Prop :=
  0 ≤ r.nextPayHeight ∧ ∀ mark ∈ r.marks, mark.1 < r.nextPayHeight

structure Settled (r : AutopayRunningData) : Prop where
  fee : amountOf r.feeBalance = r.held
  dated : Dated r

section Entries

variable (r : AutopayRunningData) (b : Text) (d : AutopayDelegate) (e : LedgerEvent) (a : Text)

theorem lookup_setDelegate : (r.setDelegate b d).autopayDelegates[a]? =
    if b = a then some d else r.autopayDelegates[a]? := by
  rw [setDelegate, ExtTreeMap.getElem?_insert]
  simp

theorem balanceOf_setDelegate :
    (r.setDelegate b d).balanceOf a = if b = a then amountOf d.balance else r.balanceOf a := by
  rw [balanceOf, lookup_setDelegate]
  split <;> rfl

theorem paidOf_setDelegate :
    (r.setDelegate b d).paidOf a = if b = a then amountOf d.totalPaid else r.paidOf a := by
  rw [paidOf, lookup_setDelegate]
  split <;> rfl

theorem held_setDelegate :
    (r.setDelegate b d).held = r.held + (amountOf d.balance - r.balanceOf b) := by
  rw [held, setDelegate, tableTotal_insert, held, balanceOf]
  cases r.autopayDelegates[b]? <;> rfl

theorem deposits_record : (r.record e).deposits a = r.deposits a + e.deposit a := by
  simp [deposits, record]

theorem refunds_record (lib) (a) :
    (r.record e).refunds lib a = r.refunds lib a + e.refund lib a := by
  simp [refunds, record]

theorem charges_record : (r.record e).charges a = r.charges a + e.charge a := by
  simp [charges, record]

theorem marks_record : (r.record e).marks = r.marks ++ e.mark.toList := by
  rw [marks, record, filterMap_append, marks]
  cases h : e.mark <;> simp [h]

theorem amountOf_balance_getD :
    amountOf (r.autopayDelegates[b]?.getD {}).balance = r.balanceOf b := by
  rw [balanceOf]
  cases r.autopayDelegates[b]? <;> rfl

theorem amountOf_paid_getD : amountOf (r.autopayDelegates[b]?.getD {}).totalPaid = r.paidOf b := by
  rw [paidOf]
  cases r.autopayDelegates[b]? <;> rfl

end Entries

variable {lib : DecimalLib} {r : AutopayRunningData}

theorem Books.congr {r'} (h : Books lib r) (hgas : 0 ≤ amountOf r'.gasBalance)
    (hd : r'.autopayDelegates = r.autopayDelegates) (hh : r'.history = r.history) :
    Books lib r' := by
  cases r
  cases r'
  cases hd
  cases hh
  exact ⟨hgas, h.balance, h.nameless, h.account, h.paid, h.once⟩

variable {b : Text} {d : AutopayDelegate}

theorem Books.write (h : Books lib r) (e) (hbalance : 0 ≤ amountOf d.balance)
    (hname : b = [] → amountOf d.balance = 0)
    (haccount : ∀ a, e.deposit a = (if b = a then (amountOf d.balance - r.balanceOf b) + (amountOf
      d.totalPaid - r.paidOf b) else 0) + e.refund lib a)
    (hpaid : ∀ a, e.charge a = if b = a then amountOf d.totalPaid - r.paidOf b else 0)
    (honce : ∀ mark, e.mark = some mark → mark ∉ r.marks) :
    Books lib ((r.setDelegate b d).record e) := by
  have hB : ∀ a, ((r.setDelegate b d).record e).balanceOf a =
      if b = a then amountOf d.balance else r.balanceOf a := balanceOf_setDelegate r b d
  have hP : ∀ a, ((r.setDelegate b d).record e).paidOf a =
      if b = a then amountOf d.totalPaid else r.paidOf a := paidOf_setDelegate r b d
  refine ⟨h.gas, fun a => ?_, ?_, fun a => ?_, fun a => ?_, ?_⟩
  · rw [hB]
    split_ifs
    · exact hbalance
    · exact h.balance a
  · rw [hB]
    split_ifs with heq
    · exact hname heq
    · exact h.nameless
  · have hold : (r.setDelegate b d).deposits a = _ := h.account a
    have href : (r.setDelegate b d).refunds lib a = r.refunds lib a := rfl
    rw [deposits_record, refunds_record, hB, hP, hold, href, haccount]
    split_ifs with heq
    · subst heq
      ring
    · ring
  · have hold : _ = (r.setDelegate b d).charges a := h.paid a
    rw [charges_record, hP, ← hold, hpaid]
    split_ifs with heq
    · subst heq
      ring
    · ring
  · rw [marks_record]
    change (r.marks ++ e.mark.toList).Nodup
    cases hmark : e.mark with
    | none => simpa using h.once
    | some mark =>
      rw [Option.toList_some, ← concat_eq_append]
      exact h.once.concat (honce mark hmark)

theorem Books.rewrite (h : Books lib r) (hbalance : amountOf d.balance = r.balanceOf b)
    (hpaid : amountOf d.totalPaid = r.paidOf b) : Books lib (r.setDelegate b d) := by
  have hsameB : (r.setDelegate b d).balanceOf = r.balanceOf := funext fun a =>
    (balanceOf_setDelegate r b d a).trans (ite_eq_right_iff.mpr fun heq => heq ▸ hbalance)
  have hsameP : (r.setDelegate b d).paidOf = r.paidOf := funext fun a =>
    (paidOf_setDelegate r b d a).trans (ite_eq_right_iff.mpr fun heq => heq ▸ hpaid)
  refine ⟨h.gas, ?_, ?_, ?_, ?_, h.once⟩
  · rw [hsameB]; exact h.balance
  · rw [hsameB]; exact h.nameless
  · rw [hsameB, hsameP]; exact h.account
  · rw [hsameP]; exact h.paid

/-! ### Amounts of transfers -/

/-- A deployed contract charges a positive minimum of a named asset. -/
structure AutopayContract.Checked (lib : DecimalLib) (c : AutopayContract) : Prop where
  minAmount : ∃ d, parsePositiveDecimal lib c.minAmountPerBlock = some d
  feeAssetName : c.feeAssetName ≠ []

section Laws

variable {lib : DecimalLib} (hlib : lib.Lawful) {c : AutopayContract}
include hlib

theorem AutopayContract.Checked.minAmount_pos (hc : c.Checked lib) : 0 < (c.minAmount lib).toRat := by
  obtain ⟨d, hd⟩ := hc.minAmount
  rw [parsePositiveDecimal] at hd
  split_ifs at hd with hne
  · obtain ⟨hparse, hpos⟩ := Option.filter_eq_some_iff.mp hd
    have hmin : c.minAmount lib = d := by
      rw [AutopayContract.minAmount, parseDecimalOrZero, if_neg (fun h => hne (Or.inl h)), hparse,
        Option.getD_some]
    have hgt : lib.cmp d (newDefaultDecimal 0) = .gt := by simpa using hpos
    have hlt := (cmp_eq_gt hlib).mp hgt
    rw [toRat_newDefaultDecimal, Int.cast_zero] at hlt
    rw [hmin]
    exact hlt

variable {amount : Decimal} {r : AutopayRunningData}

theorem cast_autopaySatoshiValue {v : ℤ} (h : autopaySatoshiValue lib amount = .ok v) :
    (v : ℚ) = amount.toRat := by
  simp only [autopaySatoshiValue, bind_eq_ok, require_eq_ok, mapError_eq_ok, decimalToInt64,
    decide_eq_true_eq] at h
  obtain ⟨-, -, -, hcmp, -, -, -, hprecision, -, -, hv⟩ := h
  rw [hlib.cmp, compare_eq_iff_eq] at hcmp
  rw [← hcmp, ← Except.ok.inj hv, Decimal.toRat, hprecision, zpow_zero, div_one]

variable {assetName recipient : Text}

theorem amount_autopayTransfer {t} (hpos : 0 ≤ amount.value)
    (h : autopayTransfer lib recipient assetName amount = .ok t) : t.amount lib = amount.toRat := by
  rw [autopayTransfer] at h
  split at h
  · obtain ⟨v, hv, ht⟩ := bind_eq_ok.mp h
    cases ht
    rw [SettlementTransfer.amount, textAmount, if_pos rfl, add_zero, cast_autopaySatoshiValue hlib hv]
  · cases h
    rw [SettlementTransfer.amount, textAmount_decimalString hlib hpos, Int.cast_zero, zero_add]

omit hlib in
theorem balanceTransfer_eq_ok {t} (h : balanceTransfer lib recipient assetName amount = .ok t) :
    (t = none ∧ (recipient = [] ∨ assetName = [] ∨ amount.sign ≤ 0)) ∨
      (0 < amount.value ∧ ∃ u, t = some u ∧ autopayTransfer lib recipient assetName amount = .ok u) := by
  rw [balanceTransfer] at h
  split_ifs at h with hnone
  · exact Or.inl ⟨(Except.ok.inj h).symm, hnone⟩
  · obtain ⟨u, hu, rfl⟩ := map_eq_ok.mp h
    have hsign : 0 < amount.sign := lt_of_not_ge fun hle => hnone (Or.inr (Or.inr hle))
    exact Or.inr ⟨Decimal.sign_pos_iff.mp hsign, u, rfl, hu⟩

/-! ### The operations on the books -/

theorem toRat_totalDelegateBalance (r) : (totalDelegateBalance lib r).toRat = r.held := by
  have hfold : ∀ (l : List (Text × AutopayDelegate)) (z : Decimal), (l.foldl (fun total entry =>
        lib.addAlignPrecision total (decimalOrZero lib entry.2.balance)) z).toRat =
      z.toRat + (l.map fun entry => amountOf entry.2.balance).sum := by
    intro l
    induction l with
    | nil => intro z; exact (add_zero _).symm
    | cons entry l ih =>
      intro z
      rw [foldl_cons, ih, hlib.add, toRat_decimalOrZero hlib, map_cons, sum_cons, add_assoc]
  rw [totalDelegateBalance, hfold, toRat_zeroDecimal hlib, zero_add]
  rfl

theorem fee_syncFeeBalance (r) :
    amountOf (syncFeeBalance lib r).feeBalance = (syncFeeBalance lib r).held :=
  toRat_totalDelegateBalance hlib r

theorem Settled.sync (h : Dated r) : Settled (syncFeeBalance lib r) :=
  ⟨fee_syncFeeBalance hlib r, h⟩

theorem Books.addGas (h : Books lib r) {gas} (hgas : 0 ≤ amountOf gas) :
    Books lib (addGasBalance lib r gas) := by
  refine h.congr ?_ rfl rfl
  rw [addGasBalance, amountOf_decimalAddAllowNil hlib]
  exact add_nonneg h.gas hgas

omit hlib in
theorem Settled.addGas (h : Settled r) (gas) : Settled (addGasBalance lib r gas) := ⟨h.fee, h.dated⟩

omit hlib in
theorem balance_ensureDelegate (lib) (c r) (a) :
    amountOf (ensureDelegate lib c r a).balance = r.balanceOf a := amountOf_balance_getD r a

omit hlib in
theorem paid_ensureDelegate (lib) (c r) (a) :
    amountOf (ensureDelegate lib c r a).totalPaid = r.paidOf a := amountOf_paid_getD r a

omit hlib in
theorem Books.setConfig (h : Books lib r) (a) (amount) (limit : ℕ) :
    Books lib (setDelegateConfig lib c r a amount limit) := by
  cases amount with
  | none => exact h
  | some amount =>
    rw [setDelegateConfig]
    split
    · exact h
    · exact h.rewrite (balance_ensureDelegate lib c r a) (paid_ensureDelegate lib c r a)

omit hlib in
theorem Settled.setConfig (h : Settled r) (a) (amount) (limit : ℕ) :
    Settled (setDelegateConfig lib c r a amount limit) := by
  cases amount with
  | none => exact h
  | some amount =>
    rw [setDelegateConfig]
    split
    · exact h
    · refine ⟨?_, h.dated⟩
      rw [held_setDelegate, withStatus, balance_ensureDelegate, sub_self, add_zero]
      exact h.fee

theorem Books.deposit (h : Books lib r) (a) (amount) :
    Books lib (addDelegateBalance lib c r a amount) := by
  cases amount with
  | none => exact h
  | some amount =>
    rw [addDelegateBalance]
    split_ifs with hguard
    · exact h
    have hname : a ≠ [] := fun hnil => hguard (Or.inl hnil)
    have hpos : 0 ≤ amount.toRat := Decimal.toRat_nonneg
      (Decimal.sign_pos_iff.mp (lt_of_not_ge fun hle => hguard (Or.inr hle))).le
    have hnew : amountOf (decimalAddAllowNil lib (ensureDelegate lib c r a).balance (some amount)) =
        r.balanceOf a + amount.toRat := by
      rw [amountOf_decimalAddAllowNil hlib, balance_ensureDelegate, amountOf_some]
    have hwrite : Books lib ((r.setDelegate a (withStatus lib { ensureDelegate lib c r a with
        balance := decimalAddAllowNil lib (ensureDelegate lib c r a).balance
          (some amount) })).record (.deposited a amount)) := by
      refine h.write _ ?_ (fun hnil => absurd hnil hname) (fun b => ?_) (fun b => ?_) ?_
      · rw [withStatus, hnew]
        exact add_nonneg (h.balance a) hpos
      · simp only [withStatus, hnew, paid_ensureDelegate, LedgerEvent.deposit, LedgerEvent.refund]
        split <;> ring
      · simp [withStatus, paid_ensureDelegate, LedgerEvent.charge]
      · intro mark hmark
        cases hmark
    exact hwrite.congr hwrite.gas rfl rfl

theorem Settled.deposit (h : Settled r) (a) (amount) :
    Settled (addDelegateBalance lib c r a amount) := by
  cases amount with
  | none => exact h
  | some amount =>
    rw [addDelegateBalance]
    split
    · exact h
    · refine ⟨fee_syncFeeBalance hlib _, h.dated.1, fun mark hmark => h.dated.2 mark ?_⟩
      rw [marks_record] at hmark
      exact (mem_append.mp hmark).resolve_right not_mem_nil

end Laws

end SatoshiNet.Template
