import SatoshiNet.Agent.PredictionRuntime
import SatoshiNet.Template.Item

/-!
The recorded bets against the bets that were accepted: under every key stands the sum of what its
bettor has put on its outcome, a multiple of the unit of the market.
-/

namespace SatoshiNet.Agent

open Lib Wire List Option
open Template (textAmount amountOf_some)

def PredictionOp.wagers : PredictionOp → List ApplyBetRequest
  | .bet req => [req]
  | _ => []

section Reach

variable (lib : PredictionLib) (r : Runtime)

/-- The states of a market, each with the bets accepted on the way. -/
inductive Runtime.Reaches : RuntimeState → List ApplyBetRequest → Prop
  | initial : Reaches .initial []
  | next {s s' : RuntimeState} {wagers : List ApplyBetRequest} {op : PredictionOp}
    {plan : Option PredictionSettlementPlan} (hs : Reaches s wagers)
    (h : op.apply lib r s = .ok (s', plan)) : Reaches s' (op.wagers ++ wagers)

def staked (P : Text → Text → Bool) (wagers : List ApplyBetRequest) : ℚ :=
  (wagers.map fun w => if P w.invoker w.param.outcomeID then
    (parseDecimalOrZero lib w.amount).toRat else 0).sum

def PredictionBetRecord.worth (b : PredictionBetRecord) : ℚ := textAmount lib.toDecimalLib b.amount

def recorded (P : Text → Text → Bool) (bets : Std.ExtTreeMap Text PredictionBetRecord) : ℚ :=
  tableTotal (fun b => if P b.address b.outcomeID then b.worth lib else 0) bets

def Runtime.Stake (d : Decimal) : Prop :=
  0 < d.toRat ∧ ∃ unit, lib.newDecimalFromString r.contract.minBetUnit
    maxPredictionDecimalPrecision = some unit ∧ ∃ n : ℤ, d.toRat = n * unit.toRat

structure GoodRecord (key : Text) (b : PredictionBetRecord) : Prop where
  key_eq : key = predictionBetKey b.address b.outcomeID
  address : b.address ≠ []
  outcome : betKeySeparator ∉ b.outcomeID
  amount : ∃ d, b.amount = lib.toText d ∧ r.Stake lib d

structure Ledger (bets : Std.ExtTreeMap Text PredictionBetRecord) (wagers : List ApplyBetRequest) :
    Prop where
  record : ∀ {key b}, bets[key]? = some b → GoodRecord lib r key b
  total : ∀ P, recorded lib P bets = staked lib P wagers
  positive : ∀ w ∈ wagers, 0 < (parseDecimalOrZero lib w.amount).toRat

end Reach

theorem predictionBetKey_inj {a a' o o'} (ho : betKeySeparator ∉ o) (ho' : betKeySeparator ∉ o')
    (h : predictionBetKey a o = predictionBetKey a' o') : a = a' ∧ o = o' := by
  rcases append_eq_append_iff.mp h with ⟨as, ha, hs⟩ | ⟨as, ha, hs⟩
  · cases as with
    | nil => exact ⟨by simpa using ha.symm, (cons.inj hs).2⟩
    | cons c as =>
      refine absurd ?_ ho
      rw [(cons.inj hs).2]
      exact mem_append_right _ mem_cons_self
  · cases as with
    | nil => exact ⟨by simpa using ha, (cons.inj hs).2.symm⟩
    | cons c as =>
      refine absurd ?_ ho'
      rw [(cons.inj hs).2]
      exact mem_append_right _ mem_cons_self

theorem separator_not_mem {deploy config} {deployer o} {lib} {r} {s}
    (hnew : newRuntimeWithDeployer lib deploy config deployer = .ok (r, s))
    (ho : r.contract.hasOutcome o = true) : betKeySeparator ∉ o := by
  simp only [newRuntimeWithDeployer, bind_eq_ok, require_eq_ok, orError_eq_ok] at hnew
  obtain ⟨_, -, _, -, _, -, contract, -, _, hcheck, _, -, heq⟩ := hnew
  cases heq
  simp only [PredictionContract.check, bind_eq_ok] at hcheck
  obtain ⟨_, -, _, -, _, -, _, -, _, -, _, -, _, -, _, -, _, -, _, -, _, -, _, -, _, -, houtcomes⟩ := hcheck
  simp only [PredictionContract.hasOutcome, List.any_eq_true, decide_eq_true_eq] at ho
  obtain ⟨outcome, hmem, rfl⟩ := ho
  intro hsep
  have hletter := ((mem_checkOutcomes houtcomes outcome hmem).2 _ hsep).1
  exact absurd hletter (by decide)

section Laws

variable {lib : PredictionLib} (hlib : lib.Lawful) {r : Runtime}
include hlib

variable {d : Decimal} {wagers : List ApplyBetRequest}

theorem textAmount_toText (hd : 0 ≤ d.toRat) :
    textAmount lib.toDecimalLib (lib.toText d) = d.toRat := by
  obtain ⟨e, hparse, heq⟩ := hlib.parseAmount_toText (Decimal.toRat_nonneg_iff.mp hd)
  rw [textAmount, if_neg (hlib.toText_ne_nil d), hparse, amountOf_some, heq]

theorem Runtime.Stake.fits (h : r.Stake lib d) :
    cut maxPredictionDecimalPrecision d.toRat = d.toRat := by
  obtain ⟨-, unit, hunit, n, hn⟩ := h
  apply cut_of_eq_div (k := n * unit.value)
  rw [hn, Decimal.toRat, hlib.parse_precision hunit]
  push_cast
  ring

theorem Runtime.Stake.parse (h : r.Stake lib d) :
    (parseDecimalOrZero lib (lib.toText d)).toRat = d.toRat := by
  obtain ⟨e, hparse, heq⟩ := hlib.parse_toText (Decimal.toRat_nonneg_iff.mp h.1.le) (h.fits hlib)
  rw [parseDecimalOrZero, if_neg (hlib.toText_ne_nil d), hparse, getD_some, heq]

omit hlib in
theorem stake_add {e f} (hd : r.Stake lib d) (he : r.Stake lib e) (hf : f.toRat = d.toRat + e.toRat) :
    r.Stake lib f := by
  obtain ⟨hpos, unit, hunit, n, hn⟩ := hd
  obtain ⟨hpos', unit', hunit', m, hm⟩ := he
  obtain rfl : unit = unit' := some.inj (hunit.symm.trans hunit')
  refine ⟨hf ▸ add_pos hpos hpos', unit, hunit, n + m, ?_⟩
  rw [hf, hn, hm]
  push_cast
  ring

theorem stake_of_checkBetAmount {amount}
    (h : checkBetAmount lib amount r.contract.minBetUnit = .ok ()) :
    r.Stake lib (parseDecimalOrZero lib amount) := by
  obtain ⟨amt, unit, hne, hamt, hunit, hpos, -, n, hn⟩ := checkBetAmount_eq_ok hlib h
  rw [parseDecimalOrZero, if_neg hne, hamt, getD_some]
  exact ⟨hpos, unit, hunit, n, hn⟩

theorem betRecord_spec {p : PredictionRuntimeState} (hp : Ledger lib r p.bets wagers)
    {a o amount : Text} (ho : betKeySeparator ∉ o)
    (hamount : r.Stake lib (parseDecimalOrZero lib amount)) :
    (p.betRecord lib a o amount).address = a ∧ (p.betRecord lib a o amount).outcomeID = o ∧
      ∃ d, (p.betRecord lib a o amount).amount = lib.toText d ∧ r.Stake lib d ∧
        d.toRat = (p.bets[predictionBetKey a o]?).elim 0 (PredictionBetRecord.worth lib) +
          (parseDecimalOrZero lib amount).toRat := by
  have hadd := hlib.decimalAdd
  unfold PredictionRuntimeState.betRecord
  cases hlookup : p.bets[predictionBetKey a o]? with
  | none =>
    have hsum : (lib.decimalAdd (parseDecimalOrZero lib []) (parseDecimalOrZero lib amount)).toRat =
        0 + (parseDecimalOrZero lib amount).toRat := by
      rw [hadd, parseDecimalOrZero, if_pos rfl, toRat_newDefaultDecimal, Int.cast_zero]
    refine ⟨rfl, rfl, _, rfl, ?_, hsum⟩
    obtain ⟨hpos, hunits⟩ := hamount
    rw [zero_add] at hsum
    exact ⟨hsum ▸ hpos, hsum ▸ hunits⟩
  | some b =>
    have hb := hp.record hlookup
    obtain ⟨hb_a, hb_o⟩ := predictionBetKey_inj ho hb.outcome hb.key_eq
    obtain ⟨d, hd, hstake⟩ := hb.amount
    have hold : (parseDecimalOrZero lib b.amount).toRat = b.worth lib := by
      rw [PredictionBetRecord.worth, hd, hstake.parse hlib, textAmount_toText hlib hstake.1.le]
    have hsum : (lib.decimalAdd (parseDecimalOrZero lib b.amount)
        (parseDecimalOrZero lib amount)).toRat = b.worth lib + (parseDecimalOrZero lib amount).toRat :=
      (hadd _ _).trans (by rw [hold])
    refine ⟨?_, ?_, _, rfl, ?_, hsum⟩
    · exact (if_neg hb.address).trans hb_a.symm
    · exact (if_neg hb.address).trans hb_o.symm
    · apply stake_add hstake hamount
      refine hsum.trans ?_
      rw [PredictionBetRecord.worth, hd, textAmount_toText hlib hstake.1.le]

theorem Ledger.addBet {p : PredictionRuntimeState} (hp : Ledger lib r p.bets wagers)
    {req : ApplyBetRequest} (ha : req.invoker ≠ []) (ho : betKeySeparator ∉ req.param.outcomeID)
    (hamount : r.Stake lib (parseDecimalOrZero lib req.amount)) :
    Ledger lib r (p.addBet lib req.invoker req.param.outcomeID req.amount).bets (req :: wagers) := by
  obtain ⟨haddress, houtcome, d, hd, hstake, hsum⟩ := betRecord_spec hlib hp ho hamount
  have hgood : GoodRecord lib r (predictionBetKey req.invoker req.param.outcomeID)
      (p.betRecord lib req.invoker req.param.outcomeID req.amount) :=
    ⟨by rw [haddress, houtcome], haddress.symm ▸ ha, houtcome.symm ▸ ho, d, hd, hstake⟩
  constructor
  · intro key b hb
    rw [PredictionRuntimeState.addBet, Std.ExtTreeMap.getElem?_insert] at hb
    split_ifs at hb with hkey
    · cases hb
      rwa [← Std.LawfulEqOrd.eq_of_compare hkey]
    · exact hp.record hb
  · intro P
    have hworth : (p.betRecord lib req.invoker req.param.outcomeID req.amount).worth lib = d.toRat := by
      rw [PredictionBetRecord.worth, hd, textAmount_toText hlib hstake.1.le]
    have htotal : tableTotal _ p.bets = _ := hp.total P
    rw [recorded, PredictionRuntimeState.addBet, tableTotal_insert, htotal, haddress, houtcome, hworth,
      hsum, staked, staked, map_cons, sum_cons]
    cases hlookup : p.bets[predictionBetKey req.invoker req.param.outcomeID]? with
    | none =>
      simp only [elim_none]
      split <;> ring
    | some b =>
      obtain ⟨hb_a, hb_o⟩ := predictionBetKey_inj ho (hp.record hlookup).outcome (hp.record hlookup).key_eq
      simp only [elim_some, ← hb_a, ← hb_o]
      split <;> ring
  · exact forall_mem_cons.mpr ⟨hamount.1, hp.positive⟩

omit hlib in
theorem ledger_empty : Ledger lib r ∅ [] := by
  constructor
  · intro key b hb
    exact absurd hb (by simp)
  · intro P
    rw [recorded, tableTotal_empty]
    rfl
  · exact forall_mem_nil _

theorem ledger_of_reaches {deploy : DeployPayload} {config : RuntimeConfig} {deployer : Text}
    {s₀ s : RuntimeState} (hnew : newRuntimeWithDeployer lib deploy config deployer = .ok (r, s₀))
    (hs : r.Reaches lib s wagers) : Ledger lib r s.prediction.bets wagers := by
  induction hs with
  | initial => exact ledger_empty
  | next _ h ih =>
    cases transition_of_apply h with
    | ready | close => exact ih
    | reject _ _ hbets | advance _ hbets | confirm _ _ _ _ _ hbets | refund _ _ hbets
    | clearClosedGas hbets => exact hbets.symm ▸ ih
    | bet _ _ _ _ houtcome hamount hinvoker hbets =>
      rw [hbets]
      exact ih.addBet hlib hinvoker (separator_not_mem hnew houtcome)
        (stake_of_checkBetAmount hlib hamount)

end Laws

end SatoshiNet.Agent
