import SatoshiNet.Agent.PredictionLedger

/-!
The settlement of a prediction market pays out exactly what was bet, where the unit of the market is
a whole number of the smallest units of its asset.
-/

namespace SatoshiNet.Agent

open Lib Wire List Decimal
open Template (textAmount)

section Spec

variable (lib : PredictionLib)

def paidBy (name : Text) (select : PredictionSettlementOutput → Bool)
    (transfers : List PredictionSettlementOutput) : ℚ :=
  (transfers.map fun t => if t.assetName = name ∧ select t then
    textAmount lib.toDecimalLib t.assetAmt else 0).sum

def winnerPool (precision : ℤ) (total : ℚ) : ℚ :=
  total - cut precision (total * predictionDeployerFeeBPS / predictionTotalBPS)
    - cut precision (total * predictionAgentFeeBPS / predictionTotalBPS)
    - cut precision (total * predictionBootstrapBPS / predictionTotalBPS)

def winnerShare (precision : ℤ) (total stake stakes : ℚ) : ℚ :=
  winnerPool precision total * stake / stakes

def wonBy (name winner : Text) (transfers : List PredictionSettlementOutput) : ℚ :=
  paidBy lib name (fun t => t.reason = .winnerPayout && t.recipient = winner) transfers

/-- Every stake is a whole number of smallest units of the bet asset. -/
def Runtime.WholeStakes (r : Runtime) (wagers : List ApplyBetRequest) : Prop :=
  ∀ w ∈ wagers, cut r.betAssetPrecision (parseDecimalOrZero lib w.amount).toRat =
    (parseDecimalOrZero lib w.amount).toRat

end Spec

theorem Runtime.betAssetPrecision_nonneg (r : Runtime) : 0 ≤ r.betAssetPrecision := by
  unfold Runtime.betAssetPrecision
  split
  · exact le_rfl
  split
  · decide
  · split
    · decide
    · split
      · decide
      · omega

/-! ### Whole numbers of smallest units -/

variable {n : ℤ} {d : ℤ}

theorem floor_intCast_div (hd : 0 < d) : ⌊(n : ℚ) / d⌋ = n / d := by
  lift d to ℕ using hd.le
  exact Rat.floor_intCast_div_natCast n d

theorem cut_intCast_div {p : ℤ} (hd : 0 < d) :
    cut p ((n : ℚ) / d / 10 ^ p) = ((n / d : ℤ) : ℚ) / 10 ^ p := by
  have hpow := (ten_zpow_pos p).ne'
  rw [cut, div_mul_cancel₀ _ hpow, floor_intCast_div hd]

def feeUnits (T bps : ℤ) : ℤ := T * bps / predictionTotalBPS

def poolUnits (T : ℤ) : ℤ :=
  T - feeUnits T predictionDeployerFeeBPS - feeUnits T predictionAgentFeeBPS -
    feeUnits T predictionBootstrapBPS

theorem winnerPool_div (p T : ℤ) :
    winnerPool p ((T : ℚ) / 10 ^ p) = (poolUnits T : ℚ) / 10 ^ p := by
  have hfee : ∀ bps : ℤ, cut p ((T : ℚ) / 10 ^ p * bps / predictionTotalBPS) =
      (feeUnits T bps : ℚ) / 10 ^ p := by
    intro bps
    rw [feeUnits, ← cut_intCast_div (by decide : (0 : ℤ) < predictionTotalBPS), Int.cast_mul]
    congr 1
    ring
  rw [winnerPool, hfee, hfee, hfee, poolUnits]
  push_cast
  ring

theorem poolUnits_pos {T : ℤ} (hT : 0 < T) : 0 < poolUnits T := by
  simp only [poolUnits, feeUnits, predictionDeployerFeeBPS, predictionAgentFeeBPS,
    predictionBootstrapBPS, predictionTotalBPS]
  omega

theorem feeUnits_nonneg {T bps : ℤ} (hT : 0 ≤ T) (hbps : 0 ≤ bps) : 0 ≤ feeUnits T bps :=
  Int.ediv_nonneg (mul_nonneg hT hbps) (by decide)

theorem cut_share {p W V : ℤ} (hV : 0 < V) :
    cut p ((W : ℚ) / 10 ^ p * (n / 10 ^ p) / (V / 10 ^ p)) = ((W * n / V : ℤ) : ℚ) / 10 ^ p := by
  have hpow := (ten_zpow_pos p).ne'
  rw [← cut_intCast_div hV, Int.cast_mul]
  congr 1
  field_simp

section Laws

theorem sortedBetRecords_perm (bets) :
    (sortedBetRecords bets).Perm (betRecords bets) := perm_insertionSort _ _

variable {lib : PredictionLib} (hlib : lib.Lawful) {r : Runtime}
  {bets : Std.ExtTreeMap Text PredictionBetRecord} {wagers : List ApplyBetRequest}
  (hl : Ledger lib r bets wagers) (hwhole : r.WholeStakes lib wagers)

theorem recorded_eq_sum (P bets) : recorded lib P bets =
      ((betRecords bets).map fun b => if P b.address b.outcomeID then b.worth lib else 0).sum := by
  rw [recorded, tableTotal, betRecords, map_map]
  rfl

theorem exists_of_mem_betRecords (hb : b ∈ betRecords bets) :
    ∃ key : Text, bets[key]? = some b := by
  obtain ⟨⟨key, b'⟩, hmem, rfl⟩ := mem_map.mp hb
  exact ⟨key, Std.ExtTreeMap.mem_toList_iff_getElem?_eq_some.mp hmem⟩

include hl in
theorem nodup_betRecords : ((betRecords bets).map fun b => (b.address, b.outcomeID)).Nodup := by
  have hkeys : bets.keys =
      ((betRecords bets).map fun b => (b.address, b.outcomeID)).map fun e => predictionBetKey e.1 e.2 := by
    rw [← Std.ExtTreeMap.map_fst_toList_eq_keys, betRecords, map_map, map_map]
    apply map_congr_left
    intro e he
    exact (hl.record (Std.ExtTreeMap.mem_toList_iff_getElem?_eq_some.mp he)).key_eq
  exact List.Nodup.of_map _ (hkeys ▸ Std.ExtTreeMap.nodup_keys)

theorem paidBy_refundTransfers (select : Text → Bool) :
    paidBy lib name (fun t => select t.recipient) (refundTransfers name bets) =
      recorded lib (fun a _ => select a) bets := by
  rw [paidBy, refundTransfers, map_map, recorded_eq_sum]
  refine Eq.trans ?_ ((sortedBetRecords_perm bets).map _).sum_eq
  congr 1
  apply map_congr_left
  intro b _
  simp [PredictionBetRecord.worth]

theorem winners_perm (bets) (o) :
    (winners lib bets o).Perm (((betRecords bets).filter (·.outcomeID = o)).map fun bet =>
      ⟨bet.address, parseDecimalOrZero lib bet.amount⟩) :=
  (perm_insertionSort _ _).trans (((sortedBetRecords_perm bets).filter _).map _)

include hl in
theorem nodup_winners (o) : ((winners lib bets o).map (·.address)).Nodup := by
  rw [((winners_perm bets o).map _).nodup_iff, map_map]
  apply List.Nodup.of_map (fun a => (a, o))
  rw [map_map]
  have hpairs : ((betRecords bets).filter (·.outcomeID = o)).map (fun b => (b.address, b.outcomeID)) =
      ((betRecords bets).filter (·.outcomeID = o)).map (fun b => (b.address, o)) := by
    apply map_congr_left
    intro b hb
    rw [of_decide_eq_true (mem_filter.mp hb).2]
  have hsub : ((betRecords bets).filter (·.outcomeID = o)).Sublist (betRecords bets) :=
    filter_sublist
  have hnodup := (nodup_betRecords hl).sublist (hsub.map _)
  rw [hpairs] at hnodup
  exact hnodup

theorem paidBy_append (name) (select ts us) :
    paidBy lib name select (ts ++ us) = paidBy lib name select ts + paidBy lib name select us := by
  rw [paidBy, map_append, sum_append]
  rfl

theorem wonBy_feeOutputs {a d e f} (ts) :
    wonBy lib name a (r.feeOutputs lib d e f ++ ts) = wonBy lib name a ts := by
  simp [wonBy, paidBy, Runtime.feeOutputs]

theorem exists_of_recorded_pos {P} (h : 0 < recorded lib P bets) :
    ∃ b ∈ betRecords bets, P b.address b.outcomeID = true := by
  by_contra hnone
  push Not at hnone
  rw [recorded_eq_sum, sum_eq_zero] at h
  · exact lt_irrefl _ h
  · intro x hx
    obtain ⟨b, hb, rfl⟩ := mem_map.mp hx
    exact if_neg (hnone b hb)

include hl in
theorem staked_pos {P w} (hw : w ∈ wagers)
    (hP : P w.invoker w.param.outcomeID = true) : 0 < staked lib P wagers := by
  have hnonneg : ∀ x ∈ wagers.map fun w => if P w.invoker w.param.outcomeID then
      (parseDecimalOrZero lib w.amount).toRat else 0, 0 ≤ x := by
    intro x hx
    obtain ⟨v, hv, rfl⟩ := mem_map.mp hx
    split
    · exact (hl.positive v hv).le
    · exact le_rfl
  exact (hl.positive w hw).trans_le
    (single_le_sum hnonneg _ (mem_map.mpr ⟨w, hw, if_pos hP⟩))

theorem check_ne_divisionByZero (p : PredictionConfirmParam) (c : PredictionContract) :
    p.check lib c ≠ .error .divisionByZero := by
  intro h
  simp only [PredictionConfirmParam.check, bind_eq_error, require_eq_error, reduceCtorEq, and_false,
    exists_false, or_false, or_self] at h
  unfold PredictionConfirmParam.checkOutcome at h
  split at h <;> simp [require_eq_error] at h

include hlib

theorem toRat_addAll (l) : (addAll lib l).toRat = (l.map toRat).sum := by
  have hfold : ∀ d, (l.foldl lib.decimalAdd d).toRat = d.toRat + (l.map toRat).sum := by
    induction l with
    | nil => exact fun d => (add_zero _).symm
    | cons e l ih =>
      intro d
      rw [foldl_cons, ih, hlib.decimalAdd, map_cons, sum_cons, add_assoc]
  rw [addAll, hfold, toRat_newDefaultDecimal, Int.cast_zero, zero_add]

variable {b : PredictionBetRecord} {name o : Text} {p : ℤ} {w : PredictionWinner}
  {ws : List PredictionWinner}

def PredictionWinner.units (p : ℤ) (w : PredictionWinner) : ℤ := ⌊w.amount.toRat * 10 ^ p⌋

def PredictionWinner.Whole (p : ℤ) (w : PredictionWinner) : Prop :=
  0 < w.amount.toRat ∧ w.amount.toRat = w.units p / 10 ^ p

omit hlib in
theorem PredictionWinner.Whole.units_pos (h : w.Whole p) : 0 < w.units p := by
  have hpow := ten_zpow_pos p
  have hpos := h.1
  rw [h.2, div_pos_iff_of_pos_right hpow] at hpos
  exact_mod_cast hpos

omit hlib in
theorem sum_units (hws : ∀ w ∈ ws, w.Whole p) :
    (ws.map (·.amount.toRat)).sum = ((ws.map (·.units p)).sum : ℤ) / 10 ^ p := by
  induction ws with
  | nil => simp
  | cons w ws ih =>
    obtain ⟨hw, hws⟩ := forall_mem_cons.mp hws
    rw [map_cons, map_cons, sum_cons, sum_cons, ih hws, hw.2]
    push_cast
    ring

omit hlib in
theorem sum_units_pos (hne : ws ≠ []) (hws : ∀ w ∈ ws, w.Whole p) :
    0 < (ws.map (·.units p)).sum := by
  apply sum_pos
  · intro n hn
    obtain ⟨w, hw, rfl⟩ := mem_map.mp hn
    exact (hws w hw).units_pos
  · simpa using hne

def payouts (lib : PredictionLib) (name : Text) (p W : ℤ) (ws : List PredictionWinner) :
    List PredictionSettlementOutput :=
  zipWith (winnerOutput lib name p) ws (apportion W (ws.map (·.units p)))

theorem distributeWinnerPool_eq {pool : Decimal} {W : ℤ} (hp : 0 ≤ p) (hW : 0 < W)
    (hpool : pool.toRat = W / 10 ^ p) (hne : ws ≠ []) (hws : ∀ w ∈ ws, w.Whole p) :
    distributeWinnerPool lib name pool ws p = .ok (payouts lib name p W ws) := by
  have hpow := ten_zpow_pos p
  have hsign : ¬(ws = [] ∨ pool.sign ≤ 0) := by
    rw [not_or, not_le, sign_pos_iff, ← toRat_pos_iff, hpool]
    exact ⟨hne, div_pos (Int.cast_pos.mpr hW) hpow⟩
  have hamounts : (ws.map fun w => lib.newPrecision w.amount p) =
      ws.map fun w => (⟨p, w.units p⟩ : Decimal) := by
    apply map_congr_left
    intro w hw
    exact newPrecision_eq hlib hp (hws w hw).1.le
  have htotal : lib.newPrecision (addAll lib (ws.map fun w => (⟨p, w.units p⟩ : Decimal))) p =
      ⟨p, (ws.map (·.units p)).sum⟩ := by
    apply newPrecision_of_eq_div hlib hp (sum_units_pos hne hws).le
    rw [toRat_addAll hlib, map_map, ← sum_units hws]
    apply congrArg sum
    apply map_congr_left
    intro w hw
    exact (hws w hw).2.symm
  rw [distributeWinnerPool, if_neg hsign]
  simp only [hamounts, htotal, newPrecision_of_eq_div hlib hp hW.le hpool, map_map]
  rw [if_neg (sum_units_pos hne hws).ne']
  simp [payouts, apportion, shares, Function.comp_def]

omit hlib in
theorem payouts_nonneg {W : ℤ} (hW : 0 < W) (hws : ∀ w ∈ ws, w.Whole p) :
    ∀ n ∈ apportion W (ws.map (·.units p)), 0 ≤ n := by
  apply apportion_nonneg hW.le
  intro n hn
  obtain ⟨w, hw, rfl⟩ := mem_map.mp hn
  exact (hws w hw).units_pos.le

theorem paidBy_zipWith (select) {units} (hunits : ∀ n ∈ units, 0 ≤ n) :
    paidBy lib name select (zipWith (winnerOutput lib name p) ws units) =
      ((ws.zip units).map fun e =>
        if select (winnerOutput lib name p e.1 e.2) then (e.2 : ℚ) / 10 ^ p else 0).sum := by
  have hpow := ten_zpow_pos p
  rw [paidBy, ← map_uncurry_zip_eq_zipWith, map_map]
  apply congrArg sum
  apply map_congr_left
  rintro ⟨w, n⟩ hmem
  have hn : 0 ≤ (⟨p, n⟩ : Decimal).toRat :=
    div_nonneg (Int.cast_nonneg (hunits n (of_mem_zip hmem).2)) hpow.le
  have htext := textAmount_toText hlib hn
  simp only [Function.comp_apply, Function.uncurry_apply_pair, winnerOutput, true_and, htext]
  rfl

theorem won_by_winner (name) {W : ℤ} (hW : 0 < W) (hws : ∀ w ∈ ws, w.Whole p)
    (hnodup : (ws.map (·.address)).Nodup) (hw : w ∈ ws) :
    ∃ n : ℤ, wonBy lib name w.address (payouts lib name p W ws) = n / 10 ^ p ∧
      (n = W * w.units p / (ws.map (·.units p)).sum ∨
        n = W * w.units p / (ws.map (·.units p)).sum + 1) := by
  have hforall := forall₂_map_left_iff.mp (forall₂_apportion W (ws.map (·.units p)))
  obtain ⟨hlen, hshare⟩ := forall₂_iff_zip.mp hforall
  have hfst : (ws.zip (apportion W (ws.map (·.units p)))).map Prod.fst = ws := map_fst_zip hlen.le
  obtain ⟨⟨w', n⟩, hmem, rfl⟩ := mem_map.mp (hfst.symm ▸ hw)
  refine ⟨n, ?_, hshare hmem⟩
  rw [← hfst, map_map] at hnodup
  rw [wonBy, payouts, paidBy_zipWith hlib _ (payouts_nonneg hW hws)]
  refine Eq.trans ?_ (sum_ite_key (w := fun e => (e.2 : ℚ) / 10 ^ p) hnodup hmem)
  apply congrArg sum
  apply map_congr_left
  intro e _
  by_cases he : e.1.address = w'.address <;> simp [winnerOutput, he]

theorem paidBy_payouts {W : ℤ} (hW : 0 < W) (hne : ws ≠ []) (hws : ∀ w ∈ ws, w.Whole p) :
    paidBy lib name (fun _ => true) (payouts lib name p W ws) = W / 10 ^ p := by
  have hsnd : (ws.zip (apportion W (ws.map (·.units p)))).map Prod.snd =
      apportion W (ws.map (·.units p)) := by
    apply map_snd_zip
    rw [← (forall₂_apportion _ _).length_eq, length_map]
  have hsum : ∀ l : List ℤ, (l.map fun n : ℤ => (n : ℚ) / 10 ^ p).sum = (l.sum : ℤ) / 10 ^ p := by
    intro l
    induction l with
    | nil => simp
    | cons n l ih =>
      rw [map_cons, sum_cons, sum_cons, ih]
      push_cast
      ring
  rw [payouts, paidBy_zipWith hlib _ (payouts_nonneg hW hws)]
  simp only [if_true]
  have hmap : (ws.zip (apportion W (ws.map (·.units p)))).map (fun e => (e.2 : ℚ) / 10 ^ p) =
      (apportion W (ws.map (·.units p))).map fun n : ℤ => (n : ℚ) / 10 ^ p := by
    rw [← hsnd, map_map, hsnd]
    rfl
  rw [hmap, hsum, sum_apportion W (sum_units_pos hne hws)]

theorem decimalMulBPS_eq {T bps : ℤ} (hT : 0 ≤ T) (hbps : 0 ≤ bps) :
    decimalMulBPS lib ⟨p, T⟩ bps = ⟨p, feeUnits T bps⟩ := by
  rw [decimalMulBPS, hlib.mulBigInt, hlib.divBigInt (mul_nonneg hT hbps) (by decide)]
  rfl

theorem toRat_pool (p T : ℤ) : (lib.decimalSub (lib.decimalSub (lib.decimalSub ⟨p, T⟩
      ⟨p, feeUnits T predictionDeployerFeeBPS⟩) ⟨p, feeUnits T predictionAgentFeeBPS⟩)
      ⟨p, feeUnits T predictionBootstrapBPS⟩).toRat = poolUnits T / 10 ^ p := by
  rw [hlib.decimalSub, hlib.decimalSub, hlib.decimalSub]
  simp only [toRat, poolUnits]
  push_cast
  ring

structure ExactOutcome (lib : PredictionLib) (r : Runtime)
    (bets : Std.ExtTreeMap Text PredictionBetRecord) (o : Text) (plan : PredictionSettlementPlan) :
    Prop where
  refund : plan.refund = false
  total : paidBy lib r.contract.betAsset (fun _ => true) plan.transfers =
    recorded lib (fun _ _ => true) bets
  won : ∀ w ∈ winners lib bets o, ∃ share,
    share = cut r.betAssetPrecision (winnerShare r.betAssetPrecision
      (recorded lib (fun _ _ => true) bets) w.amount.toRat (recorded lib (fun _ x => x = o) bets)) ∧
    (wonBy lib r.contract.betAsset w.address plan.transfers = share ∨
      wonBy lib r.contract.betAsset w.address plan.transfers = share + (10 ^ r.betAssetPrecision)⁻¹)

theorem paidBy_feeOutputs {a b c : ℤ} (ha : 0 ≤ a) (hb : 0 ≤ b) (hc : 0 ≤ c) :
    paidBy lib r.contract.betAsset (fun _ => true) (r.feeOutputs lib ⟨p, a⟩ ⟨p, b⟩ ⟨p, c⟩) =
      (a + b + c) / 10 ^ p := by
  have hpow := ten_zpow_pos p
  have htext : ∀ n : ℤ, 0 ≤ n →
      textAmount lib.toDecimalLib (lib.toText ⟨p, n⟩) = (n : ℚ) / 10 ^ p := fun n hn =>
    textAmount_toText hlib (div_nonneg (Int.cast_nonneg hn) hpow.le)
  simp only [paidBy, Runtime.feeOutputs, map_cons, map_nil, sum_cons, sum_nil,
    true_and, if_true, htext a ha, htext b hb, htext c hc]
  ring

include hl

theorem worth_of_mem (hb : b ∈ betRecords bets) :
    0 < b.worth lib ∧ (parseDecimalOrZero lib b.amount).toRat = b.worth lib := by
  obtain ⟨key, hlookup⟩ := exists_of_mem_betRecords hb
  obtain ⟨d, hd, hstake⟩ := (hl.record hlookup).amount
  rw [PredictionBetRecord.worth, hd, textAmount_toText hlib hstake.1.le]
  exact ⟨hstake.1, hstake.parse hlib⟩

theorem amount_of_mem_winners (hw : w ∈ winners lib bets o) :
    ∃ b ∈ betRecords bets, w.amount.toRat = b.worth lib ∧
      w.amount.toRat = recorded lib (fun a x => a = w.address && x = o) bets := by
  obtain ⟨b, hb, rfl⟩ := mem_map.mp ((winners_perm bets o).mem_iff.mp hw)
  obtain ⟨hb, ho⟩ := mem_filter.mp hb
  obtain ⟨-, hread⟩ := worth_of_mem hlib hl hb
  refine ⟨b, hb, hread, ?_⟩
  have hone := sum_ite_key (w := PredictionBetRecord.worth lib) (nodup_betRecords hl) hb
  rw [recorded_eq_sum, hread, ← hone]
  congr 1
  apply map_congr_left
  intro b' _
  simp [of_decide_eq_true ho]

theorem sum_winners (o) :
    ((winners lib bets o).map (·.amount.toRat)).sum = recorded lib (fun _ x => x = o) bets := by
  rw [((winners_perm bets o).map _).sum_eq, map_map, recorded_eq_sum]
  have hread : ∀ l : List PredictionBetRecord, (∀ b ∈ l, b ∈ betRecords bets) →
      ((l.filter (·.outcomeID = o)).map fun b => (parseDecimalOrZero lib b.amount).toRat).sum =
        (l.map fun b => if b.outcomeID = o then b.worth lib else 0).sum := by
    intro l
    induction l with
    | nil => exact fun _ => rfl
    | cons b l ih =>
      intro hl'
      obtain ⟨hb, hrest⟩ := forall_mem_cons.mp hl'
      by_cases ho : b.outcomeID = o
      · simp [ho, ih hrest, (worth_of_mem hlib hl hb).2]
      · simp [ho, ih hrest]
  refine (hread (betRecords bets) fun b hb => hb).trans ?_
  simp

theorem recorded_pos {P} (hb : b ∈ betRecords bets)
    (hP : P b.address b.outcomeID = true) : 0 < recorded lib P bets := by
  have hnonneg : ∀ x ∈ (betRecords bets).map fun b => if P b.address b.outcomeID then b.worth lib else 0,
      0 ≤ x := by
    intro x hx
    obtain ⟨c, hc, rfl⟩ := mem_map.mp hx
    split
    · exact (worth_of_mem hlib hl hc).1.le
    · exact le_rfl
  rw [recorded_eq_sum]
  refine (worth_of_mem hlib hl hb).1.trans_le (single_le_sum hnonneg _ ?_)
  exact mem_map.mpr ⟨b, hb, if_pos hP⟩

theorem toRat_totalBetAmount :
    (totalBetAmount lib bets).toRat = recorded lib (fun _ _ => true) bets := by
  rw [totalBetAmount, toRat_addAll hlib, recorded_eq_sum, map_map]
  apply congrArg sum
  apply map_congr_left
  intro b hb
  exact ((worth_of_mem hlib hl hb).2).trans (if_pos rfl).symm

theorem exists_winner {w} (hw : w ∈ wagers)
    (ho : w.param.outcomeID = o) : ∃ winner ∈ winners lib bets o, winner.address = w.invoker ∧
      winner.amount.toRat = staked lib (fun a x => a = w.invoker && x = o) wagers := by
  have hstaked : 0 < staked lib (fun a x => a = w.invoker && x = o) wagers :=
    staked_pos hl hw (by simp [ho])
  rw [← hl.total] at hstaked
  obtain ⟨b, hb, hP⟩ := exists_of_recorded_pos hstaked
  simp only [Bool.and_eq_true, decide_eq_true_eq] at hP
  have hmem : (⟨b.address, parseDecimalOrZero lib b.amount⟩ : PredictionWinner) ∈ winners lib bets o :=
    (winners_perm bets o).mem_iff.mpr
      (mem_map.mpr ⟨b, mem_filter.mpr ⟨hb, decide_eq_true hP.2⟩, rfl⟩)
  obtain ⟨-, -, -, hamount⟩ := amount_of_mem_winners hlib hl hmem
  refine ⟨_, hmem, hP.1, ?_⟩
  rw [hamount, hl.total, hP.1]

include hwhole

omit hlib in
theorem units_recorded (P) : ∃ T : ℤ, recorded lib P bets = T / 10 ^ r.betAssetPrecision := by
  rw [hl.total, staked]
  clear hl
  induction wagers with
  | nil => exact ⟨0, by simp⟩
  | cons w wagers ih =>
    obtain ⟨hw, hrest⟩ := forall_mem_cons.mp hwhole
    obtain ⟨T, hT⟩ := ih hrest
    obtain ⟨n, hn⟩ : ∃ n : ℤ, (parseDecimalOrZero lib w.amount).toRat = n / 10 ^ r.betAssetPrecision :=
      ⟨_, hw.symm⟩
    refine ⟨(if P w.invoker w.param.outcomeID then n else 0) + T, ?_⟩
    rw [map_cons, sum_cons, hT, hn]
    split <;> push_cast <;> ring

theorem whole_winners (o) : ∀ w ∈ winners lib bets o, w.Whole r.betAssetPrecision := by
  intro w hw
  obtain ⟨b, hb, hworth, hrecorded⟩ := amount_of_mem_winners hlib hl hw
  obtain ⟨n, hn⟩ := units_recorded hl hwhole fun a x => a = w.address && x = o
  have hpow := (ten_zpow_pos r.betAssetPrecision).ne'
  rw [PredictionWinner.Whole, PredictionWinner.units]
  refine ⟨hworth ▸ (worth_of_mem hlib hl hb).1, ?_⟩
  rw [hrecorded, hn, div_mul_cancel₀ _ hpow, Int.floor_intCast]

theorem exactOutcome_of_outcomePlan (confirm) (hne : winners lib bets confirm.outcomeID ≠ []) :
    r.outcomePlan lib bets confirm (winners lib bets confirm.outcomeID) ≠ .error .divisionByZero ∧
      ∀ plan, r.outcomePlan lib bets confirm (winners lib bets confirm.outcomeID) = .ok plan →
        ExactOutcome lib r bets confirm.outcomeID plan := by
  have hp := r.betAssetPrecision_nonneg
  have hpow := ten_zpow_pos r.betAssetPrecision
  have hws := whole_winners hlib hl hwhole confirm.outcomeID
  obtain ⟨T, hT⟩ := units_recorded hl hwhole fun _ _ => true
  have hTpos : 0 < T := by
    obtain ⟨w, hw⟩ := exists_mem_of_ne_nil _ hne
    obtain ⟨b, hb, -⟩ := amount_of_mem_winners hlib hl hw
    have hpos := recorded_pos hlib hl (P := fun _ _ => true) hb rfl
    rw [hT, div_pos_iff_of_pos_right hpow] at hpos
    exact_mod_cast hpos
  have hW := poolUnits_pos hTpos
  have htotal : lib.newPrecision (totalBetAmount lib bets) r.betAssetPrecision =
      ⟨r.betAssetPrecision, T⟩ :=
    newPrecision_of_eq_div hlib hp hTpos.le ((toRat_totalBetAmount hlib hl).trans hT)
  have hdeployer : decimalMulBPS lib ⟨r.betAssetPrecision, T⟩ predictionDeployerFeeBPS = _ :=
    decimalMulBPS_eq hlib hTpos.le (by decide)
  have hagent : decimalMulBPS lib ⟨r.betAssetPrecision, T⟩ predictionAgentFeeBPS = _ :=
    decimalMulBPS_eq hlib hTpos.le (by decide)
  have hbootstrap : decimalMulBPS lib ⟨r.betAssetPrecision, T⟩ predictionBootstrapBPS = _ :=
    decimalMulBPS_eq hlib hTpos.le (by decide)
  unfold Runtime.outcomePlan
  simp only [htotal, hdeployer, hagent, hbootstrap,
    distributeWinnerPool_eq hlib hp hW (toRat_pool hlib _ T) hne hws]
  constructor
  · unfold require
    split <;> nofun
  · intro plan hplan
    obtain ⟨_, -, hplan⟩ := bind_eq_ok.mp hplan
    cases hplan
    refine ⟨rfl, ?_, ?_⟩
    · show paidBy lib _ _ (_ ++ _) = _
      rw [paidBy_append, paidBy_feeOutputs hlib (feeUnits_nonneg hTpos.le (by decide))
        (feeUnits_nonneg hTpos.le (by decide)) (feeUnits_nonneg hTpos.le (by decide)),
        paidBy_payouts hlib hW hne hws, hT, poolUnits]
      push_cast
      ring
    · intro w hw
      obtain ⟨n, hn, hshare⟩ := won_by_winner hlib r.contract.betAsset hW hws
        (nodup_winners hl _) hw
      have hV := sum_units_pos hne hws
      refine ⟨_, rfl, ?_⟩
      rw [winnerShare, hT, winnerPool_div, ← sum_winners hlib hl, sum_units hws, (hws w hw).2,
        cut_share hV]
      dsimp only
      rw [wonBy_feeOutputs, hn]
      rcases hshare with rfl | rfl
      · exact .inl rfl
      · right
        push_cast
        ring

theorem buildSettlementPlan_cases (confirm) :
    r.buildSettlementPlan lib bets confirm ≠ .error .divisionByZero ∧
      ∀ plan, r.buildSettlementPlan lib bets confirm = .ok plan →
        plan = r.refundPlan confirm.resultType confirm.outcomeID bets ∨
          ExactOutcome lib r bets confirm.outcomeID plan := by
  unfold Runtime.buildSettlementPlan
  split_ifs with hwinners
  · exact ⟨nofun, fun plan hplan => .inl (Except.ok.inj hplan).symm⟩
  · obtain ⟨hdiv, hexact⟩ := exactOutcome_of_outcomePlan hlib hl hwhole confirm
      fun hnil => hwinners (.inr hnil)
    exact ⟨hdiv, fun plan hplan => .inr (hexact plan hplan)⟩

omit hl hwhole

end Laws

section Market

open Wire.Reference (decimalLib decimalLib_lawful decimalText)

def referenceLib : PredictionLib where
  toDecimalLib := decimalLib
  mulBigInt d n := ⟨d.precision, d.value * n⟩
  divBigInt d n := ⟨d.precision, d.value / n⟩
  newAssetNameFromString name := name ≠ []
  parseHTTPURL url := url ≠ []
  resultURLAllowed source result := source = result

theorem referenceLib_lawful : referenceLib.Lawful where
  decimals := decimalLib_lawful
  mulBigInt _ _ := rfl
  divBigInt _ _ := rfl

def marketContract (unit : Decimal) : PredictionContract where
  title := ['t']
  description := ['d']
  timeBase := .height
  eventTime := 20
  betDeadline := 10
  confirmAfter := 30
  sourceURL := ['u']
  betAsset := satoshiAssetName
  minBetUnit := decimalText unit
  outcomes := [⟨['y'], ['y']⟩, ⟨['n'], ['n']⟩]

def marketDeploy (unit : Decimal) : DeployPayload := ⟨subtypePrediction, 1, 0, some (marketContract unit)⟩

def marketConfig : RuntimeConfig where
  coreNodeAddress := ['c']
  agentAddress := ['g']
  bootstrapAddress := ['b']

def marketRuntime (unit : Decimal) : Runtime :=
  ⟨marketDeploy unit, ['o'], marketContract unit, marketConfig⟩

def marketBet (bettor outcome : Char) (amount : Decimal) : PredictionOp :=
  .bet ⟨[bettor], ⟨[outcome]⟩, satoshiAssetName, decimalText amount, [], 5⟩

def marketOps : List PredictionOp := [.ready ⟨['c']⟩, marketBet 'A' 'y' ⟨0, 2⟩, marketBet 'B' 'y' ⟨0, 1⟩,
  marketBet 'C' 'y' ⟨0, 1⟩, marketBet 'D' 'n' ⟨0, 2⟩]

/-- Half a satoshi on the outcome, where the unit is half a satoshi. -/
def halfOps : List PredictionOp :=
  [.ready ⟨['c']⟩, marketBet 'A' 'y' ⟨1, 5⟩, marketBet 'D' 'n' ⟨0, 20⟩]

def marketConfirm : ApplyConfirmRequest :=
  ⟨['c'], ⟨.outcome, ['y'], ['r'], ['u'], 25, 0, []⟩, [], [], 40⟩

def Runtime.runOps (lib : PredictionLib) (r : Runtime) (ops : List PredictionOp) :
    AgentM (RuntimeState × List ApplyBetRequest) :=
  ops.foldlM (fun (s, wagers) op => (op.apply lib r s).map fun next => (next.1, op.wagers ++ wagers))
    (.initial, [])

theorem reaches_of_runOps {lib} {r : Runtime} {ops e} (h : r.runOps lib ops = .ok e) :
    r.Reaches lib e.1 e.2 := by
  refine foldlM_invariant (I := fun e => r.Reaches lib e.1 e.2) ops ?_ .initial h
  intro e op e' _ he hstep
  obtain ⟨next, happly, rfl⟩ := map_eq_ok.mp hstep
  exact .next he happly

theorem deployed_market {unit} (hcheck : (marketContract unit).check referenceLib = .ok ()) :
    newRuntimeWithDeployer referenceLib (marketDeploy unit) marketConfig ['o'] =
      .ok (marketRuntime unit, .initial) := by
  simp only [newRuntimeWithDeployer, validateFlags, bind_eq_ok, require_eq_ok, orError_eq_ok]
  exact ⟨(), by simp [marketDeploy], (), rfl, (), rfl, marketContract unit, rfl, (), hcheck, (), rfl, rfl⟩

def shareOfA (wagers : List ApplyBetRequest) : ℚ :=
  winnerShare (marketRuntime ⟨0, 1⟩).betAssetPrecision (staked referenceLib (fun _ _ => true) wagers)
    (staked referenceLib (fun a x => a = ['A'] && x = ['y']) wagers)
    (staked referenceLib (fun _ x => x = ['y']) wagers)

end Market

end SatoshiNet.Agent
