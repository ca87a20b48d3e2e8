import SatoshiNet.Template.AutopayBlock

/-!
Whole runs of an autopay contract: funding, calls of every kind and settlements, in any order.
-/

namespace SatoshiNet.Template

open Lib Wire Contract
open AutopayRunningData

structure AutopayRuntime where
  contract : AutopayContract
  deployer : Text
  closable : Bool

inductive AutopayOp
  | fund (output : ContractOutput) (gasAssetName : Text)
  | gasFund (output : ContractOutput) (gasAssetName : Text)
  | invoke (req : ApplyInvokeRequest)
  | defaultInvoke (req : ApplyInvokeRequest)
  | invalidInvoke (req : ApplyInvokeRequest) (gasAssetName : Text)
  | settle (height : ℤ) (terms : GasTerms)
  | pruneFinishedItems

section Run

variable (lib : DecimalLib) (params : ParamLib) (rt : AutopayRuntime)

def AutopayOp.run (s : AutopayState) : AutopayOp → TemplateM AutopayState
  | .fund output gas =>
    (applyAutopayFunding lib rt.contract rt.deployer s.running output gas).map
      fun running => { s with running := running }
  | .gasFund output gas =>
    (applyAutopayGasFunding lib rt.contract s.running output gas).map
      fun running => { s with running := running }
  | .invoke req => rt.contract.applyInvoke lib params rt.deployer rt.closable s req
  | .defaultInvoke req => rt.contract.applyDefaultInvoke lib params s req
  | .invalidInvoke req gas => rt.contract.applyInvalidInvoke lib s req gas
  | .settle height terms => (rt.contract.settle lib terms rt.deployer s height).map Prod.fst
  | .pruneFinishedItems => .ok s.pruneFinishedItems

def AutopayOp.next (s : AutopayState) (op : AutopayOp) : AutopayState :=
  (op.run lib params rt s).toOption.getD s

def AutopayState.initial : AutopayState := { running := { autopayStatus := .funding } }

def AutopayOp.Sound : AutopayOp → Prop
  | .fund output gas | .gasFund output gas =>
    ∀ d, output.assetAmount lib gas = .ok d → 0 ≤ d.toRat
  | .settle height _ => 0 ≤ height
  | _ => True

end Run

/-! ### What calls and funding do -/

/-- `I` outlives every change that funding and calls make. -/
structure Steady (lib : DecimalLib) (c : AutopayContract) (I : AutopayRunningData → Prop) :
    Prop where
  gas : ∀ r d, 0 ≤ amountOf d → I r → I (addGasBalance lib r d)
  deposit : ∀ r a d, I r → I (addDelegateBalance lib c r a d)
  config : ∀ r a amount limit, (c.feeAssetName = satoshiAssetName →
    ∃ v, autopaySatoshiValue lib amount = .ok v) → I r →
      I (setDelegateConfig lib c r a (some amount) limit)
  status : ∀ r, I r → I { r with autopayStatus := .funding }

section Laws

variable {lib : DecimalLib} (hlib : lib.Lawful) {params : ParamLib} {rt : AutopayRuntime}
  {c : AutopayContract} {I : AutopayRunningData → Prop} {r r' : AutopayRunningData}
  {output : ContractOutput} {gas : Text}

theorem Steady.funding {deployer} (h : Steady lib c I) (hr : I r)
    (hout : ∀ d, output.assetAmount lib gas = .ok d → 0 ≤ d.toRat)
    (hrun : applyAutopayFunding lib c deployer r output gas = .ok r') : I r' := by
  obtain ⟨fee, -, hrun⟩ := bind_eq_ok.mp hrun
  have hfunded : I (if deployer = [] then r
      else addDelegateBalance lib c r deployer (some fee)) := by
    split
    · exact hr
    · exact h.deposit _ _ _ hr
  have hstatus : ∀ q : AutopayRunningData, I q →
      I (if q.autopayStatus = .unset then { q with autopayStatus := .funding } else q) := by
    intro q hq
    split
    · exact h.status q hq
    · exact hq
  simp only at hrun
  split at hrun
  · obtain ⟨amount, hamount, hrun⟩ := bind_eq_ok.mp hrun
    cases hrun
    exact hstatus _ (h.gas _ _ (hout amount hamount) hfunded)
  · cases hrun
    exact hstatus _ hfunded

theorem Steady.gasFunding (h : Steady lib c I) (hr : I r)
    (hout : ∀ d, output.assetAmount lib gas = .ok d → 0 ≤ d.toRat)
    (hrun : applyAutopayGasFunding lib c r output gas = .ok r') : I r' := by
  rw [applyAutopayGasFunding] at hrun
  split at hrun
  · cases hrun
    exact hr
  · obtain ⟨amount, hamount, hrun⟩ := bind_eq_ok.mp hrun
    cases hrun
    exact h.gas _ _ (hout amount hamount) hr

variable {op : AutopayOp} {param : AutopayConfigInvokeParam} {s : AutopayState}

theorem whole_of_checkAutopayConfig {action} {raw}
    (h : checkAutopayConfig lib c params action raw = .ok ()) {amount}
    (hparam : params.autopayConfig raw = some param) (hset : param.amountPerBlock ≠ [])
    (hamount : lib.parseDecimalAmountString param.amountPerBlock = some amount)
    (hsats : c.feeAssetName = satoshiAssetName) : ∃ v, autopaySatoshiValue lib amount = .ok v := by
  obtain ⟨config, hconfig, h⟩ := bind_eq_ok.mp h
  cases hparam.symm.trans (orError_eq_ok.mp hconfig)
  obtain ⟨gas, -, h⟩ := bind_eq_ok.mp h
  obtain ⟨-, -, h⟩ := bind_eq_ok.mp h
  rw [if_neg fun hnone => hset hnone.1] at h
  obtain ⟨parsed, hparsed, h⟩ := bind_eq_ok.mp h
  cases hamount.symm.trans (orError_eq_ok.mp hparsed)
  obtain ⟨-, -, h⟩ := bind_eq_ok.mp h
  obtain ⟨-, -, h⟩ := bind_eq_ok.mp h
  obtain ⟨-, -, h⟩ := bind_eq_ok.mp h
  rw [if_pos hsats] at h
  obtain ⟨v, hv, -⟩ := bind_eq_ok.mp h
  exact ⟨v, hv⟩

theorem newAutopayItem_eq_ok {id : ℤ} {req} {item}
    (h : newAutopayItem lib c params id req = .ok item) : item.orderType ≠ .fund ∧
      (item.orderType = .validate →
        ∃ action, checkAutopayConfig lib c params action item.param = .ok ()) := by
  obtain ⟨inAmt, -, h⟩ := bind_eq_ok.mp h
  unfold newAutopayItemOf at h
  split at h
  · rename_i haction
    obtain ⟨_, hcheck, h⟩ := bind_eq_ok.mp h
    cases h
    rw [haction] at hcheck
    exact ⟨OrderType.noConfusion, fun _ => ⟨.config, hcheck⟩⟩
  · rename_i haction
    obtain ⟨_, hcheck, h⟩ := bind_eq_ok.mp h
    cases h
    rw [haction] at hcheck
    exact ⟨OrderType.noConfusion, fun _ => ⟨.funding, hcheck⟩⟩
  · cases h
    exact ⟨OrderType.noConfusion, OrderType.noConfusion⟩
  · cases h
    exact ⟨OrderType.noConfusion, OrderType.noConfusion⟩
  · cases h

include hlib

theorem autopayConfigGasAmount_nonneg {gas} (h : autopayConfigGasAmount lib param = .ok gas) :
    0 ≤ gas.toRat := by
  rw [autopayConfigGasAmount] at h
  split at h
  · cases h
    exact (toRat_zeroDecimal hlib).ge
  · obtain ⟨d, -, h⟩ := bind_eq_ok.mp h
    obtain ⟨_, hsign, h⟩ := bind_eq_ok.mp h
    obtain rfl := Except.ok.inj h
    have hnonneg : 0 ≤ d.sign := by simpa [require_eq_ok] using hsign
    exact Decimal.toRat_nonneg (Int.sign_nonneg_iff.mp hnonneg)

theorem Steady.item {item} (h : Steady lib c I) (hr : I r)
    (hfund : item.orderType = .fund → 0 ≤ amountOf item.inAmt)
    (hcheck : item.orderType = .validate → ∃ action, checkAutopayConfig lib c params action
      item.param = .ok ()) : I (applyAutopayRunningData lib c params r item) := by
  rw [applyAutopayRunningData]
  split
  · exact hr
  split
  · rename_i horder
    exact h.gas _ _ (hfund horder) hr
  · rename_i horder
    rw [applyAutopayConfig]
    split
    · exact hr
    rename_i param hparam
    obtain ⟨_, hdecode, hparam⟩ := bind_eq_ok.mp hparam
    obtain ⟨-, -, hparam⟩ := bind_eq_ok.mp hparam
    cases hparam
    split
    · exact hr
    rename_i gas hgas
    have hgassed := h.gas r (some gas) (autopayConfigGasAmount_nonneg hlib hgas) hr
    split_ifs with hset
    · exact hgassed
    split
    · exact hr
    · rename_i amount hamount
      obtain ⟨action, hcheck⟩ := hcheck horder
      exact h.deposit _ _ _ (h.config _ _ _ _ (whole_of_checkAutopayConfig hcheck
        (orError_eq_ok.mp hdecode) hset hamount) hgassed)
  · exact hr

theorem Steady.next (h : Steady lib rt.contract I) (hop : op.Sound lib) (hs : I s.running)
    (hsettle : ∀ height terms s' plan, op = .settle height terms →
      rt.contract.settle lib terms rt.deployer s height = .ok (s', plan) → I s'.running) :
    I (op.next lib params rt s).running := by
  rw [AutopayOp.next]
  cases hrun : op.run lib params rt s with
  | error e => exact hs
  | ok s' =>
    show I s'.running
    cases op with
    | fund output gas =>
      obtain ⟨r', hr', rfl⟩ := map_eq_ok.mp hrun
      exact h.funding hs hop hr'
    | gasFund output gas =>
      obtain ⟨r', hr', rfl⟩ := map_eq_ok.mp hrun
      exact h.gasFunding hs hop hr'
    | invoke req =>
      obtain ⟨-, -, hrun⟩ := bind_eq_ok.mp hrun
      obtain ⟨-, -, hrun⟩ := bind_eq_ok.mp hrun
      obtain ⟨output, -, hrun⟩ := bind_eq_ok.mp hrun
      obtain ⟨-, -, hrun⟩ := bind_eq_ok.mp hrun
      obtain ⟨item, hitem, hrun⟩ := bind_eq_ok.mp hrun
      obtain ⟨item', hnamed, hrun⟩ := bind_eq_ok.mp hrun
      cases hrun
      obtain ⟨name, rfl⟩ := normalizeInvokeItemParam_eq_ok hnamed
      obtain ⟨hfund, hcheck⟩ := newAutopayItem_eq_ok hitem
      exact h.item hlib hs (fun horder => absurd horder hfund) hcheck
    | defaultInvoke req =>
      obtain ⟨item, hitem, hrun⟩ := bind_eq_ok.mp hrun
      obtain ⟨item', hnamed, hrun⟩ := bind_eq_ok.mp hrun
      cases hrun
      obtain ⟨name, rfl⟩ := normalizeInvokeItemParam_eq_ok hnamed
      have hfund : 0 ≤ amountOf item.inAmt ∧ item.orderType ≠ .validate := by
        obtain ⟨-, -, hitem⟩ := bind_eq_ok.mp hitem
        obtain ⟨-, -, hitem⟩ := bind_eq_ok.mp hitem
        obtain ⟨amount, -, hitem⟩ := bind_eq_ok.mp hitem
        obtain ⟨_, hsign, hitem⟩ := bind_eq_ok.mp hitem
        cases hitem
        have hpos : 0 < amount.sign := by simpa [require_eq_ok] using hsign
        exact ⟨Decimal.toRat_nonneg (Decimal.sign_pos_iff.mp hpos).le, OrderType.noConfusion⟩
      exact h.item hlib hs (fun _ => hfund.1) fun horder => absurd horder hfund.2
    | invalidInvoke req gas =>
      obtain ⟨item, -, hrun⟩ := bind_eq_ok.mp hrun
      cases hrun
      exact hs
    | settle height terms =>
      obtain ⟨⟨s'', plan⟩, hblock, rfl⟩ := map_eq_ok.mp hrun
      exact hsettle height terms s'' plan rfl hblock
    | pruneFinishedItems =>
      cases hrun
      exact hs

/-! ### The books along a run -/

theorem books_next (hc : rt.contract.Checked lib) (h : Books lib s.running ∧ Settled s.running)
    (hop : op.Sound lib) :
    Books lib (op.next lib params rt s).running ∧ Settled (op.next lib params rt s).running := by
  have hsteady : Steady lib rt.contract fun r => Books lib r ∧ Settled r := {
    gas := fun r d hd hr => ⟨hr.1.addGas hlib hd, hr.2.addGas _⟩
    deposit := fun r a d hr => ⟨hr.1.deposit hlib _ _, hr.2.deposit hlib _ _⟩
    config := fun r a amount limit _ hr => ⟨hr.1.setConfig _ _ _, hr.2.setConfig _ _ _⟩
    status := fun r hr => ⟨hr.1.congr hr.1.gas rfl rfl, hr.2.fee, hr.2.dated⟩ }
  refine hsteady.next hlib hop h fun height terms s' plan hsettle hrun => ?_
  subst hsettle
  have hblock := settle_spec hlib hc hop h.1 h.2 hrun
  exact ⟨hblock.books, hblock.settled⟩

omit hlib in
theorem books_initial : Books lib AutopayState.initial.running ∧ Settled AutopayState.initial.running := by
  have hnone : ∀ a, AutopayState.initial.running.autopayDelegates[a]? = none := fun a =>
    Std.ExtTreeMap.getElem?_empty
  have hbalance : ∀ a, AutopayState.initial.running.balanceOf a = 0 := by
    intro a
    rw [balanceOf, hnone]
    rfl
  have hpaid : ∀ a, AutopayState.initial.running.paidOf a = 0 := by
    intro a
    rw [paidOf, hnone]
    rfl
  refine ⟨⟨le_rfl, fun a => (hbalance a).ge, hbalance [], fun a => ?_, fun a => ?_,
    List.nodup_nil⟩, ?_, le_rfl, fun _ hmark => absurd hmark List.not_mem_nil⟩
  · rw [hbalance, hpaid, zero_add, zero_add]
    rfl
  · exact hpaid a
  · exact (tableTotal_empty _).symm

theorem books_run (hc : rt.contract.Checked lib) {ops : List AutopayOp}
    (hops : ∀ op ∈ ops, op.Sound lib) (h : Books lib s.running ∧ Settled s.running) :
    Books lib (ops.foldl (AutopayOp.next lib params rt) s).running ∧
      Settled (ops.foldl (AutopayOp.next lib params rt) s).running := by
  induction ops generalizing s with
  | nil => exact h
  | cons op ops ih =>
    exact ih (fun o ho => hops o (List.mem_cons_of_mem _ ho))
      (books_next hlib hc h (hops op List.mem_cons_self))

end Laws

/-! ### A delegate that pays twice and cancels -/

namespace Reference

open Wire.Reference

def autopayParams : ParamLib where
  limitOrder _ := none
  addLiquidity _ := none
  removeLiquidity _ := none
  refund _ := none
  exchange _ := none
  autopayConfig _ := some ⟨decimalText ⟨0, 2⟩, 0, []⟩

def feeAsset : AssetName := ⟨['o'], ['f'], ['t']⟩

def autopayRuntime : AutopayRuntime where
  contract := ⟨['r'], feeAsset.text, decimalText ⟨0, 1⟩⟩
  deployer := ['d']
  closable := true

def fundedOutput (units : ℤ) : ContractOutput :=
  ⟨⟨[], 0⟩, some ⟨0, [⟨feeAsset, ⟨0, units⟩, 0⟩], []⟩⟩

def networkGas : GasTerms := gasTerms decimalLib {} none

def gasOutput (units : ℤ) : ContractOutput :=
  ⟨⟨[], 0⟩, some ⟨0, [⟨⟨"brc20".toList, ['f'], "sgas".toList⟩, ⟨0, units⟩, 0⟩], []⟩⟩

def autopayOps : List AutopayOp := [
  .gasFund (gasOutput 1000) networkGas.gasAssetName,
  .invoke { action := .config, invoker := ['a'], fundingOutput := fundedOutput 5, height := 1 },
  .settle 1 networkGas,
  .settle 2 networkGas,
  .settle 2 networkGas,
  .settle 3 networkGas,
  .invoke { action := .cancel, invoker := ['a'], fundingOutput := fundedOutput 0, height := 4 },
  .settle 4 networkGas]

theorem sound_gasFund : (AutopayOp.gasFund (gasOutput 1000) networkGas.gasAssetName).Sound decimalLib :=
  fun _ hd => Decimal.toRat_nonneg (assetAmount_nonneg decimalLib_assetLaws (by decide) hd)

end Reference

end SatoshiNet.Template
