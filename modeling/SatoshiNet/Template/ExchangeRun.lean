import SatoshiNet.Template.ExchangeBlock

/-!
Whole runs of an exchange: its deployment, calls of every kind and settlements, in any order.
-/

namespace SatoshiNet.Template

open Lib Wire Contract List

structure ExchangeRuntime where
  contract : ExchangeContract
  deployer : Text
  closable : Bool

inductive ExchangeOp
  | invoke (req : ApplyInvokeRequest)
  | defaultInvoke (req : ApplyInvokeRequest)
  | invalidInvoke (req : ApplyInvokeRequest) (gasAssetName : Text)
  | settle (height : ℤ) (assetPrecision : AssetPrecision)
  | pruneFinishedItems

section Run

variable (lib : DecimalLib) (params : ParamLib) (rt : ExchangeRuntime)

def ExchangeOp.run (s : ExchangeState) : ExchangeOp → TemplateM ExchangeState
  | .invoke req => rt.contract.applyInvoke lib params rt.deployer rt.closable s req
  | .defaultInvoke req => rt.contract.applyDefaultInvoke lib params rt.deployer rt.closable s req
  | .invalidInvoke req gas => rt.contract.applyInvalidInvoke lib s req gas
  | .settle height assetPrecision =>
    (rt.contract.settle lib params rt.deployer assetPrecision s height).map Prod.fst
  | .pruneFinishedItems => .ok s.pruneFinishedItems

def ExchangeOp.next (s : ExchangeState) (op : ExchangeOp) : ExchangeState :=
  (op.run lib params rt s).toOption.getD s

def ExchangeOp.Sound : ExchangeOp → Prop
  | .invoke req | .defaultInvoke req | .invalidInvoke req _ => req.fundingOutput.Nonneg
  | _ => True

instance : DecidablePred ExchangeOp.Sound
  | .invoke req | .defaultInvoke req | .invalidInvoke req _ =>
    inferInstanceAs (Decidable req.fundingOutput.Nonneg)
  | .settle _ _ | .pruneFinishedItems => isTrue trivial

inductive ExchangeState.Reachable : ExchangeState → Prop
  | deployed {output : ContractOutput} {running : ExchangeRunningData} (hout : output.Nonneg)
    (h : applyExchangeFunding lib rt.contract {} output = .ok running) :
    Reachable { running := running }
  | next {s : ExchangeState} {op : ExchangeOp} (hs : Reachable s) (hop : op.Sound) :
    Reachable (op.next lib params rt s)

structure ExchangeRuntime.Checked : Prop where
  content : rt.contract.checkContent lib = .ok ()
  deployer : rt.deployer ≠ []

end Run

theorem ExchangeRuntime.Checked.pair {lib : DecimalLib} {rt : ExchangeRuntime}
    (h : rt.Checked lib) : AssetPair rt.contract.assetAName rt.contract.assetBName := by
  obtain ⟨_, hA, h⟩ := bind_eq_ok.mp h.content
  obtain ⟨_, hB, h⟩ := bind_eq_ok.mp h
  obtain ⟨_, -, h⟩ := bind_eq_ok.mp h
  obtain ⟨_, hne, h⟩ := bind_eq_ok.mp h
  obtain ⟨hnil, hsats⟩ := checkTemplateAssetName_ne hA
  exact ⟨hnil, by simpa [require_eq_ok] using hB, hsats, by simpa [require_eq_ok] using hne⟩

section Laws

variable {lib : DecimalLib} (hlib : lib.Lawful) (hassets : lib.AssetLaws) {params : ParamLib}
  {rt : ExchangeRuntime} {c : ExchangeContract} {deployer : Text}
include hlib hassets

theorem exchangeFundingAmounts_nonneg {o} (ho : o.Nonneg) {amounts}
    (h : exchangeFundingAmounts lib c o = .ok amounts) :
    0 ≤ amounts.1.toRat ∧ 0 ≤ amounts.2.toRat := by
  obtain ⟨inputA, hA, h⟩ := bind_eq_ok.mp h
  obtain ⟨inputB, hB, h⟩ := bind_eq_ok.mp h
  cases h
  refine ⟨parseDecimalOrZero_toText_nonneg hlib (assetAmount_nonneg hassets ho hA), ?_⟩
  rw [exchangeInputB] at hB
  split at hB
  · cases hB
    exact toRat_plainValue_nonneg o
  · obtain ⟨amt, hamt, hB⟩ := bind_eq_ok.mp hB
    cases hB
    exact parseDecimalOrZero_toText_nonneg hlib (assetAmount_nonneg hassets ho hamt)

omit hlib hassets in
theorem positive_nonneg (d) : 0 ≤ amountOf (positive d) := by
  rw [positive]
  split_ifs with hpos
  · exact (toRat_pos_of_sign hpos).le
  · exact le_rfl

/-- An item that may be appended: it adds no negative amount to a pool. -/
structure NewExchangeItem (deployer : Text) (id : ℤ) (item : InvokeItem) : Prop
    extends ExchangeItem deployer item where
  id_eq : item.id = id
  funds : 0 ≤ amountOf item.inAmt
  brings : 0 ≤ amountOf item.outAmt

variable {action : InvokeAction} {id : ℤ} {req : ApplyInvokeRequest} {s : ExchangeState}

omit hlib hassets in
theorem exchangeItem_newExchangeItem (inputB) :
    NewExchangeItem deployer id (newExchangeItem c id action req inputB) :=
  { remaining := positive_nonneg inputB
    retainedA := le_rfl
    retainedB := le_rfl
    refused := by simp [newExchangeItem]
    kind := Or.inr (Or.inr (Or.inl rfl))
    close := nofun
    id_eq := rfl
    funds := positive_nonneg inputB
    brings := le_rfl }

variable {closable : Bool} {item : InvokeItem} {s' : ExchangeState}

theorem newExchangeInvokeItem_ok (ho : req.fundingOutput.Nonneg)
    (hclose : req.action = .close → req.invoker = deployer)
    (h : newExchangeInvokeItem lib c params id req = .ok item) :
    NewExchangeItem deployer id item := by
  unfold newExchangeInvokeItem at h
  split at h
  · obtain ⟨_, -, h⟩ := bind_eq_ok.mp h
    obtain ⟨amounts, -, h⟩ := bind_eq_ok.mp h
    cases h
    have hnew : NewExchangeItem deployer id (newExchangeItem c id .exchange req amounts.2) :=
      exchangeItem_newExchangeItem amounts.2
    exact { hnew with brings := positive_nonneg amounts.1 }
  · rename_i haction
    obtain ⟨amounts, hamounts, h⟩ := bind_eq_ok.mp h
    cases h
    obtain ⟨hA, hB⟩ := exchangeFundingAmounts_nonneg hlib hassets ho hamounts
    exact {
      remaining := hB
      retainedA := le_rfl
      retainedB := le_rfl
      refused := by simp [newExchangeCloseItem]
      kind := Or.inr (Or.inr (Or.inr rfl))
      close := fun _ => hclose haction
      id_eq := rfl
      funds := hA
      brings := le_rfl }
  · cases h

omit hlib hassets in
theorem newExchangeDefaultItem_ok {inputA inputB} (hA : 0 ≤ inputA.toRat)
    (h : newExchangeDefaultItem c id req inputA inputB = some item) :
    NewExchangeItem deployer id item := by
  have hnew : NewExchangeItem deployer id (newExchangeItem c id .default req inputB) :=
    exchangeItem_newExchangeItem inputB
  rw [newExchangeDefaultItem] at h
  split at h
  · cases h
  cases h
  split
  · exact {
      remaining := hA
      retainedA := le_rfl
      retainedB := le_rfl
      refused := by simp [newExchangeItem]
      kind := Or.inr (Or.inl rfl)
      close := nofun
      id_eq := rfl
      funds := hA
      brings := le_rfl }
  · exact { hnew with brings := positive_nonneg inputA }

omit hassets in
theorem applyExchangeRunningData_nonneg {r} (hA : 0 ≤ amountOf r.assetAInPool)
    (hB : 0 ≤ amountOf r.assetBInPool) (hfunds : 0 ≤ amountOf item.inAmt)
    (hbrings : 0 ≤ amountOf item.outAmt) :
    0 ≤ amountOf (applyExchangeRunningData lib r item).assetAInPool ∧
      0 ≤ amountOf (applyExchangeRunningData lib r item).assetBInPool := by
  have hretainedA := addPositive_nonneg hlib hA item.retainedAssetA
  have hretainedB := addPositive_nonneg hlib hB item.retainedAssetB
  have hadd : ∀ amount : Decimal, 0 ≤ amount.toRat → 0 ≤ amountOf
      (addToPool lib (retainToPools lib r item).assetAInPool amount) := by
    intro amount hamount
    rw [amountOf_addToPool hlib]
    exact add_nonneg hretainedA hamount
  rw [applyExchangeRunningData]
  split
  · exact ⟨hretainedA, hretainedB⟩
  split
  · split
    · exact ⟨hretainedA, hretainedB⟩
    · rename_i amount hsome
      exact ⟨hadd amount (by rwa [hsome] at hfunds), hretainedB⟩
  · split
    · exact ⟨hretainedA, hretainedB⟩
    · rename_i amount hsome
      exact ⟨hadd amount (by rwa [hsome] at hbrings), hretainedB⟩
  · exact ⟨hretainedA, hretainedB⟩

omit hlib hassets in
theorem closed_applyExchangeRunningData (r) (item) :
    (applyExchangeRunningData lib r item).closed = r.closed := by
  rw [applyExchangeRunningData]
  split
  · rfl
  split
  · split <;> rfl
  · split <;> rfl
  · rfl

omit hlib hassets in
theorem ids_append {items} {next : ℤ} (hids : (items.map (·.id)).Nodup)
    (hfresh : ∀ a ∈ items, a.id < next) (hid : item.id = next) :
    ((items ++ [item]).map (·.id)).Nodup ∧ ∀ a ∈ items ++ [item], a.id < next + 1 := by
  constructor
  · rw [map_append, map_singleton, ← concat_eq_append]
    refine hids.concat fun hmem => ?_
    obtain ⟨a, ha, heq⟩ := mem_map.mp hmem
    exact (hfresh a ha).ne (heq.trans hid)
  · exact forall_mem_append.mpr ⟨fun a ha => (hfresh a ha).trans (lt_add_one next),
      forall_mem_singleton.mpr (hid ▸ lt_add_one next)⟩

omit hassets in
theorem ExchangeState.Sound.append (hs : s.Sound deployer)
    (hitem : NewExchangeItem deployer s.nextItemId item) (hopen : s.running.closed = false) :
    (appendExchangeItem lib s item).Sound deployer := by
  obtain ⟨hA, hB⟩ := applyExchangeRunningData_nonneg hlib hs.poolA hs.poolB hitem.funds hitem.brings
  obtain ⟨hids, hfresh⟩ := ids_append hs.ids hs.fresh hitem.id_eq
  refine ⟨hA, hB, forall_mem_append.mpr ⟨hs.items, forall_mem_singleton.mpr hitem.toExchangeItem⟩,
    hids, hfresh, fun hclosed => ?_⟩
  rw [appendExchangeItem, closed_applyExchangeRunningData, hopen] at hclosed
  cases hclosed

omit hlib hassets in
theorem checkLifecycle_eq_ok {closed invoker}
    (h : checkLifecycle deployer closable closed action invoker = .ok ()) :
    closed = false ∧ (action = .close → invoker = deployer) := by
  obtain ⟨_, hclosed, h⟩ := bind_eq_ok.mp h
  refine ⟨by simpa [require_eq_ok] using hclosed, fun haction => ?_⟩
  rw [if_pos haction] at h
  obtain ⟨_, -, h⟩ := bind_eq_ok.mp h
  simp only [require_eq_ok, Bool.and_eq_true, decide_eq_true_eq] at h
  exact h.2

theorem ExchangeState.Sound.applyInvoke (hs : s.Sound deployer) (ho : req.fundingOutput.Nonneg)
    (h : c.applyInvoke lib params deployer closable s req = .ok s') : s'.Sound deployer := by
  obtain ⟨_, hlife, h⟩ := bind_eq_ok.mp h
  obtain ⟨_, -, h⟩ := bind_eq_ok.mp h
  obtain ⟨item, hitem, h⟩ := bind_eq_ok.mp h
  obtain ⟨item', hnamed, h⟩ := bind_eq_ok.mp h
  cases h
  obtain ⟨hopen, hclose⟩ := checkLifecycle_eq_ok hlife
  obtain ⟨name, rfl⟩ := normalizeInvokeItemParam_eq_ok hnamed
  have hnew := newExchangeInvokeItem_ok hlib hassets ho hclose hitem
  exact hs.append hlib { hnew with } hopen

theorem ExchangeState.Sound.applyDefaultInvoke (hs : s.Sound deployer)
    (ho : req.fundingOutput.Nonneg)
    (h : c.applyDefaultInvoke lib params deployer closable s req = .ok s') : s'.Sound deployer := by
  obtain ⟨_, hlife, h⟩ := bind_eq_ok.mp h
  obtain ⟨kept, hkept, h⟩ := bind_eq_ok.mp h
  obtain ⟨amounts, hamounts, h⟩ := bind_eq_ok.mp h
  obtain ⟨hopen, -⟩ := checkLifecycle_eq_ok hlife
  obtain ⟨⟨hretainedA, hretainedB⟩, hleft⟩ := retainIf_ok hlib hassets ho hkept
  have hinput := exchangeFundingAmounts_nonneg hlib hassets hleft hamounts
  cases hitem : newExchangeDefaultItem c s.nextItemId { req with fundingOutput := kept.2 }
      amounts.1 amounts.2 with
  | none =>
    simp only [hitem, Option.elim_none] at h
    cases h
    exact hs
  | some item =>
    simp only [hitem, Option.elim_some] at h
    obtain ⟨item', hnamed, h⟩ := bind_eq_ok.mp h
    cases h
    obtain ⟨name, rfl⟩ := normalizeInvokeItemParam_eq_ok hnamed
    have hnew : NewExchangeItem deployer s.nextItemId item := newExchangeDefaultItem_ok hinput.1 hitem
    exact hs.append hlib { hnew with retainedA := hretainedA, retainedB := hretainedB } hopen

theorem ExchangeState.Sound.applyInvalidInvoke {gas} (hs : s.Sound deployer)
    (ho : req.fundingOutput.Nonneg) (h : c.applyInvalidInvoke lib s req gas = .ok s') :
    s'.Sound deployer := by
  obtain ⟨item, hitem, h⟩ := bind_eq_ok.mp h
  cases h
  obtain ⟨hid, horder, hreason, hremaining, hretainedA, hretainedB⟩ :=
    invalidInvokeItem_spec hlib hassets ho hitem
  obtain ⟨hids, hfresh⟩ := ids_append hs.ids hs.fresh hid
  refine ⟨hs.poolA, hs.poolB, forall_mem_append.mpr ⟨hs.items, forall_mem_singleton.mpr ?_⟩, hids,
    hfresh, hs.closed⟩
  exact ⟨hremaining ▸ le_rfl, hretainedA, hretainedB, by simp [horder, hreason], Or.inl horder,
    fun hclose => absurd (horder.symm.trans hclose) nofun⟩

omit hlib hassets in
theorem ExchangeState.Sound.pruneFinishedItems (hs : s.Sound deployer) :
    ExchangeState.Sound deployer s.pruneFinishedItems :=
  have hsub : (s.items.filter fun item => !item.finished).Sublist s.items := filter_sublist
  ⟨hs.poolA, hs.poolB, fun item hmem => hs.items item (hsub.subset hmem),
    hs.ids.sublist (hsub.map _), fun item hmem => hs.fresh item (hsub.subset hmem), hs.closed⟩

theorem sound_next (hrt : rt.Checked lib) {op : ExchangeOp} (hs : s.Sound rt.deployer)
    (hop : op.Sound) : (op.next lib params rt s).Sound rt.deployer := by
  rw [ExchangeOp.next]
  cases hrun : op.run lib params rt s with
  | error e => exact hs
  | ok s' =>
    show s'.Sound rt.deployer
    cases op with
    | invoke req => exact hs.applyInvoke hlib hassets hop hrun
    | defaultInvoke req => exact hs.applyDefaultInvoke hlib hassets hop hrun
    | invalidInvoke req gas => exact hs.applyInvalidInvoke hlib hassets hop hrun
    | settle height assetPrecision =>
      obtain ⟨⟨s'', plan⟩, hsettle, rfl⟩ := map_eq_ok.mp hrun
      obtain ⟨refunds, items, hpasses⟩ := settle_passes hsettle
      exact hpasses.sound hs hlib hrt.deployer
    | pruneFinishedItems =>
      cases hrun
      exact hs.pruneFinishedItems

omit hassets in
theorem sound_deployed {output running} (h : applyExchangeFunding lib c {} output = .ok running) :
    ExchangeState.Sound deployer { running := running } := by
  obtain ⟨amt, -, h⟩ := bind_eq_ok.mp h
  have hrunning := (Except.ok.inj h).symm
  have hempty : 0 ≤ amountOf none := (le_refl (0 : ℚ))
  have hpoolA : running.assetAInPool =
      addPositive lib none (some (parseDecimalOrZero lib (lib.toText amt))) := by rw [hrunning]
  have hpoolB : running.assetBInPool = none := by rw [hrunning]
  have hopen : running.closed = false := by rw [hrunning]
  exact {
    poolA := hpoolA ▸ addPositive_nonneg hlib hempty _
    poolB := hpoolB ▸ hempty
    items := forall_mem_nil _
    ids := nodup_nil
    fresh := forall_mem_nil _
    closed := fun hclosed => absurd (hopen.symm.trans hclosed) Bool.false_ne_true }

theorem sound_of_reachable (hrt : rt.Checked lib) (hs : s.Reachable lib params rt) :
    s.Sound rt.deployer := by
  induction hs with
  | deployed _ h => exact sound_deployed hlib h
  | next _ hop ih => exact sound_next hlib hassets hrt ih hop

end Laws

namespace Reference

open Wire.Reference

def exchangeParams : ParamLib where
  limitOrder _ := none
  addLiquidity _ := none
  removeLiquidity _ := none
  refund _ := none
  exchange _ := some []
  autopayConfig _ := none

def soldAsset : AssetName := ⟨['o'], ['f'], ['t']⟩

def exchangeRuntime : ExchangeRuntime where
  contract := ⟨soldAsset.text, satoshiAssetName, .height, [⟨['0'], decimalText ⟨0, 2⟩⟩]⟩
  deployer := ['d']
  closable := true

def exchangeOutput (units sats : ℤ) : ContractOutput :=
  ⟨⟨[], 0⟩, some ⟨sats, [⟨soldAsset, ⟨0, units⟩, 0⟩], []⟩⟩

def exchangeRequest (action : InvokeAction) (units sats : ℤ) : ApplyInvokeRequest where
  action := action
  invoker := ['b']
  fundingOutput := exchangeOutput units sats
  height := 1

def afterOps (ops : List ExchangeOp) : ExchangeState :=
  ops.foldl (ExchangeOp.next decimalLib exchangeParams exchangeRuntime) { running := {} }

theorem reachable_afterOps {ops} (hops : ∀ op ∈ ops, op.Sound) :
    (afterOps ops).Reachable decimalLib exchangeParams exchangeRuntime := by
  have hempty : ContractOutput.Nonneg ⟨⟨[], 0⟩, none⟩ := forall_mem_nil _
  have hstart : ExchangeState.Reachable decimalLib exchangeParams exchangeRuntime
      { running := {} } := .deployed hempty (eq_ok_of_toOption (by decide +kernel))
  rw [afterOps]
  generalize ({ running := {} } : ExchangeState) = start at hstart ⊢
  induction ops generalizing start with
  | nil => exact hstart
  | cons op ops ih =>
    obtain ⟨hop, hops⟩ := forall_mem_cons.mp hops
    exact ih hops _ (ExchangeState.Reachable.next hstart hop)

end Reference

open Reference Wire.Reference

end SatoshiNet.Template
