import SatoshiNet.Template.ParamCodec

/-!
What comes back of a template script.  Every number does; a text does unless it is one byte that the
builder pushes by an opcode, and then the empty text comes back in its place.
-/

namespace SatoshiNet.Template

open Lib Wire Contract List
open Push

def Push.bytes : Push → Script
  | .data bytes => pushOf bytes
  | .int val => pushOfInt64 val

def Push.Fits : Push → Prop
  | .data bytes => bytes.length ≤ maxScriptElementSize
  | .int _ => True

variable {lib : DecimalLib} {script : Script} {p : TemplateAutopayConfigInvokeParam}
  {pushes : List Push} {script' : Script} {steps : List TemplateExchangePriceStep}
  {v : TemplateValue}

theorem Push.add_eq_ok {push : Push} (h : push.add script = .ok script') :
    script' = script ++ push.bytes ∧ push.Fits := by
  cases push with
  | data bytes =>
    simp only [add, addData, ite_error_eq_ok, Except.ok.injEq] at h
    exact ⟨h.2.2.symm, Nat.le_of_not_lt h.2.1⟩
  | int val => exact ⟨(addInt64_eq_ok h).1, trivial⟩

theorem foldlM_add_eq_ok (h : pushes.foldlM add script = .ok script') :
    script' = script ++ pushes.flatMap bytes ∧ pushes.Forall Fits := by
  induction pushes generalizing script with
  | nil =>
    cases h
    exact ⟨(append_nil _).symm, trivial⟩
  | cons push pushes ih =>
    obtain ⟨mid, hpush, hrest⟩ := foldlM_cons_eq_ok.mp h
    obtain ⟨rfl, hfits⟩ := add_eq_ok hpush
    obtain ⟨rfl, hall⟩ := ih hrest
    refine ⟨?_, (forall_cons _ _ _).mpr ⟨hfits, hall⟩⟩
    rw [flatMap_cons, append_assoc]

theorem buildScript_eq_ok (h : buildScript pushes = .ok script) :
    script = pushes.flatMap bytes ∧ pushes.Forall Fits :=
  foldlM_add_eq_ok (mapError_eq_ok.mp h)

theorem run_nextField {field} {token} (h : nextToken script = some token) :
    nextField field script = .ok (token, token.rest) := by
  rw [nextField, h]

theorem reads_text {bytes} (h : (data bytes).Fits) (field) :
    Reads (readText field) (data bytes).bytes (pushedData bytes) := by
  obtain ⟨opcode, htoken⟩ := nextToken_pushOf h
  intro rest
  rw [readText, Reader.run_bind]
  exact ⟨_, _, run_nextField (htoken rest), Reader.run_pure.mpr ⟨rfl, rfl⟩⟩

theorem reads_number {n : ℤ} (hlow : 0 ≤ n) (hhigh : n < 2 ^ 63) (field) :
    Reads (readNumber field) (int n).bytes n := by
  intro rest
  obtain ⟨opcode, data, htoken, hlen, hread, -⟩ := nextToken_pushOfInt64 hlow hhigh rest
  simp only [readNumber, Reader.run_bind, Reader.run_check, Reader.run_pure, decide_eq_true_eq]
  exact ⟨_, _, run_nextField htoken, (), _, ⟨hlen, rfl⟩, hread.symm, rfl⟩

section

variable {α β : Type} {r : Reader ParamError α} {a : α}

theorem decodeFields_run (h : r script = .ok (a, [])) : decodeFields r script = .ok a := by
  simp only [decodeFields, h]
  rfl

theorem decodeFields_eq_ok (h : Reads r script a) : decodeFields r script = .ok a :=
  decodeFields_run h.run_eq

theorem decodes_run (h : r script = .ok (a, [])) {f : α → β} :
    f <$> decodeFields r script = .ok (f a) := by
  rw [decodeFields_run h]
  rfl

theorem decodes (h : Reads r script a) {f : α → β} : f <$> decodeFields r script = .ok (f a) :=
  decodes_run h.run_eq

end

theorem length_of_newAssetNameFromString {text} {name} (h : newAssetNameFromString text = some name) :
    2 ≤ text.length := by
  have hsplit : [':'].intercalate (text.splitOn ':') = text := intercalate_splitOn ':'
  rw [newAssetNameFromString] at h
  split at h
  · rename_i protocol type ticker hparts
    rw [hparts] at hsplit
    rw [← hsplit]
    simp [intercalate, intersperse]
    omega
  · cases h

theorem length_of_checkTemplateAssetName {bytes}
    (h : checkTemplateAssetName (goString bytes) = .ok ()) : 2 ≤ bytes.length := by
  simp only [checkTemplateAssetName, bind_eq_ok, orError_eq_ok] at h
  obtain ⟨name, hname, -⟩ := h
  have hlen := length_of_newAssetNameFromString hname
  rwa [goString, length_map] at hlen

theorem not_smallPush_of_two_le {data} (h : 2 ≤ data.length) : ¬ SmallPush data := by
  rintro ⟨hone, -⟩
  omega

theorem two_le_length_pushOf {data} (h : 2 ≤ data.length) : 2 ≤ (pushOf data).length := by
  have hne : ∀ {p : Prop}, ¬ (data.length = 1 ∧ p) := by
    rintro p ⟨hone, -⟩
    omega
  rw [pushOf, if_neg (not_or.mpr ⟨by omega, hne⟩), if_neg hne, if_neg hne]
  split_ifs <;> simp only [length_cons, length_append] <;> omega

/-! ### Contents and parameters -/

def TemplateExchangePriceStep.pushed (step : TemplateExchangePriceStep) : TemplateExchangePriceStep :=
  ⟨pushedData step.threshold, pushedData step.bPerA⟩

inductive TemplateValue
  | limitOrderContent (c : TemplateLimitOrderContract)
  | ammContent (c : TemplateAMMContract)
  | exchangeContent (c : TemplateExchangeContract)
  | autopayContent (c : TemplateAutopayContract)
  | limitOrderSwap (p : TemplateLimitOrderInvokeParam)
  | ammSwap (p : TemplateLimitOrderInvokeParam)
  | addLiquidity (p : TemplateAddLiquidityInvokeParam)
  | removeLiquidity (p : TemplateRemoveLiquidityInvokeParam)
  | refund (p : TemplateRefundInvokeParam)
  | exchange (p : TemplateExchangeInvokeParam)
  | autopayConfig (c : AutopayContract) (action : InvokeAction) (p : TemplateAutopayConfigInvokeParam)
  | close
deriving DecidableEq

namespace TemplateValue

def check (lib : DecimalLib) : TemplateValue → TemplateM Unit
  | limitOrderContent c => c.check
  | ammContent c => c.check lib
  | exchangeContent c => c.check lib
  | autopayContent c => c.check lib
  | limitOrderSwap p => p.check lib
  | ammSwap p => p.checkAMMSwap lib
  | addLiquidity p => p.check lib
  | removeLiquidity p => p.check lib
  | refund _ => .ok ()
  | exchange p => p.check lib
  | autopayConfig c action p => p.check lib c action
  | close => .ok ()

def encode (lib : DecimalLib) : TemplateValue → EncodeM Script
  | limitOrderContent c => c.encode
  | ammContent c => c.encode
  | exchangeContent c => c.encode
  | autopayContent c => c.encode lib
  | limitOrderSwap p => p.encode
  | ammSwap p => p.encode
  | addLiquidity p => p.encode
  | removeLiquidity p => p.encode
  | refund p => p.encode
  | exchange p => p.encode
  | autopayConfig _ _ p => p.encode
  | close => TemplateCloseInvokeParam.encode

def decodeAs : TemplateValue → Script → ParamM TemplateValue
  | limitOrderContent _, script => limitOrderContent <$> TemplateLimitOrderContract.decode script
  | ammContent _, script => ammContent <$> TemplateAMMContract.decode script
  | exchangeContent _, script => exchangeContent <$> TemplateExchangeContract.decode script
  | autopayContent _, script => autopayContent <$> TemplateAutopayContract.decode script
  | limitOrderSwap _, script => limitOrderSwap <$> TemplateLimitOrderInvokeParam.decode script
  | ammSwap _, script => ammSwap <$> TemplateLimitOrderInvokeParam.decode script
  | addLiquidity _, script => addLiquidity <$> TemplateAddLiquidityInvokeParam.decode script
  | removeLiquidity _, script => removeLiquidity <$> TemplateRemoveLiquidityInvokeParam.decode script
  | refund _, script => refund <$> TemplateRefundInvokeParam.decode script
  | exchange _, script => exchange <$> TemplateExchangeInvokeParam.decode script
  | autopayConfig c action _, script =>
    autopayConfig c action <$> TemplateAutopayConfigInvokeParam.decode script
  | close, script => (fun _ => close) <$> TemplateCloseInvokeParam.decode script

def texts : TemplateValue → List Bytes
  | limitOrderContent c => [c.assetName]
  | ammContent c => [c.assetName, c.assetAmt, c.k]
  | exchangeContent c =>
    [c.assetAName, c.assetBName, c.priceMode] ++ c.steps.flatMap fun step => [step.threshold, step.bPerA]
  | autopayContent c => [c.serviceName, c.recipient, c.feeAssetName, c.minAmountPerBlock]
  | limitOrderSwap p => [p.assetName, p.amt, p.unitPrice]
  | ammSwap p => [p.assetName, p.amt, p.unitPrice]
  | addLiquidity p => [p.assetName, p.amt]
  | removeLiquidity p => [p.assetName, p.lptAmt]
  | refund _ => []
  | exchange p => [p.minOutA]
  | autopayConfig _ _ p => [p.amountPerBlock, p.gasFundingAmount]
  | close => []

def pushed : TemplateValue → TemplateValue
  | limitOrderContent c => limitOrderContent ⟨pushedData c.assetName⟩
  | ammContent c =>
    ammContent ⟨pushedData c.assetName, pushedData c.assetAmt, c.satValue, pushedData c.k⟩
  | exchangeContent c => exchangeContent ⟨pushedData c.assetAName, pushedData c.assetBName,
      pushedData c.priceMode, c.steps.map (·.pushed)⟩
  | autopayContent c => autopayContent ⟨pushedData c.serviceName, pushedData c.recipient,
      pushedData c.feeAssetName, pushedData c.minAmountPerBlock⟩
  | limitOrderSwap p =>
    limitOrderSwap ⟨p.orderType, pushedData p.assetName, pushedData p.amt, pushedData p.unitPrice⟩
  | ammSwap p => ammSwap ⟨p.orderType, pushedData p.assetName, pushedData p.amt, pushedData p.unitPrice⟩
  | addLiquidity p => addLiquidity ⟨p.orderType, pushedData p.assetName, pushedData p.amt, p.value⟩
  | removeLiquidity p => removeLiquidity ⟨p.orderType, pushedData p.assetName, pushedData p.lptAmt⟩
  | refund p => refund p
  | exchange p => exchange ⟨pushedData p.minOutA⟩
  | autopayConfig c action p =>
    autopayConfig c action ⟨pushedData p.amountPerBlock, p.blobKeyLimit, pushedData p.gasFundingAmount⟩
  | close => close

theorem limitOrderContent_decode {c : TemplateLimitOrderContract} (h : c.encode = .ok script) :
    TemplateLimitOrderContract.decode script = .ok ⟨pushedData c.assetName⟩ := by
  obtain ⟨rfl, hname⟩ := buildScript_eq_ok h
  exact decodeFields_eq_ok ((reads_text hname _).bind (Reads.pure _))

theorem ammContent_decode {c : TemplateAMMContract} (hname : 2 ≤ c.assetName.length)
    (hvalue : 0 ≤ c.satValue.toInt) (h : c.encode = .ok script) :
    (ammContent c).decodeAs script = .ok (ammContent c).pushed := by
  simp only [TemplateAMMContract.encode, bind_eq_ok] at h
  obtain ⟨base, hbase, h⟩ := h
  have hinner := limitOrderContent_decode hbase
  obtain ⟨hbytes, -⟩ := buildScript_eq_ok hbase
  have hlen : 2 ≤ base.length := by
    rw [hbytes, flatMap_singleton]
    exact two_le_length_pushOf hname
  have hkept : pushedData base = base := pushedData_eq_self.mpr (not_smallPush_of_two_le hlen)
  obtain ⟨rfl, hcontent, hamt, -, hk⟩ := buildScript_eq_ok h
  refine decodes ((reads_text hcontent _).bind ?_)
  rw [hkept]
  refine Reads.ofResult_bind hinner ((reads_text hamt _).bind
    ((reads_number hvalue c.satValue.toInt_lt _).bind ((reads_text hk _).bind ?_)))
  rw [Int64.ofInt_toInt]
  exact Reads.pure _

theorem foldl_append_pushed (steps before : List TemplateExchangePriceStep) :
    steps.foldl (fun l step => l ++ [step.pushed]) before = before ++ steps.map (·.pushed) := by
  induction steps generalizing before with
  | nil => exact (append_nil _).symm
  | cons step steps ih => rw [foldl_cons, ih, map_cons, append_assoc, singleton_append]

theorem reads_priceSteps (h : ∀ step ∈ steps, (data step.threshold).Fits ∧ (data step.bPerA).Fits) :
    Reads (Reader.iterate readPriceStep 0 steps.length [])
      (steps.flatMap fun step => (data step.threshold).bytes ++ ((data step.bPerA).bytes ++ []))
      (steps.map (·.pushed)) := by
  have hfold := foldl_append_pushed steps []
  rw [nil_append] at hfold
  rw [← hfold]
  refine Reads.iterate (fun l (step : TemplateExchangePriceStep) => l ++ [step.pushed]) 0
    fun before step after hsteps => ?_
  obtain ⟨hthreshold, hprice⟩ := h step (hsteps ▸ mem_append_right _ mem_cons_self)
  rw [foldl_append, foldl_cons, foldl_nil]
  exact (reads_text hthreshold _).bind ((reads_text hprice _).bind (Reads.pure _))

theorem exchangeContent_decode {c} (hcount : c.steps.length ≤ maxExchangePriceSteps)
    (h : c.encode = .ok script) :
    (exchangeContent c).decodeAs script = .ok (exchangeContent c).pushed := by
  obtain ⟨rfl, hfits⟩ := buildScript_eq_ok h
  obtain ⟨⟨hassetA, hassetB, hmode, -⟩, hsteps⟩ := forall_append.mp hfits
  simp only [forall_iff_forall_mem, forall_mem_flatMap, forall_mem_cons] at hsteps
  have hint : (c.steps.length : ℤ) < 2 ^ 63 := by
    unfold maxExchangePriceSteps at hcount
    omega
  have hcheck : (decide (0 ≤ (c.steps.length : ℤ)) &&
      decide ((c.steps.length : ℤ) ≤ maxExchangePriceSteps)) = true := by
    simp [hcount]
  have hbytes : (c.steps.flatMap fun step => [data step.threshold, data step.bPerA]).flatMap
      bytes =
      c.steps.flatMap fun step => (data step.threshold).bytes ++ ((data step.bPerA).bytes ++ []) := by
    rw [flatMap_assoc]
    rfl
  simp only [flatMap_append, hbytes, flatMap_cons, flatMap_nil, append_assoc, nil_append]
  refine decodes ((reads_text hassetA _).bind ((reads_text hassetB _).bind
    ((reads_text hmode _).bind ((reads_number (Int.natCast_nonneg _) hint _).bind
      (Reads.check_bind hcheck ?_)))))
  rw [Int.toNat_natCast]
  exact (reads_priceSteps fun step hstep => ⟨(hsteps step hstep).1, (hsteps step hstep).2.1⟩).map

theorem autopayContent_decode {c} (h : c.encode lib = .ok script) :
    (autopayContent c).decodeAs script = .ok (autopayContent c).pushed := by
  simp only [TemplateAutopayContract.encode, bind_eq_ok] at h
  obtain ⟨-, -, h⟩ := h
  obtain ⟨rfl, hservice, hrecipient, hasset, hamount⟩ := buildScript_eq_ok h
  refine decodes ((reads_text hservice _).bind ((reads_text hrecipient _).bind
    ((reads_text hasset _).bind ((reads_text hamount _).bind ?_))))
  exact Reads.pure _

theorem limitOrderParam_decode {p : TemplateLimitOrderInvokeParam}
    (horder : 0 ≤ p.orderType.toInt) (h : p.encode = .ok script) :
    TemplateLimitOrderInvokeParam.decode script =
      .ok ⟨p.orderType, pushedData p.assetName, pushedData p.amt, pushedData p.unitPrice⟩ := by
  obtain ⟨rfl, -, hname, hamt, hprice⟩ := buildScript_eq_ok h
  refine decodeFields_eq_ok ((reads_number horder p.orderType.toInt_lt _).bind
    ((reads_text hname _).bind ((reads_text hamt _).bind ((reads_text hprice _).bind ?_))))
  rw [Int64.ofInt_toInt]
  exact Reads.pure _

theorem addLiquidity_decode {p} (horder : 0 ≤ p.orderType.toInt) (hvalue : 0 ≤ p.value.toInt)
    (h : p.encode = .ok script) :
    (addLiquidity p).decodeAs script = .ok (addLiquidity p).pushed := by
  obtain ⟨rfl, -, hname, hamt, -⟩ := buildScript_eq_ok h
  refine decodes ((reads_number horder p.orderType.toInt_lt _).bind
    ((reads_text hname _).bind ((reads_text hamt _).bind
      ((reads_number hvalue p.value.toInt_lt _).bind ?_))))
  rw [Int64.ofInt_toInt, Int64.ofInt_toInt]
  exact Reads.pure _

theorem removeLiquidity_decode {p} (horder : 0 ≤ p.orderType.toInt) (h : p.encode = .ok script) :
    (removeLiquidity p).decodeAs script = .ok (removeLiquidity p).pushed := by
  obtain ⟨rfl, -, hname, hamt⟩ := buildScript_eq_ok h
  refine decodes ((reads_number horder p.orderType.toInt_lt _).bind
    ((reads_text hname _).bind ((reads_text hamt _).bind ?_)))
  rw [Int64.ofInt_toInt]
  exact Reads.pure _

theorem pushOf_ne_nil (data) : pushOf data ≠ [] := by
  rw [pushOf]
  split_ifs <;> exact cons_ne_nil _ _

theorem exchange_decode {p} (h : p.encode = .ok script) :
    (exchange p).decodeAs script = .ok (exchange p).pushed := by
  rw [TemplateExchangeInvokeParam.encode] at h
  split_ifs at h with hnil
  · cases h
    rw [pushed, hnil]
    rfl
  obtain ⟨rfl, hmin⟩ := buildScript_eq_ok h
  have hne : [data p.minOutA].flatMap bytes ≠ [] := by
    rw [flatMap_singleton]
    exact pushOf_ne_nil _
  rw [decodeAs, TemplateExchangeInvokeParam.decode, if_neg hne]
  refine decodes ((reads_text hmin _).bind ?_)
  exact Reads.pure _

theorem readGasFunding_eq_ok {gas : Bytes} (h : gas ≠ [] → (data gas).Fits) :
    readGasFunding ((if gas = [] then [] else [data gas]).flatMap bytes) =
      .ok (pushedData gas, []) := by
  by_cases hgas : gas = []
  · subst hgas
    rfl
  · obtain ⟨opcode, htoken⟩ := nextToken_pushOf (h hgas)
    have htoken' := htoken []
    rw [append_nil] at htoken'
    rw [if_neg hgas, flatMap_singleton, bytes, readGasFunding, if_neg (pushOf_ne_nil gas), htoken']

theorem autopayConfig_decode (hlimit : p.blobKeyLimit.toNat ≤ 1024) (h : p.encode = .ok script) :
    (autopayConfig c action p).decodeAs script = .ok (autopayConfig c action p).pushed := by
  obtain ⟨rfl, hfits⟩ := buildScript_eq_ok h
  obtain ⟨⟨hamount, -⟩, hgas⟩ := forall_append.mp hfits
  have hgas' : p.gasFundingAmount ≠ [] → (data p.gasFundingAmount).Fits := by
    intro hne
    rw [if_neg hne] at hgas
    exact hgas
  have hcheck : (decide (0 ≤ (p.blobKeyLimit.toNat : ℤ)) &&
      decide ((p.blobKeyLimit.toNat : ℤ) ≤ 1024)) = true := by
    simp only [Bool.and_eq_true, decide_eq_true_eq]
    omega
  simp only [flatMap_append, flatMap_cons, flatMap_nil, append_assoc, nil_append]
  refine decodes_run (Reader.run_bind.mpr ⟨_, _, reads_text hamount _ _, ?_⟩)
  refine Reader.run_bind.mpr ⟨_, _, reads_number (Int.natCast_nonneg _) (by omega) _ _, ?_⟩
  refine Reader.run_bind.mpr ⟨(), _, Reader.run_check.mpr ⟨hcheck, rfl⟩, ?_⟩
  refine Reader.run_bind.mpr ⟨_, _, readGasFunding_eq_ok hgas', Reader.run_pure.mpr ⟨?_, rfl⟩⟩
  rw [Int.toNat_natCast, UInt32.ofNat_toNat]

theorem refundItemIDs_eq_ok {ids} (hids : ∀ id ∈ ids, 0 ≤ id.toInt) {steps : ℕ}
    (hsteps : ids.length ≤ steps) :
    refundItemIDs steps ((ids.map fun id => int id.toInt).flatMap bytes) = .ok ids := by
  induction ids generalizing steps with
  | nil => cases steps <;> rfl
  | cons id ids ih =>
    obtain ⟨hid, hids⟩ := forall_mem_cons.mp hids
    cases steps with
    | zero => cases hsteps
    | succ steps =>
      have hrest := ih hids (Nat.le_of_succ_le_succ hsteps)
      rw [map_cons, flatMap_cons]
      generalize (ids.map fun id => int id.toInt).flatMap bytes = rest at hrest ⊢
      obtain ⟨opcode, data, htoken, hlen, hread, hopcode⟩ := nextToken_pushOfInt64 hid id.toInt_lt rest
      have hne : (int id.toInt).bytes ++ rest ≠ [] := by
        intro hnil
        rw [bytes] at hnil
        rw [hnil] at htoken
        cases htoken
      have hpush : (opcode ≤ 0x4e || opcode = 0x4f || (0x51 ≤ opcode && opcode ≤ 0x60)) = true := by
        rcases hopcode with hle | hsmall
        · simp [hle]
        · simp [hsmall]
      have hitem : refundItemID ⟨opcode, data, rest⟩ = .ok id := by
        simp only [refundItemID, hpush, hread, hlen, hid, decide_true, require, if_true, Int64.ofInt_toInt]
        rfl
      rw [refundItemIDs, if_neg hne]
      simp only [bytes, htoken, hitem, hrest]
      rfl

theorem refund_decode {p} (h : p.encode = .ok script) :
    (refund p).decodeAs script = .ok (refund p) := by
  simp only [TemplateRefundInvokeParam.encode, bind_eq_ok, require_eq_ok] at h
  obtain ⟨-, hids, h⟩ := h
  have hids' : ∀ id ∈ p.itemIDs, 0 ≤ id.toInt := by simpa using hids
  obtain ⟨rfl, -⟩ := buildScript_eq_ok h
  have hpos : ∀ push ∈ p.itemIDs.map fun id => int id.toInt, 1 ≤ push.bytes.length := by
    intro push hpush
    obtain ⟨id, hid, rfl⟩ := mem_map.mp hpush
    obtain ⟨opcode, data, htoken, -⟩ := nextToken_pushOfInt64 (hids' id hid) id.toInt_lt []
    refine length_pos_of_ne_nil fun hnil => ?_
    rw [bytes] at hnil
    rw [hnil] at htoken
    cases htoken
  have hlen := length_mul_le_flatMap hpos
  rw [length_map, Nat.mul_one] at hlen
  rw [decodeAs, TemplateRefundInvokeParam.decode, refundItemIDs_eq_ok hids' hlen]
  rfl

theorem map_pushed_eq_self : steps.map (·.pushed) = steps ↔
      ∀ text ∈ steps.flatMap fun step => [step.threshold, step.bPerA], pushedData text = text := by
  induction steps with
  | nil => simp
  | cons step steps ih =>
    have hstep : step.pushed = step ↔
        ∀ text ∈ [step.threshold, step.bPerA], pushedData text = text := by
      simp [TemplateExchangePriceStep.ext_iff, TemplateExchangePriceStep.pushed]
    rw [map_cons, cons.injEq, hstep, ih, flatMap_cons, forall_mem_append]

theorem pushed_eq_self : v.pushed = v ↔ ∀ text ∈ v.texts, ¬ SmallPush text := by
  simp only [← pushedData_eq_self]
  cases v with
  | exchangeContent c =>
    rw [texts, forall_mem_append, ← map_pushed_eq_self]
    simp [pushed, TemplateExchangeContract.ext_iff, and_assoc]
  | _ => simp [pushed, texts, TemplateLimitOrderContract.ext_iff, TemplateAMMContract.ext_iff,
      TemplateAutopayContract.ext_iff, TemplateLimitOrderInvokeParam.ext_iff,
      TemplateAddLiquidityInvokeParam.ext_iff, TemplateRemoveLiquidityInvokeParam.ext_iff,
      TemplateExchangeInvokeParam.ext_iff, TemplateAutopayConfigInvokeParam.ext_iff]

theorem orderType_nonneg {orderType} (h : orderType = orderTypeBuy ∨ orderType = orderTypeSell) :
    0 ≤ orderType.toInt := by
  rcases h with rfl | rfl <;> decide

theorem blobKeyLimit_le_of_check {c action} (h : p.check lib c action = .ok ()) :
    p.blobKeyLimit.toNat ≤ 1024 := by
  simp only [TemplateAutopayConfigInvokeParam.check, bind_eq_ok, require_eq_ok] at h
  obtain ⟨-, -, gas, -, -, -, h⟩ := h
  split at h
  · have hzero := of_decide_eq_true (require_eq_ok.mp h)
    rw [hzero]
    decide
  · simp only [bind_eq_ok, require_eq_ok, decide_eq_true_eq] at h
    obtain ⟨amount, -, -, -, -, -, -, hlimit, -⟩ := h
    exact hlimit

theorem decodeAs_encode (hcheck : v.check lib = .ok ())
    (h : v.encode lib = .ok script) : v.decodeAs script = .ok v.pushed := by
  cases v with
  | limitOrderContent c => rw [decodeAs, limitOrderContent_decode h]; rfl
  | ammContent c =>
    simp only [check, TemplateAMMContract.check, bind_eq_ok, require_eq_ok, decide_eq_true_eq] at hcheck
    obtain ⟨_, hname, _, hvalue, _⟩ := hcheck
    exact ammContent_decode (length_of_checkTemplateAssetName hname) hvalue.le h
  | exchangeContent c =>
    simp only [check, TemplateExchangeContract.check, bind_eq_ok, require_eq_ok, Bool.and_eq_true,
      decide_eq_true_eq] at hcheck
    obtain ⟨-, -, -, -, -, -, -, -, -, -, -, hcount, -⟩ := hcheck
    exact exchangeContent_decode hcount.2 h
  | autopayContent c => exact autopayContent_decode h
  | limitOrderSwap p =>
    simp only [check, TemplateLimitOrderInvokeParam.check, bind_eq_ok, require_eq_ok, Bool.or_eq_true,
      decide_eq_true_eq] at hcheck
    obtain ⟨-, horder, -⟩ := hcheck
    rw [decodeAs, limitOrderParam_decode (orderType_nonneg horder) h]
    rfl
  | ammSwap p =>
    simp only [check, TemplateLimitOrderInvokeParam.checkAMMSwap, bind_eq_ok, require_eq_ok,
      Bool.or_eq_true, decide_eq_true_eq] at hcheck
    obtain ⟨-, horder, -⟩ := hcheck
    rw [decodeAs, limitOrderParam_decode (orderType_nonneg horder) h]
    rfl
  | addLiquidity p =>
    simp only [check, TemplateAddLiquidityInvokeParam.check, bind_eq_ok, require_eq_ok,
      decide_eq_true_eq] at hcheck
    obtain ⟨-, horder, -, -, -, -, hvalue⟩ := hcheck
    exact addLiquidity_decode (by rw [horder]; decide) hvalue.le h
  | removeLiquidity p =>
    simp only [check, TemplateRemoveLiquidityInvokeParam.check, bind_eq_ok, require_eq_ok,
      decide_eq_true_eq] at hcheck
    obtain ⟨-, horder, -⟩ := hcheck
    exact removeLiquidity_decode (by rw [horder]; decide) h
  | refund p => exact refund_decode h
  | exchange p => exact exchange_decode h
  | autopayConfig c action p => exact autopayConfig_decode (blobKeyLimit_le_of_check hcheck) h
  | close =>
    cases h
    rfl

end TemplateValue

/-- The script of a checked content or parameter is read back as the same value exactly when none of
its texts is a single byte that the builder pushes by an opcode. -/
theorem template_script_roundtrip_iff {lib : DecimalLib} {v : TemplateValue} {script : Script}
    (hcheck : v.check lib = .ok ()) (h : v.encode lib = .ok script) :
    v.decodeAs script = .ok v ↔ ∀ text ∈ v.texts, ¬ SmallPush text := by
  rw [TemplateValue.decodeAs_encode hcheck h, Except.ok.injEq, TemplateValue.pushed_eq_self]

namespace Reference

open Wire.Reference

def wholeLib : DecimalLib :=
  { decimalLib with
    newDecimalFromString := fun text _ =>
      if text ≠ [] ∧ text.all Char.isDigit then some ⟨0, Nat.ofDigitChars 10 text 0⟩ else none
    newPrecision := fun d _ => d
    cmp := fun d e => compare d.value e.value }

def swapValue : TemplateValue := .limitOrderSwap ⟨orderTypeSell, [111, 58, 102, 58, 120], [53], []⟩

theorem swapValue_roundtrip : ∃ script, swapValue.encode wholeLib = .ok script ∧
    swapValue.decodeAs script = .ok swapValue := by
  have hcheck : swapValue.check wholeLib = .ok () := by decide
  obtain ⟨script, hencode⟩ := exists_of_isOk (by decide : (swapValue.encode wholeLib).isOk = true)
  exact ⟨script, hencode, (template_script_roundtrip_iff hcheck hencode).mpr (by decide)⟩

def autopayValue (recipient : Bytes) : TemplateValue :=
  .autopayContent ⟨[100, 107, 118, 115], recipient, [58, 58], [53]⟩

/-- A recipient of one byte is pushed by an opcode and comes back empty. -/
theorem one_byte_recipient_is_lost : (autopayValue [5]).check wholeLib = .ok () ∧
    ∃ script, (autopayValue [5]).encode wholeLib = .ok script ∧
      (autopayValue [5]).decodeAs script = .ok (autopayValue []) ∧
      autopayValue [] ≠ autopayValue [5] := by
  have hcheck : (autopayValue [5]).check wholeLib = .ok () := by decide
  obtain ⟨script, hencode⟩ := exists_of_isOk (by decide : ((autopayValue [5]).encode wholeLib).isOk = true)
  exact ⟨hcheck, script, hencode, TemplateValue.decodeAs_encode hcheck hencode, by decide⟩

end Reference

end SatoshiNet.Template
