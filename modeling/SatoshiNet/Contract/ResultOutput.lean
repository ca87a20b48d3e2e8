import SatoshiNet.Contract.ManagedBalance

/-!
The outputs of a Result: precision, binding of the carrier satoshis, sums, and the merging of
outputs to one recipient.
Merging keeps what every recipient gets, labelled outputs as they are and in order, and leaves no
output with fewer satoshis than its assets need.
-/

namespace SatoshiNet.Contract

open Lib Wire List

section

structure OutPoint where
  txID : Text
  vout : UInt32
deriving DecidableEq

structure ResultOutput where
  recipient : Text
  value : ℤ := 0
  assetName : Text := []
  assetAmt : Text := []
  reason : Text := []
  assets : TxAssets := []
  extraData : Bytes := []
deriving DecidableEq

inductive ResultError
  | managed (e : ManagedError)
  | mixedContractFunding | duplicateInput
  | missingCallFunding (input : OutPoint)
  | missingRefundFunding (input : OutPoint)
  | uncovered (e : ManagedError)
  | negativeSatoshiFee | insufficientPlainSats | negativeResultFee | unsettledCallFunding
  | missingBootstrap | missingProfitRecipient
  | profitCarrier (need available : ℤ)
  | invalidAsset
  | invalidAssetName (name : Text)
  | invalidAmount | fractionalAmount | amountOverflow | outputNegative | outputOverflow
  | feeOverflow | carrierOverflow | compactOverflow
  | compactAsset (name : Text)
  | outputsExceedSats (spent available : ℤ)
  | outputsExceedAssets | insufficientGas | mergeAssets
  | assetNotAvailable (name : Text)
  | bindingMismatch
  | inputNotAvailable (input : OutPoint)
  | contractAddress | negativeGas | insufficientFunds | selectAssets
deriving DecidableEq

abbrev ResultM := Except ResultError

abbrev Outputs := List ResultOutput

def addInt64 (a b : ℤ) : Option ℤ :=
  if (0 < b ∧ maxInt64 - b < a) ∨ (b < 0 ∧ a < minInt64 - b) then none else some (a + b)

theorem eq_of_addInt64 {a b c : ℤ} (h : addInt64 a b = some c) : c = a + b := by
  rw [addInt64] at h
  split at h
  · cases h
  · exact (Option.some.inj h).symm

namespace ResultOutput

def worth (o : ResultOutput) : Wealth := (o.value, holdings o.assets)

def isZero (o : ResultOutput) : Bool := o.value = 0 && o.assets.isEmpty

theorem worth_of_isZero {o : ResultOutput} (h : o.isZero = true) : o.worth = 0 := by
  obtain ⟨hvalue, hassets⟩ := Bool.and_eq_true_iff.mp h
  rw [worth, of_decide_eq_true hvalue, isEmpty_iff.mp hassets]
  rfl

end ResultOutput

variable (p : Text → Bool) (outputs l l' : Outputs)

def paid : Wealth :=
  ((outputs.filter fun o => p o.recipient).map ResultOutput.worth).sum

abbrev paidTo (recipient : Text) : Outputs → Wealth := paid (· = recipient)

abbrev paidAll : Wealth := paid (fun _ => true) outputs

@[simp] theorem paid_nil : paid p [] = 0 := rfl

theorem paid_cons (o outputs) :
    paid p (o :: outputs) = (if p o.recipient then o.worth else 0) + paid p outputs := by
  rw [paid, filter_cons]
  split
  · rw [map_cons, sum_cons]
    rfl
  · rw [zero_add]
    rfl

theorem paidAll_cons (o outputs) : paidAll (o :: outputs) = o.worth + paidAll outputs := by
  rw [paidAll, paid_cons, if_pos rfl]

theorem paid_append : paid p (l ++ l') = paid p l + paid p l' := by
  rw [paid, filter_append, map_append, sum_append]
  rfl

theorem paidAll_append : paidAll (l ++ l') = paidAll l + paidAll l' := paid_append _ l l'

variable {assets available : TxAssets} {out outputs : Outputs} {output : ResultOutput} {value : ℤ}

theorem paid_eq_zero {p} (h : ∀ o ∈ outputs, p o.recipient = false) : paid p outputs = 0 := by
  have hnil : (outputs.filter fun o => p o.recipient) = [] :=
    filter_eq_nil_iff.mpr fun o ho => by simp [h o ho]
  rw [paid, hnil]
  rfl

theorem paidAll_eq (outputs) : paidAll outputs = (outputs.map ResultOutput.worth).sum := by
  rw [paidAll, paid, filter_true]

variable (lib : AmountLib) (available assets : TxAssets) (outputs : Outputs) (output : ResultOutput)

def validateAssetDecimal (amount : Decimal) : Bool :=
  lib.validate amount && decide (0 ≤ amount.sign)

def decimalToInt64 (amount : Decimal) : ResultM ℤ := do
  require (validateAssetDecimal lib amount) .invalidAmount
  require (amount.precision = 0) .fractionalAmount
  require (minInt64 ≤ amount.value && amount.value ≤ maxInt64) .amountOverflow
  .ok amount.value

def resultAssetCarrierSats : ResultM ℤ :=
  let total := ManagedBalance.carrierTotal lib assets
  if total < minInt64 ∨ maxInt64 < total then .error .carrierOverflow else .ok total

/-! ### Precision -/

def normalizeResultOutput : ResultOutput :=
  { output with assets := normalizeTxAssets lib output.assets }

def namedAmount (assetName assetAmt : Text) : Text :=
  if assetName = [] ∨ assetName = satoshiAssetName then assetAmt
  else match newAssetNameFromString assetName with
    | none => assetAmt
    | some name =>
      match lib.find assets name with
      | some asset => if 0 < asset.amount.sign then lib.toText asset.amount else []
      | none => []

def normalizeResultOutputPrecision (policy : AssetPrecisionPolicy) : ResultOutput :=
  let normalized := normalizeResultOutput lib output
  if policy.enabled = false then normalized
  else
    let assets := normalizeAssetSetPrecision lib normalized.assets policy
    { normalized with
      assets := assets
      assetAmt := namedAmount lib assets normalized.assetName normalized.assetAmt }

def normalizeResultOutputsPrecision (policy : AssetPrecisionPolicy) : Outputs :=
  (outputs.map fun o => normalizeResultOutputPrecision lib o policy).filter fun o => !o.isZero

def removeContractRetainOutputs (contract : Text) : Outputs :=
  if contract = [] then outputs else outputs.filter fun o => o.recipient ≠ contract

/-! ### Binding -/

/-- The binding of an asset in the available list; a later entry replaces an earlier one. -/
def bindingOf (name : AssetName) : Option ℕ :=
  (available.reverse.find? fun a => a.name = name).map (·.bindingSat)

/-- Business intents name plain satoshis; the satoshis that carry the asset are added here. -/
def bindAsset (value : ℤ) (asset : AssetInfo) : ResultM (ℤ × AssetInfo) := do
  let binding ← orError (bindingOf available asset.name) (.assetNotAvailable asset.name.text)
  if asset.bindingSat ≠ 0 then
    if asset.bindingSat ≠ binding then .error .bindingMismatch else .ok (value, asset)
  else
    let bound := { asset with bindingSat := binding }
    let carrier ← resultAssetCarrierSats lib [bound]
    let value ← orError (addInt64 value carrier) .carrierOverflow
    .ok (value, bound)

def bindAssets : ℤ → TxAssets → ResultM (ℤ × TxAssets)
  | value, [] => .ok (value, [])
  | value, asset :: rest => do
    let bound ← bindAsset lib available value asset
    let done ← bindAssets bound.1 rest
    .ok (done.1, bound.2 :: done.2)

def bindResultOutput : ResultM ResultOutput := do
  let bound ← bindAssets lib available output.value output.assets
  .ok { output with value := bound.1, assets := bound.2 }

def bindResultOutputs (outputs : Outputs) (available : TxAssets) : ResultM Outputs :=
  outputs.mapM (bindResultOutput lib available)

/-! ### Sums -/

def addOutputValue (value : ℤ) (output : ResultOutput) : ResultM ℤ :=
  if output.value < 0 then .error .outputNegative
  else orError (addInt64 value output.value) .outputOverflow

def resultOutputsValue : ResultM ℤ :=
  outputs.foldlM addOutputValue 0

def addOutputAssets : ResultM TxAssets :=
  if output.assets = [] then .ok assets
  else (lib.merge assets output.assets).mapError fun _ => .mergeAssets

def resultOutputsAssets : ResultM TxAssets := do
  let assets ← outputs.foldlM (addOutputAssets lib) []
  .ok (normalizeTxAssets lib assets)

/-! ### Merging outputs to one recipient -/

def compactResultOutputKey : Option Text :=
  if output.extraData ≠ [] ∨ output.assetName ≠ [] ∨ output.assetAmt ≠ [] ∨ output.reason ≠ [] then
    none
  else some output.recipient

def checkAmounts : ResultM Unit :=
  match assets.find? fun a => !validateAssetDecimal lib a.amount with
  | some a => .error (.compactAsset a.name.text)
  | none => .ok ()

/-- The candidate with the output added, unless its satoshis could not carry its assets. -/
def tryCompact (candidate : ResultOutput) : ResultM (Option ResultOutput) := do
  let value ← orError (addInt64 candidate.value output.value) .compactOverflow
  let assets := if output.assets = [] then candidate.assets
    else lib.build (candidate.assets ++ output.assets)
  checkWhen (output.assets ≠ []) (checkAmounts lib assets)
  let carrier ← resultAssetCarrierSats lib assets
  .ok (if value < carrier then none else some { candidate with value := value, assets := assets })

def compactInto : Outputs → ResultM Outputs
  | [] => .ok [output]
  | o :: rest =>
    if compactResultOutputKey o = some output.recipient then do
      match ← tryCompact lib output o with
      | some merged => .ok (merged :: rest)
      | none => (compactInto rest).map (o :: ·)
    else (compactInto rest).map (o :: ·)

def compactStep (out : Outputs) (output : ResultOutput) : ResultM Outputs :=
  let output := normalizeResultOutput lib output
  if output.isZero then .ok out
  else if compactResultOutputKey output = none then .ok (out ++ [output])
  else compactInto lib output out

def compactResultOutputs : ResultM Outputs :=
  outputs.foldlM (compactStep lib) []

variable {lib available assets outputs output}

theorem paidAll_fst (outputs) : (paidAll outputs).1 = (outputs.map ResultOutput.value).sum := by
  induction outputs with
  | nil => rfl
  | cons o outputs ih =>
    rw [paidAll_cons, Prod.fst_add, ih, map_cons, sum_cons]
    rfl

theorem paidAll_snd (outputs) :
    (paidAll outputs).2 = (outputs.map fun o => holdings o.assets).sum := by
  induction outputs with
  | nil => rfl
  | cons o outputs ih =>
    rw [paidAll_cons, Prod.snd_add, ih, map_cons, sum_cons]
    rfl

theorem addOutputValue_eq_ok {total : ℤ} (h : addOutputValue value output = .ok total) :
    0 ≤ output.value ∧ total = value + output.value := by
  rw [addOutputValue, ite_error_eq_ok, orError_eq_ok] at h
  exact ⟨not_lt.mp h.1, eq_of_addInt64 h.2⟩

theorem resultOutputsValue_eq (h : resultOutputsValue outputs = .ok value) :
    value = (paidAll outputs).1 := by
  have hsum := foldlM_measure (f := id) (w := ResultOutput.value) outputs
    (fun _ _ o _ ho => (addOutputValue_eq_ok ho).2) h
  rw [paidAll_fst]
  exact hsum.trans (zero_add _)

theorem addOutputAssets_holdings (hlib : lib.Exact) {assets'}
    (h : addOutputAssets lib assets output = .ok assets') :
    holdings assets' = holdings assets + holdings output.assets := by
  rw [addOutputAssets] at h
  split_ifs at h with hnil
  · rw [← Except.ok.inj h, hnil, holdings_nil, add_zero]
  · exact hlib.merge (mapError_eq_ok.mp h)

theorem resultOutputsAssets_holdings (hlib : lib.Exact)
    (h : resultOutputsAssets lib outputs = .ok assets) : holdings assets = (paidAll outputs).2 := by
  obtain ⟨merged, hmerged, hassets⟩ := bind_eq_ok.mp h
  have hsum := foldlM_measure (f := holdings) (w := fun o => holdings o.assets) outputs
    (fun _ _ o _ ho => addOutputAssets_holdings hlib ho) hmerged
  rw [← Except.ok.inj hassets, holdings_normalizeTxAssets hlib, hsum, holdings_nil, zero_add,
    paidAll_snd]

theorem normalizeResultOutput_worth (hlib : lib.Exact) (output) :
    (normalizeResultOutput lib output).worth = output.worth := by
  simp only [ResultOutput.worth, normalizeResultOutput, holdings_normalizeTxAssets hlib]

theorem bindAsset_holdings {asset} {bound} (h : bindAsset lib available value asset = .ok bound) :
    bound.2.name = asset.name ∧ bound.2.amount = asset.amount := by
  obtain ⟨binding, _, h⟩ := bind_eq_ok.mp h
  split at h
  · rw [ite_error_eq_ok] at h
    rw [← Except.ok.inj h.2]
    exact ⟨rfl, rfl⟩
  · obtain ⟨carrier, _, h⟩ := bind_eq_ok.mp h
    obtain ⟨value', _, h⟩ := bind_eq_ok.mp h
    rw [← Except.ok.inj h]
    exact ⟨rfl, rfl⟩

theorem bindAssets_holdings {bound} (h : bindAssets lib available value assets = .ok bound) :
    holdings bound.2 = holdings assets := by
  induction assets generalizing value bound with
  | nil =>
    rw [← Except.ok.inj h]
  | cons a rest ih =>
    obtain ⟨one, hone, h⟩ := bind_eq_ok.mp h
    obtain ⟨done, hdone, h⟩ := bind_eq_ok.mp h
    obtain ⟨hname, hamount⟩ := bindAsset_holdings hone
    rw [← Except.ok.inj h, holdings_cons, hname, hamount, ih hdone, holdings_cons]

theorem bindResultOutput_spec {bound} (h : bindResultOutput lib available output = .ok bound) :
    bound.recipient = output.recipient ∧ holdings bound.assets = holdings output.assets := by
  obtain ⟨done, hdone, h⟩ := bind_eq_ok.mp h
  rw [← Except.ok.inj h]
  exact ⟨rfl, bindAssets_holdings hdone⟩

/-! ### Merging keeps what every recipient gets -/

def ResultOutput.Carried (lib : AmountLib) (o : ResultOutput) : Prop :=
  ∃ carrier, resultAssetCarrierSats lib o.assets = .ok carrier ∧ carrier ≤ o.value

theorem tryCompact_spec (hlib : lib.Exact) {candidate merged}
    (h : tryCompact lib output candidate = .ok (some merged)) :
    merged.recipient = candidate.recipient ∧ merged.worth = candidate.worth + output.worth ∧
      compactResultOutputKey merged = compactResultOutputKey candidate ∧ merged.Carried lib := by
  simp only [tryCompact, bind_eq_ok, orError_eq_ok, Except.ok.injEq] at h
  obtain ⟨value, hvalue, _, _, carrier, hcarrier, h⟩ := h
  split at h
  · cases h
  rename_i henough
  cases h
  refine ⟨rfl, Prod.ext (eq_of_addInt64 hvalue) ?_, rfl, carrier, hcarrier, not_lt.mp henough⟩
  change holdings (if output.assets = [] then _ else _) = _
  split_ifs with hnil
  · simp [ResultOutput.worth, hnil]
  · rw [hlib.build, holdings_append]
    rfl

theorem recipient_of_compactKey {key} (h : compactResultOutputKey output = some key) :
    output.recipient = key := by
  rw [compactResultOutputKey] at h
  split at h
  · cases h
  · exact Option.some.inj h

/-- An output is put at the end or added to one that has its recipient and no label. -/
inductive Compacted (lib : AmountLib) (output : ResultOutput) (out : Outputs) :
    Outputs → Prop
  | new : Compacted lib output out (out ++ [output])
  | merged (before : Outputs) (o : ResultOutput) (after : Outputs)
    (sum : ResultOutput) (hout : out = before ++ o :: after)
    (hkey : compactResultOutputKey o = some output.recipient)
    (hsum : tryCompact lib output o = .ok (some sum)) :
    Compacted lib output out (before ++ sum :: after)

variable {out' : Outputs}

theorem compacted_of_compactInto (h : compactInto lib output out = .ok out') :
    Compacted lib output out out' := by
  induction out generalizing out' with
  | nil =>
    cases h
    exact .new
  | cons o rest ih =>
    have hskip : (compactInto lib output rest).map (o :: ·) = .ok out' →
        Compacted lib output (o :: rest) out' := by
      intro hrest
      obtain ⟨l, hl, rfl⟩ := map_eq_ok.mp hrest
      cases ih hl with
      | new => exact .new
      | merged before o' after sum hout hkey hsum =>
        exact .merged (o :: before) o' after sum (by rw [hout, cons_append]) hkey hsum
    rw [compactInto] at h
    split_ifs at h with hkey
    · obtain ⟨found, hfound, h⟩ := bind_eq_ok.mp h
      cases found with
      | none => exact hskip h
      | some sum =>
        cases h
        exact .merged [] o rest sum rfl hkey hfound
    · exact hskip h

theorem Compacted.paid_eq (hlib : lib.Exact) (p) (h : Compacted lib output out out') :
    paid p out' = paid p out + paid p [output] := by
  cases h with
  | new => exact paid_append p out [output]
  | merged before o after sum hout hkey hsum =>
    obtain ⟨hrecipient, hworth, -⟩ := tryCompact_spec hlib hsum
    rw [hout, paid_append, paid_append, paid_cons, paid_cons p o after, paid_cons p output [],
      hrecipient, recipient_of_compactKey hkey, hworth, paid_nil]
    split
    · abel
    · simp

theorem compactStep_paid (hlib : lib.Exact) (p) (h : compactStep lib out output = .ok out') :
    paid p out' = paid p out + paid p [output] := by
  have hworth := normalizeResultOutput_worth hlib output
  have hsame : paid p [normalizeResultOutput lib output] = paid p [output] := by
    rw [paid_cons, paid_cons, hworth]
    rfl
  simp only [compactStep] at h
  split_ifs at h with hzero
  · rw [ResultOutput.worth_of_isZero hzero] at hworth
    rw [← Except.ok.inj h, paid_cons, ← hworth, ite_self, paid_nil, add_zero, add_zero]
  · rw [← Except.ok.inj h, paid_append, hsame]
  · rw [(compacted_of_compactInto h).paid_eq hlib, hsame]

theorem compactResultOutputs_paid (hlib : lib.Exact) (p)
    (h : compactResultOutputs lib outputs = .ok out) : paid p out = paid p outputs := by
  have hsum := foldlM_measure (f := paid p) (w := fun o => paid p [o]) outputs
    (fun _ _ o _ ho => compactStep_paid hlib p ho) h
  rw [hsum, paid_nil, zero_add]
  clear h hsum
  induction outputs with
  | nil => rfl
  | cons o outputs ih =>
    rw [map_cons, sum_cons, ih, paid_cons p o outputs, paid_cons, paid_nil, add_zero]

end

open Option

variable {lib : AmountLib} {out out' outputs : Outputs} {output : ResultOutput}

def ResultOutput.labelled (o : ResultOutput) : Bool := (compactResultOutputKey o).isNone

theorem compactStep_cases (h : compactStep lib out output = .ok out') :
    let o := normalizeResultOutput lib output
    (o.isZero = true ∧ out' = out) ∨ o.isZero = false ∧ ((o.labelled = true ∧ out' = out ++ [o]) ∨
        o.labelled = false ∧ Compacted lib o out out') := by
  simp only [compactStep] at h
  split at h
  · rename_i hzero
    exact .inl ⟨hzero, (Except.ok.inj h).symm⟩
  rename_i hzero
  refine .inr ⟨Bool.eq_false_iff.mpr hzero, ?_⟩
  split_ifs at h with hkey
  · exact .inl ⟨isNone_iff_eq_none.mpr hkey, (Except.ok.inj h).symm⟩
  · refine .inr ⟨?_, compacted_of_compactInto h⟩
    rw [ResultOutput.labelled, isNone_eq_false_iff]
    exact isSome_iff_ne_none.mpr hkey

theorem Compacted.labelled_eq (hlib : lib.Exact) (h : Compacted lib output out out')
    (hplain : output.labelled = false) :
    out'.filter ResultOutput.labelled = out.filter ResultOutput.labelled := by
  cases h with
  | new => simp [hplain]
  | merged before o after sum hout hkey hsum =>
    have ho : o.labelled = false := by rw [ResultOutput.labelled, hkey, isNone_some]
    have hsum : sum.labelled = false := by
      rw [← ho, ResultOutput.labelled, (tryCompact_spec hlib hsum).2.2.1, ResultOutput.labelled]
    simp [hout, ho, hsum]

theorem foldlM_compactStep_labelled (hlib : lib.Exact)
    (h : outputs.foldlM (compactStep lib) out = .ok out') :
    out'.filter ResultOutput.labelled = out.filter ResultOutput.labelled ++
      (outputs.map (normalizeResultOutput lib)).filter fun o => o.labelled && !o.isZero := by
  induction outputs generalizing out with
  | nil =>
    cases h
    simp
  | cons o outputs ih =>
    obtain ⟨mid, hmid, hrest⟩ := foldlM_cons_eq_ok.mp h
    rw [ih hrest, map_cons, filter_cons]
    obtain ⟨hzero, rfl⟩ | ⟨hzero, ⟨hlabel, rfl⟩ | ⟨hplain, hmid⟩⟩ := compactStep_cases hmid
    · simp [hzero]
    · simp [hzero, hlabel]
    · simp [hzero, hplain, hmid.labelled_eq hlib hplain]

theorem Compacted.carried (hlib : lib.Exact) (h : Compacted lib output out out')
    (hout : ∀ o ∈ out, o.Carried lib) (ho : output.Carried lib) : ∀ o ∈ out', o.Carried lib := by
  cases h with
  | new => exact forall_mem_append.mpr ⟨hout, forall_mem_singleton.mpr ho⟩
  | merged before o after sum heq hkey hsum =>
    rw [heq, forall_mem_append, forall_mem_cons] at hout
    exact forall_mem_append.mpr
      ⟨hout.1, forall_mem_cons.mpr ⟨(tryCompact_spec hlib hsum).2.2.2, hout.2.2⟩⟩

theorem compactStep_carried (hlib : lib.Exact) (h : compactStep lib out output = .ok out')
    (hout : ∀ o ∈ out, o.Carried lib) (ho : (normalizeResultOutput lib output).Carried lib) :
    ∀ o ∈ out', o.Carried lib := by
  obtain ⟨-, rfl⟩ | ⟨-, ⟨-, rfl⟩ | ⟨-, hmid⟩⟩ := compactStep_cases h
  · exact hout
  · exact forall_mem_append.mpr ⟨hout, forall_mem_singleton.mpr ho⟩
  · exact hmid.carried hlib hout ho

structure Unmergeable (lib : AmountLib) (outputs : Outputs) : Prop where
  normal : ∀ o ∈ outputs, normalizeResultOutput lib o = o ∧ o.isZero = false
  apart : outputs.Pairwise fun earlier o => o.labelled = false →
    compactResultOutputKey earlier = some o.recipient → tryCompact lib o earlier = .ok none

theorem compactInto_of_apart (h : ∀ o ∈ out, compactResultOutputKey o = some output.recipient →
    tryCompact lib output o = .ok none) : compactInto lib output out = .ok (out ++ [output]) := by
  induction out with
  | nil => rfl
  | cons o out ih =>
    obtain ⟨ho, hout⟩ := forall_mem_cons.mp h
    rw [compactInto, ih hout]
    split_ifs with hkey
    · rw [ho hkey]
      rfl
    · rfl

theorem foldlM_compactStep_unmergeable (h : Unmergeable lib (out ++ outputs)) :
    outputs.foldlM (compactStep lib) out = .ok (out ++ outputs) := by
  induction outputs generalizing out with
  | nil =>
    rw [append_nil]
    rfl
  | cons o outputs ih =>
    obtain ⟨hnormal, hzero⟩ := h.normal o (by simp)
    have hapart := (pairwise_append.mp h.apart).2.2
    have hstep : compactStep lib out o = .ok (out ++ [o]) := by
      rw [compactStep, hnormal]
      simp only [hzero, Bool.false_eq_true, if_false]
      split_ifs with hkey
      · rfl
      · have hplain : o.labelled = false := by
          rw [ResultOutput.labelled, isNone_eq_false_iff]
          exact isSome_iff_ne_none.mpr hkey
        exact compactInto_of_apart fun e he => hapart e he o mem_cons_self hplain
    refine foldlM_cons_eq_ok.mpr ⟨_, hstep, ?_⟩
    rw [ih (by rwa [append_assoc]), append_assoc, singleton_append]

/-- Compaction gives every recipient the same satoshis and assets, leaves the labelled outputs that
are worth something unmerged and in order, keeps outputs carried, and changes nothing where no
output can be added to an earlier one. -/
theorem compact_keeps_payees (hlib : lib.Exact) (h : compactResultOutputs lib outputs = .ok out) :
    (∀ recipient, paidTo recipient out = paidTo recipient outputs) ∧
    out.filter ResultOutput.labelled =
      ((outputs.map (normalizeResultOutput lib)).filter fun o => o.labelled && !o.isZero) ∧
    ((∀ o ∈ outputs, (normalizeResultOutput lib o).Carried lib) → ∀ o ∈ out, o.Carried lib) ∧
    (Unmergeable lib outputs → out = outputs) := by
  refine ⟨fun recipient => compactResultOutputs_paid hlib _ h, foldlM_compactStep_labelled hlib h,
    fun hcarried => ?_, fun hunmergeable => ?_⟩
  · exact foldlM_invariant (I := fun out => ∀ o ∈ out, o.Carried lib) outputs
      (fun _ _ o ho hout hstep => compactStep_carried hlib hstep hout (hcarried o ho))
      (fun _ ho => absurd ho not_mem_nil) h
  · have hsame : outputs.foldlM (compactStep lib) [] = .ok ([] ++ outputs) :=
      foldlM_compactStep_unmergeable hunmergeable
    exact Except.ok.inj (h.symm.trans hsame)

namespace Reference

open Wire.Reference

def boundAsset (amount : ℤ) : AssetInfo := ⟨⟨['o'], ['f'], ['t']⟩, ⟨0, amount⟩, 2⟩

def payeeOutput (value : ℤ) (assets : TxAssets) : ResultOutput :=
  { recipient := ['a'], value := value, assets := assets }

end Reference

open Reference Wire.Reference

/-- The third output gives the first the satoshi that the second needs to be added to it. -/
theorem compact_again : ∃ out again,
    compactResultOutputs amountLib [payeeOutput 1 [boundAsset 3], payeeOutput 1 [boundAsset 3],
      payeeOutput 1 []] = .ok out ∧
    compactResultOutputs amountLib out = .ok again ∧ again ≠ out :=
  ⟨[payeeOutput 2 [boundAsset 3], payeeOutput 1 [boundAsset 3]], [payeeOutput 3 [boundAsset 6]],
    by decide +kernel, by decide +kernel, by decide +kernel⟩

theorem compact_keeps_payees_three :
    paidTo ['a'] [payeeOutput 2 [boundAsset 3], payeeOutput 1 [boundAsset 3]] =
      paidTo ['a'] [payeeOutput 1 [boundAsset 3], payeeOutput 1 [boundAsset 3], payeeOutput 1 []] :=
  (compact_keeps_payees amountLib_exact (by decide +kernel)).1 _

end SatoshiNet.Contract
