import SatoshiNet.Template.AutopayRun
import SatoshiNet.Template.Candidate
import SatoshiNet.Template.ExchangeRun

/-!
The exchange and the autopay contract as engines of a block.

A call loads the state of its contract from the candidate store and saves the next one; when the
block ends the contract is settled and its finished items are pruned.
-/

namespace SatoshiNet.Template

open Lib List Option

structure StateCodec (S : Type) where
  empty : S
  encode : S → Bytes
  decode : Bytes → TemplateM S
  encode_ne_nil : ∀ s, encode s ≠ []
  decode_encode : ∀ s, decode (encode s) = .ok s

section Engine

variable {S A C : Type} (codec : StateCodec S) (url : Text) (run : S → A → TemplateM S)

def loadRuntimeState (state : StateMap) : TemplateM S :=
  match state[runtimeStateKey]?.getD [] with
  | [] => .ok codec.empty
  | data => codec.decode data

/-- A contract that is not stored is passed over. -/
def callContract (ops : List A) (view : StoreView C) : List (StoreOp C) × TemplateM Unit :=
  match view.lookup url with
  | some (some (_, some (_, state))) =>
    match loadRuntimeState codec state >>= ops.foldlM run with
    | .ok next => ([.setState url runtimeStateKey (codec.encode next)], .ok ())
    | .error e => ([], .error e)
  | _ => ([], .ok ())

def contractEngine (closing : List A) : Engine C A Unit TemplateError Unit where
  start := ()
  executeTx _ op := callContract codec url run [op]
  finalize _ := callContract codec url run closing

def Holds (c : Memory × RuntimeStore C) (s : S) : Prop :=
  ∃ contract data state, (c.2.view c.1).lookup url = some (some (contract, some (data, state))) ∧
    loadRuntimeState codec state = .ok s

variable {codec url run} {c : Memory × RuntimeStore C} {s : S}

theorem RuntimeStore.lookup_view (store : RuntimeStore C) (m : Memory) (url : Text) :
    (store.view m).lookup url = (store.lookup url).map
      (Option.map fun runtime => (runtime.contract, runtime.base.bind m.readBase)) := by
  induction store with
  | nil => rfl
  | cons e store ih =>
    rw [RuntimeStore.view, map_cons, lookup_cons, lookup_cons]
    cases heq : url == e.1 with
    | true => simp
    | false => simpa [RuntimeStore.view] using ih

theorem Holds.save (h : Holds codec url c s) (next : S) :
    Holds codec url ((StoreOp.setState url runtimeStateKey (codec.encode next)).apply c) next := by
  obtain ⟨contract, data, state, hview, -⟩ := h
  rw [RuntimeStore.lookup_view, map_eq_some_iff] at hview
  obtain ⟨_, hlookup, hview⟩ := hview
  obtain ⟨runtime, rfl, hpair⟩ := map_eq_some_iff.mp hview
  obtain ⟨rfl, hread⟩ := Prod.mk.inj hpair
  obtain ⟨ref, hbase, hread⟩ := bind_eq_some_iff.mp hread
  obtain ⟨base, hstored, hstate⟩ := bind_eq_some_iff.mp hread
  obtain ⟨_, hstate, hdata⟩ := map_eq_some_iff.mp hstate
  cases hdata
  have hget : c.2.get url = some ref := by simp [RuntimeStore.get, hlookup, hbase]
  refine ⟨runtime.contract, base.toBaseData, state.insert runtimeStateKey (codec.encode next), ?_, ?_⟩
  · simp [StoreOp.apply, RuntimeStore.lookup_view, hget, hlookup, hbase, Memory.setState, hstored,
      Memory.readBase, hstate]
  · rw [loadRuntimeState, Std.ExtTreeMap.getElem?_insert_self, getD_some]
    split
    · rename_i hnil
      exact absurd hnil (codec.encode_ne_nil next)
    · exact codec.decode_encode next

variable {I : S → Prop} {Sound : A → Prop}
  (hstep : ∀ s s' op, Sound op → I s → run s op = .ok s' → I s') {ops closing : List A}
include hstep

theorem Holds.callContract (h : Holds codec url c s) (hs : I s) (hops : ∀ op ∈ ops, Sound op) :
    ∃ s', Holds codec url (runOps c (callContract codec url run ops (c.2.view c.1)).1) s' ∧ I s' := by
  obtain ⟨contract, data, state, hview, hload⟩ := h
  simp only [Template.callContract, hview, hload]
  split
  · rename_i next hrun
    exact ⟨next, Holds.save ⟨contract, data, state, hview, hload⟩ next,
      foldlM_invariant ops (fun s s' op hop => hstep s s' op (hops op hop)) hs hrun⟩
  · exact ⟨s, ⟨contract, data, state, hview, hload⟩, hs⟩

/-- What every step keeps, a block keeps of the state that the store holds. -/
theorem Holds.executeBlock {m : Memory} {store : RuntimeStore C} (hvalid : store.Valid m)
    (h : Holds codec url (m, store) s) (hs : I s) (hops : ∀ op ∈ ops, Sound op)
    (hclosing : ∀ op ∈ closing, Sound op) :
    ∃ s', Holds codec url (executeBlock (contractEngine codec url run closing) ops m store).1 s' ∧
      I s' := by
  obtain ⟨contract, data, state, hview, hload⟩ := h
  have hclone := (RuntimeStore.clone_spec hvalid (.refl m)).2.1
  obtain ⟨c, hc, ⟨hblock, -⟩ | hblock⟩ := executeBlock_invariant
    (P := fun c => ∃ s', Holds codec url c s' ∧ I s') (contractEngine codec url run closing) ops
    (fun _ op hop c ⟨_, h, hs⟩ => h.callContract hstep hs (forall_mem_singleton.mpr (hops op hop)))
    m store ⟨s, ⟨contract, data, state, hclone ▸ hview, hload⟩, hs⟩
    fun _ c ⟨_, h, hs⟩ => h.callContract hstep hs hclosing
  · exact hblock ▸ hc
  · have hext := extends_executeBlock (contractEngine codec url run closing) ops hvalid
    rw [hblock] at hext ⊢
    exact ⟨s, ⟨contract, data, state, RuntimeStore.view_extends hvalid hext ▸ hview, hload⟩, hs⟩

end Engine

section Contracts

variable {C : Type} (url : Text) (lib : Wire.DecimalLib) (params : ParamLib) (height : ℤ)

def exchangeEngine (codec : StateCodec ExchangeState) (rt : ExchangeRuntime)
    (assetPrecision : Contract.AssetPrecision) : Engine C ExchangeOp Unit TemplateError Unit :=
  contractEngine codec url (ExchangeOp.run lib params rt)
    [.settle height assetPrecision, .pruneFinishedItems]

def autopayEngine (codec : StateCodec AutopayState) (rt : AutopayRuntime) (terms : GasTerms) :
    Engine C AutopayOp Unit TemplateError Unit :=
  contractEngine codec url (AutopayOp.run lib params rt) [.settle height terms, .pruneFinishedItems]

variable {url lib params height} {m : Memory} {store : RuntimeStore C} (hvalid : store.Valid m)
include hvalid

theorem exchange_block_reachable {codec : StateCodec ExchangeState} {rt : ExchangeRuntime}
    {s : ExchangeState} (h : Holds codec url (m, store) s) (hs : s.Reachable lib params rt)
    (assetPrecision) {ops : List ExchangeOp} (hops : ∀ op ∈ ops, op.Sound) :
    let engine := exchangeEngine url lib params height codec rt assetPrecision
    ∃ s', Holds codec url (executeBlock engine ops m store).1 s' ∧ s'.Reachable lib params rt := by
  refine h.executeBlock (fun s s' op hop hs hrun => ?_) hvalid hs hops (by simp [ExchangeOp.Sound])
  have hnext := hs.next hop
  rwa [ExchangeOp.next, hrun] at hnext

theorem autopay_block_reachable {codec : StateCodec AutopayState} {rt : AutopayRuntime}
    {before ops : List AutopayOp} (hheight : 0 ≤ height) (terms)
    (h : Holds codec url (m, store) (before.foldl (AutopayOp.next lib params rt) .initial))
    (hbefore : ∀ op ∈ before, op.Sound lib) (hops : ∀ op ∈ ops, op.Sound lib) :
    let engine := autopayEngine url lib params height codec rt terms
    ∃ s', Holds codec url (executeBlock engine ops m store).1 s' ∧
      ∃ after : List AutopayOp, (∀ op ∈ after, op.Sound lib) ∧
        s' = after.foldl (AutopayOp.next lib params rt) .initial := by
  refine h.executeBlock ?_ hvalid ⟨before, hbefore, rfl⟩ hops (by simp [AutopayOp.Sound, hheight])
  rintro _ s' op hop ⟨after, hafter, rfl⟩ hrun
  refine ⟨after ++ [op], forall_mem_append.mpr ⟨hafter, forall_mem_singleton.mpr hop⟩, ?_⟩
  rw [foldl_append, foldl_cons, foldl_nil, AutopayOp.next, hrun]
  rfl

end Contracts

end SatoshiNet.Template
