import SatoshiNet.Contract.StateBinary
import SatoshiNet.Lib.Pointers

/-!
A block is executed on a copy of the store.

The runtimes of the copy and their state maps are new objects, the contract descriptors are shared.
What an engine computes is left open: it reads the candidate store and writes to it.
-/

namespace SatoshiNet.Template

open Lib Wire Contract Std List Option

abbrev StateMap := ExtTreeMap Text Bytes

structure BaseData where
  (address templateName : Text)
  templateVersion : ℕ
  deployer : Text
  (deployNonce flags : ℕ)
  managed : ManagedBalance
  contractContent : Bytes
  currentBlock : ℤ
  invokeCount : ℕ

/-- The state map of a runtime is an object of its own, here its place in the memory. -/
structure RuntimeBase extends BaseData where
  state : ℕ

structure Memory where
  bases : List RuntimeBase
  states : List StateMap

structure ContractRuntime (C : Type) where
  base : Option ℕ
  contract : C

abbrev RuntimeStore (C : Type) := List (Text × Option (ContractRuntime C))

abbrev StoreView (C : Type) := List (Text × Option (C × Option (BaseData × StateMap)))

namespace Memory

variable (m : Memory)

def readBase (ref : ℕ) : Option (BaseData × StateMap) :=
  m.bases[ref]?.bind fun base => m.states[base.state]?.map fun state => (base.toBaseData, state)

def newBase (data : BaseData) (state : StateMap) : Memory where
  bases := m.bases ++ [{ data with state := m.states.length }]
  states := m.states ++ [state]

def modifyBase (ref : ℕ) (f : BaseData → BaseData) : Memory :=
  { m with bases := m.bases.modify ref fun base => { base with toBaseData := f base.toBaseData } }

def setState (ref : ℕ) (key : Text) (value : Bytes) : Memory :=
  match m.bases[ref]? with
  | none => m
  | some base => { m with states := m.states.modify base.state (·.insert key value) }

end Memory

section Store

variable {C : Type} (c : Memory × RuntimeStore C) (store : RuntimeStore C)

def RuntimeStore.view (m : Memory) : StoreView C :=
  store.map fun e => (e.1, e.2.map fun runtime => (runtime.contract, runtime.base.bind m.readBase))

def cloneRuntime (m : Memory) (runtime : ContractRuntime C) : Memory × ContractRuntime C :=
  match runtime.base.bind m.readBase with
  | none => (m, runtime)
  | some (data, state) => (m.newBase data state, { runtime with base := some m.bases.length })

def RuntimeStore.clone : RuntimeStore C → Memory → Memory × RuntimeStore C
  | [], m => (m, [])
  | (url, none) :: store, m =>
    let rest := RuntimeStore.clone store m
    (rest.1, (url, none) :: rest.2)
  | (url, some runtime) :: store, m =>
    let cloned := cloneRuntime m runtime
    let rest := RuntimeStore.clone store cloned.1
    (rest.1, (url, some cloned.2) :: rest.2)

def RuntimeStore.get (url : Text) : Option ℕ :=
  (store.lookup url).join.bind (·.base)

inductive StoreOp (C : Type)
  | add (url : Text) (data : BaseData) (state : StateMap) (contract : C)
  | setState (url key : Text) (value : Bytes)
  | setManaged (url : Text) (balance : ManagedBalance)
  | setCurrentBlock (url : Text) (height : ℤ)
  | incrementInvokeCount (url : Text)

def StoreOp.apply : StoreOp C → Memory × RuntimeStore C
  | .add url data state contract =>
    (c.1.newBase data state,
      (url, some ⟨some c.1.bases.length, contract⟩) :: c.2.filter fun e => e.1 ≠ url)
  | .setState url key value => ((c.2.get url).elim c.1 (c.1.setState · key value), c.2)
  | .setManaged url balance =>
    ((c.2.get url).elim c.1 (c.1.modifyBase · fun data => { data with managed := balance }), c.2)
  | .setCurrentBlock url height =>
    ((c.2.get url).elim c.1 (c.1.modifyBase · fun data => { data with currentBlock := height }), c.2)
  | .incrementInvokeCount url =>
    ((c.2.get url).elim c.1 (c.1.modifyBase · fun data =>
      { data with invokeCount := (data.invokeCount + 1) % 2 ^ 64 }), c.2)

/-! ### Blocks -/

/-- An engine for one block.  What it has written before it fails stays in the candidate. -/
structure Engine (C T σ ε ρ : Type) where
  start : σ
  executeTx : σ → T → StoreView C → List (StoreOp C) × Except ε σ
  finalize : σ → StoreView C → List (StoreOp C) × Except ε ρ

def runOps (ops : List (StoreOp C)) : Memory × RuntimeStore C :=
  ops.foldl StoreOp.apply c

variable {T σ ε ρ : Type}

def executeTxs (engine : Engine C T σ ε ρ) :
    σ → List T → Memory × RuntimeStore C → (Memory × RuntimeStore C) × Except ε σ
  | s, [], c => (c, .ok s)
  | s, tx :: txs, c =>
    match engine.executeTx s tx (c.2.view c.1) with
    | (ops, .ok s') => executeTxs engine s' txs (runOps c ops)
    | (ops, .error e) => (runOps c ops, .error e)

/-- The store of the caller is replaced when everything has succeeded. -/
def executeBlock (engine : Engine C T σ ε ρ) (txs : List T) (m : Memory) (original : RuntimeStore C) :
    (Memory × RuntimeStore C) × Except ε ρ :=
  match executeTxs engine engine.start txs (original.clone m) with
  | (c, .error e) => ((c.1, original), .error e)
  | (c, .ok s) =>
    match engine.finalize s (c.2.view c.1) with
    | (ops, .error e) => (((runOps c ops).1, original), .error e)
    | (ops, .ok result) => (runOps c ops, .ok result)

/-! ### Roots -/

inductive RootFailure
  | undecodable | unencodable

/-- The hash, and the fields of a stored state that the root covers. -/
structure RootLib (C : Type) extends DecimalLib where
  sha256 : Bytes → Hash
  rootState : C → Bytes → Except RootFailure Bytes

def lengthPrefixed (data : Bytes) : Bytes := beBytes 8 data.length ++ data

def hashBytes (h : Hash) : Bytes := beBytes 32 h.toNat

def runtimeStateKey : Text := "template-runtime-state".toList

variable (lib : RootLib C)

def BaseData.header (data : BaseData) : Bytes :=
  lengthPrefixed (textBytes data.address) ++ lengthPrefixed (textBytes data.templateName) ++
    beBytes 4 data.templateVersion ++ lengthPrefixed (textBytes data.deployer) ++
    beBytes 8 data.deployNonce ++ beBytes 4 data.flags ++ lengthPrefixed data.contractContent

def runtimeStateRoot (contract : C) (data : BaseData) (state : StateMap) : Hash :=
  match writeManagedBalance lib.toDecimalLib data.managed with
  | .error _ => zeroHash
  | .ok managed =>
    let head := data.header ++ managed ++ beBytes 8 (data.currentBlock % 2 ^ 64).toNat ++
      beBytes 8 data.invokeCount
    match lib.rootState contract (state[runtimeStateKey]?.getD []) with
    | .ok fields => lib.sha256 (head ++ lengthPrefixed (textBytes runtimeStateKey) ++ fields)
    | .error .unencodable => zeroHash
    | .error .undecodable =>
      lib.sha256 (head ++ state.toList.flatMap fun e =>
        lengthPrefixed (textBytes e.1) ++ lengthPrefixed e.2)

def RuntimeStore.stateRoot (store : RuntimeStore C) (m : Memory) : Hash :=
  let entries := (store.view m).mergeSort fun e e' => e.1 ≤ e'.1
  match entries.mapM fun e => e.2.bind fun (contract, base) => base.map fun (data, state) =>
      lengthPrefixed (textBytes e.1) ++
        lengthPrefixed (hashBytes (runtimeStateRoot lib contract data state)) with
  | none => zeroHash
  | some parts => lib.sha256 parts.flatten

structure Memory.Extends (m m' : Memory) : Prop where
  bases : m.bases <+: m'.bases
  states : m.states <+: m'.states

theorem Memory.Extends.refl (m : Memory) : m.Extends m := ⟨prefix_rfl, prefix_rfl⟩

variable {c : Memory × RuntimeStore C} {m m' m₀ : Memory} {store : RuntimeStore C}

theorem Memory.Extends.trans {m''} (h : m.Extends m') (h' : m'.Extends m'') :
    m.Extends m'' := ⟨h.bases.trans h'.bases, h.states.trans h'.states⟩

theorem Memory.extends_newBase (m : Memory) (data state) :
    m.Extends (m.newBase data state) := ⟨prefix_append _ _, prefix_append _ _⟩

def RuntimeStore.Valid (store : RuntimeStore C) (m : Memory) : Prop :=
  ∀ url runtime ref, (url, some runtime) ∈ store → runtime.base = some ref → (m.readBase ref).isSome = true

theorem Memory.Extends.readBase (h : m.Extends m') {ref : ℕ} {v} (hread : m.readBase ref = some v) :
    m'.readBase ref = some v := by
  obtain ⟨base, hbase, hstate⟩ := bind_eq_some_iff.mp hread
  obtain ⟨state, hstate, hv⟩ := map_eq_some_iff.mp hstate
  rw [Memory.readBase, PointerTable.getElem?_of_isPrefix h.bases hbase, bind_some,
    PointerTable.getElem?_of_isPrefix h.states hstate, map_some, hv]

theorem RuntimeStore.view_extends (hvalid : store.Valid m) (h : m.Extends m') :
    store.view m' = store.view m := by
  refine map_congr_left fun e he => ?_
  obtain ⟨url, runtime⟩ := e
  cases runtime with
  | none => rfl
  | some runtime =>
    cases hbase : runtime.base with
    | none => simp [hbase]
    | some ref =>
      obtain ⟨v, hv⟩ := isSome_iff_exists.mp (hvalid url runtime ref he hbase)
      simp [hbase, hv, h.readBase hv]

/-- A pointer to an object that the first memory does not have, whose map it does not have either. -/
structure Fresh (m₀ m : Memory) (ref : ℕ) : Prop where
  base : m₀.bases.length ≤ ref
  state : ∀ base, m.bases[ref]? = some base → m₀.states.length ≤ base.state

section Writes

variable {m₀ m : Memory} {ref : ℕ}

theorem Fresh.newBase (h : Fresh m₀ m ref) (hm : m₀.Extends m) (data state) :
    Fresh m₀ (m.newBase data state) ref := by
  refine ⟨h.base, fun base hbase => ?_⟩
  rw [Memory.newBase, getElem?_append] at hbase
  split at hbase
  · exact h.state base hbase
  · rw [mem_singleton.mp (mem_of_getElem? hbase)]
    exact hm.states.length_le

theorem fresh_newBase (hm : m₀.Extends m) (data state) :
    Fresh m₀ (m.newBase data state) m.bases.length := by
  refine Fresh.newBase ⟨hm.bases.length_le, fun base hbase => ?_⟩ hm data state
  rw [getElem?_eq_none le_rfl] at hbase
  cases hbase

theorem Fresh.mono {m'} (h : Fresh m₀ m ref) (hlt : ref < m.bases.length) (hm : m.Extends m') :
    Fresh m₀ m' ref := by
  refine ⟨h.base, fun base hbase => h.state base ?_⟩
  rw [getElem?_eq_getElem hlt, ← prefix_iff_getElem?.mp hm.bases ref hlt, hbase]

theorem Fresh.modifyBase (h : Fresh m₀ m ref) (ref' : ℕ) (f) :
    Fresh m₀ (m.modifyBase ref' f) ref := by
  refine ⟨h.base, fun base hbase => ?_⟩
  rw [Memory.modifyBase, List.getElem?_modify, Option.map_eq_map, Option.map_eq_some_iff] at hbase
  obtain ⟨old, hold, rfl⟩ := hbase
  split <;> exact h.state old hold

theorem Fresh.setState (h : Fresh m₀ m ref) (ref' : ℕ) (key value) :
    Fresh m₀ (m.setState ref' key value) ref := by
  unfold Memory.setState
  split
  · exact h
  · exact { h with }

theorem Memory.Extends.modifyBase (hm : m₀.Extends m) (h : m₀.bases.length ≤ ref) (f) :
    m₀.Extends (m.modifyBase ref f) := by
  have hbases := PointerTable.modify_isPrefix hm.bases ref fun base =>
    { base with toBaseData := f base.toBaseData }
  rw [modify_eq_self h] at hbases
  exact ⟨hbases, hm.states⟩

theorem Memory.Extends.setState (hm : m₀.Extends m) (h : Fresh m₀ m ref) (key value) :
    m₀.Extends (m.setState ref key value) := by
  unfold Memory.setState
  split
  · exact hm
  · rename_i base hbase
    have hstates := PointerTable.modify_isPrefix hm.states base.state (·.insert key value)
    rw [modify_eq_self (h.state base hbase)] at hstates
    exact ⟨hm.bases, hstates⟩

end Writes

structure Apart (m₀ : Memory) (c : Memory × RuntimeStore C) : Prop where
  memory : m₀.Extends c.1
  fresh : ∀ url runtime ref, (url, some runtime) ∈ c.2 → runtime.base = some ref → Fresh m₀ c.1 ref

theorem RuntimeStore.mem_of_get {url} {ref : ℕ} (h : store.get url = some ref) :
    ∃ runtime, (url, some runtime) ∈ store ∧ runtime.base = some ref := by
  obtain ⟨runtime, hruntime, hbase⟩ := bind_eq_some_iff.mp h
  have hlookup : store.lookup url = some (some runtime) := join_eq_some_iff.mp hruntime
  obtain ⟨before, after, rfl, -⟩ := lookup_eq_some_iff.mp hlookup
  exact ⟨runtime, mem_append_right _ mem_cons_self, hbase⟩

/-- One write: through the candidate only new objects are reached. -/
theorem Apart.onBase (h : Apart m₀ c) (url) {f}
    (hext : ∀ ref, Fresh m₀ c.1 ref → m₀.Extends (f ref))
    (hfresh : ∀ ref ref', Fresh m₀ c.1 ref' → Fresh m₀ (f ref) ref') :
    Apart m₀ ((c.2.get url).elim c.1 f, c.2) := by
  cases hget : c.2.get url with
  | none => exact h
  | some ref =>
    obtain ⟨runtime, hmem, hbase⟩ := RuntimeStore.mem_of_get hget
    exact ⟨hext ref (h.fresh url runtime ref hmem hbase), fun url' runtime' ref' hmem' hbase' =>
      hfresh ref ref' (h.fresh url' runtime' ref' hmem' hbase')⟩

theorem Apart.apply (h : Apart m₀ c) (op : StoreOp C) : Apart m₀ (op.apply c) := by
  cases op with
  | add url data state contract =>
    refine ⟨h.memory.trans (c.1.extends_newBase data state), fun url' runtime ref hmem hbase => ?_⟩
    rcases mem_cons.mp hmem with hnew | hold
    · obtain ⟨rfl, hruntime⟩ := Prod.mk.inj hnew
      cases hruntime
      cases hbase
      exact fresh_newBase h.memory data state
    · exact (h.fresh url' runtime ref (mem_filter.mp hold).1 hbase).newBase h.memory data state
  | setState url key value =>
    exact h.onBase url (fun _ href => h.memory.setState href key value) fun _ _ href =>
      href.setState _ key value
  | setManaged url balance =>
    exact h.onBase url (fun _ href => h.memory.modifyBase href.base _) fun _ _ href => href.modifyBase _ _
  | setCurrentBlock url height =>
    exact h.onBase url (fun _ href => h.memory.modifyBase href.base _) fun _ _ href => href.modifyBase _ _
  | incrementInvokeCount url =>
    exact h.onBase url (fun _ href => h.memory.modifyBase href.base _) fun _ _ href => href.modifyBase _ _

theorem Apart.runOps (h : Apart m₀ c) (ops : List (StoreOp C)) : Apart m₀ (runOps c ops) := by
  induction ops generalizing c with
  | nil => exact h
  | cons op ops ih => exact ih (h.apply op)

theorem cloneRuntime_spec {runtime : ContractRuntime C} (hm : m₀.Extends m)
    (hvalid : ∀ ref, runtime.base = some ref → (m₀.readBase ref).isSome = true) :
    m.Extends (cloneRuntime m runtime).1 ∧ (cloneRuntime m runtime).2.contract = runtime.contract ∧
      ∀ m', (cloneRuntime m runtime).1.Extends m' →
        (cloneRuntime m runtime).2.base.bind m'.readBase = runtime.base.bind m₀.readBase ∧
        ∀ ref, (cloneRuntime m runtime).2.base = some ref → Fresh m₀ m' ref ∧
        (m'.readBase ref).isSome = true := by
  cases hbase : runtime.base with
  | none =>
    have hclone : cloneRuntime m runtime = (m, runtime) := by rw [cloneRuntime, hbase, bind_none]
    rw [hclone, hbase]
    exact ⟨.refl m, rfl, fun m' _ => ⟨rfl, fun _ h => absurd h (by simp)⟩⟩
  | some ref =>
    obtain ⟨v, hv⟩ := isSome_iff_exists.mp (hvalid ref hbase)
    have hclone : cloneRuntime m runtime =
        (m.newBase v.1 v.2, { runtime with base := some m.bases.length }) := by
      rw [cloneRuntime, hbase, bind_some, hm.readBase hv]
    have hnew : m.bases.length < (m.newBase v.1 v.2).bases.length := by
      rw [Memory.newBase, length_append, length_singleton]
      omega
    rw [hclone]
    refine ⟨m.extends_newBase _ _, rfl, fun m' hm' => ?_⟩
    have hread := hm'.readBase (show (m.newBase v.1 v.2).readBase m.bases.length = some v by
      simp [Memory.readBase, Memory.newBase])
    refine ⟨hread.trans hv.symm, fun ref' href' => ?_⟩
    obtain rfl := some.inj href'
    exact ⟨(fresh_newBase hm v.1 v.2).mono hnew hm', by rw [hread]; rfl⟩

/-- A copy reads as the original does, and all its objects are new. -/
theorem RuntimeStore.clone_spec (hvalid : store.Valid m₀) (hm : m₀.Extends m) :
    m.Extends (store.clone m).1 ∧ (store.clone m).2.view (store.clone m).1 = store.view m₀ ∧
      ∀ url runtime ref, (url, some runtime) ∈ (store.clone m).2 → runtime.base = some ref →
        Fresh m₀ (store.clone m).1 ref ∧ ((store.clone m).1.readBase ref).isSome = true := by
  induction store generalizing m with
  | nil => exact ⟨.refl m, rfl, fun _ _ _ hmem => absurd hmem not_mem_nil⟩
  | cons e store ih =>
    have htail : RuntimeStore.Valid store m₀ := fun url runtime ref hmem =>
      hvalid url runtime ref (mem_cons_of_mem _ hmem)
    obtain ⟨url, _ | runtime⟩ := e
    · obtain ⟨hext, hview, hfresh⟩ := ih htail hm
      refine ⟨hext, congrArg ((url, none) :: ·) hview, fun url' runtime ref hmem => ?_⟩
      exact hfresh url' runtime ref ((mem_cons.mp hmem).resolve_left (by simp))
    obtain ⟨hcopied, hcontract, hcopy⟩ := cloneRuntime_spec hm fun ref =>
      hvalid url runtime ref mem_cons_self
    obtain ⟨hext, hview, hfresh⟩ := ih htail (hm.trans hcopied)
    obtain ⟨hread, hnew⟩ := hcopy _ hext
    refine ⟨hcopied.trans hext, ?_, fun url' runtime' ref hmem hbase => ?_⟩
    · have hhead : ((cloneRuntime m runtime).2.contract, (cloneRuntime m runtime).2.base.bind
          (RuntimeStore.clone store (cloneRuntime m runtime).1).1.readBase) =
          (runtime.contract, runtime.base.bind m₀.readBase) := by rw [hcontract, hread]
      exact congrArg₂ (fun r rest => (url, some r) :: rest) hhead hview
    · rcases mem_cons.mp hmem with heq | hrest
      · obtain rfl := some.inj (Prod.mk.inj heq).2
        exact hnew ref hbase
      · exact hfresh url' runtime' ref hrest hbase

section Invariant

variable {P : Memory × RuntimeStore C → Prop} (engine : Engine C T σ ε ρ) (txs : List T)
  (hstep : ∀ s, ∀ tx ∈ txs, ∀ c, P c → P (runOps c (engine.executeTx s tx (c.2.view c.1)).1))
include hstep

theorem executeTxs_invariant (h : P c) (s : σ) : P (executeTxs engine s txs c).1 := by
  induction txs generalizing s c with
  | nil => exact h
  | cons tx txs ih =>
    have hnext := hstep s tx mem_cons_self c h
    unfold executeTxs
    split <;> rename_i hcall <;> rw [hcall] at hnext
    · exact ih (fun s tx' htx => hstep s tx' (mem_cons_of_mem _ htx)) hnext _
    · exact hnext

/-- The candidate keeps what every write keeps, and it becomes the store when the block succeeds. -/
theorem executeBlock_invariant (m) (store) (h : P (store.clone m))
    (hfinal : ∀ s c, P c → P (runOps c (engine.finalize s (c.2.view c.1)).1)) :
    ∃ c, P c ∧ ((executeBlock engine txs m store).1 = c ∧
        (∃ result, (executeBlock engine txs m store).2 = .ok result) ∨
      (executeBlock engine txs m store).1 = (c.1, store)) := by
  have htxs := executeTxs_invariant engine txs hstep h engine.start
  unfold executeBlock
  split <;> rename_i c s hrun <;> rw [hrun] at htxs
  · exact ⟨c, htxs, .inr rfl⟩
  · have hlast := hfinal s c htxs
    split <;> rename_i hfin <;> rw [hfin] at hlast
    · exact ⟨_, hlast, .inr rfl⟩
    · exact ⟨_, hlast, .inl ⟨rfl, _, rfl⟩⟩

end Invariant

variable (engine : Engine C T σ ε ρ)

theorem extends_executeBlock (txs : List T) (hvalid : store.Valid m) :
    m.Extends (executeBlock engine txs m store).1.1 := by
  obtain ⟨hext, -, hfresh⟩ := RuntimeStore.clone_spec hvalid (.refl m)
  obtain ⟨c, hc, ⟨hblock, -⟩ | hblock⟩ := executeBlock_invariant (P := Apart m) engine txs
    (fun _ _ _ _ hc => hc.runOps _) m store ⟨hext, fun url runtime ref hmem hbase =>
      (hfresh url runtime ref hmem hbase).1⟩
    fun _ _ hc => hc.runOps _
  · exact hblock ▸ hc.memory
  · exact hblock ▸ hc.memory

theorem executeBlock_error {engine : Engine C T σ ε ρ} {txs : List T} {e : ε}
    (h : (executeBlock engine txs m store).2 = .error e) :
    (executeBlock engine txs m store).1.2 = store := by
  obtain ⟨c, -, ⟨-, result, hok⟩ | hblock⟩ := executeBlock_invariant (P := fun _ => True) engine txs
    (fun _ _ _ _ _ => trivial) m store trivial fun _ _ _ => trivial
  · cases hok.symm.trans h
  · rw [hblock]

/-- Whatever an engine does with a copy of a store, and wherever it fails, the store reads as before;
when the block fails the copy does too. -/
theorem candidate_block_isolated (txs : List T) {m : Memory}
    {store : RuntimeStore C} (hvalid : store.Valid m) {copy : Memory × RuntimeStore C}
    (hcopy : store.clone m = copy) {run : (Memory × RuntimeStore C) × Except ε ρ}
    (hrun : executeBlock engine txs copy.1 copy.2 = run) :
    copy.2.view copy.1 = store.view m ∧ store.view run.1.1 = store.view m ∧
      store.stateRoot lib run.1.1 = store.stateRoot lib m ∧
      ∀ e, run.2 = .error e → run.1.2 = copy.2 ∧ copy.2.view run.1.1 = store.view m := by
  obtain ⟨hext, hview, hfresh⟩ := RuntimeStore.clone_spec hvalid (.refl m)
  rw [hcopy] at hext hview hfresh
  have hvalid' : copy.2.Valid copy.1 := fun url runtime ref hmem hbase =>
    (hfresh url runtime ref hmem hbase).2
  have hblock := extends_executeBlock engine txs hvalid'
  rw [hrun] at hblock
  have hsame := RuntimeStore.view_extends hvalid (hext.trans hblock)
  refine ⟨hview, hsame, ?_, fun e he => ⟨?_, ?_⟩⟩
  · rw [RuntimeStore.stateRoot, RuntimeStore.stateRoot, hsame]
  · rw [← hrun] at he ⊢
    exact executeBlock_error he
  · rw [RuntimeStore.view_extends hvalid' hblock, hview]

end Store

namespace Reference

def candidateMemory : Memory where
  bases := [{ address := ['c'], templateName := ['t'], templateVersion := 1, deployer := ['d'],
              deployNonce := 0, flags := 0, managed := ⟨7, []⟩, contractContent := [], currentBlock := 0,
              invokeCount := 0, state := 0 }]
  states := [∅]

def candidateStore : RuntimeStore Unit := [(['c'], some ⟨some 0, ()⟩)]

def writingEngine : Engine Unit Bool Unit Unit Unit where
  start := ()
  executeTx _ fails _ := ([.setState ['c'] ['k'] [1], .setManaged ['c'] ⟨9, []⟩],
    if fails then .error () else .ok ())
  finalize _ _ := ([.incrementInvokeCount ['c']], .ok ())

def candidateLib : RootLib Unit :=
  { rangedLib with sha256 := fun _ => 1, rootState := fun _ state => .ok state }

def candidateCopy : Memory × RuntimeStore Unit := candidateStore.clone candidateMemory

def failedBlock : (Memory × RuntimeStore Unit) × Except Unit Unit :=
  executeBlock writingEngine [false, true] candidateCopy.1 candidateCopy.2

theorem failing_block_isolated : candidateStore.stateRoot candidateLib failedBlock.1.1 =
        candidateStore.stateRoot candidateLib candidateMemory ∧
      candidateCopy.2.view failedBlock.1.1 = candidateStore.view candidateMemory := by
  have hvalid : candidateStore.Valid candidateMemory := by
    intro url runtime ref hmem hbase
    obtain rfl := some.inj (Prod.mk.inj (mem_singleton.mp hmem)).2
    cases hbase
    rfl
  obtain ⟨-, -, hroot, herror⟩ :=
    candidate_block_isolated candidateLib writingEngine [false, true] hvalid
      (rfl : _ = candidateCopy) (rfl : _ = failedBlock)
  exact ⟨hroot, (herror () rfl).2⟩

end Reference

end SatoshiNet.Template
