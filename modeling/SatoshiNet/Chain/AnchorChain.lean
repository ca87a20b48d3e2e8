import SatoshiNet.Chain.AnchorRecord

/-!
The active chain and its anchor records under extension and reorganisation.

A node of the block index is the list of its blocks down to genesis, newest first.  The checks
that do not concern anchors are the flags of an operation.
-/

namespace SatoshiNet.Chain

open Lib Wire List

structure AnchorChain where
  chain : List Block
  bucket : AnchorBucket
  valid : List (List Block)

/-- A block to attach: `passes` and `connects` are the outcomes of everything else that its check
and its connection do. -/
structure Attach where
  block : Block
  (checkContext connectContext : AnchorContext)
  (passes connects : Bool)

structure Detach where
  context : AnchorContext
  disconnects : Bool

inductive ChainOp
  | extend (attach : Attach) (fastAdd : Bool)
  | reorganize (detach : List Detach) (attach : List Attach)

def isChildOf (block : Block) (node : List Block) : Bool :=
  block.height == node.length &&
    match node with
    | [] => true
    | tip :: _ => block.prevBlock == tip.hash

namespace AnchorChain

variable (p : ChainParams) (v : AnchorVerifier) (s : AnchorChain)

def connectBlock (a : Attach) : Option AnchorChain :=
  if !a.connects then none
  else
    match connectAnchors p v a.connectContext s.bucket a.block with
    | .error _ => none
    | .ok bucket => some { s with chain := a.block :: s.chain, bucket := bucket }

def disconnectBlock (d : Detach) : Option AnchorChain :=
  match s.chain with
  | [] => none
  | block :: rest =>
    if !d.disconnects then none
    else
      match disconnectAnchors p v d.context s.bucket block with
      | .error _ => none
      | .ok bucket => some { s with chain := rest, bucket := bucket }

def checkConnectBlock (bucket : AnchorBucket) (a : Attach) : Bool :=
  a.passes && (checkAnchorTxsUnique p v a.checkContext bucket a.block).isOk

/-- The block extends the active chain.  A node that passed its check is marked valid before it is
connected, one that was added unchecked after it. -/
def extend (a : Attach) (fastAdd : Bool) : AnchorChain :=
  let node := a.block :: s.chain
  let skip := fastAdd || s.valid.contains node
  if !isChildOf a.block s.chain then s
  else if !skip && !checkConnectBlock p v s.bucket a then s
  else
    let checked := if skip then s else { s with valid := node :: s.valid }
    match connectBlock p v checked a with
    | none => checked
    | some s' => { s' with valid := node :: s'.valid }

/-- Every block to attach is checked against the records as they are before the reorganisation. -/
def verifyAttach (bucket : AnchorBucket) :
    List (List Block) → List Block → List Attach → List (List Block) × Bool
  | valid, _, [] => (valid, true)
  | valid, node, a :: rest =>
    let node' := a.block :: node
    if !isChildOf a.block node then (valid, false)
    else if valid.contains node' then
      if a.passes then verifyAttach bucket valid node' rest else (valid, false)
    else if checkConnectBlock p v bucket a then verifyAttach bucket (node' :: valid) node' rest
    else (valid, false)

def detachAll : AnchorChain → List Detach → AnchorChain × Bool
  | s, [] => (s, true)
  | s, d :: rest =>
    match disconnectBlock p v s d with
    | none => (s, false)
    | some s' => detachAll s' rest

def attachAll : AnchorChain → List Attach → AnchorChain
  | s, [] => s
  | s, a :: rest =>
    match connectBlock p v s a with
    | none => s
    | some s' => attachAll s' rest

def reorganizeChain (detach : List Detach) (attach : List Attach) : AnchorChain :=
  if s.chain.length < detach.length then s
  else
    let (valid, verified) := verifyAttach p v s.bucket s.valid (s.chain.drop detach.length) attach
    let s := { s with valid := valid }
    if !verified then s
    else
      match detachAll p v s detach with
      | (s, false) => s
      | (s, true) => attachAll p v s attach

/-- A step never fails: an operation that is refused leaves the chain where it got to. -/
def step : ChainOp → AnchorM AnchorChain
  | .extend a fastAdd => .ok (s.extend p v a fastAdd)
  | .reorganize detach attach => .ok (s.reorganizeChain p v detach attach)

def new : AnchorChain := ⟨[], fun _ => none, []⟩

section Invariant

variable (v : AnchorVerifier)

def records (node : List Block) : List AnchorTxInfo :=
  node.flatMap fun block => anchorRecords v block.transactions

def locked (node : List Block) : List Bytes := (records v node).map (·.lockedUtxo)

/-- No output is anchored twice in the active chain, and the store holds exactly its records. -/
structure AnchoredOnce (s : AnchorChain) : Prop where
  named : ∀ block ∈ s.chain, ∀ tx ∈ block.transactions, isAnchorTx tx → (anchorRecord v tx).isSome
  nodup : (locked v s.chain).Nodup
  stored : ∀ u data, s.bucket u = some data ↔
    ∃ r ∈ records v s.chain, r.lockedUtxo = u ∧ serializeAnchorTxInfo r = data

/-- The invariant of a run: besides, every record can be read back, and no node that counts as
valid anchors an output twice. -/
structure Inv (s : AnchorChain) : Prop extends AnchoredOnce v s where
  readable : ∀ r ∈ records v s.chain, Readable r
  valid : ∀ node ∈ s.valid, (locked v node).Nodup

variable {v}

theorem locked_cons (block) (node) :
    locked v (block :: node) = lockedUtxos v block.transactions ++ locked v node := by
  rw [locked, records, flatMap_cons, map_append]
  rfl

theorem locked_append (node node') :
    locked v (node ++ node') = locked v node ++ locked v node' := by
  rw [locked, records, flatMap_append, map_append]
  rfl

variable {node : List Block} {r : AnchorTxInfo} {u : Bytes}

theorem fits_of_mem_records (h : r ∈ records v node) : r.Fits := by
  obtain ⟨block, -, hr⟩ := mem_flatMap.mp h
  obtain ⟨tx, -, -, hrecord⟩ := mem_anchorRecords.mp hr
  exact anchorRecord_fits hrecord

variable {s : AnchorChain}

theorem Inv.bucket_eq_none (h : Inv v s) (hu : u ∉ locked v s.chain) : s.bucket u = none := by
  by_contra hne
  obtain ⟨data, hdata⟩ := Option.ne_none_iff_exists'.mp hne
  obtain ⟨r, hr, rfl, -⟩ := (h.stored u data).mp hdata
  exact hu (mem_map_of_mem hr)

theorem Inv.bucket_eq_some (h : Inv v s) (hr : r ∈ records v s.chain) :
    s.bucket r.lockedUtxo = some (serializeAnchorTxInfo r) :=
  (h.stored _ _).mpr ⟨r, hr, rfl, rfl⟩

theorem Inv.fetchAnchorTx_ne_none (h : Inv v s) (hu : u ∈ locked v s.chain) :
    fetchAnchorTx s.bucket u ≠ none := by
  obtain ⟨r, hr, rfl⟩ := mem_map.mp hu
  simp only [fetchAnchorTx, h.bucket_eq_some hr,
    deserializeAnchorTxInfo_serialize (fits_of_mem_records hr) (h.readable r hr)]
  exact Option.some_ne_none r

theorem stored_of {bucket : AnchorBucket}
    (hin : ∀ r ∈ records v node, bucket r.lockedUtxo = some (serializeAnchorTxInfo r))
    (hout : ∀ u ∉ locked v node, bucket u = none) (u data) : bucket u = some data ↔
      ∃ r ∈ records v node, r.lockedUtxo = u ∧ serializeAnchorTxInfo r = data := by
  constructor
  · intro hdata
    by_cases hu : u ∈ locked v node
    · obtain ⟨r, hr, rfl⟩ := mem_map.mp hu
      exact ⟨r, hr, rfl, Option.some.inj ((hin r hr).symm.trans hdata)⟩
    · rw [hout u hu] at hdata
      cases hdata
  · rintro ⟨r, hr, rfl, rfl⟩
    exact hin r hr

end Invariant

section Steps

variable {p : ChainParams} {v : AnchorVerifier}

theorem new_inv : Inv v new where
  named := by simp [new]
  nodup := nodup_nil
  stored := by simp [new, records]
  readable := by simp [new, records]
  valid := by simp [new]

theorem blockAnchors_named {ctx} {block} {infos} (h : blockAnchors p v ctx block = .ok infos)
    (tx : Tx) (htx : tx ∈ block.transactions) (hanchor : isAnchorTx tx) :
    (anchorRecord v tx).isSome := by
  obtain ⟨_, -, hread⟩ := exists_mem_of_mapM h (mem_filter.mpr ⟨htx, hanchor⟩)
  obtain ⟨info, hinfo, -⟩ := bind_eq_ok.mp hread
  rw [anchorRecord_of_getLockedTxInfo hinfo]
  rfl

theorem Inv.connectBlock {s s' : AnchorChain} {a : Attach} (h : Inv v s)
    (hnodup : (locked v (a.block :: s.chain)).Nodup)
    (hread : ∀ r ∈ anchorRecords v a.block.transactions, Readable r)
    (hs' : AnchorChain.connectBlock p v s a = some s') :
    Inv v s' ∧ s'.chain = a.block :: s.chain ∧ s'.valid = s.valid := by
  rw [AnchorChain.connectBlock] at hs'
  split at hs'
  · cases hs'
  split at hs'
  · cases hs'
  rename_i bucket hbucket
  obtain rfl := Option.some.inj hs'
  obtain ⟨infos, hinfos, hput⟩ := bind_eq_ok.mp hbucket
  have hnamed := blockAnchors_named hinfos
  obtain rfl := blockAnchors_eq_ok hinfos
  rw [locked_cons, nodup_append] at hnodup
  obtain ⟨hin, hout⟩ := foldlM_dbPutAnchorTxInfo hnodup.1 hput
  refine ⟨⟨⟨?_, ?_, stored_of ?_ ?_⟩, ?_, h.valid⟩, rfl, rfl⟩
  · intro block hblock
    rcases mem_cons.mp hblock with rfl | hblock
    · exact hnamed
    · exact h.named block hblock
  · rw [locked_cons, nodup_append]
    exact hnodup
  · intro r hr
    rcases mem_append.mp hr with hr | hr
    · exact hin r hr
    · -- an old record is not overwritten, for the new block names other outputs
      have hnew : r.lockedUtxo ∉ lockedUtxos v a.block.transactions := fun hmem =>
        hnodup.2.2 _ hmem _ (mem_map_of_mem hr) rfl
      exact (hout _ hnew).trans (h.bucket_eq_some hr)
  · intro u hu
    rw [locked_cons, mem_append, not_or] at hu
    exact (hout u hu.1).trans (h.bucket_eq_none hu.2)
  · intro r hr
    rcases mem_append.mp hr with hr | hr
    · exact hread r hr
    · exact h.readable r hr

theorem Inv.disconnectBlock {s s' : AnchorChain} {d : Detach} (h : Inv v s)
    (hs' : AnchorChain.disconnectBlock p v s d = some s') :
    Inv v s' ∧ s'.chain = s.chain.tail ∧ s'.valid = s.valid := by
  rw [AnchorChain.disconnectBlock] at hs'
  split at hs'
  · cases hs'
  rename_i block rest hchain
  split at hs'
  · cases hs'
  split at hs'
  · cases hs'
  rename_i bucket hbucket
  obtain rfl := Option.some.inj hs'
  have hnodup := h.nodup
  rw [hchain, locked_cons, nodup_append] at hnodup
  have hmem : ∀ r ∈ records v rest, r ∈ records v s.chain := fun r hr => by
    rw [hchain]
    exact mem_append_right _ hr
  have hblock : ∀ r ∈ anchorRecords v block.transactions,
      Readable r ∧ s.bucket r.lockedUtxo = some (serializeAnchorTxInfo r) := by
    intro r hr
    have hr' : r ∈ records v s.chain := by
      rw [hchain]
      exact mem_append_left _ hr
    exact ⟨h.readable r hr', h.bucket_eq_some hr'⟩
  have hlookup := foldlM_disconnectAnchor hnodup.1 hblock hbucket
  refine ⟨⟨⟨?_, hnodup.2.1, stored_of ?_ ?_⟩, fun r hr => h.readable r (hmem r hr), h.valid⟩,
    by rw [hchain]; rfl, rfl⟩
  · intro b hb
    exact h.named b (by rw [hchain]; exact mem_cons_of_mem _ hb)
  · intro r hr
    have hold : r.lockedUtxo ∉ lockedUtxos v block.transactions := fun hin =>
      hnodup.2.2 _ hin _ (mem_map_of_mem hr) rfl
    exact (hlookup _).trans ((if_neg hold).trans (h.bucket_eq_some (hmem r hr)))
  · intro u hu
    refine (hlookup u).trans ?_
    split_ifs with hin
    · rfl
    · refine h.bucket_eq_none ?_
      rw [hchain, locked_cons, mem_append, not_or]
      exact ⟨hin, hu⟩

end Steps

section Loops

variable {p : ChainParams} {v : AnchorVerifier}

structure Ordinary (p : ChainParams) (v : AnchorVerifier) (block : Block) : Prop where
  notSameAnchor : legacySameAnchor p block = false
  not1748 : legacy1748 p block = false
  readable : ∀ r ∈ anchorRecords v block.transactions, Readable r

instance (block : Block) : Decidable (Ordinary p v block) :=
  decidable_of_iff (legacySameAnchor p block = false ∧ legacy1748 p block = false ∧
      ∀ r ∈ anchorRecords v block.transactions, Readable r)
    ⟨fun h => ⟨h.1, h.2.1, h.2.2⟩, fun h => ⟨h.1, h.2, h.3⟩⟩

def attachLocked (v : AnchorVerifier) (attach : List Attach) : List Bytes :=
  attach.flatMap fun a => lockedUtxos v a.block.transactions

variable {bucket : AnchorBucket} {a : Attach} {attach : List Attach} {node : List Block}
  {s : AnchorChain}

theorem checkConnectBlock_spec (hord : Ordinary p v a.block)
    (h : checkConnectBlock p v bucket a = true) : (lockedUtxos v a.block.transactions).Nodup ∧
      ∀ u ∈ lockedUtxos v a.block.transactions, fetchAnchorTx bucket u = none := by
  rw [checkConnectBlock, Bool.and_eq_true] at h
  cases hunique : checkAnchorTxsUnique p v a.checkContext bucket a.block with
  | error e =>
    rw [hunique] at h
    cases h.2
  | ok _ => exact checkAnchorTxsUnique_spec hord.notSameAnchor hord.not1748 hunique

theorem nodup_of_checkConnectBlock (hord : Ordinary p v a.block) (hnode : (locked v node).Nodup)
    (hfetch : ∀ u ∈ lockedUtxos v a.block.transactions, u ∈ locked v node →
      fetchAnchorTx bucket u ≠ none) (h : checkConnectBlock p v bucket a = true) :
    (locked v (a.block :: node)).Nodup := by
  obtain ⟨hnodup, hnew⟩ := checkConnectBlock_spec hord h
  rw [locked_cons, nodup_append]
  refine ⟨hnodup, hnode, ?_⟩
  rintro u hu w hw rfl
  exact hfetch u hu hw (hnew u hu)

/-- The check of the blocks to attach.  The induction is on them; what carries it is that the only
outputs the rest could meet in the node so far are those of the fork point, which are stored. -/
theorem verifyAttach_spec {valid} (hord : ∀ a ∈ attach, Ordinary p v a.block)
    (hattach : (attachLocked v attach).Nodup) (hvalid : ∀ n ∈ valid, (locked v n).Nodup)
    (hnode : (locked v node).Nodup)
    (hfetch : ∀ u ∈ attachLocked v attach, u ∈ locked v node → fetchAnchorTx bucket u ≠ none) :
    (∀ n ∈ (verifyAttach p v bucket valid node attach).1, (locked v n).Nodup) ∧
      ((verifyAttach p v bucket valid node attach).2 = true →
        (locked v ((attach.map (·.block)).reverse ++ node)).Nodup) := by
  induction attach generalizing valid node with
  | nil => exact ⟨hvalid, fun _ => hnode⟩
  | cons a rest ih =>
    have hrest : attachLocked v (a :: rest) =
      lockedUtxos v a.block.transactions ++ attachLocked v rest := rfl
    rw [hrest, nodup_append] at hattach
    have hord' : ∀ b ∈ rest, Ordinary p v b.block := fun b hb => hord b (mem_cons_of_mem _ hb)
    have hfetch' : ∀ u ∈ attachLocked v rest, u ∈ locked v (a.block :: node) →
        fetchAnchorTx bucket u ≠ none := by
      intro u hu hmem
      rw [locked_cons, mem_append] at hmem
      rcases hmem with hmem | hmem
      · exact absurd rfl (hattach.2.2 u hmem u hu)
      · exact hfetch u (hrest ▸ mem_append_right _ hu) hmem
    have happend : ((a :: rest).map (·.block)).reverse ++ node =
        (rest.map (·.block)).reverse ++ (a.block :: node) := by simp
    rw [happend]
    simp only [verifyAttach]
    split
    · exact ⟨hvalid, fun h => nomatch h⟩
    split
    · rename_i hmem
      split
      · exact ih hord' hattach.2.1 hvalid (hvalid _ (contains_iff_mem.mp hmem)) hfetch'
      · exact ⟨hvalid, fun h => nomatch h⟩
    split_ifs with hcheck
    · have hnew := nodup_of_checkConnectBlock (hord a mem_cons_self) hnode
        (fun u hu => hfetch u (hrest ▸ mem_append_left _ hu)) hcheck
      refine ih hord' hattach.2.1 ?_ hnew hfetch'
      intro n hn
      rcases mem_cons.mp hn with rfl | hn
      · exact hnew
      · exact hvalid n hn
    · exact ⟨hvalid, fun h => nomatch h⟩

theorem detachAll_spec {detach} (h : Inv v s) : Inv v (detachAll p v s detach).1 ∧
      ((detachAll p v s detach).2 = true →
        (detachAll p v s detach).1.chain = s.chain.drop detach.length) := by
  induction detach generalizing s with
  | nil => exact ⟨h, fun _ => rfl⟩
  | cons d rest ih =>
    rw [detachAll]
    split
    · exact ⟨h, fun h => nomatch h⟩
    · rename_i s' hs'
      obtain ⟨hinv, hchain, -⟩ := h.disconnectBlock hs'
      obtain ⟨hinv', hdrop⟩ := ih hinv
      refine ⟨hinv', fun hdone => ?_⟩
      rw [hdrop hdone, hchain, drop_tail, length_cons]

theorem attachAll_spec (h : Inv v s) (hord : ∀ a ∈ attach, Ordinary p v a.block)
    (hnodup : (locked v ((attach.map (·.block)).reverse ++ s.chain)).Nodup) :
    Inv v (attachAll p v s attach) := by
  induction attach generalizing s with
  | nil => exact h
  | cons a rest ih =>
    have happend : ((a :: rest).map (·.block)).reverse ++ s.chain =
        (rest.map (·.block)).reverse ++ (a.block :: s.chain) := by simp
    rw [happend] at hnodup
    have hhead : (locked v (a.block :: s.chain)).Nodup := by
      rw [locked_append] at hnodup
      exact hnodup.sublist (sublist_append_right _ _)
    rw [attachAll]
    split
    · exact h
    · rename_i s' hs'
      obtain ⟨hinv, hchain, -⟩ := h.connectBlock hhead (hord a mem_cons_self).readable hs'
      refine ih hinv (fun b hb => hord b (mem_cons_of_mem _ hb)) ?_
      rw [hchain]
      exact hnodup

end Loops

section Runs

variable {p : ChainParams} {v : AnchorVerifier}

/-- What the code leaves to the blocks it is given: none is exempt or added unchecked, records can
be read back, and the blocks of one reorganisation anchor different outputs. -/
def Guarded (p : ChainParams) (v : AnchorVerifier) : ChainOp → Prop
  | .extend a fastAdd => fastAdd = false ∧ Ordinary p v a.block
  | .reorganize _ attach => (∀ a ∈ attach, Ordinary p v a.block) ∧ (attachLocked v attach).Nodup

instance (op : ChainOp) : Decidable (Guarded p v op) :=
  match op with
  | .extend _ _ => inferInstanceAs (Decidable (_ ∧ _))
  | .reorganize _ _ => inferInstanceAs (Decidable (_ ∧ _))

variable {s : AnchorChain}

theorem Inv.mark (h : Inv v s) {valid} (hvalid : ∀ n ∈ valid, (locked v n).Nodup) :
    Inv v { s with valid := valid } :=
  ⟨{ h with }, h.readable, hvalid⟩

theorem Inv.mark_cons (h : Inv v s) {node} (hnode : (locked v node).Nodup) :
    Inv v { s with valid := node :: s.valid } := by
  refine h.mark fun n hn => ?_
  rcases mem_cons.mp hn with rfl | hn
  · exact hnode
  · exact h.valid n hn

theorem Inv.extend {a} (h : Inv v s) (hord : Ordinary p v a.block) :
    Inv v (s.extend p v a false) := by
  rw [AnchorChain.extend]
  split
  · exact h
  split
  · exact h
  rename_i hchecked
  have hnode : (locked v (a.block :: s.chain)).Nodup := by
    cases hknown : s.valid.contains (a.block :: s.chain) with
    | true => exact h.valid _ (contains_iff_mem.mp hknown)
    | false =>
      have hcheck : checkConnectBlock p v s.bucket a = true := by
        rw [hknown] at hchecked
        simpa using hchecked
      exact nodup_of_checkConnectBlock hord h.nodup (fun u _ => h.fetchAnchorTx_ne_none) hcheck
  -- marking the node as valid does not touch the chain or the store
  have hmarked : ∀ c : Bool,
      Inv v (if c then s else { s with valid := (a.block :: s.chain) :: s.valid }) ∧
      (if c then s else { s with valid := (a.block :: s.chain) :: s.valid }).chain = s.chain := by
    intro c
    cases c
    · exact ⟨h.mark_cons hnode, rfl⟩
    · exact ⟨h, rfl⟩
  obtain ⟨hinv, hchain⟩ := hmarked (false || s.valid.contains (a.block :: s.chain))
  simp only
  split
  · exact hinv
  · rename_i s' hs'
    exact (hinv.connectBlock (hchain.symm ▸ hnode) hord.readable hs').1.mark_cons hnode

theorem Inv.reorganizeChain {detach attach} (h : Inv v s)
    (hord : ∀ a ∈ attach, Ordinary p v a.block) (hattach : (attachLocked v attach).Nodup) :
    Inv v (s.reorganizeChain p v detach attach) := by
  have hfork : (locked v (s.chain.drop detach.length)).Sublist (locked v s.chain) := by
    conv_rhs => rw [← take_append_drop detach.length s.chain, locked_append]
    exact sublist_append_right _ _
  have hverify := verifyAttach_spec hord hattach h.valid (h.nodup.sublist hfork)
    (fun u _ hu => h.fetchAnchorTx_ne_none (hfork.subset hu))
  rw [AnchorChain.reorganizeChain]
  split
  · exact h
  have hmarked := h.mark hverify.1
  simp only
  split_ifs with hverified
  · exact hmarked
  have hdetach := @detachAll_spec p v _ detach hmarked
  split
  · rename_i s' heq
    rw [heq] at hdetach
    exact hdetach.1
  · rename_i s' heq
    rw [heq] at hdetach
    refine attachAll_spec hdetach.1 hord ?_
    rw [hdetach.2 rfl]
    exact hverify.2 (by simpa using hverified)

theorem step_inv (s) (op) (h : Inv v s) (hop : Guarded p v op) :
    ∃ s', step p v s op = .ok s' ∧ Inv v s' := by
  cases op with
  | extend a fastAdd =>
    obtain ⟨rfl, hord⟩ := hop
    exact ⟨_, rfl, h.extend hord⟩
  | reorganize detach attach => exact ⟨_, rfl, h.reorganizeChain hop.1 hop.2⟩

/-- Over every run of guarded operations no output is anchored twice, and the store holds exactly
the records of the active chain. -/
theorem always_anchoredOnce (ops : List ChainOp) (h : ∀ op ∈ ops, Guarded p v op) :
    Always (step p v) (AnchoredOnce v) new ops :=
  always_of_stepsMeet (fun _ hinv => hinv.toAnchoredOnce) step_inv new ops new_inv
    (stepsMeet_of_forall h new)

end Runs

section Samples

def sampleVerifier : AnchorVerifier where
  nativeAssetProof _ := .ok none
  checkAnchorTxEncoding _ := .ok ()
  luckyMetadataFromOutputs _ := .ok false
  checkAnchorScriptEncoding _ := .ok ()
  deserializeTxAssets _ := some []
  invoiceSigner _ _ _ := .ok [2]

def sampleContext : AnchorContext := ⟨fun _ => true, fun _ => true, fun _ _ _ => true⟩

def sampleUtxo (digit : UInt8) : Bytes := replicate 64 digit ++ [0x3a, 0x30]

def sampleScript (digit : UInt8) : Script :=
  0x42 :: sampleUtxo digit ++ 0x47 :: replicate 71 0x21 ++ [0x51, 0x00, 0x01, 0x30]

def sampleAnchor (hash : Hash) (digit : UInt8) : Tx :=
  ⟨hash, [⟨⟨zeroHash, anchorTxOutIndex⟩, sampleScript digit⟩], [⟨1, [], [0x51]⟩]⟩

def sampleParams : ChainParams := ⟨testNet, 0, 0, 1, 1, 0, 0⟩

def sampleAttach (block : Block) : Attach := ⟨block, sampleContext, sampleContext, true, true⟩

def sampleRun : List ChainOp :=
  [.extend (sampleAttach ⟨1, 0, 0, [sampleAnchor 11 0x61]⟩) false, .extend (sampleAttach ⟨2, 1, 1,
    [sampleAnchor 12 0x62]⟩) false, .reorganize [⟨sampleContext, true⟩]
      [sampleAttach ⟨3, 1, 1, [sampleAnchor 13 0x63]⟩, sampleAttach ⟨4, 3, 2, [sampleAnchor 14 0x64]⟩]]

abbrev sampleStep := step sampleParams sampleVerifier

theorem always_anchoredOnce_sampleRun : (∀ op ∈ sampleRun, Guarded sampleParams sampleVerifier op) ∧
      (sampleRun.foldlM sampleStep new).map
        (fun s => s.chain.map (·.hash)) = .ok [4, 3, 1] ∧
      Always sampleStep (AnchoredOnce sampleVerifier) new sampleRun :=
  have hguarded : ∀ op ∈ sampleRun, Guarded sampleParams sampleVerifier op := by decide +kernel
  ⟨hguarded, by decide +kernel, always_anchoredOnce sampleRun hguarded⟩

theorem extend_of_checkConnectBlock {p : ChainParams} {v} {s : AnchorChain} {a : Attach} {bucket}
    (hchild : isChildOf a.block s.chain = true) (hcheck : checkConnectBlock p v s.bucket a = true)
    (hconnects : a.connects = true)
    (hbucket : connectAnchors p v a.connectContext s.bucket a.block = .ok bucket) :
    (s.extend p v a false).chain = a.block :: s.chain ∧ (s.extend p v a false).bucket = bucket := by
  have hconnect : ∀ t : AnchorChain, t.bucket = s.bucket → AnchorChain.connectBlock p v t a =
      some { t with chain := a.block :: t.chain, bucket := bucket } := by
    intro t ht
    simp [AnchorChain.connectBlock, hconnects, ht, hbucket]
  rw [AnchorChain.extend]
  simp only [hchild, hcheck, Bool.not_true, Bool.false_eq_true, if_false, Bool.and_false]
  cases s.valid.contains (a.block :: s.chain)
  · simp [hconnect { s with valid := (a.block :: s.chain) :: s.valid } rfl]
  · simp [hconnect s rfl]

def plainBlock (height : ℕ) : Block :=
  ⟨BitVec.ofNat 256 (height + 1), BitVec.ofNat 256 height, height, []⟩

def plainChain : ℕ → List Block
  | 0 => []
  | n + 1 => plainBlock n :: plainChain n

def plainRun (n : ℕ) : List ChainOp :=
  (range n).map fun i => .extend (sampleAttach (plainBlock i)) false

theorem plainChain_length (n : ℕ) : (plainChain n).length = n := by
  induction n with
  | zero => rfl
  | succ n ih => rw [plainChain, length_cons, ih]

theorem isChildOf_plainChain (n : ℕ) : isChildOf (plainBlock n) (plainChain n) = true := by
  simp only [isChildOf, plainChain_length]
  cases n <;> simp [plainChain, plainBlock]

theorem foldlM_plainRun (n : ℕ) : ∃ s, (plainRun n).foldlM sampleStep new =
    .ok s ∧ s.chain = plainChain n ∧ s.bucket = fun _ => none := by
  induction n with
  | zero => exact ⟨new, rfl, rfl, rfl⟩
  | succ n ih =>
    obtain ⟨s, hs, hchain, hbucket⟩ := ih
    obtain ⟨hchain', hbucket'⟩ := @extend_of_checkConnectBlock sampleParams sampleVerifier s
      (sampleAttach (plainBlock n)) s.bucket (hchain ▸ isChildOf_plainChain n) rfl rfl rfl
    refine ⟨_, ?_, hchain'.trans (by rw [hchain]; rfl), hbucket'.trans hbucket⟩
    rw [plainRun, range_succ, map_append, foldlM_append]
    exact bind_eq_ok.mpr ⟨s, hs, rfl⟩

def exemptAnchor : Tx :=
  sampleAnchor 0x2025513a5ad2bdb180bc1d239915fa813237f9c6724acfcaf5ae02971d803215 0x61

def exempt1708 : Block :=
  ⟨0xac11b5d39e67af3ea2177150be8021a969383c7528675e97a4c6c93ce4785964, 1708, 1708, [exemptAnchor]⟩

def exempt1709 : Block :=
  ⟨0x7120c6cb241034f458893b38d7a01e8c8b65fd7962c0b42ac76e526ea355ef30, exempt1708.hash, 1709,
    [exemptAnchor]⟩

def exemptRecord : AnchorTxInfo :=
  ⟨sampleUtxo 0x61, replicate 71 0x21, 1, exemptAnchor.txID⟩

theorem connectAnchors_exempt {block} (bucket)
    (h : blockAnchors sampleParams sampleVerifier sampleContext block = .ok [exemptRecord]) :
    connectAnchors sampleParams sampleVerifier sampleContext bucket block =
      .ok (Function.update bucket exemptRecord.lockedUtxo
        (some (serializeAnchorTxInfo exemptRecord))) :=
  bind_eq_ok.mpr ⟨_, h, foldlM_cons_eq_ok.mpr ⟨_, rfl, rfl⟩⟩

theorem isChildOf_exempt1708 : isChildOf exempt1708 (plainChain 1708) = true := by
  rw [plainChain, isChildOf, length_cons, plainChain_length]
  decide

theorem chain_extend_exempt {s : AnchorChain} (hchain : s.chain = plainChain 1708)
    (hbucket : s.bucket = fun _ => none) :
    ((s.extend sampleParams sampleVerifier (sampleAttach exempt1708) false).extend sampleParams
      sampleVerifier (sampleAttach exempt1709) false).chain =
      exempt1709 :: exempt1708 :: plainChain 1708 := by
  obtain ⟨hchain₁, hbucket₁⟩ := extend_of_checkConnectBlock (a := sampleAttach exempt1708)
    (hchain ▸ isChildOf_exempt1708) (by rw [hbucket]; decide +kernel) rfl
    (connectAnchors_exempt s.bucket (by decide +kernel))
  rw [hbucket] at hbucket₁
  rw [hchain] at hchain₁
  have hchild : isChildOf exempt1709 (exempt1708 :: plainChain 1708) = true := by
    rw [isChildOf, length_cons, plainChain_length]
    decide
  obtain ⟨hchain₂, -⟩ := extend_of_checkConnectBlock (a := sampleAttach exempt1709)
    (hchain₁ ▸ hchild) (by rw [hbucket₁]; decide +kernel) rfl
    (connectAnchors_exempt _ (by decide +kernel))
  rw [hchain₂, hchain₁]
  rfl

variable (ops : List ChainOp)

abbrev SampleAnchorsOnce : Prop := Always sampleStep (AnchoredOnce sampleVerifier) new ops

variable {ops}

theorem not_always_exempt {s : AnchorChain}
    (hs : ops.foldlM sampleStep new = .ok s)
    (hchain : s.chain = plainChain 1708) (hbucket : s.bucket = fun _ => none) :
    ¬ SampleAnchorsOnce (ops ++ [.extend (sampleAttach exempt1708) false,
        .extend (sampleAttach exempt1709) false]) := by
  intro h
  obtain ⟨t, ht, hrest⟩ := h.of_append
  obtain rfl := Except.ok.inj (hs.symm.trans ht)
  obtain ⟨-, s₁, hs₁, -, s₂, hs₂, hlast⟩ := hrest
  cases hs₁
  cases hs₂
  have hnodup := hlast.nodup
  rw [chain_extend_exempt hchain hbucket, locked_cons, locked_cons, ← append_assoc] at hnodup
  exact absurd hnodup.of_append_left (by decide +kernel)

def repeatedBlocks (utxo : Bytes) : List Attach :=
  let anchor : Tx := { sampleAnchor 11 0x61 with
    txIn := [⟨⟨zeroHash, anchorTxOutIndex⟩, UInt8.ofNat utxo.length :: utxo ++
      0x47 :: replicate 71 0x21 ++ [0x51, 0x00, 0x01, 0x30]⟩] }
  [sampleAttach ⟨1, 0, 0, [anchor]⟩, sampleAttach ⟨2, 1, 1, [anchor]⟩]

theorem not_always_of_foldlM {u}
    (hops : (ops.foldlM sampleStep new).map (fun s => locked sampleVerifier s.chain) = .ok u)
    (hu : ¬ u.Nodup) : ¬ SampleAnchorsOnce ops := by
  intro h
  rw [← append_nil ops] at h
  obtain ⟨s, hs, hlast⟩ := h.of_append
  rw [hs] at hops
  exact hu (Except.ok.inj hops ▸ hlast.head.nodup)

/-- An output is anchored twice by the two exempt blocks of the test network, by blocks that are
added unchecked, by two blocks of one reorganisation, and where the first record is too short to
be read back. -/
theorem anchored_twice :
    ¬ SampleAnchorsOnce (plainRun 1708 ++ [.extend (sampleAttach exempt1708) false,
        .extend (sampleAttach exempt1709) false]) ∧
      ¬ SampleAnchorsOnce ((repeatedBlocks (sampleUtxo 0x61)).map (.extend · true)) ∧
      ¬ SampleAnchorsOnce [.reorganize [] (repeatedBlocks (sampleUtxo 0x61))] ∧
      ¬ SampleAnchorsOnce ((repeatedBlocks [0x61]).map (.extend · false)) :=
  have ⟨_, hs, hchain, hbucket⟩ := foldlM_plainRun 1708
  ⟨not_always_exempt hs hchain hbucket,
    not_always_of_foldlM (u := [sampleUtxo 0x61, sampleUtxo 0x61]) (by decide +kernel)
      (by decide +kernel),
    not_always_of_foldlM (u := [sampleUtxo 0x61, sampleUtxo 0x61]) (by decide +kernel)
      (by decide +kernel),
    not_always_of_foldlM (u := [[0x61], [0x61]]) (by decide +kernel) (by decide)⟩

end Samples

end AnchorChain

end SatoshiNet.Chain
