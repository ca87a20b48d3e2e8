import Mathlib.Data.Finset.Basic
import SatoshiNet.Dkvs.Record
import SatoshiNet.Lib.Action

/-!
The database of the key-value store and its write batches: the tables of `indexer.go`, `pathmeta.go`
and `prefix_change_index.go`, prefix scans, and the snapshots of `write_validation.go`.

The seven key prefixes are disjoint, so each is a table of its own.  A batch is written whole or not
at all, in the order its operations were staged.

Each collection path has a stored commitment to its network-visible records (`pathmeta.go`,
`path_watch.go`): rebuilt from a scan, reused while nothing expires, updated by a put, projected
ahead of a batch.
-/

namespace SatoshiNet.Dkvs

open Lib Std

structure PathMeta where
  path : Text
  (generation endpointGeneration : ℕ)
  stateRoot : BitVec 256
  (activeRecords activeTotalSize minExpiryHeight viewHeight : ℕ)
deriving DecidableEq

/-- The tables of the database, with the node's payment cache and its change counter. -/
structure Store (H : Type) [Ord H] where
  records : ExtTreeMap Text Record
  hashes : ExtTreeMap H Text
  nameTransfers : Finset Text
  metas : ExtTreeMap Text PathMeta
  dirtyPaths : Finset Text
  recordChanges : ExtTreeMap Text ℕ
  prefixChanges : Finset (Text × ℕ × Text)
  retentions : RetentionCache
  generation : ℕ

def Store.empty (H : Type) [Ord H] : Store H :=
  ⟨∅, ∅, ∅, ∅, ∅, ∅, ∅, ∅, 0⟩

inductive Write (H : Type)
  | putRecord (record : Record)
  | deleteRecord (key : Text)
  | putHash (hash : H) (key : Text)
  | deleteHash (hash : H)
  | deleteNameTransfer (name : Text)
  | putPathMeta (pathMeta : PathMeta)
  | putPathStatus (path : Text) (dirty : Bool)
  | putRecordChange (key : Text) (generation : ℕ)
  | deleteRecordChange (key : Text)
  | putPrefixChange (path : Text) (generation : ℕ) (key : Text)
  | deletePrefixChange (path : Text) (generation : ℕ) (key : Text)

abbrev Batch (H : Type) := List (Write H)

inductive Halt
  | retry
  | fail (e : DkvsError)
deriving DecidableEq

abbrev StoreM (H : Type) [Ord H] (α : Type) := Action (Store H) Halt α

variable {H : Type} [Ord H]

def Write.apply [TransOrd H] (s : Store H) : Write H → Store H
  | putRecord record => { s with records := s.records.insert record.key record }
  | deleteRecord key => { s with records := s.records.erase key }
  | putHash hash key => { s with hashes := s.hashes.insert hash key }
  | deleteHash hash => { s with hashes := s.hashes.erase hash }
  | deleteNameTransfer name => { s with nameTransfers := s.nameTransfers.erase name }
  | putPathMeta m => { s with metas := s.metas.insert m.path m }
  | putPathStatus path dirty =>
    { s with dirtyPaths := if dirty then insert path s.dirtyPaths else s.dirtyPaths.erase path }
  | putRecordChange key generation =>
    { s with recordChanges := s.recordChanges.insert key generation }
  | deleteRecordChange key => { s with recordChanges := s.recordChanges.erase key }
  | putPrefixChange path generation key =>
    { s with prefixChanges := insert (path, generation, key) s.prefixChanges }
  | deletePrefixChange path generation key =>
    { s with prefixChanges := s.prefixChanges.erase (path, generation, key) }

abbrev Store.Holds (s : Store H) (record : Record) : Prop := s.records[record.key]? = some record

def Keyed (s : Store H) : Prop :=
  ∀ ⦃key : Text⦄ ⦃record : Record⦄, s.records[key]? = some record → record.key = key

theorem Store.Holds.eq {s : Store H} {a b} (ha : s.Holds a) (hb : s.Holds b) (h : a.key = b.key) :
    a = b := by
  rw [Store.Holds, h, hb] at ha
  exact (Option.some.inj ha).symm

theorem Keyed.holds {s : Store H} {record} (hs : Keyed s) {key : Text}
    (h : s.records[key]? = some record) : s.Holds record := by
  rw [Store.Holds, hs h]
  exact h

section

variable (lib : RecordLib H) (record : Record)

abbrev erasing : Batch H := [.deleteRecord record.key, .deleteHash (lib.recordHash record)]

abbrev storing : Batch H :=
  [.putRecord record, .putHash (lib.recordHash record) record.key]

end

def flush [TransOrd H] (s : Store H) (batch : Batch H) : Store H := batch.foldl Write.apply s

def Store.scan (s : Store H) (path : Text) : Records :=
  s.records.toList.filterMap fun (key, record) =>
    if path.isPrefixOf key && (path == [] || inPath path record.key) then some record else none

/-- `writeStateSnapshot`: what a writer has read of its slot. -/
structure WriteStateSnapshot where
  existing : Option Record
  requiresResolve : Bool
  policyGeneration : ℕ

namespace WriteStateSnapshot

variable (snapshot : WriteStateSnapshot)

def existingSeq : ℕ := snapshot.existing.elim 0 (·.seq)

def existingPubKey : Bytes := snapshot.existing.elim [] (·.pubKey)

end WriteStateSnapshot

section

variable (s : Store H)

def requiresNameResolve (parsed : ParsedKey) : Bool :=
  parsed.ns == .name && parsed.segments.length == 1 && parsed.segments.headD [] ∈ s.nameTransfers

def readWriteStateSnapshot (key : Text) (parsed : ParsedKey)
    (validators : Validators) : WriteStateSnapshot where
  existing := s.records[key]?
  requiresResolve := requiresNameResolve s parsed
  policyGeneration := validators.policyGeneration

def writeStateStillCurrentLocked [DecidableEq H] (lib : RecordLib H) (s : Store H) (key : Text)
    (parsed : ParsedKey) (policyGeneration : ℕ) (snapshot : WriteStateSnapshot) : Bool :=
  policyGeneration == snapshot.policyGeneration &&
    lib.recordStateHash s.records[key]? == lib.recordStateHash snapshot.existing &&
    s.records[key]?.all (fun record =>
      record.seq == snapshot.existingSeq && record.pubKey == snapshot.existingPubKey) &&
    (!(parsed.ns == .name && parsed.segments.length == 1) ||
      requiresNameResolve s parsed == snapshot.requiresResolve)

def markChangedRecordBatch (path key : Text) (generation : ℕ) : DkvsM (Batch H) :=
  if path = [] ∨ key = [] ∨ generation = 0 then .error .invalidRecord
  else
    let old := s.recordChanges[key]?
    .ok (old.toList.map (Write.deletePrefixChange path · key) ++
      [.putRecordChange key generation, .putPrefixChange path generation key])

def clearChangedRecordBatch (path key : Text) : DkvsM (Batch H) :=
  if path = [] ∨ key = [] then .error .invalidRecord
  else
    match s.recordChanges[key]? with
    | none => .ok []
    | some old => .ok [.deletePrefixChange path old key, .deleteRecordChange key]

end

/-! ### Path metadata -/

variable [TransOrd H] [DecidableEq H] (lib : RecordLib H)

structure WritePrecondition (H : Type) where
  expectedHash : Option H
  expectAbsent : Bool

structure CASMutation (H : Type) where
  record : Record
  precondition : WritePrecondition H

abbrev Mutations (H : Type) := List (CASMutation H)

structure PreparedCASMutation (H : Type) where
  mutation : CASMutation H
  parsed : ParsedKey
  snapshot : WriteStateSnapshot
  forceReplace : Bool
  retention : Option PaidRecordRetention
  applied : Bool

abbrev Prepared (H : Type) := List (PreparedCASMutation H)

abbrev PreparedCASMutation.key (item : PreparedCASMutation H) : Text := item.mutation.record.key

namespace RecordLib

omit [Ord H] [TransOrd H] [DecidableEq H]

def updateMinExpiry (least : ℕ) (record : Record) : ℕ :=
  let expiry := recordExpiryHeight record
  if isTombstone record.flags || lib.isFreeLocalRecord record then least
  else if expiry ≠ 0 ∧ (least = 0 ∨ expiry < least) then expiry
  else least

def countIn (m : PathMeta) (record : Record) : PathMeta :=
  { m with
    activeRecords := m.activeRecords + 1
    activeTotalSize := m.activeTotalSize + recordSize record
    stateRoot := m.stateRoot ^^^ lib.pathMetaRecordLeaf record
    minExpiryHeight := lib.updateMinExpiry m.minExpiryHeight record }

end RecordLib

def PathMeta.blank (path : Text) (generation endpointGeneration height : ℕ) : PathMeta :=
  ⟨path, generation, endpointGeneration, 0, 0, 0, 0, height⟩

namespace Store

omit [TransOrd H] [DecidableEq H]

def readPathMetaLocked (s : Store H) (path : Text) : Option PathMeta :=
  s.metas[path]?.map fun m => { m with path := path }

/-- The records that path metadata commits to: active and visible to the network. -/
def visibleRecords (s : Store H) (tip : Option ℕ) (path : Text) (height : ℕ) : Records :=
  (s.scan (trimSlash path)).filter fun record =>
    lib.recordActive tip record height && lib.networkPathRecordVisible s.retentions record height

def computePathMetaViewLocked (s : Store H) (tip : Option ℕ) (path : Text) (height : ℕ) :
    PathMeta :=
  let previous := s.readPathMetaLocked path
  (s.visibleRecords lib tip path height).foldl lib.countIn
    (.blank path (previous.elim 0 (·.generation)) (previous.elim 0 (·.endpointGeneration)) height)

end Store

variable (m : PathMeta) (tip : Option ℕ)

def rebuildPathMetaLocked (path : Text) (height : ℕ) : StoreM H PathMeta := do
  let s ← get
  let m := s.computePathMetaViewLocked lib tip path height
  set (flush s [.putPathMeta m, .putPathStatus path false])
  return m

def pathMetaNeedsRebuild (dirty : Bool) (height : ℕ) : Bool :=
  dirty || m.viewHeight != height ||
    (height != 0 && m.minExpiryHeight != 0 && m.minExpiryHeight ≤ height)

def ensurePathMetaLocked (path : Text) (height : ℕ) : StoreM H PathMeta := do
  .refuse (path == [] || !isCanonicalCollectionPath path) (.fail .invalidKey)
  let s ← get
  match s.readPathMetaLocked path with
  | none => rebuildPathMetaLocked lib tip path height
  | some m =>
    if path ∉ s.dirtyPaths ∧ m.viewHeight < height ∧ height < m.minExpiryHeight then
      -- Nothing counted in expires up to here, so the commitment is carried over.
      let m := { m with viewHeight := height }
      set (flush s [.putPathMeta m])
      return m
    else if pathMetaNeedsRebuild m (path ∈ s.dirtyPaths) height then
      rebuildPathMetaLocked lib tip path height
    else return m

def RecordLib.countOut (record : Record) : DkvsM PathMeta :=
  if m.activeRecords = 0 ∨ m.activeTotalSize < recordSize record then .error .pathDiverged
  else .ok { m with
    stateRoot := m.stateRoot ^^^ lib.pathMetaRecordLeaf record
    activeRecords := m.activeRecords - 1
    activeTotalSize := m.activeTotalSize - recordSize record
    minExpiryHeight :=
      let expiry := recordExpiryHeight record
      if expiry ≠ 0 ∧ expiry = m.minExpiryHeight then 0 else m.minExpiryHeight }

/-- The metadata without the record that is replaced, if it was counted in. -/
def RecordLib.countOutExisting (existing : Option Record) (visible : Bool) : DkvsM PathMeta :=
  match existing with
  | some existing => if visible then lib.countOut m existing else .ok m
  | none => .ok m

def RecordLib.mutatePathMeta (existing : Option Record) (next : Record)
    (beforeVisible afterVisible : Bool) (height : ℕ) : DkvsM PathMeta := do
  require (m.endpointGeneration != maxUint64) .staleGeneration
  let m := { m with endpointGeneration := m.endpointGeneration + 1 }
  let m ← lib.countOutExisting m existing beforeVisible
  let m := if afterVisible then lib.countIn m next else m
  require (!((beforeVisible || afterVisible) && m.generation == maxUint64)) .staleGeneration
  return { m with
    generation := if beforeVisible || afterVisible then m.generation + 1 else m.generation
    viewHeight := height }

def pathMetaForMutationLocked (parsed : ParsedKey) (existing : Option Record)
    (next : Record) (nextVisible : Bool) (height : ℕ) : StoreM H (Option PathMeta) := do
  let path := collectionPath parsed
  if path == [] || pathLocalOnly parsed then return none
  else
    let m ← ensurePathMetaLocked lib tip path height
    let s ← get
    let beforeVisible := lib.existingRecordActive tip existing height &&
      existing.any (lib.networkPathRecordVisible s.retentions · height)
    let afterVisible := !isTombstone next.flags && !lib.isEndpointCacheRecord next &&
      nextVisible && !isExpired next height
    let m ← .ofExcept .fail (lib.mutatePathMeta m existing next beforeVisible afterVisible height)
    return some m

omit [Ord H] [TransOrd H] [DecidableEq H] in
def PreparedCASMutation.isLocalOnly (lib : RecordLib H) (item : PreparedCASMutation H) : Bool :=
  pathLocalOnly item.parsed || item.parsed.ns == .mail ||
    if isTombstone item.mutation.record.flags then
      item.snapshot.existing.any lib.isEndpointCacheRecord
    else lib.isEndpointCacheRecord item.mutation.record

def touchedPaths (ready : Prepared H) : List Text :=
  ((ready.filter (!pathLocalOnly ·.parsed)).map (collectionPath ·.parsed)).dedup

def itemsOf (path : Text) (ready : Prepared H) : Prepared H :=
  ready.filter fun item => !pathLocalOnly item.parsed && collectionPath item.parsed == path

def projectItem (s : Store H) (height : ℕ) (byKey : ExtTreeMap Text Record)
    (item : PreparedCASMutation H) : ExtTreeMap Text Record :=
  let record := item.mutation.record
  if !isTombstone record.flags &&
      (item.retention.isSome || lib.networkPathRecordVisible s.retentions record height) then
    (byKey.erase record.key).insert record.key record
  else byKey.erase record.key

def indexByKey (records : Records) : ExtTreeMap Text Record :=
  records.foldl (fun byKey record => byKey.insert record.key record) ∅

def projectPathMeta (s : Store H) (tip : Option ℕ) (path : Text) (current : PathMeta)
    (group : Prepared H) (height : ℕ) : DkvsM PathMeta := do
  require (current.endpointGeneration != maxUint64) .staleGeneration
  let active := indexByKey (s.visibleRecords lib tip path height)
  let canonical := group.filter (!·.isLocalOnly lib)
  let byKey := canonical.foldl (projectItem lib s height) active
  require (canonical.isEmpty || current.generation != maxUint64) .staleGeneration
  let generation := if canonical.isEmpty then current.generation else current.generation + 1
  return (byKey.toList.map Prod.snd).foldl lib.countIn
    (.blank path generation (current.endpointGeneration + 1) height)

def projectPathMetasLocked (tip : Option ℕ) (ready : Prepared H) (height : ℕ) :
    StoreM H (List PathMeta) :=
  (touchedPaths ready).foldlM (fun metas path => do
    let current ← ensurePathMetaLocked lib tip path height
    let s ← get
    let m ← .ofExcept .fail (projectPathMeta lib s tip path current (itemsOf path ready) height)
    return metas ++ [m]) []

end SatoshiNet.Dkvs
