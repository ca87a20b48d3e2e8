import SatoshiNet.Dkvs.Put

/-!
Sets of records installed at once.

From `atomic_apply.go`: a snapshot import merges a set into the store, a mirror replaces the ranges
it covers.  From `path_snapshot_read.go`, `path_snapshot_apply.go` and `active_sync.go`: the network
view of one collection path, validated against its own commitment and installed in one batch.
-/

namespace SatoshiNet.Dkvs

open Lib Std

variable {H : Type} [Ord H] [TransOrd H] [DecidableEq H] (lib : RecordLib H)

section RecordSet

structure SyncRange where
  target : Text
  exact_ : Bool

variable (s : Store H) (records : Records)

def sortByKey : Records :=
  records.mergeSort fun a b => (compare a.key b.key).isLE

def cloneRecordSet : DkvsM Records := do
  require (records.all fun record => !isTombstone record.flags) .invalidSnapshot
  require (decide (records.map (·.key)).Nodup) .invalidSnapshot
  return sortByKey records

structure RecordSetEnv (H : Type) [Ord H] where
  seen : Store H
  clock : Clock
  validators : Validators
  prepareFeeCapacity : Record → DkvsM Unit
  rootMatches : Bool
  lockClock : Clock
  policyGeneration : ℕ
  (validatePreparedFeeSet flushed : DkvsM Unit)

structure PreparedRecord where
  record : Record
  retention : Option PaidRecordRetention
  forceReplace : Bool

variable (env : RecordSetEnv H) (tip : Option ℕ) (record : Record)

def prevalidateRecord (rejectFreeLocal : Bool) (record : Record) : DkvsM PreparedRecord := do
  let parsed ← lib.validateCoreWithVerifier env.clock.tip record env.clock.height false
  lib.verifyFeeProofWith env.validators.feeVerifier record parsed
  require (!(rejectFreeLocal && lib.isFreeLocalRecord record)) .freeLocalNotRelayable
  let retention ← lib.verifiedPaidRetentionAfterFeeVerification record parsed
    env.validators.feeVerifier env.clock.height
  let state := readWriteStateSnapshot env.seen record.key parsed env.validators
  let force ← lib.validateWritePermissionWith parsed record state.existing env.validators
  env.prepareFeeCapacity record
  return ⟨record, retention, force⟩

def prevalidateRecordSet (records : Records) (rejectFreeLocal : Bool) :
    DkvsM (List PreparedRecord) := do
  let ordered ← cloneRecordSet records
  ordered.mapM (prevalidateRecord lib env rejectFreeLocal)

def mergeSelects (height : ℕ) (item : PreparedRecord) : Bool :=
  !supersedes lib tip s.records[item.record.key]? item.record item.forceReplace height

def scanLocked (path : Text) (activeOnly : Bool) (height : ℕ) : Records :=
  (s.scan (trimSlash path)).filter fun record => !activeOnly || lib.recordActive tip record height

def recordsForRangesLocked (ranges : List SyncRange) (activeOnly : Bool) (height : ℕ) : Records :=
  let found := ranges.flatMap fun range =>
    if range.exact_ then
      (s.records[range.target]?).toList.filter fun record =>
        !activeOnly || lib.recordActive tip record height
    else scanLocked lib s tip range.target activeOnly height
  (indexByKey found).toList.map Prod.snd

def findKey (key : Text) : Option Record := records.find? (·.key = key)

/-- EVM sources are immutable: a replacement must carry them over unchanged. -/
def protectEVMSourceReplacement (current incoming : Records) : DkvsM Unit :=
  require (current.all fun record =>
    !(parseKey record.key).toOption.any isEVMSourceKey ||
      (findKey incoming record.key).any (lib.recordHash · == lib.recordHash record)) .writeConflict

def alreadyStored : Bool :=
  (s.records[record.key]?).any (lib.recordHash · == lib.recordHash record)

def installRecord : DkvsM (Batch H) :=
  if alreadyStored lib s record then .ok []
  else (lib.marshalRecord record).map fun _ =>
    (s.records[record.key]?).toList.map (.deleteHash <| lib.recordHash ·) ++ storing lib record

/-- The stored records that a change of the set touches, before and after it. -/
def touchedBy (removed installed : Records) : Records :=
  removed ++ (installed.filter (!alreadyStored lib s ·)).flatMap fun record =>
    (s.records[record.key]?).toList ++ [record]

def announcedPath : Option Text :=
  match parseKey record.key with
  | .error _ => none
  | .ok parsed =>
    if collectionPath parsed = [] ∨ pathLocalOnly parsed then none else some (collectionPath parsed)

def markPathMetaDirty (touched : Records) (height : ℕ) (path : Text) : DkvsM (Batch H) := do
  let networkChanged := touched.any fun record =>
    announcedPath record == some path && !lib.isEndpointCacheRecord record
  let m := (s.readPathMetaLocked path).getD (.blank path 0 0 height)
  require (m.endpointGeneration != maxUint64 && !(networkChanged && m.generation == maxUint64))
    .staleGeneration
  return [.putPathMeta { m with
      endpointGeneration := m.endpointGeneration + 1
      generation := if networkChanged then m.generation + 1 else m.generation },
    .putPathStatus path true]

def markPathMetaDirtyLocked (touched : Records) (height : ℕ) : DkvsM (Batch H) := do
  let batches ← ((touched.filterMap announcedPath).dedup).mapM (markPathMetaDirty lib s touched height)
  return batches.flatten

def markDirtyChangedRecordBatch (present : Bool) (key : Text) : DkvsM (Batch H) := do
  let parsed ← parseKey key
  let path := collectionPath parsed
  if path == [] || pathLocalOnly parsed then return []
  else if !present then clearChangedRecordBatch s path key
  else
    match s.readPathMetaLocked path with
    | none => markChangedRecordBatch s path key 1
    | some m =>
      require (m.endpointGeneration != maxUint64) .staleGeneration
      markChangedRecordBatch s path key (m.endpointGeneration + 1)

def recordSetRetentions (cache : RetentionCache) (removed : Records)
    (installed : List PreparedRecord) : RetentionCache :=
  let cache := forgetRetentions cache removed
  installed.foldl (fun cache item =>
    item.retention.elim (cache.erase item.record.key) (cache.insert item.record.key ·)) cache

/-- One attempt of `applyRecordSetAtomic`; the answer is the number of records installed. -/
def applyRecordSetAttempt (records : Records)
    (replace : Option (List SyncRange)) (checkRoot authoritative rejectFreeLocal : Bool) :
    StoreM H ℕ := do
  let prepared ← check (prevalidateRecordSet lib env records rejectFreeLocal)
  .refuse (checkRoot && !env.rootMatches) (.fail .invalidSnapshot)
  -- From here on the lock is held.
  let s ← get
  let height := env.lockClock.height
  let tip := env.lockClock.tip
  .refuse (s.generation != env.seen.generation ||
    env.policyGeneration != env.validators.policyGeneration || height != env.clock.height) .retry
  let all := prepared.map (·.record)
  check (validateContractIncomingLocked s all [])
  let ordered := if authoritative then prepared else prepared.filter (mergeSelects lib s tip height)
  .ofExcept retryOnConcurrentUpdate env.validatePreparedFeeSet
  let installed := ordered.map (·.record)
  let current := (replace.elim [] fun ranges =>
    recordsForRangesLocked lib s tip ranges authoritative height).filter fun record =>
      !lib.isLocalOnlyRecord s.retentions record height
  check (protectEVMSourceReplacement lib current installed)
  check (validateContractIncomingLocked s all (current.map (·.key)))
  let removed := current.filter fun record => (findKey installed record.key).isNone
  let installs ← check (installed.mapM (installRecord lib s))
  let touched := touchedBy lib s removed installed
  let dirty ← check (markPathMetaDirtyLocked lib s touched height)
  let marks ← check ((touched.map (·.key)).dedup.mapM fun key =>
    markDirtyChangedRecordBatch s (findKey installed key).isSome key)
  check (if touched.isEmpty then .ok () else env.flushed)
  set { flush s (removed.flatMap (erasing lib) ++
      installs.flatten ++ dirty ++ marks.flatten) with
    generation := if touched.isEmpty then s.generation else s.generation + 1
    retentions := recordSetRetentions s.retentions removed ordered }
  return (installed.filter (!alreadyStored lib s ·)).length

end RecordSet

structure PathSnapshot where
  path : Text
  pathMeta : PathMeta
  records : Records
deriving DecidableEq

structure ValidatedPathSnapshot where
  path : Text
  pathMeta : PathMeta
  active : Records
  retentions : List (Text × Option PaidRecordRetention)
  (policyVersion height : ℕ)

def maxNetworkSnapshotBytes : ℕ := 64 * 1024 * 1024

def maxPrefixLength : ℕ := 256

def stringsTrimPath : Text → Text
  | [] => []
  | c :: rest => c :: (rest.reverse.dropWhile (· == '/')).reverse

def networkNamespace : Namespace → Bool
  | .mail | .topic | .tmp => false
  | _ => true

def normalizeNetworkScope (path : Text) : DkvsM Text := do
  let path := trimSlash (trimSpace path)
  require (path.length ≤ maxPrefixLength && isCanonicalCollectionPath path) .invalidKey
  let parsed ← parsePrefix path
  require (!pathLocalOnly parsed) .invalidKey
  require (networkNamespace parsed.ns) .freeLocalNotRelayable
  return path

def validateSnapshotPermission (record : Record) (parsed : ParsedKey) (validators : Validators) :
    DkvsM Unit :=
  if isEVMSourceKey parsed then
    lib.validateEVMSourceWrite record none validators.evmSourceVerifier
  else if isAuthorityContractKey parsed then
    lib.validateAuthorityContractPermissionWith record validators.system
  else if isPrimaryDIDRecord parsed then validators.primaryDID record parsed
  else if record.pubKey == [] then lib.validateRecordIdentity record parsed
  else if parsed.ns == .mail then lib.validateMailWritePermissionWith parsed record
  else lib.validatePermissionWith parsed record.pubKey validators

section

variable (clock : Clock) (validators : Validators) (path : Text) (viewHeight : ℕ)

def validateSnapshotRecord (total : ℕ) (record : Record) : DkvsM (Option PaidRecordRetention) := do
  let parsed ← (parseKey record.key).mapError fun _ => .invalidSnapshot
  require (collectionPath parsed == path && record.flags == 0) .invalidSnapshot
  require (networkNamespace parsed.ns && !lib.isFreeLocalRecord record &&
    !lib.isEndpointCacheRecord record) .freeLocalNotRelayable
  require (total + recordSize record ≤ maxNetworkSnapshotBytes) .batchTooLarge
  let _ ← lib.validateCoreWithVerifier clock.tip record viewHeight false
  validateSnapshotPermission lib record parsed validators
  lib.verifyFeeProofWith validators.feeVerifier record parsed
  lib.verifiedPaidRetentionAfterFeeVerification record parsed validators.feeVerifier clock.height

structure SnapshotTally where
  computed : PathMeta
  active : Records
  retentions : List (Text × Option PaidRecordRetention)

def validateSnapshotStep (tally : SnapshotTally) (record : Record) : DkvsM SnapshotTally := do
  require ((findKey tally.active record.key).isNone) .invalidSnapshot
  let retention ← validateSnapshotRecord lib clock validators path viewHeight
    tally.computed.activeTotalSize record
  return ⟨lib.countIn tally.computed record, tally.active ++ [record],
    tally.retentions ++ [(record.key, retention)]⟩

def validatePathSnapshot (snapshot : PathSnapshot) : DkvsM ValidatedPathSnapshot := do
  let path := stringsTrimPath snapshot.path
  let claimed := snapshot.pathMeta
  require ((normalizeNetworkScope path).isOk && claimed.path == path) .invalidSnapshot
  require (claimed.viewHeight ≤ clock.issueHeightTip) .staleEndpoint
  let tally ← snapshot.records.foldlM
    (validateSnapshotStep lib clock validators path claimed.viewHeight)
    ⟨.blank path claimed.generation 0 claimed.viewHeight, [], []⟩
  let computed := tally.computed
  require (computed.stateRoot == claimed.stateRoot &&
    computed.activeRecords == claimed.activeRecords &&
    computed.activeTotalSize == claimed.activeTotalSize &&
    computed.minExpiryHeight == claimed.minExpiryHeight) .pathDiverged
  return ⟨path, computed, sortByKey tally.active, tally.retentions, validators.policyGeneration,
    clock.height⟩

end

structure ActiveMeta where
  (endpointID path : Text)
  generation : ℕ
  root : BitVec 256
  viewHeight : ℕ
deriving DecidableEq

def activeScopeMatches (path key : Text) : Bool :=
  (parseKey key).toOption.any (collectionPath · == path) && path != []

section

variable (s : Store H) (endpointID : Text) (tip : Option ℕ) (path : Text) (height : ℕ)
  (record : Record)

/-- A complete view needs every payment known and no record from the future. -/
def networkRecordReadyLocked : DkvsM Unit :=
  require (!activeScopeMatches path record.key || lib.isEndpointCacheRecord record ||
    (record.issueHeight ≤ height && (!lib.isAutopayRecord record ||
      (s.retentions[record.key]?).any fun retention =>
        paidRetentionCurrent retention height || height ≤ retention.currentBlock))) .concurrentUpdate

def activeScopeRecord : Bool :=
  activeScopeMatches path record.key && lib.recordActive tip record height &&
    lib.networkPathRecordVisible s.retentions record height

def activeMetaLocked : DkvsM ActiveMeta := do
  let stored := (s.records.toList.filter fun entry => path.isPrefixOf entry.1).map Prod.snd
  let root ← stored.foldlM (fun (root : BitVec 256) (record : Record) => do
    networkRecordReadyLocked lib s path height record
    return if activeScopeRecord lib s tip path height record then
      root ^^^ lib.pathMetaRecordLeaf record else root) 0
  return ⟨endpointID, path, (s.readPathMetaLocked path).elim 0 (·.endpointGeneration), root, height⟩

structure SnapshotEnv where
  clock : Clock
  validators : Validators
  endpointID : Text
  lockClock : Clock
  policyGeneration : ℕ
  flushed : DkvsM Unit

def checkBaseline (env : SnapshotEnv) (baseline : ActiveMeta) : DkvsM Unit := do
  require (baseline.endpointID == env.endpointID) .endpointMismatch
  let current ← activeMetaLocked lib s env.endpointID env.lockClock.tip baseline.path
    baseline.viewHeight
  require (current.generation == baseline.generation && current.root == baseline.root)
    .concurrentUpdate

/-- The stored records that the snapshot replaces: those it names, and those the network sees. -/
def replaceableRecords (validated : ValidatedPathSnapshot) (height : ℕ) : Records :=
  (s.scan (trimSlash validated.path)).filter fun record =>
    (findKey validated.active record.key).isSome ||
      !lib.isLocalOnlyRecord s.retentions record height

def snapshotRemoval : DkvsM (Batch H) :=
  (clearChangedRecordBatch s path record.key).map fun clear => erasing lib record ++ clear

def snapshotInstall (generation : ℕ) (record : Record) : DkvsM (Batch H) := do
  lib.marshalRecord record
  let mark ← markChangedRecordBatch s path record.key generation
  return storing lib record ++ mark

end

def sameIn (records : Records) (record : Record) : Bool :=
  (findKey records record.key).any (lib.recordHash · == lib.recordHash record)

def snapshotMeta (previous : PathMeta) (validated : ValidatedPathSnapshot) (changed : Bool) :
    DkvsM PathMeta := do
  require (!(changed && (previous.generation == maxUint64 ||
    previous.endpointGeneration == maxUint64))) .staleGeneration
  let bump := if changed then 1 else 0
  return { validated.pathMeta with
    generation := previous.generation + bump
    endpointGeneration := previous.endpointGeneration + bump }

def applyValidatedSnapshot (env : SnapshotEnv) (validated : ValidatedPathSnapshot)
    (baseline : Option ActiveMeta) : StoreM H ℕ := do
  .refuse (env.policyGeneration != validated.policyVersion ||
    env.lockClock.height != validated.height) (.fail .concurrentUpdate)
  let s ← get
  check (baseline.elim (.ok ()) (checkBaseline lib s env))
  let previous ← ensurePathMetaLocked lib env.lockClock.tip validated.path env.lockClock.height
  .refuse (baseline.isNone && previous.generation != 0 &&
    previous.stateRoot != validated.pathMeta.stateRoot) (.fail .staleEndpoint)
  let s ← get
  let stored := s.scan (trimSlash validated.path)
  check (protectEVMSourceReplacement lib stored validated.active)
  check (if "/contract/".toList.isPrefixOf validated.path then
    validateContractIncomingLocked s validated.active
      ((stored.map (·.key)).filter isAuthorityKey) else .ok ())
  let current := replaceableRecords lib s validated env.lockClock.height
  let removed := current.filter (!sameIn lib validated.active ·)
  let installed := validated.active.filter (!sameIn lib current ·)
  let m ← check (snapshotMeta previous validated (!removed.isEmpty || !installed.isEmpty))
  let removals ← check (removed.mapM (snapshotRemoval lib s validated.path))
  let installs ← check
    (installed.mapM (snapshotInstall lib s validated.path m.endpointGeneration))
  check env.flushed
  set { flush s (removals.flatten ++ installs.flatten ++
      [.putPathMeta m, .putPathStatus validated.path false]) with
    generation := if removed.isEmpty && installed.isEmpty then s.generation else s.generation + 1
    retentions := validated.retentions.foldl
      (fun (cache : RetentionCache) (entry : Text × Option PaidRecordRetention) =>
        entry.2.elim cache (cache.insert entry.1 ·)) (forgetRetentions s.retentions removed) }
  return validated.active.length

def applyCurrentPathSnapshot (env : SnapshotEnv) (snapshot : PathSnapshot)
    (baseline : Option ActiveMeta) : StoreM H ℕ := do
  let validated ← check (validatePathSnapshot lib env.clock env.validators snapshot)
  applyValidatedSnapshot lib env validated baseline

end SatoshiNet.Dkvs
