import SatoshiNet.Dkvs.Put

/-!
Batch compare-and-swap, from `batch_cas.go`: a list of mutations is prepared outside the lock,
checked against the current store under it, and committed in one database batch.
-/

namespace SatoshiNet.Dkvs

open Lib Std

variable {H : Type} (lib : RecordLib H)

def maxBatchCASMutations : ℕ := 64

def maxBatchCASTotalSize : ℕ := 8 * 1024 * 1024

def WritePrecondition.valid (p : WritePrecondition H) : Bool :=
  p.expectAbsent != p.expectedHash.isSome

inductive BatchOwner
  | account (accountID : Text)
  | authority (pubKey : Bytes)
  | endpoint (pubKey : Bytes)
deriving DecidableEq

def batchMutationOwner (record : Record) (parsed : ParsedKey) : Option BatchOwner :=
  let first := parsed.segments.head?.map BatchOwner.account
  match parsed.ns with
  | .personal | .blob => first
  | .mail =>
    match parsed.segments with
    | recipient :: kind :: sender :: _ =>
      if kind = "msg".toList ∧ ¬ isTombstone record.flags then some (.account sender)
      else some (.account recipient)
    | _ => first
  | .account =>
    if parsed.segments.length = 2 then
      (lib.recordSignerAccountID record parsed).toOption.map .account
    else none
  | .name | .svc | .sys | .contract => some (.authority record.pubKey)
  | .tmp => some (.endpoint record.pubKey)
  | .topic => none

def storageModeDowngrade (record : Record) (existing : Option Record) : Bool :=
  !isTombstone record.flags && lib.isFreeLocalRecord record &&
    existing.any (!lib.isFreeLocalRecord ·)

structure BatchTally where
  seen : List Text
  total : ℕ
  owner : Option BatchOwner

variable [DecidableEq H]

def validateCASMutation (tally : BatchTally) (mutation : CASMutation H) : DkvsM BatchTally := do
  let record := mutation.record
  require mutation.precondition.valid .invalidRecord
  require (!tally.seen.contains record.key) .invalidRecord
  let parsed ← parseKey record.key
  let owner := batchMutationOwner lib record parsed
  require (owner.isSome && (tally.owner.isNone || tally.owner == owner)) .permissionDenied
  require (tally.total + recordSize record ≤ maxBatchCASTotalSize) .batchTooLarge
  require (!isTombstone record.flags || (lib.deleteTargetHash record).toOption.any fun target =>
    mutation.precondition.expectedHash == some target) .invalidRecord
  return ⟨record.key :: tally.seen, tally.total + recordSize record, owner⟩

def validateCASMutations (mutations : Mutations H) : DkvsM Unit := do
  require (!mutations.isEmpty) .invalidRecord
  require (mutations.length ≤ maxBatchCASMutations) .batchTooLarge
  let _ ← mutations.foldlM (validateCASMutation lib) (⟨[], 0, none⟩ : BatchTally)
  return ()

def mutationAlreadyApplied (record : Record) (existing : Option Record) : Bool :=
  if isTombstone record.flags then existing.isNone
  else existing.any (lib.recordHash · == lib.recordHash record)

/-- What one attempt of a batch meets.  Each mutation reads its slot on its own, so the `n`-th read
sees a store of its own; `others` is what other writers do before the lock is taken. -/
structure BatchEnv (H : Type) [Ord H] where
  seen : ℕ → Store H
  clock : Clock
  validators : Validators
  prepareFeeCapacity : ℕ → DkvsM Unit
  others : Store H → Store H
  lockClock : Clock
  policyGeneration : ℕ
  (validateBatchState flushed : DkvsM Unit)

variable [Ord H] [TransOrd H] (env : BatchEnv H)

def prepareRetention (n : ℕ) (record : Record) (parsed : ParsedKey) :
    DkvsM (Option PaidRecordRetention) :=
  if isTombstone record.flags then .ok none
  else do
    let retention ← verifiedRetention lib env.validators record parsed env.clock.height
    env.prepareFeeCapacity n
    return retention

def prepareMutation (n : ℕ) (mutation : CASMutation H) : DkvsM (PreparedCASMutation H) := do
  let record := mutation.record
  let parsed ← lib.validateCoreWithVerifier env.clock.tip record env.clock.height false
  let snapshot := readWriteStateSnapshot (env.seen n) record.key parsed env.validators
  let forceReplace ←
    lib.validateWritePermissionWith parsed record snapshot.existing env.validators
  if mutationAlreadyApplied lib record snapshot.existing then
    return ⟨mutation, parsed, snapshot, forceReplace, none, true⟩
  else
    require (!storageModeDowngrade lib record snapshot.existing) .storageModeDowngrade
    let retention ← prepareRetention lib env n record parsed
    return ⟨mutation, parsed, snapshot, forceReplace, retention, false⟩

def prepareFrom (n : ℕ) : Mutations H → DkvsM (Prepared H)
  | [] => .ok []
  | mutation :: rest => do
    let item ← prepareMutation lib env n mutation
    let items ← prepareFrom (n + 1) rest
    return item :: items

def prepareBatchCAS (mutations : Mutations H) : DkvsM (Prepared H) := do
  require (mutations.all fun mutation => !isAuthorityKey mutation.record.key) .permissionDenied
  validateCASMutations lib mutations
  prepareFrom lib env 0 mutations

def writePreconditionMatches (tip : Option ℕ) (existing : Option Record)
    (condition : WritePrecondition H) (height : ℕ) : Bool :=
  if condition.expectAbsent then !lib.existingRecordActive tip existing height
  else lib.existingRecordActive tip existing height &&
    existing.any fun stored => condition.expectedHash == some (lib.recordHash stored)

def nextCASSequence (existing : Option Record) : DkvsM ℕ :=
  match existing with
  | none => .ok 1
  | some stored => if stored.seq = maxUint64 then .error .invalidSequence else .ok (stored.seq + 1)

def isDirectMessage (parsed : ParsedKey) : Bool :=
  parsed.ns == .mail && parsed.segments.length == 4 && parsed.segments[1]? == some "msg".toList

variable (s : Store H) (env : BatchEnv H) (metas : List PathMeta) (item : PreparedCASMutation H)
  (items ready : Prepared H)

/-- The first pass over the batch: the slots are as they were read, and no record has expired. -/
def stillCurrentLocked : DkvsM Unit := do
  require (writeStateStillCurrentLocked lib s item.key item.parsed
    env.policyGeneration item.snapshot) .concurrentUpdate
  require (!isExpired item.mutation.record env.lockClock.issueHeightTip) .expiredRecord

def readyLocked : DkvsM Unit := do
  let record := item.mutation.record
  let existing := item.snapshot.existing
  let height := env.lockClock.issueHeightTip
  let active := lib.existingRecordActive env.lockClock.tip existing height
  require (!storageModeDowngrade lib record existing) .storageModeDowngrade
  require (writePreconditionMatches lib env.lockClock.tip existing item.mutation.precondition height)
    .writeConflict
  let nextSeq ← nextCASSequence (if active then existing else none)
  require (record.seq == nextSeq) .invalidSequence
  if isTombstone record.flags then
    require (lib.deleteTargetsRecord record existing) .writeConflict
  else
    require (!(isDirectMessage item.parsed && !item.mutation.precondition.expectAbsent))
      .writeConflict
    require (!(active && !item.forceReplace && existing.any fun stored =>
      record.issueHeight < stored.issueHeight ||
        (lib.compareCurrentRecords stored record).isGE)) .writeConflict

def checkEach {α : Type} (f : α → DkvsM Unit) (l : List α) : DkvsM Unit :=
  l.foldlM (fun _ a => f a) ()

/-- `batchCASReadyLocked`: the mutations to commit, none of them when all are in effect already. -/
def batchCASReadyLocked : DkvsM (Prepared H) := do
  require (env.policyGeneration == env.validators.policyGeneration &&
    env.lockClock.height == env.clock.height) .concurrentUpdate
  checkEach (stillCurrentLocked lib s env) items
  if items.any (·.applied) then
    require (items.all (·.applied)) .writeConflict
    return []
  else
    checkEach (readyLocked lib env) items
    return items

def recordWrites (record : Record) : DkvsM (Batch H) :=
  if isTombstone record.flags then .ok [.deleteRecord record.key]
  else (lib.marshalRecord record).map fun _ => storing lib record

def changeMarks : DkvsM (Batch H) :=
  let record := item.mutation.record
  match metas.find? (·.path = collectionPath item.parsed) with
  | none => .ok []
  | some m =>
    if isTombstone record.flags then clearChangedRecordBatch s m.path record.key
    else markChangedRecordBatch s m.path record.key m.endpointGeneration

def commitItem : DkvsM (Batch H) := do
  let change ← recordWrites lib item.mutation.record
  let mark ← changeMarks s metas item
  return item.snapshot.existing.toList.map (.deleteHash <| lib.recordHash ·) ++ change ++
    (if item.snapshot.requiresResolve && item.parsed.ns == .name then
      [.deleteNameTransfer (item.parsed.segments.headD [])] else []) ++ mark

omit [TransOrd H] [DecidableEq H] in
def commitRetention (cache : RetentionCache) (item : PreparedCASMutation H) : RetentionCache :=
  let key := item.key
  if isTombstone item.mutation.record.flags then cache.erase key
  else item.retention.elim cache (cache.insert key ·)

def sortStates (states : List (Text × ℕ)) : List (Text × ℕ) :=
  states.mergeSort fun a b => (compare a.1 b.1).isLE

/-- The source's `commitBatchCASLocked`; `halt` is what its caller makes of a failed flush. -/
def commitReadyLocked (tip : Option ℕ) (flushed : DkvsM Unit) (halt : DkvsError → Halt)
    (ready : Prepared H) (height : ℕ) : StoreM H (List (Text × ℕ)) := do
  let metas ← projectPathMetasLocked lib tip ready height
  let s ← get
  let batches ← check (ready.mapM (commitItem lib s metas))
  .ofExcept halt flushed
  set { flush s (batches.flatten ++
      metas.flatMap fun m => [.putPathMeta m, .putPathStatus m.path false]) with
    generation := s.generation + 1
    retentions := ready.foldl commitRetention s.retentions }
  return sortStates (metas.map fun m => (m.path, m.endpointGeneration))

def commitBatchCASLocked : StoreM H (List (Text × ℕ)) :=
  commitReadyLocked lib env.lockClock.tip env.flushed retryOnConcurrentUpdate ready
    env.lockClock.issueHeightTip

omit [TransOrd H] [DecidableEq H] in
def prefixStatesForPreparedLocked : DkvsM (List (Text × ℕ)) := do
  let paths := touchedPaths items
  require (!paths.contains []) .invalidKey
  return sortStates
    (paths.map fun path => (path, (s.readPathMetaLocked path).elim 0 (·.endpointGeneration)))

structure WriteResult (H : Type) where
  applied : ℕ
  records : Records
  hashes : List H
  prefixStates : List (Text × ℕ)
  viewHeight : ℕ
  localOnly : Bool
deriving DecidableEq

def finishBatchLocked (s : Store H) (items ready : Prepared H) : StoreM H (List (Text × ℕ)) :=
  if ready.isEmpty then .ofExcept retryOnConcurrentUpdate (prefixStatesForPreparedLocked s items)
  else do
    .ofExcept retryOnConcurrentUpdate env.validateBatchState
    commitBatchCASLocked lib env ready

def batchAttempt (mutations : Mutations H) : StoreM H (WriteResult H) := do
  let items ← .ofExcept retryOnConcurrentUpdate (prepareBatchCAS lib env mutations)
  -- From here on the lock is held.
  let s ← get
  let ready ← .ofExcept retryOnConcurrentUpdate (batchCASReadyLocked lib s env items)
  let states ← finishBatchLocked lib env s items ready
  return {
    applied := ready.length
    records := items.map (·.mutation.record)
    hashes := items.map fun item => lib.recordHash item.mutation.record
    prefixStates := states
    viewHeight := env.lockClock.issueHeightTip
    localOnly := items.any (·.isLocalOnly lib) }

/-- The answer of a batch, the store it found under the lock in its last attempt, and the store
it left. -/
structure BatchOutcome (H : Type) [Ord H] where
  answer : DkvsM (WriteResult H)
  (found final : Store H)

/-- `PutLocalBatchCASResultWithOptions`, with one environment for each attempt. -/
def putLocalBatchCASResultWithOptions (mutations : Mutations H) :
    List (BatchEnv H) → Store H → BatchOutcome H
  | [], s => ⟨.error .concurrentUpdate, s, s⟩
  | env :: rest, s =>
    match (batchAttempt lib env mutations).exec (env.others s) with
    | (.error .retry, t) => putLocalBatchCASResultWithOptions mutations rest t
    | (.error (.fail e), t) => ⟨.error e, env.others s, t⟩
    | (.ok result, t) => ⟨.ok result, env.others s, t⟩

end SatoshiNet.Dkvs
