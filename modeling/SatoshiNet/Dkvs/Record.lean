import Std.Data.ExtTreeMap
import SatoshiNet.Dkvs.Key

/-!
Records of the key-value store: `record.go`, `active_delete.go`, the record kinds of
`free_local.go`, `replication.go`, `mailbox_internal.go` and `topic_internal.go`, and the payment
facts of `paid_retention.go`.
Their admission and visibility: `write_validation.go`, `validateStoredPermission` and `activeError`
of `indexer.go`.  The verifiers are interfaces of the source and stay parameters here.
-/

namespace SatoshiNet.Dkvs

open Lib

section

def maxUint64 : ℕ := 2 ^ 64 - 1

structure Record where
  version : ℕ
  key : Text
  (value pubKey signature : Bytes)
  (seq issueHeight ttl : ℕ)
  feeProof : Bytes
  flags : ℕ
deriving DecidableEq

abbrev Records := List Record

inductive FeeMode
  | oneshot | lease | autopay | freeLocal
deriving DecidableEq

/-- What a record's bytes are read with: the hashes, the signature check, the account functions and
the decoders of fee proofs and account descriptors. -/
structure RecordLib (H : Type) where
  recordHash : Record → H
  zeroHash : H
  hashOfBytes : Bytes → H
  pathMetaRecordLeaf : Record → BitVec 256
  /-- The mode of the fee proof that `ParseFeeProof` accepts. -/
  feeMode : Bytes → Option FeeMode
  verifySignature : Record → DkvsM Unit
  validateRecordIdentity : Record → ParsedKey → DkvsM Unit
  recordSignerAccountID : Record → ParsedKey → DkvsM Text
  accountID : Bytes → Text
  decodesServiceDescriptor : Bytes → Bool
  /-- `MarshalRecord` refuses what is beyond the wire limits. -/
  marshalRecord : Record → DkvsM Unit

def recordVersion : ℕ := 1

def isTombstone (flags : ℕ) : Bool := flags % 2 == 1

variable (record : Record)

def recordExpiryHeight : ℕ :=
  if record.ttl = 0 ∨ maxUint64 - record.ttl < record.issueHeight then 0
  else record.issueHeight + record.ttl

def isExpired (height : ℕ) : Bool :=
  recordExpiryHeight record != 0 && recordExpiryHeight record ≤ height

def varIntSerializeSize (val : ℕ) : ℕ :=
  if val < 0xfd then 1 else if val ≤ 0xffff then 3 else if val ≤ 0xffffffff then 5 else 9

def recordSize : ℕ :=
  let sized (n : ℕ) := varIntSerializeSize n + n
  4 + sized record.key.length + sized record.value.length + sized record.pubKey.length +
    sized record.signature.length + 24 + sized record.feeProof.length + 4

def isInternalTopicRecord : Bool :=
  record.version == recordVersion && record.seq != 0 && record.ttl == 0 &&
    !isTombstone record.flags && record.value != [] && record.pubKey == [] &&
    record.signature == [] && record.feeProof == [] &&
    (parseKey record.key).toOption.any (·.ns == .topic)

/-- The mailbox records that only the message manager writes; `free` tells a `FREE_LOCAL` proof. -/
def isInternalMailboxShape (free : Bool) (record : Record) (parsed : ParsedKey) : Bool :=
  let unproved := record.feeProof == []
  parsed.ns == .mail &&
    match parsed.segments with
    | [_, kind, _, _] => kind == "msg".toList && (unproved || free)
    | [_, kind, _, sub, _, _] => unproved && kind == "topic".toList && sub == "msg".toList
    | [_, kind, _, sub, _] => unproved && kind == "topic".toList && sub == "key".toList
    | _ => false

structure PaidRecordRetention where
  (currentBlock lastPayHeight : ℕ)

variable (retention : PaidRecordRetention)

def paidRetentionCurrent (height : ℕ) : Bool :=
  let current := max height retention.currentBlock
  current != 0 && current ≤ retention.lastPayHeight

def paidRetentionExpired (height graceBlocks : ℕ) : Bool :=
  let current := max height retention.currentBlock
  if current = 0 then false
  else if current ≤ retention.lastPayHeight then false
  else if retention.lastPayHeight = 0 then true
  else if maxUint64 - graceBlocks < retention.lastPayHeight then false
  else retention.lastPayHeight + graceBlocks < current

namespace RecordLib

variable {H : Type} (lib : RecordLib H)

def hasFeeMode (mode : FeeMode) (record : Record) : Bool :=
  record.feeProof != [] && lib.feeMode record.feeProof == some mode

section

variable (record : Record)

def isFreeLocalRecord : Bool := lib.hasFeeMode .freeLocal record

def isAutopayRecord : Bool := lib.hasFeeMode .autopay record

def isInternalMailboxRecord : Bool :=
  !isTombstone record.flags && record.pubKey == [] && record.signature == [] &&
    (parseKey record.key).toOption.any (isInternalMailboxShape (lib.isFreeLocalRecord record) record)

def isAccountBoundRecord : Bool :=
  (parseKey record.key).toOption.any (·.ns == .mail)

def isEndpointCacheRecord : Bool :=
  isAccountBoundRecord record || isInternalTopicRecord record || lib.isFreeLocalRecord record

end

/-- The hash that stands for a slot of the record table; an empty slot has the zero hash. -/
def recordStateHash (record : Option Record) : H :=
  record.elim lib.zeroHash lib.recordHash

def hashSize : ℕ := 32

def deleteTargetHash (command : Record) : DkvsM H :=
  if isTombstone command.flags ∧ command.value.length = hashSize ∧ command.ttl = 0 then
    .ok (lib.hashOfBytes command.value)
  else .error .invalidRecord

variable [DecidableEq H]

def deleteTargetsRecord (command : Record) (current : Option Record) : Bool :=
  current.any fun record =>
    (lib.deleteTargetHash command).toOption == some (lib.recordHash record) &&
      record.seq != maxUint64 && command.seq == record.seq + 1

variable [Ord H] (a b : Record)

def compareCurrentRecords : Ordering :=
  if lib.isFreeLocalRecord a && lib.isFreeLocalRecord b && a.issueHeight != b.issueHeight then
    compare a.issueHeight b.issueHeight
  else
    (compare a.seq b.seq).then <| (compare a.issueHeight b.issueHeight).then <|
      compare (lib.recordHash a) (lib.recordHash b)

def sameBusinessContent : Bool :=
  a.version == b.version && a.key == b.key && a.seq == b.seq && a.flags == b.flags &&
    a.value == b.value && a.pubKey == b.pubKey

def compareOptionalUpperBound (a b : ℕ) : Ordering :=
  if a = b then .eq else if a = 0 then .gt else if b = 0 then .lt else compare a b

def compareRecords : Ordering :=
  let retention :=
    if sameBusinessContent a b then
      compareOptionalUpperBound (recordExpiryHeight a) (recordExpiryHeight b)
    else .eq
  (compare a.seq b.seq).then <| retention.then <| (compare a.issueHeight b.issueHeight).then <|
    compare (lib.recordHash a) (lib.recordHash b)

end RecordLib

/-- No two records have one hash, and no record has the hash that stands for an empty slot. -/
structure CollisionFree {H : Type} (lib : RecordLib H) : Prop where
  inj : Function.Injective lib.recordHash
  ne_zero : ∀ record, lib.recordHash record ≠ lib.zeroHash

variable {H : Type} {lib : RecordLib H}

theorem CollisionFree.recordStateHash_inj (h : CollisionFree lib) {a b}
    (hab : lib.recordStateHash a = lib.recordStateHash b) : a = b := by
  cases a with
  | none =>
    cases b with
    | none => rfl
    | some b => exact absurd hab.symm (h.ne_zero b)
  | some a =>
    cases b with
    | none => exact absurd hab (h.ne_zero a)
    | some b => exact congrArg some (h.inj hab)

end

open Std

structure DIDIdentity where
  nameID : Text
  canSign : Bytes → DkvsM Unit

structure DIDResolver where
  (resolveName resolveService : Text → DkvsM DIDIdentity)

structure FeeVerifier where
  verifyFeeProof : Record → ParsedKey → DkvsM Unit
  /-- Present when the verifier is a `PaidRecordRetentionVerifier`. -/
  paidRecordRetention : Option (Record → ParsedKey → DkvsM PaidRecordRetention)

structure Validators where
  resolver : Option DIDResolver
  feeVerifier : Option FeeVerifier
  system : Option (Text → Bytes → DkvsM Unit)
  evmSourceVerifier : Option (Record → DkvsM Unit)
  primaryDID : Record → ParsedKey → DkvsM Unit
  policyGeneration : ℕ

def maxRecordValueSize : ℕ := 16 * 1024

def maxDKVSRecordSize : ℕ := 16 * 1024

def maxDKVSBlobValueSize : ℕ := 1024 * 1024

def maxDKVSBlobRecordSize : ℕ := maxDKVSBlobValueSize + 4 * 1024

/-- `validateEVMSourceEnvelope` and `validateContractEnvelope`, which make the same checks. -/
def validateEnvelope (record : Record) : DkvsM Unit :=
  require (record.seq == 1 && record.ttl == 0 && record.flags == 0 && record.feeProof == [] &&
    record.pubKey.length == 33 && record.value != []) .invalidRecord

def isAccountScopedNamespace : Namespace → Bool
  | .account | .personal | .mail | .blob => true
  | _ => false

def isPrimaryDIDRecord (parsed : ParsedKey) : Bool :=
  parsed.ns == .personal && parsed.segments.length == 2 &&
    parsed.segments.drop 1 == ["primary_did".toList]

namespace RecordLib

variable {H : Type} (lib : RecordLib H) (tip : Option ℕ) (record : Record) (parsed : ParsedKey)
  (height : ℕ)

def validateRecordSizeForParsed : DkvsM Unit :=
  let direct := parsed.ns == .mail && parsed.segments.length == 4 &&
    parsed.segments[1]? == some "msg".toList
  let large := isBlobKey parsed || isEVMSourceKey parsed || isAuthorityContractKey parsed ||
    (direct && lib.isInternalMailboxRecord record)
  let valueLimit := if large then maxDKVSBlobValueSize else maxRecordValueSize
  let recordLimit := if large then maxDKVSBlobRecordSize else maxDKVSRecordSize
  require (record.value.length ≤ valueLimit && recordSize record ≤ recordLimit) .recordTooLarge

/-- Whether the issue height is within the chain tip.  Without a tip source the view height stands
for it, and at height zero nothing is checked. -/
def issuedBy : Bool :=
  match tip with
  | some tip => record.issueHeight ≤ tip
  | none => height == 0 || record.issueHeight ≤ height

def validateCoreWithVerifier (allowExpiredTombstone : Bool) : DkvsM ParsedKey := do
  require (record.version == recordVersion) .invalidRecord
  let parsed ← parseKey record.key
  checkWhen (isEVMSourceKey parsed || isAuthorityContractKey parsed) (validateEnvelope record)
  lib.validateRecordSizeForParsed record parsed
  require (record.flags / 2 == 0 && issuedBy tip record height &&
    !(record.ttl != 0 && recordExpiryHeight record == 0)) .invalidRecord
  require (!isExpired record height || (allowExpiredTombstone && isTombstone record.flags))
    .expiredRecord
  checkWhen (!(lib.isInternalMailboxRecord record || isInternalTopicRecord record)) do
    lib.verifySignature record
    lib.validateRecordIdentity record parsed
    checkWhen (isTombstone record.flags) ((lib.deleteTargetHash record).map fun _ => ())
  return parsed

def validateStoredPermission (record : Record) : DkvsM Unit :=
  if isEVMSourceKey parsed || isAuthorityContractKey parsed then validateEnvelope record
  else if isAccountScopedNamespace parsed.ns then lib.validateRecordIdentity record parsed
  else .ok ()

def activeError : DkvsM Unit := do
  require (!isTombstone record.flags) .recordNotFound
  let parsed ← lib.validateCoreWithVerifier tip record height true
  lib.validateStoredPermission parsed record

def recordActive : Bool :=
  (lib.activeError tip record height).isOk

def existingRecordActive (existing : Option Record) (height : ℕ) : Bool :=
  existing.any (lib.recordActive tip · height)

def isAccountMappingBindingControlRecord : Bool :=
  parsed.ns == .account && parsed.segments.length == 2 && record.pubKey == [] &&
    record.ttl == 0 && record.flags == 0 && record.feeProof == [] &&
    lib.decodesServiceDescriptor record.value

def verifyFeeProofWith (verifier : Option FeeVerifier) (record : Record) (parsed : ParsedKey) :
    DkvsM Unit :=
  if isEVMSourceKey parsed || isAuthorityContractKey parsed then validateEnvelope record
  else if lib.isAccountMappingBindingControlRecord record parsed then .ok ()
  else if lib.isAutopayRecord record && record.ttl != 0 then .error .invalidFeeProof
  else
    match verifier with
    | none => .error .feeProofRequired
    | some verifier => verifier.verifyFeeProof record parsed

def verifiedPaidRetentionAfterFeeVerification
    (verifier : Option FeeVerifier) (height : ℕ) : DkvsM (Option PaidRecordRetention) :=
  if lib.isAutopayRecord record then
    match verifier.bind (·.paidRecordRetention) with
    | none => .error .invalidFeeProof
    | some paidRecordRetention => do
      let retention ← paidRecordRetention record parsed
      require (paidRetentionCurrent retention height) .invalidFeeProof
      return some retention
  else .ok none

def resolveIdentityWith (resolver : Option DIDResolver) : DkvsM DIDIdentity := do
  let resolver ← orError resolver .didResolverUnavailable
  let subject := parsed.segments.headD []
  let identity ←
    match parsed.ns with
    | .name => resolver.resolveName subject
    | .svc => resolver.resolveService subject
    | _ => .error .invalidNamespace
  require (identity.nameID != [] && identity.nameID == subject) .permissionDenied
  return identity

def validatePermissionWith (pubKey : Bytes) (validators : Validators) : DkvsM Unit :=
  match parsed.ns with
  | .contract | .account | .mail | .topic => .error .permissionDenied
  | .personal | .blob =>
    require (2 ≤ parsed.segments.length && parsed.segments.headD [] == lib.accountID pubKey)
      .permissionDenied
  | .name | .svc => do
    let identity ← resolveIdentityWith parsed validators.resolver
    identity.canSign pubKey
  | .sys =>
    match validators.system with
    | none => .error .permissionDenied
    | some canWriteSystem => canWriteSystem (pathText parsed.ns parsed.segments) pubKey
  | .tmp => .ok ()

def validateMailWritePermissionWith (record : Record) : DkvsM Unit :=
  match parsed.segments with
  | recipient :: kind :: _ =>
    if kind = "share".toList then lib.validateRecordIdentity record parsed
    else if kind ≠ "msg".toList ∧ kind ≠ "topic".toList then .error .invalidKey
    else if isTombstone record.flags ∧
        (lib.recordSignerAccountID record parsed).toOption = some recipient then .ok ()
    else .error .permissionDenied
  | _ => .error .invalidKey

def validateAuthorityContractPermissionWith
    (system : Option (Text → Bytes → DkvsM Unit)) : DkvsM Unit := do
  let canWriteSystem ← orError system .permissionDenied
  canWriteSystem record.key record.pubKey
  validateEnvelope record
  lib.verifySignature record

variable [DecidableEq H]

def validateEVMSourceWrite (record : Record) (existing : Option Record)
    (verify : Option (Record → DkvsM Unit)) : DkvsM Unit := do
  validateEnvelope record
  require (existing.all (lib.recordHash · == lib.recordHash record)) .writeConflict
  let verify ← orError verify .permissionDenied
  verify record

/-- The permission check of a write; the answer says whether the owner has changed, so that the
stored record is replaced whatever its sequence number. -/
def validateWritePermissionWith (parsed : ParsedKey) (record : Record) (existing : Option Record)
    (validators : Validators) : DkvsM Bool :=
  let plain (check : DkvsM Unit) : DkvsM Bool := check.map fun _ => false
  if isEVMSourceKey parsed then
    plain (lib.validateEVMSourceWrite record existing validators.evmSourceVerifier)
  else if isAuthorityContractKey parsed then
    plain (lib.validateAuthorityContractPermissionWith record validators.system)
  else if isPrimaryDIDRecord parsed then
    plain do
      lib.validateRecordIdentity record parsed
      validators.primaryDID record parsed
  else if parsed.ns == .mail then plain (lib.validateMailWritePermissionWith parsed record)
  else if lib.isInternalMailboxRecord record || isInternalTopicRecord record then
    .error .permissionDenied
  else if record.pubKey == [] then plain (lib.validateRecordIdentity record parsed)
  else if parsed.ns == .name || parsed.ns == .svc then do
    let identity ← resolveIdentityWith parsed validators.resolver
    identity.canSign record.pubKey
    return existing.any fun stored =>
      stored.pubKey != record.pubKey && !(identity.canSign stored.pubKey).isOk
  else plain (lib.validatePermissionWith parsed record.pubKey validators)

end RecordLib

abbrev RetentionCache := ExtTreeMap Text PaidRecordRetention

namespace RecordLib

variable {H : Type} (lib : RecordLib H)

section

variable (cache : RetentionCache) (record : Record) (height : ℕ)

def paidRecordRelayableAt : Bool :=
  !lib.isAutopayRecord record || cache[record.key]?.any (paidRetentionCurrent · height)

def isLocalOnlyRecord : Bool :=
  lib.isEndpointCacheRecord record ||
    (lib.isAutopayRecord record && !lib.paidRecordRelayableAt cache record height)

def networkPathRecordVisible : Bool :=
  !isTombstone record.flags && !lib.isEndpointCacheRecord record &&
    lib.paidRecordRelayableAt cache record height

end

end RecordLib

section Core

variable {H : Type} {lib : RecordLib H} {record : Record}

theorem isExpired_zero (record) : isExpired record 0 = false := by
  cases h : recordExpiryHeight record <;> simp [isExpired, h]

def RecordLib.CoreSound (lib : RecordLib H) (record : Record) (parsed : ParsedKey) : Prop :=
  lib.validateCoreWithVerifier (some record.issueHeight) record 0 false = .ok parsed

theorem validateCore_eq_ok {tip} {height : ℕ} {allow} {parsed} :
    lib.validateCoreWithVerifier tip record height allow = .ok parsed ↔
      lib.CoreSound record parsed ∧ RecordLib.issuedBy tip record height = true ∧
        (!isExpired record height || (allow && isTombstone record.flags)) = true := by
  have hown : RecordLib.issuedBy (some record.issueHeight) record 0 = true := by
    simp [RecordLib.issuedBy]
  simp only [RecordLib.CoreSound, RecordLib.validateCoreWithVerifier, bind_eq_ok, require_eq_ok,
    Bool.and_eq_true, hown, isExpired_zero, and_true, Bool.not_false, Bool.true_or]
  constructor
  · rintro ⟨_, hversion, p, hparse, _, henv, _, hsize, _, ⟨⟨hflags, hissued⟩, httl⟩, _, hexp, hrest⟩
    exact ⟨⟨⟨⟩, hversion, p, hparse, _, henv, _, hsize, ⟨⟩, ⟨hflags, httl⟩, ⟨⟩, trivial, hrest⟩,
      hissued, hexp⟩
  · rintro ⟨⟨_, hversion, p, hparse, _, henv, _, hsize, _, ⟨hflags, httl⟩, _, -, hrest⟩, hissued,
      hexp⟩
    exact ⟨⟨⟩, hversion, p, hparse, _, henv, _, hsize, ⟨⟩, ⟨⟨hflags, hissued⟩, httl⟩, ⟨⟩, hexp, hrest⟩

theorem RecordLib.CoreSound.parseKey {parsed} (h : lib.CoreSound record parsed) :
    parseKey record.key = .ok parsed := by
  simp only [RecordLib.CoreSound, RecordLib.validateCoreWithVerifier, bind_eq_ok] at h
  obtain ⟨_, -, p, hparse, _, -, _, -, _, -, _, -, _, -, h⟩ := h
  rw [← Except.ok.inj h]
  exact hparse

end Core

end SatoshiNet.Dkvs
