import SatoshiNet.Dkvs.PathInstall
import SatoshiNet.Dkvs.PathServe

/-!
The transfer of a path from one store to another: a snapshot that the first serves is accepted by the
second as far as its own checks allow, and then both show the network the same records of the path.
-/

namespace SatoshiNet.Dkvs

open Function Lib Std Action List Option Bool

variable {H : Type} [Ord H] {lib : RecordLib H}

section Contracts

variable {s : Store H}

variable {records : Records}

theorem contractIncoming_returns (hnodup : (records.map Record.key).Nodup)
    (hvalues : ∀ record ∈ records, Agrees s record) (start)
    (hstart : ∀ record ∈ records, start[record.key]? = none) :
    ∃ incoming : ExtTreeMap Text Record, records.foldlM (contractIncoming s) start = .ok incoming ∧
      (∀ key : Text, start[key]?.isSome = true → incoming[key]?.isSome = true) ∧
      ∀ record ∈ records, isAuthorityKey record.key = true →
        incoming[record.key]?.isSome = true := by
  induction records generalizing start with
  | nil => exact ⟨start, rfl, fun _ h => h, forall_mem_nil _⟩
  | cons record records ih =>
    rw [map_cons, nodup_cons] at hnodup
    obtain ⟨hnone, hrest⟩ := forall_mem_cons.mp hstart
    obtain ⟨hvalue, hvalues⟩ := forall_mem_cons.mp hvalues
    cases hauth : isAuthorityKey record.key with
    | false =>
      obtain ⟨incoming, hok, hkept, hall⟩ := ih hnodup.2 hvalues start hrest
      refine ⟨incoming, foldlM_cons_eq_ok.mpr ⟨start, ?_, hok⟩, hkept,
        forall_mem_cons.mpr ⟨fun h => ?_, hall⟩⟩
      · rw [contractIncoming, hauth]
        rfl
      · rw [hauth] at h
        cases h
    | true =>
      have hstored : (s.records[record.key]?).all (fun (old : Record) => old.value == record.value) =
          true := by
        cases hslot : s.records[record.key]? with
        | none => rfl
        | some stored => simp [hvalue hauth stored hslot]
      have hlookup : ∀ key, (start.insert record.key record)[key]? =
          update (fun a => start[a]?) record.key (some record) key :=
        congrFun (lookup_insert start record.key record)
      obtain ⟨incoming, hok, hkept, hall⟩ := ih hnodup.2 hvalues
        (start.insert record.key record) fun r hr => by
          have hne : r.key ≠ record.key := fun heq => hnodup.1 (heq ▸ mem_map_of_mem hr)
          rw [hlookup, update_of_ne hne]
          exact hrest r hr
      refine ⟨incoming, foldlM_cons_eq_ok.mpr ⟨start.insert record.key record, ?_, hok⟩,
        fun key hkey => hkept key ?_, forall_mem_cons.mpr ⟨fun _ => hkept _ ?_, hall⟩⟩
      · rw [contractIncoming, if_pos hauth, hnone, hstored]
        rfl
      · rw [hlookup, update_apply]
        split_ifs
        · rfl
        · exact hkey
      · rw [hlookup, update_self]
        rfl

theorem validateContractIncoming_returns {replacedKeys} (hnodup : (records.map Record.key).Nodup)
    (hvalues : ∀ record ∈ records, Agrees s record)
    (hkeys : ∀ key ∈ replacedKeys, isAuthorityKey key = true → ∃ record ∈ records, record.key = key) :
    validateContractIncomingLocked s records replacedKeys = .ok () := by
  obtain ⟨incoming, hincoming, -, hall⟩ := contractIncoming_returns hnodup hvalues ∅
    fun record _ => by simp
  refine bind_eq_ok.mpr ⟨incoming, hincoming, require_eq_ok.mpr (all_eq_true.mpr ?_)⟩
  intro key hkey
  rw [or_eq_true, not_eq_true']
  cases hauth : isAuthorityKey key with
  | false => exact .inl rfl
  | true =>
    obtain ⟨record, hrecord, rfl⟩ := hkeys key hkey hauth
    exact .inr (hall record hrecord hauth)

end Contracts

section Validation

variable [DecidableEq H] {clock : Clock} {validators : Validators} {path : Text}

section

variable (lib : RecordLib H) (validators : Validators) (height : ℕ) (record : Record)

def paidFor (parsed : ParsedKey) : Bool :=
  !lib.isAutopayRecord record ||
    (validators.feeVerifier.bind (·.paidRecordRetention)).any fun paidRecordRetention =>
      (paidRecordRetention record parsed).toOption.any (paidRetentionCurrent · height)

/-- What the receiver itself asks of a record: its signer, its fee and, if it is an AUTOPAY record,
that it is paid for at the height. -/
def admitsRecord : Bool :=
  (parseKey record.key).toOption.any fun parsed =>
    (validateSnapshotPermission lib record parsed validators).isOk &&
      (lib.verifyFeeProofWith validators.feeVerifier record parsed).isOk &&
      paidFor lib validators height record parsed

end

theorem paidRetentionCurrent_mono {retention} {height height' : ℕ} (hpos : 0 < height)
    (hle : height ≤ height') (h : paidRetentionCurrent retention height' = true) :
    paidRetentionCurrent retention height = true := by
  simp only [paidRetentionCurrent, and_eq_true, bne_iff_ne, ne_eq, decide_eq_true_eq] at h ⊢
  omega

variable {record : Record} {cache : RetentionCache} {outer : ParsedKey} {total viewHeight : ℕ}
  (hpos : 0 < clock.height) (hle : clock.height ≤ clock.issueHeightTip)

include hpos hle in
omit [Ord H] [DecidableEq H] in
theorem verifiedPaidRetention_of_admits {parsed}
    (hpaid : paidFor lib validators clock.issueHeightTip record parsed = true) :
    ∃ retention, lib.verifiedPaidRetentionAfterFeeVerification record parsed validators.feeVerifier
        clock.height = .ok retention ∧ (lib.isAutopayRecord record = true →
          retention.any (paidRetentionCurrent · clock.issueHeightTip) = true) := by
  rw [RecordLib.verifiedPaidRetentionAfterFeeVerification]
  cases hauto : lib.isAutopayRecord record with
  | false => exact ⟨none, rfl, fun h => by cases h⟩
  | true =>
    rw [paidFor, hauto, Bool.not_true, Bool.false_or] at hpaid
    obtain ⟨paidRecordRetention, hverifier, hany⟩ := (any_eq_true _ _).mp hpaid
    obtain ⟨retention, hretention, hcurrent⟩ := exists_of_any hany
    refine ⟨some retention, ?_, fun _ => hcurrent⟩
    rw [hverifier, if_pos rfl]
    simp only [hretention, bind_eq_ok, require_eq_ok, Except.ok.injEq]
    exact ⟨retention, rfl, ⟨⟩, paidRetentionCurrent_mono hpos hle hcurrent, rfl⟩

/-- The record passes the checks of a snapshot as far as there is room for it. -/
def Passes (lib : RecordLib H) (clock : Clock) (validators : Validators) (path : Text)
    (viewHeight : ℕ) (record : Record) : Prop :=
  ∀ total, total + recordSize record ≤ maxNetworkSnapshotBytes → ∃ retention,
    validateSnapshotRecord lib clock validators path viewHeight total record = .ok retention

include hpos hle in
omit [Ord H] in
theorem validateSnapshotRecord_returns (hscope : Scope path outer)
    (hin : InCollection path record.key)
    (hactive : lib.recordActive clock.tip record clock.issueHeightTip = true)
    (hvisible : lib.networkPathRecordVisible cache record clock.issueHeightTip = true)
    (hadmits : admitsRecord lib validators clock.issueHeightTip record = true) :
    Passes lib clock validators path clock.issueHeightTip record := by
  intro total htotal
  obtain ⟨htomb, hcache, hfree⟩ := plain_of_visible hvisible
  obtain ⟨-, parsed, hsound, hissued, hexp, -⟩ := recordActive_iff.mp hactive
  have hparse := hsound.parseKey
  have hcollection := hin.eq hparse
  obtain ⟨p, hp, hadmits⟩ := exists_of_any hadmits
  obtain rfl := Except.ok.inj (hparse.symm.trans hp)
  simp only [and_eq_true] at hadmits
  obtain ⟨⟨hpermission, hfee⟩, hpaid⟩ := hadmits
  obtain ⟨⟨⟩, hpermission⟩ := exists_of_isOk hpermission
  obtain ⟨⟨⟩, hfee⟩ := exists_of_isOk hfee
  obtain ⟨retention, hretention, -⟩ := verifiedPaidRetention_of_admits hpos hle hpaid
  have hflags : record.flags = 0 := by
    simp only [RecordLib.CoreSound, RecordLib.validateCoreWithVerifier, bind_eq_ok, require_eq_ok,
      and_eq_true, beq_iff_eq] at hsound
    obtain ⟨_, -, _, -, _, -, _, -, _, ⟨⟨hhigh, -⟩, -⟩, -⟩ := hsound
    simp only [isTombstone, beq_eq_false_iff_ne, ne_eq] at htomb
    omega
  have hnetwork : networkNamespace parsed.ns = true := by
    rw [hscope.ns_eq hparse hcollection]
    exact hscope.network
  refine ⟨retention, ?_⟩
  simp only [validateSnapshotRecord, bind_eq_ok, require_eq_ok, mapError_eq_ok]
  refine ⟨parsed, hparse, ⟨⟩, ?_, ⟨⟩, ?_, ⟨⟩, decide_eq_true htotal, parsed, ?_, ⟨⟩, hpermission, ⟨⟩,
    hfee, hretention⟩
  · rw [hcollection, hflags, BEq.rfl, Bool.true_and]
    rfl
  · rw [hnetwork, hfree, hcache]
    rfl
  · exact validateCore_eq_ok.mpr ⟨hsound, hissued, by rw [hexp]; rfl⟩

omit [Ord H] in
theorem foldlM_validateSnapshotStep_returns {records : Records}
    (hall : ∀ record ∈ records, Passes lib clock validators path viewHeight record) (tally)
    (hnodup : ((tally.active ++ records).map Record.key).Nodup)
    (hsize : tally.computed.activeTotalSize + (records.map recordSize).sum ≤
      maxNetworkSnapshotBytes) :
    ∃ tally', records.foldlM (validateSnapshotStep lib clock validators path viewHeight) tally =
      .ok tally' ∧ tally'.computed = records.foldl lib.countIn tally.computed := by
  induction records generalizing tally with
  | nil => exact ⟨tally, rfl, rfl⟩
  | cons record records ih =>
    obtain ⟨hrecord, hrest⟩ := forall_mem_cons.mp hall
    rw [map_cons, sum_cons] at hsize
    obtain ⟨retention, hretention⟩ := hrecord tally.computed.activeTotalSize (by omega)
    have hfresh : (findKey tally.active record.key).isNone = true := by
      rw [findKey_isNone]
      rw [map_append, map_cons, nodup_append] at hnodup
      exact fun hmem => hnodup.2.2 _ hmem _ mem_cons_self rfl
    obtain ⟨tally', hok, hcomputed⟩ := ih hrest ⟨lib.countIn tally.computed record,
      tally.active ++ [record], tally.retentions ++ [(record.key, retention)]⟩
      (by rwa [append_assoc, singleton_append])
      (by simp only [RecordLib.countIn]; omega)
    refine ⟨tally', foldlM_cons_eq_ok.mpr ⟨_, ?_, hok⟩, hcomputed⟩
    simp only [validateSnapshotStep, hretention, bind_eq_ok, require_eq_ok]
    exact ⟨⟨⟩, hfresh, retention, rfl, rfl⟩

include hpos hle in
/-- What a store serves is a valid snapshot for everyone who admits its records. -/
theorem Serves.validates {s : Store H} {snapshot}
    (h : Serves lib s clock.tip path clock.issueHeightTip snapshot) (hs : Keyed s)
    (hscope : Scope path outer) (hadmits : ∀ record ∈ snapshot.records,
      admitsRecord lib validators clock.issueHeightTip record = true) :
    ∃ validated, validatePathSnapshot lib clock validators snapshot = .ok validated := by
  have hmem : ∀ record ∈ snapshot.records, _ := fun record hrecord =>
    (mem_committed hs).mp (h.records.mem_iff.mp hrecord)
  have hnodup := (h.records.map Record.key).nodup_iff.mpr (nodup_key_committed hs)
  have hall : ∀ record ∈ snapshot.records,
      Passes lib clock validators path clock.issueHeightTip record := by
    intro record hrecord
    obtain ⟨-, hin, hactive, hvisible⟩ := hmem record hrecord
    exact validateSnapshotRecord_returns hpos hle hscope hin hactive hvisible (hadmits record hrecord)
  have hpath : stringsTrimPath snapshot.path = path := by rw [h.named, hscope.stringsTrimPath_eq]
  obtain ⟨tally, htally, hcomputed⟩ := foldlM_validateSnapshotStep_returns hall
    ⟨.blank path snapshot.pathMeta.generation 0 clock.issueHeightTip, [], []⟩
    (by rwa [nil_append]) (by rw [PathMeta.blank, Nat.zero_add]; exact h.size)
  have hfold := (commits_blank lib path snapshot.pathMeta.generation 0
    clock.issueHeightTip).foldl_countIn fun record hrecord =>
      (plain_of_visible (hmem record hrecord).2.2.2).imp_right And.right
  rw [append_nil, ← hcomputed] at hfold
  simp only [validatePathSnapshot, bind_eq_ok, require_eq_ok, hpath, h.view]
  refine ⟨_, ⟨⟩, ?_, ⟨⟩, decide_eq_true (Nat.le_refl _), tally, htally, ⟨⟩, ?_, rfl⟩
  · rw [hscope.normal, h.own, BEq.rfl]
    rfl
  · rw [hfold.root, hfold.count, hfold.size, hfold.expiry, h.commits.root, h.commits.count,
      h.commits.size, h.commits.expiry]
    simp

include hpos hle in
omit [Ord H] in
theorem visible_of_paid {cache'}
    (hvisible : lib.networkPathRecordVisible cache record clock.issueHeightTip = true)
    (hadmits : admitsRecord lib validators clock.issueHeightTip record = true) {retention}
    (hchecked : validateSnapshotRecord lib clock validators path viewHeight total record = .ok
      retention) (hcache : ∀ paid, retention = some paid → cache'[record.key]? = some paid) :
    lib.networkPathRecordVisible cache' record clock.issueHeightTip = true := by
  obtain ⟨htomb, hplain, -⟩ := plain_of_visible hvisible
  simp only [validateSnapshotRecord, bind_eq_ok, mapError_eq_ok] at hchecked
  obtain ⟨parsed, hparse, _, -, _, -, _, -, _, -, _, -, _, -, hverified⟩ := hchecked
  obtain ⟨p, hp, hadmits⟩ := exists_of_any hadmits
  obtain rfl := Except.ok.inj (hparse.symm.trans hp)
  rw [and_eq_true] at hadmits
  obtain ⟨found, hfound, hcurrent⟩ := verifiedPaidRetention_of_admits hpos hle hadmits.2
  obtain rfl := Except.ok.inj (hverified.symm.trans hfound)
  rw [RecordLib.networkPathRecordVisible, RecordLib.paidRecordRelayableAt, htomb, hplain]
  cases hauto : lib.isAutopayRecord record with
  | false => rfl
  | true =>
    obtain ⟨paid, rfl, hpaid⟩ := (any_eq_true _ _).mp (hcurrent hauto)
    rw [hcache paid rfl, any_some, hpaid]
    rfl

end Validation

section Transfer

variable [DecidableEq H] {s u : Store H} {validated : ValidatedPathSnapshot} {height : ℕ}
  {baseline : ActiveMeta} {clock now : Clock} {key path : Text} {outer : ParsedKey}
  {record : Record} {snapshot : PathSnapshot} {validators : Validators}

section

variable (h : Installed lib s u validated height) (hscope : Scope validated.path outer)
  (hs : Vetted lib s) (hv : Validated lib now validators snapshot validated)

include h hscope hs hv in
theorem Installed.removed_inCollection (hrecord : record ∈ snapshotRemoved lib s validated height) :
    InCollection validated.path record.key := by
  have hscan := (mem_filter.mp (mem_filter.mp hrecord).1).1
  obtain ⟨key, hkey, -, hbelow⟩ := mem_scan.mp hscan
  rw [hscope.trimmed] at hbelow
  have hbelow := hbelow.resolve_left hscope.ne_nil
  obtain ⟨parsed, hsound⟩ := hs.sound hkey
  have hparse := hsound.parseKey
  have hinner := (segments_of_inPath hscope.parse (parseKeyParts_of_parseKey hparse) hbelow).1
  by_cases hns : outer.ns = .contract
  · -- Below a contract path every record is protected, so the snapshot has it too.
    have hroot : contractRoot <+: validated.path := by
      rw [hscope.eq_pathText, hns]
      exact contractRoot_prefix_pathText _
    have hshape := (parseKey_eq_ok hparse).2
    rw [validNamespaceShape, hinner.trans hns, or_eq_true] at hshape
    obtain hsource | hauth := hshape
    · exact hv.within record (h.sources record hscan (by rw [hparse]; exact hsource))
    have hauth : isAuthorityKey record.key = true := by
      rw [isAuthorityKey, hparse]
      exact hauth
    obtain ⟨next, hnext, hnextKey⟩ := (validateContractIncoming_eq_ok (h.contracts hroot)).2
      record.key (mem_filter.mpr ⟨mem_map_of_mem hscan, hauth⟩) hauth
    rw [← hnextKey]
    exact hv.within next hnext
  · exact ⟨parsed, hparse, collectionPath_of_inPath hscope.canonical hparse (hinner ▸ hns) hbelow⟩

include h hscope hs hv in
theorem Installed.other_paths (hkey : ¬ InCollection validated.path key) :
    u.records[key]? = s.records[key]? := by
  rw [h.slot, isNone_iff_eq_none.mp (findKey_isNone.mpr fun hmem => ?_), none_or,
    if_neg fun hmem => ?_]
  · obtain ⟨record, hrecord, rfl⟩ := mem_map.mp hmem
    exact hkey (h.removed_inCollection hscope hs hv hrecord)
  · obtain ⟨record, hrecord, rfl⟩ := mem_map.mp hmem
    exact hkey (hv.within record hrecord)

include h

theorem Installed.local_kept (hs : Keyed s) (hrecord : s.records[key]? = some record)
    (hlocal : lib.isLocalOnlyRecord s.retentions record height = true)
    (hkey : key ∉ validated.active.map Record.key) : u.records[key]? = some record := by
  have hmissing := isNone_iff_eq_none.mp (findKey_isNone.mpr hkey)
  rw [h.slot, hmissing, none_or, if_neg, hrecord]
  intro hmem
  obtain ⟨gone, hgone, hgoneKey⟩ := mem_map.mp hmem
  obtain ⟨hscan, hreplaced⟩ := mem_filter.mp (mem_filter.mp hgone).1
  obtain ⟨k, hk, -⟩ := mem_scan.mp hscan
  rw [← hs hk, hgoneKey, hrecord, some.injEq] at hk
  rw [hgoneKey, hmissing, ← hk, hlocal] at hreplaced
  cases hreplaced

theorem Installed.keyed (hs : Keyed s) : Keyed u := by
  intro key record hrecord
  obtain ⟨-, hkey⟩ | ⟨-, -, hkept⟩ := h.cases hrecord
  · exact hkey
  · exact hs hkept

end

section

variable (h : Installed lib s u validated clock.height) (hpos : 0 < clock.height)
  (hle : clock.height ≤ clock.issueHeightTip)
  (hpayments : validated.retentions.map Prod.fst ⊆ validated.active.map Record.key)
include h hpos hle hpayments

theorem Installed.hidden (hkey : record.key = key) (hmissing : findKey validated.active key = none)
    (hkept : key ∉ (snapshotRemoved lib s validated clock.height).map Record.key)
    (hlocal : lib.isLocalOnlyRecord s.retentions record clock.height = true) :
    lib.networkPathRecordVisible u.retentions record clock.issueHeightTip = false := by
  have hsame : u.retentions[key]? = s.retentions[key]? := by
    have hmissing := findKey_isNone.mp (isNone_iff_eq_none.mpr hmissing)
    rw [h.payments, getElem?_refill_of_not_mem _ fun hmem => hmissing (hpayments hmem),
      getElem?_forgetRetentions _ hkept]
  rw [RecordLib.isLocalOnlyRecord, or_eq_true, and_eq_true, not_eq_true',
    RecordLib.paidRecordRelayableAt, hkey] at hlocal
  rw [RecordLib.networkPathRecordVisible, RecordLib.paidRecordRelayableAt, hkey, hsame]
  obtain hcache | ⟨hauto, hunpaid⟩ := hlocal
  · simp [hcache]
  rw [hauto, Bool.not_true, Bool.false_or] at hunpaid ⊢
  rw [and_eq_false_iff]
  refine .inr (eq_false_iff.mpr fun hcurrent => ?_)
  obtain ⟨retention, hretention, hcurrent⟩ := (any_eq_true _ _).mp hcurrent
  rw [hretention, any_some, paidRetentionCurrent_mono hpos hle hcurrent] at hunpaid
  cases hunpaid

theorem Installed.committed_perm (hs : Keyed s) (hscope : Scope validated.path outer)
    (hv : Validated lib now validators snapshot validated)
    (hactive : ∀ record ∈ validated.active,
      lib.recordActive clock.tip record clock.issueHeightTip = true)
    (hvisible : ∀ record ∈ validated.active,
      lib.networkPathRecordVisible u.retentions record clock.issueHeightTip = true) :
    (u.committed lib clock.tip validated.path clock.issueHeightTip).Perm validated.active := by
  have hu := h.keyed hs
  rw [perm_ext_iff_of_nodup (nodup_committed hu) (hv.nodup.of_map _)]
  intro record
  rw [mem_committed hu]
  constructor
  · rintro ⟨hrecord, hcollection, -, hseen⟩
    obtain ⟨hmem, -⟩ | ⟨hmissing, hkept, hrecord⟩ := h.cases hrecord
    · exact hmem
    have hscan := mem_scan_of_inCollection hrecord hcollection fun _ => hscope.trimmed
    rw [h.hidden hpos hle hpayments rfl hmissing hkept
      (isLocalOnly_of_kept hs hrecord hscan hmissing hkept)] at hseen
    cases hseen
  · intro hmem
    refine ⟨?_, hv.within record hmem, hactive record hmem, hvisible record hmem⟩
    rw [Store.Holds, h.slot, findKey_of_mem hv.nodup hmem, some_or]

end

omit [DecidableEq H] in
theorem checkBaseline_self {env}
    (h : activeMetaLocked lib s env.endpointID env.lockClock.tip path height = .ok baseline) :
    checkBaseline lib s env baseline = .ok () := by
  obtain ⟨hendpoint, hpath, hview⟩ : baseline.endpointID = env.endpointID ∧ baseline.path = path ∧
      baseline.viewHeight = height := by
    obtain ⟨root, -, heq⟩ := bind_eq_ok.mp h
    cases heq
    exact ⟨rfl, rfl, rfl⟩
  simp only [checkBaseline, hendpoint, hpath, hview, h, bind_eq_ok, require_eq_ok]
  exact ⟨⟨⟩, BEq.rfl, baseline, rfl, by rw [BEq.rfl, BEq.rfl]; rfl⟩

/-- The receiver's own conditions on a snapshot of the path: each record passes its checks, the
immutable records it has below the path are in the snapshot with their values, and the counters of
the path are not used up. -/
structure Admits (lib : RecordLib H) (validators : Validators) (clock : Clock) (s : Store H)
    (path : Text) (records : Records) : Prop where
  admitted : ∀ record ∈ records, admitsRecord lib validators clock.issueHeightTip record = true
  sources : ∀ record ∈ s.scan path,
    (parseKey record.key).toOption.any isEVMSourceKey = true → record ∈ records
  contracts : ∀ record ∈ s.scan path, isAuthorityKey record.key = true →
    ∃ next ∈ records, next.key = record.key ∧ next.value = record.value
  generations : ∀ m ∈ s.metas[path]?, m.generation ≠ maxUint64 ∧ m.endpointGeneration ≠ maxUint64

structure Transferred (lib : RecordLib H) (s t : Store H) (path : Text) (height : ℕ)
    (snapshot : PathSnapshot) : Prop where
  root : ∃ m, t.metas[path]? = some m ∧ m.stateRoot = snapshot.pathMeta.stateRoot
  locals : ∀ (key : Text) (record : Record), s.records[key]? = some record →
    lib.isLocalOnlyRecord s.retentions record height = true →
    key ∉ snapshot.records.map Record.key → t.records[key]? = some record
  others : ∀ key : Text, ¬ InCollection path key → t.records[key]? = s.records[key]?

theorem Serves.path_eq {s tip} (h : Serves lib s tip path height snapshot)
    (hscope : Scope path outer) (hv : Validated lib now validators snapshot validated) :
    validated.path = path := by
  rw [hv.path, h.named, hscope.stringsTrimPath_eq]

section

variable (h : Admits lib validators clock s path snapshot.records)
  (hv : Validated lib now validators snapshot validated)
include h hv

theorem Admits.sources_kept :
    protectEVMSourceReplacement lib (s.scan path) validated.active = .ok () := by
  refine require_eq_ok.mpr (all_eq_true.mpr fun record hrecord => ?_)
  rw [or_eq_true, not_eq_true']
  cases hkind : (parseKey record.key).toOption.any isEVMSourceKey with
  | false => exact .inl rfl
  | true =>
    have hsent := hv.active.mem_iff.mpr (h.sources record hrecord hkind)
    rw [findKey_of_mem hv.nodup hsent, any_some, BEq.rfl]
    exact .inr rfl

theorem Admits.contracts_kept (hs : Vetted lib s) (hscope : Scope path outer)
    (hpath : validated.path = path) : validateContractIncomingLocked s validated.active
      (((s.scan path).map Record.key).filter isAuthorityKey) = .ok () := by
  refine validateContractIncoming_returns hv.nodup (fun record hrecord hauth stored hstored => ?_)
    fun key hkey hauth => ?_
  · have hown := hs.keyed hstored
    have hscan := mem_scan_of_inCollection (hs.keyed.holds hstored)
      (hown ▸ hpath ▸ hv.within record hrecord) fun _ => hscope.trimmed
    rw [hscope.trimmed] at hscan
    obtain ⟨next, hnext, hnextKey, hvalue⟩ := h.contracts stored hscan (hown ▸ hauth)
    have heq := inj_on_of_nodup_map hv.nodup (hv.active.mem_iff.mpr hnext) hrecord
      (hnextKey.trans hown)
    rw [← heq, hvalue]
  · obtain ⟨stored, hstored, rfl⟩ := mem_map.mp (mem_filter.mp hkey).1
    obtain ⟨next, hnext, hnextKey, -⟩ := h.contracts stored hstored hauth
    exact ⟨next, hv.active.mem_iff.mpr hnext, hnextKey⟩

end

variable [TransOrd H]

theorem wp_applyCurrentPathSnapshot_returns {s₁} (h₁ : Vetted lib s₁) (hs : Vetted lib s)
    (hscope : Scope path outer) (hpos : 0 < clock.height)
    (hle : clock.height ≤ clock.issueHeightTip) (hclock : env.clock = clock)
    (hlock : env.lockClock = clock)
    (hpolicy : env.policyGeneration = env.validators.policyGeneration)
    (hflushed : env.flushed = .ok ()) {snapshot}
    (hserves : Serves lib s₁ clock.tip path clock.issueHeightTip snapshot)
    (hbase : checkBaseline lib s env baseline = .ok ())
    (hadmits : Admits lib env.validators clock s path snapshot.records) :
    wp (applyCurrentPathSnapshot lib env snapshot (some baseline)) s (fun _ _ => True)
      (fun _ _ => False) := by
  obtain ⟨validated, hvalidated⟩ := hserves.validates hpos hle h₁.keyed hscope hadmits.admitted
  have hval := validatePathSnapshot_eq_ok hvalidated
  have hpath := hserves.path_eq hscope hval
  simp only [applyCurrentPathSnapshot, check, wp_bind, wp_ofExcept, hclock]
  refine ⟨fun e he => ?_, fun v hv => ?_⟩
  · rw [hvalidated] at he
    cases he
  obtain rfl := Except.ok.inj (hvalidated.symm.trans hv)
  refine wp_applyValidatedSnapshot_returns hbase ⟨?_, ?_, ?_, ?_, ?_, ?_, ?_, ?_, ?_, hflushed⟩
  · rw [hval.policy, hpolicy]
  · rw [hlock, hval.height]
  · rw [hpath]
    exact hscope.canonical
  · rw [hpath]
    exact hscope.ne_nil
  · intro record hrecord
    obtain ⟨key, hkey, -⟩ := mem_scan.mp hrecord
    exact hs.key_ne_nil hkey
  · intro record hrecord
    have hserved := hserves.records.mem_iff.mp (hval.active.mem_iff.mp hrecord)
    have hstored := ((mem_committed h₁.keyed).mp hserved).1
    exact ⟨h₁.key_ne_nil hstored, h₁.marshals hstored⟩
  · rw [hpath, hscope.trimmed]
    exact hadmits.sources_kept hval
  · intro _
    rw [hpath, hscope.trimmed]
    exact hadmits.contracts_kept hval hs hscope hpath
  · rw [hpath]
    exact hadmits.generations

theorem vetted_run (hlib : CollisionFree lib) (ops) (h : ∀ op ∈ ops, op.exported = true) :
    Vetted lib (run lib ops) :=
  foldlRecOn (motive := Vetted lib) ops _ vetted_empty fun _ hs op hop =>
    (op.permanent_apply hlib hs (h op hop)).vetted

variable [LawfulEqOrd H]

theorem wp_applyCurrentPathSnapshot_installed (hlib : CollisionFree lib) (hm : Mirrored lib s) (env)
    (snapshot baseline) : wp (applyCurrentPathSnapshot lib env snapshot baseline) s
      (fun n u => ∃ validated, Validated lib env.clock env.validators snapshot validated ∧
        n = validated.active.length ∧ Installed lib s u validated env.lockClock.height)
      (fun _ t => MetaOnly s t) :=
  wp_applyCurrentPathSnapshot (.refl s) fun _ hv =>
    wp_mono (wp_ensurePathMetaLocked lib _ _ _ s)
      (fun _ _ ht => ⟨ht, fun _ hu => hu.installed hlib hm hv ht⟩) fun _ _ ht => ht

/-- A snapshot of a path that one store serves, offered to a store at the same heights against a
baseline of that store.  If the receiver admits its records it is accepted, and both stores then show
the network the same records of the path.  Any accepted snapshot brings its commitment along and
leaves other paths and the local records it does not name as they were; a rejected one changes no
record. -/
theorem pathSnapshot_converges (hlib : CollisionFree lib) {s₁ s₂ : Store H} (h₁ : Vetted lib s₁)
    (h₂ : Vetted lib s₂) (hm : Mirrored lib s₂) (clock : Clock) (hpos : 0 < clock.height)
    (hle : clock.height ≤ clock.issueHeightTip) (path : Text)
    (hpath : normalizeNetworkScope path = .ok path) (source receiver : ServeEnv)
    (hsource : source.lockClock = clock) (hreceiver : receiver.lockClock = clock)
    (env : SnapshotEnv) (hclock : env.clock = clock) (hlock : env.lockClock = clock)
    (hpolicy : env.policyGeneration = env.validators.policyGeneration) (snapshot : PathSnapshot)
    (hget : ((getPathSnapshot lib source path).exec s₁).1 = .ok snapshot) (baseline : ActiveMeta)
    (hbase : networkSyncBaseline lib s₂ receiver env.endpointID path = .ok baseline) :
    let result := (applyCurrentPathSnapshot lib env snapshot (some baseline)).exec s₂
    (Admits lib env.validators clock s₂ path snapshot.records → env.flushed = .ok () →
      result.1 = .ok snapshot.records.length ∧
        (result.2.committed lib clock.tip path clock.issueHeightTip).Perm
          (s₁.committed lib clock.tip path clock.issueHeightTip)) ∧
    (∀ n, result.1 = .ok n → Transferred lib s₂ result.2 path clock.height snapshot) ∧
    ((∀ n, result.1 ≠ .ok n) → result.2.records = s₂.records) := by
  intro result
  obtain ⟨outer, hscope⟩ := exists_scope hpath
  obtain ⟨-, hstill, hserves⟩ := ok_of_wp (wp_getPathSnapshot h₁.keyed hpath hscope.ne_nil source)
    hget
  have htip : ∀ {reader : ServeEnv}, reader.lockClock = clock → reader.moved = false →
      reader.clock.issueHeightTip = clock.issueHeightTip := by
    intro reader hreader hmoved
    simp only [ServeEnv.moved, or_eq_false_iff, bne_eq_false_iff_eq] at hmoved
    rw [← hmoved.1.2, hreader]
  rw [hsource, htip hsource hstill] at hserves
  simp only [networkSyncBaseline, hpath, bind_eq_ok, require_eq_ok, not_eq_true'] at hbase
  obtain ⟨scope, hscoped, _, -, _, -, hbase⟩ := hbase
  cases hscoped
  rw [hreceiver, ← hlock] at hbase
  have hchecked := checkBaseline_self hbase
  have hinstalled := wp_applyCurrentPathSnapshot_installed hlib hm env snapshot (some baseline)
  rw [hclock, hlock] at hinstalled
  refine ⟨fun hadmits hflushed => ?_, fun n hn => ?_, fun hrejected => ?_⟩
  · obtain ⟨n, hn, validated, hv, rfl, hu⟩ := exists_ok_of_wp hinstalled
      (wp_applyCurrentPathSnapshot_returns h₁ h₂ hscope hpos hle hclock hlock hpolicy hflushed
        hserves hchecked hadmits)
    have hvpath := hserves.path_eq hscope hv
    refine ⟨by rw [← hv.active.length_eq]; exact hn, ?_⟩
    have hentries' : (validated.retentions.map Prod.fst).Perm (validated.active.map Record.key) := by
      rw [hv.payments]
      exact (hv.active.map Record.key).symm
    have hmem : ∀ record ∈ validated.active, _ := fun record hrecord =>
      (mem_committed h₁.keyed).mp (hserves.records.mem_iff.mp (hv.active.mem_iff.mp hrecord))
    rw [← hvpath] at hscope ⊢
    refine (hu.committed_perm hpos hle hentries'.subset h₂.keyed hscope hv
      (fun record hrecord => (hmem record hrecord).2.2.1) fun record hrecord => ?_).trans
      (hv.active.trans (hvpath ▸ hserves.records))
    have hsent := hv.active.mem_iff.mp hrecord
    obtain ⟨_, retention, hchecked, hentry⟩ := hv.checked record hsent
    refine visible_of_paid hpos hle (hmem record hrecord).2.2.2 (hadmits.admitted record hsent)
      hchecked fun paid hsome => ?_
    rw [hu.payments, getElem?_refill_of_mem _ (hentries'.nodup_iff.mpr hv.nodup) (hsome ▸ hentry)]
  · obtain ⟨validated, hv, rfl, hu⟩ := ok_of_wp hinstalled hn
    have hvpath := hserves.path_eq hscope hv
    obtain ⟨m, hm, hmroot⟩ := hu.root
    rw [← hvpath] at hscope ⊢
    refine ⟨⟨m, hm, hmroot.trans hv.root⟩, fun key record hrecord hlocal hkey => ?_, fun key hkey =>
      hu.other_paths hscope h₂ hv hkey⟩
    exact hu.local_kept h₂.keyed hrecord hlocal fun hmem =>
      hkey ((hv.active.map Record.key).mem_iff.mp hmem)
  · obtain ⟨_, ht⟩ := error_of_wp hinstalled hrejected
    exact ht.records

end Transfer

namespace Reference

def serveEnv : ServeEnv := ⟨⟨5, none⟩, .ok (), ⟨5, none⟩, true⟩

def snapshotEnv : SnapshotEnv := ⟨⟨5, none⟩, validators, [], ⟨5, none⟩, 0, .ok ()⟩

def servedStore : Store (List ℕ) := run recordLib (puts [(5, record "/svc/a/x" 1 5 7)])

def servedSnapshot : PathSnapshot where
  path := "/svc/a".toList
  pathMeta := ⟨"/svc/a".toList, 1, 1, 1008, 1, 48, 12, 5⟩
  records := [record "/svc/a/x" 1 5 7]

def receivingStore : Store (List ℕ) :=
  run recordLib (puts [(5, record "/svc/a/y" 1 5 7), (5, record "/svc/b/z" 1 5 7)])

def receivingBaseline : ActiveMeta := ⟨[], "/svc/a".toList, 1, 1008, 5⟩

end Reference

open Reference in
theorem pathSnapshot_replaces_record :
    let result := (applyCurrentPathSnapshot recordLib snapshotEnv servedSnapshot
      (some receivingBaseline)).exec receivingStore
    (result.1 = .ok servedSnapshot.records.length ∧
      (result.2.committed recordLib none "/svc/a".toList 5).Perm
        (servedStore.committed recordLib none "/svc/a".toList 5)) ∧
    Transferred recordLib receivingStore result.2 "/svc/a".toList 5 servedSnapshot ∧
    result.2.records.toList = [("/svc/a/x".toList, record "/svc/a/x" 1 5 7),
      ("/svc/b/z".toList, record "/svc/b/z" 1 5 7)] := by
  intro result
  obtain ⟨haccepted, htransferred, -⟩ := pathSnapshot_converges collisionFree_recordLib
    (vetted_run collisionFree_recordLib (puts [(5, record "/svc/a/x" 1 5 7)]) (by decide +kernel))
    (vetted_run collisionFree_recordLib
      (puts [(5, record "/svc/a/y" 1 5 7), (5, record "/svc/b/z" 1 5 7)]) (by decide +kernel))
    (mirrored_run collisionFree_recordLib _) ⟨5, none⟩ (by decide) (by decide) "/svc/a".toList
    (eq_ok_of_toOption (by decide +kernel)) serveEnv serveEnv rfl rfl snapshotEnv rfl rfl rfl
    servedSnapshot (eq_ok_of_toOption (by decide +kernel)) receivingBaseline
    (eq_ok_of_toOption (by decide +kernel))
  have hadmits : Admits recordLib validators ⟨5, none⟩ receivingStore "/svc/a".toList
      servedSnapshot.records :=
    ⟨by decide +kernel, by decide +kernel, by decide +kernel, by decide +kernel⟩
  have hresult := haccepted hadmits rfl
  exact ⟨hresult, htransferred _ hresult.1, by decide +kernel⟩

open Reference in
/-- A store without the contracts of a path serves an empty snapshot of it, which a store that has
one of them refuses. -/
theorem pathSnapshot_without_contract_refused :
    normalizeNetworkScope "/contract/amm".toList = .ok "/contract/amm".toList ∧
    contractStore.records.toList = [("/contract/amm/pool-1".toList, contract [7])] ∧
    (((getPathSnapshot recordLib serveEnv "/contract/amm".toList).exec (.empty _)).1.toOption.bind
      fun snapshot => (networkSyncBaseline recordLib contractStore serveEnv []
        "/contract/amm".toList).toOption.map fun baseline =>
          (snapshot.records, ((applyCurrentPathSnapshot recordLib { snapshotEnv with
            validators := { validators with system := some fun _ _ => .ok () } } snapshot
              (some baseline)).exec contractStore).1)) =
      some ([], .error (.fail .writeConflict)) := by
  refine ⟨eq_ok_of_toOption (by decide +kernel), by decide +kernel, by decide +kernel⟩

end SatoshiNet.Dkvs
