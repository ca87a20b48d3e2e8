import SatoshiNet.Dkvs.PathReplace
import SatoshiNet.Dkvs.Permanent

/-!
Record sets, path snapshots and pruning keep the authority contract records, and with them every run
of the store.
-/

namespace SatoshiNet.Dkvs

open Function Lib Std Action List

section Paths

theorem contractRoot_prefix_pathText (segments) : contractRoot <+: pathText .contract segments :=
  ⟨joinSegments segments, rfl⟩

variable {key path : Text}

theorem isAuthorityKey_eq_true (h : isAuthorityKey key = true) :
    ∃ parsed, parseKey key = .ok parsed ∧ parsed.ns = .contract := by
  obtain ⟨parsed, hparsed, hkind⟩ := exists_of_any h
  simp only [isAuthorityContractKey, Bool.and_eq_true, beq_iff_eq] at hkind
  exact ⟨parsed, hparsed, hkind.1.1⟩

theorem contractRoot_prefix_of_inCollection (h : isAuthorityKey key = true)
    (hin : InCollection path key) : contractRoot <+: path := by
  obtain ⟨parsed, hparsed, hns⟩ := isAuthorityKey_eq_true h
  obtain rfl := hin.eq hparsed
  obtain ⟨n, -, hpath⟩ := collectionPath_eq_take
    (collectionPath_ne_nil (parseKey_eq_ok hparsed).2)
  rw [hpath, hns]
  exact contractRoot_prefix_pathText _

theorem trimSlash_isPrefix (path) : trimSlash path <+: path := by
  rw [trimSlash]
  split_ifs
  · exact dropLast_prefix path
  · exact prefix_rfl

theorem trimSlash_cases (path) : path = trimSlash path ∨ path = trimSlash path ++ ['/'] := by
  rw [trimSlash]
  split_ifs with hlast
  · exact .inr (dropLast_append_getLast? '/' hlast).symm
  · exact .inl rfl

theorem short_ancestor (hshort : path.length < contractRoot.length)
    (h : path = [] ∨ path ++ ['/'] <+: contractRoot) : path = [] ∨ path = contractRoot.take 9 := by
  obtain hnil | h := h
  · exact .inl hnil
  have hpath : path = contractRoot.take path.length :=
    prefix_iff_eq_take.mp ((prefix_append path ['/']).trans h)
  have hends : ∀ n < contractRoot.length, contractRoot.take n ++ ['/'] <+: contractRoot →
      n = 0 ∨ n = 9 := by decide
  obtain hzero | hnine := hends path.length hshort (hpath ▸ h)
  · exact .inl (length_eq_zero_iff.mp hzero)
  · exact .inr (hnine ▸ hpath)

theorem contractRoot_prefix_of_inPath (hscope : (normalizeNetworkScope path).isOk = true)
    (h : isAuthorityKey key = true)
    (hin : trimSlash path = [] ∨ inPath (trimSlash path) key = true) : contractRoot <+: path := by
  obtain ⟨parsed, hparsed, hns⟩ := isAuthorityKey_eq_true h
  have hkey : contractRoot <+: key := by
    rw [(parseKey_eq_ok hparsed).1, hns]
    exact contractRoot_prefix_pathText _
  by_cases hlong : contractRoot.length ≤ (trimSlash path).length
  · have hpath : trimSlash path <+: key := by
      obtain hnil | hin := hin
      · rw [hnil] at hlong
        cases hlong
      · exact isPrefixOf_iff_prefix.mp (isPrefixOf_of_inPath hin)
    exact (prefix_of_prefix_length_le hkey hpath hlong).trans (trimSlash_isPrefix path)
  · have hshort : trimSlash path = [] ∨ trimSlash path ++ ['/'] <+: contractRoot := by
      refine hin.imp_right fun hin => ?_
      rw [inPath, Bool.or_eq_true, beq_iff_eq, isPrefixOf_iff_prefix] at hin
      obtain rfl | hin := hin
      · exact absurd hkey.length_le hlong
      · refine prefix_of_prefix_length_le hin hkey ?_
        rw [length_append, length_singleton]
        omega
    -- None of the shorter paths has a scope of its own.
    obtain hp | hp := short_ancestor (by omega) hshort <;>
      obtain hpath | hpath := trimSlash_cases path <;> rw [hp] at hpath <;> subst hpath
    · exact absurd hscope (by decide +kernel)
    · exact absurd hscope (by decide +kernel)
    · exact absurd hscope (by decide +kernel)
    · exact prefix_rfl

end Paths

variable {H : Type} [Ord H]

section Validation

variable [DecidableEq H] {lib : RecordLib H}

theorem prevalidated_core {env} {records} {rejectFreeLocal} {prepared}
    (h : prevalidateRecordSet lib env records rejectFreeLocal = .ok prepared) {item}
    (hitem : item ∈ prepared) : ∃ parsed, lib.CoreSound item.record parsed := by
  obtain ⟨ordered, -, hprep⟩ := bind_eq_ok.mp h
  obtain ⟨record, -, hrecord⟩ := exists_of_mem_mapM hprep hitem
  simp only [prevalidateRecord, bind_eq_ok] at hrecord
  obtain ⟨parsed, hcore, _, -, _, -, _, -, _, -, _, -, hrecord⟩ := hrecord
  cases hrecord
  exact ⟨parsed, (validateCore_eq_ok.mp hcore).1⟩

omit [Ord H] [DecidableEq H] in
theorem sound_of_counts {record} {height : ℕ} (h : lib.counts record height = true) :
    ∃ parsed, lib.CoreSound record parsed := by
  simp only [RecordLib.counts, Bool.and_eq_true] at h
  obtain ⟨-, parsed, hsound, -⟩ := recordActive_iff.mp h.1.2
  exact ⟨parsed, hsound⟩

end Validation

variable [TransOrd H] [DecidableEq H] {lib : RecordLib H} {s : Store H}

omit [DecidableEq H] in
theorem wp_commitExpired_permanent (hs : Vetted lib s) (tip) (flushed) {records} (height : ℕ)
    (hrecords : ∀ record ∈ records, isAuthorityKey record.key = false) :
    Ends (commitExpired lib tip flushed records height) s (Permanent lib s) := by
  have hsame : Permanent lib s s := .refl hs
  simp only [commitExpired, check, wp_bind, wp_get, wp_ite, wp_pure, wp_ofExcept, wp_set, hsame,
    implies_true, true_and]
  refine fun _ batch hbatch _ _ => permanent_commit hs (.refl s) rfl ?_
  simp only [stageExpiredRecordsLocked, bind_eq_ok] at hbatch
  obtain ⟨staged, hstaged, metas, hmetas, h⟩ := hbatch
  cases h
  refine forall_mem_append.mpr ⟨fun w hw => ?_, respects_of_inert
    (forall_flatten_of_mapM hmetas fun _ _ _ => inert_stageExpiredPath)⟩
  obtain ⟨ws, hws, hw⟩ := mem_flatten.mp hw
  obtain ⟨item, hitem, rfl⟩ := mem_map.mp hws
  obtain ⟨record, hrecord, hstage⟩ := exists_of_mem_mapM hstaged hitem
  refine (stageExpiredRecord_eq_ok hstage).respects (fun h => ?_) w hw
  rw [hrecords record hrecord] at h
  cases h

omit [DecidableEq H] in
theorem wp_pruneExpiredAt_permanent (hs : Vetted lib s) (clock) (flushed) (popped) (height : ℕ) :
    Ends (pruneExpiredAt lib clock flushed popped height) s (Permanent lib s) := by
  simp only [pruneExpiredAt, wp_bind, wp_get]
  refine wp_commitExpired_permanent hs _ _ _ fun record hrecord => ?_
  obtain ⟨hfound, hexpired⟩ := mem_filter.mp hrecord
  obtain ⟨key, -, hkey⟩ := mem_filterMap.mp hfound
  by_contra hauth
  have httl := (sealed_facts (hs.envelope hkey (by simpa using hauth))).2.1
  simp [isExpired, recordExpiryHeight, httl] at hexpired

theorem wp_pruneExpiredAutopayAt_permanent (hlib : CollisionFree lib) (hs : Vetted lib s)
    (seen clock lockClock) (validators) (policyGeneration graceBlocks : ℕ) (flushed) (height : ℕ) :
    Ends (pruneExpiredAutopayAt lib seen clock lockClock validators policyGeneration graceBlocks
      flushed height) s (Permanent lib s) := by
  have hsame : Permanent lib s s := .refl hs
  rw [pruneExpiredAutopayAt]
  split
  · exact hsame
  simp only [wp_ite, wp_pure, wp_bind, wp_refuse, wp_get, hsame, implies_true, true_and]
  refine fun _ _ => wp_commitExpired_permanent hs _ _ _ fun record hrecord => ?_
  obtain ⟨item, hitem, hfound⟩ := mem_filterMap.mp hrecord
  obtain ⟨hkey, hhash⟩ := Option.filter_eq_some_iff.mp hfound
  obtain rfl := hlib.inj (beq_iff_eq.mp hhash)
  by_contra hauth
  have hfee := (sealed_facts (hs.envelope hkey (by simpa using hauth))).2.2
  have hpaid := (mem_filter.mp hitem).2
  simp [RecordLib.isAutopayRecord, RecordLib.hasFeeMode, hfee] at hpaid

/-- A replacement of whole ranges is authoritative; a merge replaces no range.  These are the two
ways in which the node applies a record set. -/
def Operation.exported : Operation H → Bool
  | applyRecordSet _ _ replace _ authoritative _ => replace.isSome == authoritative
  | _ => true

theorem wp_applyRecordSetAttempt_permanent (hs : Vetted lib s) (env) (records) (replace)
    (checkRoot authoritative rejectFreeLocal) (hexported : (replace.isSome == authoritative) = true) :
    Ends (applyRecordSetAttempt lib env records replace checkRoot authoritative rejectFreeLocal) s
      (Permanent lib s) := by
  have hsame : Permanent lib s s := .refl hs
  simp only [applyRecordSetAttempt, check, wp_bind, wp_refuse, wp_ofExcept, wp_get, wp_set, wp_pure,
    hsame, implies_true, true_and]
  intro prepared hprepared _ _ _ hcontract _ _ _ _ _ hreplaced installs hinstalls dirty hdirty marks
    hmarks _ _
  refine permanent_commit hs (.refl s) rfl ?_
  have hvalues := (validateContractIncoming_eq_ok hcontract).1
  have hkept := (validateContractIncoming_eq_ok hreplaced).2
  have hdirty' := inert_markPathMetaDirtyLocked hdirty
  have hmarks' := forall_flatten_of_mapM hmarks fun _ _ _ => inert_markDirtyChanged
  simp only [forall_mem_append, forall_mem_flatMap]
  refine ⟨⟨⟨fun record hrecord => ?_, forall_flatten_of_mapM hinstalls fun record hrecord ws hinstall =>
    ?_⟩, respects_of_inert hdirty'⟩, respects_of_inert hmarks'⟩
  · have hkey : isAuthorityKey record.key = false := by
      obtain ⟨hcurrent, hgone⟩ := mem_filter.mp hrecord
      by_contra hauth
      obtain ⟨r, hr, hrkey⟩ := hkept record.key (mem_map_of_mem hcurrent) (by simpa using hauth)
      cases replace with
      | none => exact absurd (mem_filter.mp hcurrent).1 not_mem_nil
      | some ranges =>
        obtain rfl : true = authoritative := beq_iff_eq.mp hexported
        rw [if_pos rfl] at hgone
        exact findKey_isNone.mp hgone (mem_map.mpr ⟨r, hr, hrkey⟩)
    simp [Write.Respects, hkey]
  · obtain ⟨item, hitem, rfl⟩ := mem_map.mp hrecord
    have hprep : item ∈ prepared := by
      split_ifs at hitem
      · exact hitem
      · exact (mem_filter.mp hitem).1
    rw [installRecord] at hinstall
    split_ifs at hinstall
    · cases hinstall
      simp
    · obtain ⟨_, hmarshal, rfl⟩ := map_eq_ok.mp hinstall
      have hstorable : Storable lib s item.record :=
        ⟨prevalidated_core hprepared hprep, hvalues item.record (mem_map_of_mem hprep)⟩
      simp only [forall_mem_append, forall_mem_map, forall_mem_cons]
      exact ⟨fun _ _ => trivial, ⟨hstorable, hmarshal⟩, trivial, forall_mem_nil _⟩

section Snapshot

variable {clock : Clock} {env : SnapshotEnv} {gone next record : Record} {height : ℕ}
  {snapshot : PathSnapshot} {u : Store H} {validated : ValidatedPathSnapshot}
  {validators : Validators} (hs : Vetted lib s)
  (hv : Validated lib clock validators snapshot validated)
include hv

omit [TransOrd H] in
include hs in
theorem installed_of_removed (hgone : gone ∈ snapshotRemoved lib s validated height)
    (hnext : next ∈ validated.active) (hkey : next.key = gone.key) :
    next ∈ snapshotInstalled lib s validated height := by
  obtain ⟨hcurrent, hdiffers⟩ := mem_filter.mp hgone
  refine mem_filter.mpr ⟨hnext, ?_⟩
  rw [sameIn, ← hkey, findKey_of_mem hv.nodup hnext, Option.any_some, Bool.not_eq_true',
    beq_eq_false_iff_ne] at hdiffers
  rw [Bool.not_eq_true', ← Bool.not_eq_true]
  intro hsame
  have hstored : ∀ record ∈ replaceableRecords lib s validated height, s.Holds record := by
    intro record hrecord
    obtain ⟨k, hk, -⟩ := mem_scan.mp (mem_filter.mp hrecord).1
    exact hs.keyed.holds hk
  obtain ⟨found, hfound, hhash⟩ := (Option.any_eq_true _ _).mp hsame
  obtain ⟨hmem, hfkey⟩ := findKey_eq_some hfound
  have heq := (hstored found hmem).eq (hstored gone hcurrent) (hfkey.trans hkey)
  exact hdiffers (heq ▸ beq_iff_eq.mp hhash).symm

theorem Installs.storable (h : Installs lib env validated s u) (hrecord : record ∈ validated.active) :
    Storable lib s record := by
  refine ⟨sound_of_counts (hv.counts record hrecord), fun hkey => ?_⟩
  have hroot := contractRoot_prefix_of_inCollection hkey (hv.within record hrecord)
  exact (validateContractIncoming_eq_ok (h.contracts hroot)).1 record hrecord hkey

include hs in
theorem Installs.restored (h : Installs lib env validated s u)
    (hgone : gone ∈ snapshotRemoved lib s validated height)
    (hkey : isAuthorityKey gone.key = true) :
    ∃ record ∈ snapshotInstalled lib s validated height, record.key = gone.key := by
  have hscan := (mem_filter.mp (mem_filter.mp hgone).1).1
  obtain ⟨_, -, -, hin⟩ := mem_scan.mp hscan
  have hroot := contractRoot_prefix_of_inPath hv.scope hkey hin
  obtain ⟨next, hnext, hnextKey⟩ := (validateContractIncoming_eq_ok (h.contracts hroot)).2 gone.key
    (mem_filter.mpr ⟨mem_map_of_mem hscan, hkey⟩) hkey
  exact ⟨next, installed_of_removed hs hv hgone hnext hnextKey, hnextKey⟩

include hs in
theorem Installs.permanent (h : Installs lib env validated s u) : Permanent lib s u := by
  obtain ⟨_, _, m, removals, installs, _, -, hremovals, hinstalls, hu⟩ := h.batch
  have hinstall : ∀ record ∈ snapshotInstalled lib s validated env.lockClock.height, ∀ ws,
      snapshotInstall lib s validated.path m.endpointGeneration record = .ok ws →
        .putRecord record ∈ ws ∧ ∀ w ∈ ws, ∀ apart, w.Respects lib s apart := by
    intro record hrecord ws hws
    simp only [snapshotInstall, bind_eq_ok] at hws
    obtain ⟨_, hmarshal, mark, hmark, hws⟩ := hws
    cases hws
    simp only [forall_mem_append, forall_mem_cons]
    exact ⟨by simp, ⟨fun _ => ⟨h.storable hv (mem_filter.mp hrecord).1, hmarshal⟩, fun _ => trivial,
      forall_mem_nil _⟩, fun w hw _ =>
      respects_of_inert (inert_of_isMark (isMark_markChangedRecordBatch hmark)) w hw⟩
  have hinstalled := forall_flatten_of_mapM hinstalls fun record hrecord ws hf =>
    (hinstall record hrecord ws hf).2
  have hinert : ∀ w ∈ ([.putPathMeta m, .putPathStatus validated.path false] : Batch H),
      w.inert = true := by simp [Write.inert]
  refine permanent_commit hs (.refl s) (by rw [hu]) (forall_mem_append.mpr ⟨forall_mem_append.mpr
    ⟨forall_flatten_of_mapM hremovals fun gone hgone ws hremoval => (snapshotRemoval_eq_ok
      hremoval).respects fun hkey => ?_, fun w hw => hinstalled w hw _⟩, respects_of_inert hinert⟩)
  -- A contract record that is removed is installed again, and nothing installed is deleted.
  obtain ⟨next, hnext, hnextKey⟩ := h.restored hs hv hgone hkey
  obtain ⟨ws, hws, hf⟩ := exists_mem_of_mapM hinstalls hnext
  rw [flush_append, (flush_inert _ hinert).1, flush_append]
  obtain ⟨-, hnone⟩ | ⟨r, -, -, hslot⟩ | ⟨hdeleted, -⟩ :=
    flush_slot (flush s removals.flatten) installs.flatten gone.key
  · exact absurd hnextKey (hnone next (mem_flatten.mpr ⟨ws, hws, (hinstall next hnext ws hf).1⟩))
  · rw [hslot]
    exact Option.some_ne_none r
  · exact (hinstalled _ hdeleted (fun _ => False) hkey).elim

end Snapshot

theorem wp_applyCurrentPathSnapshot_permanent (hs : Vetted lib s) (env) (snapshot baseline) :
    Ends (applyCurrentPathSnapshot lib env snapshot baseline) s (Permanent lib s) := by
  refine wp_mono (wp_applyCurrentPathSnapshot (P := fun _ => Permanent lib s) (.refl hs)
    fun validated hv => wp_mono (wp_ensurePathMetaLocked lib _ _ _ s) (fun _ t ht => ?_)
      fun _ _ ht => ht.permanent hs) (fun _ _ h => h.elim fun _ h => h.2.2) fun _ _ h => h
  have hm := ht.permanent hs
  exact ⟨hm, fun u hu => hm.trans (hu.permanent hm.vetted hv)⟩

inductive Activity (H : Type) [Ord H]
  | operation (op : Operation H) (exported : op.exported = true)
  | delivery (attempt : Attempt H)

def Activity.apply (lib : RecordLib H) (s : Store H) : Activity H → Store H
  | operation op _ => op.apply lib s
  | delivery attempt => (attempt.run lib s).2

theorem Operation.permanent_apply (hlib : CollisionFree lib) (hs : Vetted lib s) (op : Operation H)
    (hexported : op.exported = true) : Permanent lib s (op.apply lib s) := by
  cases op with
  | put env record remote => exact exec_of_wp (wp_putAttempt_permanent hlib hs env record remote)
  | batchCAS env mutations => exact exec_of_wp (wp_batchAttempt_permanent hs env mutations)
  | applyRecordSet env records replace checkRoot authoritative rejectFreeLocal =>
    exact exec_of_wp (wp_applyRecordSetAttempt_permanent hs env records replace _ _ _ hexported)
  | applyPathSnapshot env snapshot baseline =>
    exact exec_of_wp (wp_applyCurrentPathSnapshot_permanent hs env snapshot baseline)
  | deleteMirrorKeys clock flushed keys =>
    exact exec_of_wp (wp_deleteMirrorKeys_permanent hs clock flushed keys)
  | pruneExpired clock flushed popped height =>
    exact exec_of_wp (wp_pruneExpiredAt_permanent hs clock flushed popped height)
  | pruneExpiredAutopay seen clock lockClock validators policyGeneration graceBlocks flushed
      height =>
    exact exec_of_wp (wp_pruneExpiredAutopayAt_permanent hlib hs seen clock lockClock validators _ _
      flushed height)
  | ensurePathMeta tip path height =>
    exact exec_of_wp (wp_mono (wp_ensurePathMetaLocked lib tip path height s)
      (fun _ _ h => h.permanent hs) fun _ _ h => h.permanent hs)
  | outside nameTransfers retentions => exact .of_records hs rfl

theorem Activity.permanent_apply (hlib : CollisionFree lib) (hs : Vetted lib s) (a : Activity H) :
    Permanent lib s (a.apply lib s) := by
  cases a with
  | operation op hexported => exact op.permanent_apply hlib hs hexported
  | delivery attempt => exact exec_of_wp (wp_acceptAttempt_permanent hs attempt.env attempt.record)

theorem permanent_foldl (hlib : CollisionFree lib) (hs : Vetted lib s) (activities : List (Activity H)) :
    Permanent lib s (activities.foldl (Activity.apply lib) s) := by
  induction activities generalizing s with
  | nil => exact .refl hs
  | cons a activities ih =>
    have ha := a.permanent_apply hlib hs
    exact ha.trans (ih ha.vetted)

omit [TransOrd H] [DecidableEq H] in
theorem vetted_empty : Vetted lib (.empty H) :=
  ⟨fun _ _ h => by simp [Store.empty] at h, fun h => by simp [Store.empty] at h,
    fun h => by simp [Store.empty] at h⟩

/-- Once a record with an authority contract key is stored, the store has a record with that key and
that value after whatever happens next. -/
theorem authority_contracts_permanent (hlib : CollisionFree lib)
    (before after : List (Activity H)) (key : Text) (hkey : isAuthorityKey key = true)
    (record : Record)
    (h : (before.foldl (Activity.apply lib) (.empty H)).records[key]? = some record) :
    ∃ record' : Record,
      ((before ++ after).foldl (Activity.apply lib) (.empty H)).records[key]? = some record' ∧
        record'.value = record.value := by
  rw [foldl_append]
  have hbefore := permanent_foldl hlib vetted_empty before
  exact (permanent_foldl hlib hbefore.vetted after).held key record hkey h

namespace Reference

def contract (value : Bytes) : Record :=
  { record "/contract/amm/pool-1" 1 5 0 with value := value, pubKey := replicate 33 2 }

def contractPut (seen : Store (List ℕ)) (value : Bytes) : Activity (List ℕ) :=
  .operation (.put { putEnv seen 5 with
    validators := { validators with system := some fun _ _ => .ok () } } (contract value) false) rfl

def contractStore : Store (List ℕ) := (contractPut (.empty _) [7]).apply recordLib (.empty _)

end Reference

open Reference in
theorem authority_contract_survives : isAuthorityKey "/contract/amm/pool-1".toList = true ∧
    contractStore.records.toList = [("/contract/amm/pool-1".toList, contract [7])] ∧
    ∃ record' : Record, (([contractPut (.empty _) [7]] ++ [contractPut contractStore [8],
      .operation (.deleteMirrorKeys ⟨5, none⟩ (.ok ()) ["/contract/amm/pool-1".toList]) rfl]).foldl
        (Activity.apply recordLib) (.empty (List ℕ))).records["/contract/amm/pool-1".toList]? =
          some record' ∧ record'.value = [7] :=
  ⟨by decide +kernel, by decide +kernel, authority_contracts_permanent collisionFree_recordLib _ _
    _ (by decide +kernel) (contract [7]) (by decide +kernel)⟩

end SatoshiNet.Dkvs
