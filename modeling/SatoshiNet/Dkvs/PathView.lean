import SatoshiNet.Dkvs.Replace

/-!
What path metadata says of a list of records, how counting a record in or out changes it, and the
view of a path: the stored records that its metadata should commit to, taken apart into what depends
on the record alone, on the height, on the chain tip and on the payment cache.
-/

namespace SatoshiNet.Dkvs

open Lib Std List Option

section

def leastExpiry (records : Records) : ℕ :=
  ((records.map recordExpiryHeight).filter (· ≠ 0)).min?.getD 0

variable {H : Type} (lib : RecordLib H)

def RecordLib.root (records : Records) : BitVec 256 :=
  (records.map lib.pathMetaRecordLeaf).foldr (· ^^^ ·) 0

structure Sums (m : PathMeta) (records : Records) : Prop where
  count : m.activeRecords = records.length
  size : m.activeTotalSize = (records.map recordSize).sum
  root : m.stateRoot = lib.root records

structure Commits (m : PathMeta) (records : Records) : Prop extends Sums lib m records where
  expiry : m.minExpiryHeight = leastExpiry records

/-- The record expires, and none of the list expires before it. -/
abbrev ExpiresFirst (record : Record) (records : Records) : Prop :=
  recordExpiryHeight record ≠ 0 ∧ recordExpiryHeight record = leastExpiry records

abbrev ExpiresBy (next record : Record) : Prop := recordExpiryHeight record ≠ 0 →
  recordExpiryHeight next ≠ 0 ∧ recordExpiryHeight next ≤ recordExpiryHeight record

abbrev RecordLib.Plain (record : Record) : Prop :=
  isTombstone record.flags = false ∧ lib.isFreeLocalRecord record = false

theorem leastExpiry_cons (record) (records) :
    leastExpiry (record :: records) = if recordExpiryHeight record ≠ 0 ∧
          (leastExpiry records = 0 ∨ recordExpiryHeight record < leastExpiry records) then
        recordExpiryHeight record
      else leastExpiry records := by
  have hmem : ∀ n, ((records.map recordExpiryHeight).filter (· ≠ 0)).min? = some n → n ≠ 0 :=
    fun n hn => by simpa using (mem_filter.mp (min?_mem hn)).2
  simp only [leastExpiry, map_cons]
  by_cases hzero : recordExpiryHeight record = 0
  · simp [hzero]
  rw [filter_cons_of_pos (by simpa using hzero), min?_cons]
  obtain hmin | ⟨n, hmin⟩ :=
    eq_none_or_eq_some ((records.map recordExpiryHeight).filter (· ≠ 0)).min?
  · simp only [hmin, elim_none, getD_none, getD_some]
    rw [if_pos ⟨hzero, .inl trivial⟩]
  · have hn := hmem n hmin
    simp only [hmin, elim_some, getD_some]
    split_ifs <;> omega

theorem leastExpiry_perm {l l'} (h : l.Perm l') : leastExpiry l = leastExpiry l' := by
  induction h with
  | nil => rfl
  | cons r _ ih => rw [leastExpiry_cons, leastExpiry_cons, ih]
  | swap a b l =>
    simp only [leastExpiry_cons]
    split_ifs <;> omega
  | trans _ _ ih ih' => exact ih.trans ih'

variable {m : PathMeta} {record : Record} {records : Records}

theorem leastExpiry_le (h : record ∈ records) (hne : recordExpiryHeight record ≠ 0) :
    leastExpiry records ≠ 0 ∧ leastExpiry records ≤ recordExpiryHeight record := by
  induction records with
  | nil => cases h
  | cons r records ih =>
    rw [leastExpiry_cons]
    obtain rfl | h := mem_cons.mp h
    · split_ifs <;> omega
    · have := ih h
      split_ifs <;> omega

theorem exists_leastExpiry (h : leastExpiry records ≠ 0) :
    ∃ record ∈ records, recordExpiryHeight record = leastExpiry records := by
  induction records with
  | nil => exact absurd rfl h
  | cons r records ih =>
    rw [leastExpiry_cons] at h ⊢
    split_ifs at h ⊢
    · exact ⟨r, mem_cons_self, rfl⟩
    · obtain ⟨record, hmem, hexp⟩ := ih h
      exact ⟨record, mem_cons_of_mem _ hmem, hexp⟩

variable {lib}

theorem updateMinExpiry_replace {old next} {rest} (hplain : lib.Plain next)
    (hleast : ExpiresFirst old (old :: rest) → ∀ record ∈ rest, ExpiresBy next record) :
    lib.updateMinExpiry (if ExpiresFirst old (old :: rest) then 0 else leastExpiry (old :: rest))
      next = leastExpiry (next :: rest) := by
  rw [leastExpiry_cons next, RecordLib.updateMinExpiry, hplain.1, hplain.2]
  simp only [Bool.or_self, Bool.false_eq_true, if_false]
  by_cases hold : ExpiresFirst old (old :: rest)
  · rw [if_pos hold]
    by_cases hrest : leastExpiry rest = 0
    · simp [hrest]
    · obtain ⟨record, hmem, hexp⟩ := exists_leastExpiry hrest
      have hnext := hleast hold record hmem (hexp ▸ hrest)
      split_ifs <;> omega
  · have hkeep : leastExpiry (old :: rest) = leastExpiry rest := by
      rw [ExpiresFirst, leastExpiry_cons] at hold
      rw [leastExpiry_cons]
      split_ifs at hold ⊢ <;> omega
    rw [if_neg hold, hkeep]

theorem Commits.perm {l l'} (h : Commits lib m l) (hl : l.Perm l') : Commits lib m l' := by
  have hcomm : LeftCommutative (fun a b : BitVec 256 => a ^^^ b) :=
    ⟨fun a b c => by rw [← BitVec.xor_assoc, BitVec.xor_comm a b, BitVec.xor_assoc]⟩
  refine ⟨⟨h.count.trans hl.length_eq, h.size.trans (hl.map _).sum_eq, h.root.trans ?_⟩,
    h.expiry.trans (leastExpiry_perm hl)⟩
  exact (hl.map lib.pathMetaRecordLeaf).foldr_eq 0

theorem commits_blank (lib : RecordLib H) (path : Text) (generation endpointGeneration height : ℕ) :
    Commits lib (.blank path generation endpointGeneration height) [] := ⟨⟨rfl, rfl, rfl⟩, rfl⟩

theorem Sums.countIn (h : Sums lib m records) (record) :
    Sums lib (lib.countIn m record) (record :: records) := by
  refine ⟨?_, ?_, ?_⟩
  · rw [RecordLib.countIn, length_cons, h.count]
  · simp only [RecordLib.countIn, map_cons, sum_cons, h.size]
    exact Nat.add_comm _ _
  · simp only [RecordLib.countIn, h.root, RecordLib.root, map_cons, foldr_cons]
    exact BitVec.xor_comm _ _

theorem Commits.countIn (h : Commits lib m records) (hplain : lib.Plain record) :
    Commits lib (lib.countIn m record) (record :: records) := by
  refine ⟨h.toSums.countIn record, ?_⟩
  rw [leastExpiry_cons]
  simp [RecordLib.countIn, RecordLib.updateMinExpiry, hplain, h.expiry]

theorem Commits.foldl_countIn (h : Commits lib m records) {more}
    (hmore : ∀ record ∈ more, lib.Plain record) :
    Commits lib (more.foldl lib.countIn m) (more ++ records) := by
  induction more generalizing m records with
  | nil => exact h
  | cons r more ih =>
    obtain ⟨hr, hmore⟩ := forall_mem_cons.mp hmore
    refine (ih (h.countIn hr) hmore).perm ?_
    exact perm_middle

theorem Commits.countOut (h : Commits lib m (record :: records)) :
    ∃ m', lib.countOut m record = .ok m' ∧ m'.path = m.path ∧ Sums lib m' records ∧
      m'.minExpiryHeight = if ExpiresFirst record (record :: records) then 0
        else leastExpiry (record :: records) := by
  have hsize := h.size
  rw [map_cons, sum_cons] at hsize
  have hcount := h.count
  rw [length_cons] at hcount
  refine ⟨_, if_neg (by omega), rfl, ⟨?_, ?_, ?_⟩, by simp only [h.expiry]⟩
  · simp [hcount]
  · simp [hsize]
  · simp only [h.root, RecordLib.root, map_cons, foldr_cons]
    rw [BitVec.xor_comm, ← BitVec.xor_assoc, BitVec.xor_self, BitVec.zero_xor]

theorem foldl_countIn_frame (m : PathMeta) (records : Records) :
    let m' := records.foldl lib.countIn m
    (m'.path = m.path ∧ m'.viewHeight = m.viewHeight) ∧
      m'.generation = m.generation ∧ m'.endpointGeneration = m.endpointGeneration := by
  induction records generalizing m with
  | nil => exact ⟨⟨rfl, rfl⟩, rfl, rfl⟩
  | cons r records ih => exact ih (lib.countIn m r)

theorem Commits.at (h : Commits lib m records) (path) (generation endpointGeneration height : ℕ) :
    Commits lib { m with
      path := path
      generation := generation
      endpointGeneration := endpointGeneration
      viewHeight := height } records := { h with }

end

open Bool

variable {H : Type}

namespace RecordLib

variable (lib : RecordLib H) (record : Record)

/-- Active but for its lifetime: with its own issue height as the tip, at height zero. -/
def wellFormed : Bool := lib.recordActive (some record.issueHeight) record 0

def shown : Bool :=
  !isTombstone record.flags && !lib.isEndpointCacheRecord record

def counts (height : ℕ) : Bool :=
  lib.shown record && lib.wellFormed record && !isExpired record height

end RecordLib

variable {lib : RecordLib H} {height : ℕ} {m : PathMeta} {parsed : ParsedKey} {path : Text}
  {record : Record}

theorem recordActive_iff {tip} :
    lib.recordActive tip record height = true ↔ isTombstone record.flags = false ∧
      ∃ parsed, lib.CoreSound record parsed ∧ RecordLib.issuedBy tip record height = true ∧
        isExpired record height = false ∧ lib.validateStoredPermission parsed record = .ok () := by
  have hok : lib.recordActive tip record height = true ↔
      lib.activeError tip record height = .ok () := by
    rw [RecordLib.recordActive]
    cases lib.activeError tip record height <;> simp [Except.isOk, Except.toBool]
  rw [hok]
  simp only [RecordLib.activeError, bind_eq_ok, require_eq_ok, validateCore_eq_ok, not_eq_true']
  constructor
  · rintro ⟨_, htomb, parsed, ⟨hsound, hissued, hexp⟩, hstored⟩
    simp only [htomb, Bool.and_false, Bool.or_false, Bool.not_eq_true'] at hexp
    exact ⟨htomb, parsed, hsound, hissued, hexp, hstored⟩
  · rintro ⟨htomb, parsed, hsound, hissued, hexp, hstored⟩
    exact ⟨⟨⟩, htomb, parsed, ⟨hsound, hissued, by rw [hexp]; rfl⟩, hstored⟩

theorem recordActive_eq (tip) (record) (height : ℕ) : lib.recordActive tip record height =
      (RecordLib.issuedBy tip record height && lib.wellFormed record && !isExpired record height) := by
  have hown : RecordLib.issuedBy (some record.issueHeight) record 0 = true := by
    simp [RecordLib.issuedBy]
  rw [Bool.eq_iff_iff, Bool.and_eq_true, Bool.and_eq_true, RecordLib.wellFormed, recordActive_iff,
    recordActive_iff, not_eq_true', hown, isExpired_zero]
  constructor
  · rintro ⟨htomb, parsed, hsound, hissued, hexp, hstored⟩
    exact ⟨⟨hissued, htomb, parsed, hsound, rfl, rfl, hstored⟩, hexp⟩
  · rintro ⟨⟨hissued, htomb, parsed, hsound, -, -, hstored⟩, hexp⟩
    exact ⟨htomb, parsed, hsound, hissued, hexp, hstored⟩

theorem not_internal_of_shown (hparse : parseKey record.key = .ok parsed)
    (hcache : lib.isEndpointCacheRecord record = false) :
    (lib.isInternalMailboxRecord record || isInternalTopicRecord record) = false := by
  simp only [RecordLib.isEndpointCacheRecord, RecordLib.isAccountBoundRecord, hparse,
    or_eq_false_iff] at hcache
  obtain ⟨⟨hmail, htopic⟩, -⟩ := hcache
  have hns : (parsed.ns == Namespace.mail) = false := hmail
  rw [htopic, Bool.or_false, RecordLib.isInternalMailboxRecord, hparse]
  simp [Except.toOption, isInternalMailboxShape, hns]

theorem wellFormed_of_sound (hsound : lib.CoreSound record parsed)
    (hshown : lib.shown record = true) : lib.wellFormed record = true := by
  simp only [RecordLib.shown, and_eq_true, not_eq_true'] at hshown
  refine recordActive_iff.mpr ⟨hshown.1, parsed, hsound, ?_, isExpired_zero record, ?_⟩
  · simp [RecordLib.issuedBy]
  · have hparse := hsound.parseKey
    simp only [RecordLib.CoreSound, RecordLib.validateCoreWithVerifier, bind_eq_ok,
      checkWhen_eq_ok] at hsound
    obtain ⟨_, -, p, hp, _, henv, _, -, _, -, _, -, _, hsign, h⟩ := hsound
    cases h
    obtain ⟨_, -, _, hidentity, -⟩ := hsign (by rw [not_internal_of_shown hparse hshown.2]; rfl)
    rw [RecordLib.validateStoredPermission]
    split_ifs with hkind hscoped
    · exact henv hkind
    · exact hidentity
    · rfl

theorem networkPathRecordVisible_eq (cache) (record) (height : ℕ) :
    lib.networkPathRecordVisible cache record height =
      (lib.shown record && lib.paidRecordRelayableAt cache record height) := rfl

theorem isExpired_mono {height' : ℕ} (h : height ≤ height')
    (hexp : isExpired record height' = false) : isExpired record height = false := by
  simp only [isExpired, and_eq_false_iff, bne_eq_false_iff_eq, decide_eq_false_iff_not] at hexp ⊢
  omega

theorem plain_of_counts (h : lib.counts record height = true) : lib.Plain record := by
  simp only [RecordLib.counts, RecordLib.shown, RecordLib.isEndpointCacheRecord, and_eq_true,
    not_eq_true', or_eq_false_iff] at h
  exact ⟨h.1.1.1, h.1.1.2.2⟩

/-- Counting a replaced record out and its successor in gives the commitment to the new view, unless
the replaced record alone had the least expiry and another record now expires before its
successor. -/
theorem Commits.mutate {m'} {existing} {next} {rest}
    (hm : Commits lib m (existing.toList.filter (lib.counts · height) ++ rest))
    (hnext : existing.any (lib.counts · height) = true → lib.counts next height = true)
    (hleast : ∀ old, existing = some old → lib.counts old height = true →
      ExpiresFirst old (old :: rest) → ∀ record ∈ rest, ExpiresBy next record)
    (hok : lib.mutatePathMeta m existing next (existing.any (lib.counts · height)) (lib.counts next
      height) height = .ok m') : m'.path = m.path ∧ m'.viewHeight = height ∧
      Commits lib m' ([next].filter (lib.counts · height) ++ rest) := by
  simp only [RecordLib.mutatePathMeta, bind_eq_ok, require_eq_ok] at hok
  obtain ⟨_, -, m₁, hout, _, -, hok⟩ := hok
  cases hok
  cases hbefore : existing.any (lib.counts · height) with
  | false =>
    have hnone : existing.toList.filter (lib.counts · height) = [] := by
      cases existing with
      | none => rfl
      | some old => simpa using hbefore
    have hsame : m₁ = { m with endpointGeneration := m.endpointGeneration + 1 } := by
      rw [hbefore] at hout
      cases existing <;> exact (Except.ok.inj hout).symm
    rw [hnone, nil_append] at hm
    subst hsame
    cases hafter : lib.counts next height with
    | false =>
      rw [filter_singleton, hafter]
      exact ⟨rfl, rfl, hm.at _ _ _ _⟩
    | true =>
      rw [filter_singleton, hafter]
      exact ⟨rfl, rfl, (((hm.at _ _ _ _).countIn (plain_of_counts hafter)).at _ _ _ _)⟩
  | true =>
    have hafter := hnext hbefore
    obtain ⟨old, rfl, hold⟩ := (any_eq_true _ _).mp hbefore
    rw [toList_some, filter_singleton, hold] at hm
    obtain ⟨m₂, hm₂, hpath, hsums, hmin⟩ := (hm.at m.path m.generation (m.endpointGeneration + 1)
      m.viewHeight).countOut
    rw [hbefore] at hout
    obtain rfl := Except.ok.inj (hm₂.symm.trans hout)
    rw [filter_singleton, hafter]
    refine ⟨hpath, rfl, { hsums.countIn next with }, ?_⟩
    simp only [if_true, RecordLib.countIn, hmin, cond_true, singleton_append]
    exact updateMinExpiry_replace (plain_of_counts hafter) (hleast old rfl hold)

variable [Ord H]

/-- The stored records below the path that its metadata should count at the height. -/
def Store.view (lib : RecordLib H) (s : Store H) (path : Text) (height : ℕ) : Records :=
  (s.scan path).filter (lib.counts · height)

variable {s t : Store H}

theorem mem_view (hs : Keyed s) (hpath : path ≠ []) : record ∈ s.view lib path height ↔
      s.records[record.key]? = some record ∧ inPath path record.key = true ∧
        lib.counts record height = true := by
  rw [Store.view, mem_filter, mem_scan]
  constructor
  · rintro ⟨⟨key, hkey, -, hin⟩, hcounts⟩
    exact ⟨hs.holds hkey, hin.resolve_left hpath, hcounts⟩
  · rintro ⟨hkey, hin, hcounts⟩
    exact ⟨⟨record.key, hkey, isPrefixOf_of_inPath hin, .inr hin⟩, hcounts⟩

theorem pairwise_values {table : ExtTreeMap Text Record}
    (hs : ∀ ⦃key : Text⦄ ⦃record : Record⦄, table[key]? = some record → record.key = key) :
    table.toList.Pairwise fun a b => a.2 ≠ b.2 := by
  refine ExtTreeMap.distinct_keys_toList.imp_of_mem fun {a b} ha hb hne heq => hne ?_
  rw [← hs (ExtTreeMap.mem_toList_iff_getElem?_eq_some.mp ha),
    ← hs (ExtTreeMap.mem_toList_iff_getElem?_eq_some.mp hb), heq]
  exact ReflOrd.compare_self

theorem nodup_view (hs : Keyed s) (path) (height : ℕ) : (s.view lib path height).Nodup := by
  refine List.Nodup.filter _ (List.Pairwise.filterMap _ (fun a b hne r hr r' hr' => ?_)
    (pairwise_values hs))
  simp only [ite_none_right_eq_some, some.injEq] at hr hr'
  rw [← hr.2, ← hr'.2]
  exact hne

theorem view_perm (hs : Keyed s) (ht : Keyed t) (hpath : path ≠ [])
    (hsame : ∀ record : Record, inPath path record.key = true → lib.counts record height = true →
      (s.Holds record ↔ t.Holds record)) :
    (s.view lib path height).Perm (t.view lib path height) := by
  rw [perm_ext_iff_of_nodup (nodup_view hs path height) (nodup_view ht path height)]
  intro record
  rw [mem_view hs hpath, mem_view ht hpath]
  exact and_congr_left fun h => hsame record h.1 h.2

def Paid (lib : RecordLib H) (path : Text) (s : Store H) (height : ℕ) : Prop :=
  ∀ (key : Text) (record : Record), s.records[key]? = some record → inPath path key = true →
    lib.paidRecordRelayableAt s.retentions record height = true

/-- A record below the path has it as its collection path and is not from the future. -/
def Belongs (path : Text) (clock : Clock) (record : Record) : Prop :=
  inPath path record.key = true →
    InCollection path record.key ∧ record.issueHeight ≤ clock.issueHeightTip

/-- The records below the path belong to it, and the metadata of the path, unless it is marked
dirty, commits to the view at its own height. -/
structure Tracked (lib : RecordLib H) (path : Text) (clock : Clock) (s : Store H) : Prop where
  keyed : Keyed s
  owns : ∀ (key : Text) (record : Record), s.records[key]? = some record → Belongs path clock record
  commits : ∀ m, s.metas[path]? = some m → path ∉ s.dirtyPaths →
    Commits lib m (s.view lib path m.viewHeight)

theorem Tracked.within {clock : Clock} (h : Tracked lib path clock s) {key : Text}
    (hrecord : s.records[key]? = some record) (hin : inPath path key = true) :
    InCollection path key := by
  obtain rfl := h.keyed hrecord
  exact (h.owns _ record hrecord hin).1

/-- A height that the node reads its records at: without a tip source it is not in the past. -/
def Clock.Reads (clock : Clock) (height : ℕ) : Prop := clock.tip = none → clock.height ≤ height

omit [Ord H] in
theorem Clock.reads_height (clock : Clock) : clock.Reads clock.height := fun _ => Nat.le_refl _

omit [Ord H] in
theorem Clock.reads_issueHeightTip (clock : Clock) : clock.Reads clock.issueHeightTip := fun h => by
  rw [issueHeightTip, h, getD_none]

theorem issuedBy_of_le {clock : Clock} (h : record.issueHeight ≤ clock.issueHeightTip)
    (hheight : clock.Reads height) : RecordLib.issuedBy clock.tip record height = true := by
  cases htip : clock.tip with
  | none =>
    rw [Clock.issueHeightTip, htip, getD_none] at h
    simp only [RecordLib.issuedBy, or_eq_true, decide_eq_true_eq]
    exact .inr (h.trans (hheight htip))
  | some tip =>
    rw [Clock.issueHeightTip, htip, getD_some] at h
    exact decide_eq_true h

variable {path : Text} {clock : Clock} {s : Store H} {height : ℕ}

structure SamePath (path : Text) (s t : Store H) : Prop where
  records : ∀ key, inPath path key = true → t.records[key]? = s.records[key]?
  metas : t.metas[path]? = s.metas[path]?
  dirty : path ∈ t.dirtyPaths ↔ path ∈ s.dirtyPaths

theorem MetaOnly.keyed (h : MetaOnly s t) (hs : Keyed s) : Keyed t := by
  obtain ⟨_, _, rfl⟩ := h
  exact hs

theorem MetaOnly.paid (h : MetaOnly s t) (hs : Paid lib path s height) :
    Paid lib path t height := by
  obtain ⟨_, _, rfl⟩ := h
  exact hs

theorem MetaOnly.view (h : MetaOnly s t) (path) (height : ℕ) :
    t.view lib path height = s.view lib path height := by
  obtain ⟨_, _, rfl⟩ := h
  rfl

theorem view_carry {past : ℕ} (h : Commits lib m (s.view lib path past)) (hlater : past < height)
    (hlive : height < m.minExpiryHeight) : s.view lib path height = s.view lib path past := by
  refine filter_congr fun record hrecord => ?_
  cases hpast : lib.counts record past with
  | true =>
    have hleast : recordExpiryHeight record ≠ 0 → height < recordExpiryHeight record := fun hne =>
      hlive.trans_le (h.expiry ▸ (leastExpiry_le (mem_filter.mpr ⟨hrecord, hpast⟩) hne).2)
    have hexp : isExpired record height = false := by
      simp only [isExpired, and_eq_false_iff, bne_eq_false_iff_eq, decide_eq_false_iff_not]
      omega
    simp only [RecordLib.counts, and_eq_true] at hpast ⊢
    simp [hpast.1, hexp]
  | false =>
    by_contra hnow
    have hnow := not_eq_false _ ▸ hnow
    simp only [RecordLib.counts, and_eq_true, not_eq_true'] at hnow
    have hexp := isExpired_mono hlater.le hnow.2
    simp [RecordLib.counts, hnow.1, hexp] at hpast

/-- What is stored was stored before, or belongs to the path. -/
def Fills (path : Text) (clock : Clock) (s t : Store H) : Prop :=
  ∀ (key : Text) (record : Record), t.records[key]? = some record →
    s.records[key]? = some record ∨ record.key = key ∧ Belongs path clock record

theorem Fills.keyed (h : Fills path clock s t) (hs : Keyed s) : Keyed t := fun key record hrecord =>
  (h key record hrecord).elim (fun h => hs h) And.left

theorem view_exchange (hs : Keyed s) (ht : Keyed t) (hpath : path ≠ []) {key}
    (hin : inPath path key = true) (hother : ∀ k, k ≠ key → t.records[k]? = s.records[k]?)
    (height : ℕ) : let rest := (s.view lib path height).filter (·.key ≠ key)
    (s.view lib path height).Perm (s.records[key]?.toList.filter (lib.counts · height) ++ rest) ∧
      (t.view lib path height).Perm
        (t.records[key]?.toList.filter (lib.counts · height) ++ rest) := by
  have hsplit : ∀ u : Store H, Keyed u → (u.view lib path height).Perm
      (u.records[key]?.toList.filter (lib.counts · height) ++
        (u.view lib path height).filter (·.key ≠ key)) := by
    intro u hu
    have hslot : ((u.view lib path height).filter (·.key = key)).Perm
        (u.records[key]?.toList.filter (lib.counts · height)) := by
      rw [perm_ext_iff_of_nodup ((nodup_view hu path height).filter _)
        (List.Nodup.filter _ (by cases u.records[key]? <;> simp))]
      intro record
      rw [mem_filter, mem_view hu hpath, mem_filter, mem_toList, decide_eq_true_eq]
      constructor
      · rintro ⟨⟨hrecord, -, hcounts⟩, rfl⟩
        exact ⟨hrecord, hcounts⟩
      · rintro ⟨hrecord, hcounts⟩
        obtain rfl := hu hrecord
        exact ⟨⟨hrecord, hin, hcounts⟩, rfl⟩
    have hparts := filter_append_perm (fun record : Record => decide (record.key = key))
      (u.view lib path height)
    simp only [← decide_not] at hparts
    exact hparts.symm.trans (hslot.append_right _)
  refine ⟨hsplit s hs, (hsplit t ht).trans (List.Perm.append_left _ ?_)⟩
  rw [perm_ext_iff_of_nodup ((nodup_view ht path height).filter _)
    ((nodup_view hs path height).filter _)]
  intro record
  rw [mem_filter, mem_filter, mem_view ht hpath, mem_view hs hpath]
  constructor
  · rintro ⟨⟨hrecord, hrest⟩, hne⟩
    exact ⟨⟨(hother _ (of_decide_eq_true hne)).symm.trans hrecord, hrest⟩, hne⟩
  · rintro ⟨⟨hrecord, hrest⟩, hne⟩
    exact ⟨⟨(hother _ (of_decide_eq_true hne)).trans hrecord, hrest⟩, hne⟩

variable (h : Tracked lib path clock s)
include h

section

variable (hpath : path ≠ []) (htrim : trimSlash path = path) (hpaid : Paid lib path s height)
  (hheight : clock.Reads height)
include hpaid hheight

theorem visible_eq_counts (hrecord : s.Holds record) (hin : inPath path record.key = true) :
    (lib.recordActive clock.tip record height &&
      lib.networkPathRecordVisible s.retentions record height) = lib.counts record height := by
  rw [recordActive_eq, networkPathRecordVisible_eq, hpaid _ _ hrecord hin,
    issuedBy_of_le (h.owns _ _ hrecord hin).2 hheight, RecordLib.counts]
  cases lib.shown record <;> simp

include hpath htrim

theorem visibleRecords_eq_view :
    s.visibleRecords lib clock.tip path height = s.view lib path height := by
  rw [Store.visibleRecords, htrim, Store.view]
  refine filter_congr fun record hrecord => ?_
  obtain ⟨key, hkey, -, hin⟩ := mem_scan.mp hrecord
  exact visible_eq_counts h hpaid hheight (h.keyed.holds hkey) (hin.resolve_left hpath)

theorem commits_computePathMetaView :
    Commits lib (s.computePathMetaViewLocked lib clock.tip path height)
      (s.view lib path height) := by
  simp only [Store.computePathMetaViewLocked, visibleRecords_eq_view h hpath htrim hpaid hheight]
  refine (((commits_blank lib path _ _ height).foldl_countIn fun record hrecord => ?_).perm
    (by rw [append_nil]))
  exact plain_of_counts (mem_filter.mp hrecord).2

end

theorem Tracked.congr (hpath : path ≠ []) (ht : Keyed t) (hsame : SamePath path s t) :
    Tracked lib path clock t := by
  refine ⟨ht, fun key record hkey hin => ?_, fun m hm hclean => ?_⟩
  · exact h.owns key record (hsame.records key (ht hkey ▸ hin) ▸ hkey) hin
  · rw [hsame.metas] at hm
    rw [hsame.dirty] at hclean
    exact (h.commits m hm hclean).perm
      (view_perm h.keyed ht hpath fun _ hin _ => by
        rw [Store.Holds, Store.Holds, hsame.records _ hin])

theorem Tracked.later {clock'} (hclock : clock.issueHeightTip ≤ clock'.issueHeightTip) :
    Tracked lib path clock' s :=
  ⟨h.keyed, fun key record hkey hin => (h.owns key record hkey hin).imp_right (·.trans hclock),
    h.commits⟩

theorem Tracked.of_commits (hst : MetaOnly s t) (hm : t.metas[path]? = some m)
    (hcommits : Commits lib m (s.view lib path m.viewHeight)) : Tracked lib path clock t := by
  refine ⟨hst.keyed h.keyed, hst.records ▸ h.owns, fun m' hm' _ => ?_⟩
  obtain rfl := some.inj (hm.symm.trans hm')
  rw [hst.view]
  exact hcommits

theorem Tracked.of_eq (hpath : path ≠ []) (hrecords : t.records = s.records)
    (hmetas : t.metas = s.metas) (hdirty : t.dirtyPaths = s.dirtyPaths) : Tracked lib path clock t := by
  refine h.congr hpath ?_ ⟨fun key _ => by rw [hrecords], by rw [hmetas], by rw [hdirty]⟩
  intro key record hrecord
  rw [hrecords] at hrecord
  exact h.keyed hrecord

theorem Tracked.exchange (hslots : Fills path clock s t)
    (hcommits : ∀ m, t.metas[path]? = some m → path ∉ t.dirtyPaths →
      Commits lib m (t.view lib path m.viewHeight)) : Tracked lib path clock t :=
  ⟨hslots.keyed h.keyed, fun key record hrecord =>
    (hslots key record hrecord).elim (h.owns key record) And.right, hcommits⟩

end SatoshiNet.Dkvs
