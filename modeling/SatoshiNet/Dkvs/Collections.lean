import SatoshiNet.Dkvs.Replace

/-!
Which keys lie below a path: outside the contract namespace everything below a canonical path
belongs to its collection.
-/

namespace SatoshiNet.Dkvs

open Lib List

theorem Namespace.text_injective : Function.Injective Namespace.text := by
  intro a b h
  cases a <;> cases b <;> first | rfl | exact absurd h (by decide)

variable {key path : Text}

theorem segments_of_inPath {outer inner} (hpath : parseKeyParts path = .ok outer)
    (hkey : parseKeyParts key = .ok inner) (hin : inPath path key = true) :
    inner.ns = outer.ns ∧ outer.segments <+: inner.segments := by
  obtain ⟨front, rfl, hfront, -⟩ := splitOn_of_parseKeyParts hpath
  obtain ⟨body, rfl, hbody, -⟩ := splitOn_of_parseKeyParts hkey
  rw [inPath, Bool.or_eq_true, beq_iff_eq, isPrefixOf_iff_prefix] at hin
  obtain heq | ⟨back, hback⟩ := hin
  · rw [cons.injEq] at heq
    rw [heq.2, hfront, cons.injEq] at hbody
    exact ⟨(Namespace.text_injective hbody.1).symm, hbody.2 ▸ prefix_rfl⟩
  · obtain rfl : front ++ '/' :: back = body := by simpa using hback
    rw [splitOn_append_cons_self, hfront, cons_append, cons.injEq] at hbody
    exact ⟨(Namespace.text_injective hbody.1).symm, _, hbody.2⟩

theorem parseKeyParts_of_parseKey {parsed} (h : parseKey key = .ok parsed) :
    parseKeyParts key = .ok parsed := by
  rw [parseKey] at h
  split at h
  · cases h
  · next p hp =>
    split_ifs at h
    exact Except.ok.inj h ▸ hp

theorem mem_joinSegments {c} {segments} (h : c ∈ joinSegments segments) :
    c = '/' ∨ ∃ segment ∈ segments, c ∈ segment := by
  induction segments with
  | nil => cases h
  | cons segment segments ih =>
    cases segments with
    | nil => exact .inr ⟨segment, mem_cons_self, by simpa [joinSegments] using h⟩
    | cons next segments =>
      simp only [joinSegments, intercalate_cons_cons, mem_append, mem_singleton] at h ih
      grind

theorem isSpace_of_mem {parsed} (h : parseKeyParts key = .ok parsed) {c} (hc : c ∈ key) :
    isSpace c = false := by
  obtain ⟨body, rfl, hsplit, -, hvalid, -⟩ := splitOn_of_parseKeyParts h
  have hbody : joinSegments (body.splitOn '/') = body := intercalate_splitOn '/'
  have hslash : c = '/' ∨ ∃ part ∈ body.splitOn '/', c ∈ part :=
    (mem_cons.mp hc).elim .inl fun hc => mem_joinSegments (hbody.symm ▸ hc)
  rcases hslash with rfl | ⟨part, hpart, hc⟩
  · rfl
  rw [hsplit] at hpart
  have hpart := all_eq_true.mp hvalid part hpart
  simp only [validPart, validSegment, Bool.and_eq_true, all_eq_true] at hpart
  have hchar := hpart.2 c hc
  by_contra hspace
  simp only [isSpace, Bool.not_eq_false, contains_iff_mem, mem_cons, not_mem_nil, or_false] at hspace
  rcases hspace with rfl | rfl | rfl | rfl | rfl | rfl <;> simp at hchar

theorem trimmed_of_inPath {parsed} (hkey : parseKeyParts key = .ok parsed)
    (hin : inPath path key = true) : trimSpace path = path ∧ trimSlash path = path := by
  rw [inPath, Bool.or_eq_true, beq_iff_eq, isPrefixOf_iff_prefix] at hin
  have hspace : ∀ c ∈ path, isSpace c = false := fun c hc => isSpace_of_mem hkey (by
    rcases hin with rfl | hin
    · exact hc
    · exact hin.subset (mem_append_left _ hc))
  have hdrop : ∀ l : Text, (∀ c ∈ l, isSpace c = false) → l.dropWhile isSpace = l := by
    intro l hl
    cases l with
    | nil => rfl
    | cons c l => rw [dropWhile_cons, hl c mem_cons_self]; rfl
  refine ⟨by rw [trimSpace, hdrop _ hspace, hdrop _ (by simpa using hspace), reverse_reverse], ?_⟩
  rw [trimSlash, if_neg]
  intro hlast
  obtain ⟨front, rfl⟩ := getLast?_eq_some_iff.mp hlast
  obtain ⟨body, rfl, hsplit, -, hvalid, hdouble⟩ := splitOn_of_parseKeyParts hkey
  rcases hin with heq | ⟨back, hback⟩
  · have hempty : [] ∈ body.splitOn '/' := by
      cases front with
      | nil =>
        obtain rfl : body = [] := by simpa using heq.symm
        simp
      | cons c front =>
        obtain ⟨-, rfl⟩ := cons.inj heq
        simp [splitOn_append_cons_self]
    rw [hsplit] at hempty
    cases all_eq_true.mp hvalid [] hempty
  · exact hdouble ⟨front, back, by simpa using hback⟩

theorem segment_count {parsed} (hcanonical : isCanonicalCollectionPath path = true)
    (htrim : trimSpace path = path ∧ trimSlash path = path)
    (hparse : parseKeyParts path = .ok parsed) (hns : parsed.ns ≠ .contract) :
    parsed.segments.length = match parsed.ns with
      | .account | .personal | .blob => 2
      | _ => 1 := by
  have hprefix : parsePrefix path = .ok parsed := by rw [parsePrefix, htrim.2, hparse]
  simp only [isCanonicalCollectionPath, collectionPathForPrefix, htrim, hprefix, Bool.and_eq_true,
    beq_iff_eq, Bool.not_eq_true'] at hcanonical
  obtain ⟨hfor, hshort⟩ := hcanonical
  split_ifs at hfor with haccepted
  · cases hk : parsed.ns <;> simp_all
  · cases hfor.trans (parseKeyParts_eq_ok hparse)

theorem collectionPath_of_inPath {parsed} (hcanonical : isCanonicalCollectionPath path = true)
    (hkey : parseKey key = .ok parsed) (hns : parsed.ns ≠ .contract) (hin : inPath path key = true) :
    collectionPath parsed = path := by
  have hparts := parseKeyParts_of_parseKey hkey
  have htrim := trimmed_of_inPath hparts hin
  have hne := collectionPath_ne_nil (parseKey_eq_ok hkey).2
  cases hpath : parseKeyParts path with
  | error => simp [isCanonicalCollectionPath, htrim, parsePrefix, hpath] at hcanonical
  | ok outer =>
    obtain ⟨ns, segments⟩ := parsed
    obtain ⟨rfl, hsegments⟩ := segments_of_inPath hpath hparts hin
    rw [parseKeyParts_eq_ok hpath, prefix_iff_eq_take.mp hsegments,
      segment_count hcanonical htrim hpath hns]
    generalize outer.ns = ns at *
    cases ns with
    | contract => exact absurd rfl hns
    | account | blob | personal | name | tmp | svc | sys | mail | topic =>
      simp only [collectionPath] at hne ⊢
      split_ifs at hne ⊢ <;> first | rfl | exact absurd rfl hne

/-- Outside the contract namespace a key belongs to the canonical path it lies at or below; a
contract belongs to the path right above it, and an EVM source to its own. -/
theorem collectionPath_eq_iff {parsed : ParsedKey}
    (hcanonical : isCanonicalCollectionPath path = true) (hkey : parseKey key = .ok parsed) :
    collectionPath parsed = path ↔ if parsed.ns = .contract then
        key = if isEVMSourceKey parsed then path else path ++ '/' :: parsed.segments.getLastD []
      else inPath path key = true := by
  obtain ⟨rfl, hshape⟩ := parseKey_eq_ok hkey
  have hne := collectionPath_ne_nil hshape
  split_ifs with hns hevm
  · simp only [collectionPath, hns, hevm, if_true] at hne ⊢
    split_ifs at hne ⊢
    · exact absurd rfl hne
    · rfl
  · obtain ⟨ns, segments⟩ := parsed
    obtain rfl : ns = .contract := hns
    have hauth : isAuthorityContractKey ⟨.contract, segments⟩ = true := by
      simpa [validNamespaceShape, hevm] using hshape
    obtain rfl | ⟨front, segment, rfl⟩ := eq_nil_or_concat' segments
    · simp [isAuthorityContractKey] at hauth
    have hfront : front ≠ [] := by
      rintro rfl
      simp [isAuthorityContractKey] at hauth
    have hone : joinSegments [segment] = segment := intercalate_singleton
    have hjoin : pathText .contract (front ++ [segment]) =
        pathText .contract front ++ '/' :: segment := by
      simp [pathText, joinSegments_append hfront, hone]
    simp [collectionPath, hevm, hauth, hjoin]
  · refine ⟨?_, collectionPath_of_inPath hcanonical hkey hns⟩
    rintro rfl
    exact inPath_collectionPath hkey hne

theorem collectionPath_pool : collectionPath ⟨.svc, ["pool".toList, "a".toList]⟩ = "/svc/pool".toList :=
  (@collectionPath_eq_iff "/svc/pool/a".toList "/svc/pool".toList _ (by decide) (by decide)).mpr
    (by decide)

theorem collectionPath_nested : ∃ parsed, parseKey "/contract/a/b/c".toList = .ok parsed ∧
    ∀ path ∈ ["/contract/a".toList, "/contract/a/b/c".toList], isCanonicalCollectionPath path = true ∧
      inPath path "/contract/a/b/c".toList = true ∧ collectionPath parsed ≠ path :=
  ⟨⟨.contract, ["a".toList, "b".toList, "c".toList]⟩, by decide, by decide⟩

/-- A path that stands for itself among the scopes of network views. -/
structure Scope (path : Text) (parsed : ParsedKey) : Prop where
  parse : parseKeyParts path = .ok parsed
  canonical : isCanonicalCollectionPath path = true
  normal : normalizeNetworkScope path = .ok path
  trimmed : trimSlash path = path
  spaceless : trimSpace path = path
  network : networkNamespace parsed.ns = true

theorem length_trimSpace_le (text) : (trimSpace text).length ≤ text.length := by
  rw [trimSpace, length_reverse]
  refine ((dropWhile_suffix _).length_le).trans ?_
  rw [length_reverse]
  exact (dropWhile_suffix _).length_le

theorem trimmed_of_trim (h : trimSlash (trimSpace path) = path) :
    trimSpace path = path ∧ trimSlash path = path := by
  have hle := length_trimSpace_le path
  have hkept : trimSlash (trimSpace path) = trimSpace path := by
    rw [trimSlash] at h ⊢
    split_ifs at h ⊢ with hlast
    · have hlen := congrArg length h
      rw [length_dropLast] at hlen
      have hpos : 0 < (trimSpace path).length := length_pos_of_mem (mem_of_getLast? hlast)
      omega
    · rfl
  have hspace : trimSpace path = path := hkept.symm.trans h
  rw [hspace] at hkept
  exact ⟨hspace, hkept⟩

theorem exists_scope (h : normalizeNetworkScope path = .ok path) : ∃ parsed, Scope path parsed := by
  have hnormal := h
  simp only [normalizeNetworkScope, bind_eq_ok, require_eq_ok, Bool.and_eq_true] at h
  obtain ⟨_, ⟨-, hcanonical⟩, parsed, hparse, _, -, _, hnetwork, h⟩ := h
  have htrim : trimSlash (trimSpace path) = path := Except.ok.inj h
  obtain ⟨hspace, hslash⟩ := trimmed_of_trim htrim
  rw [htrim] at hcanonical hparse
  rw [parsePrefix, hslash] at hparse
  exact ⟨parsed, hparse, hcanonical, hnormal, hslash, hspace, hnetwork⟩

namespace Scope

variable {path : Text} {parsed : ParsedKey} (h : Scope path parsed)
include h

theorem eq_pathText : path = pathText parsed.ns parsed.segments := parseKeyParts_eq_ok h.parse

theorem ne_nil : path ≠ [] := by
  rw [h.eq_pathText]
  exact cons_ne_nil _ _

theorem stringsTrimPath_eq : stringsTrimPath path = path := by
  have hlast : path.getLast? ≠ some '/' := by
    intro hlast
    have htrim := h.trimmed
    rw [trimSlash, if_pos hlast] at htrim
    have hlen := congrArg length htrim
    rw [length_dropLast] at hlen
    exact h.ne_nil (length_eq_zero_iff.mp (by omega))
  cases path with
  | nil => rfl
  | cons c rest =>
    rw [stringsTrimPath]
    cases hrest : rest.reverse with
    | nil => rw [reverse_eq_nil_iff.mp hrest]; rfl
    | cons d front =>
      obtain rfl : rest = front.reverse ++ [d] := by
        rw [← reverse_reverse rest, hrest, reverse_cons]
      have hd : (d == '/') = false := by
        rw [← cons_append, getLast?_concat] at hlast
        exact beq_false_of_ne fun heq => hlast (congrArg some heq)
      rw [dropWhile_cons, hd]
      simp

variable {inner : ParsedKey} {key : Text}

theorem ns_eq (hkey : parseKey key = .ok inner) (hpath : collectionPath inner = path) :
    inner.ns = parsed.ns := by
  have hin := inPath_collectionPath hkey (hpath ▸ h.ne_nil)
  rw [hpath] at hin
  exact (segments_of_inPath h.parse (parseKeyParts_of_parseKey hkey) hin).1

end Scope

end SatoshiNet.Dkvs
