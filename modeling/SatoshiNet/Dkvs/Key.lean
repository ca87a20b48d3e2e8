import Mathlib.Algebra.Order.Group.Nat
import Mathlib.Data.List.Infix
import SatoshiNet.Lib.Bytes
import SatoshiNet.Lib.Fold

/-!
Keys of the key-value store: `key.go`, `path_policy.go` and the key tests of `contract.go` and
`evm_source.go`.

A Go string is a byte string; a character of `Text` stands for one byte of it.
-/

namespace SatoshiNet.Dkvs

open List

inductive DkvsError
  | invalidRecord | invalidKey | invalidNamespace | invalidSignature | expiredRecord
  | recordTooLarge | permissionDenied | didResolverUnavailable | feeProofRequired
  | invalidFeeProof | feeCapacityExceeded | recordNotFound | invalidSnapshot | mailboxFull
  | concurrentUpdate | writeConflict | staleGeneration | staleEndpoint | endpointMismatch
  | invalidSequence | pathDiverged | storageModeDowngrade | batchTooLarge | freeLocalDisabled
  | freeLocalQuotaExceeded | freeLocalNotRelayable | database
deriving DecidableEq

abbrev DkvsM := Except DkvsError

inductive Namespace
  | sys | name | svc | account | personal | mail | topic | blob | contract | tmp
deriving DecidableEq

def Namespace.text : Namespace → Text
  | .sys => "sys".toList
  | .name => "name".toList
  | .svc => "svc".toList
  | .account => "account".toList
  | .personal => "personal".toList
  | .mail => "mail".toList
  | .topic => "topic".toList
  | .blob => "blob".toList
  | .contract => "contract".toList
  | .tmp => "tmp".toList

def allowedNamespaces : List Namespace :=
  [.sys, .name, .svc, .account, .personal, .mail, .topic, .blob, .contract, .tmp]

structure ParsedKey where
  ns : Namespace
  segments : List Text
deriving DecidableEq

def maxKeySize : ℕ := 256

def maxKeySegmentSize : ℕ := 64

def validSegment (segment : Text) : Bool :=
  segment.all fun c =>
    ('a' ≤ c && c ≤ 'z') || ('0' ≤ c && c ≤ '9') || c == '.' || c == '_' || c == '-'

def validPart (part : Text) : Bool :=
  part.length != 0 && part.length ≤ maxKeySegmentSize && validSegment part

variable (parsed : ParsedKey) (segments : List Text) (path : Text)

def joinSegments : Text := ['/'].intercalate segments

def parseKeyParts (key : Text) : DkvsM ParsedKey :=
  if key.head? ≠ some '/' ∨ maxKeySize < key.length ∨ ['/', '/'] <:+: key then .error .invalidKey
  else
    match (key.drop 1).splitOn '/' with
    | part :: segment :: rest =>
      match allowedNamespaces.find? (·.text = part) with
      | none => .error .invalidNamespace
      | some ns =>
        if (part :: segment :: rest).all validPart then .ok ⟨ns, segment :: rest⟩
        else .error .invalidKey
    | _ => .error .invalidKey

def isHexDigit (c : Char) : Bool :=
  ('0' ≤ c && c ≤ '9') || ('a' ≤ c && c ≤ 'f') || ('A' ≤ c && c ≤ 'F')

def validAccountID (accountID : Text) : Bool :=
  accountID.length == 64 && accountID.all isHexDigit

/-- Upper case letters and spaces do not occur in a segment, so nothing is left to normalise. -/
def validAccountNetwork (network : Text) : Bool :=
  ["mainnet", "bitcoin", "bc", "testnet3", "tb3", "testnet", "testnet4", "tb4", "signet", "sb",
    "regtest", "bcrt"].any (·.toList = network)

def isEVMSourceKey : Bool :=
  parsed.ns == .contract && parsed.segments.length == 3 &&
    parsed.segments.take 2 == ["evm".toList, "source".toList]

def isAuthorityContractKey : Bool :=
  parsed.ns == .contract && 2 ≤ parsed.segments.length && !isEVMSourceKey parsed

def isBlobKey : Bool :=
  parsed.ns == .blob && parsed.segments.length == 2

def validMailShape : Bool :=
  match segments with
  | [_, kind, sender, _] => (kind == "msg".toList && validAccountID sender) || kind == "share".toList
  | [_, kind, _, sub, sender, _] =>
    kind == "topic".toList && sub == "msg".toList && validAccountID sender
  | [_, kind, _, sub, _] => kind == "topic".toList && sub == "key".toList
  | _ => false

def validTopicShape : Bool :=
  match segments with
  | [_, kind] => kind == "meta".toList || kind == "state".toList
  | [_, kind, member] => kind == "members".toList && validAccountID member
  | _ => false

def validSysShape : Bool :=
  match segments with
  | [kind] => kind == "params".toList
  | [kind, _] => ["checkpoint", "snapshot", "miner", "pool"].any (·.toList = kind)
  | _ => false

def validNamespaceShape : Bool :=
  let owned := validAccountID (parsed.segments.headD [])
  match parsed.ns with
  | .contract => isEVMSourceKey parsed || isAuthorityContractKey parsed
  | .account => parsed.segments.length == 2 && validAccountNetwork (parsed.segments.headD [])
  | .personal => 2 ≤ parsed.segments.length && owned
  | .name => parsed.segments.length == 1
  | .svc => 2 ≤ parsed.segments.length
  | .mail => owned && validMailShape parsed.segments
  | .topic => validTopicShape parsed.segments
  | .blob => parsed.segments.length == 2 && owned
  | .tmp => parsed.segments.length == 1
  | .sys => validSysShape parsed.segments

def parseKey (key : Text) : DkvsM ParsedKey :=
  match parseKeyParts key with
  | .error e => .error e
  | .ok parsed => if validNamespaceShape parsed then .ok parsed else .error .invalidKey

def trimSlash : Text :=
  if path.getLast? = some '/' then path.dropLast else path

def isSpace (c : Char) : Bool := [' ', '\t', '\n', '\x0b', '\x0c', '\r'].contains c

def trimSpace (text : Text) : Text :=
  ((text.dropWhile isSpace).reverse.dropWhile isSpace).reverse

def parsePrefix : DkvsM ParsedKey := parseKeyParts (trimSlash path)

def pathText (ns : Namespace) (segments : List Text) : Text :=
  '/' :: ns.text ++ '/' :: joinSegments segments

def collectionPath : Text :=
  let first := pathText parsed.ns (parsed.segments.take 1)
  let firstTwo := pathText parsed.ns (parsed.segments.take 2)
  let count := parsed.segments.length
  if count = 0 then []
  else
    match parsed.ns with
    | .contract =>
      if isEVMSourceKey parsed then pathText .contract parsed.segments
      else if isAuthorityContractKey parsed then pathText .contract parsed.segments.dropLast
      else []
    | .account | .blob => if count = 2 then firstTwo else []
    | .personal => if 2 ≤ count then firstTwo else []
    | .name | .tmp => if count = 1 then first else []
    | .svc | .sys => first
    | .mail | .topic => if 2 ≤ count then first else []

/-- `pathMode(parsed) == PathLocalOnly`, the only mode that a modelled function asks for. -/
def pathLocalOnly : Bool := parsed.ns == .tmp

def collectionPathForPrefix : Text :=
  let path := trimSlash (trimSpace path)
  match parsePrefix path with
  | .error _ => []
  | .ok parsed =>
    let count := parsed.segments.length
    let owned := validAccountID (parsed.segments.headD [])
    let accepted : Bool :=
      match parsed.ns with
      | .contract => 1 ≤ count
      | .account => count == 2
      | .personal => (count == 1 || count == 2) && owned
      | .mail => count == 1 && owned
      | .blob => count == 2 && owned
      | .name | .svc | .topic | .tmp | .sys => count == 1
    if accepted then path else []

def isCanonicalCollectionPath : Bool :=
  let path := trimSlash (trimSpace path)
  match parsePrefix path with
  | .error _ => false
  | .ok parsed =>
    collectionPathForPrefix path == path &&
      !((parsed.ns == .personal || parsed.ns == .blob) && parsed.segments.length == 1)

def inPath (path key : Text) : Bool := key == path || (path ++ ['/']).isPrefixOf key

theorem joinSegments_append {front back} (hf : front ≠ []) (hb : back ≠ []) :
    joinSegments (front ++ back) = joinSegments front ++ '/' :: joinSegments back := by
  obtain ⟨b, back, rfl⟩ := exists_cons_of_ne_nil hb
  induction front with
  | nil => exact absurd rfl hf
  | cons a front ih =>
    cases front with
    | nil => simp [joinSegments, intercalate_cons_cons]
    | cons c front =>
      have ih := ih (cons_ne_nil _ _)
      simp only [joinSegments, cons_append, intercalate_cons_cons] at ih ⊢
      rw [ih]
      simp

theorem inPath_take (ns segments) {n : ℕ} (hn : 0 < n) :
    inPath (pathText ns (segments.take n)) (pathText ns segments) = true := by
  obtain hlen | hlen := le_or_gt segments.length n
  · rw [take_of_length_le hlen, inPath, BEq.rfl, Bool.true_or]
  have hfront : segments.take n ≠ [] := by
    apply ne_nil_of_length_pos
    rw [length_take]
    omega
  have hback : segments.drop n ≠ [] := by
    apply ne_nil_of_length_pos
    rw [length_drop]
    omega
  have hjoin := joinSegments_append hfront hback
  rw [take_append_drop] at hjoin
  rw [inPath, Bool.or_eq_true, isPrefixOf_iff_prefix]
  refine .inr ⟨joinSegments (segments.drop n), ?_⟩
  simp [pathText, hjoin]

variable {key : Text} {parsed : ParsedKey}

theorem splitOn_of_parseKeyParts (h : parseKeyParts key = .ok parsed) :
    ∃ body, key = '/' :: body ∧ body.splitOn '/' = parsed.ns.text :: parsed.segments ∧
      parsed.segments ≠ [] ∧ (parsed.ns.text :: parsed.segments).all validPart = true ∧
      ¬ ['/', '/'] <:+: key := by
  rw [parseKeyParts, Lib.ite_error_eq_ok] at h
  obtain ⟨hshape, h⟩ := h
  have hhead : key.head? = some '/' := by
    by_contra hne
    exact hshape (.inl hne)
  obtain ⟨body, rfl⟩ := head?_eq_some_iff.mp hhead
  refine ⟨body, rfl, ?_⟩
  rw [drop_one, tail_cons] at h
  split at h
  · next part segment rest hsplit =>
    split at h
    · cases h
    next ns hns =>
    have htext : ns.text = part := by
      simpa only [decide_eq_true_eq] using find?_some hns
    split_ifs at h with hvalid
    cases h
    rw [hsplit, htext]
    exact ⟨rfl, cons_ne_nil _ _, hvalid, fun hinfix => hshape (.inr (.inr hinfix))⟩
  · cases h

theorem parseKeyParts_eq_ok (h : parseKeyParts key = .ok parsed) :
    key = pathText parsed.ns parsed.segments := by
  obtain ⟨body, rfl, hsplit, hne, -⟩ := splitOn_of_parseKeyParts h
  have hbody : joinSegments (body.splitOn '/') = body := intercalate_splitOn '/'
  obtain ⟨segment, rest, hsegments⟩ := exists_cons_of_ne_nil hne
  rw [hsplit, hsegments, joinSegments, intercalate_cons_cons] at hbody
  rw [← hbody, hsegments, pathText, joinSegments]
  simp

theorem parseKey_eq_ok (h : parseKey key = .ok parsed) :
    key = pathText parsed.ns parsed.segments ∧ validNamespaceShape parsed = true := by
  rw [parseKey] at h
  split at h
  · cases h
  · next p hp =>
    split_ifs at h with hshape
    cases h
    exact ⟨parseKeyParts_eq_ok hp, hshape⟩

theorem collectionPath_eq_take (h : collectionPath parsed ≠ []) :
    ∃ n, 0 < n ∧ collectionPath parsed = pathText parsed.ns (parsed.segments.take n) := by
  obtain ⟨ns, segments⟩ := parsed
  have hall : pathText ns segments = pathText ns (segments.take (segments.length + 1)) := by
    rw [take_of_length_le (Nat.le_succ _)]
  cases ns with
  | contract =>
    simp only [collectionPath] at h ⊢
    split_ifs at h ⊢ with hcount hevm hauth
    · exact absurd rfl h
    · exact ⟨_, Nat.succ_pos _, hall⟩
    · have hlen : 2 ≤ segments.length := by
        simp only [isAuthorityContractKey, Bool.and_eq_true, decide_eq_true_eq] at hauth
        exact hauth.1.2
      exact ⟨segments.length - 1, by omega, by rw [dropLast_eq_take]⟩
    · exact absurd rfl h
  | account | blob | personal | name | tmp | mail | topic =>
    simp only [collectionPath] at h ⊢
    split_ifs at h ⊢
    · exact absurd rfl h
    · exact ⟨_, Nat.succ_pos _, rfl⟩
    · exact absurd rfl h
  | svc | sys =>
    simp only [collectionPath] at h ⊢
    split_ifs at h ⊢
    · exact absurd rfl h
    · exact ⟨1, Nat.one_pos, rfl⟩

theorem collectionPath_ne_nil (h : validNamespaceShape parsed = true) :
    collectionPath parsed ≠ [] := by
  obtain ⟨ns, segments⟩ := parsed
  have htext : ∀ ns segments, pathText ns segments ≠ [] := fun _ _ => cons_ne_nil _ _
  cases ns with
  | contract =>
    simp only [validNamespaceShape, Bool.or_eq_true] at h
    simp only [collectionPath]
    split_ifs with hcount hevm hauth
    · simp [isEVMSourceKey, isAuthorityContractKey, length_eq_zero_iff.mp hcount] at h
    · exact htext _ _
    · exact htext _ _
    · exact absurd h (not_or.mpr ⟨hevm, hauth⟩)
  | mail | topic =>
    simp only [collectionPath]
    split_ifs with hcount htwo
    · simp [validNamespaceShape, validMailShape, validTopicShape, length_eq_zero_iff.mp hcount] at h
    · exact htext _ _
    · obtain ⟨segment, rfl⟩ := length_eq_one_iff.mp (by omega : segments.length = 1)
      simp [validNamespaceShape, validMailShape, validTopicShape] at h
  | account | blob | personal | name | tmp =>
    simp only [validNamespaceShape, Bool.and_eq_true, beq_iff_eq, decide_eq_true_eq] at h
    simp only [collectionPath]
    rw [if_neg (by omega), if_pos (by omega)]
    exact htext _ _
  | svc =>
    simp only [validNamespaceShape, decide_eq_true_eq] at h
    simp only [collectionPath]
    rw [if_neg (by omega)]
    exact htext _ _
  | sys =>
    simp only [collectionPath]
    split_ifs with hcount
    · simp [validNamespaceShape, validSysShape, length_eq_zero_iff.mp hcount] at h
    · exact htext _ _

theorem inPath_collectionPath (hkey : parseKey key = .ok parsed) (h : collectionPath parsed ≠ []) :
    inPath (collectionPath parsed) key = true := by
  obtain ⟨n, hn, hpath⟩ := collectionPath_eq_take h
  rw [hpath, (parseKey_eq_ok hkey).1]
  exact inPath_take _ _ hn

end SatoshiNet.Dkvs
