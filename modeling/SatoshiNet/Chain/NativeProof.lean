import Mathlib.Order.Lattice.Nat
import SatoshiNet.Lib.Spelling

/-!
The envelope of a native asset proof: a consignment and the seals it reveals.

The consignment format and the seal format are parameters.
-/

namespace SatoshiNet.Chain.NativeProof

open Lib List
open Reader

structure ProofLib where
  Container : Type
  decode : Bytes → Option Container
  encodeFile : Container → Option Bytes
  Seal : Type
  decodeGraphBlindSeal : Bytes → Option Seal
  strictBytes : Seal → Option Bytes

inductive ProofError
  | exceedsLimits | consignment | encodeFile | revealLength | invalidReveal | noncanonicalReveal
  | duplicateReveal | tooLong | malformed | consignmentLength | tooManyReveals | truncatedReveal
  | unorderedReveals | trailingData
deriving DecidableEq

inductive Protocol
  | rgb11
deriving DecidableEq

structure Proof where
  protocol : Protocol
  consignment : Bytes
  reveals : List Bytes
deriving DecidableEq

def maxProofSize : ℕ := 4000000

def maxReveals : ℕ := 1024

def maxRevealSize : ℕ := 64

def proofMagic : Bytes := [0x53, 0x54, 0x50, 0x4e]

def isProof (raw : Bytes) : Bool := proofMagic.isPrefixOf raw

def less (a b : Bytes) : Prop := a.map UInt8.toNat < b.map UInt8.toNat

instance (a b : Bytes) : Decidable (less a b) := inferInstanceAs (Decidable (_ < _))

variable (lib : ProofLib)

def checkReveal (raw : Bytes) : Except ProofError Unit := do
  require (0 < raw.length && raw.length ≤ maxRevealSize) .revealLength
  let graphSeal ← orError (lib.decodeGraphBlindSeal raw) .invalidReveal
  require (lib.strictBytes graphSeal = some raw) .noncanonicalReveal

/-! ### Building -/

def writeReveal (reveal : Bytes) : Bytes := [UInt8.ofNat reveal.length] ++ reveal

def envelope (consignment : Bytes) (reveals : List Bytes) : Bytes :=
  (proofMagic ++ [1, 1]) ++ (leBytes 4 consignment.length ++ (consignment ++
    (leBytes 2 reveals.length ++ reveals.flatMap writeReveal)))

def sortReveals (reveals : List Bytes) : List Bytes := reveals.insertionSort fun a b => ¬ less b a

def buildRGB11 (raw : Bytes) (reveals : List Bytes) : Except ProofError Bytes := do
  require (0 < raw.length && raw.length ≤ maxProofSize && reveals.length ≤ maxReveals) .exceedsLimits
  let container ← orError (lib.decode raw) .consignment
  let canonical ← orError (lib.encodeFile container) .encodeFile
  reveals.forM (checkReveal lib)
  let ordered := sortReveals reveals
  require (ordered.IsChain (· ≠ ·)) .duplicateReveal
  let out := envelope canonical ordered
  require (out.length ≤ maxProofSize) .tooLong
  .ok out

section Decode

open Reader

def readReveals : ℕ → Option Bytes → Reader ProofError (List Bytes)
  | 0, _ => pure []
  | n + 1, before => do
    let size ← byte.mapError fun _ => .truncatedReveal
    let reveal ← (full size.toNat).mapError fun _ => .truncatedReveal
    ofResult (checkReveal lib reveal)
    check (before.all fun b => less b reveal) .unorderedReveals
    let rest ← readReveals n (some reveal)
    pure (reveal :: rest)

def readProof : Reader ProofError Proof := do
  let n ← le .malformed 4
  let rest ← left
  check (0 < n && n + 2 ≤ rest) .consignmentLength
  let consignment ← (full n).mapError fun _ => .consignmentLength
  let count ← le .malformed 2
  check (count ≤ maxReveals) .tooManyReveals
  let reveals ← readReveals lib count none
  pure ⟨.rgb11, consignment, reveals⟩

def decode (raw : Bytes) : Except ProofError Proof := do
  require (12 ≤ raw.length && raw.length ≤ maxProofSize && isProof raw && raw[4]? = some 1 &&
    raw[5]? = some 1) .malformed
  let (proof, rest) ← readProof lib (raw.drop 6)
  require (rest = []) .trailingData
  .ok proof

end Decode

/-! ### What is accepted -/

variable {lib}

def Revealed (lib : ProofLib) (raw : Bytes) : Prop := checkReveal lib raw = .ok ()

variable {l : List Bytes} {raw : Bytes}

theorem Revealed.length (h : Revealed lib raw) : 0 < raw.length ∧ raw.length ≤ maxRevealSize := by
  simp only [Revealed, checkReveal, bind_eq_ok, require_eq_ok, Bool.and_eq_true,
    decide_eq_true_eq] at h
  exact h.choose_spec.1

variable {before : Option Bytes} {p : Proof} {reveals : List Bytes}

theorem isChain_toList_append {reveal} : (before.toList ++ reveal :: l).IsChain less ↔
      (before.all fun b => less b reveal) = true ∧ (reveal :: l).IsChain less := by
  cases before with
  | none => simp
  | some b => simp

theorem run_readReveals {n : ℕ} {data rest} :
    readReveals lib n before data = .ok (l, rest) ↔ (l.length = n ∧ (∀ r ∈ l, Revealed lib r) ∧
      (before.toList ++ l).IsChain less) ∧ data = l.flatMap writeReveal ++ rest := by
  induction n generalizing before data rest l with
  | zero =>
    rw [readReveals, run_pure]
    constructor
    · rintro ⟨rfl, rfl⟩
      refine ⟨⟨rfl, forall_mem_nil _, ?_⟩, rfl⟩
      cases before <;> simp
    · rintro ⟨⟨hlen, -⟩, rfl⟩
      obtain rfl := length_eq_zero_iff.mp hlen
      exact ⟨rfl, rfl⟩
  | succ n ih =>
    simp only [readReveals, run_bind, run_mapError, run_byte, run_full,
      run_ofResult, run_check, run_pure, ih]
    constructor
    · rintro ⟨size, _, rfl, reveal, _, ⟨hsize, rfl⟩, _, _, ⟨hreveal, rfl⟩, _, _, ⟨hless, rfl⟩, l', _,
        ⟨⟨rfl, hall, hchain⟩, rfl⟩, rfl, rfl⟩
      refine ⟨⟨rfl, forall_mem_cons.mpr ⟨hreveal, hall⟩, ?_⟩, ?_⟩
      · exact isChain_toList_append.mpr ⟨hless, hchain⟩
      · rw [flatMap_cons, writeReveal, hsize, UInt8.ofNat_toNat]
        simp
    · rintro ⟨⟨hlen, hall, hchain⟩, rfl⟩
      cases l with
      | nil => cases hlen
      | cons reveal l =>
        obtain ⟨hreveal, hall⟩ := forall_mem_cons.mp hall
        obtain ⟨hless, hchain⟩ := isChain_toList_append.mp hchain
        have hlength := hreveal.length
        have hsize : reveal.length = (UInt8.ofNat reveal.length).toNat := by
          rw [UInt8.toNat_ofNat']
          unfold maxRevealSize at hlength
          omega
        refine ⟨UInt8.ofNat reveal.length, _, ?_, reveal, l.flatMap writeReveal ++ rest, ⟨hsize, rfl⟩,
          (), _, ⟨hreveal, rfl⟩, (), _, ⟨hless, rfl⟩, l, rest,
          ⟨⟨Nat.succ.inj hlen, hall, hchain⟩, rfl⟩, rfl, rfl⟩
        rw [flatMap_cons, writeReveal, append_assoc, append_assoc, singleton_append]

structure Framed (lib : ProofLib) (p : Proof) : Prop where
  consignment : 0 < p.consignment.length
  count : p.reveals.length ≤ maxReveals
  revealed : ∀ r ∈ p.reveals, Revealed lib r
  ascending : p.reveals.IsChain less
  size : (envelope p.consignment p.reveals).length ≤ maxProofSize

theorem envelope_length (consignment) (reveals) : (envelope consignment reveals).length =
      12 + consignment.length + (reveals.flatMap writeReveal).length := by
  simp only [envelope, length_append, leBytes_length, proofMagic, length_cons, length_nil]
  omega

theorem header_iff : (isProof raw = true ∧ raw[4]? = some 1 ∧ raw[5]? = some 1) ↔
    ∃ body, raw = (proofMagic ++ [1, 1]) ++ body := by
  constructor
  · rintro ⟨hmagic, h4, h5⟩
    obtain ⟨t, rfl⟩ := isPrefixOf_iff_prefix.mp hmagic
    match t, h4, h5 with
    | [], h4, _ => cases h4
    | [_], _, h5 => cases h5
    | a :: b :: body, h4, h5 =>
      cases h4
      cases h5
      exact ⟨body, rfl⟩
  · rintro ⟨body, rfl⟩
    exact ⟨rfl, rfl, rfl⟩

theorem decode_eq_ok : decode lib raw = .ok p ↔
    Framed lib p ∧ raw = envelope p.consignment p.reveals := by
  simp only [decode, bind_eq_ok, require_eq_ok, Bool.and_eq_true, decide_eq_true_eq, Except.ok.injEq,
    and_assoc]
  constructor
  · rintro ⟨_, hlow, hhigh, hmagic, h4, h5, ⟨q, rest⟩, hread, _, rfl, rfl⟩
    obtain ⟨body, rfl⟩ := header_iff.mp ⟨hmagic, h4, h5⟩
    have hread : readProof lib body = .ok (q, []) := hread
    simp only [readProof, run_bind, run_le, run_left, run_check, run_mapError, run_full,
      run_readReveals, run_pure, Bool.and_eq_true, decide_eq_true_eq] at hread
    obtain ⟨n, _, ⟨-, rfl⟩, _, _, ⟨rfl, rfl⟩, _, _, ⟨⟨hpos, -⟩, rfl⟩, consignment, _, ⟨rfl, rfl⟩, count,
      _, ⟨-, rfl⟩, _, _, ⟨hcount, rfl⟩, reveals, _, ⟨⟨rfl, hall, hchain⟩, rfl⟩, rfl, rfl⟩ := hread
    have hframe : (proofMagic ++ [1, 1]) ++ (leBytes 4 consignment.length ++ (consignment ++
        (leBytes 2 reveals.length ++ (reveals.flatMap writeReveal ++ [])))) =
        envelope consignment reveals := by
      rw [append_nil]
      rfl
    rw [hframe] at hhigh ⊢
    exact ⟨⟨hpos, hcount, hall, hchain, hhigh⟩, rfl⟩
  · rintro ⟨h, rfl⟩
    have hlen := envelope_length p.consignment p.reveals
    have hsize := h.size
    have hpos := h.consignment
    obtain ⟨hmagic, h4, h5⟩ := header_iff.mpr ⟨_, rfl⟩
    refine ⟨⟨⟩, by omega, hsize, hmagic, h4, h5, (p, []), ?_, ⟨⟩, rfl, rfl⟩
    have hcount := h.count
    unfold maxProofSize at hsize
    have hsmall := h.count
    unfold maxReveals at hsmall
    have hbody : (envelope p.consignment p.reveals).drop 6 =
        leBytes 4 p.consignment.length ++ (p.consignment ++ (leBytes 2 p.reveals.length ++
          p.reveals.flatMap writeReveal)) := rfl
    rw [hbody]
    simp only [readProof, run_bind, run_le, run_left, run_check, run_mapError, run_full,
      run_readReveals, run_pure, Bool.and_eq_true, decide_eq_true_eq]
    refine ⟨_, _, ⟨by omega, rfl⟩, _, _, ⟨rfl, rfl⟩, (), _, ⟨⟨hpos, ?_⟩, rfl⟩, _, _, ⟨rfl, rfl⟩, _, _,
      ⟨by omega, rfl⟩, (), _, ⟨hcount, rfl⟩, p.reveals, [],
      ⟨⟨rfl, h.revealed, h.ascending⟩, (append_nil _).symm⟩, rfl, rfl⟩
    rw [length_append, length_append, leBytes_length]
    omega

/-! ### Built envelopes -/

instance : Trans less less less := ⟨lt_trans⟩

instance : Std.Total fun a b : Bytes => ¬ less b a :=
  ⟨fun a b => (le_total (a.map UInt8.toNat) (b.map UInt8.toNat)).imp not_lt.mpr not_lt.mpr⟩

instance : IsTrans Bytes fun a b => ¬ less b a :=
  ⟨fun _ _ _ hab hbc => not_lt.mpr ((not_lt.mp hab).trans (not_lt.mp hbc))⟩

theorem map_toNat_injective : Function.Injective (map UInt8.toNat) :=
  map_injective_iff.mpr fun _ _ => UInt8.toNat_inj.mp

theorem less_of_not_less {a b} (h : ¬ less b a) (hne : a ≠ b) : less a b :=
  lt_of_le_of_ne (not_lt.mp h) fun heq => hne (map_toNat_injective heq)

theorem sortReveals_of_ascending (h : l.IsChain less) : sortReveals l = l := by
  have hpairwise : l.Pairwise less := isChain_iff_pairwise.mp h
  exact (hpairwise.imp fun hab => lt_asymm hab).insertionSort_eq

theorem isChain_less (hsorted : l.Pairwise fun a b => ¬ less b a) (hne : l.IsChain (· ≠ ·)) :
    l.IsChain less := by
  induction l with
  | nil => exact isChain_nil
  | cons a l ih =>
    obtain ⟨hhead, htail⟩ := pairwise_cons.mp hsorted
    obtain ⟨hfirst, hrest⟩ := isChain_cons.mp hne
    refine isChain_cons.mpr ⟨fun b hb => ?_, ih htail hrest⟩
    exact less_of_not_less (hhead b (mem_of_mem_head? hb)) (hfirst b hb)

/-- The consignment is in the form in which a container is written to a file. -/
def CanonicalFile (lib : ProofLib) (raw : Bytes) : Prop :=
  ∃ container, lib.decode raw = some container ∧ lib.encodeFile container = some raw

theorem buildRGB11_eq_ok {out} :
    buildRGB11 lib raw reveals = .ok out ↔ (0 < raw.length ∧ raw.length ≤ maxProofSize ∧
      reveals.length ≤ maxReveals) ∧ ∃ container canonical, lib.decode raw = some container ∧
      lib.encodeFile container = some canonical ∧ (∀ r ∈ reveals, Revealed lib r) ∧
      (sortReveals reveals).IsChain (· ≠ ·) ∧
      (envelope canonical (sortReveals reveals)).length ≤ maxProofSize ∧
      out = envelope canonical (sortReveals reveals) := by
  simp only [buildRGB11, bind_eq_ok, require_eq_ok, orError_eq_ok, forM_eq_ok, Bool.and_eq_true,
    decide_eq_true_eq, Except.ok.injEq, and_assoc, Revealed]
  constructor
  · rintro ⟨_, hpos, hraw, hcount, container, hdecode, canonical, hfile, _, hall, _, hchain, _, hsize,
      rfl⟩
    exact ⟨hpos, hraw, hcount, container, canonical, hdecode, hfile, hall, hchain, hsize, rfl⟩
  · rintro ⟨hpos, hraw, hcount, container, canonical, hdecode, hfile, hall, hchain, hsize, rfl⟩
    exact ⟨⟨⟩, hpos, hraw, hcount, container, hdecode, canonical, hfile, ⟨⟩, hall, ⟨⟩, hchain, ⟨⟩, hsize,
      rfl⟩

variable (hfile : ∀ container raw, lib.encodeFile container = some raw → raw ≠ [])
include hfile

theorem decode_buildRGB11 {canonical} {container}
    (hcanonical : lib.encodeFile container = some canonical) (hcount : reveals.length ≤ maxReveals)
    (hall : ∀ r ∈ reveals, Revealed lib r) (hne : (sortReveals reveals).IsChain (· ≠ ·))
    (hsize : (envelope canonical (sortReveals reveals)).length ≤ maxProofSize) :
    decode lib (envelope canonical (sortReveals reveals)) =
      .ok ⟨.rgb11, canonical, sortReveals reveals⟩ := by
  have hperm : (sortReveals reveals).Perm reveals := perm_insertionSort _ _
  refine decode_eq_ok.mpr ⟨⟨?_, ?_, fun r hr => hall r (hperm.mem_iff.mp hr), ?_, hsize⟩, rfl⟩
  · exact length_pos_of_ne_nil (hfile container canonical hcanonical)
  · rw [hperm.length_eq]
    exact hcount
  · exact isChain_less (pairwise_insertionSort _ _) hne

theorem buildRGB11_of_decode (h : decode lib raw = .ok p) :
    buildRGB11 lib p.consignment p.reveals = .ok raw ↔ CanonicalFile lib p.consignment := by
  obtain ⟨hframed, rfl⟩ := decode_eq_ok.mp h
  have hsorted := sortReveals_of_ascending hframed.ascending
  rw [buildRGB11_eq_ok]
  constructor
  · rintro ⟨⟨-, -, hcount⟩, container, canonical, hdecode, hcanonical, hall, hne, hsize, heq⟩
    have hback := decode_buildRGB11 hfile hcanonical hcount hall hne hsize
    rw [← heq, h] at hback
    obtain rfl : p.consignment = canonical := congrArg Proof.consignment (Except.ok.inj hback)
    exact ⟨container, hdecode, hcanonical⟩
  · rintro ⟨container, hdecode, hcanonical⟩
    have hlen := envelope_length p.consignment p.reveals
    have hsize := hframed.size
    have hdistinct : p.reveals.IsChain (· ≠ ·) := hframed.ascending.imp fun a b hab heq => by
      rw [heq] at hab
      exact lt_irrefl _ hab
    rw [hsorted]
    exact ⟨⟨hframed.consignment, by omega, hframed.count⟩, container, p.consignment, hdecode,
      hcanonical, hframed.revealed, hdistinct, hsize, rfl⟩

omit hfile

/-- An accepted envelope spells its proof and is what building it again gives, if the consignment is
in file form; a built envelope is accepted and gives back the file form and the reveals in order; and
no two envelopes have the same proof. -/
theorem native_envelope_is_canonical (lib : ProofLib)
    (hfile : ∀ container raw, lib.encodeFile container = some raw → raw ≠ []) :
    (∀ raw p, decode lib raw = .ok p → raw = envelope p.consignment p.reveals ∧
      (buildRGB11 lib p.consignment p.reveals = .ok raw ↔ CanonicalFile lib p.consignment)) ∧
    (∀ raw reveals out, buildRGB11 lib raw reveals = .ok out → ∃ container canonical,
      lib.decode raw = some container ∧ lib.encodeFile container = some canonical ∧
      (sortReveals reveals).Perm reveals ∧
      decode lib out = .ok ⟨.rgb11, canonical, sortReveals reveals⟩) ∧
    (∀ raw raw' p, decode lib raw = .ok p → decode lib raw' = .ok p → raw = raw') := by
  refine ⟨fun raw p h => ⟨(decode_eq_ok.mp h).2, buildRGB11_of_decode hfile h⟩, ?_, ?_⟩
  · intro raw reveals out h
    obtain ⟨⟨-, -, hcount⟩, container, canonical, hdecode, hcanonical, hall, hne, hsize, rfl⟩ :=
      buildRGB11_eq_ok.mp h
    exact ⟨container, canonical, hdecode, hcanonical, perm_insertionSort _ _,
      decode_buildRGB11 hfile hcanonical hcount hall hne hsize⟩
  · intro raw raw' p h h'
    rw [(decode_eq_ok.mp h).2, (decode_eq_ok.mp h').2]

def taggedLib : ProofLib where
  Container := Bytes
  decode raw := some raw.tail
  encodeFile container := some (1 :: container)
  Seal := Bytes
  decodeGraphBlindSeal := some
  strictBytes := some

theorem tagged_envelope_is_canonical : ∃ out, buildRGB11 taggedLib [1, 7] [[2], [1]] = .ok out ∧
    decode taggedLib out = .ok ⟨.rgb11, [1, 7], [[1], [2]]⟩ := by
  have hfile : ∀ container raw, taggedLib.encodeFile container = some raw → raw ≠ [] := by
    rintro container raw h rfl
    cases h
  have hbuild : buildRGB11 taggedLib [1, 7] [[2], [1]] = .ok (envelope [1, 7] [[1], [2]]) := by
    decide +kernel
  obtain ⟨container, canonical, hdecode, hcanonical, -, hback⟩ :=
    (native_envelope_is_canonical taggedLib hfile).2.1 _ _ _ hbuild
  cases hdecode
  cases hcanonical
  exact ⟨_, hbuild, hback⟩

/-- A consignment that is not in file form is accepted, and building it again gives other bytes. -/
theorem retagged_consignment_is_rewritten :
    decode taggedLib (envelope [2, 7] []) = .ok ⟨.rgb11, [2, 7], []⟩ ∧
      buildRGB11 taggedLib [2, 7] [] = .ok (envelope [1, 7] []) ∧
      envelope [1, 7] [] ≠ envelope [2, 7] [] := by
  decide +kernel

end SatoshiNet.Chain.NativeProof
