import SatoshiNet.Dkvs.Reference

/-!
The order by which a merge keeps one of two records of a key.  Records with one business content are
ranked by how long they stay, all others by their issue heights; where the two rules meet, the order
can run in a circle.
-/

namespace SatoshiNet.Dkvs

open Std List

variable {H : Type} [Ord H]

namespace RecordLib

variable (lib : RecordLib H)

def keepGreater (stored incoming : Record) : Record :=
  if (lib.compareRecords stored incoming).isGE then stored else incoming

def merged (first : Record) (rest : Records) : Record := rest.foldl lib.keepGreater first

def compareIssue : Record → Record → Ordering :=
  compareLex (compareOn (·.issueHeight)) (compareOn lib.recordHash)

def compareRetention (a b : Record) : Ordering :=
  compareOptionalUpperBound (recordExpiryHeight a) (recordExpiryHeight b)

/-- No record of another content stands between two records that their retentions rank against
their issue heights. -/
def Untangled (records : Records) : Prop :=
  ∀ a ∈ records, ∀ b ∈ records, ∀ c ∈ records, a.seq = c.seq → sameBusinessContent a b →
    ¬ sameBusinessContent a c → compareRetention a b = .gt →
    ¬ ((lib.compareIssue b c).isGE ∧ (lib.compareIssue c a).isGE)

def TransOn (records : Records) : Prop :=
  ∀ a ∈ records, ∀ b ∈ records, ∀ c ∈ records, (lib.compareRecords a b).isGE →
    (lib.compareRecords b c).isGE → (lib.compareRecords a c).isGE

end RecordLib

open RecordLib

variable {lib : RecordLib H} {a b c : Record} {records rest : Records} {first : Record}

theorem compareRecords_eq : lib.compareRecords a b = (compare a.seq b.seq).then
    ((if sameBusinessContent a b then compareRetention a b else .eq).then (lib.compareIssue a b)) :=
  rfl

theorem isGE_then {x y : Ordering} : (x.then y).isGE ↔ x = .gt ∨ x = .eq ∧ y.isGE := by
  cases x <;> simp

theorem isGE_compareRecords : (lib.compareRecords a b).isGE ↔ b.seq < a.seq ∨ a.seq = b.seq ∧
    (sameBusinessContent a b ∧ compareRetention a b = .gt ∨
      (sameBusinessContent a b → compareRetention a b = .eq) ∧ (lib.compareIssue a b).isGE) := by
  rw [compareRecords_eq, isGE_then, isGE_then, Nat.compare_eq_gt, Nat.compare_eq_eq]
  split_ifs with h <;> simp [h]

instance transCmp_compareRetention : TransCmp compareRetention := by
  have hlex : compareRetention =
      compareLex (compareOn (recordExpiryHeight · == 0)) (compareOn recordExpiryHeight) := by
    funext a b
    simp only [compareRetention, compareLex, compareOn]
    cases recordExpiryHeight a <;> cases recordExpiryHeight b <;>
      simp +contextual [compareOptionalUpperBound] <;> rfl
  rw [hlex]
  infer_instance

variable [TransOrd H]

instance transCmp_compareIssue : TransCmp lib.compareIssue :=
  inferInstanceAs (TransCmp (compareLex _ _))

theorem compareRecords_swap (a b) : lib.compareRecords b a = (lib.compareRecords a b).swap := by
  have hsame : sameBusinessContent b a = sameBusinessContent a b := by
    simp [sameBusinessContent, Bool.beq_comm]
  rw [compareRecords_eq, compareRecords_eq, Ordering.swap_then, Ordering.swap_then,
    Nat.compare_swap, apply_ite Ordering.swap, hsame,
    ← @OrientedCmp.eq_swap _ compareRetention, ← @OrientedCmp.eq_swap _ lib.compareIssue]
  rfl

theorem transOn_iff : lib.TransOn records ↔ lib.Untangled records := by
  simp only [TransOn, Untangled, isGE_compareRecords, sameBusinessContent, Bool.and_eq_true,
    beq_iff_eq]
  constructor
  · intro htrans a ha b hb c hc
    have hcircle := htrans b hb c hc a ha
    have hswap : compareRetention a b = .gt ↔ compareRetention b a = .lt := OrientedCmp.gt_iff_lt
    grind
  · intro hun a ha b hb c hc
    have hsame : (compareLex compareRetention lib.compareIssue a b).isGE →
      (compareLex compareRetention lib.compareIssue b c).isGE →
      (compareLex compareRetention lib.compareIssue a c).isGE := TransCmp.isGE_trans
    have hissue : (lib.compareIssue a b).isGE → (lib.compareIssue b c).isGE →
      (lib.compareIssue a c).isGE := TransCmp.isGE_trans
    have htotal : (lib.compareIssue a c).isGE ∨ (lib.compareIssue c a).isGE := by
      rw [@OrientedCmp.eq_swap _ lib.compareIssue _ c a]
      cases lib.compareIssue a c <;> simp
    have hswap : compareRetention c a = .gt ↔ compareRetention a c = .lt := OrientedCmp.gt_iff_lt
    have hab := hun a ha b hb c hc
    have hbc := hun b hb c hc a ha
    have hca := hun c hc a ha b hb
    simp only [compareLex, isGE_then] at hsame
    clear hun
    cases hac : compareRetention a c <;> grind

theorem isGE_compareRecords_self (a) : (lib.compareRecords a a).isGE := by
  have hswap : lib.compareRecords a a = (lib.compareRecords a a).swap := compareRecords_swap a a
  cases h : lib.compareRecords a a <;> simp_all

/-- Where the order is transitive, a merge leaves a record that no other one beats. -/
theorem merged_spec (htrans : lib.TransOn records) (hsub : first :: rest ⊆ records) :
    lib.merged first rest ∈ first :: rest ∧
      ∀ r ∈ first :: rest, (lib.compareRecords (lib.merged first rest) r).isGE := by
  induction rest using reverseRecOn with
  | nil => exact ⟨mem_cons_self, forall_mem_singleton.mpr (isGE_compareRecords_self _)⟩
  | append_singleton rest x ih =>
    rw [← cons_append] at hsub ⊢
    obtain ⟨hsub, hx⟩ := append_subset.mp hsub
    obtain ⟨hmem, hall⟩ := ih hsub
    rw [merged, foldl_concat, ← merged, keepGreater]
    split_ifs with hge
    · exact ⟨mem_append_left _ hmem, forall_mem_append.mpr ⟨hall, forall_mem_singleton.mpr hge⟩⟩
    have hback : (lib.compareRecords x (lib.merged first rest)).isGE := by
      rw [compareRecords_swap]
      cases h : lib.compareRecords (lib.merged first rest) x <;> simp_all
    refine ⟨mem_append_right _ mem_cons_self, forall_mem_append.mpr ⟨fun r hr => ?_, ?_⟩⟩
    · exact htrans _ (hx mem_cons_self) _ (hsub hmem) _ (hsub hr) hback (hall r hr)
    · exact forall_mem_singleton.mpr (isGE_compareRecords_self x)

/-- The comparison is antisymmetric and equal only for equal hashes.  It is transitive, and every
order of arrival has the same winner, exactly where no records are tangled. -/
theorem compareRecords_total_order [LawfulEqOrd H] (lib : RecordLib H) (records : Records) :
    (∀ a b, lib.compareRecords b a = (lib.compareRecords a b).swap) ∧
      (∀ a b, lib.compareRecords a b = .eq → lib.recordHash a = lib.recordHash b) ∧
      (lib.TransOn records ∧ (∀ first rest first' rest', first :: rest ⊆ records →
          (first :: rest).Perm (first' :: rest') →
          lib.recordHash (lib.merged first rest) = lib.recordHash (lib.merged first' rest')) ↔
        lib.Untangled records) := by
  have heq : ∀ a b, lib.compareRecords a b = .eq → lib.recordHash a = lib.recordHash b := by
    intro a b h
    simp only [compareRecords, Ordering.then_eq_eq] at h
    exact LawfulEqOrd.eq_of_compare h.2.2.2
  refine ⟨compareRecords_swap, heq, ?_⟩
  rw [← transOn_iff]
  refine ⟨And.left, fun htrans => ⟨htrans, fun first rest first' rest' hsub hperm => ?_⟩⟩
  obtain ⟨hmem, hall⟩ := merged_spec htrans hsub
  obtain ⟨hmem', hall'⟩ := merged_spec htrans fun r hr => hsub (hperm.mem_iff.mpr hr)
  have hge := hall _ (hperm.mem_iff.mpr hmem')
  have hle := hall' _ (hperm.mem_iff.mp hmem)
  rw [compareRecords_swap] at hle
  apply heq
  cases h : lib.compareRecords (lib.merged first rest) (lib.merged first' rest') <;> simp_all

section Samples

open Reference

def renewed : Record := record "/name/a" 1 1 100

def reissued : Record := record "/name/a" 1 3 10

def rival : Record := { record "/name/a" 1 2 10 with value := [9] }

theorem compareRecords_circle : recordLib.compareRecords renewed reissued = .gt ∧
    recordLib.compareRecords reissued rival = .gt ∧ recordLib.compareRecords rival renewed = .gt ∧
    recordLib.merged renewed [reissued, rival] ≠ recordLib.merged reissued [rival, renewed] := by
  decide

theorem compareRecords_pair_order :
    recordLib.recordHash (recordLib.merged renewed [rival]) =
      recordLib.recordHash (recordLib.merged rival [renewed]) :=
  ((compareRecords_total_order recordLib [renewed, rival]).2.2.mpr (by rw [Untangled]; decide)).2
    renewed [rival] rival [renewed] (Subset.refl _) (by decide)

end Samples

end SatoshiNet.Dkvs
