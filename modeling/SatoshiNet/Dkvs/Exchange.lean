import SatoshiNet.Dkvs.Store
import SatoshiNet.Lib.Mirror

/-!
What a batch does to the record table and the hash index: it is a list of exchanges, each of which
changes one slot of the record table and moves the entry of the hash index along, and of operations
on the other tables.
-/

namespace SatoshiNet.Dkvs

open Function Lib Std List Option
open Action

variable {H : Type}

def Write.inert : Write H → Bool
  | putRecord _ | deleteRecord _ | putHash _ _ | deleteHash _ => false
  | _ => true

def Write.isMark : Write H → Bool
  | putRecordChange _ _ | deleteRecordChange _ | putPrefixChange _ _ _ | deletePrefixChange _ _ _ =>
    true
  | _ => false

theorem inert_of_isMark {ws : Batch H} (h : ∀ w ∈ ws, w.isMark = true) :
    ∀ w ∈ ws, w.inert = true := by
  intro w hw
  have hmark := h w hw
  cases w <;> first | rfl | cases hmark

theorem inert_nameTransfer (c : Bool) (name : Text) :
    ∀ w ∈ (if c then [.deleteNameTransfer name] else [] : Batch H), w.inert = true := by
  cases c <;> simp [Write.inert]

theorem inert_map (f : PathMeta → Write H) (hf : ∀ m, (f m).inert = true) (ms : List PathMeta) :
    ∀ w ∈ ms.map f, w.inert = true := by
  intro w hw
  obtain ⟨m, _, rfl⟩ := mem_map.mp hw
  exact hf m

theorem inert_commitMetas (metas : List PathMeta) :
    ∀ w ∈ metas.flatMap fun m => [Write.putPathMeta (H := H) m, .putPathStatus m.path false],
      w.inert = true := by
  intro w hw
  obtain ⟨m, -, hw⟩ := mem_flatMap.mp hw
  simp only [mem_cons, not_mem_nil, or_false] at hw
  obtain rfl | rfl := hw <;> rfl

variable [Ord H] [TransOrd H]

@[simp] theorem flush_nil (s : Store H) : flush s [] = s := rfl

@[simp] theorem flush_cons (s : Store H) (w : Write H) (ws) :
    flush s (w :: ws) = flush (w.apply s) ws := rfl

theorem flush_append (s : Store H) (ws ws') :
    flush s (ws ++ ws') = flush (flush s ws) ws' := foldl_append

variable {s t : Store H} {ws : Batch H}

theorem flush_inert (s : Store H) (h : ∀ w ∈ ws, w.inert = true) :
    (flush s ws).records = s.records ∧ (flush s ws).hashes = s.hashes := by
  induction ws generalizing s with
  | nil => exact ⟨rfl, rfl⟩
  | cons w ws ih =>
    obtain ⟨hr, hh⟩ := ih (w.apply s) fun w' hw' => h w' (mem_cons_of_mem _ hw')
    have hw := h w mem_cons_self
    rw [flush_cons, hr, hh]
    cases w <;> simp_all [Write.inert, Write.apply]

variable {key path : Text}

omit [TransOrd H] in
theorem isMark_markChangedRecordBatch {generation : ℕ}
    (h : markChangedRecordBatch s path key generation = .ok ws) : ∀ w ∈ ws, w.isMark = true := by
  rw [markChangedRecordBatch, ite_error_eq_ok] at h
  obtain rfl := Except.ok.inj h.2
  cases s.recordChanges[key]? <;> simp [Write.isMark]

omit [TransOrd H] in
theorem isMark_clearChangedRecordBatch (h : clearChangedRecordBatch s path key = .ok ws) :
    ∀ w ∈ ws, w.isMark = true := by
  rw [clearChangedRecordBatch, ite_error_eq_ok] at h
  split at h
  · obtain rfl := Except.ok.inj h.2
    simp
  · obtain rfl := Except.ok.inj h.2
    simp [Write.isMark]

omit [Ord H] [TransOrd H] in
theorem isMark_elim {m : Option PathMeta} {f : PathMeta → DkvsM (Batch H)}
    (h : m.elim (.ok []) f = .ok ws) (hf : ∀ m, f m = .ok ws → ∀ w ∈ ws, w.isMark = true) :
    ∀ w ∈ ws, w.isMark = true := by
  cases m with
  | none =>
    cases h
    simp
  | some m => exact hf m h

def MetaOnly (s t : Store H) : Prop :=
  ∃ metas dirtyPaths, t = { s with metas := metas, dirtyPaths := dirtyPaths }

omit [TransOrd H] in
theorem MetaOnly.refl (s : Store H) : MetaOnly s s := ⟨s.metas, s.dirtyPaths, rfl⟩

omit [TransOrd H] in
theorem MetaOnly.trans {u} (h : MetaOnly s t) (h' : MetaOnly t u) : MetaOnly s u := by
  obtain ⟨_, _, rfl⟩ := h
  obtain ⟨metas, dirtyPaths, rfl⟩ := h'
  exact ⟨metas, dirtyPaths, rfl⟩

omit [TransOrd H] in
theorem MetaOnly.records (h : MetaOnly s t) : t.records = s.records := by
  obtain ⟨_, _, rfl⟩ := h
  rfl

section MetaActions

variable (lib : RecordLib H) (tip : Option ℕ)

variable {lib tip} in
theorem wp_ensure_of {height : ℕ} {Q : PathMeta → Store H → Prop} {E : Halt → Store H → Prop}
    (hbad : (path == [] || !isCanonicalCollectionPath path) = true → E (.fail .invalidKey) s)
    (hrebuild : ∀ m, m = s.computePathMetaViewLocked lib tip path height →
      Q m (flush s [.putPathMeta m, .putPathStatus path false]))
    (hcarry : ∀ m, s.metas[path]? = some m → path ∉ s.dirtyPaths → m.viewHeight < height →
      height < m.minExpiryHeight → Q { m with path := path, viewHeight := height }
        (flush s [.putPathMeta { m with path := path, viewHeight := height }]))
    (hfresh : ∀ m, s.metas[path]? = some m → path ∉ s.dirtyPaths → m.viewHeight = height →
      Q { m with path := path } s) : wp (ensurePathMetaLocked lib tip path height) s Q E := by
  have hrebuild : wp (rebuildPathMetaLocked lib tip path height) s Q E := hrebuild _ rfl
  simp only [ensurePathMetaLocked, wp_bind, wp_refuse, wp_get]
  refine ⟨hbad, fun _ => ?_⟩
  split
  · exact hrebuild
  next m hm =>
  obtain ⟨stored, hstored, rfl⟩ := map_eq_some_iff.mp hm
  simp only [wp_ite, wp_bind, wp_set, wp_pure]
  refine ⟨fun h => hcarry stored hstored h.1 h.2.1 h.2.2, fun _ => ⟨fun _ => hrebuild, fun h => ?_⟩⟩
  simp only [pathMetaNeedsRebuild, Bool.or_eq_true, not_or, decide_eq_true_eq, bne_iff_ne, ne_eq,
    not_not] at h
  exact hfresh stored hstored h.1.1 h.1.2

theorem wp_ensurePathMetaLocked (path : Text) (height : ℕ) (s : Store H) :
    Ends (ensurePathMetaLocked lib tip path height) s (MetaOnly s) :=
  wp_ensure_of (fun _ => .refl s) (fun _ _ => ⟨_, _, rfl⟩) (fun _ _ _ _ _ => ⟨_, _, rfl⟩)
    fun _ _ _ _ => .refl s

theorem wp_pathMetaForMutationLocked (parsed) (existing) (next : Record) (nextVisible : Bool)
    (height : ℕ) (s : Store H) :
    Ends (pathMetaForMutationLocked lib tip parsed existing next nextVisible height) s
      (MetaOnly s) := by
  simp only [pathMetaForMutationLocked, wp_ite, wp_pure, wp_bind]
  refine ⟨fun _ => .refl s, fun _ => ?_⟩
  refine wp_mono (wp_ensurePathMetaLocked lib tip _ height s) (fun _ t ht => ?_)
    fun _ _ ht => ht
  simp only [wp_get, wp_ofExcept]
  exact ⟨fun _ _ => ht, fun _ _ => ht⟩

theorem wp_projectPathMetasLocked (ready) (height : ℕ) (s : Store H) :
    Ends (projectPathMetasLocked lib tip ready height) s (MetaOnly s) := by
  refine wp_foldlM _ (fun metas t path _ ht => ?_) (.refl s)
  simp only [wp_bind]
  refine wp_mono (wp_ensurePathMetaLocked lib tip path height t) (fun _ u hu => ?_)
    fun _ _ hu => ht.trans hu
  simp only [wp_get, wp_ofExcept, wp_pure]
  exact ⟨fun _ _ => ht.trans hu, fun _ _ => ht.trans hu⟩

end MetaActions

/-- The hash index has exactly the entries of the stored records, and each record is stored under
its own key. -/
def Mirrored (lib : RecordLib H) (s : Store H) : Prop :=
  Mirrors Record.key lib.recordHash (fun key => s.records[key]?) (fun hash => s.hashes[hash]?)

/-- The batch takes the slot from one content to the other, whatever the rest of the store. -/
structure Exchange (lib : RecordLib H) (key : Text) (old new : Option Record)
    (ws : Batch H) : Prop where
  slot : ∀ u, (fun k => (flush u ws).records[k]?) = update (fun k => u.records[k]?) key new
  mirrored : ∀ u, Mirrored lib u → u.records[key]? = old → Mirrored lib (flush u ws)

variable {lib : RecordLib H} {key : Text} {old new : Option Record}

theorem Exchange.append_inert {ws'} (h : Exchange lib key old new ws)
    (hinert : ∀ w ∈ ws', w.inert = true) : Exchange lib key old new (ws ++ ws') := by
  refine ⟨fun u => ?_, fun u hu hold => ?_⟩
  · rw [flush_append, (flush_inert _ hinert).1]
    exact h.slot u
  · rw [flush_append, Mirrored, (flush_inert _ hinert).1, (flush_inert _ hinert).2]
    exact h.mirrored u hu hold

theorem Mirrored.of_eq (h : Mirrored lib s) (hr : t.records = s.records)
    (hh : t.hashes = s.hashes) : Mirrored lib t := by
  rw [Mirrored, hr, hh]
  exact h

theorem Mirrored.flush_inert (h : Mirrored lib s) (hinert : ∀ w ∈ ws, w.inert = true) :
    Mirrored lib (flush s ws) :=
  h.of_eq (Dkvs.flush_inert s hinert).1 (Dkvs.flush_inert s hinert).2

theorem MetaOnly.mirrored (hst : MetaOnly s t) (h : Mirrored lib s) : Mirrored lib t := by
  obtain ⟨_, _, rfl⟩ := hst
  exact h

variable {record : Record} {u : Store H}

theorem Mirrored.holds (hu : Mirrored lib u) {key : Text} (h : u.records[key]? = some record) :
    u.Holds record :=
  Keyed.holds (fun _ _ h => hu.keyed h) h

def IsRemoval (lib : RecordLib H) (record : Record) (ws : Batch H) : Prop :=
  ∃ rest, ws = erasing lib record ++ rest ∧
    ∀ w ∈ rest, w.inert = true

theorem IsRemoval.slot (h : IsRemoval lib record ws) (u : Store H) (k : Text) :
    (flush u ws).records[k]? = if k = record.key then none else u.records[k]? := by
  obtain ⟨rest, rfl, hrest⟩ := h
  rw [flush_append, (flush_inert _ hrest).1]
  exact (congrFun (lookup_erase _ _) k).trans (update_apply _ _ _ _)

omit [TransOrd H] in
theorem isRemoval_delete {m : Option PathMeta}
    (hclear : m.elim (.ok []) (fun m => clearChangedRecordBatch u m.path record.key) = .ok ws)
    (named : Bool) (name : Text) : IsRemoval lib record (erasing lib record ++ ws ++
        m.toList.map (.putPathStatus ·.path false) ++
        (if named then [.deleteNameTransfer name] else []) ++ m.toList.map .putPathMeta) := by
  refine ⟨_, by simp only [append_assoc]; rfl, ?_⟩
  simp only [forall_mem_append]
  exact ⟨inert_of_isMark (isMark_elim hclear fun _ => isMark_clearChangedRecordBatch),
    inert_map _ (fun _ => rfl) _, inert_nameTransfer _ _, inert_map _ (fun _ => rfl) _⟩

section Lawful

variable [LawfulEqOrd H] [DecidableEq H] (hlib : CollisionFree lib)
include hlib

theorem exchange_remove (record : Record) :
    Exchange lib record.key (some record) none (erasing lib record) := by
  refine ⟨fun u => lookup_erase _ _, fun u hu hold => ?_⟩
  have hrem := hu.remove (fun v w h => congrArg Record.key (hlib.inj h)) record.key
  rw [hold] at hrem
  simp only [Mirrored, flush_cons, flush_nil, Write.apply, lookup_erase]
  exact hrem

theorem exchange_drop (key : Text) (old) : Exchange lib key old none
      (old.toList.map (.deleteHash <| lib.recordHash ·) ++ [.deleteRecord key]) := by
  refine ⟨fun u => ?_, fun u hu hold => ?_⟩
  · cases old <;> exact lookup_erase _ _
  · have hrem := hu.remove (fun v w h => congrArg Record.key (hlib.inj h)) key
    rw [hold] at hrem
    cases old
    all_goals
      simp only [Mirrored, toList_none, toList_some, map_cons, map_nil, cons_append, nil_append,
        flush_cons, flush_nil, Write.apply, lookup_erase]
      exact hrem

theorem mirrored_remove_absent (hu : Mirrored lib u) (hnone : u.records[record.key]? = none) :
    Mirrored lib (flush u (erasing lib record)) := by
  have hindex : u.hashes[lib.recordHash record]? = none := by
    by_contra hne
    obtain ⟨k, hk⟩ := ne_none_iff_exists'.mp hne
    obtain ⟨stored, hstored, hhash⟩ := (hu.entry _ k).mp hk
    obtain rfl := hlib.inj hhash
    rw [hu.keyed hstored, hstored] at hnone
    cases hnone
  have hrecords : update (fun k => u.records[k]?) record.key none = fun k => u.records[k]? := by
    rw [← hnone]
    exact update_eq_self _ _
  have hhashes : update (fun h => u.hashes[h]?) (lib.recordHash record) none =
      fun h => u.hashes[h]? := by
    rw [← hindex]
    exact update_eq_self _ _
  simp only [Mirrored, flush_cons, flush_nil, Write.apply, lookup_erase, hrecords, hhashes]
  exact hu

theorem IsRemoval.mirrored (h : IsRemoval lib record ws) (hu : Mirrored lib u)
    (hslot : u.Holds record ∨ u.records[record.key]? = none) : Mirrored lib (flush u ws) := by
  obtain ⟨rest, rfl, hrest⟩ := h
  rw [flush_append]
  obtain hsome | hnone := hslot
  · exact ((exchange_remove hlib record).mirrored u hu hsome).flush_inert hrest
  · exact (mirrored_remove_absent hlib hu hnone).flush_inert hrest

theorem flush_removals (ws) (l : Records) (hws : ∀ record ∈ l, IsRemoval lib record (ws record))
    (u : Store H) (hu : Mirrored lib u)
    (hslot : ∀ record ∈ l, u.Holds record ∨ u.records[record.key]? = none) :
    Mirrored lib (flush u (l.map ws).flatten) ∧ ∀ k, (flush u (l.map ws).flatten).records[k]? =
      if k ∈ l.map Record.key then none else u.records[k]? := by
  induction l generalizing u with
  | nil => exact ⟨hu, fun k => rfl⟩
  | cons a l ih =>
    have ha := hws a mem_cons_self
    obtain ⟨hlast, hall⟩ := ih (fun r hr => hws r (mem_cons_of_mem _ hr)) _
      (ha.mirrored hlib hu (hslot a mem_cons_self)) fun r hr => by
        rw [Store.Holds, ha.slot]
        split_ifs
        · exact .inr rfl
        · exact hslot r (mem_cons_of_mem _ hr)
    rw [map_cons, flatten_cons, flush_append]
    refine ⟨hlast, fun k => ?_⟩
    rw [hall, ha.slot, map_cons]
    by_cases hk : k = a.key <;> simp [hk]

theorem exchange_store (record : Record) (old) : Exchange lib record.key old (some record)
      (old.toList.map (.deleteHash <| lib.recordHash ·) ++ storing lib record) := by
  refine ⟨fun u => ?_, fun u hu hold => ?_⟩
  · cases old <;> exact lookup_insert _ _ _
  · have hput := hu.store (fun v w h => congrArg Record.key (hlib.inj h)) record
    rw [hold] at hput
    cases old
    all_goals
      simp only [Mirrored, toList_none, toList_some, map_cons, map_nil, cons_append, nil_append,
        flush_cons, flush_nil, Write.apply, lookup_insert, lookup_erase]
      exact hput

theorem exchange_put (record : Record) (old) (resolved : Bool) (name) (m? : Option PathMeta) {mark}
    (hmark : ∀ w ∈ mark, w.isMark = true) : Exchange lib record.key old (some record)
      ([.putRecord record] ++
        (old.toList.filter fun stored => lib.recordHash stored != lib.recordHash record).map
          (.deleteHash <| lib.recordHash ·) ++ [.putHash (lib.recordHash record) record.key] ++
        (if resolved then [.deleteNameTransfer name] else []) ++ m?.toList.map .putPathMeta ++ mark) := by
  refine .append_inert (.append_inert (.append_inert ?_ (inert_nameTransfer resolved name))
    (inert_map _ (fun _ => rfl) _)) (inert_of_isMark hmark)
  cases old with
  | none => exact exchange_store hlib record none
  | some stored =>
    have hstore := exchange_store hlib record (some stored)
    by_cases heq : lib.recordHash stored = lib.recordHash record
    · have hnil : ([stored].filter fun r => lib.recordHash r != lib.recordHash record) = [] := by
        simp [heq]
      rw [toList_some, hnil]
      refine ⟨hstore.slot, fun u hu hold => ?_⟩
      have hput := hstore.mirrored u hu hold
      simp only [Mirrored, toList_some, map_cons, map_nil, cons_append, nil_append, flush_cons,
        flush_nil, Write.apply, lookup_insert, lookup_erase, heq, update_idem] at hput ⊢
      exact hput
    · have hone : ([stored].filter fun r => lib.recordHash r != lib.recordHash record) = [stored] := by
        simp [heq]
      rw [toList_some, hone]
      exact { hstore with }

end Lawful

theorem flush_exchanges {ι : Type} (key : ι → Text) (new : ι → Option Record)
    (ws : ι → Batch H) (s : Store H) (l : List ι) (hnodup : (l.map key).Nodup)
    (hex : ∀ i ∈ l, Exchange lib (key i) s.records[key i]? (new i) (ws i)) (u : Store H)
    (hsame : ∀ i ∈ l, u.records[key i]? = s.records[key i]?) :
    (Mirrored lib u → Mirrored lib (flush u (l.map ws).flatten)) ∧
      (∀ i ∈ l, (flush u (l.map ws).flatten).records[key i]? = new i) ∧
      ∀ k ∉ l.map key, (flush u (l.map ws).flatten).records[k]? = u.records[k]? := by
  induction l generalizing u with
  | nil => exact ⟨id, forall_mem_nil _, fun k _ => rfl⟩
  | cons a l ih =>
    obtain ⟨hfresh, hnodup⟩ := nodup_cons.mp hnodup
    have ha := hex a mem_cons_self
    have hslot : ∀ k, (flush u (ws a)).records[k]? =
        update (fun k => u.records[k]?) (key a) (new a) k := congrFun (ha.slot u)
    have hother : ∀ k, k ≠ key a → (flush u (ws a)).records[k]? = u.records[k]? := fun k hk => by
      rw [hslot, update_of_ne hk]
    have hne : ∀ i ∈ l, key i ≠ key a := fun i hi h =>
      hfresh (mem_map.mpr ⟨i, hi, h⟩)
    obtain ⟨hm, hin, hout⟩ := ih hnodup (fun i hi => hex i (mem_cons_of_mem _ hi))
      (flush u (ws a)) fun i hi => by
        rw [hother _ (hne i hi)]
        exact hsame i (mem_cons_of_mem _ hi)
    rw [map_cons, flatten_cons, flush_append]
    refine ⟨fun hu => hm (ha.mirrored u hu (hsame a mem_cons_self)), fun i hi => ?_, fun k hk => ?_⟩
    · obtain rfl | hi := mem_cons.mp hi
      · rw [hout _ hfresh, hslot, update_self]
      · exact hin i hi
    · rw [map_cons, mem_cons, not_or] at hk
      rw [hout k hk.2, hother k hk.1]

section Scan

omit [TransOrd H]

variable {key path : Text} {record : Record}

theorem mem_scan {s : Store H} :
    record ∈ s.scan path ↔ ∃ key, s.records[key]? = some record ∧ path.isPrefixOf key = true ∧
      (path = [] ∨ inPath path record.key = true) := by
  simp only [Store.scan, mem_filterMap, Prod.exists, ite_none_right_eq_some,
    Bool.and_eq_true, Bool.or_eq_true, beq_iff_eq, some.injEq]
  constructor
  · rintro ⟨key, r, hmem, hpath, rfl⟩
    exact ⟨key, ExtTreeMap.mem_toList_iff_getElem?_eq_some.mp hmem, hpath⟩
  · rintro ⟨key, hget, hpath⟩
    exact ⟨key, record, ExtTreeMap.mem_toList_iff_getElem?_eq_some.mpr hget, hpath, rfl⟩

theorem isPrefixOf_of_inPath (h : inPath path key = true) : path.isPrefixOf key = true := by
  simp only [inPath, Bool.or_eq_true, beq_iff_eq, isPrefixOf_iff_prefix] at h ⊢
  obtain rfl | h := h
  · exact prefix_rfl
  · exact (prefix_append path ['/']).trans h

theorem getElem?_indexByKey {records} (h : (indexByKey records)[key]? = some record) :
    record ∈ records ∧ record.key = key := by
  refine foldlRecOn (motive := fun byKey : ExtTreeMap Text Record =>
    byKey[key]? = some record → record ∈ records ∧ record.key = key) records _ ?_
    (fun byKey ih r hr hin => ?_) h
  · simp
  rw [ExtTreeMap.getElem?_insert] at hin
  split_ifs at hin with hcmp
  · cases hin
    exact ⟨hr, LawfulEqOrd.compare_eq_iff_eq.mp hcmp⟩
  · exact ih hin

end Scan

end SatoshiNet.Dkvs
