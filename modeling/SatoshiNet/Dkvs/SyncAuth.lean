import SatoshiNet.Dkvs.Record
import SatoshiNet.Lib.Codec

/-!
What a mirror signs for one page of a synchronization: `auth.go`.

The payload is the concatenation of the request and the page.  Byte strings carry their length and
hashes have a fixed one, but neither the filters nor the records are counted.
-/

namespace SatoshiNet.Dkvs

open Lib List

structure DKVSSyncFilter where
  (type target : Bytes)

structure MsgDKVSSyncResponse where
  sessionID : BitVec 64
  records : Records
  nextCursor : Bytes
  done : Bool
  checkpointRoot : BitVec 256
  sourceSignature : Bytes

/-- The arguments of `SyncAuthPayload`: a page beside the request it answers. -/
structure SyncPage where
  net : BitVec 32
  requestCursor : Bytes
  filters : List DKVSSyncFilter
  msg : MsgDKVSSyncResponse

def authBytes (value : Bytes) : Bytes := leBytes 4 (value.length % 2 ^ 32) ++ value

def filterBytes (filter : DKVSSyncFilter) : Bytes := authBytes filter.type ++ authBytes filter.target

def hashBytes (hash : BitVec 256) : Bytes := leBytes 32 hash.toNat

def mirrorTag : Bytes := "satsnet:dkvs:mirror:v1".toList.map Char.toUInt8 ++ [0]

variable (recordHash : Record → BitVec 256)

def syncAuthPayload (page : SyncPage) : Bytes :=
  mirrorTag ++ (leBytes 4 page.net.toNat ++ (leBytes 8 page.msg.sessionID.toNat ++
    (authBytes page.requestCursor ++ (page.filters.flatMap filterBytes ++
      (authBytes page.msg.nextCursor ++ ([if page.msg.done then 1 else 0] ++
        (hashBytes page.msg.checkpointRoot ++ (page.msg.records.map recordHash).flatMap hashBytes)))))))

/-- `verifyMessage` reads the key of a validator and a signature and checks it for a message. -/
def verifySyncSignature (verifyMessage : Text → Bytes → Bytes → Bool) (validatorID : Text)
    (page : SyncPage) : Bool :=
  page.msg.sourceSignature ≠ [] &&
    verifyMessage validatorID (syncAuthPayload recordHash page) page.msg.sourceSignature

def SyncPage.context (page : SyncPage) : BitVec 32 × BitVec 64 × Bytes × List DKVSSyncFilter × Bytes ×
    Bool × BitVec 256 × List (BitVec 256) :=
  (page.net, page.msg.sessionID, page.requestCursor, page.filters, page.msg.nextCursor, page.msg.done,
    page.msg.checkpointRoot, page.msg.records.map recordHash)

/-- The four bytes of a length drop the same from both: nothing, below four gigabytes. -/
def SameCarry (a b : Bytes) : Prop := a.length / 2 ^ 32 = b.length / 2 ^ 32

/-- As many filters on both sides, and no two byte strings told apart only by what is dropped. -/
def SyncPage.Aligned (p q : SyncPage) : Prop :=
  SameCarry p.requestCursor q.requestCursor ∧
    Forall₂ (fun f g => SameCarry f.type g.type ∧ SameCarry f.target g.target) p.filters q.filters ∧
    SameCarry p.msg.nextCursor q.msg.nextCursor

variable {r s : Bytes}

theorem eq_of_leBytes {w width : ℕ} (hw : 2 ^ w ≤ 256 ^ width) {v v' : BitVec w}
    (h : leBytes width v.toNat = leBytes width v'.toNat) : v = v' := by
  have hnat := congrArg leNat h
  rw [leNat_leBytes _ _ (v.isLt.trans_le hw), leNat_leBytes _ _ (v'.isLt.trans_le hw)] at hnat
  exact BitVec.eq_of_toNat_eq hnat

theorem authBytes_inj {a b : Bytes} (hcarry : SameCarry a b)
    (h : authBytes a ++ r = authBytes b ++ s) : a = b ∧ r = s := by
  rw [authBytes, authBytes, append_assoc, append_assoc] at h
  obtain ⟨hlow, h⟩ := append_inj h (by simp)
  have hnat := congrArg leNat hlow
  have hlt : ∀ c : Bytes, c.length % 2 ^ 32 < 256 ^ 4 := fun c => Nat.mod_lt _ (by norm_num)
  rw [leNat_leBytes _ _ (hlt a), leNat_leBytes _ _ (hlt b)] at hnat
  unfold SameCarry at hcarry
  exact append_inj h (by omega)

theorem filters_inj {fs gs}
    (hfs : Forall₂ (fun f g => SameCarry f.type g.type ∧ SameCarry f.target g.target) fs gs)
    (h : fs.flatMap filterBytes ++ r = gs.flatMap filterBytes ++ s) : fs = gs ∧ r = s := by
  induction hfs with
  | nil => exact ⟨rfl, h⟩
  | @cons f g _ _ hfg _ ih =>
    simp only [flatMap_cons, filterBytes, append_assoc] at h
    obtain ⟨htype, h⟩ := authBytes_inj hfg.1 h
    obtain ⟨htarget, h⟩ := authBytes_inj hfg.2 h
    obtain ⟨rfl, hrest⟩ := ih h
    obtain rfl : f = g := by rw [DKVSSyncFilter.mk.injEq]; exact ⟨htype, htarget⟩
    exact ⟨rfl, hrest⟩

theorem hashes_inj {l m : List (BitVec 256)} (h : l.flatMap hashBytes = m.flatMap hashBytes) :
    l = m := by
  have hdelimiting : SelfDelimiting (fun _ => True) hashBytes :=
    .of_length (fun _ => leBytes_length 32 _) fun _ _ _ _ => eq_of_leBytes (by norm_num)
  have hlen : l.length = m.length := by
    have htotal := congrArg length h
    simp only [length_flatMap, hashBytes, leBytes_length, map_const', sum_replicate_nat] at htotal
    omega
  exact (hdelimiting.flatMap hlen (fun _ _ => trivial) (fun _ _ => trivial)
    (congrArg (· ++ ([] : Bytes)) h)).1

/-- Once the filters are known to be as many, the payload is taken apart from the left. -/
theorem context_eq_of_aligned {p q : SyncPage} (hpq : p.Aligned q)
    (h : syncAuthPayload recordHash p = syncAuthPayload recordHash q) :
    p.context recordHash = q.context recordHash := by
  obtain ⟨hnet, h⟩ := append_inj (append_cancel_left h) (by simp)
  obtain ⟨hsession, h⟩ := append_inj h (by simp)
  obtain ⟨hcursor, h⟩ := authBytes_inj hpq.1 h
  obtain ⟨hfilters, h⟩ := filters_inj hpq.2.1 h
  obtain ⟨hnext, h⟩ := authBytes_inj hpq.2.2 h
  obtain ⟨hflag, h⟩ := append_inj h rfl
  obtain ⟨hroot, h⟩ := append_inj h (by simp [hashBytes])
  have hdone : p.msg.done = q.msg.done := by
    revert hflag
    cases p.msg.done <;> cases q.msg.done <;> decide
  simp only [SyncPage.context, eq_of_leBytes (by norm_num) hnet, eq_of_leBytes (by norm_num) hsession,
    hcursor, hfilters, hnext, hdone, eq_of_leBytes (by norm_num) hroot, hashes_inj h]

/-- Two pages with one payload, or with one signature that verifies only for what it was made for, have
the same context exactly when they have as many filters and drop the same of their lengths. -/
theorem signature_binds_page_iff (verifyMessage : Text → Bytes → Bytes → Bool)
    (hverify : ∀ {id m m' sig}, verifyMessage id m sig = true → verifyMessage id m' sig = true → m = m')
    (p q : SyncPage) (h : syncAuthPayload recordHash p = syncAuthPayload recordHash q ∨
      p.msg.sourceSignature = q.msg.sourceSignature ∧ ∃ validatorID,
        verifySyncSignature recordHash verifyMessage validatorID p = true ∧
        verifySyncSignature recordHash verifyMessage validatorID q = true) :
    p.context recordHash = q.context recordHash ↔ p.Aligned q := by
  have hpayload : syncAuthPayload recordHash p = syncAuthPayload recordHash q := by
    obtain h | ⟨hsig, validatorID, hp, hq⟩ := h
    · exact h
    · simp only [verifySyncSignature, ← hsig, Bool.and_eq_true] at hp hq
      exact hverify hp.2 hq.2
  constructor
  · intro hcontext
    simp only [SyncPage.context, Prod.mk.injEq] at hcontext
    obtain ⟨-, -, hcursor, hfilters, hnext, -⟩ := hcontext
    rw [SyncPage.Aligned, hcursor, hfilters, hnext]
    exact ⟨rfl, forall₂_same.mpr fun _ _ => ⟨rfl, rfl⟩, rfl⟩
  · intro hpq
    exact context_eq_of_aligned recordHash hpq hpayload

/-- Two pages with a filter and a record, under one signature that verifies for both. -/
theorem signature_binds_resigned :
    let record : Record := ⟨1, ['k'], [5], [], [], 1, 0, 0, [], 0⟩
    let hash : Record → BitVec 256 := fun r => r.seq
    let page : SyncPage := ⟨7, [1], [⟨[2], [3, 4]⟩], ⟨1, [record], [6], false, 8, []⟩⟩
    let signed (records : Records) : SyncPage := { page with msg := { page.msg with
      records := records, sourceSignature := syncAuthPayload hash page } }
    let other := [{ record with value := [9] }]
    (signed [record]).context hash = (signed other).context hash ↔
      (signed [record]).Aligned (signed other) :=
  signature_binds_page_iff _ (fun _ m sig => m = sig)
    (fun h h' => (decide_eq_true_eq.mp h).trans (decide_eq_true_eq.mp h').symm) _ _
    (.inr ⟨rfl, [], by decide, by decide⟩)

def signedPage : SyncPage :=
  ⟨0, [], [], ⟨1, [⟨1, [], [], [], [], 1, 0, 0, [], 0⟩], [], true, 0x1700000000, []⟩⟩

/-- The same bytes with a filter: its type is the signed cursor, its target and the next cursor are the
signed root, and the root is the hash of the signed record. -/
def mistakenPage : SyncPage :=
  ⟨0, [], [⟨[], [0]⟩], ⟨1, [], replicate 23 0, false, recordHash ⟨1, [], [], [], [], 1, 0, 0, [], 0⟩, []⟩⟩

theorem signature_of_another_page :
    (∀ recordHash, syncAuthPayload recordHash signedPage =
      syncAuthPayload recordHash (mistakenPage recordHash)) ∧
    ∀ recordHash, signedPage.context recordHash ≠ (mistakenPage recordHash).context recordHash := by
  refine ⟨fun recordHash => ?_, fun recordHash h => ?_⟩
  · have hbytes : authBytes [] ++ ([1] ++ hashBytes signedPage.msg.checkpointRoot) =
        filterBytes ⟨[], [0]⟩ ++ (authBytes (replicate 23 0) ++ [0]) := by decide
    simpa [syncAuthPayload, signedPage, mistakenPage] using
      congrArg (· ++ hashBytes (recordHash ⟨1, [], [], [], [], 1, 0, 0, [], 0⟩)) hbytes
  · exact Nat.zero_ne_one (congrArg (fun context => context.2.2.2.1.length) h)

end SatoshiNet.Dkvs
