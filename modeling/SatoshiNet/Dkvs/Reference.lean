import SatoshiNet.Dkvs.Record

/-!
A concrete instance of what the store takes from elsewhere: a record is its own hash, every
signature verifies and every fee is paid.
-/

namespace SatoshiNet.Dkvs.Reference

open Function Lib List

def sized {α : Type} (f : α → ℕ) (l : List α) : List ℕ := l.length :: l.map f

theorem sized_inj {α : Type} {f : α → ℕ} (hf : Injective f) {l m : List α} {r s : List ℕ}
    (h : sized f l ++ r = sized f m ++ s) : l = m ∧ r = s := by
  simp only [sized, cons_append, cons.injEq] at h
  obtain ⟨hmap, hrest⟩ := append_inj h.2 (by rw [length_map, length_map, h.1])
  exact ⟨hf.list_map hmap, hrest⟩

def encodeRecord (record : Record) : List ℕ :=
  record.version :: record.seq :: record.issueHeight :: record.ttl :: record.flags ::
    (sized Char.toNat record.key ++ (sized UInt8.toNat record.value ++
      (sized UInt8.toNat record.pubKey ++ (sized UInt8.toNat record.signature ++
        sized UInt8.toNat record.feeProof))))

theorem encodeRecord_injective : Injective encodeRecord := by
  have hchar : Injective Char.toNat := fun _ _ h => Char.toNat_inj.mp h
  have hbyte : Injective UInt8.toNat := fun _ _ h => UInt8.toNat_inj.mp h
  intro a b h
  simp only [encodeRecord, cons.injEq] at h
  obtain ⟨hversion, hseq, hissue, httl, hflags, h⟩ := h
  obtain ⟨hkey, h⟩ := sized_inj hchar h
  obtain ⟨hvalue, h⟩ := sized_inj hbyte h
  obtain ⟨hpub, h⟩ := sized_inj hbyte h
  obtain ⟨hsig, h⟩ := sized_inj hbyte h
  obtain ⟨hfee, -⟩ := sized_inj hbyte (r := []) (s := []) (congrArg (· ++ []) h)
  cases a
  cases b
  simp_all

def feeMode : Bytes → Option FeeMode
  | 0 :: _ => some .oneshot
  | 1 :: _ => some .lease
  | 2 :: _ => some .autopay
  | 3 :: _ => some .freeLocal
  | _ => none

def recordLib : RecordLib (List ℕ) where
  recordHash := encodeRecord
  zeroHash := []
  hashOfBytes bytes := bytes.map UInt8.toNat
  pathMetaRecordLeaf record := BitVec.ofNat 256 (record.seq * 1000 + record.key.length)
  feeMode := feeMode
  verifySignature _ := .ok ()
  validateRecordIdentity _ _ := .ok ()
  recordSignerAccountID _ parsed := .ok (parsed.segments.headD [])
  accountID _ := replicate 64 '0'
  decodesServiceDescriptor _ := false
  marshalRecord _ := .ok ()

theorem collisionFree_recordLib : CollisionFree recordLib :=
  ⟨encodeRecord_injective, fun _ => cons_ne_nil _ _⟩

def validators : Validators where
  resolver := some ⟨fun name => .ok ⟨name, fun _ => .ok ()⟩, fun name => .ok ⟨name, fun _ => .ok ()⟩⟩
  feeVerifier := some ⟨fun _ _ => .ok (), none⟩
  system := none
  evmSourceVerifier := none
  primaryDID _ _ := .ok ()
  policyGeneration := 0

def record (key : String) (seq issueHeight ttl : ℕ) : Record where
  version := 1
  key := key.toList
  value := [1]
  pubKey := [2]
  signature := [3]
  seq := seq
  issueHeight := issueHeight
  ttl := ttl
  feeProof := []
  flags := 0

end SatoshiNet.Dkvs.Reference
