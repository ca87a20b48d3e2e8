import SatoshiNet.Mining.BlockOrder

/-!
The null data scripts that carry a payload: a long payload is cut into chunks, every chunk is
pushed in a script of its own, and the scripts read in order give the payload back.
-/

namespace SatoshiNet.Mining

open Lib Wire List

inductive NullDataError
  | dataSize | unsupportedTxType
  | script (e : ScriptError)

def maxDataCarrierSize : ℕ := 512

def contentTypeOf : ℕ → Option ℤ
  | 1 => some 31
  | 2 => some 32
  | 3 => some 33
  | 4 => some 34
  | _ => none

def nullDataScript (txType : ℕ) (content : Bytes) : Except NullDataError Script :=
  if content.length > maxNullDataPayloadLen then .error .dataSize
  else match contentTypeOf txType with
    | none => .error .unsupportedTxType
    | some contentType =>
      (addOp opReturn [] >>= addOp 0x60 >>= addInt64 contentType >>= addData content).mapError
        .script

def chunk (content : Bytes) (i : ℕ) : Bytes :=
  (content.drop (maxNullDataPayloadLen * i)).take maxNullDataPayloadLen

def chunkCount (content : Bytes) : ℕ :=
  (content.length + maxNullDataPayloadLen - 1) / maxNullDataPayloadLen

def nullDataScripts (txType : ℕ) (content : Bytes) : Except NullDataError (List Script) :=
  if content.length ≤ maxNullDataPayloadLen then (nullDataScript txType content).map ([·])
  else (range (chunkCount content)).mapM fun i => nullDataScript txType (chunk content i)

variable {content : Bytes} {txType : ℕ} {script : Script}

theorem pushOf_length : (pushOf content).length = canonicalDataSize content := by
  rw [pushOf, canonicalDataSize]
  split_ifs <;> simp [leBytes_length] <;> grind

theorem canonicalDataSize_le (hlen : content.length ≤ maxNullDataPayloadLen) :
    canonicalDataSize content ≤ 507 := by
  rw [maxNullDataPayloadLen] at hlen
  rw [canonicalDataSize]
  split_ifs <;> omega

/-- A byte that was pushed by an opcode of its own is found again from the opcode. -/
theorem payloadContent_pushOf (hne : content ≠ []) (hlen : content.length ≤ maxNullDataPayloadLen) :
    (nextToken (pushOf content)).bind payloadContent = some content := by
  have hbyte : ∀ n < 256, SmallPush [UInt8.ofNat n] →
      (nextToken (pushOf [UInt8.ofNat n])).bind payloadContent = some [UInt8.ofNat n] := by
    decide +kernel
  by_cases hsmall : SmallPush content
  · obtain ⟨b, rfl⟩ := length_eq_one_iff.mp hsmall.1
    have hb := hbyte b.toNat b.toNat_lt
    rw [UInt8.ofNat_toNat] at hb
    exact hb hsmall
  · obtain ⟨opcode, htoken⟩ := nextToken_pushOf (hlen.trans (by decide))
    have htoken := htoken []
    rw [append_nil, pushedData_eq_self.mpr hsmall] at htoken
    rw [htoken, Option.bind_some, payloadContent, if_pos (opcode_of_data htoken hne)]

theorem nullDataScript_eq {k : ℤ} (hk : contentTypeOf txType = some k)
    (hlen : content.length ≤ maxNullDataPayloadLen) :
    ∃ b, nullDataScript txType content = .ok (opReturn :: 0x60 :: 1 :: b :: pushOf content) ∧
      (contentTxType (extractInt64FromScript 1 [b] % 256)).map TxType.code = some txType ∧
      (contentTxType (extractInt64FromScript 1 [b])).isSome := by
  obtain ⟨b, hhead, htype⟩ : ∃ b, (addOp opReturn [] >>= addOp 0x60 >>= addInt64 k) =
      .ok [opReturn, 0x60, 1, b] ∧
      (contentTxType (extractInt64FromScript 1 [b] % 256)).map TxType.code = some txType ∧
      (contentTxType (extractInt64FromScript 1 [b])).isSome := by
    unfold contentTypeOf at hk
    split at hk <;> cases hk <;> exact ⟨_, rfl, by decide⟩
  have hsize : ¬ 4 + canonicalDataSize content > maxScriptSize :=
    Nat.not_lt.mpr ((Nat.add_le_add_left (canonicalDataSize_le hlen) 4).trans (by decide))
  have helement : ¬ content.length > maxScriptElementSize := Nat.not_lt.mpr (hlen.trans (by decide))
  refine ⟨b, ?_, htype⟩
  rw [nullDataScript, if_neg (Nat.not_lt.mpr hlen), hk]
  simp [hhead, addData, hsize, helement, mapError_eq_ok, bind_eq_ok]

theorem contentTypeOf_code (t : TxType) : ∃ k, contentTypeOf t.code = some k := by
  cases t <;> exact ⟨_, rfl⟩

theorem nullDataScript_read (hne : content ≠ []) (h : nullDataScript txType content = .ok script) :
    (readNullDataScript script).map (fun r => (r.1.code, r.2)) = some (txType, content) ∧
      script.length ≤ maxDataCarrierSize ∧ hasContractPayloadHeader script = true := by
  obtain ⟨hlen, h'⟩ := ite_error_eq_ok.mp h
  have hlen := Nat.le_of_not_lt hlen
  cases hk : contentTypeOf txType with
  | none =>
    rw [hk] at h'
    cases h'
  | some k =>
    obtain ⟨b, heq, htype, hsome⟩ := nullDataScript_eq hk hlen
    obtain rfl := Except.ok.inj (h.symm.trans heq)
    obtain ⟨token, htoken, hcontent⟩ := Option.bind_eq_some_iff.mp (payloadContent_pushOf hne hlen)
    obtain ⟨t, ht, rfl⟩ := Option.map_eq_some_iff.mp htype
    have hop : ∀ rest, nextToken (opReturn :: rest) = some ⟨opReturn, [], rest⟩ :=
      nextToken_opcode (.inr (by decide))
    have hmagic : ∀ rest, nextToken (0x60 :: rest) = some ⟨0x60, [], rest⟩ :=
      nextToken_opcode (.inr (by decide))
    have hkind : nextToken (1 :: b :: pushOf content) = some ⟨1, [b], pushOf content⟩ := by
      simp [nextToken]
    refine ⟨by simp [readNullDataScript, hop, hmagic, hkind, htoken, hcontent, ht, hlen], ?_,
      by simp [hasContractPayloadHeader, hop, hmagic, hkind, hsome]⟩
    have hsize := canonicalDataSize_le hlen
    simp only [length_cons, pushOf_length, maxDataCarrierSize]
    omega

theorem eq_cons_of_nextToken {token} (h : nextToken script = some token)
    (hop : 0x4e < token.opcode.toNat) : script = token.opcode :: token.rest := by
  cases script with
  | nil => cases h
  | cons op rest =>
    have hsame : token.opcode = op := by
      simp only [nextToken] at h
      split_ifs at h <;> grind [Option.map_eq_some_iff]
    rw [hsame] at hop ⊢
    rw [nextToken_opcode (.inr hop)] at h
    cases h
    rfl

/-- The reader takes other spellings than the writer's: any push form for the two tokens, and
anything after them. A type number of one byte is the content type, and is recognised. What is
read, if not empty, has the writer's spelling too. -/
theorem readNullDataScript_spelling {t : TxType} (h : readNullDataScript script = some (t, content)) :
    (∃ kind token rest, script = opReturn :: 0x60 :: rest ∧ nextToken rest = some kind ∧
      nextToken kind.rest = some token ∧ payloadContent token = some content ∧
      ∀ number, extractInt64FromScript kind.opcode kind.data = number → 0 ≤ number → number < 256 →
        contentTxType number = some t ∧ hasContractPayloadHeader script = true) ∧
      (content ≠ [] → ∃ canonical, nullDataScript t.code content = .ok canonical ∧
        readNullDataScript canonical = some (t, content) ∧
        hasContractPayloadHeader canonical = true) := by
  simp only [readNullDataScript, Option.bind_eq_bind, Option.bind_eq_some_iff,
    Option.ite_none_right_eq_some, Option.some.injEq, Prod.mk.injEq] at h
  obtain ⟨ret, hret, magic, hmagic, kind, hkind, token, htoken, _, hcontent, t, htype,
    ⟨hop, h16, -, hlen⟩, rfl, rfl⟩ := h
  refine ⟨⟨kind, token, magic.rest, ?_, hkind, htoken, hcontent, fun number hnumber h0 h256 => ?_⟩,
    fun hne => ?_⟩
  · rw [eq_cons_of_nextToken hret (by rw [hop]; decide), hop,
      eq_cons_of_nextToken hmagic (by rw [h16]; decide), h16]
  · rw [hnumber, Int.emod_eq_of_lt h0 h256] at htype
    exact ⟨htype, by simp [hasContractPayloadHeader, hret, hmagic, hkind, hop, h16, hnumber, htype]⟩
  · obtain ⟨k, hk⟩ := contentTypeOf_code t
    obtain ⟨b, heq, -⟩ := nullDataScript_eq hk hlen
    obtain ⟨hread, -, hheader⟩ := nullDataScript_read hne heq
    refine ⟨_, heq, ?_, hheader⟩
    obtain ⟨⟨t', _⟩, hread, hsame⟩ := Option.map_eq_some_iff.mp hread
    obtain ⟨hcode, rfl⟩ := Prod.mk.inj hsame
    have ht : t' = t := by cases t <;> cases t' <;> first | rfl | cases hcode
    rw [hread, ht]

theorem readNullDataScript_deploy_spelling : ∃ canonical,
    nullDataScript TxType.deploy.code [1] = .ok canonical ∧
      readNullDataScript canonical = some (.deploy, [1]) ∧ hasContractPayloadHeader canonical = true :=
  (@readNullDataScript_spelling [1] [opReturn, 0x60, 1, 31, 0x4c, 1, 1] .deploy (by decide)).2
    (by decide)

/-- A token too many, and a type number of two bytes. -/
theorem readNullDataScript_other_spellings :
    readNullDataScript [opReturn, 0x60, 1, 31, 0x51, 0x51] = some (.deploy, [1]) ∧
      (nullDataScript TxType.deploy.code [1]).toOption = some [opReturn, 0x60, 1, 31, 0x51] ∧
      readNullDataScript [opReturn, 0x60, 2, 0x1f, 1, 0x51] = some (.deploy, [1]) ∧
      hasContractPayloadHeader [opReturn, 0x60, 2, 0x1f, 1, 0x51] = false := by
  decide

theorem flatten_chunk (n : ℕ) :
    ((range n).map (chunk content)).flatten = content.take (maxNullDataPayloadLen * n) := by
  induction n with
  | zero => rfl
  | succ n ih => simp [range_succ, ih, chunk, Nat.mul_succ, take_add]

theorem nullDataScripts_eq (hne : content ≠ []) : nullDataScripts txType content =
    (range (chunkCount content)).mapM fun i => nullDataScript txType (chunk content i) := by
  rw [nullDataScripts]
  split_ifs with hshort
  · have hpos := length_pos_iff.mpr hne
    have hone : chunkCount content = 1 := by
      rw [chunkCount, maxNullDataPayloadLen] at *
      omega
    have hchunk : chunk content 0 = content := take_of_length_le hshort
    rw [hone, range_one]
    cases h : nullDataScript txType content <;> simp [hchunk, h] <;> rfl
  · rfl

/-- The script was made from the chunk, is read back as that chunk and is not too long. -/
def Carries (txType : ℕ) (script : Script) (chunk : Bytes) : Prop :=
  nullDataScript txType chunk = .ok script ∧
    (readNullDataScript script).map (fun r => (r.1.code, r.2)) = some (txType, chunk) ∧
    script.length ≤ maxDataCarrierSize

/-- Every payload of a known type is accepted, and the scripts of an accepted payload carry its
chunks in order. -/
theorem nullDataScripts_read (hne : content ≠ []) :
    (∀ t : TxType, ∃ scripts, nullDataScripts t.code content = .ok scripts) ∧
      ∀ txType scripts, nullDataScripts txType content = .ok scripts →
        ∃ chunks : List Bytes, chunks.flatten = content ∧ Forall₂ (Carries txType) scripts chunks := by
  refine ⟨fun t => ?_, fun txType scripts h => ?_⟩
  · rw [nullDataScripts_eq hne]
    obtain ⟨k, hk⟩ := contentTypeOf_code t
    refine exists_mapM_ok fun i _ => ?_
    obtain ⟨b, heq, -⟩ := nullDataScript_eq hk (length_take_le _ _)
    exact ⟨_, heq⟩
  · rw [nullDataScripts_eq hne] at h
    obtain ⟨rfl, hall⟩ := mapM_eq_ok [] h
    refine ⟨(range (chunkCount content)).map (chunk content), ?_, ?_⟩
    · rw [flatten_chunk, chunkCount]
      apply take_of_length_le
      rw [maxNullDataPayloadLen]
      omega
    · rw [forall₂_map_left_iff, forall₂_map_right_iff, forall₂_same]
      intro i hi
      have hchunk : chunk content i ≠ [] := by
        rw [mem_range, chunkCount, maxNullDataPayloadLen] at hi
        rw [chunk, maxNullDataPayloadLen, Ne, take_eq_nil_iff, drop_eq_nil_iff]
        omega
      obtain ⟨hread, hsize, -⟩ := nullDataScript_read hchunk (hall i hi)
      exact ⟨hall i hi, hread, hsize⟩

theorem nullDataScripts_five_read : ∃ chunks : List Bytes, chunks.flatten = [5] ∧
    Forall₂ (Carries TxType.invoke.code) [[opReturn, 0x60, 1, 32, 0x55]] chunks :=
  (nullDataScripts_read (by decide)).2 _ _ rfl

end SatoshiNet.Mining
