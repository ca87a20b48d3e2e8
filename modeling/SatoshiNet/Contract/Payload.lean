import SatoshiNet.Lib.Spelling
import SatoshiNet.Mining.BlockOrder

/-!
The payloads of contract transactions as bytes.  The encoders accept every value; the decoders accept
exactly what the encoders make of the values they would return.
-/

namespace SatoshiNet.Contract

open Lib Mining List
open Reader

structure DeployPayload where
  type : UInt8
  subType : Bytes
  version : UInt32
  gasLimit : Int64
  deployNonce : UInt64
  flags : UInt32
  contractContent : Bytes

structure InvokePayload where
  gasLimit : Int64
  callNonce : UInt64
  (action param : Bytes)
deriving DecidableEq

structure ResultPayload where
  status : UInt8
  resultCount : UInt16
  errorDigest : BitVec 256 := 0
  hasErrorInfo : Bool := false

structure StateRootPayload where
  stateRoot : BitVec 256

inductive PayloadField
  | contractType | subtype | deployVersion | gasLimit | nonce | deployFlags | contractContent
  | action | param | resultStatus | resultCount | resultFlags | errorDigest | stateRoot
deriving DecidableEq

inductive FieldError
  | read (cause : ReadError)
  | noncanonicalVarint | gasOverflow
deriving DecidableEq

inductive PayloadError
  | payloadVersion (cause : FieldError)
  | decode (txType : TxType) (field : PayloadField) (cause : FieldError)
  | unsupportedVersion (version : UInt8)
  | versionOverflow | flagsOverflow
  | unknownFlags (flags : UInt32)
  | unknownStatus (status : UInt8)
  | countOverflow
  | unknownResultFlags (flags : UInt8)
  | trailingBytes (txType : TxType)
deriving DecidableEq

def payloadVersionV1 : UInt8 := 1

def knownContractFlags : UInt32 := 1

def resultStatusInvalid : UInt8 := 3

/-! ### Encoders -/

def writeBytes (v : Bytes) : Bytes := putUvarint v.length ++ v

def writeGasUvarint (v : Int64) : Bytes := putUvarint (if v < 0 then 0 else v.toInt.toNat)

def fixed32 (v : BitVec 256) : Bytes := beBytes 32 v.toNat

def encodeDeployPayload (p : DeployPayload) : Bytes :=
  [payloadVersionV1] ++ ([p.type] ++ (writeBytes p.subType ++ (putUvarint p.version.toNat ++
    (writeGasUvarint p.gasLimit ++ (putUvarint p.deployNonce.toNat ++ (putUvarint p.flags.toNat ++
      writeBytes p.contractContent))))))

def encodeInvokePayload (p : InvokePayload) : Bytes :=
  [payloadVersionV1] ++ (writeGasUvarint p.gasLimit ++ (putUvarint p.callNonce.toNat ++
    (writeBytes p.action ++ writeBytes p.param)))

def writeErrorInfo (p : ResultPayload) : Bytes :=
  if p.hasErrorInfo then [1] ++ fixed32 p.errorDigest else [0]

def encodeResultPayload (p : ResultPayload) : Bytes :=
  [payloadVersionV1] ++ ([p.status] ++ (putUvarint p.resultCount.toNat ++ writeErrorInfo p))

def encodeStateRootPayload (p : StateRootPayload) : Bytes := [payloadVersionV1] ++ fixed32 p.stateRoot

section Decode

open Reader

def readUvarintField : Reader FieldError ℕ := canonicalUvarint .read .noncanonicalVarint

def readByteField : Reader FieldError UInt8 := byte.mapError .read

def readBytesField : Reader FieldError Bytes := do
  let l ← readUvarintField
  let rest ← left
  check (l ≤ rest) (.read .unexpectedEOF)
  (full l).mapError .read

def readGasInt64 (v : ℕ) : Except FieldError Int64 :=
  if v < 2 ^ 63 then .ok (Int64.ofNat v) else .error .gasOverflow

def readGasField : Reader FieldError Int64 := do
  let v ← readUvarintField
  ofResult (readGasInt64 v)

def readFixed32 : Reader FieldError (BitVec 256) := do
  let bytes ← (full 32).mapError .read
  pure (BitVec.ofNat 256 (beNat bytes))

def newPayloadReader : Reader PayloadError Unit := do
  let version ← readByteField.mapError .payloadVersion
  check (version = payloadVersionV1) (.unsupportedVersion version)

variable (txType : TxType)

def readField {α : Type} (field : PayloadField) (r : Reader FieldError α) : Reader PayloadError α :=
  r.mapError (.decode txType field)

def decodePayload {α : Type} (r : Reader PayloadError α) (data : Bytes) : Except PayloadError α := do
  let (p, rest) ← r data
  require (rest = []) (.trailingBytes txType)
  .ok p

def validateFlags (flags : UInt32) : Except PayloadError Unit :=
  require (flags &&& ~~~knownContractFlags = 0) (.unknownFlags flags)

def readDeployPayload : Reader PayloadError DeployPayload := do
  newPayloadReader
  let contractType ← readField .deploy .contractType readByteField
  let subtype ← readField .deploy .subtype readBytesField
  let version ← readField .deploy .deployVersion readUvarintField
  check (version < 2 ^ 32) .versionOverflow
  let gasLimit ← readField .deploy .gasLimit readGasField
  let nonce ← readField .deploy .nonce readUvarintField
  let flags ← readField .deploy .deployFlags readUvarintField
  check (flags < 2 ^ 32) .flagsOverflow
  ofResult (validateFlags (.ofNat flags))
  let content ← readField .deploy .contractContent readBytesField
  pure ⟨contractType, subtype, .ofNat version, gasLimit, .ofNat nonce, .ofNat flags, content⟩

def decodeDeployPayload : Bytes → Except PayloadError DeployPayload :=
  decodePayload .deploy readDeployPayload

def readInvokePayload : Reader PayloadError InvokePayload := do
  newPayloadReader
  let gasLimit ← readField .invoke .gasLimit readGasField
  let nonce ← readField .invoke .nonce readUvarintField
  let action ← readField .invoke .action readBytesField
  let param ← readField .invoke .param readBytesField
  pure ⟨gasLimit, .ofNat nonce, action, param⟩

def decodeInvokePayload : Bytes → Except PayloadError InvokePayload :=
  decodePayload .invoke readInvokePayload

def readErrorInfo : Reader PayloadError (Bool × BitVec 256) := do
  let flags ← readField .result .resultFlags readByteField
  check (flags &&& ~~~1 = 0) (.unknownResultFlags flags)
  if flags &&& 1 = 1 then do
    let digest ← readField .result .errorDigest readFixed32
    pure (true, digest)
  else pure (false, 0)

def readResultPayload : Reader PayloadError ResultPayload := do
  newPayloadReader
  let status ← readField .result .resultStatus readByteField
  check (status ≤ resultStatusInvalid) (.unknownStatus status)
  let count ← readField .result .resultCount readUvarintField
  check (count < 2 ^ 16) .countOverflow
  let info ← readErrorInfo
  pure ⟨status, .ofNat count, info.2, info.1⟩

def decodeResultPayload : Bytes → Except PayloadError ResultPayload :=
  decodePayload .result readResultPayload

def readStateRootPayload : Reader PayloadError StateRootPayload := do
  newPayloadReader
  let root ← readField .coinbaseStateRoot .stateRoot readFixed32
  pure ⟨root⟩

def decodeStateRootPayload : Bytes → Except PayloadError StateRootPayload :=
  decodePayload .coinbaseStateRoot readStateRootPayload

end Decode

/-! ### What the decoders accept -/

theorem spells_readUvarintField : Spells readUvarintField (· < 2 ^ 64) putUvarint :=
  run_canonicalUvarint

theorem spells_readByteField : Spells readByteField (fun _ => True) fun b => [b] := by
  intro data b rest
  rw [readByteField, run_mapError, run_byte]
  exact (true_and _).symm.to_iff

theorem spells_readBytesField : Spells readBytesField (·.length < 2 ^ 64) writeBytes := by
  intro data bytes rest
  simp only [readBytesField, run_bind, run_left, run_check, run_mapError,
    run_full, spells_readUvarintField, decide_eq_true_eq]
  constructor
  · rintro ⟨l, mid, ⟨hl, rfl⟩, _, _, ⟨rfl, rfl⟩, _, _, ⟨-, rfl⟩, rfl, rfl⟩
    exact ⟨hl, (append_assoc _ _ _).symm⟩
  · rintro ⟨hl, rfl⟩
    refine ⟨bytes.length, bytes ++ rest, ⟨hl, append_assoc _ _ _⟩, _, _, ⟨rfl, rfl⟩, (), _,
      ⟨?_, rfl⟩, rfl, rfl⟩
    rw [length_append]
    omega

theorem spells_readGasField : Spells readGasField (0 ≤ ·) writeGasUvarint := by
  intro data gas rest
  simp only [readGasField, run_bind, run_ofResult, spells_readUvarintField, readGasInt64]
  constructor
  · rintro ⟨v, mid, ⟨-, rfl⟩, hgas, rfl⟩
    split_ifs at hgas with hv
    · cases hgas
      have hnat : (Int64.ofNat v).toInt = v := Int64.toInt_ofNat_of_lt hv
      have hnonneg : 0 ≤ Int64.ofNat v := by
        rw [Int64.le_iff_toInt_le, hnat]
        exact Int.natCast_nonneg v
      refine ⟨hnonneg, ?_⟩
      rw [writeGasUvarint, if_neg (Int64.not_lt.mpr hnonneg), hnat, Int.toNat_natCast]
  · rintro ⟨hnonneg, rfl⟩
    have hlow : 0 ≤ gas.toInt := Int64.le_iff_toInt_le.mp hnonneg
    have hhigh := gas.toInt_lt
    have hv : gas.toInt.toNat < 2 ^ 63 := by omega
    have hback : Int64.ofNat gas.toInt.toNat = gas := by
      rw [← Int64.toInt_inj, Int64.toInt_ofNat_of_lt hv]
      exact Int.toNat_of_nonneg hlow
    refine ⟨gas.toInt.toNat, rest, ⟨by omega, ?_⟩, ?_, rfl⟩
    · rw [writeGasUvarint, if_neg (Int64.not_lt.mpr hnonneg)]
    · rw [if_pos hv, hback]

theorem fixed32_eq_iff {bytes} {v} (h : bytes.length = 32) :
    BitVec.ofNat 256 (beNat bytes) = v ↔ bytes = fixed32 v := by
  constructor
  · rintro rfl
    have hlen : bytes.reverse.length = 32 := by rw [length_reverse, h]
    have hlt := leNat_lt bytes.reverse
    have hback := leBytes_leNat bytes.reverse
    rw [hlen] at hlt hback
    have hmod : beNat bytes % 2 ^ 256 = leNat bytes.reverse := Nat.mod_eq_of_lt hlt
    rw [fixed32, BitVec.toNat_ofNat, hmod, beBytes, hback, reverse_reverse]
  · rintro rfl
    rw [fixed32, beNat_beBytes v.isLt, BitVec.ofNat_toNat, BitVec.setWidth_eq]

theorem spells_readFixed32 : Spells readFixed32 (fun _ => True) fixed32 := by
  intro data v rest
  simp only [readFixed32, run_bind, run_mapError, run_full, run_pure]
  constructor
  · rintro ⟨bytes, mid, ⟨hlen, rfl⟩, hv, rfl⟩
    exact ⟨trivial, by rw [(fixed32_eq_iff hlen).mp hv.symm]⟩
  · rintro ⟨-, rfl⟩
    have hlen : (fixed32 v).length = 32 := beBytes_length 32 _
    exact ⟨fixed32 v, rest, ⟨hlen, rfl⟩, ((fixed32_eq_iff hlen).mpr rfl).symm, rfl⟩

theorem run_newPayloadReader {u data rest} :
    newPayloadReader data = .ok (u, rest) ↔ data = [payloadVersionV1] ++ rest := by
  simp only [newPayloadReader, run_bind, run_mapError, spells_readByteField, true_and,
    run_check, decide_eq_true_eq]
  constructor
  · rintro ⟨b, mid, rfl, rfl, rfl⟩
    rfl
  · rintro rfl
    exact ⟨_, _, rfl, rfl, rfl⟩

theorem spells_readField {α : Type} {r} {P : α → Prop} {enc} (h : Spells r P enc) (txType : TxType)
    (field) : Spells (readField txType field r) P enc :=
  h.mapError

theorem decodePayload_eq_ok {α : Type} {txType : TxType} {r} {P : α → Prop} {enc}
    (h : Spells r P enc) {data} {p : α} :
    decodePayload txType r data = .ok p ↔ P p ∧ data = enc p := by
  simp only [decodePayload, bind_eq_ok, require_eq_ok, decide_eq_true_eq, Except.ok.injEq]
  constructor
  · rintro ⟨⟨q, rest⟩, hread, _, rfl, rfl⟩
    have hspelled := h.mp hread
    rwa [append_nil] at hspelled
  · rintro ⟨hP, rfl⟩
    exact ⟨(p, []), h.mpr ⟨hP, (append_nil _).symm⟩, ⟨⟩, rfl, rfl⟩

structure DeployPayload.Lossless (p : DeployPayload) : Prop where
  subType : p.subType.length < 2 ^ 64
  gasLimit : 0 ≤ p.gasLimit
  flags : p.flags &&& ~~~knownContractFlags = 0
  contractContent : p.contractContent.length < 2 ^ 64

structure InvokePayload.Lossless (p : InvokePayload) : Prop where
  gasLimit : 0 ≤ p.gasLimit
  action : p.action.length < 2 ^ 64
  param : p.param.length < 2 ^ 64

structure ResultPayload.Lossless (p : ResultPayload) : Prop where
  status : p.status ≤ resultStatusInvalid
  errorDigest : p.hasErrorInfo = false → p.errorDigest = 0

theorem spells_readDeployPayload :
    Spells readDeployPayload DeployPayload.Lossless encodeDeployPayload := by
  intro data p rest
  simp only [readDeployPayload, run_bind, run_newPayloadReader, run_check,
    run_ofResult, run_pure, validateFlags, require_eq_ok, decide_eq_true_eq,
    spells_readField spells_readByteField, spells_readField spells_readBytesField,
    spells_readField spells_readUvarintField, spells_readField spells_readGasField, true_and]
  constructor
  · rintro ⟨_, _, rfl, type, _, rfl, subType, _, ⟨hsub, rfl⟩, version, _, ⟨-, rfl⟩, _, _,
      ⟨hversion, rfl⟩, gasLimit, _, ⟨hgas, rfl⟩, nonce, _, ⟨hnonce, rfl⟩, flags, _, ⟨-, rfl⟩, _, _,
      ⟨hflags, rfl⟩, _, _, ⟨hknown, rfl⟩, content, _, ⟨hcontent, rfl⟩, rfl, rfl⟩
    refine ⟨⟨hsub, hgas, hknown, hcontent⟩, ?_⟩
    simp only [encodeDeployPayload, append_assoc, UInt32.toNat_ofNat', UInt64.toNat_ofNat',
      Nat.mod_eq_of_lt hversion, Nat.mod_eq_of_lt hnonce, Nat.mod_eq_of_lt hflags]
  · rintro ⟨h, rfl⟩
    have hversion := p.version.toNat_lt
    have hnonce := p.deployNonce.toNat_lt
    have hflags := p.flags.toNat_lt
    simp only [encodeDeployPayload, append_assoc]
    refine ⟨(), _, rfl, p.type, _, rfl, p.subType, _, ⟨h.subType, rfl⟩, p.version.toNat, _,
      ⟨by omega, rfl⟩, (), _, ⟨hversion, rfl⟩, p.gasLimit, _, ⟨h.gasLimit, rfl⟩, p.deployNonce.toNat, _,
      ⟨hnonce, rfl⟩, p.flags.toNat, _, ⟨by omega, rfl⟩, (), _, ⟨hflags, rfl⟩, (), _, ⟨?_, rfl⟩,
      p.contractContent, _, ⟨h.contractContent, rfl⟩, ?_, rfl⟩
    · rw [UInt32.ofNat_toNat]
      exact h.flags
    · rw [UInt32.ofNat_toNat, UInt64.ofNat_toNat, UInt32.ofNat_toNat]

theorem spells_readInvokePayload :
    Spells readInvokePayload InvokePayload.Lossless encodeInvokePayload := by
  intro data p rest
  simp only [readInvokePayload, run_bind, run_newPayloadReader, run_pure,
    spells_readField spells_readBytesField, spells_readField spells_readUvarintField,
    spells_readField spells_readGasField]
  constructor
  · rintro ⟨_, _, rfl, gasLimit, _, ⟨hgas, rfl⟩, nonce, _, ⟨hnonce, rfl⟩, action, _, ⟨haction, rfl⟩,
      param, _, ⟨hparam, rfl⟩, rfl, rfl⟩
    refine ⟨⟨hgas, haction, hparam⟩, ?_⟩
    simp only [encodeInvokePayload, append_assoc, UInt64.toNat_ofNat', Nat.mod_eq_of_lt hnonce]
  · rintro ⟨h, rfl⟩
    simp only [encodeInvokePayload, append_assoc]
    refine ⟨(), _, rfl, p.gasLimit, _, ⟨h.gasLimit, rfl⟩, p.callNonce.toNat, _,
      ⟨p.callNonce.toNat_lt, rfl⟩, p.action, _, ⟨h.action, rfl⟩, p.param, _, ⟨h.param, rfl⟩, ?_, rfl⟩
    rw [UInt64.ofNat_toNat]

theorem flags_cases {flags : UInt8} (h : flags &&& ~~~1 = 0) : flags = 0 ∨ flags = 1 := by
  have hbits : ∀ b : BitVec 8, b &&& ~~~1#8 = 0#8 → b = 0#8 ∨ b = 1#8 := by decide
  exact (hbits flags.toBitVec (congrArg UInt8.toBitVec h)).imp UInt8.toBitVec_inj.mp
    UInt8.toBitVec_inj.mp

theorem spells_readErrorInfo : Spells readErrorInfo (fun info => info.1 = false → info.2 = 0)
    fun info => if info.1 then [1] ++ fixed32 info.2 else [0] := by
  intro data info rest
  simp only [readErrorInfo, run_bind, run_check, decide_eq_true_eq,
    spells_readField spells_readByteField, true_and]
  constructor
  · rintro ⟨flags, _, rfl, _, _, ⟨hknown, rfl⟩, h⟩
    obtain rfl | rfl := flags_cases hknown
    · rw [if_neg (by decide)] at h
      obtain ⟨rfl, rfl⟩ := run_pure.mp h
      exact ⟨fun _ => rfl, rfl⟩
    rw [if_pos (by decide)] at h
    obtain ⟨digest, _, hdigest, hpure⟩ := run_bind.mp h
    obtain ⟨-, rfl⟩ := (spells_readField spells_readFixed32 _ _).mp hdigest
    obtain ⟨rfl, rfl⟩ := run_pure.mp hpure
    refine ⟨fun h => Bool.noConfusion h, ?_⟩
    rw [if_pos rfl, append_assoc]
  · rintro ⟨hzero, rfl⟩
    obtain ⟨hasInfo, digest⟩ := info
    cases hasInfo with
    | false =>
      obtain rfl : digest = 0 := hzero rfl
      refine ⟨0, rest, rfl, (), rest, ⟨by decide, rfl⟩, ?_⟩
      rw [if_neg (by decide)]
      exact run_pure.mpr ⟨rfl, rfl⟩
    | true =>
      refine ⟨1, fixed32 digest ++ rest, rfl, (), _, ⟨by decide, rfl⟩, ?_⟩
      rw [if_pos (by decide), run_bind]
      exact ⟨digest, rest, (spells_readField spells_readFixed32 _ _).mpr ⟨trivial, rfl⟩,
        run_pure.mpr ⟨rfl, rfl⟩⟩

theorem spells_readResultPayload :
    Spells readResultPayload ResultPayload.Lossless encodeResultPayload := by
  intro data p rest
  simp only [readResultPayload, run_bind, run_newPayloadReader, run_check,
    run_pure, decide_eq_true_eq, spells_readErrorInfo, spells_readField spells_readByteField,
    spells_readField spells_readUvarintField, true_and]
  constructor
  · rintro ⟨_, _, rfl, status, _, rfl, _, _, ⟨hstatus, rfl⟩, count, _, ⟨-, rfl⟩, _, _,
      ⟨hcount, rfl⟩, info, _, ⟨hinfo, rfl⟩, rfl, rfl⟩
    refine ⟨⟨hstatus, hinfo⟩, ?_⟩
    simp only [encodeResultPayload, writeErrorInfo, append_assoc, UInt16.toNat_ofNat',
      Nat.mod_eq_of_lt hcount]
  · rintro ⟨h, rfl⟩
    have hcount := p.resultCount.toNat_lt
    simp only [encodeResultPayload, writeErrorInfo, append_assoc]
    refine ⟨(), _, rfl, p.status, _, rfl, (), _, ⟨h.status, rfl⟩, p.resultCount.toNat, _, ⟨by omega,
      rfl⟩, (), _, ⟨hcount, rfl⟩, (p.hasErrorInfo, p.errorDigest), _, ⟨h.errorDigest, rfl⟩, ?_, rfl⟩
    rw [UInt16.ofNat_toNat]

theorem spells_readStateRootPayload :
    Spells readStateRootPayload (fun _ => True) encodeStateRootPayload := by
  intro data p rest
  simp only [readStateRootPayload, run_bind, run_newPayloadReader, run_pure,
    spells_readField spells_readFixed32, true_and]
  constructor
  · rintro ⟨_, _, rfl, root, _, rfl, rfl, rfl⟩
    exact (append_assoc _ _ _).symm
  · rintro rfl
    exact ⟨(), _, append_assoc _ _ _, p.stateRoot, rest, rfl, rfl, rfl⟩

/-- Every decoder accepts exactly the encodings of the values that its encoder keeps. -/
theorem payload_codecs_are_exact (data : Bytes) :
    (∀ p, decodeDeployPayload data = .ok p ↔ p.Lossless ∧ data = encodeDeployPayload p) ∧
    (∀ p, decodeInvokePayload data = .ok p ↔ p.Lossless ∧ data = encodeInvokePayload p) ∧
    (∀ p, decodeResultPayload data = .ok p ↔ p.Lossless ∧ data = encodeResultPayload p) ∧
    (∀ p, decodeStateRootPayload data = .ok p ↔ data = encodeStateRootPayload p) := by
  refine ⟨fun p => decodePayload_eq_ok spells_readDeployPayload,
    fun p => decodePayload_eq_ok spells_readInvokePayload,
    fun p => decodePayload_eq_ok spells_readResultPayload, fun p => ?_⟩
  exact (decodePayload_eq_ok spells_readStateRootPayload).trans (iff_of_eq (true_and _))

theorem negative_gas_is_lost :
    decodeInvokePayload (encodeInvokePayload ⟨-1, 0, [], []⟩) = .ok ⟨0, 0, [], []⟩ := by
  decide +kernel

end SatoshiNet.Contract
