import Milhouse.Core.Canonical
import Milhouse.Core.Clock
import Mathlib.Data.List.Sort

/-!
# Milhouse — the self-describing segment header and the segment formats the store sees

A segment file is a header line and ordered frame lines. `SegmentHeaderV1` carries the proof that
its fields pass `__post_init__`, so an invalid header cannot be built. The store modules need of
the wire only what `SegmentFormat` says: building bytes, the trusted read of bytes, a digest, and
that a trusted read gives back the header and the expiries that were written. The concrete wire of
the writer and the reader is one such format.
-/

namespace Milhouse

abbrev Bytes := List UInt8

/-- A failure of the spool: a stable code and a static message. -/
structure SpoolError where
  code : String
  message : String
  deriving DecidableEq, Repr

/-! ## Identifiers -/

/-- `[A-Za-z0-9]`. -/
def isAlnum (c : Char) : Bool :=
  ('A' ≤ c && c ≤ 'Z') || ('a' ≤ c && c ≤ 'z') || ('0' ≤ c && c ≤ '9')

/-- `[A-Za-z0-9][A-Za-z0-9._-]{0,rest}`, matched in full. -/
def matchesId (rest : Nat) (text : String) : Bool :=
  match text.toList with
  | [] => false
  | c :: cs =>
      isAlnum c && cs.length ≤ rest && cs.all fun x => isAlnum x || x = '.' || x = '_' || x = '-'

/-- `BATCH_ID_PATTERN`. -/
def matchesBatchId (text : String) : Bool := matchesId 127 text

/-- `EXPORTER_ID_PATTERN`. -/
def matchesExporterId (text : String) : Bool := matchesId 63 text

/-- `_TARGET_ID_PATTERN`. -/
def matchesTargetId (text : String) : Bool := matchesId 255 text

/-- `[0-9a-f]{64}`. -/
def matchesSha256 (text : String) : Bool :=
  text.length = 64 && text.toList.all fun c => ('0' ≤ c && c ≤ '9') || ('a' ≤ c && c ≤ 'f')

/-! ## The header -/

inductive Scope where
  | installation
  | target
  deriving DecidableEq, Repr

/-- The privacy classes of a record; a canonical record is never `restricted`. -/
inductive PrivacyClass where
  | «public»
  | internal
  | sensitive
  | restricted
  deriving DecidableEq, Repr

def schemaVersion : Nat := 1
def frameVersion : Nat := 1
def maxRetentionDays : Nat := 3650
def maxSegmentFileBytes : Nat := 64 * 1024 * 1024
def maxSegmentFrames : Nat := 1000000
def maxHeaderLineBytes : Nat := 8192
def maxFrameLineBytes : Nat := 262144 + 1024

/-- The fields of a segment header. -/
structure HeaderFields where
  batchId : String
  configGeneration : String
  scope : Scope
  targetId : Option String
  privacyClass : PrivacyClass
  retentionDays : Nat
  requiredExporters : List String
  recordCount : Nat
  contentSha256 : String
  deriving DecidableEq, Repr

/-- Strictly increasing, which is `list(xs) == sorted(set(xs))`. -/
def strictlySorted : List String → Bool
  | a :: b :: rest => a < b && strictlySorted (b :: rest)
  | _ => true

/-- `SegmentHeaderV1.__post_init__`, check by check. -/
def HeaderFields.check (h : HeaderFields) : Except SpoolError Unit := do
  if !matchesBatchId h.batchId then
    throw ⟨"MH_SPOOL_BATCH_ID", "a bounded safe batch id is required"⟩
  if !matchesSha256 h.configGeneration then
    throw ⟨"MH_SPOOL_CONFIG_GENERATION",
      "a 64-hex configuration-generation digest is required"⟩
  match h.scope, h.targetId with
  | .target, some target =>
      if !matchesTargetId target then
        throw ⟨"MH_SPOOL_TARGET", "target scope requires a bounded target id"⟩
  | .target, none => throw ⟨"MH_SPOOL_TARGET", "target scope requires a bounded target id"⟩
  | .installation, some _ =>
      throw ⟨"MH_SPOOL_TARGET", "installation scope forbids a target id"⟩
  | .installation, none => pure ()
  if h.privacyClass = .restricted then
    throw ⟨"MH_SPOOL_PRIVACY", "a non-restricted privacy class is required"⟩
  if !(0 < h.retentionDays && h.retentionDays ≤ maxRetentionDays) then
    throw ⟨"MH_SPOOL_RETENTION", "a bounded positive retention is required"⟩
  if !h.requiredExporters.all matchesExporterId then
    throw ⟨"MH_SPOOL_EXPORTERS", "each exporter id must be bounded safe text"⟩
  if !strictlySorted h.requiredExporters then
    throw ⟨"MH_SPOOL_EXPORTERS", "required exporters must be sorted and unique"⟩
  if !(h.recordCount ≤ maxCanonicalInt) then
    throw ⟨"MH_SPOOL_COUNT", "a bounded record count is required"⟩
  if !matchesSha256 h.contentSha256 then
    throw ⟨"MH_SPOOL_DIGEST", "a lowercase hex sha-256 digest is required"⟩

/-- A header that passed its checks. -/
structure SegmentHeaderV1 extends HeaderFields where
  valid : toHeaderFields.check = .ok ()
  deriving DecidableEq

theorem SegmentHeaderV1.matchesBatchId (h : SegmentHeaderV1) :
    Milhouse.matchesBatchId h.batchId = true := by
  have hvalid := h.valid
  unfold HeaderFields.check at hvalid
  cases hid : Milhouse.matchesBatchId h.batchId with
  | true => rfl
  | false => simp [hid, throw, throwThe, MonadExceptOf.throw, bind, Except.bind] at hvalid

/-! ## What the store needs of the wire -/

/-- A parsed segment: its header, its frames, and the size and digest of its bytes. -/
structure ParsedSegment (Frame : Type) where
  header : SegmentHeaderV1
  frames : List Frame
  byteSize : Nat
  fileSha256 : String

/-- A segment format: how bytes are built and read back as trusted state. The laws are what the
store relies on: a read reports the size and the digest of the bytes it read, a batch id is well
formed, and bytes that were built and are accepted give back the header and the expiries. -/
structure SegmentFormat where
  Frame : Type
  /-- `frame.batch_id` -/
  batchId : Frame → String
  /-- `record.expires_at` -/
  expiresAt : Frame → Stamp
  /-- `spool_frame_line` -/
  line : Frame → Bytes
  sha256 : Bytes → String
  /-- `spool_content_sha256` -/
  contentSha256 : List Bytes → String
  /-- `build_segment_bytes` -/
  build : SegmentHeaderV1 → List Frame → Except SpoolError Bytes
  /-- `parse_segment_bytes` followed by the identity check of every record -/
  read : Bytes → Except SpoolError (ParsedSegment Frame)
  read_size : ∀ {b s}, read b = .ok s → s.byteSize = b.length ∧ s.fileSha256 = sha256 b
  read_build : ∀ {h fs b s}, build h fs = .ok b → read b = .ok s →
    s.header = h ∧ s.frames.map expiresAt = fs.map expiresAt
  build_nonempty : ∀ {h fs b}, build h fs = .ok b → b ≠ []

/-! ## A format of one segment

Its one segment has a single frame and is written as a single byte. Concrete runs use it. -/

/-- 64 zeros. -/
def zeroDigest : String := "0000000000000000000000000000000000000000000000000000000000000000"

def sampleHeader : SegmentHeaderV1 where
  batchId := "b1"
  configGeneration := zeroDigest
  scope := .installation
  targetId := none
  privacyClass := .internal
  retentionDays := 1
  requiredExporters := ["x"]
  recordCount := 1
  contentSha256 := zeroDigest
  valid := by decide +kernel

/-- The expiry of the sample frame. -/
def sampleExpiry : Stamp := 5

/-- A digest that tells all contents apart: each byte as one character. -/
def sampleDigest (content : Bytes) : String := String.ofList (content.map fun b => Char.ofNat b.toNat)

theorem sampleDigest_injective {content other : Bytes}
    (h : sampleDigest other = sampleDigest content) : other = content := by
  refine List.map_injective_iff.mpr ?_ (String.ofList_injective h)
  intro b c hbc
  have hnat : ∀ n < 256, (Char.ofNat n).toNat = n := by decide +kernel
  have := congrArg Char.toNat hbc
  rw [hnat _ b.toNat_lt, hnat _ c.toNat_lt] at this
  exact UInt8.toNat_inj.mp this

def sampleFormat : SegmentFormat where
  Frame := Stamp
  batchId _ := "b1"
  expiresAt frame := frame
  line _ := [0]
  sha256 := sampleDigest
  contentSha256 _ := zeroDigest
  build h fs := if h = sampleHeader ∧ fs = [sampleExpiry] then .ok [0]
    else .error ⟨"MH_SPOOL_DIGEST", "the header digest does not match its frames"⟩
  read content := if content = [0] then .ok ⟨sampleHeader, [sampleExpiry], 1, sampleDigest [0]⟩
    else .error ⟨"MH_SPOOL_SEGMENT", "a segment line is not canonical"⟩
  read_size := by
    intro content parsed h
    split at h
    · rename_i hcontent
      cases h
      exact ⟨by rw [hcontent]; rfl, by rw [hcontent]⟩
    · cases h
  read_build := by
    intro h fs content parsed hbuild hread
    split at hbuild
    · rename_i hsample
      cases hbuild
      cases hread
      exact ⟨hsample.1.symm, by rw [hsample.2]⟩
    · cases hbuild
  build_nonempty := by
    intro h fs content hbuild
    split at hbuild
    · cases hbuild
      simp
    · cases hbuild

end Milhouse
