import Milhouse.Core.Canonical
import Milhouse.Lib.Fallible
import Milhouse.Logs.Wire

/-!
# Milhouse — the header and the trailer of a log segment

A header opens a segment; a trailer closes it and certifies its count, its digest and its deadline.
`certifies` says what a trailer must agree with to be read back.

* **`parseHeaderLine_headerLine`**, **`parseHeaderLine_eq_ok`** — a line is read as a header exactly
  where it is the line of that header;
* **`parseTrailerLine_trailerLine`** — a trailer that certifies its segment is read back;
* `isTrailerLine_eventLine`, `isTrailerLine_trailerLine` — trailers are told from events.
-/

namespace Milhouse

open Json

variable {rt : LogRuntime}

/-! ## The header -/

/-- `StructuredLogHeaderV1`. -/
structure StructuredLogHeaderV1 where
  sequence : Nat
  openedAt : Stamp
  retentionDays : Nat
  validSequence : 0 < sequence ∧ sequence ≤ maxCanonicalInt
  validTime : openedAt < stampLimit
  validRetention : 1 ≤ retentionDays ∧ retentionDays ≤ maxLogRetentionDays

/-- The constructor, on a stamp. -/
def StructuredLogHeaderV1.make (sequence openedAt retentionDays : Nat) :
    Except LoggingError StructuredLogHeaderV1 :=
  if hsequence : 0 < sequence ∧ sequence ≤ maxCanonicalInt then
    if htime : openedAt < stampLimit then
      if hretention : 1 ≤ retentionDays ∧ retentionDays ≤ maxLogRetentionDays then
        .ok ⟨sequence, openedAt, retentionDays, hsequence, htime, hretention⟩
      else .error ⟨"MH_LOG_HEADER_RETENTION", "a bounded positive retention is required"⟩
    else .error ⟨"MH_LOG_HEADER_TIME", "an aware UTC timestamp is required"⟩
  else .error ⟨"MH_LOG_SEQUENCE", "a positive signed-64 sequence is required"⟩

/-- The members of a header line, their keys in canonical order. -/
def StructuredLogHeaderV1.members (rt : LogRuntime) (header : StructuredLogHeaderV1) :
    List (List Char × Value rt.fractions) :=
  [member "line" (.str "header".toList),
    member "opened_at" (.str (timestampText header.openedAt)),
    member "retention_days" (.int header.retentionDays), member "schema" (.int 1),
    member "scope" (.str "installation".toList), member "sequence" (.int header.sequence)]

def StructuredLogHeaderV1.payload (rt : LogRuntime) (header : StructuredLogHeaderV1) :
    Value rt.fractions :=
  .obj (header.members rt)

/-- `structured_log_header_line`; the byte bound it checks is met by every header. -/
def headerLine (rt : LogRuntime) (header : StructuredLogHeaderV1) : LogText :=
  (header.payload rt).text ++ ['\n']

def headerFail (message : String) : LoggingError := ⟨"MH_LOG_HEADER", message⟩

def headerKeys : List String :=
  ["line", "opened_at", "retention_days", "schema", "scope", "sequence"]

/-- The header a payload spells; the fields are checked in the order of the source. -/
def readHeader (field : String → Value rt.fractions) : Except LoggingError StructuredLogHeaderV1 :=
  if isText "header" (field "line") && isOne (field "schema") &&
      isText "installation" (field "scope") then
    match field "sequence", field "retention_days" with
    | .int sequence, .int retention =>
        (readTimestamp (headerFail "a canonical UTC millisecond timestamp is required")
          (field "opened_at")).bind fun openedAt =>
          -- a number below zero is as far out of range as zero is
          (StructuredLogHeaderV1.make sequence.toNat openedAt.1 retention.toNat).mapError fun _ =>
            headerFail "the header line fails field validation"
    | _, _ => .error (headerFail "the header carries non-integer fields")
  else .error (headerFail "the header line is not a v1 installation header")

/-- `_parse_header_line`. -/
def parseHeaderLine (rt : LogRuntime) (line : LogText) :
    Except LoggingError StructuredLogHeaderV1 :=
  if maxLogHeaderLineBytes < line.length then
    .error (headerFail "the header line exceeds its byte bound")
  else
    match (load line : Option (Value rt.fractions)) with
    | some (.obj members) =>
        if hasKeys headerKeys members then
          (readHeader (fieldOf members)).bind fun header =>
            if headerLine rt header = line then .ok header
            else .error (headerFail "the header line is not canonical")
        else .error (headerFail "the header line has an unexpected field set")
    | _ => .error (headerFail "a structured-log line must be a single JSON object")

/-! ## The trailer -/

/-- `StructuredLogTrailerV1`. -/
structure StructuredLogTrailerV1 where
  sequence : Nat
  closedAt : Stamp
  lastEventAt : Option Stamp
  eventCount : Nat
  contentSha256 : List Char
  expiresAt : Stamp
  validSequence : 0 < sequence ∧ sequence ≤ maxCanonicalInt
  validClosed : closedAt < stampLimit
  validExpiry : expiresAt < stampLimit
  validCount : eventCount ≤ maxCanonicalInt
  validDigest : isSha256Hex contentSha256 = true
  validLast : lastEventAt.all (· < stampLimit) = true
  lastMatches : lastEventAt.isSome = true ↔ eventCount ≠ 0

/-- The constructor, on stamps. -/
def StructuredLogTrailerV1.make (sequence closedAt : Nat) (lastEventAt : Option Nat)
    (eventCount : Nat) (contentSha256 : List Char) (expiresAt : Nat) :
    Except LoggingError StructuredLogTrailerV1 :=
  if hsequence : 0 < sequence ∧ sequence ≤ maxCanonicalInt then
    if htime : closedAt < stampLimit ∧ expiresAt < stampLimit then
      if hcount : eventCount ≤ maxCanonicalInt then
        if hdigest : isSha256Hex contentSha256 = true then
          if hlast : lastEventAt.all (· < stampLimit) = true ∧
              (lastEventAt.isSome = true ↔ eventCount ≠ 0) then
            .ok ⟨sequence, closedAt, lastEventAt, eventCount, contentSha256, expiresAt, hsequence,
              htime.1, htime.2, hcount, hdigest, hlast.1, hlast.2⟩
          else .error ⟨"MH_LOG_TRAILER_EVENT_TIME", "an empty segment has no last-event time"⟩
        else .error ⟨"MH_LOG_TRAILER_DIGEST", "a lowercase hex sha-256 digest is required"⟩
      else .error ⟨"MH_LOG_TRAILER_COUNT", "a bounded event count is required"⟩
    else .error ⟨"MH_LOG_TRAILER_TIME", "an aware UTC timestamp is required"⟩
  else .error ⟨"MH_LOG_SEQUENCE", "a positive signed-64 sequence is required"⟩

/-- The members of a trailer line, their keys in canonical order. -/
def StructuredLogTrailerV1.members (rt : LogRuntime) (trailer : StructuredLogTrailerV1) :
    List (List Char × Value rt.fractions) :=
  [member "closed_at" (.str (timestampText trailer.closedAt)),
    member "content_sha256" (.str trailer.contentSha256),
    member "event_count" (.int trailer.eventCount),
    member "expires_at" (.str (timestampText trailer.expiresAt)),
    member "last_event_at" (textOrNull (trailer.lastEventAt.map timestampText)),
    member "line" (.str "trailer".toList), member "schema" (.int 1),
    member "sequence" (.int trailer.sequence)]

def StructuredLogTrailerV1.payload (rt : LogRuntime) (trailer : StructuredLogTrailerV1) :
    Value rt.fractions :=
  .obj (trailer.members rt)

/-- `structured_log_trailer_line`; the byte bound it checks is met by every trailer. -/
def trailerLine (rt : LogRuntime) (trailer : StructuredLogTrailerV1) : LogText :=
  (trailer.payload rt).text ++ ['\n']

/-- `_is_trailer_line`. -/
def isTrailerLine (rt : LogRuntime) (line : LogText) : Bool :=
  line.length ≤ maxTrailerLineBytes &&
    match (load line : Option (Value rt.fractions)) with
    | some (.obj members) =>
        match member? "line" members with
        | some (.str kind) => kind = "trailer".toList
        | _ => false
    | _ => false

/-- `_bounded_expiry`: `opened_at + timedelta(days=retention_days)`. -/
def boundedExpiry (openedAt : Stamp) (retentionDays : Nat) : Except LoggingError Stamp :=
  if openedAt + retentionDays * dayMillis < stampLimit then
    .ok (openedAt + retentionDays * dayMillis)
  else .error ⟨"MH_LOG_RETENTION", "the segment expiry is out of range"⟩

def retentionFail (message : String) : LoggingError := ⟨"MH_LOG_RETENTION", message⟩

def timeFail : LoggingError := retentionFail "a canonical UTC millisecond timestamp is required"

/-- A stamp or null. -/
def readStampOrNull : Value rt.fractions →
    Except LoggingError {stamp : Option Stamp // stamp.all (· < stampLimit) = true}
  | .null => .ok ⟨none, rfl⟩
  | value => (readTimestamp timeFail value).map fun stamp => ⟨some stamp.1, decide_eq_true stamp.2⟩

/-- `str(payload["content_sha256"])`, which only a string or an integer gives 64 hexadecimal digits
to. -/
def digestText : Value rt.fractions → List Char
  | .str text => text
  | .int value => intText value
  | _ => []

/-- The trailer a payload spells, once its events are valid; the fields are checked in the order of
the source. -/
def readTrailer (field : String → Value rt.fractions) :
    Except LoggingError StructuredLogTrailerV1 :=
  match field "sequence", field "event_count" with
  | .int sequence, .int count =>
      (readTimestamp timeFail (field "closed_at")).bind fun closedAt =>
      (readTimestamp timeFail (field "expires_at")).bind fun expiresAt =>
      (readStampOrNull (field "last_event_at")).bind fun lastEventAt =>
        if 0 ≤ count then
          (StructuredLogTrailerV1.make sequence.toNat closedAt.1 lastEventAt.1 count.toNat
            (digestText (field "content_sha256")) expiresAt.1).mapError fun _ =>
              retentionFail "the trailer line fails field validation"
        else .error (retentionFail "the trailer line fails field validation")
  | _, _ => .error (retentionFail "the trailer carries non-integer fields")

/-- Every line passes `_validate_event_line`. -/
def validEventLines (rt : LogRuntime) (lines : List LogText) : Bool :=
  lines.all fun line => (validateStructuredLogEventLine rt line).isOk

/-- The bytes a trailer certifies: the header line and the event lines. -/
def certifiedBytes (rt : LogRuntime) (header : StructuredLogHeaderV1) (events : List LogText) :
    LogText :=
  headerLine rt header ++ events.flatten

/-- A trailer agrees with the segment it closes: count, digest and captured deadline. -/
def StructuredLogTrailerV1.certifies (rt : LogRuntime) (trailer : StructuredLogTrailerV1)
    (header : StructuredLogHeaderV1) (events : List LogText) : Prop :=
  trailer.eventCount = events.length ∧
    trailer.contentSha256 = rt.sha256 (certifiedBytes rt header events) ∧
    boundedExpiry header.openedAt header.retentionDays = .ok trailer.expiresAt

/-- The agreement of a trailer that was read with its line and its segment. -/
def checkTrailer (rt : LogRuntime) (line : LogText) (header : StructuredLogHeaderV1)
    (events : List LogText) (trailer : StructuredLogTrailerV1) :
    Except LoggingError StructuredLogTrailerV1 :=
  if trailerLine rt trailer = line then
    if trailer.eventCount = events.length ∧
        trailer.contentSha256 = rt.sha256 (certifiedBytes rt header events) then
      match boundedExpiry header.openedAt header.retentionDays with
      | .error _ => .error (retentionFail "the captured deadline is out of range")
      | .ok deadline =>
          if trailer.expiresAt = deadline then .ok trailer
          else .error (retentionFail "the trailer deadline disagrees with the header")
    else .error (retentionFail "the trailer disagrees with the segment bytes")
  else .error (retentionFail "the trailer line is not canonical")

def trailerKeys : List String :=
  ["closed_at", "content_sha256", "event_count", "expires_at", "last_event_at", "line", "schema",
    "sequence"]

/-- `_parse_trailer_line`. -/
def parseTrailerLine (rt : LogRuntime) (line : LogText) (header : StructuredLogHeaderV1)
    (events : List LogText) : Except LoggingError StructuredLogTrailerV1 :=
  if maxTrailerLineBytes < line.length then
    .error (retentionFail "the trailer line exceeds its byte bound")
  else
    match (load line : Option (Value rt.fractions)) with
    | some (.obj members) =>
        if hasKeys trailerKeys members then
          if isText "trailer" (fieldOf members "line") && isOne (fieldOf members "schema") then
            if validEventLines rt events then
              (readTrailer (fieldOf members)).bind (checkTrailer rt line header events)
            else .error ⟨"MH_LOG_EVENT", "an event line is not a valid v1 internal event"⟩
          else .error (retentionFail "the trailer line is not a v1 trailer")
        else .error (retentionFail "the trailer line has an unexpected field set")
    | _ => .error (retentionFail "a structured-log line must be a single JSON object")

/-! ## Headers are read back -/

/-- The constructor accepts the fields of a header there is. -/
theorem StructuredLogHeaderV1.make_self (header : StructuredLogHeaderV1) :
    StructuredLogHeaderV1.make header.sequence header.openedAt header.retentionDays =
      .ok header := by
  unfold StructuredLogHeaderV1.make
  rw [dif_pos header.validSequence, dif_pos header.validTime, dif_pos header.validRetention]

/-- The members of a header line are read as the header. -/
theorem readHeader_members (header : StructuredLogHeaderV1) :
    readHeader (fieldOf (header.members rt)) = .ok header := by
  show (readTimestamp _ (.str (timestampText header.openedAt) : Value rt.fractions)).bind _ = _
  rw [readTimestamp_timestampText header.validTime]
  show (StructuredLogHeaderV1.make (header.sequence : Int).toNat header.openedAt
    (header.retentionDays : Int).toNat).mapError _ = _
  rw [Int.toNat_natCast, Int.toNat_natCast, StructuredLogHeaderV1.make_self]
  rfl

theorem isPlain_timestampText (stamp : Stamp) : IsPlain (timestampText stamp) := by
  have hmark : ∀ c ∈ ['-', 'T', ':', '.', 'Z'], escape c = [c] := List.all_iff_forall_prop.mp (by decide)
  intro c hc
  rcases mem_timestampText hc with hdigit | hc
  · exact escape_isDigit hdigit
  · exact hmark c hc

/-- Every header line is within its byte bound. -/
theorem length_headerLine (header : StructuredLogHeaderV1) :
    (headerLine rt header).length ≤ maxLogHeaderLineBytes := by
  have hstamp := length_quote (isPlain_timestampText header.openedAt)
  rw [length_timestampText header.validTime] at hstamp
  have hsequence := length_intText header.validSequence.2
  have hretention : (intText header.retentionDays).length ≤ 19 :=
    length_intText (header.validRetention.2.trans (by decide))
  unfold headerLine StructuredLogHeaderV1.payload StructuredLogHeaderV1.members member
  simp only [Value.text, membersText, List.length_append, List.length_cons, hstamp]
  have hline : (quote "line".toList).length = 6 := by decide
  have hopened : (quote "opened_at".toList).length = 11 := by decide
  have hheader : (quote "header".toList).length = 8 := by decide
  have hdays : (quote "retention_days".toList).length = 16 := by decide
  have hschema : (quote "schema".toList).length = 8 := by decide
  have hscope : (quote "scope".toList).length = 7 := by decide
  have hinstallation : (quote "installation".toList).length = 14 := by decide
  have hkey : (quote "sequence".toList).length = 10 := by decide
  have hone : (intText 1).length = 1 := by decide
  rw [hline, hopened, hheader, hdays, hschema, hscope, hinstallation, hkey, hone]
  unfold maxLogHeaderLineBytes
  simp only [List.length_nil]
  omega

theorem isLine_headerLine (header : StructuredLogHeaderV1) :
    Lines.IsLine '\n' (headerLine rt header) := by
  refine ⟨(header.payload rt).text, rfl, fun hmem => ?_⟩
  exact absurd (text_printable _ _ hmem) (by decide)

/-- **A written header line is read back.** -/
theorem parseHeaderLine_headerLine (header : StructuredLogHeaderV1) :
    parseHeaderLine rt (headerLine rt header) = .ok header := by
  have hload : load (headerLine rt header) = some (header.payload rt) :=
    load_text _ ['\n'] (List.all_eq_true.mp (by decide))
  have hkeys : hasKeys headerKeys (header.members rt) = true := rfl
  unfold parseHeaderLine
  rw [if_neg (Nat.not_lt_of_le (length_headerLine header)), hload]
  show (if hasKeys headerKeys (header.members rt) then
    (readHeader (fieldOf (header.members rt))).bind _ else _) = _
  rw [if_pos hkeys, readHeader_members]
  show (if headerLine rt header = headerLine rt header then _ else _) = _
  rw [if_pos rfl]

/-- Only the line of a header is read as it. -/
theorem parseHeaderLine_eq_ok {line : LogText} {header : StructuredLogHeaderV1}
    (h : parseHeaderLine rt line = .ok header) : line = headerLine rt header := by
  unfold parseHeaderLine at h
  split at h
  · cases h
  · split at h
    · split at h
      · obtain ⟨read, -, hread⟩ := Except.bind_eq_ok_iff.mp h
        split at hread
        · rename_i heq
          rw [← Except.ok.inj hread, heq]
        · cases hread
      · cases h
    · cases h

/-! ## Trailers are read back -/

/-- The constructor accepts the fields of a trailer there is. -/
theorem StructuredLogTrailerV1.make_self (trailer : StructuredLogTrailerV1) :
    StructuredLogTrailerV1.make trailer.sequence trailer.closedAt trailer.lastEventAt
      trailer.eventCount trailer.contentSha256 trailer.expiresAt = .ok trailer := by
  unfold StructuredLogTrailerV1.make
  rw [dif_pos trailer.validSequence, dif_pos ⟨trailer.validClosed, trailer.validExpiry⟩,
    dif_pos trailer.validCount, dif_pos trailer.validDigest,
    dif_pos ⟨trailer.validLast, trailer.lastMatches⟩]

theorem readStampOrNull_text {stamp : Option Stamp} (h : stamp.all (· < stampLimit) = true) :
    readStampOrNull (textOrNull (stamp.map timestampText) : Value rt.fractions) =
      .ok ⟨stamp, h⟩ := by
  cases stamp with
  | none => rfl
  | some stamp =>
      have hstamp : stamp < stampLimit := of_decide_eq_true h
      show (readTimestamp timeFail (.str (timestampText stamp) : Value rt.fractions)).map _ = _
      rw [readTimestamp_timestampText hstamp]
      rfl

/-- The members of a trailer line are read as the trailer. -/
theorem readTrailer_members (trailer : StructuredLogTrailerV1) :
    readTrailer (fieldOf (trailer.members rt)) = .ok trailer := by
  show (readTimestamp timeFail (.str (timestampText trailer.closedAt) : Value rt.fractions)).bind _
    = _
  rw [readTimestamp_timestampText trailer.validClosed]
  show (readTimestamp timeFail (.str (timestampText trailer.expiresAt) : Value rt.fractions)).bind _
    = _
  rw [readTimestamp_timestampText trailer.validExpiry]
  show (readStampOrNull (textOrNull (trailer.lastEventAt.map timestampText) :
    Value rt.fractions)).bind _ = _
  rw [readStampOrNull_text trailer.validLast]
  show (if (0 : Int) ≤ (trailer.eventCount : Int) then
    (StructuredLogTrailerV1.make (trailer.sequence : Int).toNat trailer.closedAt trailer.lastEventAt
      (trailer.eventCount : Int).toNat trailer.contentSha256 trailer.expiresAt).mapError _
    else .error (retentionFail "the trailer line fails field validation")) = _
  rw [if_pos (Int.natCast_nonneg _), Int.toNat_natCast, Int.toNat_natCast,
    StructuredLogTrailerV1.make_self]
  rfl

/-- A trailer that agrees with its segment passes the check of its own line. -/
theorem checkTrailer_trailerLine {trailer : StructuredLogTrailerV1}
    {header : StructuredLogHeaderV1} {events : List LogText}
    (h : trailer.certifies rt header events) :
    checkTrailer rt (trailerLine rt trailer) header events trailer = .ok trailer := by
  unfold checkTrailer
  rw [if_pos rfl, if_pos ⟨h.1, h.2.1⟩, h.2.2]
  show (if trailer.expiresAt = trailer.expiresAt then _ else _) = _
  rw [if_pos rfl]

/-- Every trailer line is within its byte bound. -/
theorem length_trailerLine (trailer : StructuredLogTrailerV1) :
    (trailerLine rt trailer).length ≤ maxTrailerLineBytes := by
  have htext : ∀ stamp, stamp < stampLimit → (quote (timestampText stamp)).length = 26 := by
    intro stamp hstamp
    rw [length_quote (isPlain_timestampText stamp), length_timestampText hstamp]
  have hclosed := htext _ trailer.validClosed
  have hexpires := htext _ trailer.validExpiry
  have hdigest := length_quote (isPlain_of_isSha256Hex trailer.validDigest)
  have hsixtyfour : trailer.contentSha256.length = 64 := by
    have hvalid := trailer.validDigest
    simp only [isSha256Hex, Bool.and_eq_true, decide_eq_true_eq] at hvalid
    exact hvalid.1
  have hcount := length_intText trailer.validCount
  have hsequence := length_intText trailer.validSequence.2
  have hlast : (textOrNull (trailer.lastEventAt.map timestampText) :
      Value rt.fractions).text.length ≤ 26 := by
    cases hcase : trailer.lastEventAt with
    | none =>
        show 4 ≤ 26
        decide
    | some stamp =>
        have hvalid := trailer.validLast
        rw [hcase] at hvalid
        exact (htext stamp (by simpa using hvalid)).le
  unfold trailerLine StructuredLogTrailerV1.payload StructuredLogTrailerV1.members member
  simp only [Value.text, membersText, List.length_append, List.length_cons, hclosed, hexpires,
    hdigest, hsixtyfour]
  have hk1 : (quote "closed_at".toList).length = 11 := by decide
  have hk2 : (quote "content_sha256".toList).length = 16 := by decide
  have hk3 : (quote "event_count".toList).length = 13 := by decide
  have hk4 : (quote "expires_at".toList).length = 12 := by decide
  have hk5 : (quote "last_event_at".toList).length = 15 := by decide
  have hk6 : (quote "line".toList).length = 6 := by decide
  have hk7 : (quote "trailer".toList).length = 9 := by decide
  have hk8 : (quote "schema".toList).length = 8 := by decide
  have hk9 : (quote "sequence".toList).length = 10 := by decide
  have hone : (intText 1).length = 1 := by decide
  rw [hk1, hk2, hk3, hk4, hk5, hk6, hk7, hk8, hk9, hone]
  unfold maxTrailerLineBytes
  simp only [List.length_nil]
  omega

theorem isLine_trailerLine (trailer : StructuredLogTrailerV1) :
    Lines.IsLine '\n' (trailerLine rt trailer) := by
  refine ⟨(trailer.payload rt).text, rfl, fun hmem => ?_⟩
  exact absurd (text_printable _ _ hmem) (by decide)

theorem load_trailerLine (trailer : StructuredLogTrailerV1) :
    load (trailerLine rt trailer) = some (trailer.payload rt) :=
  load_text _ ['\n'] (List.all_eq_true.mp (by decide))

/-- **A trailer that certifies its segment is read back.** -/
theorem parseTrailerLine_trailerLine {trailer : StructuredLogTrailerV1}
    {header : StructuredLogHeaderV1} {events : List LogText}
    (h : trailer.certifies rt header events) (hevents : validEventLines rt events = true) :
    parseTrailerLine rt (trailerLine rt trailer) header events = .ok trailer := by
  have hkeys : hasKeys trailerKeys (trailer.members rt) = true := rfl
  have hkind : (isText "trailer" (fieldOf (trailer.members rt) "line") &&
      isOne (fieldOf (trailer.members rt) "schema")) = true := rfl
  unfold parseTrailerLine
  rw [if_neg (Nat.not_lt_of_le (length_trailerLine trailer)), load_trailerLine]
  show (if hasKeys trailerKeys (trailer.members rt) then if (isText "trailer" _ && isOne _) = true
    then if validEventLines rt events then (readTrailer (fieldOf (trailer.members rt))).bind _
    else _ else _ else _) = _
  rw [if_pos hkeys, if_pos hkind, if_pos hevents, readTrailer_members]
  exact checkTrailer_trailerLine h

/-- A trailer that was read followed valid event lines and passed the check of its own line. -/
theorem checked_of_parseTrailerLine {line : LogText} {trailer : StructuredLogTrailerV1}
    {header : StructuredLogHeaderV1} {events : List LogText}
    (h : parseTrailerLine rt line header events = .ok trailer) :
    validEventLines rt events = true ∧
      ∃ read, checkTrailer rt line header events read = .ok trailer := by
  unfold parseTrailerLine at h
  split at h
  · cases h
  split at h
  · split at h
    · split at h
      · split at h
        · rename_i hevents
          obtain ⟨read, -, hread⟩ := Except.bind_eq_ok_iff.mp h
          exact ⟨hevents, read, hread⟩
        · cases h
      · cases h
    · cases h
  · cases h

/-- Only the line of a trailer that certifies the segment is read as it. -/
theorem parseTrailerLine_eq_ok {line : LogText} {trailer : StructuredLogTrailerV1}
    {header : StructuredLogHeaderV1} {events : List LogText}
    (h : parseTrailerLine rt line header events = .ok trailer) :
    line = trailerLine rt trailer ∧ trailer.certifies rt header events := by
  obtain ⟨-, read, hread⟩ := checked_of_parseTrailerLine h
  unfold checkTrailer at hread
  split at hread
  · rename_i hline
    split at hread
    · rename_i hagrees
      split at hread
      · cases hread
      · rename_i deadline hdeadline
        split at hread
        · rename_i hexpires
          obtain rfl := Except.ok.inj hread
          exact ⟨hline.symm, hagrees.1, hagrees.2, hexpires ▸ hdeadline⟩
        · cases hread
    · cases hread
  · cases hread

/-! ## Trailers and events -/

/-- The line of a trailer is taken for one. -/
theorem isTrailerLine_trailerLine (trailer : StructuredLogTrailerV1) :
    isTrailerLine rt (trailerLine rt trailer) = true := by
  have hlength := @length_trailerLine rt trailer
  unfold isTrailerLine
  rw [load_trailerLine, Bool.and_eq_true]
  exact ⟨decide_eq_true hlength, rfl⟩

/-- The line of an event is never taken for a trailer. -/
theorem isTrailerLine_eventLine {event : WireEvent rt} {line : LogText}
    (h : structuredLogEventLine event = .ok line) : isTrailerLine rt line = false := by
  unfold isTrailerLine
  rw [load_canonicalLine h, Bool.and_eq_false_iff]
  right
  rfl

end Milhouse
