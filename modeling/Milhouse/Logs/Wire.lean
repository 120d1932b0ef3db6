import Milhouse.Core.Timestamp
import Milhouse.Lib.Fallible
import Milhouse.Lib.Json
import Milhouse.Lib.Lines
import Milhouse.Spool.Segment

/-!
# Milhouse — the lines of a structured log

A log segment is a header line, event lines and, once it is closed, a trailer line. Each value is
built only with the fields its constructor accepts, each line is the canonical JSON of one value,
and each reader parses, checks, rebuilds the value and compares the line it would write. The wire is
ASCII, so a file is kept as the characters of its bytes.

* **`validate_eventLine`** — a written event line is read back;
* **`isEventLine_of_validate`** — the validator accepts written event lines only;
* `isLine_of_canonicalLine` — a canonical line has one line feed, its last character.
-/

namespace Milhouse

open Json

/-- The contents of a log file; every byte of the wire is ASCII. -/
abbrev LogText := List Char

/-- What the wire takes from the language: the text of a non-integral float, and
`hashlib.sha256(…).hexdigest()`. An integral float is written as its integer and is kept as one. -/
structure LogRuntime where
  fractions : Fractions
  sha256 : LogText → List Char
  length_sha256 : ∀ text, (sha256 text).length = 64
  sha256_hex : ∀ text, ∀ c ∈ sha256 text, ('0' ≤ c ∧ c ≤ '9') ∨ ('a' ≤ c ∧ c ≤ 'f')

/-- A stable failure of the structured log. -/
structure LoggingError where
  code : String
  message : String
  deriving DecidableEq, Repr

def maxEventLineBytes : Nat := 4096
def maxLogHeaderLineBytes : Nat := 1024
def maxTrailerLineBytes : Nat := 1024
def maxLogRetentionDays : Nat := 3650

/-! ## Names and codes -/

def isLower (c : Char) : Bool := 'a' ≤ c && c ≤ 'z'
def isUpper (c : Char) : Bool := 'A' ≤ c && c ≤ 'Z'
def isLowerAlnum (c : Char) : Bool := isLower c || c.isDigit
def isUpperAlnum (c : Char) : Bool := isUpper c || c.isDigit

/-- `_validate_machine_name`: `[a-z][a-z0-9]*(?:[._-][a-z0-9]+)*`, at most `limit` characters. -/
def isMachineName (limit : Nat) (name : List Char) : Bool :=
  let parts := name.splitOnP fun c => c = '.' || c = '_' || c = '-'
  name.length ≤ limit && (name.head?.map isLower).getD false &&
    parts.all fun part => part ≠ [] && part.all isLowerAlnum

/-- `_validate_error_code`: a `MH_` code, or dotted lower-case words. -/
def isErrorCode (code : List Char) : Bool :=
  let upper :=
    match code.splitOn '_' with
    | first :: second :: rest =>
        first = ['M', 'H'] && (second.head?.map isUpper).getD false &&
          (second :: rest).all fun part => part ≠ [] && part.all isUpperAlnum
    | _ => false
  let words := code.splitOn '.'
  let dotted := 2 ≤ words.length && words.all fun word =>
    (word.head?.map isLower).getD false && word.all fun c => isLowerAlnum c || c = '_'
  code.length ≤ 128 && (upper || dotted)

/-- `_FINGERPRINT_PATTERN`: `mh_fp1_e`, the epoch, the kind, and 52 base-32 characters. -/
def isFingerprint (token : List Char) : Bool :=
  let lead := "mh_fp1_e".toList
  let rest := token.drop lead.length
  let epoch := rest.takeWhile Char.isDigit
  let body := (rest.dropWhile Char.isDigit).tail
  let kind := body.take (body.length - 53)
  let tail := body.drop (body.length - 53)
  lead.isPrefixOf token && 1 ≤ epoch.length && epoch.length ≤ 10 && epoch.head? ≠ some '0' &&
    (rest.dropWhile Char.isDigit).head? = some '_' && 1 ≤ kind.length && kind.length ≤ 32 &&
    (kind.head?.map isLower).getD false &&
    kind.all (fun c => isLowerAlnum c || c = '_' || c = '-') && tail.length = 53 &&
    tail.head? = some '_' && tail.tail.all fun c => isLower c || ('2' ≤ c && c ≤ '7')

/-! ## Events -/

inductive LogLevel | debug | info | warning | error | critical
  deriving DecidableEq, Repr

def LogLevel.name : LogLevel → List Char
  | .debug => "DEBUG".toList
  | .info => "INFO".toList
  | .warning => "WARNING".toList
  | .error => "ERROR".toList
  | .critical => "CRITICAL".toList

/-- `LogLevel[name]`. -/
def LogLevel.ofName? (name : List Char) : Option LogLevel :=
  [LogLevel.debug, .info, .warning, .error, .critical].find? fun level => level.name = name

inductive LogMetricKind | flag | count | bytes | durationMilliseconds | gauge
  deriving DecidableEq, Repr

def LogMetricKind.value : LogMetricKind → List Char
  | .flag => "flag".toList
  | .count => "count".toList
  | .bytes => "bytes".toList
  | .durationMilliseconds => "duration_milliseconds".toList
  | .gauge => "gauge".toList

/-- `LogMetricKind(value)`. -/
def LogMetricKind.ofValue? (value : List Char) : Option LogMetricKind :=
  [LogMetricKind.flag, .count, .bytes, .durationMilliseconds, .gauge].find? fun kind =>
    kind.value = value

/-- The signed 64-bit integers. -/
def isCanonicalInt (value : Int) : Bool := -(2 ^ 63) ≤ value && value ≤ 2 ^ 63 - 1

variable {rt : LogRuntime}

/-- The values of one kind of metric; a non-integral float is finite and in range. -/
def LogMetricKind.admits : LogMetricKind → Value rt.fractions → Bool
  | .flag, .bool _ => true
  | .flag, _ => false
  | .gauge, .int value => isCanonicalInt value
  | .gauge, .fraction _ => true
  | .gauge, _ => false
  | _, .int value => 0 ≤ value && value ≤ 2 ^ 63 - 1
  | _, _ => false

/-- One measurement, with a value its kind admits. -/
structure LogMetric (rt : LogRuntime) where
  name : List Char
  kind : LogMetricKind
  value : Value rt.fractions
  validName : isMachineName 64 name = true
  validValue : kind.admits value = true

/-- The names increase, from a name before them if there is one. -/
def increasing : Option (List Char) → List (LogMetric rt) → Bool
  | _, [] => true
  | previous, metric :: rest =>
      (previous.all fun name => decide (name < metric.name)) && increasing (some metric.name) rest

/-- The fields of an event line, with what the wire validator checks of them. The builder of a
`StructuredLogEventV1` also bounds the size of its metadata, and no reader of a log repeats that. -/
structure WireEvent (rt : LogRuntime) where
  timestamp : Stamp
  name : List Char
  level : LogLevel
  metrics : List (LogMetric rt)
  error : Option (List Char)
  fingerprint : Option (List Char)
  validTime : timestamp < stampLimit
  validName : isMachineName 128 name = true
  fewMetrics : metrics.length ≤ 32
  sortedMetrics : increasing none metrics = true
  validError : error.all isErrorCode = true
  validFingerprint : fingerprint.all isFingerprint = true

def textOrNull : Option (List Char) → Value rt.fractions
  | none => .null
  | some text => .str text

/-- A member of an object. -/
def member (key : String) (value : Value rt.fractions) : List Char × Value rt.fractions :=
  (key.toList, value)

def LogMetric.payload (metric : LogMetric rt) : Value rt.fractions :=
  .obj [member "kind" (.str metric.kind.value), member "name" (.str metric.name),
    member "value" metric.value]

/-- The members of an event line, their keys in canonical order. -/
def WireEvent.members (event : WireEvent rt) : List (List Char × Value rt.fractions) :=
  [member "error" (textOrNull event.error),
    member "fingerprint" (textOrNull event.fingerprint), member "level" (.str event.level.name),
    member "line" (.str "event".toList), member "metrics" (.arr (event.metrics.map LogMetric.payload)),
    member "name" (.str event.name), member "privacy" (.str "internal".toList),
    member "schema" (.int 1), member "ts" (.str (timestampText event.timestamp))]

def WireEvent.payload (event : WireEvent rt) : Value rt.fractions := .obj event.members

/-- `canonical_json_bytes(payload, max_bytes=limit - 1) + b"\n"`. -/
def canonicalLine (limit : Nat) (payload : Value rt.fractions) : Except LoggingError LogText :=
  if payload.text.length ≤ limit - 1 then .ok (payload.text ++ ['\n'])
  else .error ⟨"MH_CANONICAL_SIZE", "the canonical value exceeds the UTF-8 byte limit"⟩

/-- `structured_log_event_line`. -/
def structuredLogEventLine (event : WireEvent rt) : Except LoggingError LogText :=
  canonicalLine maxEventLineBytes event.payload

/-! ## Reading objects -/

/-- `payload.get(key)`; of two members with one key the last counts. -/
def member? (key : String) (members : List (List Char × Value rt.fractions)) :
    Option (Value rt.fractions) :=
  (members.reverse.find? fun m => m.1 = key.toList).map Prod.snd

/-- `payload[key]`, of an object whose keys have been checked. -/
def fieldOf (members : List (List Char × Value rt.fractions)) (key : String) : Value rt.fractions :=
  (member? key members).getD .null

/-- `frozenset(payload) == keys`. -/
def hasKeys (keys : List String) (members : List (List Char × Value rt.fractions)) : Bool :=
  keys.all (fun key => members.any fun m => m.1 = key.toList) &&
    members.all fun m => keys.any fun key => m.1 = key.toList

/-- `value == 1`, which `True` is too. -/
def isOne : Value rt.fractions → Bool
  | .int value => value = 1
  | .bool flag => flag
  | _ => false

/-- `value == text`. -/
def isText (text : String) : Value rt.fractions → Bool
  | .str value => value = text.toList
  | _ => false

/-- The stamp of a text that spells one. -/
def readTimestamp (fail : LoggingError) : Value rt.fractions →
    Except LoggingError {stamp : Stamp // stamp < stampLimit}
  | .str text =>
      match parseTimestamp text with
      | some stamp => if h : stamp < stampLimit then .ok ⟨stamp, h⟩ else .error fail
      | none => .error fail
  | _ => .error fail

/-! ## Reading an event line -/

def eventFail (message : String) : LoggingError := ⟨"MH_LOG_WIRE_EVENT", message⟩

/-- `_validate_machine_name` of a value off the wire. -/
def readName (limit : Nat) (message : String) : Value rt.fractions →
    Except LoggingError {name : List Char // isMachineName limit name = true}
  | .str name =>
      if h : isMachineName limit name = true then .ok ⟨name, h⟩ else .error (eventFail message)
  | _ => .error (eventFail message)

/-- What `_require_wire_metric_value` says of a value its kind does not admit. -/
def LogMetricKind.refusal : LogMetricKind → String
  | .flag => "a flag metric requires a boolean"
  | .gauge => "a gauge metric requires a bounded finite number"
  | _ => "a count metric requires a bounded non-negative integer"

/-- `_require_wire_metric_value`. -/
def readMetricValue (kind : LogMetricKind) (value : Value rt.fractions) :
    Except LoggingError {value : Value rt.fractions // kind.admits value = true} :=
  if h : kind.admits value = true then .ok ⟨value, h⟩ else .error (eventFail kind.refusal)

/-- `LogMetricKind(kind_value)`, of a string. -/
def readMetricKind : Value rt.fractions → Except LoggingError LogMetricKind
  | .str value =>
      match LogMetricKind.ofValue? value with
      | some kind => .ok kind
      | none => .error (eventFail "an event metric kind is not supported")
  | _ => .error (eventFail "an event metric kind is not supported")

/-- One metric of a stored event. -/
def readMetric : Value rt.fractions → Except LoggingError (LogMetric rt)
  | .obj members =>
      if hasKeys ["kind", "name", "value"] members then
        (readMetricKind (fieldOf members "kind")).bind fun kind =>
        (readName 64 "an event metric name is not a valid machine name"
          (fieldOf members "name")).bind fun name =>
        (readMetricValue kind (fieldOf members "value")).map fun value =>
          ⟨name.1, kind, value.1, name.2, value.2⟩
      else .error (eventFail "an event metric has an unexpected field set")
  | _ => .error (eventFail "an event metric has an unexpected field set")

/-- The loop of `_validate_wire_event_metrics`, after the metric with the name `previous`. -/
def readMetrics : (previous : Option (List Char)) → (items : List (Value rt.fractions)) →
    Except LoggingError {metrics : List (LogMetric rt) //
      increasing previous metrics = true ∧ metrics.length = items.length}
  | _, [] => .ok ⟨[], rfl, rfl⟩
  | previous, item :: rest =>
      (readMetric item).bind fun metric =>
        if h : (previous.all fun name => decide (name < metric.name)) = true then
          (readMetrics (some metric.name) rest).map fun metrics =>
            ⟨metric :: metrics.1, by rw [increasing, h, metrics.2.1, Bool.and_self],
              congrArg (· + 1) metrics.2.2⟩
        else .error (eventFail "event metrics must be sorted by unique name")

/-- `_validate_wire_event_metrics`. -/
def readEventMetrics : Value rt.fractions → Except LoggingError {metrics : List (LogMetric rt) //
    metrics.length ≤ 32 ∧ increasing none metrics = true}
  | .arr items =>
      if h : items.length ≤ 32 then
        (readMetrics none items).map fun metrics =>
          ⟨metrics.1, metrics.2.2.trans_le h, metrics.2.1⟩
      else .error (eventFail "event metrics are not a bounded array")
  | _ => .error (eventFail "event metrics are not a bounded array")

/-- `LogLevel[level_value]`, of a string. -/
def readLevel : Value rt.fractions → Except LoggingError LogLevel
  | .str name =>
      match LogLevel.ofName? name with
      | some level => .ok level
      | none => .error (eventFail "an event level is not a catalog level")
  | _ => .error (eventFail "an event level is not a catalog level")

/-- Null, or a string that is valid. -/
def readNullable (valid : List Char → Bool) (message : String) : Value rt.fractions →
    Except LoggingError {text : Option (List Char) // text.all valid = true}
  | .null => .ok ⟨none, rfl⟩
  | .str text => if h : valid text = true then .ok ⟨some text, h⟩ else .error (eventFail message)
  | _ => .error (eventFail message)

def eventLineKeys : List String :=
  ["error", "fingerprint", "level", "line", "metrics", "name", "privacy", "schema", "ts"]

/-- The event a payload spells; the fields are checked in the order of the source. -/
def readEvent (field : String → Value rt.fractions) : Except LoggingError (WireEvent rt) :=
  if isOne (field "schema") && isText "event" (field "line") && isText "internal" (field "privacy")
  then
    (readTimestamp (eventFail "an event timestamp is not a canonical UTC millisecond value")
      (field "ts")).bind fun timestamp =>
    (readName 128 "an event name is not a valid machine name" (field "name")).bind fun name =>
    (readLevel (field "level")).bind fun level =>
    (readEventMetrics (field "metrics")).bind fun metrics =>
    (readNullable isErrorCode "an event error is not a stable code" (field "error")).bind fun error =>
    (readNullable isFingerprint "an event fingerprint is not a valid keyed token"
      (field "fingerprint")).map fun fingerprint =>
      ⟨timestamp.1, name.1, level, metrics.1, error.1, fingerprint.1, timestamp.2, name.2,
        metrics.2.1, metrics.2.2, error.2, fingerprint.2⟩
  else .error (eventFail "an event line is not a v1 internal event")

/-- `validate_structured_log_event_line`: the timestamp of a line that is canonical. -/
def validateStructuredLogEventLine (rt : LogRuntime) (line : LogText) :
    Except LoggingError Stamp :=
  if maxEventLineBytes < line.length then
    .error (eventFail "an event line exceeds its byte bound")
  else
    match (load line : Option (Value rt.fractions)) with
    | some (.obj members) =>
        if hasKeys eventLineKeys members then
          (readEvent (fieldOf members)).bind fun event =>
            if structuredLogEventLine event = .ok line then .ok event.timestamp
            else .error (eventFail "an event line is not canonical")
        else .error (eventFail "an event line has an unexpected field set")
    | _ => .error (eventFail "an event line must be one JSON object")

/-! ## What is written is read back -/

theorem LogLevel.ofName?_name (level : LogLevel) : LogLevel.ofName? level.name = some level := by
  cases level <;> decide

theorem LogMetricKind.ofValue?_value (kind : LogMetricKind) :
    LogMetricKind.ofValue? kind.value = some kind := by
  cases kind <;> decide

/-- The text of a stamp is read back as the stamp. -/
theorem readTimestamp_timestampText {fail : LoggingError} {stamp : Stamp} (h : stamp < stampLimit) :
    readTimestamp fail (.str (timestampText stamp) : Value rt.fractions) = .ok ⟨stamp, h⟩ := by
  unfold readTimestamp
  simp only [parseTimestamp_timestampText h]
  rw [dif_pos h]

/-- A valid text, or its absence, is read back. -/
theorem readNullable_textOrNull {valid : List Char → Bool} {message : String}
    {text : Option (List Char)} (h : text.all valid = true) :
    readNullable valid message (textOrNull text : Value rt.fractions) = .ok ⟨text, h⟩ := by
  cases text with
  | none => rfl
  | some text => exact dif_pos h

/-- The object of a metric is read back as the metric. -/
theorem readMetric_payload (metric : LogMetric rt) : readMetric metric.payload = .ok metric := by
  have hkind : readMetricKind (.str metric.kind.value : Value rt.fractions) = .ok metric.kind := by
    unfold readMetricKind
    simp only [LogMetricKind.ofValue?_value]
  have hname : readName 64 "an event metric name is not a valid machine name"
      (.str metric.name : Value rt.fractions) = .ok ⟨metric.name, metric.validName⟩ :=
    dif_pos metric.validName
  have hvalue : readMetricValue metric.kind metric.value = .ok ⟨metric.value, metric.validValue⟩ :=
    dif_pos metric.validValue
  show (readMetricKind (.str metric.kind.value : Value rt.fractions)).bind _ = _
  rw [hkind]
  show (readName 64 _ (.str metric.name : Value rt.fractions)).bind _ = _
  rw [hname]
  show (readMetricValue metric.kind metric.value).map _ = _
  rw [hvalue]
  rfl

/-- Metrics in order are read back, after every name that comes before them. -/
theorem readMetrics_payload (previous : Option (List Char)) (metrics : List (LogMetric rt))
    (h : increasing previous metrics = true) :
    readMetrics previous (metrics.map LogMetric.payload) =
      .ok ⟨metrics, h, (List.length_map LogMetric.payload).symm⟩ := by
  induction metrics generalizing previous with
  | nil => rfl
  | cons metric rest ih =>
      have hsplit := h
      rw [increasing, Bool.and_eq_true] at hsplit
      show (readMetric metric.payload).bind _ = _
      rw [readMetric_payload]
      show (if _ : (previous.all fun name => decide (name < metric.name)) = true then
        (readMetrics (some metric.name) (rest.map LogMetric.payload)).map _ else _) = _
      rw [dif_pos hsplit.1, ih _ hsplit.2]
      rfl

/-- The array of the metrics of an event is read back. -/
theorem readEventMetrics_payload (event : WireEvent rt) :
    readEventMetrics (.arr (event.metrics.map LogMetric.payload)) =
      .ok ⟨event.metrics, event.fewMetrics, event.sortedMetrics⟩ := by
  have hlength : (event.metrics.map LogMetric.payload).length ≤ 32 := by
    rw [List.length_map]
    exact event.fewMetrics
  unfold readEventMetrics
  simp only [readMetrics_payload none event.metrics event.sortedMetrics, dif_pos hlength]
  rfl

/-- The members of an event line are read back as the event. -/
theorem readEvent_members (event : WireEvent rt) :
    readEvent (fieldOf event.members) = .ok event := by
  have hlevel : readLevel (.str event.level.name : Value rt.fractions) = .ok event.level := by
    unfold readLevel
    simp only [LogLevel.ofName?_name]
  have hname : readName 128 "an event name is not a valid machine name"
      (.str event.name : Value rt.fractions) = .ok ⟨event.name, event.validName⟩ :=
    dif_pos event.validName
  show (readTimestamp _ (.str (timestampText event.timestamp) : Value rt.fractions)).bind _ = _
  rw [readTimestamp_timestampText event.validTime]
  show (readName 128 _ (.str event.name : Value rt.fractions)).bind _ = _
  rw [hname]
  show (readLevel (.str event.level.name : Value rt.fractions)).bind _ = _
  rw [hlevel]
  show (readEventMetrics (.arr (event.metrics.map LogMetric.payload))).bind _ = _
  rw [readEventMetrics_payload]
  show (readNullable isErrorCode _ (textOrNull event.error : Value rt.fractions)).bind _ = _
  rw [readNullable_textOrNull event.validError]
  show (readNullable isFingerprint _ (textOrNull event.fingerprint : Value rt.fractions)).map _ = _
  rw [readNullable_textOrNull event.validFingerprint]
  rfl

/-- A line within its bound is the text of its payload and a line feed. -/
theorem canonicalLine_eq_ok {limit : Nat} {payload : Value rt.fractions} {line : LogText}
    (h : canonicalLine limit payload = .ok line) :
    line = payload.text ++ ['\n'] ∧ payload.text.length ≤ limit - 1 := by
  unfold canonicalLine at h
  split at h
  · rename_i hle
    exact ⟨(Except.ok.inj h).symm, hle⟩
  · cases h

/-- A canonical line has one line feed, its last character. -/
theorem isLine_of_canonicalLine {limit : Nat} {payload : Value rt.fractions} {line : LogText}
    (h : canonicalLine limit payload = .ok line) : Lines.IsLine '\n' line := by
  refine ⟨payload.text, (canonicalLine_eq_ok h).1, fun hmem => ?_⟩
  exact absurd (text_printable payload _ hmem) (by decide)

/-- A canonical line is parsed as its payload. -/
theorem load_canonicalLine {limit : Nat} {payload : Value rt.fractions} {line : LogText}
    (h : canonicalLine limit payload = .ok line) : load line = some payload := by
  rw [(canonicalLine_eq_ok h).1]
  exact load_text payload ['\n'] (List.all_eq_true.mp (by decide))

/-- With its line feed a canonical line is within the limit. -/
theorem length_canonicalLine {limit : Nat} {payload : Value rt.fractions} {line : LogText}
    (h : canonicalLine limit payload = .ok line) (hlimit : 0 < limit) : line.length ≤ limit := by
  obtain ⟨rfl, hle⟩ := canonicalLine_eq_ok h
  rw [List.length_append, List.length_singleton]
  omega

/-- **A written event line is read back.** -/
theorem validate_eventLine {event : WireEvent rt} {line : LogText}
    (h : structuredLogEventLine event = .ok line) :
    validateStructuredLogEventLine rt line = .ok event.timestamp := by
  have hlength : ¬ maxEventLineBytes < line.length :=
    Nat.not_lt_of_le (length_canonicalLine h (by decide))
  have hkeys : hasKeys eventLineKeys event.members = true := rfl
  unfold validateStructuredLogEventLine
  rw [if_neg hlength, load_canonicalLine h]
  show (if hasKeys eventLineKeys event.members then (readEvent (fieldOf event.members)).bind _
    else _) = _
  rw [if_pos hkeys, readEvent_members]
  show (if structuredLogEventLine event = .ok line then _ else _) = _
  rw [if_pos h]

/-- A line that some event is written as. -/
def IsEventLine (rt : LogRuntime) (line : LogText) : Prop :=
  ∃ event : WireEvent rt, structuredLogEventLine event = .ok line

/-- **The validator accepts the lines of events only.** -/
theorem isEventLine_of_validate {line : LogText} {stamp : Stamp}
    (h : validateStructuredLogEventLine rt line = .ok stamp) : IsEventLine rt line := by
  unfold validateStructuredLogEventLine at h
  split at h
  · cases h
  · split at h
    · split at h
      · obtain ⟨event, -, hevent⟩ := Except.bind_eq_ok_iff.mp h
        split at hevent
        · rename_i hline
          exact ⟨event, hline⟩
        · cases hevent
      · cases h
    · cases h

end Milhouse
