import Milhouse.Domain.Identity
import Milhouse.Lib.Lines
import Milhouse.Outbox.Position

/-!
# Milhouse — the frames of an outbox

A line of the outbox is untrusted input of a producer. `parseOutboxFrameLine` makes a frame of it, or
fails with one code; what validates the JSON of a line is a parameter.

* `OutboxFrameV1` — a frame past its validators, within the bound of its canonical projection.
-/

namespace Milhouse.Outbox

open Json PyJson Text

/-- `_LF`. -/
def lineFeed : UInt8 := 10

/-- `OutboxActionabilityV1`. -/
inductive OutboxActionabilityV1 where
  | observe
  | investigate
  | agentSafe
  | needsApproval
  deriving DecidableEq, Repr

def OutboxActionabilityV1.text : OutboxActionabilityV1 → String
  | .observe => "observe"
  | .investigate => "investigate"
  | .agentSafe => "agent_safe"
  | .needsApproval => "needs_approval"

def maxOutboxFrameBytes : Nat := 262144

def frameLimits : CanonicalLimits := ⟨defaultMaxDepth, defaultMaxNodes, maxOutboxFrameBytes⟩

/-- What a producer sends; its schema version is the one there is. -/
structure FrameFields (P : CanonicalPlatform) where
  producerId : String
  occurredAt : Stamp
  target : String
  kind : String
  actionability : OutboxActionabilityV1
  evidenceReferences : List String
  data : List (String × Domain.Scalar P)

section Frame

variable (P : CanonicalPlatform)

def frameFields : List (Domain.Field P (FrameFields P)) :=
  [Domain.textField P "schema_version" fun _ => "1.0",
    Domain.textField P "producer_id" (·.producerId),
    Domain.stampField P "occurred_at" (·.occurredAt),
    Domain.textField P "target" (·.target),
    Domain.textField P "kind" (·.kind),
    Domain.textField P "actionability" fun f => f.actionability.text,
    Domain.valueField P "evidence_references" fun f => .list (f.evidenceReferences.map .str),
    Domain.valueField P "data" fun f => Domain.scalarsValue P f.data]

/-- `OutboxFrameV1`, past `_validate_bounds`. -/
structure OutboxFrameV1 extends FrameFields P where
  canonical : ∃ bytes, canonicalJsonBytes P.runtime frameLimits
    (Domain.dump (frameFields P) toFrameFields) = .ok bytes

/-- What the outbox needs of its surroundings: SHA-256, the validation of a frame's JSON, and how a
float of a stored position compares with an integer. -/
structure OutboxRuntime where
  sha256 : Bytes → Bytes
  sha256_length : ∀ content, (sha256 content).length = 32
  modelValidateJson : Bytes → Option (OutboxFrameV1 P)
  floatEq : P.floats.Float → Int → Bool

end Frame

section Parse

variable {P : CanonicalPlatform} (outbox : OutboxRuntime P)

/-- `_sha256_hex`. -/
def OutboxRuntime.sha256Hex (content : Bytes) : List Char := Radix.hex (outbox.sha256 content)

/-- `parse_outbox_frame_line`. -/
def parseOutboxFrameLine (line : Bytes) : Except OutboxError (OutboxFrameV1 P) :=
  match outbox.modelValidateJson line with
  | some frame => .ok frame
  | none => .error ⟨"MH_OUTBOX_FRAME", "an outbox line is not a valid v1 frame"⟩

theorem isSha256Hex_sha256Hex (content : Bytes) : isSha256Hex (outbox.sha256Hex content) = true := by
  have hlower : ∀ n < 16, (('0' ≤ Nat.digitChar n && Nat.digitChar n ≤ '9') ||
      ('a' ≤ Nat.digitChar n && Nat.digitChar n ≤ 'f')) = true := by decide
  unfold isSha256Hex OutboxRuntime.sha256Hex
  rw [Bool.and_eq_true, decide_eq_true_eq, Radix.length_hex, outbox.sha256_length]
  refine ⟨rfl, List.all_eq_true.mpr fun c hc => ?_⟩
  obtain ⟨n, hn, rfl⟩ := Radix.mem_hex hc
  exact hlower n hn

end Parse

end Milhouse.Outbox
