import Mathlib.Data.Finset.Card

/-!
# Milhouse — what the privacy layers share

A redactor is a function of the text alone: what it replaces, and how often for each category.
Which texts it replaces is left open.
-/

namespace Milhouse

/-- A `PrivacyError`. -/
structure PrivacyError where
  code : String
  message : String
  deriving DecidableEq, Repr

/-- A `dict[str, int]` of replacements by category, in the order of insertion. -/
abbrev Counts := List (String × Nat)

/-- `target[category] = target.get(category, 0) + count`. -/
def Counts.increment (category : String) (count : Nat) : Counts → Counts
  | [] => [(category, count)]
  | (other, total) :: rest =>
      if other = category then (other, total + count) :: rest
      else (other, total) :: Counts.increment category count rest

structure RedactionResult (Text : Type) where
  value : Text
  counts : Counts

/-- A `LayeredRedactor`. -/
structure LayeredRedactor (Text : Type) where
  redact : Text → Except PrivacyError (RedactionResult Text)
  redactPath : Text → Except PrivacyError (RedactionResult Text)
  redactUrl : Finset String → Text → Except PrivacyError (RedactionResult Text)

/-- `_merge_counts`. -/
def mergeCounts {Text : Type} (target : Counts) (result : RedactionResult Text) : Counts :=
  result.counts.foldl (fun target item => target.increment item.1 item.2) target

end Milhouse
