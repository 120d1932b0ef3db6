import Milhouse.Core.Canonical
import Milhouse.Lib.PrefixTrie
import Milhouse.Lib.Sorted
import Mathlib.Data.String.Basic
import Milhouse.Privacy.Redact

/-!
# Milhouse — field allowlists

An allowlist is a trie of rules: a rule stands at the end of its path and nowhere else. The filter
walks the trie and the input together, takes the children of a node in the order of their keys, and
keeps what stands at the end of a path.
-/

namespace Milhouse.Allowlist

open PrefixTrie Sorted

/-! ## Rules -/

def maxFieldRules : Nat := 100
def maxFieldDepth : Nat := 8
def maxInputFieldsPerObject : Nat := 1000

inductive FieldKind where
  | scalar
  | text
  | url
  | path
  deriving DecidableEq, Repr

/-- `_FIELD_SEGMENT`: `[a-z][a-z0-9_-]{0,63}`. -/
def isFieldSegment (segment : String) : Bool :=
  segment.length ≤ 64 && (segment.toList.head?.map fun c => 'a' ≤ c && c ≤ 'z').getD false &&
    segment.toList.all fun c => ('a' ≤ c && c ≤ 'z') || c.isDigit || c = '_' || c = '-'

/-- `_QUERY_KEY`: `[A-Za-z][A-Za-z0-9_.-]{0,63}`. -/
def isQueryKey (key : String) : Bool :=
  key.length ≤ 64 && (key.toList.head?.map Char.isAlpha).getD false &&
    key.toList.all fun c => c.isAlphanum || c = '_' || c = '.' || c = '-'

/-- A `FieldRule`, with what its constructor has checked. -/
structure FieldRule where
  path : List String
  kind : FieldKind
  required : Bool
  allowedQueryKeys : Finset String
  path_ne_nil : path ≠ []
  shallow : path.length ≤ maxFieldDepth
  segments : path.all isFieldSegment = true
  queryKeys : allowedQueryKeys.card ≤ maxFieldRules ∧ ∀ key ∈ allowedQueryKeys, isQueryKey key = true
  onlyUrl : kind ≠ .url → allowedQueryKeys = ∅

/-! ## The trie -/

/-- A `_RuleNode`. -/
abbrev RuleNode := Trie String FieldRule

def overlap : PrivacyError := ⟨"MH_PRIVACY_FIELD_OVERLAP", "field allowlist paths overlap"⟩

/-- The walk of one rule down the trie, along what is left of its path. -/
def insertRule (rule : FieldRule) : List String → RuleNode → Except PrivacyError RuleNode
  | [], node =>
      if node.children ≠ [] then .error overlap else .ok (.node node.children (some rule))
  | segment :: rest, node =>
      if node.value.isSome then .error overlap
      else do
        let child ← insertRule rule rest ((node.children.lookup segment).getD .empty)
        .ok (.node (setChild segment child node.children) node.value)

/-- The loop over the rules. -/
def insertRules : List FieldRule → List (List String) → RuleNode → Except PrivacyError RuleNode
  | [], _, root => .ok root
  | rule :: rest, seen, root =>
      if rule.path ∈ seen then
        .error ⟨"MH_PRIVACY_FIELD_DUPLICATE", "field allowlist contains a duplicate path"⟩
      else do
        let root ← insertRule rule rule.path root
        insertRules rest (rule.path :: seen) root

/-- A `FieldAllowlist`. -/
structure FieldAllowlist where
  root : RuleNode
  /-- The rules, sorted by path. -/
  rules : List FieldRule

/-- `FieldAllowlist(rules)`. -/
def fieldAllowlist (rules : List FieldRule) : Except PrivacyError FieldAllowlist :=
  if rules = [] ∨ maxFieldRules < rules.length then
    .error ⟨"MH_PRIVACY_FIELD_RULES", "field allowlist is empty, invalid, or too large"⟩
  else do
    let root ← insertRules rules [] .empty
    .ok ⟨root, rules.insertionSort fun a b => a.path ≤ b.path⟩

/-! ## Inputs -/

/-- What the filter takes from the language: texts, floats, and all other objects. -/
structure FieldRuntime where
  Text : Type
  Float : Type
  isFinite : Float → Bool
  Other : Type

inductive FieldValue (rt : FieldRuntime) where
  | bool (flag : Bool)
  | int (value : Int)
  | float (value : rt.Float)
  | text (value : rt.Text)
  /-- A value of another type than the others. -/
  | other (value : rt.Other)
  | object (members : List (String × FieldValue rt))

variable {rt : FieldRuntime}

def FieldValue.isObject : FieldValue rt → Bool
  | .object _ => true
  | _ => false

/-! ## Leaves -/

def fieldValueError (message : String) : PrivacyError := ⟨"MH_PRIVACY_FIELD_VALUE", message⟩

/-- `_transform_scalar`. -/
def transformScalar (redactor : LayeredRedactor rt.Text) :
    FieldValue rt → Except PrivacyError (FieldValue rt × Option (RedactionResult rt.Text))
  | .bool flag => .ok (.bool flag, none)
  | .int value =>
      if inCanonicalRange value then .ok (.int value, none)
      else .error (fieldValueError "allowlisted integer is outside the canonical domain")
  | .float value =>
      if rt.isFinite value then .ok (.float value, none)
      else .error (fieldValueError "allowlisted number must be finite")
  | .text value => do
      let result ← redactor.redact value
      .ok (.text result.value, some result)
  | _ => .error (fieldValueError "allowlisted scalar has an unsupported type")

/-- The redaction that a kind of text field asks for. -/
def redactField (redactor : LayeredRedactor rt.Text) (rule : FieldRule) (value : rt.Text) :
    Except PrivacyError (RedactionResult rt.Text) :=
  match rule.kind with
  | .path => redactor.redactPath value
  | .url => redactor.redactUrl rule.allowedQueryKeys value
  | _ => redactor.redact value

/-- `_transform_leaf`: the value, and what it adds to the counts. -/
def transformLeaf (redactor : LayeredRedactor rt.Text) (rule : FieldRule) (value : FieldValue rt) :
    Except PrivacyError (FieldValue rt × Option (RedactionResult rt.Text)) :=
  match rule.kind, value with
  | .scalar, value => transformScalar redactor value
  | _, .text value => do
      let result ← redactField redactor rule value
      .ok (.text result.value, some result)
  | _, _ => .error (fieldValueError "allowlisted privacy field must contain text")

/-! ## The filter -/

mutual

/-- `_has_required`. -/
def hasRequired : RuleNode → Bool
  | .node _ (some rule) => rule.required
  | .node children none => anyRequired children

def anyRequired : List (String × RuleNode) → Bool
  | [] => false
  | (_, child) :: rest => hasRequired child || anyRequired rest

end

/-- What `_filter_node` returns, and the counts behind it. -/
structure Filtered (rt : FieldRuntime) where
  value : FieldValue rt
  discarded : Nat
  present : Bool
  counts : Counts

/-- A child of a node: what it requires, and its filter. -/
structure ChildFilter (rt : FieldRuntime) where
  required : Bool
  filter : FieldValue rt → Counts → Except PrivacyError (Filtered rt)

/-- What the loop over the children has collected. -/
structure FilteredMembers (rt : FieldRuntime) where
  output : List (String × FieldValue rt)
  discarded : Nat
  counts : Counts

def missingField : PrivacyError :=
  ⟨"MH_PRIVACY_FIELD_MISSING", "required allowlisted field is missing"⟩

def notAnObject : PrivacyError :=
  ⟨"MH_PRIVACY_FIELD_OBJECT", "allowlisted nested field must contain an object"⟩

def tooManyFields : PrivacyError :=
  ⟨"MH_PRIVACY_FIELD_OBJECT_LARGE", "input object exceeds the field-count bound"⟩

/-- One child of a node, and the field of its key. -/
def filterChild (key : String) (child : ChildFilter rt) (field : Option (FieldValue rt))
    (counts : Counts) : Except PrivacyError (FilteredMembers rt) :=
  match field with
  | none => if child.required then .error missingField else .ok ⟨[], 0, counts⟩
  | some value => do
      let item ← child.filter value counts
      .ok ⟨if item.present then [(key, item.value)] else [], item.discarded, item.counts⟩

/-- The loop over the children of a node. -/
def filterMembers (members : List (String × FieldValue rt)) :
    List (String × ChildFilter rt) → Counts → Except PrivacyError (FilteredMembers rt)
  | [], counts => .ok ⟨[], 0, counts⟩
  | (key, child) :: rest, counts => do
      let first ← filterChild key child (members.lookup key) counts
      let others ← filterMembers members rest first.counts
      .ok ⟨first.output ++ others.output, first.discarded + others.discarded, others.counts⟩

mutual

/-- `_filter_node`. -/
def filterNode (redactor : LayeredRedactor rt.Text) :
    RuleNode → FieldValue rt → Counts → Except PrivacyError (Filtered rt)
  | .node _ (some rule), value, counts => do
      let (transformed, result) ← transformLeaf redactor rule value
      .ok ⟨transformed, 0, true, (result.map (mergeCounts counts)).getD counts⟩
  | .node children none, value, counts =>
      match value with
      | .object members =>
          if maxInputFieldsPerObject < members.length then .error tooManyFields
          else do
            let unlisted := members.countP fun m => (children.lookup m.1).isNone
            let kept ← filterMembers members
              ((childFilters redactor children).insertionSort KeyLe) counts
            .ok ⟨.object kept.output, unlisted + kept.discarded, kept.output ≠ [], kept.counts⟩
      | _ => .error notAnObject

def childFilters (redactor : LayeredRedactor rt.Text) :
    List (String × RuleNode) → List (String × ChildFilter rt)
  | [] => []
  | (key, child) :: rest =>
      (key, ⟨hasRequired child, filterNode redactor child⟩) :: childFilters redactor rest

end

/-- An `AllowedFields`. -/
structure AllowedFields (rt : FieldRuntime) where
  value : List (String × FieldValue rt)
  discardedFields : Nat
  redactions : Counts

/-- `apply_field_allowlist`. -/
def applyFieldAllowlist (redactor : LayeredRedactor rt.Text) (allowlist : FieldAllowlist)
    (value : FieldValue rt) : Except PrivacyError (AllowedFields rt) :=
  match value with
  | .object _ => do
      let filtered ← filterNode redactor allowlist.root value []
      match filtered.value with
      | .object output => .ok ⟨output, filtered.discarded, filtered.counts⟩
      | _ => .error ⟨"MH_PRIVACY_FIELD_INVARIANT", "field allowlist invariant failed"⟩
  | _ => .error ⟨"MH_PRIVACY_FIELD_INPUT", "field input must be an object"⟩

end Milhouse.Allowlist
