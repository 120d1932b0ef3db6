import Mathlib.Algebra.Group.Nat.Defs
import Milhouse.Lib.Json
import Milhouse.Lib.Text

/-!
# PyJson — the objects of `json.loads`

The reader of Python takes more than the strict one: `NaN` and the infinities, numerals in every
spelling, escapes of lone surrogates, and keys that come twice, of which the last counts. A string it
returns is a list of code points.

* **`loads_of_load`** — what the strict reader reads, this one reads as the same object, as far as
  the numerals of the one are numerals of the other;
* **`loads_text`** — so a written value is read back;
* `toDict_of_nodup` — members with distinct keys are kept as they are.
-/

namespace PyJson

open Json Text

/-- What the reader takes from the language: the floats, and the reading of a numeral. -/
structure Floats where
  Float : Type
  /-- `float(numeral)`. -/
  ofNumeral : List Char → Float
  inf : Float
  negInf : Float
  nan : Float

inductive Obj (Float : Type) where
  | none
  | bool (flag : Bool)
  | int (value : Int)
  | float (value : Float)
  | str (text : List CodePoint)
  | list (members : List (Obj Float))
  | dict (members : List (List CodePoint × Obj Float))

variable {P : Floats}

/-! ## Strings -/

/-- The code unit of four hex digits. -/
def unit? (a b c d : Char) : Option CodePoint := do
  let code := 4096 * (← hexValue? a) + 256 * (← hexValue? b) + 16 * (← hexValue? c) + (← hexValue? d)
  if h : code < 0x110000 then some ⟨code, h⟩ else none

/-- The rest of a string after its opening quote, with every escape a code point. -/
def readUnits : List Char → Option (List CodePoint × List Char)
  | [] => none
  | '"' :: rest => some ([], rest)
  | '\\' :: 'u' :: a :: b :: c :: d :: rest =>
      (unit? a b c d).bind fun x => (readUnits rest).map fun r => (x :: r.1, r.2)
  | '\\' :: letter :: rest =>
      (unescape? letter).bind fun x => (readUnits rest).map fun r => (ofChar x :: r.1, r.2)
  | c :: rest => if c.toNat < 32 then none else (readUnits rest).map fun r => (ofChar c :: r.1, r.2)

def isHigh (c : CodePoint) : Bool := 0xD800 ≤ c.val && c.val ≤ 0xDBFF
def isLow (c : CodePoint) : Bool := 0xDC00 ≤ c.val && c.val ≤ 0xDFFF

/-- The code point of a pair of surrogates. -/
def joinPair (high low : CodePoint) : CodePoint :=
  Fin.ofNat 0x110000 (0x10000 + (high.val - 0xD800) * 0x400 + (low.val - 0xDC00))

/-- Escaped pairs of surrogates are one code point; no surrogate comes from elsewhere. -/
def joinSurrogates : List CodePoint → List CodePoint
  | [] => []
  | [c] => [c]
  | c :: d :: rest =>
      if isHigh c && isLow d then joinPair c d :: joinSurrogates rest
      else c :: joinSurrogates (d :: rest)

def readString (text : List Char) : Option (List CodePoint × List Char) :=
  (readUnits text).map fun r => (joinSurrogates r.1, r.2)

/-! ## Numbers -/

/-- A fraction part at the front of a text, where there is one. -/
def readFraction : List Char → List Char × List Char
  | '.' :: rest =>
      if rest.takeWhile Char.isDigit = [] then ([], '.' :: rest)
      else ('.' :: rest.takeWhile Char.isDigit, rest.dropWhile Char.isDigit)
  | text => ([], text)

/-- The sign of an exponent, where there is one. -/
def readSign : List Char → List Char × List Char
  | '+' :: rest => (['+'], rest)
  | '-' :: rest => (['-'], rest)
  | text => ([], text)

/-- An exponent part at the front of a text, where there is one. -/
def readExponent : List Char → List Char × List Char
  | c :: rest =>
      if c = 'e' ∨ c = 'E' then
        let (sign, digits) := readSign rest
        if digits.takeWhile Char.isDigit = [] then ([], c :: rest)
        else (c :: sign ++ digits.takeWhile Char.isDigit, digits.dropWhile Char.isDigit)
      else ([], c :: rest)
  | [] => ([], [])

/-- The digits of the integer part: `0`, or digits that do not start with it. -/
def readInteger : List Char → List Char × List Char
  | '0' :: rest => (['0'], rest)
  | text => (text.takeWhile Char.isDigit, text.dropWhile Char.isDigit)

/-- `sys.get_int_max_str_digits()`. -/
def intMaxStrDigits : Nat := 4300

/-- `int(numeral)`. -/
def intOf (negative : Bool) (digits : List Char) : Int :=
  if negative then -(Nat.ofDigitChars 10 digits 0 : Int) else Nat.ofDigitChars 10 digits 0

/-- A number behind its sign. -/
def readUnsigned (negative : Bool) (text : List Char) : Option (Obj P.Float × List Char) :=
  let (digits, rest) := readInteger text
  let (fraction, rest) := readFraction rest
  let (exponent, rest) := readExponent rest
  if digits = [] then none
  else if fraction = [] ∧ exponent = [] then
    if intMaxStrDigits < digits.length then none else some (.int (intOf negative digits), rest)
  else
    some (.float (P.ofNumeral ((if negative then ['-'] else []) ++ digits ++ fraction ++ exponent)),
      rest)

def readNumber : List Char → Option (Obj P.Float × List Char)
  | '-' :: text => readUnsigned true text
  | text => readUnsigned false text

/-! ## Values -/

/-- `d[key] = value`. -/
def setItem (key : List CodePoint) (value : Obj P.Float) :
    List (List CodePoint × Obj P.Float) → List (List CodePoint × Obj P.Float)
  | [] => [(key, value)]
  | (other, old) :: rest =>
      if other = key then (key, value) :: rest else (other, old) :: setItem key value rest

/-- `dict(pairs)`. -/
def toDict (pairs : List (List CodePoint × Obj P.Float)) : List (List CodePoint × Obj P.Float) :=
  pairs.foldl (fun d pair => setItem pair.1 pair.2 d) []

/-- A member key and the colon after it. -/
def readKey (text : List Char) : Option (List CodePoint × List Char) :=
  match skip text with
  | '"' :: rest =>
      (readString rest).bind fun r =>
        match skip r.2 with
        | ':' :: rest => some (r.1, rest)
        | _ => none
  | _ => none

mutual

/-- Read a value from the front of a text. -/
def readValue : Nat → List Char → Option (Obj P.Float × List Char)
  | 0, _ => none
  | fuel + 1, text =>
      match skip text with
      | 'n' :: 'u' :: 'l' :: 'l' :: rest => some (.none, rest)
      | 't' :: 'r' :: 'u' :: 'e' :: rest => some (.bool true, rest)
      | 'f' :: 'a' :: 'l' :: 's' :: 'e' :: rest => some (.bool false, rest)
      | 'N' :: 'a' :: 'N' :: rest => some (.float P.nan, rest)
      | 'I' :: 'n' :: 'f' :: 'i' :: 'n' :: 'i' :: 't' :: 'y' :: rest => some (.float P.inf, rest)
      | '-' :: 'I' :: 'n' :: 'f' :: 'i' :: 'n' :: 'i' :: 't' :: 'y' :: rest =>
          some (.float P.negInf, rest)
      | '"' :: rest => (readString rest).map fun r => (.str r.1, r.2)
      | '[' :: rest =>
          match skip rest with
          | ']' :: rest => some (.list [], rest)
          | rest => (readElements fuel rest).map fun r => (.list r.1, r.2)
      | '{' :: rest =>
          match skip rest with
          | '}' :: rest => some (.dict [], rest)
          | rest => (readMembers fuel rest).map fun r => (.dict (toDict r.1), r.2)
      | text => readNumber text

/-- Read the elements of an array up to its bracket. -/
def readElements : Nat → List Char → Option (List (Obj P.Float) × List Char)
  | 0, _ => none
  | fuel + 1, text =>
      (readValue fuel text).bind fun r =>
        match skip r.2 with
        | ']' :: rest => some ([r.1], rest)
        | ',' :: rest => (readElements fuel rest).map fun e => (r.1 :: e.1, e.2)
        | _ => none

/-- Read the members of an object up to its brace. -/
def readMembers : Nat → List Char → Option (List (List CodePoint × Obj P.Float) × List Char)
  | 0, _ => none
  | fuel + 1, text =>
      (readKey text).bind fun k =>
        (readValue fuel k.2).bind fun r =>
          match skip r.2 with
          | '}' :: rest => some ([(k.1, r.1)], rest)
          | ',' :: rest => (readMembers fuel rest).map fun e => ((k.1, r.1) :: e.1, e.2)
          | _ => none

end

/-- `json.loads`: one value, with blanks around it. -/
def loads (text : List Char) : Option (Obj P.Float) :=
  (readValue (text.length + 1) text).bind fun r => if skip r.2 = [] then some r.1 else none

/-! ## What both readers read -/

section Agreement

variable {F : Fractions}

/-- How the fractions of the strict reader are read as floats. -/
structure Numerals (F : Fractions) (P : Floats) where
  float : F.Number → P.Float
  readNumber : ∀ numeral x, (∀ c ∈ numeral, isNumeral c = true) → F.read numeral = some x →
    ∀ rest, Follows rest → readNumber (P := P) (numeral ++ rest) = some (.float (float x), rest)

section Object

variable (N : Numerals F P)

mutual

/-- A strict value as an object. -/
def ofValue : Value F → Obj P.Float
  | .null => .none
  | .bool flag => .bool flag
  | .int value => .int value
  | .fraction value => .float (N.float value)
  | .str text => .str (text.map ofChar)
  | .arr elements => .list (ofElements elements)
  | .obj members => .dict (toDict (ofMembers members))

def ofElements : List (Value F) → List (Obj P.Float)
  | [] => []
  | value :: rest => ofValue value :: ofElements rest

def ofMembers : List (List Char × Value F) → List (List CodePoint × Obj P.Float)
  | [] => []
  | (key, value) :: rest => (key.map ofChar, ofValue value) :: ofMembers rest

end

end Object

mutual

/-- The integers in a value. -/
def ints : Value F → List Int
  | .int value => [value]
  | .arr elements => elementsInts elements
  | .obj members => membersInts members
  | _ => []

def elementsInts : List (Value F) → List Int
  | [] => []
  | value :: rest => ints value ++ elementsInts rest

def membersInts : List (List Char × Value F) → List Int
  | [] => []
  | (_, value) :: rest => ints value ++ membersInts rest

end

theorem mem_elementsInts {elements : List (Value F)} {n : Int} (h : n ∈ elementsInts elements) :
    ∃ x ∈ elements, n ∈ ints x := by
  induction elements with
  | nil => cases h
  | cons x rest ih =>
      rcases List.mem_append.mp h with h | h
      · exact ⟨x, List.mem_cons_self, h⟩
      · obtain ⟨y, hy, hn⟩ := ih h
        exact ⟨y, List.mem_cons_of_mem _ hy, hn⟩

theorem mem_membersInts {members : List (List Char × Value F)} {n : Int}
    (h : n ∈ membersInts members) : ∃ m ∈ members, n ∈ ints m.2 := by
  induction members with
  | nil => cases h
  | cons m rest ih =>
      rcases List.mem_append.mp h with h | h
      · exact ⟨m, List.mem_cons_self, h⟩
      · obtain ⟨y, hy, hn⟩ := ih h
        exact ⟨y, List.mem_cons_of_mem _ hy, hn⟩

/-- Integers with few enough digits for `int`. -/
def Short (values : List Int) : Prop := ∀ n ∈ values, n.natAbs < 10 ^ intMaxStrDigits

/-- Integers that are short together are short apart. -/
theorem Short.append {xs ys : List Int} (h : Short (xs ++ ys)) : Short xs ∧ Short ys :=
  ⟨fun n hn => h n (List.mem_append_left _ hn), fun n hn => h n (List.mem_append_right _ hn)⟩

/-! ### Strings -/

theorem unit?_of_hexChar? {a b c d x : Char} (h : hexChar? a b c d = some x) :
    unit? a b c d = some (ofChar x) := by
  unfold hexChar? at h
  unfold unit?
  simp only [Option.bind_eq_bind, Option.bind_eq_some_iff] at h ⊢
  obtain ⟨u, hu, v, hv, w, hw, z, hz, h⟩ := h
  refine ⟨u, hu, v, hv, w, hw, z, hz, ?_⟩
  split at h
  · rename_i hvalid
    have hlt : 4096 * u + 256 * v + 16 * w + z < 0x110000 := by
      rcases hvalid with hlow | hhigh
      · omega
      · exact hhigh.2
    rw [dif_pos hlt, ← Option.some.inj h]
    congr 1
    apply Fin.ext
    show _ = (Char.ofNat (4096 * u + 256 * v + 16 * w + z)).toNat
    rw [Char.ofNat, dif_pos hvalid]
    rfl
  · cases h

/-- A string that is read as characters is read as the same code points. -/
theorem readUnits_of_readString {text s rest : List Char}
    (h : Json.readString text = some (s, rest)) :
    readUnits text = some (s.map ofChar, rest) := by
  fun_induction Json.readString text generalizing s with
  | case1 => cases h
  | case2 rest' =>
      obtain ⟨rfl, rfl⟩ := Prod.mk.inj (Option.some.inj h)
      rfl
  | case3 a b c d tail ih =>
      obtain ⟨x, hx, h⟩ := Option.bind_eq_some_iff.mp h
      obtain ⟨r, hr, h⟩ := Option.map_eq_some_iff.mp h
      obtain ⟨rfl, rfl⟩ := Prod.mk.inj h
      rw [readUnits, unit?_of_hexChar? hx, Option.bind_some, ih hr]
      rfl
  | case4 letter tail hletter ih =>
      obtain ⟨x, hx, h⟩ := Option.bind_eq_some_iff.mp h
      obtain ⟨r, hr, h⟩ := Option.map_eq_some_iff.mp h
      obtain ⟨rfl, rfl⟩ := Prod.mk.inj h
      rw [readUnits.eq_4 _ _ hletter, hx, Option.bind_some, ih hr]
      rfl
  | case5 => cases h
  | case6 c tail hquote hunicode hescape hplain ih =>
      obtain ⟨r, hr, h⟩ := Option.map_eq_some_iff.mp h
      obtain ⟨rfl, rfl⟩ := Prod.mk.inj h
      rw [readUnits.eq_5 _ _ hquote hunicode hescape, if_neg hplain, ih hr]
      rfl

theorem isSurrogate_ofChar (c : Char) : isSurrogate (ofChar c) = false :=
  (isValidChar_iff _).mp c.valid

/-- Where no code point is a surrogate, none are joined. -/
theorem joinSurrogates_map_ofChar (text : List Char) :
    joinSurrogates (text.map ofChar) = text.map ofChar := by
  induction text with
  | nil => rfl
  | cons c text ih =>
      cases text with
      | nil => rfl
      | cons d text =>
          have hhigh : isHigh (ofChar c) = false := by
            have h := isSurrogate_ofChar c
            simp only [isSurrogate, isHigh, Bool.and_eq_false_iff, decide_eq_false_iff_not] at h ⊢
            omega
          rw [List.map_cons, List.map_cons, joinSurrogates, hhigh, Bool.false_and,
            if_neg (by decide), ← List.map_cons, ih, List.map_cons]

/-- So is the whole string, since characters are never surrogates. -/
theorem readString_of_readString {text s rest : List Char}
    (h : Json.readString text = some (s, rest)) :
    readString text = some (s.map ofChar, rest) := by
  rw [readString, readUnits_of_readString h, Option.map_some, joinSurrogates_map_ofChar]

theorem readKey_of_readKey {text key rest : List Char} (h : Json.readKey text = some (key, rest)) :
    readKey text = some (key.map ofChar, rest) := by
  unfold Json.readKey at h
  split at h
  · rename_i tail hskip
    obtain ⟨⟨s, after⟩, hs, h⟩ := Option.bind_eq_some_iff.mp h
    dsimp only at h
    split at h
    · rename_i rest' hcolon
      obtain ⟨rfl, rfl⟩ := Prod.mk.inj (Option.some.inj h)
      unfold readKey
      rw [hskip]
      show (readString tail).bind _ = _
      rw [readString_of_readString hs, Option.bind_some]
      dsimp only
      rw [hcolon]
      rfl
    · cases h
  · cases h

/-! ### Numbers -/

/-- What follows a numeral has no part of one at its front. -/
theorem readFraction_follows {rest : List Char} (h : Follows rest) : readFraction rest = ([], rest) := by
  unfold readFraction
  split
  · exact absurd (h '.' rfl) (by decide)
  · rfl

theorem readExponent_follows {rest : List Char} (h : Follows rest) : readExponent rest = ([], rest) := by
  unfold readExponent
  split
  · rename_i c tail
    have hc : isNumeral c = false := h c rfl
    rw [if_neg]
    rintro (rfl | rfl)
    · exact absurd hc (by decide)
    · exact absurd hc (by decide)
  · rfl

/-- The digits at the front of a text are those of a number without leading zeros. -/
theorem readInteger_toDigits (n : Nat) {rest : List Char} (hrest : Follows rest) :
    readInteger (Nat.toDigits 10 n ++ rest) = (Nat.toDigits 10 n, rest) := by
  have hstop : rest.takeWhile Char.isDigit = [] ∧ rest.dropWhile Char.isDigit = rest := by
    cases rest with
    | nil => exact ⟨rfl, rfl⟩
    | cons c text =>
        have hc : c.isDigit = false := by
          cases hdigit : c.isDigit
          · rfl
          · exact absurd (isNumeral_of_isDigit hdigit) (by simp [hrest c rfl])
        simp [hc]
  have hdigits : ∀ c ∈ Nat.toDigits 10 n, c.isDigit = true := fun _ hc => isDigit_of_mem_toDigits hc
  unfold readInteger
  split
  · rename_i tail heq
    -- the number is `0`
    have hhead : (Nat.toDigits 10 n).head? = some '0' := by
      have := congrArg List.head? heq
      rwa [List.head?_append, Option.or_of_isSome (List.isSome_head?.mpr Nat.toDigits_ne_nil)] at this
    have hzero := toDigits_eq_zero_of_head? n hhead
    rw [hzero] at heq ⊢
    rw [← (List.cons.inj heq).2]
    rfl
  · rw [List.takeWhile_append_of_pos hdigits, hstop.1, List.append_nil,
      List.dropWhile_append_of_pos hdigits, hstop.2]

/-- A digit string within the limit of the interpreter is read as its number. -/
theorem readUnsigned_toDigits (negative : Bool) (n : Nat) {rest : List Char}
    (hrest : Follows rest) (hn : n < 10 ^ intMaxStrDigits) :
    readUnsigned (P := P) negative (Nat.toDigits 10 n ++ rest) =
      some (.int (if negative then -(n : Int) else n), rest) := by
  have hlength : ¬ intMaxStrDigits < (Nat.toDigits 10 n).length :=
    Nat.not_lt.mpr ((Nat.length_toDigits_le_iff (by decide) (by decide)).mpr hn)
  unfold readUnsigned
  rw [readInteger_toDigits n hrest]
  dsimp only
  rw [readFraction_follows hrest]
  dsimp only
  rw [readExponent_follows hrest]
  dsimp only
  rw [if_neg Nat.toDigits_ne_nil, if_pos ⟨rfl, rfl⟩, if_neg hlength, intOf,
    Nat.ofDigitChars_ten_toDigits]

/-- An integer numeral within that limit is read as its integer. -/
theorem readNumber_of_integer? {numeral rest : List Char} {n : Int} (h : integer? numeral = some n)
    (hrest : Follows rest) (hn : n.natAbs < 10 ^ intMaxStrDigits) :
    readNumber (P := P) (numeral ++ rest) = some (.int n, rest) := by
  unfold integer? at h
  split at h
  · rename_i digits
    obtain ⟨m, hm, rfl⟩ := Option.map_eq_some_iff.mp h
    rw [natural?_eq_some_iff.mp hm]
    exact readUnsigned_toDigits true m hrest (by omega)
  · obtain ⟨m, hm, rfl⟩ := Option.map_eq_some_iff.mp h
    rw [natural?_eq_some_iff.mp hm]
    unfold readNumber
    split
    · rename_i heq
      obtain ⟨c, digits, hdigits⟩ := List.exists_cons_of_ne_nil (@Nat.toDigits_ne_nil m 10)
      have hdigit : c.isDigit = true :=
        isDigit_of_mem_toDigits (hdigits ▸ List.mem_cons_self)
      rw [hdigits, List.cons_append] at heq
      rw [(List.cons.inj heq).1] at hdigit
      exact absurd hdigit (by decide)
    · exact readUnsigned_toDigits false m hrest (by omega)

/-- A number read by the plain reader is read alike by the one of the interpreter. -/
theorem readNumber_of_readNumber (N : Numerals F P) {text rest : List Char} {v : Value F}
    (h : Json.readNumber text = some (v, rest)) (hints : Short (ints v)) :
    readNumber text = some (ofValue N v, rest) := by
  have hrest : Follows (text.dropWhile isNumeral) := by
    intro c hc
    have := List.head?_dropWhile_not isNumeral text
    rw [Option.mem_def.mp hc] at this
    simpa using this
  have hnumeral : ∀ c ∈ text.takeWhile isNumeral, isNumeral c = true :=
    fun _ hc => List.mem_takeWhile_imp hc
  unfold Json.readNumber at h
  obtain ⟨v', hv, h⟩ := Option.map_eq_some_iff.mp h
  obtain ⟨rfl, rfl⟩ := Prod.mk.inj h
  rw [Option.or_eq_some_iff] at hv
  rcases hv with hint | ⟨-, hfraction⟩
  · obtain ⟨n, hn, rfl⟩ := Option.map_eq_some_iff.mp hint
    have hread := readNumber_of_integer? (P := P) hn hrest (hints n (by simp [ints]))
    rwa [List.takeWhile_append_dropWhile] at hread
  · obtain ⟨x, hx, rfl⟩ := Option.map_eq_some_iff.mp hfraction
    have hread := N.readNumber _ x hnumeral hx _ hrest
    rwa [List.takeWhile_append_dropWhile] at hread

/-! ### Values -/

/-- Where nothing is a numeral in one reader, it is none in the other. -/
theorem read_eq_none (N : Numerals F P) {numeral : List Char}
    (hnumeral : ∀ c ∈ numeral, isNumeral c = true) (h : readNumber (P := P) numeral = none) :
    F.read numeral = none := by
  cases hread : F.read numeral with
  | none => rfl
  | some x =>
      have := N.readNumber numeral x hnumeral hread [] follows_nil
      rw [List.append_nil, h] at this
      cases this

/-- No number starts like one of the names that only `json.loads` reads. -/
theorem readNumber_name (N : Numerals F P) {c : Char} {text : List Char} (h : isNumeral c = false) :
    Json.readNumber (F := F) (c :: text) = none := by
  have hread : F.read [] = none := read_eq_none N nofun rfl
  simp [Json.readNumber, h, integer?, natural?, hread]

theorem readNumber_minus_name (N : Numerals F P) {c : Char} {text : List Char}
    (h : isNumeral c = false) : Json.readNumber (F := F) ('-' :: c :: text) = none := by
  have hminus : isNumeral '-' = true := by decide
  have hread : F.read ['-'] = none := read_eq_none N (by simp [hminus]) rfl
  simp [Json.readNumber, h, hminus, integer?, natural?, hread]

theorem readValue_array_close {fuel : Nat} {text tail rest : List Char} (h : skip text = '[' :: tail)
    (hclose : skip tail = ']' :: rest) :
    readValue (P := P) (fuel + 1) text = some (.list [], rest) := by
  rw [readValue, h]
  show (match skip tail with
    | ']' :: rest => some (Obj.list [], rest)
    | rest => (readElements fuel rest).map fun (r : List (Obj P.Float) × List Char) =>
        (Obj.list r.1, r.2)) = _
  rw [hclose]
  rfl

/-- An array that is not closed at once is read element by element. -/
theorem readValue_array {fuel : Nat} {text tail : List Char} (h : skip text = '[' :: tail)
    (hopen : ∀ rest, skip tail = ']' :: rest → False) :
    readValue (P := P) (fuel + 1) text =
      (readElements fuel (skip tail)).map fun r => (.list r.1, r.2) := by
  rw [readValue, h]
  show (match skip tail with
    | ']' :: rest => some (Obj.list [], rest)
    | rest => (readElements fuel rest).map fun (r : List (Obj P.Float) × List Char) =>
        (Obj.list r.1, r.2)) = _
  split
  · rename_i heq
    exact absurd heq (hopen _)
  · rfl

theorem readValue_object_close {fuel : Nat} {text tail rest : List Char} (h : skip text = '{' :: tail)
    (hclose : skip tail = '}' :: rest) :
    readValue (P := P) (fuel + 1) text = some (.dict [], rest) := by
  rw [readValue, h]
  show (match skip tail with
    | '}' :: rest => some (Obj.dict [], rest)
    | rest => (readMembers fuel rest).map
        fun (r : List (List CodePoint × Obj P.Float) × List Char) => (Obj.dict (toDict r.1), r.2)) = _
  rw [hclose]
  rfl

/-- An object that is not closed at once is read member by member. -/
theorem readValue_object {fuel : Nat} {text tail : List Char} (h : skip text = '{' :: tail)
    (hopen : ∀ rest, skip tail = '}' :: rest → False) :
    readValue (P := P) (fuel + 1) text =
      (readMembers fuel (skip tail)).map fun r => (.dict (toDict r.1), r.2) := by
  rw [readValue, h]
  show (match skip tail with
    | '}' :: rest => some (Obj.dict [], rest)
    | rest => (readMembers fuel rest).map
        fun (r : List (List CodePoint × Obj P.Float) × List Char) => (Obj.dict (toDict r.1), r.2)) = _
  split
  · rename_i heq
    exact absurd heq (hopen _)
  · rfl

/-- **Each reader reads what the strict one reads.** -/
theorem read_of_read (N : Numerals F P) (fuel : Nat) :
    (∀ text (v : Value F) rest, Json.readValue fuel text = some (v, rest) → Short (ints v) →
      readValue fuel text = some (ofValue N v, rest)) ∧
    (∀ text (vs : List (Value F)) rest, Json.readElements fuel text = some (vs, rest) →
      Short (elementsInts vs) → readElements fuel text = some (ofElements N vs, rest)) ∧
    (∀ text (ms : List (List Char × Value F)) rest, Json.readMembers fuel text = some (ms, rest) →
      Short (membersInts ms) → readMembers fuel text = some (ofMembers N ms, rest)) := by
  induction fuel with
  | zero => exact ⟨nofun, nofun, nofun⟩
  | succ fuel ih =>
      obtain ⟨ihvalue, ihelements, ihmembers⟩ := ih
      refine ⟨?_, ?_, ?_⟩
      · intro text v rest h hints
        rw [Json.readValue] at h
        split at h
        · rename_i hskip
          obtain ⟨rfl, rfl⟩ := Prod.mk.inj (Option.some.inj h)
          rw [readValue, hskip]
          rfl
        · rename_i hskip
          obtain ⟨rfl, rfl⟩ := Prod.mk.inj (Option.some.inj h)
          rw [readValue, hskip]
          rfl
        · rename_i hskip
          obtain ⟨rfl, rfl⟩ := Prod.mk.inj (Option.some.inj h)
          rw [readValue, hskip]
          rfl
        · rename_i hskip
          obtain ⟨r, hr, h⟩ := Option.map_eq_some_iff.mp h
          obtain ⟨rfl, rfl⟩ := Prod.mk.inj h
          rw [readValue, hskip]
          show (readString _).map _ = _
          rw [readString_of_readString hr]
          rfl
        · rename_i tail hskip
          split at h
          · rename_i hclose
            obtain ⟨rfl, rfl⟩ := Prod.mk.inj (Option.some.inj h)
            exact readValue_array_close hskip hclose
          · rename_i hopen
            obtain ⟨r, hr, h⟩ := Option.map_eq_some_iff.mp h
            obtain ⟨rfl, rfl⟩ := Prod.mk.inj h
            rw [readValue_array hskip hopen, ihelements _ _ _ hr hints]
            rfl
        · rename_i tail hskip
          split at h
          · rename_i hclose
            obtain ⟨rfl, rfl⟩ := Prod.mk.inj (Option.some.inj h)
            exact readValue_object_close hskip hclose
          · rename_i hopen
            obtain ⟨r, hr, h⟩ := Option.map_eq_some_iff.mp h
            obtain ⟨rfl, rfl⟩ := Prod.mk.inj h
            rw [readValue_object hskip hopen, ihmembers _ _ _ hr hints]
            rfl
        · -- a number; the names that only `json.loads` reads are none
          rename_i hnull htrue hfalse hquote harray hobject
          rw [readValue]
          split
          · rename_i heq
            exact absurd heq (hnull _)
          · rename_i heq
            exact absurd heq (htrue _)
          · rename_i heq
            exact absurd heq (hfalse _)
          · rename_i heq
            rw [heq, readNumber_name N (by decide)] at h
            cases h
          · rename_i heq
            rw [heq, readNumber_name N (by decide)] at h
            cases h
          · rename_i heq
            rw [heq, readNumber_minus_name N (by decide)] at h
            cases h
          · rename_i heq
            exact absurd heq (hquote _)
          · rename_i heq
            exact absurd heq (harray _)
          · rename_i heq
            exact absurd heq (hobject _)
          · exact readNumber_of_readNumber N h hints
      · intro text vs rest h hints
        rw [Json.readElements] at h
        obtain ⟨⟨v, after⟩, hv, h⟩ := Option.bind_eq_some_iff.mp h
        dsimp only at h
        split at h
        · rename_i hclose
          obtain ⟨rfl, rfl⟩ := Prod.mk.inj (Option.some.inj h)
          rw [readElements, ihvalue _ _ _ hv hints.append.1, Option.bind_some]
          dsimp only
          rw [hclose]
          rfl
        · rename_i hcomma
          obtain ⟨r, hr, h⟩ := Option.map_eq_some_iff.mp h
          obtain ⟨rfl, rfl⟩ := Prod.mk.inj h
          rw [readElements, ihvalue _ _ _ hv hints.append.1, Option.bind_some]
          dsimp only
          rw [hcomma]
          show (readElements fuel _).map _ = _
          rw [ihelements _ _ _ hr hints.append.2]
          rfl
        · cases h
      · intro text ms rest h hints
        rw [Json.readMembers] at h
        obtain ⟨⟨key, after⟩, hkey, h⟩ := Option.bind_eq_some_iff.mp h
        obtain ⟨⟨v, after'⟩, hv, h⟩ := Option.bind_eq_some_iff.mp h
        dsimp only at h hv
        split at h
        · rename_i hclose
          obtain ⟨rfl, rfl⟩ := Prod.mk.inj (Option.some.inj h)
          rw [readMembers, readKey_of_readKey hkey, Option.bind_some]
          dsimp only
          rw [ihvalue _ _ _ hv hints.append.1, Option.bind_some]
          dsimp only
          rw [hclose]
          rfl
        · rename_i hcomma
          obtain ⟨r, hr, h⟩ := Option.map_eq_some_iff.mp h
          obtain ⟨rfl, rfl⟩ := Prod.mk.inj h
          rw [readMembers, readKey_of_readKey hkey, Option.bind_some]
          dsimp only
          rw [ihvalue _ _ _ hv hints.append.1, Option.bind_some]
          dsimp only
          rw [hcomma]
          show (readMembers fuel _).map _ = _
          rw [ihmembers _ _ _ hr hints.append.2]
          rfl
        · cases h

/-- **What the strict reader reads, `json.loads` reads as the same object.** -/
theorem loads_of_load (N : Numerals F P) {text : List Char} {v : Value F} (h : load text = some v)
    (hints : Short (ints v)) : loads text = some (ofValue N v) := by
  obtain ⟨r, hr, h⟩ := Option.bind_eq_some_iff.mp h
  split at h
  · rename_i hskip
    obtain rfl := Option.some.inj h
    have hread := (read_of_read N _).1 _ _ _ hr hints
    rw [loads, hread, Option.bind_some]
    exact if_pos hskip
  · cases h

/-- **A written value is read back.** -/
theorem loads_text (N : Numerals F P) (v : Value F) (hints : Short (ints v)) :
    loads v.text = some (ofValue N v) := by
  have h := load_text v [] nofun
  rw [List.append_nil] at h
  exact loads_of_load N h hints

/-! ### Members -/

/-- A new key is appended behind the members there are. -/
theorem setItem_of_notMem {key : List CodePoint} {value : Obj P.Float}
    {members : List (List CodePoint × Obj P.Float)} (h : key ∉ members.map Prod.fst) :
    setItem key value members = members ++ [(key, value)] := by
  induction members with
  | nil => rfl
  | cons m members ih =>
      rw [List.map_cons, List.mem_cons, not_or] at h
      rw [setItem, if_neg (Ne.symm h.1), ih h.2, List.cons_append]

/-- **Members with distinct keys are kept as they are.** -/
theorem toDict_of_nodup {pairs : List (List CodePoint × Obj P.Float)}
    (h : (pairs.map Prod.fst).Nodup) : toDict pairs = pairs := by
  have hfold : ∀ (rest init : List (List CodePoint × Obj P.Float)),
      ((init ++ rest).map Prod.fst).Nodup →
        rest.foldl (fun d pair => setItem pair.1 pair.2 d) init = init ++ rest := by
    intro rest
    induction rest with
    | nil => intro init _; rw [List.foldl_nil, List.append_nil]
    | cons pair rest ih =>
        intro init hnodup
        have hnew : pair.1 ∉ init.map Prod.fst := by
          intro hmem
          rw [List.map_append, List.map_cons, List.nodup_append] at hnodup
          exact hnodup.2.2 _ hmem _ List.mem_cons_self rfl
        rw [List.foldl_cons, setItem_of_notMem hnew, ih _ (by simpa using hnodup),
          List.append_assoc, List.singleton_append]
  exact hfold pairs [] h

end Agreement

end PyJson
