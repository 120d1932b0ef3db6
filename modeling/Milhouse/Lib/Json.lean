import Mathlib.Data.Bool.AllAny
import Mathlib.Data.List.Induction
import Mathlib.Data.List.TakeWhile
import Mathlib.Data.Nat.Notation

/-!
# Json — values, their compact text, and the reader of it

The text of a value has no blank outside its strings, and a string escapes exactly the quote, the
backslash and the control characters. The reader is the usual recursive descent; it takes fuel, and
accepts blanks and every escape, so that it reads more than the writer writes.

Fractional numerals are left open: a `Fractions` is a type of non-integral numbers with a text and a
reader of it that are inverse, as a shortest round-trip float text is.

* **`natural?_eq_some_iff`** — a numeral of a natural number is its decimal text;
* **`load_text`** — the reader reads back every value that was written;
* `text_head` — the text of a value starts with a character that is not blank;
* **`text_printable`** — it has no control character, so no line feed.
-/

namespace Json

/-- A character a JSON numeral can have. -/
def isNumeral (c : Char) : Bool :=
  c.isDigit || c = '-' || c = '+' || c = '.' || c = 'e' || c = 'E'

/-- `0` or a digit string that does not start with it. -/
def natural? (digits : List Char) : Option Nat :=
  if digits.all Char.isDigit ∧ digits ≠ [] ∧ (digits.head? = some '0' → digits = ['0']) then
    some (Nat.ofDigitChars 10 digits 0)
  else none

/-- The numeral of an integer. -/
def integer? : List Char → Option Int
  | '-' :: digits => (natural? digits).map fun (n : Nat) => -(n : Int)
  | digits => (natural? digits).map fun (n : Nat) => (n : Int)

/-- The non-integral numbers: their texts, and the reading of a numeral. -/
structure Fractions where
  Number : Type
  text : Number → List Char
  read : List Char → Option Number
  read_text : ∀ f, read (text f) = some f
  text_numeral : ∀ f, ∀ c ∈ text f, isNumeral c = true
  text_ne_nil : ∀ f, text f ≠ []
  integer?_text : ∀ f, integer? (text f) = none

/-- No number but the integers. -/
def integersOnly : Fractions where
  Number := Empty
  text := nofun
  read := fun _ => none
  read_text := nofun
  text_numeral := nofun
  text_ne_nil := nofun
  integer?_text := nofun

/-- A JSON value; an object keeps its members in order. -/
inductive Value (F : Fractions) : Type
  | null
  | bool (flag : Bool)
  | int (value : Int)
  | fraction (value : F.Number)
  | str (text : List Char)
  | arr (elements : List (Value F))
  | obj (members : List (List Char × Value F))

variable {F : Fractions}

/-! ## Writing -/

/-- The decimal text of an integer. -/
def intText (value : Int) : List Char :=
  if value < 0 then '-' :: Nat.toDigits 10 value.natAbs else Nat.toDigits 10 value.natAbs

/-- The characters a string writes as a backslash and a letter, with their letters. -/
def shortEscapes : List (Char × Char) :=
  [('"', '"'), ('\\', '\\'), ('\n', 'n'), ('\r', 'r'), ('\t', 't'),
    (Char.ofNat 8, 'b'), (Char.ofNat 12, 'f')]

/-- A character inside a string. -/
def escape (c : Char) : List Char :=
  match shortEscapes.find? fun e => e.1 = c with
  | some e => ['\\', e.2]
  | none =>
      if c.toNat < 32 then
        ['\\', 'u', '0', '0', Nat.digitChar (c.toNat / 16), Nat.digitChar (c.toNat % 16)]
      else [c]

/-- A string with its quotes. -/
def quote (text : List Char) : List Char := '"' :: text.flatMap escape ++ ['"']

mutual

/-- The compact text of a value. -/
def Value.text : Value F → List Char
  | .null => ['n', 'u', 'l', 'l']
  | .bool true => ['t', 'r', 'u', 'e']
  | .bool false => ['f', 'a', 'l', 's', 'e']
  | .int value => intText value
  | .fraction value => F.text value
  | .str text => quote text
  | .arr [] => ['[', ']']
  | .arr (first :: rest) => '[' :: (first.text ++ elementsText rest)
  | .obj [] => ['{', '}']
  | .obj ((key, value) :: rest) => '{' :: (quote key ++ ':' :: (value.text ++ membersText rest))

/-- The elements after the first one, and the bracket. -/
def elementsText : List (Value F) → List Char
  | [] => [']']
  | value :: rest => ',' :: (value.text ++ elementsText rest)

/-- The members after the first one, and the brace. -/
def membersText : List (List Char × Value F) → List Char
  | [] => ['}']
  | (key, value) :: rest => ',' :: (quote key ++ ':' :: (value.text ++ membersText rest))

end

/-! ### The text of a container from those of its parts -/

/-- Separating by a text is writing it before every element but the first. -/
theorem intercalate_cons_eq (sep text : List Char) (texts : List (List Char)) :
    sep.intercalate (text :: texts) = text ++ texts.flatMap (sep ++ ·) := by
  induction texts generalizing text with
  | nil => simp [List.intercalate]
  | cons next texts ih =>
      have hstep : sep.intercalate (text :: next :: texts) =
          text ++ (sep ++ sep.intercalate (next :: texts)) := by
        simp [List.intercalate, List.intersperse]
      rw [hstep, ih, List.flatMap_cons, List.append_assoc]

theorem elementsText_eq (elements : List (Value F)) :
    elementsText elements = (elements.map Value.text).flatMap ([','] ++ ·) ++ [']'] := by
  induction elements with
  | nil => rfl
  | cons value rest ih =>
      rw [elementsText, ih, List.map_cons, List.flatMap_cons, List.append_assoc, List.append_assoc]
      rfl

/-- The text of an array in the usual form: the texts of its elements with commas between them. -/
theorem text_arr (elements : List (Value F)) :
    (Value.arr elements).text = '[' :: [','].intercalate (elements.map Value.text) ++ [']'] := by
  cases elements with
  | nil => rfl
  | cons first rest =>
      rw [Value.text, elementsText_eq, List.map_cons, intercalate_cons_eq, List.cons_append,
        List.append_assoc]

/-- A member of an object. -/
def memberText (m : List Char × Value F) : List Char := quote m.1 ++ ':' :: m.2.text

theorem membersText_eq (members : List (List Char × Value F)) :
    membersText members = (members.map memberText).flatMap ([','] ++ ·) ++ ['}'] := by
  induction members with
  | nil => rfl
  | cons m rest ih =>
      rw [membersText, ih, List.map_cons, List.flatMap_cons, memberText, List.append_assoc,
        List.append_assoc, List.append_assoc, List.cons_append]
      rfl

/-- The text of an object in the usual form: its members with commas between them. -/
theorem text_obj (members : List (List Char × Value F)) :
    (Value.obj members).text = '{' :: [','].intercalate (members.map memberText) ++ ['}'] := by
  cases members with
  | nil => rfl
  | cons m rest =>
      rw [Value.text, membersText_eq, List.map_cons, intercalate_cons_eq, memberText,
        List.cons_append, List.append_assoc, List.append_assoc, List.cons_append]

/-! ## Reading -/

def isBlank (c : Char) : Bool := c = ' ' || c = '\t' || c = '\n' || c = '\r'

/-- Skip blanks. -/
def skip (text : List Char) : List Char := text.dropWhile isBlank

def hexValue? (c : Char) : Option Nat :=
  if c.isDigit then some (c.toNat - '0'.toNat)
  else if 'a' ≤ c ∧ c ≤ 'f' then some (c.toNat - 'a'.toNat + 10)
  else if 'A' ≤ c ∧ c ≤ 'F' then some (c.toNat - 'A'.toNat + 10)
  else none

/-- The character of four hex digits; the escape of a surrogate is refused. -/
def hexChar? (a b c d : Char) : Option Char := do
  let code := 4096 * (← hexValue? a) + 256 * (← hexValue? b) + 16 * (← hexValue? c) + (← hexValue? d)
  if code.isValidChar then some (Char.ofNat code) else none

/-- The character of a letter after a backslash. -/
def unescape? (letter : Char) : Option Char :=
  if letter = '/' then some '/' else (shortEscapes.find? fun e => e.2 = letter).map Prod.fst

/-- The rest of a string after its opening quote. -/
def readString : List Char → Option (List Char × List Char)
  | [] => none
  | '"' :: rest => some ([], rest)
  | '\\' :: 'u' :: a :: b :: c :: d :: rest =>
      (hexChar? a b c d).bind fun x => (readString rest).map fun r => (x :: r.1, r.2)
  | '\\' :: letter :: rest =>
      (unescape? letter).bind fun x => (readString rest).map fun r => (x :: r.1, r.2)
  | c :: rest => if c.toNat < 32 then none else (readString rest).map fun r => (c :: r.1, r.2)

/-- A number: the longest run of numeral characters. -/
def readNumber (text : List Char) : Option (Value F × List Char) :=
  let numeral := text.takeWhile isNumeral
  let value? := ((integer? numeral).map Value.int).or ((F.read numeral).map Value.fraction)
  value?.map fun value => (value, text.dropWhile isNumeral)

/-- A member key and the colon after it. -/
def readKey (text : List Char) : Option (List Char × List Char) :=
  match skip text with
  | '"' :: rest =>
      (readString rest).bind fun r =>
        match skip r.2 with
        | ':' :: rest => some (r.1, rest)
        | _ => none
  | _ => none

mutual

/-- Read a value from the front of a text. -/
def readValue : Nat → List Char → Option (Value F × List Char)
  | 0, _ => none
  | fuel + 1, text =>
      match skip text with
      | 'n' :: 'u' :: 'l' :: 'l' :: rest => some (.null, rest)
      | 't' :: 'r' :: 'u' :: 'e' :: rest => some (.bool true, rest)
      | 'f' :: 'a' :: 'l' :: 's' :: 'e' :: rest => some (.bool false, rest)
      | '"' :: rest => (readString rest).map fun r => (.str r.1, r.2)
      | '[' :: rest =>
          match skip rest with
          | ']' :: rest => some (.arr [], rest)
          | rest => (readElements fuel rest).map fun r => (.arr r.1, r.2)
      | '{' :: rest =>
          match skip rest with
          | '}' :: rest => some (.obj [], rest)
          | rest => (readMembers fuel rest).map fun r => (.obj r.1, r.2)
      | text => readNumber text

/-- Read the elements of an array up to its bracket. -/
def readElements : Nat → List Char → Option (List (Value F) × List Char)
  | 0, _ => none
  | fuel + 1, text =>
      (readValue fuel text).bind fun r =>
        match skip r.2 with
        | ']' :: rest => some ([r.1], rest)
        | ',' :: rest => (readElements fuel rest).map fun e => (r.1 :: e.1, e.2)
        | _ => none

/-- Read the members of an object up to its brace. -/
def readMembers : Nat → List Char → Option (List (List Char × Value F) × List Char)
  | 0, _ => none
  | fuel + 1, text =>
      (readKey text).bind fun k =>
        (readValue fuel k.2).bind fun r =>
          match skip r.2 with
          | '}' :: rest => some ([(k.1, r.1)], rest)
          | ',' :: rest => (readMembers fuel rest).map fun e => ((k.1, r.1) :: e.1, e.2)
          | _ => none

end

/-- Read a text that is one value, with blanks around it. -/
def load (text : List Char) : Option (Value F) :=
  (readValue (text.length + 1) text).bind fun r => if skip r.2 = [] then some r.1 else none

/-! ## Numerals -/

/-- What follows a value is not part of its numeral. -/
def Follows (text : List Char) : Prop := ∀ c ∈ text.head?, isNumeral c = false

theorem follows_nil : Follows [] := nofun

/-- After a number the text may go on with any character that cannot continue the number. -/
theorem follows_cons {c : Char} {text : List Char} (h : isNumeral c = false) :
    Follows (c :: text) := by
  intro d hd
  rw [List.head?_cons, Option.mem_some] at hd
  rw [← hd]
  exact h

theorem isDigit_of_mem_toDigits {n : Nat} {c : Char} (h : c ∈ Nat.toDigits 10 n) :
    c.isDigit = true :=
  Nat.isDigit_of_mem_toDigits (by decide) (by decide) h

/-- A decimal text starts with `0` only where it is `0`. -/
theorem toDigits_eq_zero_of_head? (n : Nat) :
    (Nat.toDigits 10 n).head? = some '0' → Nat.toDigits 10 n = ['0'] := by
  induction n using Nat.strong_induction_on with
  | _ n ih =>
      by_cases hsmall : n < 10
      · rw [Nat.toDigits_of_lt_base hsmall, List.head?_cons, Option.some.injEq]
        intro hzero
        rw [hzero]
      · intro hhead
        have hbase : 10 ≤ n := Nat.le_of_not_lt hsmall
        rw [Nat.toDigits_of_base_le (by decide) hbase,
          List.head?_append, Option.or_of_isSome (List.isSome_head?.mpr Nat.toDigits_ne_nil)] at hhead
        -- the digits of `n / 10` would be `0` alone, so `n` would have one digit
        have hzero := ih (n / 10) (Nat.div_lt_self (by omega) (by decide)) hhead
        have hvalue := congrArg (Nat.ofDigitChars 10 · 0) hzero
        simp only [Nat.ofDigitChars_ten_toDigits] at hvalue
        have : n / 10 = 0 := hvalue.trans (by decide)
        omega

/-- A natural number is read back from its digits. -/
theorem natural?_toDigits (n : Nat) : natural? (Nat.toDigits 10 n) = some n := by
  have hdigits : (Nat.toDigits 10 n).all Char.isDigit = true :=
    List.all_eq_true.mpr fun c hc => isDigit_of_mem_toDigits hc
  unfold natural?
  rw [if_pos ⟨hdigits, Nat.toDigits_ne_nil, toDigits_eq_zero_of_head? n⟩,
    Nat.ofDigitChars_ten_toDigits]

/-- A character that is a digit is the digit of its value. -/
theorem digitChar_of_isDigit {c : Char} (h : c.isDigit = true) :
    c.toNat - '0'.toNat < 10 ∧ Nat.digitChar (c.toNat - '0'.toNat) = c := by
  have hback : ∀ n < 10, Nat.digitChar n = Char.ofNat (n + 48) := by decide
  have hrange : 48 ≤ c.toNat ∧ c.toNat ≤ 57 := Char.isDigit_iff_toNat.mp h
  have hlt : c.toNat - 48 < 10 := by omega
  refine ⟨hlt, ?_⟩
  show Nat.digitChar (c.toNat - 48) = c
  rw [hback _ hlt, Nat.sub_add_cancel hrange.1, Char.ofNat_toNat]

/-- Digits that do not start with `0` are the decimal text of their value. -/
theorem toDigits_ofDigitChars {digits : List Char} (hall : ∀ c ∈ digits, c.isDigit = true)
    (hne : digits ≠ []) (hzero : digits.head? = some '0' → digits = ['0']) :
    Nat.toDigits 10 (Nat.ofDigitChars 10 digits 0) = digits := by
  induction digits using List.reverseRecOn with
  | nil => exact absurd rfl hne
  | append_singleton init d ih =>
      obtain ⟨hd, hchar⟩ := digitChar_of_isDigit (hall d (by simp))
      rw [Nat.ofDigitChars_append, Nat.ofDigitChars_cons, Nat.ofDigitChars_nil]
      cases init with
      | nil =>
          rw [Nat.ofDigitChars_nil, Nat.mul_zero, Nat.zero_add, Nat.toDigits_of_lt_base hd, hchar]
          rfl
      | cons c init =>
          have hfirst : c ≠ '0' := by
            rintro rfl
            have := congrArg List.length (hzero rfl)
            simp at this
          have hinit := ih (fun x hx => hall x (List.mem_append_left _ hx)) (List.cons_ne_nil _ _)
            fun h => absurd (Option.some.inj h) hfirst
          -- the digits before the last one are not those of `0`
          have hpos : 0 < Nat.ofDigitChars 10 (c :: init) 0 := by
            apply Nat.pos_of_ne_zero
            intro h
            rw [h, Nat.toDigits_zero] at hinit
            exact hfirst (List.cons.inj hinit).1.symm
          rw [← Nat.toDigits_append_toDigits (by decide) hpos hd, hinit,
            Nat.toDigits_of_lt_base hd, hchar]

/-- **A natural numeral is the decimal text of its value.** -/
theorem natural?_eq_some_iff {digits : List Char} {n : Nat} :
    natural? digits = some n ↔ digits = Nat.toDigits 10 n := by
  constructor
  · intro h
    unfold natural? at h
    split at h
    · rename_i hnatural
      rw [← Option.some.inj h, toDigits_ofDigitChars (List.all_eq_true.mp hnatural.1)
        hnatural.2.1 hnatural.2.2]
    · cases h
  · rintro rfl
    exact natural?_toDigits n

theorem isNumeral_of_isDigit {c : Char} (h : c.isDigit = true) : isNumeral c = true := by
  simp [isNumeral, h]

/-- An integer is spelled with the characters of numerals only. -/
theorem intText_numeral {value : Int} {c : Char} (h : c ∈ intText value) : isNumeral c = true := by
  unfold intText at h
  split at h
  · rcases List.mem_cons.mp h with hminus | hdigit
    · rw [hminus]
      decide
    · exact isNumeral_of_isDigit (isDigit_of_mem_toDigits hdigit)
  · exact isNumeral_of_isDigit (isDigit_of_mem_toDigits h)

theorem intText_ne_nil (value : Int) : intText value ≠ [] := by
  unfold intText
  split
  · exact List.cons_ne_nil _ _
  · exact Nat.toDigits_ne_nil

/-- An integer is read back from its text. -/
theorem integer?_intText (value : Int) : integer? (intText value) = some value := by
  unfold intText
  split
  · rename_i hneg
    show (natural? (Nat.toDigits 10 value.natAbs)).map (fun (n : Nat) => -(n : Int)) = some value
    rw [natural?_toDigits, Option.map_some]
    congr 1
    omega
  · rename_i hnonneg
    have hplain : ∀ digits : List Char, (∀ c ∈ digits, c.isDigit = true) →
        integer? digits = (natural? digits).map fun (n : Nat) => (n : Int) := by
      intro digits hdigits
      unfold integer?
      split
      · exact absurd (hdigits '-' (by simp)) (by decide)
      · rfl
    rw [hplain _ fun c hc => isDigit_of_mem_toDigits hc, natural?_toDigits, Option.map_some]
    congr 1
    omega

/-- A numeral ends where a character that is none follows. -/
theorem takeWhile_numeral (numeral : List Char) {rest : List Char}
    (h : ∀ c ∈ numeral, isNumeral c = true) (hrest : Follows rest) :
    (numeral ++ rest).takeWhile isNumeral = numeral ∧
      (numeral ++ rest).dropWhile isNumeral = rest := by
  have hstop : rest.takeWhile isNumeral = [] ∧ rest.dropWhile isNumeral = rest := by
    cases rest with
    | nil => exact ⟨rfl, rfl⟩
    | cons c text =>
        have hc : isNumeral c = false := hrest c rfl
        simp [hc]
  constructor
  · rw [List.takeWhile_append_of_pos h, hstop.1, List.append_nil]
  · rw [List.dropWhile_append_of_pos h, hstop.2]

/-- An integer in front of other text is read as it is alone. -/
theorem readNumber_int (value : Int) {rest : List Char} (hrest : Follows rest) :
    readNumber (F := F) (intText value ++ rest) = some (.int value, rest) := by
  obtain ⟨htake, hdrop⟩ := takeWhile_numeral (intText value) (fun _ hc => intText_numeral hc) hrest
  simp [readNumber, htake, hdrop, integer?_intText]

/-- So is a fraction. -/
theorem readNumber_fraction (value : F.Number) {rest : List Char} (hrest : Follows rest) :
    readNumber (F.text value ++ rest) = some (.fraction value, rest) := by
  obtain ⟨htake, hdrop⟩ := takeWhile_numeral (F.text value) (F.text_numeral value) hrest
  simp [readNumber, htake, hdrop, F.integer?_text, F.read_text]

/-! ## Strings -/

/-- The reader undoes the escape of a control character. -/
theorem hexChar?_control : ∀ n < 32, hexChar? '0' '0' (Nat.digitChar (n / 16))
    (Nat.digitChar (n % 16)) = some (Char.ofNat n) := by decide

/-- An escaped character is read back as the character. -/
theorem readString_escape (c : Char) (rest : List Char) :
    readString (escape c ++ rest) = (readString rest).map fun r => (c :: r.1, r.2) := by
  unfold escape
  split
  · -- a short escape: each letter is given back by `unescape?`, and none of them is `u`
    rename_i e he
    have hshort : ∀ e ∈ shortEscapes, e.2 ≠ 'u' ∧ unescape? e.2 = some e.1 := by decide
    obtain ⟨hu, hback⟩ := hshort e (List.mem_of_find?_eq_some he)
    have hc : e.1 = c := by simpa using List.find?_some he
    show readString ('\\' :: e.2 :: rest) = _
    rw [readString.eq_4 _ _ fun _ _ _ _ _ h _ => hu h, hback, hc]
    rfl
  · rename_i hnone
    split
    · rename_i hcontrol
      show readString ('\\' :: 'u' :: '0' :: '0' :: _ :: _ :: rest) = _
      rw [readString, hexChar?_control c.toNat hcontrol, Char.ofNat_toNat]
      rfl
    · rename_i hplain
      have hquote : c ≠ '"' := by
        intro h
        rw [h] at hnone
        exact absurd hnone (by decide)
      have hbackslash : c ≠ '\\' := by
        intro h
        rw [h] at hnone
        exact absurd hnone (by decide)
      show readString (c :: rest) = _
      rw [readString.eq_5 _ _ hquote (fun _ _ _ _ _ h => absurd h hbackslash)
        (fun _ _ h => absurd h hbackslash), if_neg hplain]

/-- A written string is read back up to its closing quote. -/
theorem readString_quote (text rest : List Char) :
    readString (text.flatMap escape ++ '"' :: rest) = some (text, rest) := by
  induction text with
  | nil => rfl
  | cons c text ih => rw [List.flatMap_cons, List.append_assoc, readString_escape, ih, Option.map_some]

/-! ### Plain text -/

/-- A text that a string writes without escapes. -/
def IsPlain (text : List Char) : Prop := ∀ c ∈ text, escape c = [c]

instance (text : List Char) : Decidable (IsPlain text) :=
  decidable_of_iff ((text.all fun c => escape c = [c]) = true) List.all_iff_forall_prop

/-- A text without quotes, backslashes and control characters is spelled as itself. -/
theorem flatMap_escape {text : List Char} (h : IsPlain text) : text.flatMap escape = text := by
  induction text with
  | nil => rfl
  | cons c text ih =>
      rw [List.flatMap_cons, h c (List.mem_cons_self ..),
        ih fun d hd => h d (List.mem_cons_of_mem _ hd)]
      rfl

/-- A plain text is quoted with two characters more. -/
theorem length_quote {text : List Char} (h : IsPlain text) :
    (quote text).length = text.length + 2 := by
  rw [quote, List.length_append, List.length_cons, flatMap_escape h]
  rfl

theorem escape_isDigit {c : Char} (h : c.isDigit = true) : escape c = [c] := by
  have hdigits : ∀ n < 58, 48 ≤ n → escape (Char.ofNat n) = [Char.ofNat n] := by decide
  obtain ⟨hlow, hhigh⟩ : 48 ≤ c.toNat ∧ c.toNat ≤ 57 := Char.isDigit_iff_toNat.mp h
  have hc := hdigits c.toNat (by omega) hlow
  rw [Char.ofNat_toNat] at hc
  exact hc

/-! ## The round trip -/

/-- A numeral starts no other value, and is not blank. -/
theorem isNumeral_not {c : Char} (h : isNumeral c = true) :
    isBlank c = false ∧ c ≠ 'n' ∧ c ≠ 't' ∧ c ≠ 'f' ∧ c ≠ '"' ∧ c ≠ '[' ∧ c ≠ '{' := by
  refine ⟨?_, ?_, ?_, ?_, ?_, ?_, ?_⟩
  · cases hblank : isBlank c
    · rfl
    · simp only [isBlank, Bool.or_eq_true, decide_eq_true_eq] at hblank
      rcases hblank with ((rfl | rfl) | rfl) | rfl <;> exact absurd h (by decide)
  all_goals
    rintro rfl
    exact absurd h (by decide)

theorem skip_cons {c : Char} {text : List Char} (h : isBlank c = false) :
    skip (c :: text) = c :: text := by simp [skip, h]

/-- A text that starts like a numeral is read as a number. -/
theorem readValue_numeral {fuel : Nat} {c : Char} {text : List Char} (h : isNumeral c = true) :
    readValue (F := F) (fuel + 1) (c :: text) = readNumber (c :: text) := by
  obtain ⟨hblank, hn, ht, hf, hq, hb, ho⟩ := isNumeral_not h
  rw [readValue, skip_cons hblank]
  split <;> simp_all

/-- **The text of a value starts with a character that is not blank**, nor a closing bracket. -/
theorem text_head (v : Value F) : ∃ c rest, v.text = c :: rest ∧ isBlank c = false ∧ c ≠ ']' := by
  have hnumeral : ∀ numeral : List Char, numeral ≠ [] → (∀ c ∈ numeral, isNumeral c = true) →
      ∃ c rest, numeral = c :: rest ∧ isBlank c = false ∧ c ≠ ']' := by
    intro numeral hne hall
    obtain ⟨c, rest, rfl⟩ := List.exists_cons_of_ne_nil hne
    have hc := hall c (List.mem_cons_self ..)
    refine ⟨c, rest, rfl, (isNumeral_not hc).1, ?_⟩
    rintro rfl
    exact absurd hc (by decide)
  cases v with
  | int value => exact hnumeral _ (intText_ne_nil value) fun _ hc => intText_numeral hc
  | fraction value => exact hnumeral _ (F.text_ne_nil value) (F.text_numeral value)
  | null => exact ⟨_, _, rfl, by decide, by decide⟩
  | bool flag => cases flag <;> exact ⟨_, _, rfl, by decide, by decide⟩
  | str text => exact ⟨_, _, rfl, by decide, by decide⟩
  | arr elements => cases elements <;> exact ⟨_, _, by rw [Value.text], by decide, by decide⟩
  | obj members =>
      rcases members with _ | ⟨⟨key, value⟩, rest⟩ <;>
        exact ⟨_, _, by rw [Value.text], by decide, by decide⟩

/-- The text of a value does not begin with a blank. -/
theorem skip_text (v : Value F) (rest : List Char) : skip (v.text ++ rest) = v.text ++ rest := by
  obtain ⟨c, text, htext, hblank, -⟩ := text_head v
  rw [htext, List.cons_append, skip_cons hblank]

/-- What follows the first element of an array ends a number. -/
theorem elementsText_follows (elements : List (Value F)) (rest : List Char) :
    Follows (elementsText elements ++ rest) := by
  cases elements <;> exact follows_cons (by decide)

/-- What follows the first member of an object ends a number. -/
theorem membersText_follows (members : List (List Char × Value F)) (rest : List Char) :
    Follows (membersText members ++ rest) := by
  rcases members with _ | ⟨⟨key, value⟩, members⟩ <;> exact follows_cons (by decide)

/-- A quoted key and its colon are read back. -/
theorem readKey_quote (key rest : List Char) : readKey (quote key ++ ':' :: rest) = some (key, rest) := by
  show readKey ('"' :: (key.flatMap escape ++ ['"']) ++ ':' :: rest) = _
  rw [List.cons_append, List.append_assoc, readKey, skip_cons (by decide)]
  show (readString (key.flatMap escape ++ '"' :: (':' :: rest))).bind _ = _
  rw [readString_quote]
  rfl

mutual

/-- A value is read back from the front of a text. -/
theorem readValue_text : ∀ (v : Value F) (fuel : Nat) (rest : List Char),
    v.text.length ≤ fuel → Follows rest → readValue fuel (v.text ++ rest) = some (v, rest)
  | v, 0, rest, hfuel, _ => by
      obtain ⟨c, text, htext, -⟩ := text_head v
      rw [htext, List.length_cons] at hfuel
      omega
  | .null, _ + 1, _, _, _ => rfl
  | .bool true, _ + 1, _, _, _ => rfl
  | .bool false, _ + 1, _, _, _ => rfl
  -- A number is no name and no bracket, so its first character leads to the number reader.
  | .int value, fuel + 1, rest, _, hrest => by
      obtain ⟨c, text, htext⟩ := List.exists_cons_of_ne_nil (intText_ne_nil value)
      have hc : isNumeral c = true := intText_numeral (htext ▸ List.mem_cons_self ..)
      have hread := readNumber_int (F := F) value hrest
      rw [htext] at hread
      rw [Value.text, htext, List.cons_append, readValue_numeral hc]
      exact hread
  | .fraction value, fuel + 1, rest, _, hrest => by
      obtain ⟨c, text, htext⟩ := List.exists_cons_of_ne_nil (F.text_ne_nil value)
      have hc : isNumeral c = true := F.text_numeral value c (htext ▸ List.mem_cons_self ..)
      have hread := readNumber_fraction value hrest
      rw [htext] at hread
      rw [Value.text, htext, List.cons_append, readValue_numeral hc]
      exact hread
  | .str text, fuel + 1, rest, _, _ => by
      show (readString (text.flatMap escape ++ ['"'] ++ rest)).map _ = _
      rw [List.append_assoc]
      exact (congrArg _ (readString_quote text rest)).trans rfl
  | .arr [], _ + 1, _, _, _ => by
      rw [Value.text]
      rfl
  | .arr (first :: elements), fuel + 1, rest, hfuel, hrest => by
      rw [Value.text, List.length_cons, List.length_append] at hfuel
      have hread := readElements_text first elements fuel rest (by omega)
      obtain ⟨c, text, htext, hblank, hclose⟩ := text_head first
      rw [Value.text, List.cons_append, List.append_assoc, readValue, skip_cons (by decide)]
      show (match skip (first.text ++ (elementsText elements ++ rest)) with
        | ']' :: rest => some (Value.arr [], rest)
        | rest => (readElements fuel rest).map fun (r : List (Value F) × List Char) =>
            (Value.arr r.1, r.2)) = _
      -- The text of an element does not start with the closing bracket, so the array is not taken
      -- for an empty one.
      rw [skip_text]
      split
      · rename_i heq
        rw [htext, List.cons_append] at heq
        exact absurd (List.cons.inj heq).1 hclose
      · rw [hread]
        rfl
  | .obj [], _ + 1, _, _, _ => by
      rw [Value.text]
      rfl
  | .obj ((key, value) :: members), fuel + 1, rest, hfuel, hrest => by
      rw [Value.text, List.length_cons, List.length_append, List.length_cons, List.length_append] at hfuel
      -- A member starts with a quote, so the object is not taken for an empty one either.
      have hread := readMembers_text key value members fuel rest (by omega)
      rw [Value.text, List.cons_append, readValue, skip_cons (by decide)]
      show (match skip (quote key ++ ':' :: (value.text ++ membersText members) ++ rest) with
        | '}' :: rest => some (Value.obj [], rest)
        | rest => (readMembers fuel rest).map
            fun (r : List (List Char × Value F) × List Char) => (Value.obj r.1, r.2)) = _
      rw [List.append_assoc, List.cons_append, List.append_assoc]
      show (readMembers fuel (quote key ++ ':' :: (value.text ++ (membersText members ++ rest)))).map
        _ = _
      rw [hread]
      rfl

/-- The elements of an array are read up to its bracket. -/
theorem readElements_text : ∀ (first : Value F) (elements : List (Value F)) (fuel : Nat)
    (rest : List Char), first.text.length + (elementsText elements).length ≤ fuel →
    readElements fuel (first.text ++ (elementsText elements ++ rest)) =
      some (first :: elements, rest)
  | first, elements, 0, rest, hfuel => by
      obtain ⟨c, text, htext, -⟩ := text_head first
      rw [htext, List.length_cons] at hfuel
      omega
  | first, [], fuel + 1, rest, hfuel => by
      have hone : (elementsText ([] : List (Value F))).length = 1 := rfl
      have hfirst : first.text.length ≤ fuel := by omega
      have hread := readValue_text first fuel (']' :: rest) hfirst (follows_cons (by decide))
      show readElements (fuel + 1) (first.text ++ ']' :: rest) = _
      rw [readElements, hread]
      rfl
  | first, next :: elements, fuel + 1, rest, hfuel => by
      rw [elementsText, List.length_cons, List.length_append] at hfuel
      have hread := readValue_text first fuel _ (by omega) (elementsText_follows (next :: elements) rest)
      have hnext := readElements_text next elements fuel rest (by omega)
      rw [readElements, hread]
      show (match skip (elementsText (next :: elements) ++ rest) with
        | ']' :: rest => some ([first], rest)
        | ',' :: rest => (readElements fuel rest).map fun (e : List (Value F) × List Char) =>
            (first :: e.1, e.2)
        | _ => none) = _
      rw [elementsText, List.cons_append, skip_cons (by decide), List.append_assoc]
      show (readElements fuel (next.text ++ (elementsText elements ++ rest))).map _ = _
      rw [hnext]
      rfl

/-- The members of an object are read up to its brace. -/
theorem readMembers_text : ∀ (key : List Char) (value : Value F)
    (members : List (List Char × Value F)) (fuel : Nat) (rest : List Char),
    value.text.length + (membersText members).length ≤ fuel →
    readMembers fuel (quote key ++ ':' :: (value.text ++ (membersText members ++ rest))) =
      some ((key, value) :: members, rest)
  | key, value, members, 0, rest, hfuel => by
      obtain ⟨c, text, htext, -⟩ := text_head value
      rw [htext, List.length_cons] at hfuel
      omega
  | key, value, [], fuel + 1, rest, hfuel => by
      have hone : (membersText ([] : List (List Char × Value F))).length = 1 := rfl
      have hvalue : value.text.length ≤ fuel := by omega
      have hread := readValue_text value fuel ('}' :: rest) hvalue (follows_cons (by decide))
      show readMembers (fuel + 1) (quote key ++ ':' :: (value.text ++ '}' :: rest)) = _
      rw [readMembers, readKey_quote]
      show (readValue fuel (value.text ++ '}' :: rest)).bind _ = _
      rw [hread]
      rfl
  | key, value, (nextKey, next) :: members, fuel + 1, rest, hfuel => by
      rw [membersText, List.length_cons, List.length_append, List.length_cons,
        List.length_append] at hfuel
      have hread := readValue_text value fuel _ (by omega)
        (membersText_follows ((nextKey, next) :: members) rest)
      have hnext := readMembers_text nextKey next members fuel rest (by omega)
      rw [readMembers, readKey_quote]
      show (readValue fuel _).bind _ = _
      rw [hread]
      show (match skip (membersText ((nextKey, next) :: members) ++ rest) with
        | '}' :: rest => some ([(key, value)], rest)
        | ',' :: rest => (readMembers fuel rest).map
            fun (e : List (List Char × Value F) × List Char) => ((key, value) :: e.1, e.2)
        | _ => none) = _
      rw [membersText, List.cons_append, skip_cons (by decide), List.append_assoc, List.cons_append,
        List.append_assoc]
      show (readMembers fuel (quote nextKey ++ ':' :: (next.text ++ (membersText members ++ rest)))).map
        _ = _
      rw [hnext]
      rfl

end

/-- **A written value is read back**, also with a line feed after it. -/
theorem load_text (v : Value F) (blanks : List Char) (h : ∀ c ∈ blanks, isBlank c = true) :
    load (v.text ++ blanks) = some v := by
  have hblank : ∀ c, isBlank c = true → isNumeral c = false := by
    intro c hc
    cases hnum : isNumeral c
    · rfl
    · exact absurd hc (by simp [(isNumeral_not hnum).1])
  have hfollows : Follows blanks := fun c hc => hblank c (h c (List.mem_of_mem_head? hc))
  have hskip : skip blanks = [] := List.dropWhile_eq_nil_iff.mpr h
  have hread := readValue_text v ((v.text ++ blanks).length + 1) blanks
    (by rw [List.length_append]; omega) hfollows
  rw [load, hread]
  show (if skip blanks = [] then some v else none) = some v
  rw [if_pos hskip]

/-! ## No control characters -/

theorem isNumeral_printable {c : Char} (h : isNumeral c = true) : 32 ≤ c.toNat := by
  by_contra hlow
  have hcontrol : ∀ n < 32, isNumeral (Char.ofNat n) = false := by decide
  have hc := hcontrol c.toNat (Nat.lt_of_not_le hlow)
  rw [Char.ofNat_toNat] at hc
  exact absurd h (by simp [hc])

/-- An escape has no control character. -/
theorem escape_printable {c d : Char} (h : d ∈ escape c) : 32 ≤ d.toNat := by
  unfold escape at h
  split at h
  · rename_i e he
    have hshort : ∀ e ∈ shortEscapes, 32 ≤ e.2.toNat := by decide
    have hletter := hshort e (List.mem_of_find?_eq_some he)
    simp only [List.mem_cons, List.not_mem_nil, or_false] at h
    rcases h with rfl | rfl
    · decide
    · exact hletter
  · split at h
    · rename_i hcontrol
      have hdigit : ∀ n < 16, 32 ≤ (Nat.digitChar n).toNat := by decide
      have hhigh := hdigit (c.toNat / 16) (by omega)
      have hlow := hdigit (c.toNat % 16) (by omega)
      simp only [List.mem_cons, List.not_mem_nil, or_false] at h
      rcases h with rfl | rfl | rfl | rfl | rfl | rfl
      exacts [by decide, by decide, by decide, by decide, hhigh, hlow]
    · rename_i hplain
      rw [List.mem_singleton.mp h]
      exact Nat.le_of_not_lt hplain

/-- Nor has a quoted string. -/
theorem quote_printable {text : List Char} {c : Char} (h : c ∈ quote text) : 32 ≤ c.toNat := by
  unfold quote at h
  simp only [List.cons_append, List.mem_cons, List.mem_append, List.mem_flatMap, List.not_mem_nil,
    or_false] at h
  rcases h with rfl | ⟨x, -, hx⟩ | rfl
  exacts [by decide, escape_printable hx, by decide]

mutual

/-- **The text of a value has no control character.** -/
theorem text_printable : ∀ (v : Value F) (c : Char), c ∈ v.text → 32 ≤ c.toNat
  | .null, c, h => by
      have hnull : ∀ c ∈ ['n', 'u', 'l', 'l'], 32 ≤ c.toNat :=
        List.all_iff_forall_prop.mp (by decide)
      exact hnull c h
  | .bool true, c, h => by
      have htrue : ∀ c ∈ ['t', 'r', 'u', 'e'], 32 ≤ c.toNat :=
        List.all_iff_forall_prop.mp (by decide)
      exact htrue c h
  | .bool false, c, h => by
      have hfalse : ∀ c ∈ ['f', 'a', 'l', 's', 'e'], 32 ≤ c.toNat :=
        List.all_iff_forall_prop.mp (by decide)
      exact hfalse c h
  | .int value, c, h => isNumeral_printable (intText_numeral h)
  | .fraction value, c, h => isNumeral_printable (F.text_numeral value c h)
  | .str text, c, h => quote_printable h
  | .arr [], c, h => by
      have hempty : ∀ c ∈ ['[', ']'], 32 ≤ c.toNat :=
        List.all_iff_forall_prop.mp (by decide)
      exact hempty c (by rw [Value.text] at h; exact h)
  | .arr (first :: rest), c, h => by
      rw [Value.text, List.mem_cons, List.mem_append] at h
      rcases h with rfl | h | h
      · decide
      · exact text_printable first c h
      · exact elementsText_printable rest c h
  | .obj [], c, h => by
      have hempty : ∀ c ∈ ['{', '}'], 32 ≤ c.toNat :=
        List.all_iff_forall_prop.mp (by decide)
      exact hempty c (by rw [Value.text] at h; exact h)
  | .obj ((key, value) :: rest), c, h => by
      rw [Value.text, List.mem_cons, List.mem_append, List.mem_cons, List.mem_append] at h
      rcases h with rfl | h | rfl | h | h
      · decide
      · exact quote_printable h
      · decide
      · exact text_printable value c h
      · exact membersText_printable rest c h

/-- No element puts a control character into the text, and neither do the commas and the bracket. -/
theorem elementsText_printable : ∀ (elements : List (Value F)) (c : Char),
    c ∈ elementsText elements → 32 ≤ c.toNat
  | [], c, h => by
      rw [elementsText, List.mem_singleton] at h
      rw [h]
      decide
  | value :: rest, c, h => by
      rw [elementsText, List.mem_cons, List.mem_append] at h
      rcases h with rfl | h | h
      · decide
      · exact text_printable value c h
      · exact elementsText_printable rest c h

/-- The same for the members of an object. -/
theorem membersText_printable : ∀ (members : List (List Char × Value F)) (c : Char),
    c ∈ membersText members → 32 ≤ c.toNat
  | [], c, h => by
      rw [membersText, List.mem_singleton] at h
      rw [h]
      decide
  | (key, value) :: rest, c, h => by
      rw [membersText, List.mem_cons, List.mem_append, List.mem_cons, List.mem_append] at h
      rcases h with rfl | h | rfl | h | h
      · decide
      · exact quote_printable h
      · decide
      · exact text_printable value c h
      · exact membersText_printable rest c h

end

end Json
