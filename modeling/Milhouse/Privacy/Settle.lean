import Milhouse.Lib.Fallible
import Milhouse.Privacy.KnownSecrets

/-!
# Milhouse — the loops of the redactor settle

A pass that changes a text makes it shorter in UTF-8. What stands for a secret in the text may be
shorter than the secret, because a decoder may make a text longer; but it is never shorter than
seven bytes, and the marker takes six. To see this, a character weighs six if it is ASCII and five
for each of its bytes if it is not: no decoder makes a part of the text heavier, and a secret weighs
forty or more.

* **`pieceRules_light`** — no decoder makes a piece heavier;
* **`shrunk_replaceKnownSecrets`** — a pass leaves a text alone or makes it shorter;
* **`redaction_loops_settle`** — so a loop comes to its end within as many passes as its text has
  bytes; the loop for paths always has enough of them, and the final loop may give up on a long text.
-/

namespace Milhouse.Redact

open Mapped Spans Settling Text

/-! ## Weights -/

/-- What a character weighs. -/
def weight (c : Char) : Nat := if c.utf8Size = 1 then 6 else 5 * c.utf8Size

/-- The weight of a character lies between five and six times its UTF-8 size, and is never below
six. -/
theorem weight_bounds (c : Char) :
    6 ≤ weight c ∧ 5 * c.utf8Size ≤ weight c ∧ weight c ≤ 6 * c.utf8Size ∧ weight c ≤ 20 := by
  have hpos := Char.utf8Size_pos c
  have hfour := Char.utf8Size_le_four c
  unfold weight
  split <;> omega

/-- So the weight of a text bounds its length and its encoding from both sides. -/
theorem le_total_weight (text : List Char) :
    6 * text.length ≤ total weight text ∧ 5 * (Utf8.encode text).length ≤ total weight text ∧
      total weight text ≤ 6 * (Utf8.encode text).length := by
  induction text with
  | nil => exact ⟨Nat.le_refl _, Nat.le_refl _, Nat.le_refl _⟩
  | cons c text ih =>
      have hc := weight_bounds c
      rw [Utf8.encode_cons, List.length_append, String.length_utf8EncodeChar, total_cons,
        List.length_cons]
      omega

/-! ## No decoder makes a piece heavier -/

/-- In the table, no reference is lighter than what it stands for. -/
def HtmlEntities.Documented (html : HtmlEntities) : Prop :=
  ∀ name value, html.html5 name = some value → total weight value ≤ 6 * (name.length + 1)

/-- A character that was decoded from bytes has their number as its size. -/
theorem length_eq_of_decodeUnit {bytes : List UInt8} {c : Char} (h : decodeUnit bytes = some c) :
    c.utf8Size = bytes.length := by
  unfold decodeUnit at h
  dsimp only at h
  split at h
  · rename_i heq
    rw [← Option.some.inj h, ← String.length_utf8EncodeChar, heq]
  · cases h

/-- Decoded bytes weigh at most six each. -/
theorem total_weight_decodeUtf8 {fuel : Nat} {bytes : List UInt8} {text : List Char}
    (h : decodeUtf8 fuel bytes = some text) : total weight text ≤ 6 * bytes.length := by
  induction fuel generalizing bytes text with
  | zero =>
      cases bytes with
      | nil =>
          rw [← Option.some.inj h]
          exact Nat.le_refl _
      | cons first rest => cases h
  | succ fuel ih =>
      cases bytes with
      | nil =>
          rw [← Option.some.inj h]
          exact Nat.le_refl _
      | cons first rest =>
          rw [decodeUtf8] at h
          split at h
          · cases h
          · split at h
            · cases h
            · rename_i c hunit
              obtain ⟨after, hafter, rfl⟩ := Option.map_eq_some_iff.mp h
              have hsize := length_eq_of_decodeUnit hunit
              have hc := (weight_bounds c).2.2.1
              have hrest := ih hafter
              rw [List.length_take] at hsize
              rw [List.length_drop] at hrest
              rw [total_cons]
              omega

/-- Base64 never decodes to more bytes than the token has characters. -/
theorem length_base64Bytes_le (token : List Char) : (base64Bytes token).length ≤ token.length := by
  fun_induction base64Bytes token with
  | case1 a b c d rest ih =>
      simp only [List.length_cons]
      omega
  | case2 a b c => exact Nat.le_succ 2
  | case3 a b => exact Nat.le_succ 1
  | case4 => exact Nat.zero_le _

/-- A decoded Base64 token weighs no more than the token itself. -/
theorem total_weight_decodeBase64Text {token decoded : List Char}
    (h : decodeBase64Text token = some decoded) : total weight decoded ≤ total weight token := by
  unfold decodeBase64Text at h
  dsimp only at h
  split at h
  · cases h
  · have hbytes := total_weight_decodeUtf8 h
    have hunpadded := length_base64Bytes_le
      (((token.filter fun c => !isBlank c).reverse.dropWhile (· = '=')).reverse)
    have hpadded : (((token.filter fun c => !isBlank c).reverse.dropWhile
        (· = '=')).reverse).length ≤ token.length := by
      rw [List.length_reverse]
      refine Nat.le_trans (List.dropWhile_sublist _).length_le ?_
      rw [List.length_reverse]
      exact List.length_filter_le _ _
    have htoken := (le_total_weight token).1
    omega

/-! ### HTML references -/

/-- A numeric reference is one character at most. -/
theorem total_weight_numericReference (number : Nat) :
    total weight (numericReference number) ≤ 20 := by
  have hone : ∀ c, total weight [c] ≤ 20 := fun c => by
    rw [total_cons, total_nil]
    exact (weight_bounds c).2.2.2
  unfold numericReference
  split
  · exact hone _
  · split
    · exact hone _
    · split
      · exact Nat.zero_le _
      · exact hone _

/-- A documented named reference weighs no more than its spelling with the ampersand. -/
theorem total_weight_namedReference {html : HtmlEntities} (hhtml : html.Documented)
    (name : List Char) :
    total weight (namedReference html name) ≤ total weight ('&' :: name) := by
  have hname := (le_total_weight name).1
  have hand : weight '&' = 6 := rfl
  unfold namedReference
  split
  · rename_i text htext
    have hvalue := hhtml name text htext
    rw [total_cons]
    omega
  · cases hfound : (List.range name.length).reverse.findSome? fun x =>
        if 1 < x then (html.html5 (name.take x)).map (· ++ name.drop x) else none with
    | none => exact Nat.le_refl _
    | some text =>
        obtain ⟨x, -, hx⟩ := List.exists_of_findSome?_eq_some hfound
        split at hx
        · obtain ⟨value, hvalue, rfl⟩ := Option.map_eq_some_iff.mp hx
          have hlight := hhtml _ _ hvalue
          have htake := (le_total_weight (name.take x)).1
          have hsplit := congrArg (total weight) (List.take_append_drop x name)
          rw [total_append] at hsplit
          rw [Option.getD_some, total_append, total_cons]
          omega
        · cases hx

/-- A run of at least one character begins with one of them. -/
theorem boundedRun_head {p : Char → Bool} {low high : Nat} {text run : List Char}
    (h : boundedRun p (low + 1) high text = some run) : ∃ c after, run = c :: after ∧ p c = true := by
  unfold boundedRun at h
  dsimp only at h
  split at h
  · rename_i hlength
    obtain rfl := Option.some.inj h
    cases hrun : text.takeWhile p with
    | nil =>
        rw [hrun, List.length_nil] at hlength
        omega
    | cons c after =>
        have hc := List.mem_takeWhile_imp (hrun ▸ List.mem_cons_self : c ∈ text.takeWhile p)
        exact ⟨c, _, List.cons_append, hc⟩
  · cases h

/-- A numeric reference has a digit, or a hex digit behind its `x`. -/
theorem htmlEntity_numeric {text rest : List Char} {c : Char}
    (h : htmlEntity text = some ('&' :: '#' :: c :: rest)) :
    rest ≠ [] ∨ isAsciiDigit c = true := by
  unfold htmlEntity at h
  split at h
  · split at h
    · obtain ⟨run, hrun, heq⟩ := Option.map_eq_some_iff.mp h
      obtain ⟨d, after, rfl, -⟩ := boundedRun_head hrun
      left
      intro hnil
      rw [hnil] at heq
      cases heq
    · obtain ⟨run, hrun, heq⟩ := Option.map_eq_some_iff.mp h
      obtain ⟨d, after, rfl, hd⟩ := boundedRun_head hrun
      right
      cases heq
      exact hd
  · split at h
    · rename_i letter behind hne hletter
      obtain ⟨run, hrun, heq⟩ := Option.map_eq_some_iff.mp h
      cases heq
      exact absurd hletter (by decide)
    · cases h
  · cases h

/-- One digit names a character of three bytes at most. -/
theorem total_weight_digitReference {c : Char} (hc : isAsciiDigit c = true) :
    total weight (numericReference (numeral 10 [c])) ≤ 18 := by
  have hsmall : ∀ n < 10, total weight (numericReference n) ≤ 18 := by decide +kernel
  apply hsmall
  have hval : c.toNat ≤ 57 := by
    rw [isAsciiDigit, Bool.and_eq_true, decide_eq_true_eq, decide_eq_true_eq] at hc
    exact hc.2
  show 10 * 0 + hexDigit c < 10
  rw [hexDigit, if_pos hc]
  omega

/-- Unescaping an entity never makes a text heavier. -/
theorem total_weight_unescape {html : HtmlEntities} (hhtml : html.Documented)
    {text entity : List Char} (h : htmlEntity text = some entity) :
    total weight (unescape html entity) ≤ total weight entity := by
  have hentity := (le_total_weight entity).1
  unfold unescape
  split
  · rename_i c rest
    have hnumeric := htmlEntity_numeric h
    have hlong : rest ≠ [] → ∀ number, total weight (numericReference number) ≤
        total weight ('&' :: '#' :: c :: rest) := by
      intro hne number
      have hpos := List.length_pos_iff.mpr hne
      have hone := total_weight_numericReference number
      simp only [List.length_cons] at hentity
      omega
    split
    · rename_i hx
      apply hlong
      rcases hnumeric with hne | hdigit
      · exact hne
      · rw [Bool.or_eq_true, decide_eq_true_eq, decide_eq_true_eq] at hx
        rcases hx with rfl | rfl <;> exact absurd hdigit (by decide)
    · by_cases hrest : rest = []
      · -- one digit and no semicolon: the reference has three characters
        have hdigit := hnumeric.resolve_left (not_not_intro hrest)
        have hsemicolon : c ≠ ';' := by
          rintro rfl
          exact absurd hdigit (by decide)
        have hwhole : [c].takeWhile (fun d => decide (d ≠ ';')) = [c] := by
          rw [List.takeWhile_cons_of_pos (by simpa using hsemicolon), List.takeWhile_nil]
        subst hrest
        rw [hwhole]
        exact Nat.le_trans (total_weight_digitReference hdigit) hentity
      · exact hlong hrest _
  · rename_i name hne
    exact total_weight_namedReference hhtml name
  · exact Nat.le_refl _

/-- **No decoder makes a piece heavier.** -/
theorem pieceRules_light {html : HtmlEntities} (hhtml : html.Documented) :
    PieceRules html fun source decoded => total weight decoded ≤ total weight source where
  copied c := Nat.le_refl _
  space := by decide
  unit bytes c source h hlength := by
    have hsize := length_eq_of_decodeUnit h
    have hc := (weight_bounds c).2.2.1
    have hsource := (le_total_weight source).1
    rw [total_cons, total_nil]
    omega
  simpleEscape escape c h := by
    have hsource := (le_total_weight ['\\', escape]).1
    have hone : weight c = 6 := by
      unfold jsonSimpleEscape at h
      split at h <;> cases h <;> rfl
    rw [total_cons, total_nil, hone]
    simp only [List.length_cons, List.length_nil] at hsource
    omega
  unicodeEscape source c h := by
    have hc := (weight_bounds c).2.2.2
    have hsource := (le_total_weight source).1
    rw [total_cons, total_nil]
    omega
  reference _ _ h := total_weight_unescape hhtml h
  token _ _ h := total_weight_decodeBase64Text h

/-! ## What stands for a secret is heavy -/

/-- A part of a text that weighs as much as the lightest secret. -/
def Heavy (text : List Char) (s : Span) : Prop := 40 ≤ total weight (slice text s.1 s.2)

/-- Eight bytes of text weigh at least as much as the marker that replaces them. -/
theorem heavy_of_eight_le {text : List Char} (h : 8 ≤ (Utf8.encode text).length) :
    40 ≤ total weight text := by
  have hbytes := (le_total_weight text).2.1
  omega

/-- A heavy part takes more bytes than the marker. -/
theorem Heavy.lt {text : List Char} {s : Span} (h : Heavy text s) :
    (Utf8.encode secretMarker).length < (Utf8.encode (slice text s.1 s.2)).length := by
  have hbytes := (le_total_weight (slice text s.1 s.2)).2.2
  have hmarker : (Utf8.encode secretMarker).length = 6 := by decide +kernel
  unfold Heavy at h
  omega

/-- Merging overlapping spans keeps each of them as heavy as the marker. -/
theorem heavy_merged {text : List Char} {candidates : List Span}
    (h : ∀ s ∈ candidates, Heavy text s) : ∀ m ∈ merged candidates, Heavy text m := by
  intro m hm
  obtain ⟨c, hc, hstart, hstop⟩ := exists_of_mem_merged hm
  exact Nat.le_trans (h c hc) (total_slice_mono text hstart hstop)

/-- A part of the text without blanks is as long in the text, or longer. -/
theorem withoutAsciiWhitespaceView_wide {value : List Char} {i j : Nat} (hij : i ≤ j)
    (hj : j < (withoutAsciiWhitespaceView value).text.length) :
    (withoutAsciiWhitespaceView value).starts.getD i 0 + (j + 1 - i) ≤
      (withoutAsciiWhitespaceView value).ends.getD j 0 := by
  have hsorted := withoutAsciiWhitespaceView_sorted value
  have hends : (withoutAsciiWhitespaceView value).ends =
      (withoutAsciiWhitespaceView value).starts.map (· + 1) := by
    simp [withoutAsciiWhitespaceView]
  have hlength := (withoutAsciiWhitespaceView_wellFormed value).starts_length
  generalize (withoutAsciiWhitespaceView value).starts = starts at hsorted hends hlength
  rw [hends, getD_map_of_lt (by omega) 0]
  induction j, hij using Nat.le_induction with
  | base => omega
  | succ j hij ih =>
      have hprevious := ih (by omega)
      have hnext : starts.getD j 0 < starts.getD (j + 1) 0 := by
        rw [List.getD_eq_getElem _ _ (by omega), List.getD_eq_getElem _ _ (by omega)]
        exact List.pairwise_iff_getElem.mp hsorted j (j + 1) _ _ (Nat.lt_succ_self j)
      omega

/-- A span that a Base64 form of a long secret covers is as heavy as the marker. -/
theorem base64EncodedSecretSpans_heavy {value : List Char} {secrets : List (List UInt8)}
    (hsecrets : ∀ bytes ∈ secrets, 8 ≤ bytes.length) :
    ∀ m ∈ base64EncodedSecretSpans value secrets, Heavy value m := by
  have hne : ∀ bytes ∈ secrets, bytes ≠ [] := by
    rintro bytes hbytes rfl
    exact absurd (hsecrets _ hbytes) (by decide)
  obtain ⟨candidates, hcandidates, heq⟩ := @base64EncodedSecretSpans_eq (Heavy value) value secrets
    hne fun bytes hbytes i j hle hlt => by
      have height := hsecrets bytes hbytes
      have hsextets := length_le_length_sextets bytes
      have hwide := withoutAsciiWhitespaceView_wide (by omega : i ≤ j) hlt
      have hinside := ((withoutAsciiWhitespaceView_wellFormed value).inside j hlt).2
      have hweight := (le_total_weight (slice value
        ((withoutAsciiWhitespaceView value).starts.getD i 0)
        ((withoutAsciiWhitespaceView value).ends.getD j 0))).1
      rw [length_slice hinside] at hweight
      exact Nat.le_trans (by omega) hweight
  rw [heq]
  exact heavy_merged hcandidates

/-- A span that any encoded form of a long secret covers is as heavy as the marker. -/
theorem crossEncodedSecretSpans_heavy {html : HtmlEntities} (hhtml : html.Documented)
    {value : List Char} {secrets : List (List Char)}
    (hsecrets : ∀ secret ∈ secrets, 8 ≤ (Utf8.encode secret).length) :
    ∀ m ∈ crossEncodedSecretSpans html secrets value, Heavy value m := by
  have hne : ∀ secret ∈ secrets, secret ≠ [] := by
    rintro secret hsecret rfl
    exact absurd (hsecrets _ hsecret) (by decide)
  have hbytes : ∀ bytes ∈ secrets.map Utf8.encode, 8 ≤ bytes.length := by
    intro bytes hbytes
    obtain ⟨secret, hsecret, rfl⟩ := List.mem_map.mp hbytes
    exact hsecrets secret hsecret
  obtain ⟨candidates, hcandidates, heq⟩ := @crossEncodedSecretSpans_eq (Heavy value) html secrets
    (fun view => view.WellFormed value.length ∧ view.Bounded weight value) value
    ⟨View.WellFormed.identity value, View.Bounded.identity value⟩
    (fun view hview decoder =>
      ⟨hview.1.decode (decoder.tiles (pieceRules_light hhtml) view.text),
        hview.2.decode (fun _ _ h => h) (decoder.tiles (pieceRules_light hhtml) view.text)⟩) (by
      intro view hview s hs
      -- what is found weighs enough in the view, and so does its source in the text
      rcases mem_foundIn hne hs with ⟨m, hm, rfl⟩ | ⟨secret, hsecret, found, hle, hpre, rfl⟩
      · have hseparated := base64EncodedSecretSpans_separated view.text (encode_map_ne_nil hne)
        obtain ⟨-, hlt, hle⟩ := (separated_iff.mp hseparated).2.1 m hm
        have hheavy := base64EncodedSecretSpans_heavy hbytes m hm
        have hbound := hview.2 m.1 (m.2 - 1) (by omega) (by omega)
        rw [Nat.sub_add_cancel (by omega)] at hbound
        exact Nat.le_trans hheavy hbound
      · have hpos := List.length_pos_iff.mpr (hne secret hsecret)
        have hbound := hview.2 found (found + secret.length - 1) (by omega) (by omega)
        rw [Nat.sub_add_cancel (by omega), slice_of_isPrefix_drop hpre] at hbound
        exact Nat.le_trans (heavy_of_eight_le (hsecrets secret hsecret)) hbound)
  rw [heq]
  exact heavy_merged hcandidates

/-! ## What the constructor registers -/

/-- Nothing that is looked for is shorter than the shortest secret. -/
structure KnownSecrets.Long (known : KnownSecrets) : Prop where
  knownSecrets : ∀ secret ∈ known.knownSecrets, 8 ≤ (Utf8.encode secret).length
  knownSecretBytes : ∀ bytes ∈ known.knownSecretBytes, 8 ≤ bytes.length
  secretVariants : ∀ variant ∈ known.secretVariants, 8 ≤ (Utf8.encode variant).length

theorem mem_sortedByLength {α : Type} [LT α] [DecidableEq α] [DecidableLT α]
    {values : List (List α)} {value : List α} : value ∈ sortedByLength values ↔ value ∈ values :=
  List.mem_insertionSort _

/-- An accepted secret is composed, and long enough. -/
theorem validateKnownSecret_eq_ok {forms : UnicodeForms} (hforms : forms.Documented)
    {value : List CodePoint} {secret : List Char}
    (h : validateKnownSecret forms value = .ok secret) :
    forms.nfc secret = secret ∧ 8 ≤ (Utf8.encode secret).length := by
  unfold validateKnownSecret at h
  split at h
  · cases h
  · dsimp only at h
    split at h
    · cases h
    · rename_i hlength
      split at h
      · cases h
      · cases h
        exact ⟨hforms.nfc_nfc _, (not_not.mp hlength).1⟩

/-- Every accepted secret is in composed form and at least eight bytes long. -/
theorem forall_of_mapM_validateKnownSecret {forms : UnicodeForms} (hforms : forms.Documented)
    {values : List (List CodePoint)} {normalized : List (List Char)}
    (h : values.mapM (validateKnownSecret forms) = .ok normalized) :
    ∀ secret ∈ normalized, forms.nfc secret = secret ∧ 8 ≤ (Utf8.encode secret).length := by
  induction values generalizing normalized with
  | nil =>
      rw [List.mapM_nil] at h
      cases h
      exact fun _ h => absurd h List.not_mem_nil
  | cons value values ih =>
      rw [List.mapM_cons] at h
      obtain ⟨secret, hsecret, h⟩ := Except.bind_eq_ok_iff.mp h
      obtain ⟨others, hothers, h⟩ := Except.bind_eq_ok_iff.mp h
      cases h
      intro other hother
      rcases List.mem_cons.mp hother with rfl | hother
      · exact validateKnownSecret_eq_ok hforms hsecret
      · exact ih hothers other hother

/-- **Everything the constructor registers is long enough.** -/
theorem KnownSecrets.long_of_init {forms : UnicodeForms} (hforms : forms.Documented)
    {values : List (List CodePoint)} {known : KnownSecrets}
    (h : KnownSecrets.init forms values = .ok known) : known.Long := by
  unfold KnownSecrets.init at h
  split at h
  · cases h
  · obtain ⟨normalized, hnormalized, h⟩ := Except.bind_eq_ok_iff.mp h
    split at h
    · cases h
    · cases h
      have hall := forall_of_mapM_validateKnownSecret hforms hnormalized
      have hdetection : ∀ secret ∈ sortedByLength
          (normalized.flatMap fun value => [value, forms.nfd value]).dedup,
          8 ≤ (Utf8.encode secret).length := by
        intro secret hsecret
        obtain ⟨value, hvalue, hsecret⟩ :=
          List.mem_flatMap.mp (List.mem_dedup.mp (mem_sortedByLength.mp hsecret))
        obtain ⟨hcomposed, hlong⟩ := hall value hvalue
        rcases List.mem_cons.mp hsecret with rfl | hsecret
        · exact hlong
        · rw [List.mem_singleton.mp hsecret]
          exact Nat.le_trans hlong (hforms.length_nfd value hcomposed)
      refine ⟨hdetection, fun bytes hbytes => ?_, fun variant hvariant => ?_⟩
      · obtain ⟨secret, hsecret, rfl⟩ := List.mem_map.mp (mem_sortedByLength.mp hbytes)
        exact hdetection secret hsecret
      · obtain ⟨secret, hsecret, hvariant⟩ :=
          List.mem_flatMap.mp (List.mem_dedup.mp (mem_sortedByLength.mp hvariant))
        exact Nat.le_trans (hdetection secret hsecret) (le_length_of_mem_secretVariants hvariant)

/-! ## A pass makes shorter what it changes -/

/-- How many bytes a text takes. -/
def byteLength (text : List Char) : Nat := (Utf8.encode text).length

theorem byteLength_append (a b : List Char) :
    byteLength (a ++ b) = byteLength a + byteLength b := by
  rw [byteLength, Utf8.encode_append, List.length_append, byteLength, byteLength]

/-- A text that is left alone or made shorter. -/
def Shrunk (before after : List Char) : Prop :=
  after = before ∨ byteLength after < byteLength before

/-- Shrinking twice is shrinking: weight does not grow and no change keeps it. -/
theorem Shrunk.trans {a b c : List Char} (h : Shrunk a b) (h' : Shrunk b c) : Shrunk a c := by
  rcases h with rfl | h
  · exact h'
  · rcases h' with rfl | h'
    · exact Or.inr h
    · exact Or.inr (Nat.lt_trans h' h)

/-- Replacing separate heavy spans by the marker shrinks a text. -/
theorem shrunk_replaceSpans {spans : List Span} {state : Redaction}
    (h : Separated 0 spans state.text.length) (hheavy : ∀ s ∈ spans, Heavy state.text s) :
    Shrunk state.text (replaceSpans spans state).text := by
  unfold replaceSpans
  split
  · exact Or.inl rfl
  · rename_i hne
    have hpos := List.length_pos_iff.mpr hne
    have hsize := @size_substituted_le _ (fun _ => secretMarker) byteLength byteLength_append
      state.text spans 0 h fun s hs => (hheavy s hs).lt
    rw [← replaceBack_eq h, List.drop_zero] at hsize
    right
    dsimp only
    omega

/-- Replacing one long variant of a secret shrinks a text. -/
theorem shrunk_replaceVariant {variant : List Char} (hlong : 8 ≤ (Utf8.encode variant).length)
    (state : Redaction) : Shrunk state.text (replaceVariant state variant).text := by
  unfold replaceVariant
  dsimp only
  split
  · exact Or.inl rfl
  · apply Find.replaceAll_eq_or_lt byteLength_append
    exact Nat.lt_of_lt_of_le (by decide +kernel) hlong

/-- Replacing the variants one after another shrinks a text, whichever of them occur. -/
theorem shrunk_replaceVariants {variants : List (List Char)}
    (hlong : ∀ variant ∈ variants, 8 ≤ (Utf8.encode variant).length) (state : Redaction) :
    Shrunk state.text (variants.foldl replaceVariant state).text := by
  induction variants generalizing state with
  | nil => exact Or.inl rfl
  | cons variant variants ih =>
      have hfirst := shrunk_replaceVariant (hlong variant List.mem_cons_self) state
      exact hfirst.trans (ih (fun v hv => hlong v (List.mem_cons_of_mem _ hv)) _)

/-- **A pass leaves a text alone, or makes it shorter.** -/
theorem shrunk_replaceKnownSecrets {html : HtmlEntities} (hhtml : html.Documented)
    {known : KnownSecrets} (hknown : known.Long) (state : Redaction) :
    Shrunk state.text (replaceKnownSecrets html known state).text := by
  have hne : ∀ secret ∈ known.knownSecrets, secret ≠ [] := by
    rintro secret hsecret rfl
    exact absurd (hknown.knownSecrets _ hsecret) (by decide)
  have hne' : ∀ bytes ∈ known.knownSecretBytes, bytes ≠ [] := by
    rintro bytes hbytes rfl
    exact absurd (hknown.knownSecretBytes _ hbytes) (by decide)
  have hcross := shrunk_replaceSpans
    (crossEncodedSecretSpans_separated html state.text hne)
    (crossEncodedSecretSpans_heavy hhtml hknown.knownSecrets)
  have hbase64 := fun first : Redaction => @shrunk_replaceSpans _ first
    (base64EncodedSecretSpans_separated first.text hne')
    (base64EncodedSecretSpans_heavy hknown.knownSecretBytes)
  exact hcross.trans ((hbase64 _).trans (shrunk_replaceVariants hknown.secretVariants _))

/-- What a pass makes of a text does not depend on what was counted before. -/
theorem text_replaceKnownSecrets (html : HtmlEntities) (known : KnownSecrets)
    {state other : Redaction} (h : state.text = other.text) :
    (replaceKnownSecrets html known state).text = (replaceKnownSecrets html known other).text := by
  have hspans : ∀ spans {s t : Redaction}, s.text = t.text →
      (replaceSpans spans s).text = (replaceSpans spans t).text := by
    intro spans s t hst
    unfold replaceSpans
    split
    · exact hst
    · dsimp only
      rw [hst]
  have hvariant : ∀ variant {s t : Redaction}, s.text = t.text →
      (replaceVariant s variant).text = (replaceVariant t variant).text := by
    intro variant s t hst
    unfold replaceVariant
    dsimp only
    rw [hst]
    split
    · exact hst
    · rfl
  have hvariants : ∀ (variants : List (List Char)) {s t : Redaction}, s.text = t.text →
      (variants.foldl replaceVariant s).text = (variants.foldl replaceVariant t).text := by
    intro variants
    induction variants with
    | nil => exact fun hst => hst
    | cons variant variants ih => exact fun hst => ih (hvariant variant hst)
  unfold replaceKnownSecrets
  dsimp only
  apply hvariants
  have hfirst := hspans (crossEncodedSecretSpans html known.knownSecrets other.text) h
  rw [h, hfirst]
  exact hspans _ hfirst

/-- The text that a loop ends with is one that a further pass leaves alone. -/
theorem text_of_settle {html : HtmlEntities} {known : KnownSecrets} {n : Nat}
    {state settled : Redaction}
    (h : settle (replaceKnownSecrets html known) (·.text) n state = some settled) :
    (replaceKnownSecrets html known settled).text = settled.text := by
  obtain ⟨before, heq, hsame⟩ := view_of_settle h
  rw [text_replaceKnownSecrets html known hsame, heq]

/-! ## The text of a path -/

theorem byteLength_le (text : List Char) : byteLength text ≤ 4 * text.length := by
  induction text with
  | nil => exact Nat.le_refl _
  | cons c text ih =>
      have hfour := Char.utf8Size_le_four c
      unfold byteLength at ih ⊢
      rw [Utf8.encode_cons, List.length_append, String.length_utf8EncodeChar, List.length_cons]
      omega

theorem byteLength_base32_le (bytes : List UInt8) :
    byteLength (Radix.base32 bytes) ≤ (Radix.base32 bytes).length := by
  have hletter : ∀ n < 32, (Radix.letter n).utf8Size = 1 := by decide
  have hall : ∀ ns : List Nat, (∀ n ∈ ns, n < 32) →
      byteLength (ns.map Radix.letter) ≤ (ns.map Radix.letter).length := by
    intro ns hns
    induction ns with
    | nil => exact Nat.le_refl _
    | cons n ns ih =>
        have hrest := ih fun m hm => hns m (List.mem_cons_of_mem _ hm)
        have hone := hletter n (hns n List.mem_cons_self)
        unfold byteLength at hrest ⊢
        rw [List.map_cons, Utf8.encode_cons, List.length_append, String.length_utf8EncodeChar,
          List.length_cons]
        omega
  exact hall _ fun n hn => Radix.lt_of_mem_quintets hn

/-- **A path pseudonym has no more bytes than its loop has passes.** -/
theorem byteLength_sanitizeLocalPath {forms : UnicodeForms}
    {hmac : List UInt8 → List UInt8 → List UInt8} {pseudonymizer : Pseudonymizer}
    {value : List CodePoint} {token : List Char}
    (h : sanitizeLocalPath forms hmac pseudonymizer value = .ok token) :
    byteLength token ≤ maxKnownSecrets := by
  unfold sanitizeLocalPath at h
  obtain ⟨normalized, -, h⟩ := Except.bind_eq_ok_iff.mp h
  obtain ⟨pseudonym, hpseudonym, h⟩ := Except.bind_eq_ok_iff.mp h
  cases h
  unfold Pseudonymizer.pseudonymize at hpseudonym
  split at hpseudonym
  · cases hpseudonym
  · obtain ⟨valueBytes, -, hpseudonym⟩ := Except.bind_eq_ok_iff.mp hpseudonym
    cases hpseudonym
    generalize hdigest : (hmac _ _).take 16 = digest
    have hsixteen : digest.length ≤ 16 := by
      rw [← hdigest, List.length_take]
      exact Nat.min_le_left _ _
    have hdigits := Nat.toDigits_length 10 pseudonymizer.epoch 10 (by decide)
      (Nat.lt_of_le_of_lt pseudonymizer.epoch_le (by decide))
    have hbase32 := byteLength_base32_le digest
    have hlength := Radix.length_base32_le digest
    have hepoch := byteLength_le (Nat.toDigits 10 pseudonymizer.epoch)
    have hlabel : byteLength "local-path:".toList = 11 := by decide +kernel
    have hversion : byteLength "mh_ps1_e".toList = 8 := by decide +kernel
    have hkind : byteLength "path".toList = 4 := by decide +kernel
    have hunderscore : byteLength ['_'] = 1 := by decide +kernel
    simp only [byteLength_append, hlabel, hversion, hkind, hunderscore]
    show _ ≤ 128
    omega

/-! ## The loops -/

/-- What the final loop makes of the text that the layers before it leave. -/
theorem redact_eq {layers : Layers} {html : HtmlEntities} {known : KnownSecrets}
    {value : List CodePoint} {restored : Redaction} (h : layers.before value = .ok restored) :
    redact layers html known value =
      match settle (replaceKnownSecrets html known) (·.text) (maxKnownSecrets + 1) restored with
      | none => .error ⟨"MH_PRIVACY_REDACT_INVARIANT",
          "known redaction values did not reach a stable output"⟩
      | some state => layers.after value state := by
  unfold redact
  rw [h]
  rfl

/-- **The loops of the redactor settle**: every pass that changes a text makes it shorter, so that a
loop needs no more passes than its text has bytes and one. The loop for paths always ends, within its
bound, with a text that a further pass leaves alone, and gives that text. So does the final loop on
the text that the layers before it leave, except where that text has more than `MAX_KNOWN_SECRETS`
bytes and each of the passes that the loop makes changes it: there it gives up. -/
theorem redaction_loops_settle (forms : UnicodeForms) (hforms : forms.Documented)
    (html : HtmlEntities) (hhtml : html.Documented) (values : List (List CodePoint))
    (known : KnownSecrets) (hinit : KnownSecrets.init forms values = .ok known) :
    (∀ state, (replaceKnownSecrets html known state).text = state.text ∨
      byteLength (replaceKnownSecrets html known state).text < byteLength state.text) ∧
    (∀ n state, byteLength state.text < n →
      ∃ settled, settle (replaceKnownSecrets html known) (·.text) n state = some settled) ∧
    (∀ hmac pseudonymizer value token,
      sanitizeLocalPath forms hmac pseudonymizer value = .ok token →
      ∃ settled, settle (replaceKnownSecrets html known) (·.text) (maxKnownSecrets + 1)
          ⟨token, [("path", 1)]⟩ = some settled ∧
        (replaceKnownSecrets html known settled).text = settled.text ∧
        redactPath forms hmac html known pseudonymizer value =
          .ok ⟨if settled.counts.map (·.1) = ["path"] then settled.text else pathMarker,
            settled.counts⟩) ∧
    ∀ layers value restored, layers.before value = .ok restored →
      (∃ settled, settle (replaceKnownSecrets html known) (·.text) (maxKnownSecrets + 1) restored =
          some settled ∧
        (replaceKnownSecrets html known settled).text = settled.text ∧
        redact layers html known value = layers.after value settled) ∨
      (maxKnownSecrets < byteLength restored.text ∧
        (∀ i ≤ maxKnownSecrets, ((replaceKnownSecrets html known)^[i + 1] restored).text ≠
          ((replaceKnownSecrets html known)^[i] restored).text) ∧
        redact layers html known value = .error ⟨"MH_PRIVACY_REDACT_INVARIANT",
          "known redaction values did not reach a stable output"⟩) := by
  -- A pass that changes the text shortens it, so as many passes as the text has bytes are enough.
  have hpass := shrunk_replaceKnownSecrets hhtml (KnownSecrets.long_of_init hforms hinit)
  have hsettle : ∀ n state, byteLength state.text < n →
      ∃ settled, settle (replaceKnownSecrets html known) (·.text) n state = some settled :=
    fun n state hn => settle_eq_some_of_lt hpass hn
  refine ⟨hpass, hsettle, fun hmac pseudonymizer value token htoken => ?_,
    fun layers value restored hrestored => ?_⟩
  -- A path token is short, so the 129 passes always suffice for it.
  · have hlength := byteLength_sanitizeLocalPath htoken
    obtain ⟨settled, hsettled⟩ := hsettle (maxKnownSecrets + 1) ⟨token, [("path", 1)]⟩
      (Nat.lt_succ_of_le hlength)
    refine ⟨settled, hsettled, text_of_settle hsettled, ?_⟩
    unfold redactPath
    rw [htoken]
    show (match settle (replaceKnownSecrets html known) (·.text) (maxKnownSecrets + 1)
      ⟨token, [("path", 1)]⟩ with | none => _ | some state => _) = _
    rw [hsettled]
  · rw [redact_eq hrestored]
    cases hend : settle (replaceKnownSecrets html known) (·.text) (maxKnownSecrets + 1) restored with
    | some settled => exact Or.inl ⟨settled, rfl, text_of_settle hend, rfl⟩
    | none =>
        right
        -- The loop gave up, so each of its passes changed the text and the text was long.
        have hchanging := settle_eq_none_iff.mp hend
        refine ⟨Nat.lt_of_not_le fun hle => ?_, fun i hi => hchanging i (Nat.lt_succ_of_le hi), rfl⟩
        obtain ⟨settled, hsettled⟩ := hsettle _ _ (Nat.lt_succ_of_le hle)
        rw [hend] at hsettled
        cases hsettled

/-! ## A text that needs more passes

Where a registered value is the marker in brackets, a pass removes one pair of them. -/

/-- The marker in brackets. -/
def nested (n : Nat) : List Char :=
  List.replicate n '(' ++ secretMarker ++ List.replicate n ')'

/-- Texts of ASCII characters are composed and decomposed already. -/
def plainForms : UnicodeForms := ⟨id, id⟩

theorem plainForms_documented : plainForms.Documented := ⟨fun _ => rfl, fun _ _ => Nat.le_refl _⟩

theorem noEntities_documented : noEntities.Documented := nofun

def nestingKnown : KnownSecrets where
  knownSecrets := [nested 1]
  knownSecretBytes := [Utf8.encode (nested 1)]
  secretVariants := ["KFttaDpzXSk=".toList, "KFttaDpzXSk".toList, nested 1]

theorem init_nested : KnownSecrets.init plainForms [(nested 1).map ofChar] = .ok nestingKnown := by
  decide +kernel

/-- A nested text of depth `n + 1` is the shortest one in `n` further pairs of brackets. -/
theorem nested_succ (n : Nat) : nested (n + 1) =
    List.replicate n '(' ++ nested 1 ++ List.replicate n ')' := by
  unfold nested
  rw [List.replicate_succ' (a := '('), List.replicate_succ (a := ')')]
  simp only [List.append_assoc]
  rfl

/-- A nested text has only brackets and the characters of the marker. -/
theorem notMem_nested {c : Char} (hc : c ∉ '(' :: ')' :: secretMarker) (n : Nat) :
    c ∉ nested n := by
  intro h
  apply hc
  unfold nested at h
  rcases List.mem_append.mp h with h | h
  · rcases List.mem_append.mp h with h | h
    · rw [List.eq_of_mem_replicate h]
      exact List.mem_cons_self
    · exact List.mem_cons_of_mem _ (List.mem_cons_of_mem _ h)
  · rw [List.eq_of_mem_replicate h]
    exact List.mem_cons_of_mem _ List.mem_cons_self

/-! ### No other way of writing the value occurs -/

/-- A pattern of Base64 characters has at most as many ends as the text has such characters. -/
theorem length_repetitionEnds_le (position : Nat) (text : List Char) :
    (repetitionEnds position text).length ≤ text.countP isBase64Char := by
  fun_induction repetitionEnds position text with
  | case1 position => exact Nat.le_refl _
  | case2 position c rest hblank ih => exact Nat.le_trans ih (List.sublist_cons_self c rest).countP_le
  | case3 position c rest hblank hchar ih =>
      rw [List.length_cons, List.countP_cons_of_pos hchar]
      omega
  | case4 position c rest hblank hchar => exact Nat.zero_le _

/-- A base64 token has ten characters or more. -/
theorem base64Token_eq_none {before : Option Char} {text : List Char}
    (h : text.countP isBase64Char < 10) : base64Token before text = none := by
  unfold base64Token
  split
  · rfl
  · rename_i c rest
    split
    · rfl
    · have hends := length_repetitionEnds_le 1 rest
      have hrest : rest.countP isBase64Char ≤ (c :: rest).countP isBase64Char :=
        (List.sublist_cons_self c rest).countP_le
      dsimp only
      rw [List.drop_eq_nil_of_le (by omega)]
      rfl

/-- A text with fewer than sixteen hexadecimal digits has no hexadecimal token. -/
theorem hexToken_eq_none {before : Option Char} {text : List Char}
    (h : text.countP isAsciiHex < 16) : hexToken before text = none := by
  have hrun : (text.takeWhile isAsciiHex).length ≤ text.countP isAsciiHex := by
    rw [← List.countP_eq_length.mpr fun c hc => List.mem_takeWhile_imp hc]
    exact (List.takeWhile_sublist _).countP_le
  unfold hexToken
  dsimp only
  split
  · rfl
  · rw [if_neg (by omega)]

theorem hasToken_eq_false {pattern : Option Char → List Char → Option (List Char)}
    {text : List Char} (h : ∀ before suffix, suffix <:+ text → pattern before suffix = none) :
    hasToken pattern text = false := by
  have hiter : ∀ fuel before (rest : List Char), rest <:+ text →
      ∀ segment ∈ findIter pattern fuel before rest, ∃ c, segment = .gap c := by
    intro fuel
    induction fuel with
    | zero =>
        intro before rest _ segment hsegment
        cases hsegment
    | succ fuel ih =>
        intro before rest hrest segment hsegment
        cases rest with
        | nil => cases hsegment
        | cons c rest =>
            rw [findIter, h before _ hrest] at hsegment
            rcases List.mem_cons.mp hsegment with rfl | hsegment
            · exact ⟨c, rfl⟩
            · exact ih _ _ ((List.suffix_cons c rest).trans hrest) segment hsegment
  unfold hasToken
  rw [List.any_eq_false]
  intro segment hsegment
  obtain ⟨c, rfl⟩ := hiter _ _ _ (List.suffix_refl text) segment hsegment
  exact Bool.false_ne_true

/-- No decoder can change the text. -/
theorem isPlainText_nested (n : Nat) : isPlainText (nested n) = true := by
  have hcount : ∀ p : Char → Bool, p '(' = false → p ')' = false →
      (nested n).countP p = secretMarker.countP p := by
    intro p hleft hright
    unfold nested
    rw [List.countP_append, List.countP_append, List.countP_replicate, List.countP_replicate,
      hleft, hright]
    simp
  have hbase64 : hasToken base64Token (nested n) = false := by
    apply hasToken_eq_false
    intro before suffix hsuffix
    apply base64Token_eq_none
    refine Nat.lt_of_le_of_lt hsuffix.sublist.countP_le ?_
    rw [hcount _ (by decide) (by decide)]
    decide
  have hhex : hasToken hexToken (nested n) = false := by
    apply hasToken_eq_false
    intro before suffix hsuffix
    apply hexToken_eq_none
    refine Nat.lt_of_le_of_lt hsuffix.sublist.countP_le ?_
    rw [hcount _ (by decide) (by decide)]
    decide
  have hmarker : ∀ c, c ∉ '(' :: ')' :: secretMarker → (nested n).contains c = false := by
    intro c hc
    rw [← Bool.not_eq_true, List.contains_iff_mem]
    exact notMem_nested hc n
  unfold isPlainText
  simp only [List.any_cons, List.any_nil, hmarker '%' (by decide), hmarker '+' (by decide),
    hmarker '\\' (by decide), hmarker '&' (by decide), hbase64, hhex]
  rfl

/-- A text that lacks a character has no occurrence of a word with that character. -/
theorem positions_eq_nil {sub text : List Char} {step : Nat} {c : Char} (hc : c ∈ sub)
    (h : c ∉ text) : Find.positions sub step text = [] := by
  rw [Find.positions, Find.positionsFrom, Find.find?_eq_none hc h]

/-- No Base64 form of the secret occurs in a nested text. -/
theorem base64EncodedSecretSpans_nested (n : Nat) :
    base64EncodedSecretSpans (nested n) nestingKnown.knownSecretBytes = [] := by
  have htext : 'K' ∉ (withoutAsciiWhitespaceView (nested n)).text := by
    intro h
    obtain ⟨p, hp, heq⟩ := List.mem_map.mp h
    have hmem := List.fst_mem_of_mem_zipIdx (List.mem_filter.mp hp).1
    rw [heq] at hmem
    exact notMem_nested (by decide) n hmem
  have haliases : ∀ alphabet ∈ [standardAlphabet, urlsafeAlphabet],
      base64Aliases (withoutAsciiWhitespaceView (nested n)) alphabet
        (Utf8.encode (nested 1)) = [] := by
    intro alphabet halphabet
    have hstem : 'K' ∈ (base64Unpadded alphabet (Utf8.encode (nested 1))).dropLast := by
      rcases List.mem_cons.mp halphabet with rfl | halphabet
      · decide +kernel
      · rw [List.mem_singleton.mp halphabet]
        decide +kernel
    rw [base64Aliases, positions_eq_nil hstem htext, List.filterMap_nil]
  unfold base64EncodedSecretSpans nestingKnown
  dsimp only
  rw [List.flatMap_singleton, List.flatMap_cons, List.flatMap_singleton,
    haliases _ List.mem_cons_self, haliases _ (List.mem_cons_of_mem _ List.mem_cons_self)]
  rfl

/-! ### One pass removes one pair of brackets -/

/-- The first occurrence of the secret in a nested text is in the innermost brackets. -/
theorem find?_nested (n : Nat) (after : List Char) :
    Find.find? (nested 1) (List.replicate n '(' ++ (nested 1 ++ after)) = some n := by
  induction n with
  | zero =>
      rw [List.replicate_zero, List.nil_append, Find.find?_of_isPrefix (List.prefix_append _ _)]
  | succ n ih =>
      rw [List.replicate_succ, List.cons_append, Find.find?, if_neg, ih]
      · rfl
      · -- the second character is a bracket, not the marker's
        intro hpre
        cases n with
        | zero => exact absurd hpre (by simp [nested, secretMarker, List.cons_prefix_cons])
        | succ n =>
            exact absurd hpre (by simp [nested, secretMarker, List.replicate_succ,
              List.cons_prefix_cons])

/-- Replacing the secret in a nested text leaves the nested text of one depth less. -/
theorem replaceAll_nested (n : Nat) :
    Find.replaceAll (nested 1) secretMarker (nested (n + 1)) = nested n := by
  have hright : '(' ∉ List.replicate n ')' := fun h => absurd (List.eq_of_mem_replicate h) (by decide)
  have hnone : ∀ fuel, Find.replaceFrom (nested 1) secretMarker fuel (List.replicate n ')') =
      List.replicate n ')' := by
    intro fuel
    cases fuel with
    | zero => rfl
    | succ fuel =>
        rw [Find.replaceFrom, Find.find?_eq_none (by decide : '(' ∈ nested 1) hright]
  have hdrop : (List.replicate n '(' ++ (nested 1 ++ List.replicate n ')')).drop
      (n + (nested 1).length) = List.replicate n ')' := by
    rw [← List.append_assoc]
    apply List.drop_left'
    rw [List.length_append, List.length_replicate]
  rw [nested_succ n, List.append_assoc, Find.replaceAll, Find.replaceFrom, find?_nested]
  dsimp only
  rw [hdrop, hnone, List.take_left' List.length_replicate]
  rfl

theorem replaceSpans_nil (state : Redaction) : replaceSpans [] state = state := rfl

/-- One pass over a nested text takes one pair of brackets off it and no more. -/
theorem text_pass_nested {state : Redaction} {n : Nat} (h : state.text = nested (n + 1)) :
    (replaceKnownSecrets noEntities nestingKnown state).text = nested n := by
  have hcross : crossEncodedSecretSpans noEntities nestingKnown.knownSecrets state.text = [] := by
    unfold crossEncodedSecretSpans
    rw [h, isPlainText_nested, if_pos rfl]
    split <;> rfl
  have hbase64 : base64EncodedSecretSpans state.text nestingKnown.knownSecretBytes = [] := by
    rw [h]
    exact base64EncodedSecretSpans_nested (n + 1)
  have hunchanged : ∀ variant, 'K' ∈ variant → replaceVariant state variant = state := by
    intro variant hvariant
    unfold replaceVariant
    rw [h, positions_eq_nil hvariant (notMem_nested (by decide) _)]
    rfl
  unfold replaceKnownSecrets
  dsimp only
  rw [hcross, replaceSpans_nil, hbase64, replaceSpans_nil]
  show (replaceVariant (replaceVariant (replaceVariant state _) _) (nested 1)).text = _
  rw [hunchanged "KFttaDpzXSk=".toList (by decide), hunchanged "KFttaDpzXSk".toList (by decide)]
  unfold replaceVariant
  dsimp only
  rw [h, if_neg]
  · exact replaceAll_nested n
  · rw [Find.positions, Find.positionsFrom, nested_succ n, List.append_assoc, find?_nested]
    exact Nat.succ_ne_zero _

/-- The layers before the final loop, on a text in which only the marker stands: they replace known
secrets once. -/
def nestingLayers : Layers where
  before value :=
    match scalars value with
    | none => .error ⟨"MH_PRIVACY_REDACT_UNICODE", "redaction input contains unsupported Unicode"⟩
    | some text => .ok (replaceKnownSecrets noEntities nestingKnown ⟨text, []⟩)
  after _ state := .ok ⟨state.text, state.counts⟩

/-- The final loop gives up on the marker in a hundred and thirty pairs of brackets. -/
theorem redact_nested_gives_up :
    KnownSecrets.init plainForms [(nested 1).map ofChar] = .ok nestingKnown ∧
      redact nestingLayers noEntities nestingKnown ((nested 130).map ofChar) =
        .error ⟨"MH_PRIVACY_REDACT_INVARIANT",
          "known redaction values did not reach a stable output"⟩ := by
  have hiterate : ∀ i n (state : Redaction), state.text = nested (n + i) →
      ((replaceKnownSecrets noEntities nestingKnown)^[i] state).text = nested n := by
    intro i
    induction i with
    | zero => exact fun n state h => h
    | succ i ih =>
        intro n state h
        rw [Function.iterate_succ_apply]
        exact ih n _ (text_pass_nested h)
  have hlength : ∀ n, (nested n).length = 2 * n + 6 := by
    intro n
    rw [nested, List.length_append, List.length_append, List.length_replicate,
      List.length_replicate]
    show n + 6 + n = _
    omega
  refine ⟨init_nested, ?_⟩
  have hfirst : nestingLayers.before ((nested 130).map ofChar) =
      .ok (replaceKnownSecrets noEntities nestingKnown ⟨nested 130, []⟩) := by
    unfold nestingLayers
    dsimp only
    rw [scalars_eq_some_iff.mpr rfl]
  have htext := @text_pass_nested ⟨nested 130, []⟩ 129 rfl
  rw [redact_eq hfirst]
  generalize replaceKnownSecrets noEntities nestingKnown ⟨nested 130, []⟩ = restored at htext
  rw [settle_eq_none_iff.mpr]
  intro i hi hsame
  have hi' : i < 129 := hi
  have hbefore := hiterate i (129 - i) restored (by rw [Nat.sub_add_cancel (by omega), htext])
  have hafter := hiterate (i + 1) (128 - i) restored (by
    have hsum : 128 - i + (i + 1) = 129 := by omega
    rw [hsum, htext])
  rw [hbefore, hafter] at hsame
  have hlengths := congrArg List.length hsame
  rw [hlength, hlength] at hlengths
  omega

/-- With eight passes, the loop ends for a text of seven bytes. -/
theorem redaction_loops_settle_nested :
    ∃ settled, settle (replaceKnownSecrets noEntities nestingKnown) (·.text) 8
      ⟨"([mh:s]".toList, []⟩ = some settled :=
  (redaction_loops_settle plainForms plainForms_documented noEntities noEntities_documented
    [(nested 1).map ofChar] nestingKnown init_nested).2.1 8 _ (by decide +kernel)

end Milhouse.Redact
