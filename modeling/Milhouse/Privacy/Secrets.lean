import Milhouse.Lib.Find
import Milhouse.Lib.Spans
import Milhouse.Privacy.Redact
import Milhouse.Privacy.Views

/-!
# Milhouse — where known secrets stand

A registered value is looked for in three ways: in the views that one or two decoders make of the
text, as base64 of either alphabet, and as one of its written variants. The first two find parts of
the text, which are replaced from the last to the first.

* **`base64EncodedSecretSpans_separated`**, **`crossEncodedSecretSpans_separated`** — the parts are
  in order, apart and inside the text;
* **`mapped_views`** — views are well formed, and replacing the parts replaces exactly them.
-/

namespace Milhouse.Redact

open Mapped Spans

/-! ## Base64 aliases -/

/-- `_without_ascii_whitespace_view`. -/
def withoutAsciiWhitespaceView (value : List Char) : View Char :=
  let kept := value.zipIdx.filter fun p => !isBlank p.1
  ⟨kept.map (·.1), kept.map (·.2), kept.map (·.2 + 1)⟩

def standardAlphabet : List Char :=
  "ABCDEFGHIJKLMNOPQRSTUVWXYZabcdefghijklmnopqrstuvwxyz0123456789+/".toList

def urlsafeAlphabet : List Char :=
  "ABCDEFGHIJKLMNOPQRSTUVWXYZabcdefghijklmnopqrstuvwxyz0123456789-_".toList

/-- The bits of some bytes in sixes. -/
def sextets : List UInt8 → List Nat
  | a :: b :: c :: rest =>
      a.toNat / 4 :: (a.toNat % 4 * 16 + b.toNat / 16) :: (b.toNat % 16 * 4 + c.toNat / 64) ::
        c.toNat % 64 :: sextets rest
  | [a, b] => [a.toNat / 4, a.toNat % 4 * 16 + b.toNat / 16, b.toNat % 16 * 4]
  | [a] => [a.toNat / 4, a.toNat % 4 * 16]
  | [] => []

/-- `base64.b64encode` in an alphabet, without its padding. -/
def base64Unpadded (alphabet : List Char) (bytes : List UInt8) : List Char :=
  (sextets bytes).map fun n => alphabet.getD n 'A'

/-- How much padding there is. -/
def base64Padding (bytes : List UInt8) : Nat := (3 - bytes.length % 3) % 3

/-- The characters that the last one may be, whatever its unused bits. -/
def allowedFinal (alphabet : List Char) (bytes : List UInt8) : List Char :=
  let unused := match bytes.length % 3 with
    | 0 => 1
    | 1 => 16
    | _ => 4
  let canonicalIndex := alphabet.idxOf ((base64Unpadded alphabet bytes).getLastD 'A')
  (alphabet.drop (canonicalIndex / unused * unused)).take unused

/-- The aliases of one value in one alphabet, as parts of the text. -/
def base64Aliases (view : View Char) (alphabet : List Char) (bytes : List UInt8) : List Span :=
  let stem := (base64Unpadded alphabet bytes).dropLast
  (Find.positions stem 1 view.text).filterMap fun found =>
    let behind := view.text.drop (found + stem.length)
    if behind.head?.any (· ∈ allowedFinal alphabet bytes) then
      let padding := ((behind.drop 1).take (base64Padding bytes)).takeWhile (· = '=')
      let stop := found + stem.length + 1 + padding.length
      some (view.starts.getD found 0, view.ends.getD (stop - 1) 0)
    else none

/-- Collect candidates in the dictionary. -/
def collect (candidates found : List Span) : List Span :=
  found.foldl (fun candidates s => addCandidate s.1 s.2 candidates) candidates

/-- `_base64_encoded_secret_spans`. -/
def base64EncodedSecretSpans (value : List Char) (secrets : List (List UInt8)) : List Span :=
  let view := withoutAsciiWhitespaceView value
  merged (collect [] (secrets.flatMap fun secret =>
    [standardAlphabet, urlsafeAlphabet].flatMap fun alphabet => base64Aliases view alphabet secret))

/-! ## Pairs of decoders -/

/-- The decoders, in their order. -/
def decoders : List Decoder :=
  [.percent false, .percent true, .json, .html, .base64, .hex 0, .hex 1]

section Cross

variable (html : HtmlEntities) (secrets : List (List Char))

/-- What is found in one decoded view, as parts of the original text. -/
def foundIn (view : View Char) : List Span :=
  (base64EncodedSecretSpans view.text (secrets.map Utf8.encode)).map (fun s =>
    (view.starts.getD s.1 0, view.ends.getD (s.2 - 1) 0)) ++
  secrets.flatMap fun secret =>
    (Find.positions secret secret.length view.text).map fun found =>
      (view.starts.getD found 0, view.ends.getD (found + secret.length - 1) 0)

/-- The state of the search: the next views, all views seen, and the candidates. -/
structure Search where
  next : List (View Char)
  seen : List (View Char)
  candidates : List Span

/-- One decoder at one view. A view that changes nothing or was seen is not looked at. -/
def visit (view : View Char) (search : Search) (decoder : Decoder) : Search :=
  let decoded := decoder.next html view
  if decoded.text = view.text ∨ decoded ∈ search.seen then search
  else ⟨search.next ++ [decoded], decoded :: search.seen,
    collect search.candidates (foundIn secrets decoded)⟩

/-- One layer of decoders. -/
def layer (search : Search) : Search :=
  search.next.foldl (fun search view => decoders.foldl (visit html secrets view) search)
    { search with next := [] }

/-- `pattern.search(value) is not None`. -/
def hasToken (pattern : Option Char → List Char → Option (List Char)) (value : List Char) : Bool :=
  (findIter pattern value.length none value).any fun
    | .gap _ => false
    | .token _ => true

/-- Whether no decoder can change a text. -/
def isPlainText (value : List Char) : Bool :=
  !(['%', '+', '\\', '&'].any fun marker => value.contains marker) && !hasToken base64Token value &&
    !hasToken hexToken value

/-- `_cross_encoded_secret_spans`. -/
def crossEncodedSecretSpans (value : List Char) : List Span :=
  if secrets = [] then []
  else if isPlainText value then []
  else
    let view := View.identity value
    merged (layer html secrets (layer html secrets ⟨[view], [view], []⟩)).candidates

end Cross

/-! ## What is found -/

section Found

variable {P : Span → Prop}

theorem forall_collect {candidates found : List Span} (h : ∀ s ∈ candidates, P s)
    (hfound : ∀ s ∈ found, P s) : ∀ s ∈ collect candidates found, P s := by
  unfold collect
  induction found generalizing candidates with
  | nil => exact h
  | cons f found ih =>
      refine ih (forall_addCandidate ?_ ?_ h) (fun s hs => hfound s (List.mem_cons_of_mem _ hs))
      · -- the larger end is that of the old candidate or of the new one
        rintro s hs heq
        rcases Nat.le_total s.2 f.2 with hle | hle
        · rw [Nat.max_eq_right hle, heq]
          exact hfound f List.mem_cons_self
        · rw [Nat.max_eq_left hle]
          exact h s hs
      · exact hfound f List.mem_cons_self

theorem withoutAsciiWhitespaceView_sorted (value : List Char) :
    (withoutAsciiWhitespaceView value).starts.Pairwise (· < ·) := by
  have hindex : (value.zipIdx.map (·.2)).Pairwise (· < ·) := by
    rw [List.zipIdx_map_snd]
    exact List.pairwise_lt_range'
  exact hindex.sublist (List.filter_sublist.map _)

theorem withoutAsciiWhitespaceView_wellFormed (value : List Char) :
    (withoutAsciiWhitespaceView value).WellFormed value.length := by
  have hsub : (value.zipIdx.filter fun p => !isBlank p.1).Sublist value.zipIdx :=
    List.filter_sublist
  have hsorted := withoutAsciiWhitespaceView_sorted value
  refine ⟨?_, ?_, fun i hi => ?_, hsorted.imp Nat.le_of_lt, ?_⟩
  · simp [withoutAsciiWhitespaceView]
  · simp [withoutAsciiWhitespaceView]
  · have hlength : i < (value.zipIdx.filter fun p => !isBlank p.1).length := by
      simpa [withoutAsciiWhitespaceView] using hi
    have hmem := hsub.subset (List.getElem_mem hlength)
    have hlt := List.snd_lt_of_mem_zipIdx hmem
    show ((value.zipIdx.filter fun p => !isBlank p.1).map (·.2)).getD i 0 <
        ((value.zipIdx.filter fun p => !isBlank p.1).map (·.2 + 1)).getD i 0 ∧
      ((value.zipIdx.filter fun p => !isBlank p.1).map (·.2 + 1)).getD i 0 ≤ value.length
    rw [getD_map_of_lt hlength ('a', 0), getD_map_of_lt hlength ('a', 0),
      List.getD_eq_getElem _ _ hlength]
    omega
  · exact List.pairwise_map.mpr ((List.pairwise_map.mp hsorted).imp fun h =>
      Nat.succ_le_succ (Nat.le_of_lt h))

theorem sextets_ne_nil {bytes : List UInt8} (h : bytes ≠ []) : 2 ≤ (sextets bytes).length := by
  unfold sextets
  split
  · simp only [List.length_cons]
    omega
  · exact Nat.le_succ 2
  · exact Nat.le_refl 2
  · exact absurd rfl h

/-- **An alias** is a part of the view that its stem and one more character fill. -/
theorem mem_base64Aliases {view : View Char} {alphabet : List Char} {bytes : List UInt8}
    (hne : bytes ≠ []) {s : Span} (h : s ∈ base64Aliases view alphabet bytes) :
    ∃ i j, i + (sextets bytes).length ≤ j + 1 ∧ j < view.text.length ∧
      s = (view.starts.getD i 0, view.ends.getD j 0) := by
  unfold base64Aliases at h
  obtain ⟨found, hfound, h⟩ := List.mem_filterMap.mp h
  have htwo := sextets_ne_nil hne
  have hstem : (base64Unpadded alphabet bytes).dropLast.length + 1 = (sextets bytes).length := by
    rw [List.length_dropLast, base64Unpadded, List.length_map]
    omega
  generalize (base64Unpadded alphabet bytes).dropLast = stem at hstem hfound h
  dsimp only at h
  split at h
  · rename_i hhead
    obtain rfl := Option.some.inj h
    have hbehind : view.text.drop (found + stem.length) ≠ [] := by
      intro hnil
      rw [hnil] at hhead
      cases hhead
    have hpos := List.length_pos_iff.mpr hbehind
    rw [List.length_drop] at hpos
    generalize hpadding : List.takeWhile _ (List.take (base64Padding bytes)
      ((view.text.drop (found + stem.length)).drop 1)) = padding
    have hlength : padding.length ≤ view.text.length - (found + stem.length) - 1 := by
      rw [← hpadding]
      refine (List.takeWhile_prefix _).length_le.trans ?_
      rw [List.length_take, List.length_drop, List.length_drop]
      exact Nat.min_le_right _ _
    exact ⟨found, found + stem.length + 1 + padding.length - 1, by omega, by omega, rfl⟩
  · cases h

/-- **What is found as base64** are merged candidates inside the text. -/
theorem base64EncodedSecretSpans_eq {value : List Char} {secrets : List (List UInt8)}
    (hne : ∀ bytes ∈ secrets, bytes ≠ [])
    (hP : ∀ bytes ∈ secrets, ∀ i j, i + (sextets bytes).length ≤ j + 1 →
      j < (withoutAsciiWhitespaceView value).text.length →
      P ((withoutAsciiWhitespaceView value).starts.getD i 0,
        (withoutAsciiWhitespaceView value).ends.getD j 0)) :
    ∃ candidates, (∀ s ∈ candidates, P s) ∧
      base64EncodedSecretSpans value secrets = merged candidates := by
  refine ⟨_, forall_collect (fun _ h => absurd h List.not_mem_nil) fun s hs => ?_, rfl⟩
  obtain ⟨bytes, hbytes, hs⟩ := List.mem_flatMap.mp hs
  obtain ⟨alphabet, -, hs⟩ := List.mem_flatMap.mp hs
  obtain ⟨i, j, hle, hlt, rfl⟩ := mem_base64Aliases (hne bytes hbytes) hs
  exact hP bytes hbytes i j hle hlt

theorem base64EncodedSecretSpans_separated (value : List Char) {secrets : List (List UInt8)}
    (hne : ∀ bytes ∈ secrets, bytes ≠ []) :
    Separated 0 (base64EncodedSecretSpans value secrets) value.length := by
  obtain ⟨candidates, hcandidates, heq⟩ := @base64EncodedSecretSpans_eq
    (fun s => s.1 < s.2 ∧ s.2 ≤ value.length) value secrets hne fun bytes hbytes i j hle hlt => by
      have htwo := sextets_ne_nil (hne bytes hbytes)
      exact (withoutAsciiWhitespaceView_wellFormed value).source_lt (by omega) hlt
  rw [heq]
  exact separated_merged hcandidates

/-! ### Across decoders -/

section Cross

variable {html : HtmlEntities} {secrets : List (List Char)} {V : View Char → Prop}

/-- What holds of the views of a search and of what it found. -/
structure Search.Holds (V : View Char → Prop) (P : Span → Prop) (search : Search) : Prop where
  next : ∀ view ∈ search.next, V view
  candidates : ∀ s ∈ search.candidates, P s

theorem Search.Holds.visit {search : Search} (h : search.Holds V P) {view : View Char}
    (hview : V view) (hnext : ∀ view, V view → ∀ decoder, V (Decoder.next html view decoder))
    (hfound : ∀ view, V view → ∀ s ∈ foundIn secrets view, P s) (decoder : Decoder) :
    (visit html secrets view search decoder).Holds V P := by
  have hdecoded := hnext view hview decoder
  unfold Redact.visit
  dsimp only
  split
  · exact h
  · refine ⟨fun v hv => ?_, forall_collect h.candidates (hfound _ hdecoded)⟩
    rcases List.mem_append.mp hv with hv | hv
    · exact h.next v hv
    · rw [List.mem_singleton.mp hv]
      exact hdecoded

/-- One layer of decoders keeps what every decoder keeps. -/
theorem Search.Holds.layer {search : Search} (h : search.Holds V P)
    (hnext : ∀ view, V view → ∀ decoder, V (Decoder.next html view decoder))
    (hfound : ∀ view, V view → ∀ s ∈ foundIn secrets view, P s) :
    (layer html secrets search).Holds V P := by
  have hvisits : ∀ (ds : List Decoder) (view : View Char) (other : Search), V view →
      other.Holds V P → (ds.foldl (Redact.visit html secrets view) other).Holds V P := by
    intro ds view
    induction ds with
    | nil => exact fun _ _ hother => hother
    | cons d ds ih =>
        exact fun other hview hother => ih _ hview (hother.visit hview hnext hfound d)
  have hviews : ∀ (views : List (View Char)) (other : Search), (∀ v ∈ views, V v) →
      other.Holds V P → (views.foldl (fun search view =>
        decoders.foldl (Redact.visit html secrets view) search) other).Holds V P := by
    intro views
    induction views with
    | nil => exact fun _ _ hother => hother
    | cons v views ih =>
        exact fun other hall hother => ih _ (fun w hw => hall w (List.mem_cons_of_mem _ hw))
          (hvisits decoders v other (hall v List.mem_cons_self) hother)
  exact hviews search.next { search with next := [] } h.next
    ⟨fun _ hv => absurd hv List.not_mem_nil, h.candidates⟩

/-- **What is found across decoders** are merged candidates. -/
theorem crossEncodedSecretSpans_eq {value : List Char} (hV : V (View.identity value))
    (hnext : ∀ view, V view → ∀ decoder, V (Decoder.next html view decoder))
    (hfound : ∀ view, V view → ∀ s ∈ foundIn secrets view, P s) :
    ∃ candidates, (∀ s ∈ candidates, P s) ∧
      crossEncodedSecretSpans html secrets value = merged candidates := by
  unfold crossEncodedSecretSpans
  split
  · exact ⟨[], fun _ h => absurd h List.not_mem_nil, rfl⟩
  · split
    · exact ⟨[], fun _ h => absurd h List.not_mem_nil, rfl⟩
    · have hstart : Search.Holds V P ⟨[View.identity value], [View.identity value], []⟩ :=
        ⟨fun v hv => List.mem_singleton.mp hv ▸ hV, fun _ h => absurd h List.not_mem_nil⟩
      exact ⟨_, ((hstart.layer hnext hfound).layer hnext hfound).candidates, rfl⟩

/-- A part of a view and a secret that it holds. -/
theorem mem_foundIn {view : View Char} {s : Span} (hsecrets : ∀ secret ∈ secrets, secret ≠ [])
    (h : s ∈ foundIn secrets view) :
    (∃ m ∈ base64EncodedSecretSpans view.text (secrets.map Utf8.encode),
      s = (view.starts.getD m.1 0, view.ends.getD (m.2 - 1) 0)) ∨
    ∃ secret ∈ secrets, ∃ found, found + secret.length ≤ view.text.length ∧
      secret <+: view.text.drop found ∧
      s = (view.starts.getD found 0, view.ends.getD (found + secret.length - 1) 0) := by
  unfold foundIn at h
  rcases List.mem_append.mp h with h | h
  · obtain ⟨m, hm, rfl⟩ := List.mem_map.mp h
    exact Or.inl ⟨m, hm, rfl⟩
  · obtain ⟨secret, hsecret, h⟩ := List.mem_flatMap.mp h
    obtain ⟨found, hposition, rfl⟩ := List.mem_map.mp h
    exact Or.inr ⟨secret, hsecret, found,
      Find.add_length_le_of_mem_positions (hsecrets secret hsecret) hposition,
      Find.isPrefix_drop_of_mem_positions hposition, rfl⟩

theorem encode_ne_nil {text : List Char} (h : text ≠ []) : Utf8.encode text ≠ [] := by
  cases text with
  | nil => exact absurd rfl h
  | cons c text =>
      intro hnil
      have hlength := congrArg List.length hnil
      have hpos := Char.utf8Size_pos c
      rw [Utf8.encode_cons, List.length_append, String.length_utf8EncodeChar, List.length_nil]
        at hlength
      omega

theorem encode_map_ne_nil (hsecrets : ∀ secret ∈ secrets, secret ≠ []) :
    ∀ bytes ∈ secrets.map Utf8.encode, bytes ≠ [] := by
  intro bytes hbytes
  obtain ⟨secret, hsecret, rfl⟩ := List.mem_map.mp hbytes
  exact encode_ne_nil (hsecrets secret hsecret)

theorem crossEncodedSecretSpans_separated (html : HtmlEntities) (value : List Char)
    (hsecrets : ∀ secret ∈ secrets, secret ≠ []) :
    Separated 0 (crossEncodedSecretSpans html secrets value) value.length := by
  obtain ⟨candidates, hcandidates, heq⟩ := @crossEncodedSecretSpans_eq
    (fun s => s.1 < s.2 ∧ s.2 ≤ value.length) html secrets (fun view => view.WellFormed value.length)
    value (View.WellFormed.identity value)
    (fun view hview decoder => hview.decode (decoder.tiles (pieceRules_trivial html) view.text)) (by
      intro view hview s hs
      rcases mem_foundIn hsecrets hs with ⟨m, hm, rfl⟩ | ⟨secret, hsecret, found, hle, -, rfl⟩
      · have hseparated := base64EncodedSecretSpans_separated view.text (encode_map_ne_nil hsecrets)
        obtain ⟨-, hlt, hle⟩ := (separated_iff.mp hseparated).2.1 m hm
        exact hview.source_lt (by omega) (by omega)
      · have hpos := List.length_pos_iff.mpr (hsecrets secret hsecret)
        exact hview.source_lt (by omega) (by omega))
  rw [heq]
  exact separated_merged hcandidates

end Cross

end Found

/-! ## The views and the parts -/

/-- **Views and parts**: every composition of decoders keeps text, starts and ends of one length,
with sources inside the text and in order; and the parts in which secrets are found are in order,
apart and inside the text, so that replacing them from the last to the first replaces exactly
them. -/
theorem mapped_views (html : HtmlEntities) (text : List Char) (secrets : List (List Char))
    (secretBytes : List (List UInt8)) (hsecrets : ∀ secret ∈ secrets, secret ≠ [])
    (hbytes : ∀ bytes ∈ secretBytes, bytes ≠ []) :
    (∀ ds : List Decoder,
      (ds.foldl (Decoder.next html) (View.identity text)).WellFormed text.length) ∧
    (withoutAsciiWhitespaceView text).WellFormed text.length ∧
    ∀ spans ∈ [crossEncodedSecretSpans html secrets text,
        base64EncodedSecretSpans text secretBytes],
      (∀ s ∈ spans, s.1 < s.2 ∧ s.2 ≤ text.length) ∧ spans.Pairwise (fun a b => a.2 ≤ b.1) ∧
        ∀ replacement : Span → List Char,
          replaceBack replacement spans text = substituted replacement text 0 spans := by
  have hspans : ∀ spans, Separated 0 spans text.length →
      (∀ s ∈ spans, s.1 < s.2 ∧ s.2 ≤ text.length) ∧ spans.Pairwise (fun a b => a.2 ≤ b.1) ∧
        ∀ replacement : Span → List Char,
          replaceBack replacement spans text = substituted replacement text 0 spans := by
    intro spans h
    obtain ⟨-, hinside, happart⟩ := separated_iff.mp h
    exact ⟨fun s hs => (hinside s hs).2, happart, fun replacement => replaceBack_eq h⟩
  refine ⟨decodeAll_wellFormed html text, withoutAsciiWhitespaceView_wellFormed text, ?_⟩
  intro spans hmem
  simp only [List.mem_cons, List.not_mem_nil, or_false] at hmem
  rcases hmem with rfl | rfl
  · exact hspans _ (crossEncodedSecretSpans_separated html text hsecrets)
  · exact hspans _ (base64EncodedSecretSpans_separated text hbytes)

/-- No named references. -/
def noEntities : HtmlEntities := ⟨fun _ => none⟩

def sampleSecret : List Char := "abcdefgh".toList
def otherSecret : List Char := "bcdefghi".toList

/-- A secret with its first character percent-encoded, another one with its first as a reference, and
the first in base64. -/
def samplePercent : List Char := "x%61bcdefgh!&#98;cdefghi? YWJjZGVmZ2g= z".toList

/-- Each encoded secret is found, and replaced as it stands in the text. -/
theorem mapped_views_percent :
    crossEncodedSecretSpans noEntities [sampleSecret, otherSecret] samplePercent =
        [(1, 11), (12, 24), (26, 38)] ∧
      replaceBack (fun _ => "[mh:s]".toList)
        (crossEncodedSecretSpans noEntities [sampleSecret, otherSecret] samplePercent)
          samplePercent = "x[mh:s]![mh:s]? [mh:s] z".toList ∧
      base64EncodedSecretSpans samplePercent [[97, 98, 99, 100, 101, 102, 103, 104]] = [(26, 38)] ∧
      replaceBack (fun _ => "[mh:s]".toList)
        (base64EncodedSecretSpans samplePercent [[97, 98, 99, 100, 101, 102, 103, 104]])
          samplePercent = "x%61bcdefgh!&#98;cdefghi? [mh:s] z".toList := by
  have hne : ∀ secret ∈ [sampleSecret, otherSecret], secret ≠ [] := by decide
  have hcross : crossEncodedSecretSpans noEntities [sampleSecret, otherSecret] samplePercent =
      [(1, 11), (12, 24), (26, 38)] := by
    decide +kernel
  have hbase64 : base64EncodedSecretSpans samplePercent
      [[97, 98, 99, 100, 101, 102, 103, 104]] = [(26, 38)] := by
    decide +kernel
  obtain ⟨-, -, hparts⟩ := mapped_views noEntities samplePercent [sampleSecret, otherSecret]
    [[97, 98, 99, 100, 101, 102, 103, 104]] hne (by decide)
  refine ⟨hcross, ?_, hbase64, ?_⟩
  · rw [(hparts _ List.mem_cons_self).2.2, hcross]
    decide +kernel
  · rw [(hparts _ (List.mem_cons_of_mem _ List.mem_cons_self)).2.2, hbase64]
    decide +kernel

end Milhouse.Redact
