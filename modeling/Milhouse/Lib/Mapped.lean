import Mathlib.Algebra.GroupWithZero.Nat
import Mathlib.Data.List.Basic
import Mathlib.Data.List.GetD
import Mathlib.Data.List.Pairwise

/-!
# Mapped — decoded views that remember where they come from

A view of an original text is a text, and for each of its characters where in the original its
source starts and ends. A decoder cuts the text of a view into pieces and gives what each piece
decodes to; every decoded character takes the source of its whole piece.

* **`View.WellFormed.decode`** — a decoder that tiles the text keeps a view well formed;
* **`View.Bounded.decode`** — where no piece decodes to something heavier, no part of a view is
  heavier than its source in the original.
-/

namespace Mapped

variable {α : Type}

/-! ## Views and pieces -/

/-- A decoded text, with where the source of each of its characters starts and ends. -/
structure View (α : Type) where
  text : List α
  starts : List Nat
  ends : List Nat
  deriving DecidableEq

/-- The view of a text as it stands. -/
def View.identity (text : List α) : View α where
  text := text
  starts := List.range text.length
  ends := (List.range text.length).map (· + 1)

/-- What a decoder consumes at once, and what that decodes to. -/
structure Piece (α : Type) where
  consumed : Nat
  decoded : List α

/-- Characters that are passed through, each with its own source. -/
def copied (text : List α) : List (Piece α) := text.map fun c => ⟨1, [c]⟩

/-- For each decoded character, the first and the last position of its piece. -/
def origins : Nat → List (Piece α) → List (Nat × Nat)
  | _, [] => []
  | cursor, p :: rest =>
      List.replicate p.decoded.length (cursor, cursor + p.consumed - 1) ++
        origins (cursor + p.consumed) rest

/-- The view that a decoder makes of a view. -/
def View.decode (v : View α) (pieces : List (Piece α)) : View α where
  text := pieces.flatMap (·.decoded)
  starts := (origins 0 pieces).map fun o => v.starts.getD o.1 0
  ends := (origins 0 pieces).map fun o => v.ends.getD o.2 0

/-- Pieces that cover a text exactly, with a relation between each part and what it decodes to. -/
inductive Tiles (P : List α → List α → Prop) : List α → List (Piece α) → Prop where
  | nil : Tiles P [] []
  | cons (source decoded rest : List α) (pieces : List (Piece α)) (hne : source ≠ [])
      (hP : P source decoded) (hrest : Tiles P rest pieces) :
      Tiles P (source ++ rest) (⟨source.length, decoded⟩ :: pieces)

namespace Tiles

variable {P Q : List α → List α → Prop} {text text' : List α} {pieces pieces' : List (Piece α)}

/-- Tilings of two texts make up a tiling of both. -/
theorem append (h : Tiles P text pieces) (h' : Tiles P text' pieces') :
    Tiles P (text ++ text') (pieces ++ pieces') := by
  induction h with
  | nil => exact h'
  | cons source decoded rest pieces hne hP hrest ih =>
      rw [List.append_assoc]
      exact .cons source decoded _ _ hne hP ih

/-- One piece tiles its source. -/
theorem single {source decoded : List α} (hne : source ≠ []) (hP : P source decoded) :
    Tiles P source [⟨source.length, decoded⟩] := by
  have h := Tiles.cons source decoded [] [] hne hP .nil
  rwa [List.append_nil] at h

theorem copied (h : ∀ c, P [c] [c]) (text : List α) : Tiles P text (copied text) := by
  induction text with
  | nil => exact .nil
  | cons c text ih => exact .cons [c] [c] text _ (List.cons_ne_nil _ _) (h c) ih

theorem imp (hPQ : ∀ source decoded, P source decoded → Q source decoded)
    (h : Tiles P text pieces) : Tiles Q text pieces := by
  induction h with
  | nil => exact .nil
  | cons source decoded rest pieces hne hP hrest ih =>
      exact .cons source decoded rest pieces hne (hPQ _ _ hP) ih

end Tiles

/-! ## Where decoded characters come from -/

section Origins

variable {P : List α → List α → Prop} {text : List α} {pieces : List (Piece α)} {cursor : Nat}

/-- Every decoded character has an origin. -/
theorem length_origins (cursor : Nat) (pieces : List (Piece α)) :
    (origins cursor pieces).length = (pieces.flatMap (·.decoded)).length := by
  induction pieces generalizing cursor with
  | nil => rfl
  | cons p pieces ih =>
      rw [origins, List.length_append, List.length_replicate, ih, List.flatMap_cons,
        List.length_append]

/-- A piece lies inside the text. -/
theorem mem_origins (h : Tiles P text pieces) {o : Nat × Nat} (ho : o ∈ origins cursor pieces) :
    cursor ≤ o.1 ∧ o.1 ≤ o.2 ∧ o.2 < cursor + text.length := by
  induction h generalizing cursor with
  | nil => cases ho
  | cons source decoded rest pieces hne hP hrest ih =>
      have hpos := List.length_pos_iff.mpr hne
      rw [List.length_append]
      rw [origins, List.mem_append] at ho
      rcases ho with ho | ho
      · rw [List.eq_of_mem_replicate ho]
        dsimp only
        omega
      · obtain ⟨h1, h2, h3⟩ := ih ho
        dsimp only at h1 h3
        omega

/-- The pieces come one after the other. -/
theorem pairwise_origins (h : Tiles P text pieces) :
    (origins cursor pieces).Pairwise fun a b => a.1 ≤ b.1 ∧ a.2 ≤ b.2 := by
  induction h generalizing cursor with
  | nil => exact .nil
  | cons source decoded rest pieces hne hP hrest ih =>
      rw [origins]
      have hsame : (List.replicate decoded.length (cursor, cursor + source.length - 1)).Pairwise
          fun a b => a.1 ≤ b.1 ∧ a.2 ≤ b.2 :=
        List.pairwise_replicate.mpr (Or.inr ⟨Nat.le_refl _, Nat.le_refl _⟩)
      refine List.pairwise_append.mpr ⟨hsame, ih, ?_⟩
      intro a ha b hb
      have hmem := mem_origins hrest hb
      rw [List.eq_of_mem_replicate ha]
      dsimp only at hmem ⊢
      omega

end Origins

/-! ## Well-formed views -/

/-- The arrays of a view of a text of some length are as long as its text; every source is a part of
the original that is not empty; and sources come in order. -/
structure View.WellFormed (length : Nat) (v : View α) : Prop where
  starts_length : v.starts.length = v.text.length
  ends_length : v.ends.length = v.text.length
  inside : ∀ i < v.text.length, v.starts.getD i 0 < v.ends.getD i 0 ∧ v.ends.getD i 0 ≤ length
  starts_sorted : v.starts.Pairwise (· ≤ ·)
  ends_sorted : v.ends.Pairwise (· ≤ ·)

theorem getD_map_of_lt {β : Type} {l : List β} {f : β → Nat} {i : Nat} (h : i < l.length) (b : β) :
    (l.map f).getD i 0 = f (l.getD i b) := by
  rw [List.getD_eq_getElem _ _ (by rwa [List.length_map]), List.getElem_map,
    List.getD_eq_getElem _ _ h]

theorem getD_mono {l : List Nat} (h : l.Pairwise (· ≤ ·)) {i j : Nat} (hij : i ≤ j)
    (hj : j < l.length) : l.getD i 0 ≤ l.getD j 0 := by
  rw [List.getD_eq_getElem _ _ (by omega), List.getD_eq_getElem _ _ hj]
  rcases Nat.lt_or_eq_of_le hij with hlt | rfl
  · exact List.pairwise_iff_getElem.mp h i j _ _ hlt
  · exact Nat.le_refl _

/-- The view of a text as itself is well formed. -/
theorem View.WellFormed.identity (text : List α) :
    (View.identity text).WellFormed text.length where
  starts_length := List.length_range
  ends_length := by rw [View.identity, List.length_map, List.length_range]
  inside i hi := by
    have hrange : i < (List.range text.length).length := by rwa [List.length_range]
    show (List.range text.length).getD i 0 < ((List.range text.length).map (· + 1)).getD i 0 ∧ _
    have hget : (List.range text.length).getD i 0 = i := by
      rw [List.getD_eq_getElem _ _ hrange, List.getElem_range]
    have hend : ((List.range text.length).map (· + 1)).getD i 0 = i + 1 := by
      rw [getD_map_of_lt hrange 0, hget]
    rw [hget]
    refine ⟨?_, ?_⟩
    · rw [hend]
      exact Nat.lt_succ_self i
    · show ((List.range text.length).map (· + 1)).getD i 0 ≤ _
      rw [hend]
      exact hi
  starts_sorted := List.pairwise_lt_range.imp Nat.le_of_lt
  ends_sorted := by
    rw [View.identity]
    exact List.pairwise_map.mpr (List.pairwise_lt_range.imp fun h => Nat.succ_le_succ (Nat.le_of_lt h))

/-- **A decoder that tiles the text** keeps a view well formed. -/
theorem View.WellFormed.decode {P : List α → List α → Prop} {length : Nat} {v : View α}
    {pieces : List (Piece α)} (hv : v.WellFormed length) (h : Tiles P v.text pieces) :
    (v.decode pieces).WellFormed length where
  starts_length := by rw [View.decode, List.length_map, length_origins]
  ends_length := by rw [View.decode, List.length_map, length_origins]
  inside i hi := by
    have hlength : i < (origins 0 pieces).length := by rwa [length_origins]
    obtain ⟨-, hle, hlt⟩ := mem_origins h (List.getElem_mem hlength)
    have hget : (origins 0 pieces).getD i (0, 0) = (origins 0 pieces)[i] :=
      List.getD_eq_getElem _ _ hlength
    rw [Nat.zero_add] at hlt
    have hstart : (v.decode pieces).starts.getD i 0 = v.starts.getD (origins 0 pieces)[i].1 0 := by
      rw [View.decode, getD_map_of_lt hlength (0, 0), hget]
    have hend : (v.decode pieces).ends.getD i 0 = v.ends.getD (origins 0 pieces)[i].2 0 := by
      rw [View.decode, getD_map_of_lt hlength (0, 0), hget]
    have hfirst := hv.inside (origins 0 pieces)[i].1 (by omega)
    have hlast := hv.inside (origins 0 pieces)[i].2 hlt
    have hmono := getD_mono hv.ends_sorted hle (by rw [hv.ends_length]; exact hlt)
    rw [hstart, hend]
    omega
  starts_sorted := by
    refine List.pairwise_map.mpr ((pairwise_origins h).imp_of_mem fun ha hb hab => ?_)
    obtain ⟨-, hle, hlt⟩ := mem_origins h hb
    exact getD_mono hv.starts_sorted hab.1 (by rw [hv.starts_length]; omega)
  ends_sorted := by
    refine List.pairwise_map.mpr ((pairwise_origins h).imp_of_mem fun ha hb hab => ?_)
    obtain ⟨-, -, hlt⟩ := mem_origins h hb
    exact getD_mono hv.ends_sorted hab.2 (by rw [hv.ends_length]; omega)

/-- A part of a well-formed view comes from a part of the original. -/
theorem View.WellFormed.source_lt {length : Nat} {v : View α} (hv : v.WellFormed length) {i j : Nat}
    (hij : i ≤ j) (hj : j < v.text.length) :
    v.starts.getD i 0 < v.ends.getD j 0 ∧ v.ends.getD j 0 ≤ length := by
  have hfirst := hv.inside i (by omega)
  have hlast := hv.inside j hj
  have hmono := getD_mono hv.ends_sorted hij (by rw [hv.ends_length]; exact hj)
  omega

/-! ## What a part of a view weighs -/

section Weight

variable (weight : α → Nat)

/-- What a text weighs. -/
def total (text : List α) : Nat := (text.map weight).sum

variable {weight}

@[simp] theorem total_nil : total weight [] = 0 := rfl

@[simp] theorem total_append (a b : List α) :
    total weight (a ++ b) = total weight a + total weight b := by
  rw [total, List.map_append, List.sum_append, total, total]

@[simp] theorem total_cons (c : α) (text : List α) :
    total weight (c :: text) = weight c + total weight text := rfl

/-- A text weighs no less than what is left of it. -/
theorem total_sublist {a b : List α} (h : a.Sublist b) : total weight a ≤ total weight b := by
  induction h with
  | slnil => exact Nat.le_refl _
  | cons c h ih =>
      rw [total_cons]
      omega
  | cons_cons c h ih =>
      rw [total_cons, total_cons]
      omega

/-- The part of a text between two positions. -/
def slice (text : List α) (i j : Nat) : List α := (text.take j).drop i

theorem slice_sublist (text : List α) (i j : Nat) : (slice text i j).Sublist text :=
  (List.drop_sublist _ _).trans (List.take_sublist _ _)

/-- A longer part weighs no less. -/
theorem total_slice_mono (text : List α) {i i' j j' : Nat} (hi : i' ≤ i) (hj : j ≤ j') :
    total weight (slice text i j) ≤ total weight (slice text i' j') := by
  apply total_sublist
  have htake : (text.take j).Sublist (text.take j') := by
    rw [← Nat.min_eq_left hj, ← List.take_take]
    exact List.take_sublist _ _
  exact (htake.drop i).trans (List.drop_sublist_drop_left _ hi)

/-- A slice within the text is as long as its bounds are apart. -/
theorem length_slice {text : List α} {i j : Nat} (h : j ≤ text.length) :
    (slice text i j).length = j - i := by
  rw [slice, List.length_drop, List.length_take, Nat.min_eq_left h]

/-- A text that stands at a position is the part there. -/
theorem slice_of_isPrefix_drop {text sub : List α} {i : Nat} (h : sub <+: text.drop i) :
    slice text i (i + sub.length) = sub := by
  rw [slice, List.drop_take, Nat.add_sub_cancel_left]
  exact (List.prefix_iff_eq_take.mp h).symm

theorem slice_append_right {front back : List α} {i j : Nat} (h : front.length ≤ i) :
    slice (front ++ back) i j = slice back (i - front.length) (j - front.length) := by
  unfold slice
  rcases Nat.le_total front.length j with hj | hj
  · rw [List.take_append, List.take_of_length_le hj, List.drop_append, List.drop_eq_nil_of_le h,
      List.nil_append]
  · have hleft : ((front ++ back).take j).length ≤ i := by
      rw [List.length_take]
      omega
    have hright : (back.take (j - front.length)).length ≤ i - front.length := by
      rw [List.length_take]
      omega
    rw [List.drop_eq_nil_of_le hleft, List.drop_eq_nil_of_le hright]

/-- A part of a text cut in two. -/
theorem slice_append_slice (text : List α) {i j k : Nat} (hij : i ≤ j) (hjk : j ≤ k) :
    slice text i j ++ slice text j k = slice text i k := by
  have htake : text.take j = (text.take k).take j := by rw [List.take_take, Nat.min_eq_left hjk]
  unfold slice
  rw [htake]
  rcases Nat.le_total j (text.take k).length with hj | hj
  · conv_rhs => rw [← List.take_append_drop j (text.take k)]
    rw [List.drop_append_of_le_length (by rw [List.length_take]; omega)]
  · rw [List.take_of_length_le hj, List.drop_eq_nil_of_le hj, List.append_nil]

theorem slice_append_left (front back : List α) (j : Nat) :
    slice (front ++ back) 0 (front.length + j) = front ++ slice back 0 j := by
  rw [slice, slice, List.drop_zero, List.drop_zero, List.take_length_add_append]

/-- No part of a view weighs more than its source in the original. -/
def View.Bounded (weight : α → Nat) (original : List α) (v : View α) : Prop :=
  ∀ i j, i ≤ j → j < v.text.length →
    total weight (slice v.text i (j + 1)) ≤
      total weight (slice original (v.starts.getD i 0) (v.ends.getD j 0))

/-- The view of a text as itself is bounded by it. -/
theorem View.Bounded.identity (text : List α) : (View.identity text).Bounded weight text := by
  intro i j hij hj
  have hj' : j < (List.range text.length).length := by rwa [List.length_range]
  have hstart : (View.identity text).starts.getD i 0 = i := by
    show (List.range text.length).getD i 0 = i
    rw [List.getD_eq_getElem _ _ (Nat.lt_of_le_of_lt hij hj'), List.getElem_range]
  have hend : (View.identity text).ends.getD j 0 = j + 1 := by
    show ((List.range text.length).map (· + 1)).getD j 0 = j + 1
    rw [getD_map_of_lt hj' 0, List.getD_eq_getElem _ _ hj', List.getElem_range]
  rw [hstart, hend]
  exact Nat.le_refl _

/-- Where no piece decodes to something heavier, decoded text weighs no more than its pieces. The
induction is on the pieces; `front` is what stands before them. -/
theorem total_slice_decoded_le {P : List α → List α → Prop}
    (hlight : ∀ source decoded, P source decoded → total weight decoded ≤ total weight source)
    {text : List α} {pieces : List (Piece α)} (h : Tiles P text pieces) (front : List α) {i j : Nat}
    (hij : i ≤ j) (hj : j < (pieces.flatMap (·.decoded)).length) :
    total weight (slice (pieces.flatMap (·.decoded)) i (j + 1)) ≤
      total weight (slice (front ++ text) ((origins front.length pieces).getD i (0, 0)).1
        (((origins front.length pieces).getD j (0, 0)).2 + 1)) := by
  induction h generalizing front i j with
  | nil => cases hj
  | cons source decoded rest pieces hne hP hrest ih =>
      have hpos := List.length_pos_iff.mpr hne
      have hpiece := hlight _ _ hP
      rw [List.flatMap_cons, List.length_append] at hj
      rw [List.flatMap_cons, origins]
      dsimp only at hj ⊢
      have hfront : (front ++ source).length = front.length + source.length := List.length_append
      have hsource : slice (front ++ (source ++ rest)) front.length
          (front.length + source.length) = source := by
        rw [slice_append_right (Nat.le_refl _), Nat.sub_self, Nat.add_sub_cancel_left]
        have hcut := slice_append_left source rest 0
        rw [Nat.add_zero] at hcut
        rw [hcut, slice, List.take_zero, List.drop_nil, List.append_nil]
      have hhere : ∀ k < decoded.length, (List.replicate decoded.length
          (front.length, front.length + source.length - 1) ++
            origins (front.length + source.length) pieces).getD k (0, 0) =
          (front.length, front.length + source.length - 1) := by
        intro k hk
        rw [List.getD_append _ _ _ _ (by rwa [List.length_replicate]), List.getD_replicate _ hk]
      have hbehind : ∀ k, decoded.length ≤ k → (List.replicate decoded.length
          (front.length, front.length + source.length - 1) ++
            origins (front.length + source.length) pieces).getD k (0, 0) =
          (origins (front ++ source).length pieces).getD (k - decoded.length) (0, 0) := by
        intro k hk
        rw [List.getD_append_right _ _ _ _ (by rwa [List.length_replicate]), List.length_replicate,
          hfront]
      rcases Nat.lt_or_ge j decoded.length with hjn | hjn
      · -- the part lies in what the first piece decodes to
        rw [hhere i (by omega), hhere j hjn]
        dsimp only
        rw [Nat.sub_add_cancel (by omega), hsource]
        refine Nat.le_trans ?_ hpiece
        rw [slice, List.take_append_of_le_length hjn]
        exact total_sublist ((List.drop_sublist _ _).trans (List.take_sublist _ _))
      · have hlast := hbehind j hjn
        have hin : j - decoded.length < (origins (front ++ source).length pieces).length := by
          rw [length_origins]
          omega
        rcases Nat.lt_or_ge i decoded.length with hin' | hin'
        · -- it starts there and ends behind
          have hmem := mem_origins hrest (List.getElem_mem hin)
          have hfirst := ih (front ++ source) (Nat.zero_le (j - decoded.length)) (by omega)
          have hmem0 := mem_origins hrest
            (List.getElem_mem (Nat.lt_of_le_of_lt (Nat.zero_le _) hin))
          rw [hhere i hin', hlast]
          rw [List.getD_eq_getElem _ _ hin] at hfirst ⊢
          rw [List.getD_eq_getElem _ _ (Nat.lt_of_le_of_lt (Nat.zero_le _) hin),
            List.append_assoc] at hfirst
          rw [← slice_append_slice (front ++ (source ++ rest))
            (Nat.le_add_right front.length source.length) (by omega), total_append, hsource,
            ← slice_append_slice _ (Nat.le_of_lt hin') (by omega : decoded.length ≤ j + 1),
            total_append]
          have hhead : total weight (slice (decoded ++ pieces.flatMap (·.decoded)) i
              decoded.length) ≤ total weight decoded := by
            rw [slice, List.take_left]
            exact total_sublist (List.drop_sublist _ _)
          have htail : slice (decoded ++ pieces.flatMap (·.decoded)) decoded.length (j + 1) =
              slice (pieces.flatMap (·.decoded)) 0 (j - decoded.length + 1) := by
            rw [slice_append_right (Nat.le_refl _), Nat.sub_self]
            congr 1
            omega
          rw [htail]
          apply Nat.add_le_add (Nat.le_trans hhead hpiece)
          apply Nat.le_trans hfirst
          apply total_slice_mono
          · rw [← hfront]
            exact hmem0.1
          · exact Nat.le_refl _
        · -- it lies behind the first piece
          have hrec := ih (front ++ source) (Nat.sub_le_sub_right hij decoded.length) (by omega)
          rw [hbehind i hin', hlast, slice_append_right (by omega)]
          rw [List.append_assoc] at hrec
          have hsub : j + 1 - decoded.length = j - decoded.length + 1 := by omega
          rw [hsub]
          exact hrec

/-- **A decoder that makes no piece heavier** keeps the bound. -/
theorem View.Bounded.decode {P : List α → List α → Prop}
    (hlight : ∀ source decoded, P source decoded → total weight decoded ≤ total weight source)
    {original : List α} {v : View α} {pieces : List (Piece α)} (hv : v.Bounded weight original)
    (h : Tiles P v.text pieces) : (v.decode pieces).Bounded weight original := by
  intro i j hij hj
  have hj' : j < (origins 0 pieces).length := by rwa [length_origins]
  have hi' := Nat.lt_of_le_of_lt hij hj'
  have hstart : (v.decode pieces).starts.getD i 0 =
      v.starts.getD ((origins 0 pieces).getD i (0, 0)).1 0 := by
    rw [View.decode, getD_map_of_lt hi' (0, 0)]
  have hend : (v.decode pieces).ends.getD j 0 =
      v.ends.getD ((origins 0 pieces).getD j (0, 0)).2 0 := by
    rw [View.decode, getD_map_of_lt hj' (0, 0)]
  have hmem := mem_origins h (List.getElem_mem hi')
  have hmem' := mem_origins h (List.getElem_mem hj')
  have hfirst : ((origins 0 pieces).getD i (0, 0)).1 ≤ ((origins 0 pieces).getD j (0, 0)).2 := by
    rw [List.getD_eq_getElem _ _ hi', List.getD_eq_getElem _ _ hj']
    rcases Nat.lt_or_eq_of_le hij with hlt | rfl
    · have hpair := List.pairwise_iff_getElem.mp (@pairwise_origins _ P _ _ 0 h) i j hi' hj' hlt
      omega
    · exact hmem'.2.1
  rw [hstart, hend]
  refine Nat.le_trans (total_slice_decoded_le hlight h [] hij hj) (hv _ _ hfirst ?_)
  rw [List.length_nil, List.getD_eq_getElem _ _ hj']
  omega

end Weight

end Mapped
