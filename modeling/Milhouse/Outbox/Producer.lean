import Milhouse.Outbox.Stream

/-!
# Milhouse — what the producer of an outbox does

A compliant producer appends to its active file, rotates it once it is complete, and deletes files
that it rotated.

* `Stream.append`, `Stream.rotate`, `Stream.delete` — its steps;
* **`WellFormed.append`**, **`WellFormed.rotate`**, **`WellFormed.delete`** — they keep the stream
  well formed;
* **`Extends.append`**, **`Extends.rotate`**, **`Extends.delete`** — and what a read has opened, a
  part of it;
* `Behind` — the files that a cursor has left, which may be deleted under it (**`Behind.tracks`**).
-/

namespace Milhouse.Outbox

namespace Stream

def append (s : Stream) (content : Bytes) : Stream :=
  { s with active := { s.active with content := s.active.content ++ content } }

/-- The active file gets the next sequence, and a new one is begun. -/
def rotate (s : Stream) (device inode : Nat) : Stream :=
  { s with rotated := s.rotated ++ [s.active], active := ⟨device, inode, []⟩ }

def delete (s : Stream) (n : Nat) : Stream := { s with deleted := n :: s.deleted }

/-- The files that are there. -/
def present (s : Stream) : List FileRead := s.retained.map Prod.snd ++ [s.active]

/-- A file that was not deleted is there. -/
theorem mem_present {s : Stream} {i : Nat} {f : FileRead} (h : s.files[i]? = some f)
    (hkept : s.base + i ∉ s.deleted) : f ∈ s.present := by
  rw [present, List.mem_append, List.mem_singleton]
  rcases Nat.lt_or_ge i s.rotated.length with hlt | hge
  · left
    rw [files, List.getElem?_append_left hlt] at h
    exact List.mem_map.mpr ⟨(s.base + i, f), mem_retained.mpr ⟨⟨i, h, rfl⟩, hkept⟩, rfl⟩
  · right
    rw [files, List.getElem?_append_right hge, List.getElem?_singleton] at h
    split at h
    · exact (Option.some.inj h).symm
    · cases h

/-- A producer that rotated nothing yet has a well-formed stream. -/
theorem wellFormed_first {s : Stream} (hrotated : s.rotated = []) (hdeleted : s.deleted = []) :
    s.WellFormed where
  whole f hf := by
    rw [hrotated] at hf
    exact absurd hf List.not_mem_nil
  deleted_lt n hn := by
    rw [hdeleted] at hn
    exact absurd hn List.not_mem_nil
  distinct i j f g hi hj _ _ _ := by
    -- there is one file
    have hlt := (List.getElem?_eq_some_iff.mp hi).1
    have hlt' := (List.getElem?_eq_some_iff.mp hj).1
    rw [files, hrotated, List.nil_append, List.length_singleton] at hlt hlt'
    omega

theorem WellFormed.append {s : Stream} (h : s.WellFormed) (content : Bytes) :
    (s.append content).WellFormed where
  whole := h.whole
  deleted_lt := h.deleted_lt
  distinct := by
    -- the identities of the files are the same
    have hfile : ∀ (i : Nat) (f : FileRead), (s.append content).files[i]? = some f →
        ∃ f' : FileRead, s.files[i]? = some f' ∧ f'.identity = f.identity := by
      intro i f hi
      rcases Nat.lt_or_ge i s.rotated.length with hlt | hge
      · rw [files, Stream.append, List.getElem?_append_left hlt] at hi
        exact ⟨f, getElem?_rotated hi, rfl⟩
      · rw [files, Stream.append, List.getElem?_append_right hge, List.getElem?_singleton] at hi
        split at hi
        · rename_i hzero
          have heq : i = s.rotated.length := by omega
          rw [← Option.some.inj hi, heq]
          exact ⟨s.active, s.getElem?_active, rfl⟩
        · cases hi
    intro i j f g hi hj hikept hjkept hsame
    obtain ⟨f', hf', hf⟩ := hfile i f hi
    obtain ⟨g', hg', hg⟩ := hfile j g hj
    exact h.distinct i j f' g' hf' hg' hikept hjkept (by rw [hf, hg, hsame])

theorem WellFormed.rotate {s : Stream} (h : s.WellFormed) {device inode : Nat}
    (hwhole : Whole s.active.content) (hfresh : ∀ f ∈ s.present, f.identity ≠ (device, inode)) :
    (s.rotate device inode).WellFormed where
  whole f hf := by
    rcases List.mem_append.mp hf with hold | hactive
    · exact h.whole f hold
    · rw [List.mem_singleton.mp hactive]
      exact hwhole
  deleted_lt n hn := by
    have hlt := h.deleted_lt n hn
    show n < s.base + (s.rotated ++ [s.active]).length
    rw [List.length_append, List.length_singleton]
    omega
  distinct := by
    have hfiles : (s.rotate device inode).files = s.files ++ [⟨device, inode, []⟩] := rfl
    -- a file of the new stream is one of the old, or the new one
    have hfile : ∀ (i : Nat) (f : FileRead), (s.rotate device inode).files[i]? = some f →
        s.files[i]? = some f ∨ i = s.files.length ∧ f.identity = (device, inode) := by
      intro i f hi
      rw [hfiles] at hi
      rcases Nat.lt_or_ge i s.files.length with hlt | hge
      · rw [List.getElem?_append_left hlt] at hi
        exact .inl hi
      · rw [List.getElem?_append_right hge, List.getElem?_singleton] at hi
        split at hi
        · rename_i hzero
          exact .inr ⟨by omega, by rw [← Option.some.inj hi]; rfl⟩
        · cases hi
    intro i j f g hi hj hikept hjkept hsame
    rcases hfile i f hi with hi | ⟨hi, hf⟩
    · rcases hfile j g hj with hj | ⟨-, hg⟩
      · exact h.distinct i j f g hi hj hikept hjkept hsame
      · exact absurd (hsame.trans hg) (hfresh f (mem_present hi hikept))
    · rcases hfile j g hj with hj | ⟨hj, -⟩
      · exact absurd (hsame.symm.trans hf) (hfresh g (mem_present hj hjkept))
      · rw [hi, hj]

theorem WellFormed.delete {s : Stream} (h : s.WellFormed) {n : Nat}
    (hn : n < s.base + s.rotated.length) : (s.delete n).WellFormed where
  whole := h.whole
  deleted_lt := List.forall_mem_cons.mpr ⟨hn, h.deleted_lt⟩
  distinct i j f g hi hj hikept hjkept hsame :=
    h.distinct i j f g hi hj (fun hmem => hikept (List.mem_cons_of_mem _ hmem))
      (fun hmem => hjkept (List.mem_cons_of_mem _ hmem)) hsame

end Stream

section Grown

variable {old new : Stream}

theorem Extends.append (h : Extends old new) (content : Bytes) :
    Extends old (new.append content) where
  base := h.base
  earlier := by
    have hle := h.length_le
    have hearlier := h.earlier
    rw [Stream.files, List.take_append_of_le_length hle] at hearlier
    rw [Stream.files]
    show (new.rotated ++ _).take _ = _
    rw [List.take_append_of_le_length hle, hearlier]
  opened := by
    obtain ⟨f, hf, hidentity, hbegins⟩ := h.opened
    rcases Nat.eq_or_lt_of_le h.length_le with heq | hlt
    · rw [heq, Stream.getElem?_active, Option.some.injEq] at hf
      refine ⟨(new.append content).active, ?_, ?_, ?_⟩
      · rw [heq]
        exact (new.append content).getElem?_active
      · rw [← hidentity, ← hf]
        rfl
      · rw [← hf] at hbegins
        exact hbegins.trans (List.prefix_append _ _)
    · rw [Stream.files, List.getElem?_append_left hlt] at hf
      exact ⟨f, Stream.getElem?_rotated (s := new.append content) hf, hidentity, hbegins⟩

theorem Grown.append (h : Grown old new) (content : Bytes) : Grown old (new.append content) :=
  ⟨h.toExtends.append content, h.few⟩

theorem Extends.rotate (h : Extends old new) (device inode : Nat) :
    Extends old (new.rotate device inode) where
  base := h.base
  earlier := by
    have hle : old.rotated.length ≤ new.files.length := by
      rw [Stream.files, List.length_append]
      exact h.length_le.trans (Nat.le_add_right _ _)
    show (new.files ++ _).take _ = _
    rw [List.take_append_of_le_length hle, h.earlier]
  opened := by
    obtain ⟨f, hf, hidentity, hbegins⟩ := h.opened
    exact ⟨f, Stream.getElem?_rotated (s := new.rotate device inode) hf, hidentity, hbegins⟩

theorem Grown.rotate (h : Grown old new) (hsame : old.rotated.length = new.rotated.length)
    (device inode : Nat) : Grown old (new.rotate device inode) where
  toExtends := h.toExtends.rotate device inode
  few := by
    show (new.rotated ++ [new.active]).length ≤ _
    rw [List.length_append, List.length_singleton, hsame]

/-- A deletion on both sides. -/
theorem Extends.delete (h : Extends old new) (n : Nat) : Extends (old.delete n) (new.delete n) :=
  ⟨h.base, h.earlier, h.opened⟩

end Grown

section Deletion

variable {P : CanonicalPlatform} {outbox : OutboxRuntime P} {config : OutboxReaderConfig}
  {cursor : Option SourceCursor} {n : Nat}

/-- A file strictly before the one the cursor stands in. -/
def Behind (outbox : OutboxRuntime P) (s : Stream) (cursor : Option SourceCursor) (n : Nat) : Prop :=
  ∃ stored position k file, cursor = some stored ∧
    outboxPositionFromCursor P.runtime P.floats outbox.floatEq stored = .ok position ∧
    s.files[k]? = some file ∧ s.base + k ∉ s.deleted ∧
    file.identity = (position.device, position.inode) ∧ n < s.base + k

/-- A cursor stays where it is when a file before its own is deleted. -/
theorem Tracks.delete {s : Stream} {delivered : List (OutboxFrameV1 P × Nat)}
    (h : Tracks outbox config s cursor delivered) (hsome : cursor ≠ none)
    (hlt : ∀ stored ∈ cursor, ∀ position k file,
      PointsInto outbox s stored position k file → n < s.base + k) :
    Tracks outbox config (s.delete n) cursor delivered := by
  cases cursor with
  | none => exact absurd rfl hsome
  | some stored =>
      obtain ⟨position, k, file, hpoints, hdelivered⟩ := h
      exact ⟨position, k, file, ⟨hpoints.text, hpoints.file_eq, hpoints.stands, hpoints.long,
        hpoints.whole, List.forall_mem_cons.mpr ⟨hlt stored rfl _ _ _ hpoints, hpoints.kept⟩⟩,
        hdelivered⟩

/-- What is behind the cursor is before the file in which a read finds it. -/
theorem Behind.lt {new : Stream} (h : Behind outbox new cursor n) (hwell : new.WellFormed)
    {old : Stream} (hgrown : Extends old new) (hdeleted : new.deleted = old.deleted) :
    ∀ stored ∈ cursor, ∀ position k file,
      PointsInto outbox old stored position k file → n < old.base + k := by
  rintro stored hstored position k file hpoints
  obtain ⟨stored', position', k', file', hcursor, hdecode, hfile', hkept', hidentity, hlt⟩ := h
  obtain rfl := Option.some.inj (hcursor.symm.trans hstored)
  rw [hpoints.decoded] at hdecode
  obtain rfl := Except.ok.inj hdecode
  have hkept : ∀ m ∈ new.deleted, m < new.base + k := by
    rw [hdeleted, hgrown.base]
    exact hpoints.kept
  obtain ⟨found, hfound, -, -⟩ := hpoints.grown hgrown hkept
  -- the file of that identity is the only one that is there
  have hindex : k = k' := by
    refine hwell.distinct k k' found file' hfound.file_eq hfile' (fun hmem => ?_) hkept' ?_
    · exact absurd (hkept _ hmem) (Nat.lt_irrefl _)
    · rw [hfound.stands.identity, hidentity]
  rw [hindex, ← hgrown.base]
  exact hlt

/-- **A file behind the cursor may be deleted under it**, also while a read is under way. -/
theorem Behind.tracks {new : Stream} (h : Behind outbox new cursor n) (hwell : new.WellFormed)
    {old : Stream} (hgrown : Extends old new) (hdeleted : new.deleted = old.deleted)
    {delivered : List (OutboxFrameV1 P × Nat)} (htracks : Tracks outbox config old cursor delivered) :
    Tracks outbox config (old.delete n) cursor delivered := by
  refine htracks.delete ?_ (h.lt hwell hgrown hdeleted)
  obtain ⟨stored, -, -, -, hcursor, -⟩ := h
  rw [hcursor]
  exact Option.some_ne_none stored

end Deletion

end Milhouse.Outbox
