import Milhouse.Spool.Store

/-!
# Milhouse — what one store operation can change

`Change s o s'` lists, once, every state `s'` that operation `o` may leave from `s`, whatever the
environment chooses; **`perform_change`** is the inversion of `SpoolState.perform` into it. The
responses that programs act on are inverted one operation at a time, next to it. Nothing after this
module unfolds `perform`.
-/

namespace Milhouse

open Disk

/-- An operation that only reads. -/
def SpoolOp.observes : SpoolOp → Prop
  | .readLedger | .readRetirements | .listPending | .readFile _ | .readTrusted .. | .token
  | .binding .. | .readRecord _ => True
  | _ => False

/-- An event that only a note can make. -/
def Event.isNoted : Event → Prop
  | .published .. | .acknowledged .. | .attempted .. => True
  | _ => False

/-- An index of an extended history is one of the old history, or the new last one. -/
theorem index_snoc {history : List Event} {x e : Event} {n : Nat}
    (h : (history ++ [x])[n]? = some e) :
    history[n]? = some e ∨ (n = history.length ∧ e = x) := by
  rw [List.getElem?_append] at h
  split at h
  · exact Or.inl h
  · rw [List.getElem?_singleton] at h
    split at h
    · exact Or.inr ⟨by omega, (Option.some.inj h).symm⟩
    · cases h

namespace SpoolState

variable {s s' : SpoolState}

/-! ## Directories, tables and history after each effect -/

section Effects

variable (s) (tree t : Tree) (day d : Day) (p : Path) (f : File)

theorem dir_setDir (x : DayDir) :
    (s.setDir tree day x).dir t d = if (t, d) = (tree, day) then x else s.dir t d := by
  unfold dir setDir
  by_cases h : (t, d) = (tree, day)
  · obtain ⟨rfl, rfl⟩ := Prod.mk.inj h
    simp
  · simp [h, AList.lookup_insert_ne h]

/-- Writing a file changes the listing of its own day only. -/
theorem dir_put : (s.put p f).dir t d =
    if (t, d) = (p.tree, p.day) then (s.dir t d).update ((s.dir t d).current.insert p.name f)
    else s.dir t d := by
  rw [put, dir_setDir]
  split
  · rename_i h; obtain ⟨rfl, rfl⟩ := Prod.mk.inj h; rfl
  · rfl

theorem dir_remove : (s.remove p).dir t d =
    if (t, d) = (p.tree, p.day) then (s.dir t d).update ((s.dir t d).current.erase p.name)
    else s.dir t d := by
  rw [remove, dir_setDir]
  split
  · rename_i h; obtain ⟨rfl, rfl⟩ := Prod.mk.inj h; rfl
  · rfl

/-- A rename changes the listing of its own day only, and both names in it. -/
theorem dir_move (src dst : String) : (s.move tree day src dst f).dir t d =
    if (t, d) = (tree, day) then
      (s.dir t d).update (((s.dir t d).current.erase src).insert dst f)
    else s.dir t d := by
  rw [move, dir_setDir]
  split
  · rename_i h; obtain ⟨rfl, rfl⟩ := Prod.mk.inj h; rfl
  · rfl

theorem dir_syncDir : (s.syncDir tree day).dir t d =
    if (t, d) = (tree, day) then (s.dir t d).sync else s.dir t d := by
  rw [syncDir, dir_setDir]
  split
  · rename_i h; obtain ⟨rfl, rfl⟩ := Prod.mk.inj h; rfl
  · rfl

@[simp] theorem dir_ensure : (s.ensure tree day).dir t d = s.dir t d := by
  unfold ensure
  split
  · rfl
  · rename_i h
    rw [dir_setDir]
    split
    · rename_i h'
      obtain ⟨rfl, rfl⟩ := Prod.mk.inj h'
      simp only [Bool.not_eq_true, Option.isSome_eq_false_iff, Option.isNone_iff_eq_none] at h
      simp [dir, h]
    · rfl

variable {p} in
/-- Writing a file leaves every other file. -/
theorem file_put_ne {q : Path} (h : q ≠ p) : (s.put p f).file q = s.file q := by
  unfold file
  rw [dir_put]
  split
  · rename_i hd
    obtain ⟨htree, hday⟩ := Prod.mk.inj hd
    refine AList.lookup_insert_ne fun hname => h ?_
    cases p; cases q
    simp_all
  · rfl

/-- A rename touches its two names. -/
theorem file_move_ne {q : Path} {src dst : String} (hsrc : q ≠ ⟨tree, day, src⟩)
    (hdst : q ≠ ⟨tree, day, dst⟩) : (s.move tree day src dst f).file q = s.file q := by
  unfold file
  rw [dir_move]
  split
  · rename_i hd
    obtain ⟨htree, hday⟩ := Prod.mk.inj hd
    have hne : ∀ name, q ≠ ⟨tree, day, name⟩ → q.name ≠ name := by
      rintro name hq rfl
      refine hq ?_
      cases q
      simp only at htree hday
      rw [htree, hday]
    rw [Dir.update_current, AList.lookup_insert_ne (hne dst hdst), AList.lookup_erase_ne (hne src hsrc)]
  · rfl

theorem file_move_dst (src dst : String) :
    (s.move tree day src dst f).file ⟨tree, day, dst⟩ = some f := by
  rw [file, dir_move, if_pos rfl]
  exact AList.lookup_insert _

theorem file_move_src {src dst : String} (h : src ≠ dst) :
    (s.move tree day src dst f).file ⟨tree, day, src⟩ = none := by
  rw [file, dir_move, if_pos rfl, Dir.update_current, AList.lookup_insert_ne h, AList.lookup_erase]

@[simp] theorem file_remove_self : (s.remove p).file p = none := by
  rw [file, dir_remove, if_pos rfl]
  exact AList.lookup_erase _ _

variable {p} in
/-- Removing a file leaves every other file. -/
theorem file_remove_ne {q : Path} (h : q ≠ p) : (s.remove p).file q = s.file q := by
  unfold file
  rw [dir_remove]
  split
  · rename_i hd
    obtain ⟨htree, hday⟩ := Prod.mk.inj hd
    refine AList.lookup_erase_ne fun hname => h ?_
    cases p; cases q
    simp_all
  · rfl

@[simp] theorem file_put_self : (s.put p f).file p = some f := by
  rw [file, dir_put, if_pos rfl]
  exact AList.lookup_insert _

@[simp] theorem file_syncDir : (s.syncDir tree day).file p = s.file p := by
  rw [file, dir_syncDir]
  split <;> rfl

@[simp] theorem file_ensure : (s.ensure tree day).file p = s.file p := by
  rw [file, dir_ensure, file]

/-- After a crash each directory is one of its listings. -/
theorem dir_crash (kept : Tree × Day → Nat) :
    (s.crash kept).dir t d = (s.dir t d).settle (kept (t, d)) := by
  simp only [dir, crash, Table.lookup_mapValues]
  cases s.dirs.lookup (t, d) with
  | some x => rfl
  | none => simp [Dir.settle, Dir.empty, Dir.listings, List.getD]

@[simp] theorem dir_create (content : Bytes) :
    (s.create p content).dir t d = (s.put p ⟨content, s.nextInode, .private⟩).dir t d := rfl

@[simp] theorem dir_remember (e : Event) : (s.remember e).dir t d = s.dir t d := rfl
@[simp] theorem dir_setLedger (l : Ledger) : (s.setLedger l).dir t d = s.dir t d := rfl
@[simp] theorem dir_dropTombstone (b : String) : (s.dropTombstone b).dir t d = s.dir t d := rfl

@[simp] theorem ledger_put : (s.put p f).ledger = s.ledger := rfl
@[simp] theorem ledger_remove : (s.remove p).ledger = s.ledger := rfl
@[simp] theorem ledger_create (content : Bytes) : (s.create p content).ledger = s.ledger := rfl
@[simp] theorem ledger_move (src dst : String) : (s.move tree day src dst f).ledger = s.ledger := rfl
@[simp] theorem ledger_syncDir : (s.syncDir tree day).ledger = s.ledger := rfl
@[simp] theorem ledger_ensure : (s.ensure tree day).ledger = s.ledger := by
  unfold ensure; split <;> rfl
@[simp] theorem ledger_remember (e : Event) : (s.remember e).ledger = s.ledger := rfl
@[simp] theorem ledger_setLedger (l : Ledger) : (s.setLedger l).ledger = l := rfl

@[simp] theorem history_put : (s.put p f).history = s.history := rfl
@[simp] theorem history_remove : (s.remove p).history = s.history := rfl
@[simp] theorem history_move (src dst : String) :
    (s.move tree day src dst f).history = s.history := rfl
@[simp] theorem history_create (content : Bytes) : (s.create p content).history = s.history := rfl
@[simp] theorem history_syncDir : (s.syncDir tree day).history = s.history := rfl
@[simp] theorem history_ensure : (s.ensure tree day).history = s.history := by
  unfold ensure; split <;> rfl
@[simp] theorem history_setLedger (l : Ledger) : (s.setLedger l).history = s.history := rfl
@[simp] theorem history_remember (e : Event) : (s.remember e).history = s.history ++ [e] := rfl

end Effects

-- the equations of `perform`, one for each operation and choice
attribute [local simp] perform

/-- The effects an operation may have. -/
inductive Change (s : SpoolState) : SpoolOp → SpoolState → Prop
  | same (o : SpoolOp) : Change s o s
  | unreadable (p : Path) (inventoried : Bool) :
      Change s (.readTrusted p inventoried) (s.remember (.unreadable p inventoried))
  | create (p : Path) (content written : Bytes) (habsent : s.file p = none)
      (hwritten : written <+: content) : Change s (.createExcl p content) (s.create p written)
  | truncate (p : Path) (f : File) (hfile : s.file p = some f) :
      Change s (.truncate p) (s.put p { f with content := [] })
  | rename (tree : Tree) (day : Day) (src dst : String) (replace : Bool) (f : File)
      (hfile : s.file ⟨tree, day, src⟩ = some f)
      (hdst : replace = false → s.file ⟨tree, day, dst⟩ = none) :
      Change s (.rename tree day src dst replace) (s.move tree day src dst f)
  | link (tree : Tree) (day : Day) (src dst : String) (f : File)
      (hfile : s.file ⟨tree, day, src⟩ = some f) (habsent : s.file ⟨tree, day, dst⟩ = none) :
      Change s (.link tree day src dst) (s.put ⟨tree, day, dst⟩ f)
  | unlink (p : Path) (f : File) (hfile : s.file p = some f) : Change s (.unlink p) (s.remove p)
  | sync (tree : Tree) (day : Day) : Change s (.syncDir tree day) (s.syncDir tree day)
  | ensure (tree : Tree) (day : Day) (sync : Bool) :
      Change s (.ensureDir tree day sync) (s.ensure tree day)
  | ensureSync (tree : Tree) (day : Day) :
      Change s (.ensureDir tree day true) ((s.ensure tree day).syncDir tree day)
  | insert (r : SegmentRecord) (t : Ledger) (hinsert : s.ledger.insertSegment r = some t) :
      Change s (.insertSegment r) (s.setLedger t)
  | prune (r : SegmentRecord) (now : Stamp) (t : Ledger)
      (hprune : s.ledger.pruneSegment r now = some t) :
      Change s (.pruneSegment r now) ((s.setLedger t).remember (.pruned r now))
  | tombstone (b : String) : Change s (.deleteTombstone b) (s.dropTombstone b)
  | handed (r : SegmentRecord) (e : String) (frames : List HandedFrame) (now : Stamp) (ok : Bool) :
      Change s (.export r e frames now) (s.remember (.handed r e frames now ok))
  | status (b e : String) (status : DeliveryStatus) :
      Change s (.advanceStatus b e status) (s.setLedger (s.ledger.advanceStatus b e status).2)
  | note (e : Event) : Change s (.note e) (s.remember e)

/-- **The inversion of one operation.** -/
theorem perform_change {o : SpoolOp} {c : Choice} {r : o.Resp}
    (h : s.perform o c = some (r, s')) : Change s o s' := by
  -- Most choices only answer: an observation, a refused name and a call that fails leave the
  -- store.
  have hsame : ∀ {x : o.Resp}, some (x, s) = some (r, s') → Change s o s' :=
    fun h => (Prod.mk.inj (Option.some.inj h)).2 ▸ .same o
  cases o with
  | readLedger | readRetirements | listPending | readFile p | binding tree day | readRecord b
  | share =>
      cases c <;> simp only [perform, reduceCtorEq] at h <;> exact hsame h
  | token =>
      cases c <;> simp only [perform, reduceCtorEq] at h <;> exact hsame h
  | readTrusted p inventoried =>
      cases c <;> simp only [perform, reduceCtorEq] at h
      · exact hsame h
      · exact (Prod.mk.inj (Option.some.inj h)).2 ▸ .unreadable p inventoried
      · exact (Prod.mk.inj (Option.some.inj h)).2 ▸ .unreadable p inventoried
  -- The last choice is a write that was cut off: a prefix of the content is under the name.
  | createExcl p content =>
      cases c <;> simp only [perform, reduceCtorEq] at h
      · split at h
        · exact hsame h
        · split at h
          · exact hsame h
          · rename_i _ habsent
            rw [← (Prod.mk.inj (Option.some.inj h)).2]
            exact .create p content content (by simpa using habsent) (List.prefix_refl _)
      · exact hsame h
      · split at h
        · cases h
        · rename_i n habsent
          rw [← (Prod.mk.inj (Option.some.inj h)).2]
          have habsent : s.file p = none := by
            simpa using (not_or.mp habsent).2
          exact .create p content _ habsent (List.take_prefix n content)
  | truncate p =>
      cases c <;> simp only [perform, reduceCtorEq] at h
      · split at h
        · rename_i f hfile
          rw [← (Prod.mk.inj (Option.some.inj h)).2]
          exact .truncate p f hfile
        · exact hsame h
      · exact hsame h
  | rename tree day src dst replace =>
      -- `ok` and the failure after the fact move the file alike, so both go through this.
      have hdst : ∀ {f : File}, s.file ⟨tree, day, src⟩ = some f →
          ¬ (!replace ∧ (s.file ⟨tree, day, dst⟩).isSome) →
          Change s (.rename tree day src dst replace) (s.move tree day src dst f) := by
        intro f hfile hfree
        exact .rename tree day src dst replace f hfile fun hr => by simpa [hr] using hfree
      cases c <;> simp only [perform, reduceCtorEq] at h
      · split at h
        · exact hsame h
        · rename_i f hfile
          split at h
          · exact hsame h
          · rename_i hfree
            exact (Prod.mk.inj (Option.some.inj h)).2 ▸ hdst hfile hfree
      · exact hsame h
      · split at h
        · cases h
        · rename_i f hfile
          split at h
          · cases h
          · rename_i hfree
            exact (Prod.mk.inj (Option.some.inj h)).2 ▸ hdst hfile hfree
      · exact hsame h
  -- As for a rename, the call may fail after the link was made.
  | link tree day src dst =>
      cases c <;> simp only [perform, reduceCtorEq] at h
      · split at h
        · exact hsame h
        · rename_i f hfile
          split at h
          · exact hsame h
          · rename_i hfree
            exact (Prod.mk.inj (Option.some.inj h)).2 ▸
              .link tree day src dst f hfile (by simpa using hfree)
      · exact hsame h
      · split at h
        · cases h
        · rename_i f hfile
          split at h
          · cases h
          · rename_i hfree
            exact (Prod.mk.inj (Option.some.inj h)).2 ▸
              .link tree day src dst f hfile (by simpa using hfree)
  | unlink p =>
      cases c <;> simp only [perform, reduceCtorEq] at h
      · split at h
        · rename_i hfile
          obtain ⟨f, hfile⟩ := Option.isSome_iff_exists.mp hfile
          exact (Prod.mk.inj (Option.some.inj h)).2 ▸ .unlink p f hfile
        · exact hsame h
      · exact hsame h
      · split at h
        · rename_i hfile
          obtain ⟨f, hfile⟩ := Option.isSome_iff_exists.mp hfile
          exact (Prod.mk.inj (Option.some.inj h)).2 ▸ .unlink p f hfile
        · cases h
  | syncDir tree day =>
      cases c <;> simp only [perform, reduceCtorEq] at h
      · split at h
        · exact (Prod.mk.inj (Option.some.inj h)).2 ▸ .sync tree day
        · exact hsame h
      · exact hsame h
  | ensureDir tree day sync =>
      cases c <;> simp only [perform, reduceCtorEq] at h
      · cases sync
        · exact (Prod.mk.inj (Option.some.inj h)).2 ▸ .ensure tree day false
        · exact (Prod.mk.inj (Option.some.inj h)).2 ▸ .ensureSync tree day
      · exact hsame h
      · exact (Prod.mk.inj (Option.some.inj h)).2 ▸ .ensure tree day sync
  -- A transaction either commits or leaves the tables, so the failing choice is `same`.
  | insertSegment record =>
      cases c <;> simp only [perform, reduceCtorEq] at h
      · split at h
        · rename_i t hinsert
          exact (Prod.mk.inj (Option.some.inj h)).2 ▸ .insert record t hinsert
        · exact hsame h
      · exact hsame h
  | pruneSegment record now =>
      cases c <;> simp only [perform, reduceCtorEq] at h
      · split at h
        · rename_i t hprune
          exact (Prod.mk.inj (Option.some.inj h)).2 ▸ .prune record now t hprune
        · exact hsame h
      · exact hsame h
  | deleteTombstone b =>
      cases c <;> simp only [perform, reduceCtorEq] at h
      · exact (Prod.mk.inj (Option.some.inj h)).2 ▸ .tombstone b
      · exact hsame h
  | «export» record e frames now =>
      cases c <;> simp only [perform, reduceCtorEq] at h
      · exact (Prod.mk.inj (Option.some.inj h)).2 ▸ .handed record e frames now true
      · exact (Prod.mk.inj (Option.some.inj h)).2 ▸ .handed record e frames now false
  | advanceStatus b e status =>
      cases c <;> simp only [perform, reduceCtorEq] at h
      · exact (Prod.mk.inj (Option.some.inj h)).2 ▸ .status b e status
      · exact hsame h
  | note e =>
      cases c <;> simp only [perform, reduceCtorEq] at h
      exact (Prod.mk.inj (Option.some.inj h)).2 ▸ .note e

/-- The history only grows. -/
theorem Change.history {o : SpoolOp} (h : Change s o s') : s.history <+: s'.history := by
  cases h with
  | unreadable | prune | handed | note => exact List.prefix_append _ _
  | ensure => simp
  | ensureSync => simp
  | _ => exact List.prefix_refl _

/-- An operation remembers at most one event. -/
theorem Change.remembers {o : SpoolOp} (h : Change s o s') :
    s'.history = s.history ∨ ∃ e, s'.history = s.history ++ [e] ∧ (e.isNoted → o = .note e) := by
  cases h with
  | unreadable p inventoried => exact Or.inr ⟨.unreadable p inventoried, rfl, nofun⟩
  | prune r now t h => exact Or.inr ⟨.pruned r now, rfl, nofun⟩
  | handed r x frames now ok => exact Or.inr ⟨.handed r x frames now ok, rfl, nofun⟩
  | note e => exact Or.inr ⟨e, rfl, fun _ => rfl⟩
  | ensure => exact Or.inl (by simp)
  | ensureSync => exact Or.inl (by simp)
  | _ => exact Or.inl rfl

/-- The foreign key of the delivery rows is kept by every operation. -/
theorem Change.sound {o : SpoolOp} (h : Change s o s') (hsound : s.ledger.Sound) :
    s'.ledger.Sound := by
  cases h with
  | insert r t hinsert => exact hsound.insertSegment hinsert
  | prune r now t hprune => exact hsound.pruneSegment hprune
  | status b e status =>
      intro b' e' hreq
      rw [ledger_setLedger, Ledger.advanceStatus_tables.1]
      exact hsound b' e' (Ledger.advanceStatus_required.mp hreq)
  | ensure => simpa using hsound
  | ensureSync => simpa using hsound
  | _ => exact hsound

/-- An operation that only observes leaves the directories and the ledger alone. -/
theorem perform_observes {o : SpoolOp} {c : Choice} {r : o.Resp} (ho : o.observes)
    (h : s.perform o c = some (r, s')) : s'.dirs = s.dirs ∧ s'.ledger = s.ledger := by
  have hchange := perform_change h
  cases hchange with
  | same | unreadable => exact ⟨rfl, rfl⟩
  | _ => exact ho.elim

/-- What a path is depends on the directories only. -/
theorem stat_congr (h : s'.dirs = s.dirs) (p : Path) : s'.stat p = s.stat p := by
  unfold stat file dir
  rw [h]

/-! ## Responses -/

section Responses

variable {c : Choice} {p : Path}

/-- What a leaf opens as is its content. -/
theorem opened_ok {f : File} (h : s.opened p = .ok f) :
    ∃ g, s.file p = some g ∧ g.content = f.content ∧ g.inode = f.inode := by
  unfold opened stat at h
  cases hfile : s.file p with
  | none => rw [hfile] at h; cases h
  | some g =>
      rw [hfile, Option.map_some] at h
      obtain rfl := Except.ok.inj h
      refine ⟨g, rfl, ?_⟩
      split <;> exact ⟨rfl, rfl⟩

/-- Reading a leaf shows it or fails, and changes nothing. -/
theorem perform_readFile {r : Except ReadFault File}
    (h : s.perform (.readFile p) c = some (r, s')) :
    s' = s ∧ (r = s.opened p ∨ r = .error .unreadable) := by
  cases c <;> simp only [perform, reduceCtorEq] at h <;>
    obtain ⟨rfl, rfl⟩ := Prod.mk.inj (Option.some.inj h) <;> simp

/-- A trusted read shows the leaf, or fails and is recorded. -/
theorem perform_readTrusted {inventoried : Bool} {r : Except ReadFault File}
    (h : s.perform (.readTrusted p inventoried) c = some (r, s')) :
    (s' = s ∧ r = s.opened p) ∨
      (s' = s.remember (.unreadable p inventoried) ∧ ∃ e, r = .error e) := by
  cases c <;> simp only [perform, reduceCtorEq] at h <;>
    obtain ⟨rfl, rfl⟩ := Prod.mk.inj (Option.some.inj h)
  · exact Or.inl ⟨rfl, rfl⟩
  · exact Or.inr ⟨rfl, _, rfl⟩
  · exact Or.inr ⟨rfl, _, rfl⟩

/-- The ledger read gives the records. -/
theorem perform_readLedger {r : Option (List SegmentRecord)}
    (h : s.perform .readLedger c = some (r, s')) :
    s' = s ∧ (r = some s.ledger.records ∨ r = none) := by
  cases c <;> simp only [perform, reduceCtorEq] at h <;>
    obtain ⟨rfl, rfl⟩ := Prod.mk.inj (Option.some.inj h) <;> simp

theorem perform_readRetirements {r : Option (List (String × Retirement))}
    (h : s.perform .readRetirements c = some (r, s')) :
    s' = s ∧ (r = some (s.ledger.retirements.entries.map fun e => (e.1, e.2)) ∨ r = none) := by
  cases c <;> simp only [perform, reduceCtorEq] at h <;>
    obtain ⟨rfl, rfl⟩ := Prod.mk.inj (Option.some.inj h) <;> simp

theorem perform_listPending {r : Option (List (Day × String))}
    (h : s.perform .listPending c = some (r, s')) :
    s' = s ∧ (r = some s.leaves ∨ r = none) := by
  cases c <;> simp only [perform, reduceCtorEq] at h <;>
    obtain ⟨rfl, rfl⟩ := Prod.mk.inj (Option.some.inj h) <;> simp

/-- A sync that reports success synced the directory. -/
theorem perform_syncDir {tree : Tree} {day : Day}
    (h : s.perform (.syncDir tree day) c = some (true, s')) : s' = s.syncDir tree day := by
  cases c <;> simp only [perform, reduceCtorEq] at h
  · split at h
    · exact (Prod.mk.inj (Option.some.inj h)).2.symm
    · exact Bool.noConfusion (Prod.mk.inj (Option.some.inj h)).1
  · exact Bool.noConfusion (Prod.mk.inj (Option.some.inj h)).1

/-- A rename that reports success moved the file. -/
theorem perform_rename {tree : Tree} {day : Day} {src dst : String} {replace : Bool}
    (h : s.perform (.rename tree day src dst replace) c = some (.done, s')) :
    ∃ f, s.file ⟨tree, day, src⟩ = some f ∧ s' = s.move tree day src dst f := by
  cases c <;> simp only [perform, reduceCtorEq] at h
  · split at h
    · exact RenameOutcome.noConfusion (Prod.mk.inj (Option.some.inj h)).1
    · rename_i f hfile
      split at h
      · exact RenameOutcome.noConfusion (Prod.mk.inj (Option.some.inj h)).1
      · exact ⟨f, hfile, (Prod.mk.inj (Option.some.inj h)).2.symm⟩
  · exact RenameOutcome.noConfusion (Prod.mk.inj (Option.some.inj h)).1
  · split at h
    · cases h
    · split at h
      · cases h
      · exact RenameOutcome.noConfusion (Prod.mk.inj (Option.some.inj h)).1
  · exact RenameOutcome.noConfusion (Prod.mk.inj (Option.some.inj h)).1

/-- A link that reports success put the file at a name that was free. -/
theorem perform_link {tree : Tree} {day : Day} {src dst : String}
    (h : s.perform (.link tree day src dst) c = some (.done, s')) :
    ∃ f, s.file ⟨tree, day, dst⟩ = none ∧ s' = s.put ⟨tree, day, dst⟩ f := by
  cases c <;> simp only [perform, reduceCtorEq] at h
  · split at h
    · exact RenameOutcome.noConfusion (Prod.mk.inj (Option.some.inj h)).1
    · rename_i f hfile
      split at h
      · exact RenameOutcome.noConfusion (Prod.mk.inj (Option.some.inj h)).1
      · rename_i hfree
        exact ⟨f, by simpa using hfree, (Prod.mk.inj (Option.some.inj h)).2.symm⟩
  · exact RenameOutcome.noConfusion (Prod.mk.inj (Option.some.inj h)).1
  · split at h
    · cases h
    · split at h
      · cases h
      · exact RenameOutcome.noConfusion (Prod.mk.inj (Option.some.inj h)).1

/-- A creation that reports success wrote everything. -/
theorem perform_createExcl {content : Bytes}
    (h : s.perform (.createExcl p content) c = some (.created, s')) : s' = s.create p content := by
  cases c <;> simp only [perform, reduceCtorEq] at h
  · split at h
    · exact CreateOutcome.noConfusion (Prod.mk.inj (Option.some.inj h)).1
    · split at h
      · exact CreateOutcome.noConfusion (Prod.mk.inj (Option.some.inj h)).1
      · exact (Prod.mk.inj (Option.some.inj h)).2.symm
  · exact CreateOutcome.noConfusion (Prod.mk.inj (Option.some.inj h)).1
  · split at h
    · cases h
    · exact CreateOutcome.noConfusion (Prod.mk.inj (Option.some.inj h)).1

/-- A creation that reports success found the name free. -/
theorem perform_createExcl_absent {content : Bytes}
    (h : s.perform (.createExcl p content) c = some (.created, s')) : s.file p = none := by
  cases c <;> simp only [perform, reduceCtorEq] at h
  · split at h
    · exact CreateOutcome.noConfusion (Prod.mk.inj (Option.some.inj h)).1
    · split at h
      · exact CreateOutcome.noConfusion (Prod.mk.inj (Option.some.inj h)).1
      · rename_i habsent
        simpa using habsent
  · exact CreateOutcome.noConfusion (Prod.mk.inj (Option.some.inj h)).1
  · split at h
    · cases h
    · exact CreateOutcome.noConfusion (Prod.mk.inj (Option.some.inj h)).1

/-- A note is remembered. -/
theorem perform_note {e : Event} {r : Unit} (h : s.perform (.note e) c = some (r, s')) :
    s' = s.remember e := by
  cases c <;> simp only [perform, reduceCtorEq] at h
  exact (Prod.mk.inj (Option.some.inj h)).2.symm

/-- An insert that reports success inserted the record. -/
theorem perform_insertSegment {record : SegmentRecord}
    (h : s.perform (.insertSegment record) c = some (true, s')) :
    ∃ t, s.ledger.insertSegment record = some t ∧ s' = s.setLedger t := by
  cases c <;> simp only [perform, reduceCtorEq] at h
  · split at h
    · rename_i t hinsert
      exact ⟨t, hinsert, (Prod.mk.inj (Option.some.inj h)).2.symm⟩
    · exact Bool.noConfusion (Prod.mk.inj (Option.some.inj h)).1
  · exact Bool.noConfusion (Prod.mk.inj (Option.some.inj h)).1

/-- A prune that reports a failure did nothing. -/
theorem perform_pruneSegment_failed {record : SegmentRecord} {now : Stamp}
    (h : s.perform (.pruneSegment record now) c = some (false, s')) : s' = s := by
  cases c <;> simp only [perform, reduceCtorEq] at h
  · split at h
    · exact Bool.noConfusion (Prod.mk.inj (Option.some.inj h)).1
    · exact (Prod.mk.inj (Option.some.inj h)).2.symm
  · exact (Prod.mk.inj (Option.some.inj h)).2.symm

/-- A prune that reports success ran its transaction. -/
theorem perform_pruneSegment {record : SegmentRecord} {now : Stamp}
    (h : s.perform (.pruneSegment record now) c = some (true, s')) :
    ∃ t, s.ledger.pruneSegment record now = some t ∧ s' = (s.setLedger t).remember (.pruned record now) := by
  cases c <;> simp only [perform, reduceCtorEq] at h
  · split at h
    · rename_i t hprune
      exact ⟨t, hprune, (Prod.mk.inj (Option.some.inj h)).2.symm⟩
    · exact Bool.noConfusion (Prod.mk.inj (Option.some.inj h)).1
  · exact Bool.noConfusion (Prod.mk.inj (Option.some.inj h)).1

/-- A record is read as the ledger has it, or the read fails; the store stays. -/
theorem perform_readRecord {b : String} {r : Option (Option SegmentRecord)}
    (h : s.perform (.readRecord b) c = some (r, s')) :
    s' = s ∧ (r = some ((s.ledger.segments.lookup b).map (s.ledger.record b)) ∨ r = none) := by
  cases c <;> simp only [perform, reduceCtorEq] at h
  · obtain ⟨rfl, rfl⟩ := Prod.mk.inj (Option.some.inj h)
    exact ⟨rfl, Or.inl rfl⟩
  · obtain ⟨rfl, rfl⟩ := Prod.mk.inj (Option.some.inj h)
    exact ⟨rfl, Or.inr rfl⟩

/-- Handing frames to an exporter only adds to the history. -/
theorem perform_export {record : SegmentRecord} {e : String} {frames : List HandedFrame}
    {now : Stamp} {r : Bool} (h : s.perform (.export record e frames now) c = some (r, s')) :
    s' = s.remember (.handed record e frames now r) := by
  cases c <;> simp only [perform, reduceCtorEq] at h
  · obtain ⟨rfl, rfl⟩ := Prod.mk.inj (Option.some.inj h)
    rfl
  · obtain ⟨rfl, rfl⟩ := Prod.mk.inj (Option.some.inj h)
    rfl

/-- An advance of a status takes effect as the ledger decides, or fails without an effect. -/
theorem perform_advanceStatus {b e : String} {status : DeliveryStatus} {r : Option CasResult}
    (h : s.perform (.advanceStatus b e status) c = some (r, s')) :
    (r = some (s.ledger.advanceStatus b e status).1 ∧
      s' = s.setLedger (s.ledger.advanceStatus b e status).2) ∨ (r = none ∧ s' = s) := by
  cases c <;> simp only [perform, reduceCtorEq] at h
  · obtain ⟨rfl, rfl⟩ := Prod.mk.inj (Option.some.inj h)
    exact Or.inl ⟨rfl, rfl⟩
  · obtain ⟨rfl, rfl⟩ := Prod.mk.inj (Option.some.inj h)
    exact Or.inr ⟨rfl, rfl⟩

end Responses

end SpoolState

end Milhouse
