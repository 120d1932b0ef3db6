import Milhouse.Spool.HeldPass
import Milhouse.Spool.KeptPass
import Milhouse.Spool.System

/-!
# Milhouse — no acknowledged record is lost, over every run of the spool

The sections keep their promises at every point (`commitSegment_kept`, `commitSegment_held` and
their likes), whatever calm interference does in between. What is left is the system: a promise is
guarded in a world when it holds of the store and the running section keeps it (`World.Guards`),
and the one step that makes a new promise is the note of an acknowledgement or a publication, after
which the section only records (`Section.after`).

* **`Guards.moved`** — every step of the system keeps a guarded promise guarded;
* **`acknowledged_kept_published_held`** — over every run, acknowledged segments are kept and
  published bytes are held;
* `unread_segment_moved` — where a read of it fails for a moment, a committed segment is moved away.
-/

namespace Milhouse

open Disk Interaction Interaction.Prog Transition

/-! ## The sections keep their promises -/

/-- An event that makes a promise. -/
def Event.announces : Event → Prop
  | .published .. | .acknowledged .. => True
  | _ => False

def SpoolOp.announces : SpoolOp → Prop
  | .note e => e.announces
  | _ => False

/-- What a commit still does after it has announced something. -/
def SpoolOp.records : SpoolOp → Prop
  | .insertSegment _ | .note _ => True
  | _ => False

section Sections

variable {fmt : SegmentFormat} {a : Commitment} {k : Publication} {s : SpoolState}

theorem not_announces_of_touches {K : Path → Prop} {o : SpoolOp} (h : Touches K o) :
    ¬ o.announces := by
  cases o with
  | note e => exact h.elim
  | _ => exact id

/-- Retention prunes, and otherwise only touches the files it prunes. -/
theorem retentionApply_only {O : SpoolOp → Prop} {now : Stamp}
    (htouch : ∀ o, Touches (fun _ => True) o → O o) (hprune : ∀ r, O (.pruneSegment r now)) :
    (retentionApply fmt now).Only O := by
  unfold retentionApply
  refine .call (htouch _ trivial) fun r => ?_
  cases r with
  | none => trivial
  | some records =>
      refine Only.bind (.foldUntil fun record _ results => Only.bind ?_ fun _ => trivial)
        fun _ => trivial
      unfold applyOne
      refine Only.bind (readTrustedSegment_only.mono fun _ ho =>
        htouch _ (touches_of_observes ho)) fun x => ?_
      cases x with
      | error e => trivial
      | ok parsed =>
          dsimp only
          split
          · trivial
          · split
            · trivial
            · unfold pruneSegment
              refine .call (hprune record) fun deleted => ?_
              split
              · trivial
              · refine Only.bind ((removeRegularFile_only trivial).mono htouch) fun outcome => ?_
                rcases outcome with _ | _ | _
                · exact .call (htouch _ trivial) fun _ => trivial
                · trivial
                · trivial

theorem publishAndRecord_only {O : SpoolOp → Prop} {r : SegmentRecord} {content : Bytes}
    (htouch : ∀ o, Touches (fun _ => True) o → O o) (hnote : ∀ e, Event.announces e → O (.note e)) :
    (publishAndRecord r content).Only O := by
  unfold publishAndRecord
  refine .call (htouch _ trivial) fun opened => ?_
  split
  · trivial
  · refine Only.bind ((publishSegmentBytes_only rfl).mono fun o ho =>
      htouch o (touches_of_publishOp ho)) fun outcome => ?_
    rcases outcome with _ | _ | _
    · refine .call (hnote _ trivial) fun _ => .call (htouch _ trivial) fun inserted => ?_
      split
      · exact .call (hnote _ trivial) fun _ => trivial
      · trivial
    · trivial
    · trivial

/-- A commit reconciles, shares the barrier and publishes. -/
theorem commitSegment_only {O : SpoolOp → Prop} {header : SegmentHeaderV1}
    {frames : List fmt.Frame} {stamp : Stamp} (htouch : ∀ o, Touches (fun _ => True) o → O o)
    (hshare : O .share) (hnote : ∀ e, Event.announces e → O (.note e)) :
    (commitSegment fmt header frames stamp).Only O := by
  unfold commitSegment
  split
  · trivial
  · split
    · trivial
    · refine Only.bind (reconcilePass_only.mono htouch) fun report => ?_
      cases report with
      | error e => trivial
      | ok report =>
          dsimp only
          split
          · trivial
          · split
            · trivial
            · refine .call hshare fun shared => ?_
              split
              · trivial
              · exact publishAndRecord_only htouch hnote

/-- The record comes after the announcement that the file was published. -/
theorem publishAndRecord_after {r : SegmentRecord} {content : Bytes} :
    (publishAndRecord r content).After SpoolOp.announces SpoolOp.records := by
  unfold publishAndRecord
  refine .call id fun opened => ?_
  split
  · trivial
  · refine After.bind ((publishSegmentBytes_only rfl).mono fun _ ho =>
      not_announces_of_touches (K := fun _ => True) (touches_of_publishOp ho)) fun outcome => ?_
    rcases outcome with _ | _ | _
    · -- from the first note on there are only the insert and the second note
      have hrest : ∀ inserted : Bool, ((if inserted then do
            call (Γ := spoolSignature) (.note (.acknowledged r content))
            pure (.ok r)
          else pure (.error ledgerNotCommitted)) :
          SpoolProg (Except SpoolError SegmentRecord)).Only SpoolOp.records := by
        intro inserted
        split
        · exact .call trivial fun _ => trivial
        · trivial
      refine ⟨fun _ _ => .call trivial hrest, fun _ => ⟨nofun, fun inserted => ?_⟩⟩
      cases inserted with
      | false => trivial
      | true => exact ⟨fun _ _ => trivial, fun _ => trivial⟩
    · trivial
    · trivial

/-- So it does in a whole commit. -/
theorem commitSegment_after {header : SegmentHeaderV1} {frames : List fmt.Frame} {stamp : Stamp} :
    (commitSegment fmt header frames stamp).After SpoolOp.announces SpoolOp.records := by
  unfold commitSegment
  split
  · trivial
  · split
    · trivial
    · refine After.bind (reconcilePass_only.mono fun _ => not_announces_of_touches) fun report => ?_
      cases report with
      | error e => trivial
      | ok report =>
          dsimp only
          split
          · trivial
          · split
            · trivial
            · refine .call id fun shared => ?_
              split
              · trivial
              · exact publishAndRecord_after

/-- **After a section has announced something it only records.** -/
theorem Section.after (sec : Section fmt) : sec.prog.After SpoolOp.announces SpoolOp.records := by
  cases sec with
  | commit header frames stamp => exact commitSegment_after.map
  | reconcile => exact (reconcilePass_only.mono fun _ => not_announces_of_touches).after.map
  | retain now => exact (retentionApply_only (fun _ => not_announces_of_touches) fun _ => id).after.map

/-- Every section remembers only what is true. -/
theorem Section.truthful (sec : Section fmt) (hsound : s.ledger.Sound) :
    TruthSafe fmt sec.prog (fun _ _ => True) s := by
  cases sec with
  | commit header frames stamp =>
      exact (commitSegment_truthful hsound).seq fun _ _ hs _ => truthSafe_ret hs trivial
  | reconcile =>
      exact (truthSafe_of_touches reconcilePass_only hsound).seq
        fun _ _ hs _ => truthSafe_ret hs trivial
  | retain now =>
      exact (retentionApply_truthful hsound).seq fun _ _ hs _ => truthSafe_ret hs trivial

/-- Every section keeps a live commitment. -/
theorem Section.kept (sec : Section fmt) (hid : matchesBatchId a.record.batchId = true)
    (hacc : Accepts fmt a) (hlive : Live a s) :
    KeptSafe fmt a sec.prog (fun _ _ => True) s := by
  cases sec with
  | commit header frames stamp =>
      exact (commitSegment_kept hid hacc hlive).seq fun _ _ hl _ => keptSafe_ret hl trivial
  | reconcile =>
      exact (reconcilePass_kept hid hacc hlive).seq fun _ _ hl _ => keptSafe_ret hl trivial
  | retain now =>
      exact (retentionApply_kept hid hacc hlive).seq fun _ _ hl _ => keptSafe_ret hl trivial

/-- Every section keeps the row of a commitment. -/
theorem Section.recorded (sec : Section fmt)
    (hdigest : fmt.sha256 a.content = a.record.fileSha256)
    (hsha : ∀ other, fmt.sha256 other = fmt.sha256 a.content → other = a.content)
    (h : Recorded a s) : sec.prog.Keeps (rowKept fmt a) (fun _ _ => True) s := by
  cases sec with
  | commit header frames stamp =>
      exact (recordedSafe_of_only (commitSegment_only (fun _ => unpruned_of_touches) trivial
        fun _ _ => trivial) h).seq fun _ _ hr _ => Keeps.ret hr trivial
  | reconcile =>
      exact (recordedSafe_of_only (reconcilePass_only.mono fun _ => unpruned_of_touches) h).seq
        fun _ _ hr _ => Keeps.ret hr trivial
  | retain now =>
      exact (retentionApply_recorded hdigest hsha h).seq fun _ _ hr _ => Keeps.ret hr trivial

/-- Every section keeps published bytes held. -/
theorem Section.held (sec : Section fmt)
    (hsha : ∀ content, fmt.sha256 content = fmt.sha256 k.content → content = k.content)
    (hgenuine : Genuine fmt s) (h : Held k s) : HeldSafe fmt k sec.prog (fun _ _ => True) s := by
  cases sec with
  | commit header frames stamp =>
      exact (commitSegment_held hsha h hgenuine).seq fun _ _ ht _ => heldSafe_ret ht trivial
  | reconcile =>
      exact (reconcilePass_held hsha h hgenuine).seq fun _ _ ht _ => heldSafe_ret ht trivial
  | retain now =>
      exact (retentionApply_held h).seq fun _ _ ht _ => heldSafe_ret ht trivial

end Sections

/-! ## Promises in a world -/

/-- The promise holds of the store, and the running section keeps it. -/
structure World.Guards (w : World) (P : Promise spoolHandler Calm) : Prop where
  holds : P.holds w.store
  running : ∀ h, w.running = some h → h.prog.Keeps P (fun _ _ => True) w.store

section Guards

variable {fmt : SegmentFormat} {w w' : World} {P : Promise spoolHandler Calm}

/-- Calm steps of others disturb no promise. -/
theorem Promise.holds.calm {s s' : SpoolState} (h : P.holds s) (hcalm : Calm s s') : P.holds s' :=
  h.imp (P.alive_rely · hcalm) (P.ended_rely · hcalm)

theorem keeps_calm {p : SpoolProg Unit} {s s' : SpoolState}
    (h : p.Keeps P (fun _ _ => True) s) (hcalm : Calm s s') : p.Keeps P (fun _ _ => True) s' := by
  refine Safe.stable h (fun _ _ _ => Calm.trans) (fun x t t' hx hR => ?_) hcalm
  exact hx.imp (P.ended_rely · hR) fun ⟨ha, _⟩ => ⟨P.alive_rely ha hR, trivial⟩

/-- Interference that is calm leaves a guarded promise guarded. -/
theorem World.Guards.calm (h : w.Guards P) (hcalm : Calm w.store w'.store)
    (hrunning : w'.running = w.running) : w'.Guards P :=
  ⟨Promise.holds.calm h.holds hcalm, fun x hx => keeps_calm (h.running x (hrunning ▸ hx)) hcalm⟩

/-- What a planted file leaves is calm, whatever the next inode. -/
theorem calm_plantAt {s : SpoolState} {p : Path} {f : File} {n : Nat} (habsent : s.file p = none)
    (hinode : s.freshInode p f.inode) : Calm s { s.put p f with nextInode := n } :=
  (calm_plant habsent hinode).trans
    (.of_same rfl rfl (fun _ _ => Iff.rfl) rfl (List.prefix_refl _))

/-- **Every step keeps a guarded promise guarded**, when a crash and every fresh section do. -/
theorem World.Guards.moved (h : w.Guards P)
    (hdeliver : ∀ i p, w.deliveries.lookup i = some p → p.Only SpoolOp.delivers)
    (hcrash : ∀ s kept, P.holds s → P.holds (s.crash kept))
    (hstart : ∀ sec : Section fmt, P.alive w.store →
      sec.prog.Keeps P (fun _ _ => True) w.store)
    (hmoved : w.Moved fmt w') : w'.Guards P := by
  cases hmoved with
  | start sec hidle hquiet =>
      refine ⟨h.holds, fun x hx => ?_⟩
      obtain rfl := Option.some.inj hx
      rcases h.holds with halive | hended
      · exact hstart sec halive
      · exact Keeps.of_ended hended
  | run x hrunning hprog hperform =>
      have hkeeps := h.running x hrunning
      rw [hprog] at hkeeps
      obtain ⟨hG, hk⟩ := hkeeps w.store (.refl _) _ _ _ hperform
      refine ⟨hG h.holds, fun y hy => ?_⟩
      obtain rfl := Option.some.inj hy
      exact hk
  | stop => exact ⟨h.holds, nofun⟩
  | deliver | stopDelivery => exact ⟨h.holds, h.running⟩
  | runDelivery i hprog hperform =>
      exact h.calm (calm_of_delivery (hdeliver i _ hprog).1 (SpoolState.perform_change hperform))
        rfl
  | advanceCursor hadvance => exact h.calm (calm_advanceCursor hadvance) rfl
  | plant p f habsent hinode => exact h.calm (calm_plantAt habsent hinode) rfl
  | crash kept => exact ⟨hcrash _ _ h.holds, nofun⟩

end Guards

/-! ## Every run -/

/-- What every reachable world satisfies. -/
structure World.Protected (fmt : SegmentFormat) (w : World) : Prop where
  sound : w.store.ledger.Sound
  genuine : Genuine fmt w.store
  deliveries : ∀ i p, w.deliveries.lookup i = some p → p.Only SpoolOp.delivers
  running : ∀ h, w.running = some h → TruthSafe fmt h.prog (fun _ _ => True) w.store ∧
    h.prog.After SpoolOp.announces SpoolOp.records
  built : ∀ r content, .acknowledged r content ∈ w.store.history → Built fmt r content
  formed : ∀ p content, .published p content ∈ w.store.history →
    ∃ k : Publication, segmentPath k.day k.batchId = p ∧ k.content = content
  acknowledged : ∀ n r content parsed,
    w.store.history[n]? = some (.acknowledged r content) → fmt.read content = .ok parsed →
      w.Guards (kept fmt ⟨r, content, n + 1⟩)
  recorded : ∀ n r content, w.store.history[n]? = some (.acknowledged r content) →
    (∀ other, fmt.sha256 other = fmt.sha256 content → other = content) →
      w.Guards (rowKept fmt ⟨r, content, n + 1⟩)
  published : ∀ k : Publication,
    .published (segmentPath k.day k.batchId) k.content ∈ w.store.history →
      (∀ content, fmt.sha256 content = fmt.sha256 k.content → content = k.content) →
        w.Guards (held fmt k)

section Reachable

variable {fmt : SegmentFormat} {w w' : World}

/-- A delivery announces nothing. -/
theorem not_announces_of_delivers {o : SpoolOp} (h : o.delivers) : ¬ o.announces := by
  cases o with
  | note e => cases e <;> first | exact h.elim | exact id
  | _ => exact id

/-- An operation that announces nothing adds no announcement to the history. -/
theorem announced_of_change {o : SpoolOp} {s s' : SpoolState} (h : SpoolState.Change s o s')
    (ho : ¬ o.announces) {n : Nat} {e : Event} (he : e.announces)
    (hn : s'.history[n]? = some e) : s.history[n]? = some e := by
  rcases h.remembers with hsame | ⟨x, hx, hnoted⟩
  · rw [← hsame]
    exact hn
  · rw [hx] at hn
    rcases index_snoc hn with hn | ⟨-, rfl⟩
    · exact hn
    · -- the new event itself would be the announcement
      refine absurd ?_ ho
      rw [hnoted (by cases e <;> first | exact he | trivial)]
      exact he

/-- **A step adds no announcement, unless the running section notes it.** -/
theorem World.Protected.announced (h : w.Protected fmt) (hmoved : w.Moved fmt w') :
    (∀ (n : Nat) e, Event.announces e → w'.store.history[n]? = some e → w.store.history[n]? = some e) ∨
      ∃ x e, ∃ k : Unit → SpoolProg Unit, w.running = some x ∧ x.prog = .op (.note e) k ∧
        e.announces ∧ w'.store = w.store.remember e ∧ w'.running = some ⟨k (), x.exclusive⟩ := by
  cases hmoved with
  | @run x o k c r s' hrunning hprog hperform =>
      by_cases ho : o.announces
      · cases o with
        | note e =>
            obtain rfl := SpoolState.perform_note hperform
            exact Or.inr ⟨x, e, k, hrunning, hprog, ho, rfl, rfl⟩
        | _ => exact ho.elim
      · exact Or.inl fun n e he hn =>
          announced_of_change (SpoolState.perform_change hperform) ho he hn
  | runDelivery i hprog hperform =>
      exact Or.inl fun n e he hn => announced_of_change (SpoolState.perform_change hperform)
        (not_announces_of_delivers (h.deliveries i _ hprog).1) he hn
  | _ => exact Or.inl fun _ _ _ hn => hn

/-- Tombstones stay genuine: only a truthful prune makes one. -/
theorem Genuine.change {s s' : SpoolState} {o : SpoolOp} (h : Genuine fmt s)
    (hchange : SpoolState.Change s o s') (htrue : Truthful fmt s s') : Genuine fmt s' := by
  have hsame : s'.ledger.retirements = s.ledger.retirements → Genuine fmt s' := by
    intro heq b t ht
    rw [heq] at ht
    obtain ⟨content, hdigest, hexpired⟩ := h b t ht
    exact ⟨content, hdigest, hexpired.mono hchange.history⟩
  cases hchange with
  | insert r t hinsert => exact hsame (Ledger.insertSegment_eq hinsert).2.2.1
  | prune r now t hprune =>
      intro b t' ht
      rw [SpoolState.ledger_remember, SpoolState.ledger_setLedger,
        (Ledger.pruneSegment_eq hprune).2.2] at ht
      by_cases hb : b = r.batchId
      · -- the new tombstone is that of the segment just found expired
        subst hb
        obtain rfl := Option.some.inj ((AList.lookup_insert _).symm.trans ht)
        obtain ⟨content, parsed, hdigest, hread, hexpired⟩ := htrue (.pruned r now) rfl
        exact ⟨content, hdigest, parsed, hread, r, now, by simp, hexpired⟩
      · rw [AList.lookup_insert_ne hb] at ht
        obtain ⟨content, hdigest, hexpired⟩ := h b t' ht
        exact ⟨content, hdigest, hexpired.mono (List.prefix_append _ _)⟩
  | tombstone b =>
      intro b' t ht
      by_cases hb : b' = b
      · subst hb
        simp [SpoolState.dropTombstone] at ht
      · refine h b' t ?_
        simpa [SpoolState.dropTombstone, AList.lookup_erase_ne hb] using ht
  | status b e st => exact hsame Ledger.advanceStatus_tables.2.1
  | ensure => exact hsame (by simp)
  | ensureSync => exact hsame (by simp)
  | _ => exact hsame rfl

/-- A section that only records keeps every promise that is alive. -/
theorem keeps_of_records {p : SpoolProg Unit} {a : Commitment} {k : Publication} {s : SpoolState}
    (hp : p.Only SpoolOp.records) :
    (Live a s → KeptSafe fmt a p (fun _ _ => True) s) ∧
      (Recorded a s → p.Keeps (rowKept fmt a) (fun _ _ => True) s) ∧
      (Held k s → HeldSafe fmt k p (fun _ _ => True) s) := by
  refine ⟨fun hlive => keptSafe_of_harmless (hp.mono fun o ho => ?_) hlive,
    fun hrec => recordedSafe_of_only (hp.mono fun o ho => ?_) hrec,
    fun hheld => heldSafe_of_only hp (fun t o ho => ?_) hheld⟩
  · cases o <;> trivial
  · cases o <;> trivial
  · cases o <;> trivial

/-- What the running section is about to note is true. -/
theorem World.Protected.meaning (h : w.Protected fmt) {x : Holder} {e : Event}
    {k : Unit → SpoolProg Unit} (hrunning : w.running = some x) (hprog : x.prog = .op (.note e) k) :
    Meaning fmt (w.store.remember e) e := by
  obtain ⟨htruth, -⟩ := h.running x hrunning
  rw [hprog] at htruth
  exact (htruth w.store (.refl _) .ok () _ rfl).1 e rfl

/-- After an announcement the section only records. -/
theorem World.Protected.rest (h : w.Protected fmt) {x : Holder} {e : Event}
    {k : Unit → SpoolProg Unit} (hrunning : w.running = some x) (hprog : x.prog = .op (.note e) k)
    (he : e.announces) : (k ()).Only SpoolOp.records := by
  obtain ⟨-, hafter⟩ := h.running x hrunning
  rw [hprog] at hafter
  exact hafter.1 he ()

/-- A step keeps the ledger sound and every listed file genuine. -/
theorem World.Protected.moved_sound (h : w.Protected fmt) (hmoved : w.Moved fmt w') :
    w'.store.ledger.Sound ∧ Genuine fmt w'.store := by
  have hcalm : Calm w.store w'.store → w'.store.ledger.Sound ∧ Genuine fmt w'.store :=
    fun hcalm => ⟨hcalm.sound h.sound, h.genuine.calm hcalm⟩
  cases hmoved with
  | run x hrunning hprog hperform =>
      obtain ⟨htruth, -⟩ := h.running x hrunning
      rw [hprog] at htruth
      have hchange := SpoolState.perform_change hperform
      exact ⟨hchange.sound h.sound,
        h.genuine.change hchange (htruth w.store (.refl _) _ _ _ hperform).1⟩
  | runDelivery i hprog hperform =>
      exact hcalm (calm_of_delivery (h.deliveries i _ hprog).1 (SpoolState.perform_change hperform))
  | advanceCursor hadvance => exact hcalm (calm_advanceCursor hadvance)
  | plant p f habsent hinode => exact hcalm (calm_plantAt habsent hinode)
  | _ => exact ⟨h.sound, h.genuine⟩

theorem World.Protected.moved_deliveries (h : w.Protected fmt) (hmoved : w.Moved fmt w') :
    ∀ i p, w'.deliveries.lookup i = some p → p.Only SpoolOp.delivers := by
  have hinsert : ∀ (i : Nat) (p : SpoolProg Unit), p.Only SpoolOp.delivers →
      ∀ j q, (w.deliveries.insert i p).lookup j = some q → q.Only SpoolOp.delivers := by
    intro i p hp j q hq
    by_cases hj : j = i
    · subst hj
      rw [AList.lookup_insert] at hq
      exact Option.some.inj hq ▸ hp
    · rw [AList.lookup_insert_ne hj] at hq
      exact h.deliveries j q hq
  cases hmoved with
  | deliver i record frames exporters now _ _ =>
      exact hinsert i _ (deliverSegment_only.bind fun _ => trivial)
  | runDelivery i hprog hperform => exact hinsert i _ ((h.deliveries i _ hprog).2 _)
  | stopDelivery i =>
      intro j q hq
      by_cases hj : j = i
      · subst hj
        simp at hq
      · rw [AList.lookup_erase_ne hj] at hq
        exact h.deliveries j q hq
  | crash kept => exact fun j q hq => by simp at hq
  | _ => exact h.deliveries

/-- A step keeps the running section truthful and in order. -/
theorem World.Protected.moved_running (h : w.Protected fmt) (hmoved : w.Moved fmt w') :
    ∀ x, w'.running = some x → TruthSafe fmt x.prog (fun _ _ => True) w'.store ∧
      x.prog.After SpoolOp.announces SpoolOp.records := by
  have hcalm : Calm w.store w'.store → ∀ x, w.running = some x →
      TruthSafe fmt x.prog (fun _ _ => True) w'.store ∧
        x.prog.After SpoolOp.announces SpoolOp.records := by
    intro hcalm x hx
    obtain ⟨htruth, hafter⟩ := h.running x hx
    exact ⟨Safe.stable htruth (fun _ _ _ => Calm.trans)
      (fun _ _ _ hs hR => ⟨hR.sound hs.1, trivial⟩) hcalm, hafter⟩
  cases hmoved with
  | start sec hidle hquiet =>
      intro x hx
      obtain rfl := Option.some.inj hx
      exact ⟨sec.truthful h.sound, sec.after⟩
  | run x hrunning hprog hperform =>
      intro y hy
      obtain rfl := Option.some.inj hy
      obtain ⟨htruth, hafter⟩ := h.running x hrunning
      rw [hprog] at htruth hafter
      exact ⟨(htruth w.store (.refl _) _ _ _ hperform).2, hafter.2 _⟩
  | runDelivery i hprog hperform =>
      exact hcalm (calm_of_delivery (h.deliveries i _ hprog).1 (SpoolState.perform_change hperform))
  | advanceCursor hadvance => exact hcalm (calm_advanceCursor hadvance)
  | plant p f habsent hinode => exact hcalm (calm_plantAt habsent hinode)
  | stop | crash => exact nofun
  | _ => exact h.running

/-- **Every step keeps the invariant.** -/
theorem World.Protected.moved (h : w.Protected fmt) (hmoved : w.Moved fmt w') :
    w'.Protected fmt := by
  obtain ⟨hsound, hgenuine⟩ := h.moved_sound hmoved
  -- a promise of the world before goes on being guarded
  have hacknowledged : ∀ n r content parsed,
      w.store.history[n]? = some (.acknowledged r content) → fmt.read content = .ok parsed →
        w'.Guards (kept fmt ⟨r, content, n + 1⟩) := by
    intro n r content parsed hn hread
    have hbuilt := h.built r content (List.mem_of_getElem? hn)
    refine (h.acknowledged n r content parsed hn hread).moved h.deliveries ?_ ?_ hmoved
    · exact fun s listing hs => hs.imp (Live.crash · listing) id
    · exact fun sec hlive => sec.kept hbuilt.matchesBatchId (hbuilt.accepts hread) hlive
  have hrecorded : ∀ n r content, w.store.history[n]? = some (.acknowledged r content) →
      (∀ other, fmt.sha256 other = fmt.sha256 content → other = content) →
        w'.Guards (rowKept fmt ⟨r, content, n + 1⟩) := by
    intro n r content hn hsha
    have hbuilt := h.built r content (List.mem_of_getElem? hn)
    refine (h.recorded n r content hn hsha).moved h.deliveries ?_ ?_ hmoved
    · exact fun s listing hs => hs.imp (·.of_same rfl (List.prefix_refl _)) id
    · exact fun sec hrec => sec.recorded hbuilt.digest hsha hrec
  have hpublished : ∀ k : Publication,
      .published (segmentPath k.day k.batchId) k.content ∈ w.store.history →
        (∀ content, fmt.sha256 content = fmt.sha256 k.content → content = k.content) →
          w'.Guards (held fmt k) := by
    intro k hk hsha
    refine (h.published k hk hsha).moved h.deliveries ?_ ?_ hmoved
    · exact fun s listing hs => hs.imp (Held.crash · listing) id
    · exact fun sec hheld => sec.held hsha h.genuine hheld
  rcases h.announced hmoved with hold | ⟨x, e, f, hrunning, hprog, he, hstore, hrest⟩
  · -- nothing was announced
    have hmem : ∀ e, Event.announces e → e ∈ w'.store.history → e ∈ w.store.history := by
      intro e he hin
      obtain ⟨n, hn⟩ := List.mem_iff_getElem?.mp hin
      exact List.mem_of_getElem? (hold n e he hn)
    exact ⟨hsound, hgenuine, h.moved_deliveries hmoved, h.moved_running hmoved,
      fun r content hin => h.built r content (hmem _ trivial hin),
      fun p content hin => h.formed p content (hmem _ trivial hin),
      fun n r content parsed hn => hacknowledged n r content parsed (hold n _ trivial hn),
      fun n r content hn => hrecorded n r content (hold n _ trivial hn),
      fun k hk => hpublished k (hmem _ trivial hk)⟩
  · -- the section announced `e`: it is true, and what is left of the section only records
    have hmeaning := h.meaning hrunning hprog
    have honly := h.rest hrunning hprog he
    have hmem : ∀ e', e' ∈ w'.store.history → e' ∈ w.store.history ∨ e' = e := by
      intro e' hin
      rw [hstore] at hin
      simpa using hin
    -- what has just been acknowledged is live
    have hnew : ∀ r content, e = .acknowledged r content →
        Live ⟨r, content, w.store.history.length + 1⟩ w'.store := by
      rintro r content rfl
      rw [hstore]
      simpa using hmeaning.2
    refine ⟨hsound, hgenuine, h.moved_deliveries hmoved, h.moved_running hmoved,
      ?_, ?_, ?_, ?_, ?_⟩
    · intro r content hin
      rcases hmem _ hin with hin | rfl
      · exact h.built r content hin
      · exact hmeaning.1
    · intro p content hin
      rcases hmem _ hin with hin | rfl
      · exact h.formed p content hin
      · obtain ⟨-, r, hbuilt, rfl⟩ := hmeaning
        exact ⟨⟨r.day, r.batchId, content, hbuilt.matchesBatchId, hbuilt.nonempty⟩, rfl, rfl⟩
    · intro n r content parsed hn hread
      rw [hstore] at hn
      rcases index_snoc hn with hn | ⟨rfl, rfl⟩
      · exact hacknowledged n r content parsed hn hread
      · have hlive := hnew r content rfl
        refine ⟨Or.inl hlive, fun y hy => ?_⟩
        obtain rfl := Option.some.inj (hrest.symm.trans hy)
        exact (keeps_of_records (k := ⟨r.day, r.batchId, content, hmeaning.1.matchesBatchId,
          hmeaning.1.nonempty⟩) honly).1 hlive
    · intro n r content hn hsha
      rw [hstore] at hn
      rcases index_snoc hn with hn | ⟨rfl, rfl⟩
      · exact hrecorded n r content hn hsha
      · have hrec := (hnew r content rfl).toRecorded
        refine ⟨Or.inl hrec, fun y hy => ?_⟩
        obtain rfl := Option.some.inj (hrest.symm.trans hy)
        exact (keeps_of_records (k := ⟨r.day, r.batchId, content, hmeaning.1.matchesBatchId,
          hmeaning.1.nonempty⟩) honly).2.1 hrec
    · intro k hk hsha
      rcases hmem _ hk with hk | rfl
      · exact hpublished k hk hsha
      · have hheld : Held k w'.store := by
          refine Or.inl fun l hl => ?_
          rw [hstore] at hl
          obtain ⟨g, hg, hcontent⟩ := hmeaning.1 l hl
          exact ⟨segmentName k.batchId, g, hg, hcontent, Or.inl rfl⟩
        refine ⟨Or.inl hheld, fun y hy => ?_⟩
        obtain rfl := Option.some.inj (hrest.symm.trans hy)
        obtain ⟨-, r, -, -⟩ := hmeaning
        exact (keeps_of_records (a := ⟨r, k.content, 0⟩) honly).2.2 hheld

/-- The empty world is protected. -/
theorem World.Protected.of_init : World.init.Protected fmt := by
  refine ⟨fun b e h => ?_, fun b t h => ?_, ?_, ?_, ?_, ?_, ?_, ?_, ?_⟩
  · simp [World.init, SpoolState.empty, Ledger.empty, Ledger.required] at h
  · simp [World.init, SpoolState.empty, Ledger.empty] at h
  · intro i p h
    simp [World.init] at h
  all_goals simp [World.init, SpoolState.empty]

/-- The invariant holds after every run. -/
theorem protected_of_run {tr : List (Move fmt)} (hrun : Run (spool fmt) tr w) :
    w.Protected fmt := by
  refine hrun.invariant ?_ fun w m w' h hstep => h.moved (World.step_moved hstep)
  rintro w rfl
  exact .of_init

/-- **No acknowledged segment is lost, and no published byte before it expires.** After every run,
until a prune at or after the expiry of all its records:

* an acknowledged segment whose bytes the trusted reader accepts has its row and its bytes, in every
  listing a crash may leave, unless a reconciliation pass failed to read the file since then, for a
  reason other than its bytes;
* its row stays even then, where nothing else has the digest of its bytes;
* and published bytes, where nothing else has their digest, are held. -/
theorem acknowledged_kept_published_held {tr : List (Move fmt)} (hrun : Run (spool fmt) tr w) :
    (∀ n r content parsed, w.store.history[n]? = some (.acknowledged r content) →
      fmt.read content = .ok parsed → ¬ Unread ⟨r, content, n + 1⟩ w.store →
        Live ⟨r, content, n + 1⟩ w.store ∨ Overdue fmt ⟨r, content, n + 1⟩ w.store) ∧
    (∀ n r content, w.store.history[n]? = some (.acknowledged r content) →
      (∀ other, fmt.sha256 other = fmt.sha256 content → other = content) →
        Recorded ⟨r, content, n + 1⟩ w.store ∨ Overdue fmt ⟨r, content, n + 1⟩ w.store) ∧
    (∀ p content, .published p content ∈ w.store.history →
      (∀ other, fmt.sha256 other = fmt.sha256 content → other = content) →
        ∃ k : Publication, segmentPath k.day k.batchId = p ∧ k.content = content ∧
          (Held k w.store ∨ Expired fmt content w.store.history)) := by
  have h := protected_of_run hrun
  refine ⟨fun n r content parsed hn hread hunread => ?_,
    fun n r content hn hsha => (h.recorded n r content hn hsha).holds, fun p content hp hsha => ?_⟩
  · rcases (h.acknowledged n r content parsed hn hread).holds with hlive | hended | hended
    · exact Or.inl hlive
    · exact absurd hended hunread
    · exact Or.inr hended
  · obtain ⟨k, rfl, rfl⟩ := h.formed p content hp
    exact ⟨k, rfl, rfl, (h.published k hp hsha).holds⟩

end Reachable

/-- The record of the sample segment, committed at stamp 3. -/
def sampleRecord : SegmentRecord := committedRecord sampleFormat sampleHeader [0] 3

/-- A commit of the sample segment, operation by operation. -/
def sampleCommit : List (Move sampleFormat) :=
  .start (.commit sampleHeader [sampleExpiry] 3) :: List.replicate 6 (.run .ok) ++
    .run (.token "00000000000000000000000000000000") :: List.replicate 7 (.run .ok) ++ [.stop]

/-- The sample segment is acknowledged, the machine loses power, a retention pass comes before the
expiry, and a reconciliation pass reads the segment. -/
def sampleRun : List (Move sampleFormat) :=
  sampleCommit ++ [.crash fun _ => 0, .start (.retain 4), .run .ok, .run .ok, .stop] ++
    .start .reconcile :: List.replicate 4 (.run .ok) ++ [.stop]

/-- A run that publishes and acknowledges one segment, whose promises hold. -/
theorem sampleRun_kept : ∃ w, Run (spool sampleFormat) sampleRun w ∧
    w.store.history = [.published (segmentPath sampleRecord.day "b1") [0],
      .acknowledged sampleRecord [0]] ∧
    (Live ⟨sampleRecord, [0], 2⟩ w.store ∨ Overdue sampleFormat ⟨sampleRecord, [0], 2⟩ w.store) ∧
    (Recorded ⟨sampleRecord, [0], 2⟩ w.store ∨
      Overdue sampleFormat ⟨sampleRecord, [0], 2⟩ w.store) ∧
    ∃ k : Publication, segmentPath k.day k.batchId = segmentPath sampleRecord.day "b1" ∧
      k.content = [0] ∧ (Held k w.store ∨ Expired sampleFormat [0] w.store.history) := by
  obtain ⟨w, hrun, hhistory⟩ : ∃ w, Run (spool sampleFormat) sampleRun w ∧
      w.store.history = [.published (segmentPath sampleRecord.day "b1") [0],
        .acknowledged sampleRecord [0]] :=
    exists_run_of_exec (by decide +kernel)
  obtain ⟨hkept, hrecorded, hheld⟩ := acknowledged_kept_published_held hrun
  have hunread : ¬ Unread ⟨sampleRecord, [0], 2⟩ w.store := by
    unfold Unread
    rw [hhistory]
    exact List.not_mem_nil
  refine ⟨w, hrun, hhistory, hkept 1 sampleRecord [0] _ ?_ rfl hunread,
    hrecorded 1 sampleRecord [0] ?_ fun _ => sampleDigest_injective,
    hheld _ [0] ?_ fun _ => sampleDigest_injective⟩
  · rw [hhistory]
    rfl
  · rw [hhistory]
    rfl
  · rw [hhistory]
    exact List.mem_cons_self

/-- The sample segment is acknowledged, and one trusted read of a reconciliation pass fails: the
pass takes the segment for corrupt and moves it into quarantine. -/
def sampleUnread : List (Move sampleFormat) :=
  sampleCommit ++ .start .reconcile :: List.replicate 3 (.run .ok) ++
    .run .fail :: List.replicate 40 (.run .ok) ++ [.stop]

/-- The bytes are accepted and nothing has expired, yet the file is gone from its place. The row
that points to it stays. -/
theorem unread_segment_moved : ∃ w, Run (spool sampleFormat) sampleUnread w ∧
    w.store.history = [.published (segmentPath sampleRecord.day "b1") [0],
      .acknowledged sampleRecord [0], .unreadable (segmentPath sampleRecord.day "b1") true] ∧
    w.store.ledger.segments.lookup "b1" = some sampleRecord.toSegmentRow ∧
    w.store.file (segmentPath sampleRecord.day "b1") = none ∧
    sampleFormat.read [0] = .ok ⟨sampleHeader, [sampleExpiry], 1, sampleDigest [0]⟩ ∧
    ¬ (Live ⟨sampleRecord, [0], 2⟩ w.store ∨
      Overdue sampleFormat ⟨sampleRecord, [0], 2⟩ w.store) := by
  obtain ⟨w, hrun, hhistory, hrow, hfile⟩ : ∃ w, Run (spool sampleFormat) sampleUnread w ∧
      w.store.history = [.published (segmentPath sampleRecord.day "b1") [0],
        .acknowledged sampleRecord [0], .unreadable (segmentPath sampleRecord.day "b1") true] ∧
      w.store.ledger.segments.lookup "b1" = some sampleRecord.toSegmentRow ∧
      w.store.file (segmentPath sampleRecord.day "b1") = none :=
    exists_run_of_exec (by decide +kernel)
  refine ⟨w, hrun, hhistory, hrow, hfile, rfl, ?_⟩
  rintro (hlive | ⟨parsed, -, r, now, hpruned, -⟩)
  · obtain ⟨f, hf, -⟩ := hlive.file_eq
    exact absurd (hfile.symm.trans hf) (by simp)
  · rw [hhistory] at hpruned
    simp at hpruned

end Milhouse
