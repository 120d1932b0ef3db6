import Milhouse.Logs.Maintenance

/-!
# Milhouse — what retention accepts as a closed log segment

Retention reads a rotated file, parses its header and its trailer, validates every event line between
them and compares the count, the digest and the deadline. Its checks pass for the closed segments and
nothing else: for no segment that lost its end, and for no segment that was changed under its
trailer.

* **`closed_of_checkClosed`**, **`checkClosed_of_closed`** — a content passes exactly where it is a
  header, event lines and a trailer that certifies them;
* `checkActive_ok` — what passes as an active segment is a header and event lines;
* **`checkClosed_prefix`** — no proper first part of an accepted file is accepted;
* **`checkClosed_certified`** — two accepted files with one trailer are the same, or what their
  trailers certify collides.
-/

namespace Milhouse.StructuredLogs

open Json

variable {rt : LogRuntime}

/-! ## Event lines -/

/-- Lines are valid exactly if each is the line of some event. -/
theorem validEventLines_iff {events : List LogText} :
    validEventLines rt events = true ↔ ∀ line ∈ events, IsEventLine rt line := by
  unfold validEventLines
  rw [List.all_eq_true]
  constructor
  · intro h line hline
    have hok := h line hline
    cases hread : validateStructuredLogEventLine rt line with
    | error failure =>
        rw [hread] at hok
        cases hok
    | ok stamp => exact isEventLine_of_validate hread
  · intro h line hline
    obtain ⟨event, hevent⟩ := h line hline
    rw [validate_eventLine hevent]
    rfl

/-- The line of an event has one line feed, its last character. -/
theorem isLine_of_isEventLine {line : LogText} (h : IsEventLine rt line) :
    Lines.IsLine '\n' line := by
  obtain ⟨event, hevent⟩ := h
  exact isLine_of_canonicalLine hevent

/-- A line that holds a value is not blank. -/
theorem text_ne_blank (payload : Value rt.fractions) : payload.text ++ ['\n'] ≠ ['\n'] := by
  intro hblank
  obtain ⟨c, rest, htext, -⟩ := text_head payload
  rw [htext, List.cons_append, List.cons.injEq] at hblank
  exact List.append_ne_nil_of_right_ne_nil rest (List.cons_ne_nil '\n' []) hblank.2

/-! ## A closed segment -/

/-- The lines of a closed segment. -/
def closedLines (rt : LogRuntime) (header : StructuredLogHeaderV1) (events : List LogText)
    (trailer : StructuredLogTrailerV1) : List LogText :=
  headerLine rt header :: (events ++ [trailerLine rt trailer])

/-- A closed segment is the certified bytes followed by the trailer line. -/
theorem closedLines_flatten (header : StructuredLogHeaderV1) (events : List LogText)
    (trailer : StructuredLogTrailerV1) :
    (closedLines rt header events trailer).flatten =
      certifiedBytes rt header events ++ trailerLine rt trailer := by
  rw [closedLines, certifiedBytes, List.flatten_cons, List.flatten_append, List.flatten_singleton,
    List.append_assoc]

theorem isLine_closedLines {header : StructuredLogHeaderV1} {events : List LogText}
    {trailer : StructuredLogTrailerV1} (hevents : ∀ line ∈ events, IsEventLine rt line) :
    ∀ line ∈ closedLines rt header events trailer, Lines.IsLine '\n' line := by
  intro line hline
  rcases List.mem_cons.mp hline with rfl | hline
  · exact isLine_headerLine header
  · rcases List.mem_append.mp hline with hevent | htrailer
    · exact isLine_of_isEventLine (hevents line hevent)
    · rw [List.mem_singleton.mp htrailer]
      exact isLine_trailerLine trailer

theorem blank_notMem_closedLines {header : StructuredLogHeaderV1} {events : List LogText}
    {trailer : StructuredLogTrailerV1} (hevents : ∀ line ∈ events, IsEventLine rt line) :
    ['\n'] ∉ closedLines rt header events trailer := by
  intro hblank
  rcases List.mem_cons.mp hblank with hheader | hblank
  · exact text_ne_blank (header.payload rt) hheader.symm
  · rcases List.mem_append.mp hblank with hevent | htrailer
    · obtain ⟨event, hline⟩ := hevents _ hevent
      exact text_ne_blank event.payload (canonicalLine_eq_ok hline).1.symm
    · exact text_ne_blank (trailer.payload rt) (List.mem_singleton.mp htrailer).symm

/-! ## What is accepted -/

/-- What is accepted is a header, event lines and a trailer that certifies them. -/
theorem closed_of_checkClosed {content : LogText} {sequence : Nat} {header : StructuredLogHeaderV1}
    {trailer : StructuredLogTrailerV1} (h : checkClosed rt content sequence = .ok (header, trailer)) :
    header.sequence = sequence ∧ trailer.sequence = sequence ∧ ∃ events,
      (∀ line ∈ events, IsEventLine rt line) ∧ trailer.certifies rt header events ∧
        content = certifiedBytes rt header events ++ trailerLine rt trailer := by
  unfold checkClosed at h
  split at h
  · rename_i first second rest hcut
    obtain ⟨-, h⟩ := Except.passed_refusal (fun heq => (by cases heq)) h
    obtain ⟨header', hheader, h⟩ := Except.bind_eq_ok_iff.mp h
    obtain ⟨trailer', htrailer, h⟩ := Except.bind_eq_ok_iff.mp h
    obtain ⟨hsequence, h⟩ := Except.passed_refusal (fun heq => (by cases heq)) h
    obtain ⟨rfl, rfl⟩ := Prod.mk.injEq .. ▸ Except.ok.inj h
    rw [not_or, not_not, not_not] at hsequence
    obtain ⟨hline, hcertifies⟩ := parseTrailerLine_eq_ok htrailer
    refine ⟨hsequence.1, hsequence.2, (second :: rest).dropLast,
      validEventLines_iff.mp ((checked_of_parseTrailerLine htrailer).1), hcertifies, ?_⟩
    -- the lines that were cut are those of the segment
    have hcontent := @Lines.cut_append _ '\n' _ content
    rw [hcut, List.append_nil] at hcontent
    rw [← closedLines_flatten, ← hcontent, closedLines, ← parseHeaderLine_eq_ok hheader, ← hline,
      List.getLastD_eq_getLast?, List.getLast?_eq_some_getLast (List.cons_ne_nil second rest),
      Option.getD_some, List.dropLast_append_getLast]
  · cases h
  · cases h

/-- A closed segment is accepted. -/
theorem checkClosed_of_closed {sequence : Nat} {header : StructuredLogHeaderV1}
    {trailer : StructuredLogTrailerV1} {events : List LogText} (hheader : header.sequence = sequence)
    (htrailer : trailer.sequence = sequence) (hevents : ∀ line ∈ events, IsEventLine rt line)
    (hcertifies : trailer.certifies rt header events) :
    checkClosed rt (certifiedBytes rt header events ++ trailerLine rt trailer) sequence =
      .ok (header, trailer) := by
  have hlines : ∀ line ∈ closedLines rt header events trailer, Lines.IsLine '\n' line :=
    isLine_closedLines hevents
  have hcut := Lines.cut_flatten hlines List.not_mem_nil
  rw [List.append_nil, closedLines_flatten] at hcut
  have hblank : ['\n'] ∉ closedLines rt header events trailer := blank_notMem_closedLines hevents
  obtain ⟨second, rest, hrest⟩ :=
    List.exists_cons_of_ne_nil (List.concat_ne_nil (trailerLine rt trailer) events)
  rw [closedLines, hrest] at hcut hblank
  have hlast : (second :: rest).getLastD [] = trailerLine rt trailer := by
    rw [← hrest, List.getLastD_concat]
  have hevents' : (second :: rest).dropLast = events := by
    rw [← hrest, List.dropLast_concat]
  unfold checkClosed
  rw [hcut]
  dsimp only
  rw [if_neg hblank, parseHeaderLine_headerLine, hlast, hevents']
  dsimp only [Except.bind]
  rw [parseTrailerLine_trailerLine hcertifies (validEventLines_iff.mpr hevents)]
  dsimp only
  rw [if_neg (not_or.mpr ⟨not_not.mpr hheader, not_not.mpr htrailer⟩)]

/-! ## What passes as an active segment -/

/-- Lines that were scanned are the lines of events. -/
theorem scanEvents_events {message : String} {lines : List LogText} {before last : Option Stamp}
    (h : scanEvents rt message before lines = .ok last) : ∀ line ∈ lines, IsEventLine rt line := by
  induction lines generalizing before with
  | nil => exact fun _ hline => absurd hline List.not_mem_nil
  | cons line rest ih =>
      unfold scanEvents at h
      split at h
      · split at h <;> cases h
      · split at h
        · cases h
        · rename_i stamp hvalid
          exact List.forall_mem_cons.mpr ⟨isEventLine_of_validate hvalid, ih h⟩

/-- A segment without a torn tail is the lines it was cut into. -/
theorem splitActive_ok {code : String} {content first : LogText} {lines : List LogText}
    {torn : Option LogText} (h : splitActive code content = .ok (first, lines, torn))
    (htorn : torn = none) : content = first ++ lines.flatten := by
  unfold splitActive at h
  obtain ⟨-, h⟩ := Except.passed_refusal (fun heq => (by cases heq)) h
  split at h
  · cases h
  · rename_i begins rest tail hcut
    obtain ⟨-, h⟩ := Except.passed_refusal (fun heq => (by cases heq)) h
    have hparts := Except.ok.inj h
    rw [Prod.mk.injEq, Prod.mk.injEq] at hparts
    obtain ⟨rfl, rfl, htail⟩ := hparts
    have hwhole : tail = [] := by
      by_contra hne
      rw [if_neg hne, htorn] at htail
      cases htail
    have hcontent := @Lines.cut_append _ '\n' _ content
    rw [hcut, hwhole, List.append_nil, List.flatten_cons] at hcontent
    exact hcontent.symm

/-- An active segment that passes has one name, and is a header above every rotation and event
lines. -/
theorem checkActive_ok {message : String} {content : LogText} {links : Nat} {rotated : List Nat}
    {active : ActiveContent} (h : checkActive rt message content links rotated = .ok active) :
    links = 1 ∧ highest rotated < active.header.sequence ∧
      content = certifiedBytes rt active.header active.events ∧
        ∀ line ∈ active.events, IsEventLine rt line := by
  unfold checkActive at h
  obtain ⟨hlinks, h⟩ := Except.passed_refusal (fun heq => (by cases heq)) h
  obtain ⟨⟨first, lines, torn⟩, hsplit, h⟩ := Except.bind_eq_ok_iff.mp h
  obtain ⟨htorn, h⟩ := Except.passed_refusal (fun heq => (by cases heq)) h
  obtain ⟨header, hheader, h⟩ := Except.bind_eq_ok_iff.mp h
  obtain ⟨habove, h⟩ := Except.passed_refusal (fun heq => (by cases heq)) h
  have hcontent := splitActive_ok hsplit (by simpa using htorn)
  cases hscan : scanEvents rt message none lines with
  | error failure =>
      rw [hscan] at h
      cases h
  | ok last =>
      rw [hscan] at h
      rw [← Except.ok.inj h, hcontent, certifiedBytes, parseHeaderLine_eq_ok hheader]
      exact ⟨not_not.mp hlinks, Nat.lt_of_not_le habove, rfl, scanEvents_events hscan⟩

/-- A header above every rotation and event lines pass. -/
theorem checkActive_of {message : String} {rotated : List Nat} {header : StructuredLogHeaderV1}
    {events : List LogText} {last : Option Stamp} (habove : highest rotated < header.sequence)
    (hscan : scanEvents rt message none events = .ok last) :
    checkActive rt message (certifiedBytes rt header events) 1 rotated =
      .ok ⟨header, events, last⟩ := by
  have hevents := scanEvents_events hscan
  have hlines : ∀ line ∈ headerLine rt header :: events, Lines.IsLine '\n' line :=
    List.forall_mem_cons.mpr ⟨isLine_headerLine header,
      fun line hline => isLine_of_isEventLine (hevents line hline)⟩
  have hcut := Lines.cut_flatten hlines List.not_mem_nil
  rw [List.append_nil, List.flatten_cons] at hcut
  have hblank : ['\n'] ∉ headerLine rt header :: events := by
    rintro hmem
    rcases List.mem_cons.mp hmem with hheader | hevent
    · exact text_ne_blank (header.payload rt) hheader.symm
    · obtain ⟨event, hline⟩ := hevents _ hevent
      exact text_ne_blank event.payload (canonicalLine_eq_ok hline).1.symm
  have hne : headerLine rt header ++ events.flatten ≠ [] :=
    List.append_ne_nil_of_left_ne_nil (isLine_headerLine header).ne_nil _
  have hsplit : splitActive "MH_LOG_OPEN" (certifiedBytes rt header events) =
      .ok (headerLine rt header, events, none) := by
    unfold splitActive certifiedBytes
    rw [if_neg hne, hcut]
    dsimp only
    rw [if_neg hblank]
    rfl
  unfold checkActive
  rw [if_neg (by decide), hsplit]
  dsimp only [Except.bind]
  rw [parseHeaderLine_headerLine]
  dsimp only
  rw [if_neg (Nat.not_le.mpr habove), hscan]
  rfl

/-- A trailer that was made has the fields it was made from. -/
theorem make_trailer_ok {sequence closedAt count expiresAt : Nat} {lastEventAt : Option Nat}
    {digest : List Char} {trailer : StructuredLogTrailerV1}
    (h : StructuredLogTrailerV1.make sequence closedAt lastEventAt count digest expiresAt =
      .ok trailer) : trailer.sequence = sequence ∧ trailer.eventCount = count ∧
        trailer.contentSha256 = digest ∧ trailer.expiresAt = expiresAt := by
  unfold StructuredLogTrailerV1.make at h
  split at h
  · split at h
    · split at h
      · split at h
        · split at h
          · rw [← Except.ok.inj h]
            exact ⟨rfl, rfl, rfl, rfl⟩
          · cases h
        · cases h
      · cases h
    · cases h
  · cases h

/-! ## A log of one event -/

def sampleLogRuntime : LogRuntime where
  fractions := integersOnly
  sha256 _ := List.replicate 64 '0'
  length_sha256 _ := List.length_replicate
  sha256_hex _ c hc := by
    rw [List.eq_of_mem_replicate hc]
    exact .inl (by decide)

def sampleMetric : LogMetric sampleLogRuntime where
  name := "frames".toList
  kind := .count
  value := .int 3
  validName := by decide +kernel
  validValue := by decide

def sampleEvent (timestamp : Stamp) (h : timestamp < stampLimit) : WireEvent sampleLogRuntime where
  timestamp
  name := "collector.run".toList
  level := .info
  metrics := [sampleMetric]
  error := none
  fingerprint := none
  validTime := h
  validName := by decide +kernel
  fewMetrics := by decide
  sortedMetrics := by decide
  validError := rfl
  validFingerprint := rfl

/-- The line of an event at the start of the epoch, and of one a second later. -/
def firstLine : LogText := (sampleEvent 0 (by decide)).payload.text ++ ['\n']
def laterLine : LogText := (sampleEvent 1000 (by decide)).payload.text ++ ['\n']

theorem firstLine_eq : structuredLogEventLine (sampleEvent 0 (by decide)) = .ok firstLine := by
  unfold structuredLogEventLine canonicalLine
  rw [if_pos (by decide +kernel)]
  rfl

theorem laterLine_eq : structuredLogEventLine (sampleEvent 1000 (by decide)) = .ok laterLine := by
  unfold structuredLogEventLine canonicalLine
  rw [if_pos (by decide +kernel)]
  rfl

def sampleLogHeader : StructuredLogHeaderV1 where
  sequence := 4
  openedAt := 0
  retentionDays := 1
  validSequence := by decide
  validTime := by decide
  validRetention := by decide

def sampleLogTrailer : StructuredLogTrailerV1 where
  sequence := 4
  closedAt := 1000
  lastEventAt := some 0
  eventCount := 1
  contentSha256 := List.replicate 64 '0'
  expiresAt := dayMillis
  validSequence := by decide
  validClosed := by decide
  validExpiry := by decide
  validCount := by decide
  validDigest := by decide
  validLast := by decide
  lastMatches := by decide

/-- The segment of one line, closed. -/
def sampleClosedLog (line : LogText) : LogText :=
  certifiedBytes sampleLogRuntime sampleLogHeader [line] ++
    trailerLine sampleLogRuntime sampleLogTrailer

/-- The sample segment is accepted under its own sequence. -/
theorem sampleClosedLog_accepted {line : LogText} (h : IsEventLine sampleLogRuntime line) :
    checkClosed sampleLogRuntime (sampleClosedLog line) 4 =
      .ok (sampleLogHeader, sampleLogTrailer) :=
  checkClosed_of_closed rfl rfl (List.forall_mem_singleton.mpr h) ⟨rfl, rfl, by decide⟩

/-! ## A segment that lost its end -/

/-- **No proper first part of a closed segment is accepted**, whatever name it has: its last line
would be an event line or the header, and a trailer is neither. -/
theorem checkClosed_prefix {content part : LogText} {sequence sequence' : Nat}
    {read read' : StructuredLogHeaderV1 × StructuredLogTrailerV1}
    (h : checkClosed rt content sequence = .ok read) (hpart : part <+: content)
    (hlost : part ≠ content) : checkClosed rt part sequence' ≠ .ok read' := by
  intro h'
  obtain ⟨-, -, events, hevents, -, hcontent⟩ := closed_of_checkClosed h
  obtain ⟨-, -, events', hevents', -, hpart'⟩ := closed_of_checkClosed h'
  rw [← closedLines_flatten] at hcontent hpart'
  have hcut := Lines.cut_flatten (@isLine_closedLines rt read.1 events read.2 hevents) List.not_mem_nil
  have hcut' := Lines.cut_flatten (@isLine_closedLines rt read'.1 events' read'.2 hevents') List.not_mem_nil
  rw [List.append_nil, ← hcontent] at hcut
  rw [List.append_nil, ← hpart'] at hcut'
  -- the lines of the part are the first lines of the content
  have hlines := @Lines.cut_prefix _ '\n' _ _ _ hpart
  rw [hcut, hcut'] at hlines
  obtain ⟨hheader, hrest⟩ := List.cons_prefix_cons.mp hlines
  rcases List.prefix_concat_iff.mp hrest with hwhole | hinside
  · refine hlost ?_
    rw [hcontent, hpart', closedLines, closedLines, hheader, hwhole]
  · have hmem : trailerLine rt read'.2 ∈ events :=
      hinside.subset (List.mem_append_right _ (List.mem_singleton.mpr rfl))
    obtain ⟨event, hline⟩ := hevents _ hmem
    have htrailer := @isTrailerLine_trailerLine rt read'.2
    rw [isTrailerLine_eventLine hline] at htrailer
    cases htrailer

/-- A closed segment without its last line feed is refused. -/
theorem checkClosed_prefix_sample :
    checkClosed sampleLogRuntime (sampleClosedLog firstLine).dropLast 4 ≠
      .ok (sampleLogHeader, sampleLogTrailer) := by
  have hshorter : ∀ content : LogText, content ≠ [] → content.dropLast ≠ content := by
    intro content hcontent heq
    have hlength := congrArg List.length heq
    have hpositive := List.length_pos_iff.mpr hcontent
    rw [List.length_dropLast] at hlength
    omega
  have htrailer := (@isLine_trailerLine sampleLogRuntime sampleLogTrailer).ne_nil
  exact checkClosed_prefix (sampleClosedLog_accepted ⟨_, firstLine_eq⟩) (List.dropLast_prefix _)
    (hshorter _ (List.append_ne_nil_of_right_ne_nil _ htrailer))

/-! ## A segment that was changed -/

/-- **A trailer stands for the file it closes**: two accepted files with one trailer are the same, or
what precedes their trailers are different inputs with one digest. -/
theorem checkClosed_certified {content content' : LogText} {sequence sequence' : Nat}
    {header header' : StructuredLogHeaderV1} {trailer : StructuredLogTrailerV1}
    (h : checkClosed rt content sequence = .ok (header, trailer))
    (h' : checkClosed rt content' sequence' = .ok (header', trailer)) :
    content = content' ∨ ∃ body body', content = body ++ trailerLine rt trailer ∧
      content' = body' ++ trailerLine rt trailer ∧ body ≠ body' ∧
        rt.sha256 body = rt.sha256 body' := by
  obtain ⟨-, -, events, -, hcertifies, hcontent⟩ := closed_of_checkClosed h
  obtain ⟨-, -, events', -, hcertifies', hcontent'⟩ := closed_of_checkClosed h'
  by_cases hsame : certifiedBytes rt header events = certifiedBytes rt header' events'
  · left
    rw [hcontent, hcontent', hsame]
  · right
    exact ⟨_, _, hcontent, hcontent', hsame, hcertifies.2.1.symm.trans hcertifies'.2.1⟩

/-- Under a digest that is always the same, one trailer stands for two files. -/
theorem checkClosed_certified_sample : sampleClosedLog firstLine = sampleClosedLog laterLine ∨
    ∃ body body', sampleClosedLog firstLine =
        body ++ trailerLine sampleLogRuntime sampleLogTrailer ∧
      sampleClosedLog laterLine = body' ++ trailerLine sampleLogRuntime sampleLogTrailer ∧
        body ≠ body' ∧ sampleLogRuntime.sha256 body = sampleLogRuntime.sha256 body' :=
  checkClosed_certified (sampleClosedLog_accepted ⟨_, firstLine_eq⟩)
    (sampleClosedLog_accepted ⟨_, laterLine_eq⟩)

end Milhouse.StructuredLogs
