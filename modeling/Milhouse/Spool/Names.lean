import Milhouse.Spool.Segment

/-!
# Milhouse — leaf names of the spool

A leaf of a day directory is a segment `<batch-id>.jsonl`, a staged temporary, or foreign. Every
name the code makes up for itself starts with `.milhouse-stage-`, and no batch id starts with a
dot: `stagePrefix_not_prefix` is why recovery of temporaries can never touch a segment.
-/

namespace Milhouse

/-- `<batch-id>.jsonl`. -/
def segmentName (batchId : String) : String := batchId ++ ".jsonl"

/-- `_STAGE_PREFIX`. -/
def stagePrefix : String := ".milhouse-stage-"

/-- `_QUARANTINE_STAGE`. -/
def quarantineStage : String := ".milhouse-stage-quarantine-copy"

/-- `_RETIRE_PREFIX`. -/
def retirePrefix : String := ".milhouse-stage-quarantine-retired-"

/-- Thirty-two lowercase hexadecimal digits. -/
def isStageToken (text : String) : Bool :=
  text.length = 32 && text.toList.all fun c => ('0' ≤ c && c ≤ '9') || ('a' ≤ c && c ≤ 'f')

def hexText (n : Nat) : String := String.ofList (Nat.toDigits 16 n)

/-- `_WRITER_STAGE_PATTERN`. -/
def isWriterStage (name : String) : Bool :=
  stagePrefix.toList <+: name.toList
    && isStageToken (String.ofList (name.toList.drop stagePrefix.length))

/-- The batch id of a `<batch-id>.jsonl` name: `_classify_name`. -/
def batchIdOfName (name : String) : Except String String :=
  if ".jsonl".toList <:+ name.toList then
    let batchId := String.ofList (name.toList.take (name.length - ".jsonl".length))
    if matchesBatchId batchId then .ok batchId else .error "batch_id"
  else .error "suffix"

/-! ## Segments and temporaries are told apart by their names -/

theorem segmentName_toList (batchId : String) :
    (segmentName batchId).toList = batchId.toList ++ ".jsonl".toList := by
  simp [segmentName]

theorem segmentName_injective {a b : String} (h : segmentName a = segmentName b) : a = b := by
  have hlist := congrArg String.toList h
  rw [segmentName_toList, segmentName_toList] at hlist
  exact String.toList_inj.mp (List.append_cancel_right hlist)

/-- A batch id is not empty and does not start with a dot. -/
theorem matchesBatchId_head {batchId : String} (h : matchesBatchId batchId = true) :
    ∃ c cs, batchId.toList = c :: cs ∧ c ≠ '.' := by
  unfold matchesBatchId matchesId at h
  split at h
  · cases h
  · rename_i c cs hlist
    refine ⟨c, cs, hlist, ?_⟩
    rintro rfl
    revert h
    simp [isAlnum]

/-- No segment name starts with the staging prefix. -/
theorem stagePrefix_not_prefix {batchId : String} (h : matchesBatchId batchId = true) :
    ¬ stagePrefix.toList <+: (segmentName batchId).toList := by
  obtain ⟨c, cs, hlist, hdot⟩ := matchesBatchId_head h
  rw [segmentName_toList, hlist]
  rintro ⟨rest, hrest⟩
  have hhead : '.' = c := by
    have := congrArg List.head? hrest
    simpa [stagePrefix] using this
  exact hdot hhead.symm

/-- A writer's temporary has the staging prefix. -/
theorem stagePrefix_of_writerStage {name : String} (h : isWriterStage name = true) :
    stagePrefix.toList <+: name.toList := by
  simp only [isWriterStage, Bool.and_eq_true, decide_eq_true_eq] at h
  exact h.1

/-- A writer's temporary is no retired source: a token is hexadecimal. -/
theorem not_retirePrefix_of_writerStage {name : String} (h : isWriterStage name = true) :
    ¬ retirePrefix.toList <+: name.toList := by
  rintro ⟨rest, hrest⟩
  simp only [isWriterStage, Bool.and_eq_true] at h
  have hdrop : name.toList.drop stagePrefix.length = "quarantine-retired-".toList ++ rest := by
    have hsplit : retirePrefix.toList = stagePrefix.toList ++ "quarantine-retired-".toList := by
      simp [retirePrefix, stagePrefix]
    rw [← hrest, hsplit, ← String.length_toList, List.append_assoc, List.drop_left]
  have htoken := h.2
  rw [hdrop] at htoken
  -- the first character after the staging prefix is no hexadecimal digit
  have hq : ∀ c ∈ "quarantine-retired-".toList ++ rest,
      (('0' ≤ c && c ≤ '9') || ('a' ≤ c && c ≤ 'f')) = true := by
    intro c hc
    have hall := (Bool.and_eq_true_iff.mp htoken).2
    rw [String.toList_ofList] at hall
    exact List.all_eq_true.mp hall c hc
  have := hq 'q' (by simp)
  revert this
  decide

theorem writerStage_of_token {token : String} (h : isStageToken token = true) :
    isWriterStage (stagePrefix ++ token) = true := by
  have hdrop : (stagePrefix ++ token).toList.drop stagePrefix.length = token.toList := by
    rw [String.toList_append, ← String.length_toList]
    simp
  unfold isWriterStage
  rw [hdrop]
  simpa using h

/-- A name classified as a batch id is that segment's name. -/
theorem batchIdOfName_ok {name batchId : String} (h : batchIdOfName name = .ok batchId) :
    name = segmentName batchId ∧ matchesBatchId batchId = true := by
  unfold batchIdOfName at h
  split at h
  · rename_i hsuffix
    dsimp only at h
    split at h
    · rename_i hmatch
      obtain rfl := Except.ok.inj h
      refine ⟨?_, hmatch⟩
      obtain ⟨stem, hstem⟩ := hsuffix
      apply String.toList_inj.mp
      rw [segmentName_toList, ← hstem]
      have hlen : name.length - ".jsonl".length = stem.length := by
        have hjsonl : ".jsonl".length = 6 := by decide
        rw [← String.length_toList, ← hstem, hjsonl]
        simp
      rw [hlen]
      simp
    · cases h
  · cases h

end Milhouse
