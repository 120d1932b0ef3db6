import Milhouse.Alerts.Pipeline

/-!
# Milhouse — batch ids of an accepted configuration

The configuration bounds every identifier by 64 characters and the segment grammar bounds a batch id
by 128, of which the hyphen and the digest take 25. A collector's or a rule's id leaves room; the
source id of an intent joins two of them and may not.

* **`matchesBatchId_batchIdOf`** — a batch id is well formed exactly where its source id has at most
  103 characters;
* **`batchIdOf_injective`** — at one instant, different sources or records have different batch ids.
-/

namespace Milhouse

/-! ## Identifiers of a configuration -/

/-- `[a-z0-9_-]`. -/
def isIdentifierChar (c : Char) : Bool :=
  ('a' ≤ c && c ≤ 'z') || ('0' ≤ c && c ≤ '9') || c = '_' || c = '-'

/-- `[a-z][a-z0-9_-]*`. -/
def identifierText (text : String) : Bool :=
  match text.toList with
  | [] => false
  | c :: cs => ('a' ≤ c && c ≤ 'z') && cs.all isIdentifierChar

/-- `_ID_PATTERN`, `[a-z][a-z0-9_-]{0,63}`. -/
def matchesIdentifier (text : String) : Bool := identifierText text && text.length ≤ 64

/-- The ids of a configuration that the models accept: each of the form of `Identifier`, and no two
of one kind equal. -/
structure AcceptedConfig where
  collectors : List String
  rules : List CanaryStateAlertRule
  channels : List NotificationChannel
  collectors_valid : ∀ id ∈ collectors, matchesIdentifier id = true
  rules_valid : ∀ rule ∈ rules, matchesIdentifier rule.id = true
  channels_valid : ∀ channel ∈ channels, matchesIdentifier channel.id = true
  collectors_unique : collectors.Nodup
  rules_unique : (rules.map CanaryStateAlertRule.id).Nodup
  channels_unique : (channels.map NotificationChannel.id).Nodup
  rules_bound : ∀ rule ∈ rules, rule.collector ∈ collectors

/-- A channel that applies to alerts: every alert record is `internal`. -/
def NotificationChannel.notifies (channel : NotificationChannel) : Bool :=
  channel.enabled && channel.allowedClassifications.contains .internal

/-- The source ids that the collector, alert and intent stages build segments from. -/
inductive AcceptedConfig.Source (config : AcceptedConfig) : String → Prop
  | collector (id : String) (h : id ∈ config.collectors) : Source config id
  | rule (rule : CanaryStateAlertRule) (h : rule ∈ config.rules) : Source config rule.id
  | intent (rule : CanaryStateAlertRule) (channel : NotificationChannel) (hrule : rule ∈ config.rules)
      (hchannel : channel ∈ config.channels) (hnotifies : channel.notifies = true) :
      Source config (intentSourceId rule.id channel.id)

/-! ## The form of a batch id -/

section Form

variable {sha256Hex : String → String} {source stampText : String} {recordIds : List RecordId}

theorem matchesIdentifier_iff {text : String} :
    matchesIdentifier text = true ↔ identifierText text = true ∧ text.length ≤ 64 := by
  simp [matchesIdentifier]

theorem isAlnum_of_lower {c : Char} (h : ('a' ≤ c && c ≤ 'z') = true) : isAlnum c = true := by
  unfold isAlnum
  rw [h]
  simp

/-- The characters of an identifier are characters of a batch id. -/
theorem batchIdChar_of_identifier {c : Char} (h : isIdentifierChar c = true) :
    (isAlnum c || c = '.' || c = '_' || c = '-') = true := by
  unfold isIdentifierChar at h
  unfold isAlnum
  simp only [Bool.or_eq_true, Bool.and_eq_true, decide_eq_true_eq] at h ⊢
  tauto

theorem identifierText_intentSourceId {ruleId channelId : String}
    (hrule : identifierText ruleId = true) (hchannel : identifierText channelId = true) :
    identifierText (intentSourceId ruleId channelId) = true := by
  unfold identifierText at hrule hchannel ⊢
  have hlist : (intentSourceId ruleId channelId).toList =
      ruleId.toList ++ '-' :: channelId.toList := by simp [intentSourceId]
  rw [hlist]
  cases hr : ruleId.toList with
  | nil => simp [hr] at hrule
  | cons c cs =>
      cases hc : channelId.toList with
      | nil => simp [hc] at hchannel
      | cons d ds =>
          rw [hr] at hrule
          rw [hc] at hchannel
          simp only [Bool.and_eq_true] at hrule hchannel
          have hd : isIdentifierChar d = true := by
            unfold isIdentifierChar
            simp [hchannel.1]
          have hhyphen : isIdentifierChar '-' = true := by decide
          simp only [List.cons_append, List.all_append, List.all_cons, hrule.1, hrule.2, hd,
            hhyphen, hchannel.2, Bool.and_self]

/-- The digest part is 24 characters of a batch id. -/
theorem batchSuffix_form (hsha : matchesSha256 (sha256Hex (batchMaterial stampText recordIds)) = true) :
    (batchSuffix sha256Hex stampText recordIds).toList.length = 24 ∧
      (batchSuffix sha256Hex stampText recordIds).toList.all
        (fun c => isAlnum c || c = '.' || c = '_' || c = '-') = true := by
  unfold matchesSha256 at hsha
  simp only [Bool.and_eq_true, decide_eq_true_eq] at hsha
  rw [batchSuffix, String.toList_ofList]
  refine ⟨?_, ?_⟩
  · rw [List.length_take, String.length_toList, hsha.1]
    rfl
  · rw [List.all_eq_true]
    intro c hc
    have hdigit := List.all_eq_true.mp hsha.2 c (List.mem_of_mem_take hc)
    apply batchIdChar_of_identifier
    unfold isIdentifierChar
    simp only [Bool.or_eq_true, Bool.and_eq_true, decide_eq_true_eq] at hdigit ⊢
    rcases hdigit with hdigit | ⟨ha, hf⟩
    · exact Or.inl (Or.inl (Or.inr hdigit))
    · exact Or.inl (Or.inl (Or.inl ⟨ha, Char.le_trans hf (by decide)⟩))

/-- **A batch id is well formed exactly where its source id leaves room for the digest.** -/
theorem matchesBatchId_batchIdOf (hsource : identifierText source = true)
    (hsha : matchesSha256 (sha256Hex (batchMaterial stampText recordIds)) = true) :
    matchesBatchId (batchIdOf sha256Hex source stampText recordIds) = true ↔ source.length ≤ 103 := by
  obtain ⟨hlength, hchars⟩ := batchSuffix_form hsha
  have hlist : (batchIdOf sha256Hex source stampText recordIds).toList =
      source.toList ++ '-' :: (batchSuffix sha256Hex stampText recordIds).toList := by
    simp [batchIdOf]
  unfold identifierText at hsource
  unfold matchesBatchId matchesId
  rw [hlist, ← String.length_toList]
  cases hs : source.toList with
  | nil => simp [hs] at hsource
  | cons c cs =>
      rw [hs] at hsource
      simp only [Bool.and_eq_true] at hsource
      have hhead : isAlnum c = true := isAlnum_of_lower (by simpa using hsource.1)
      have hrest : cs.all (fun x => isAlnum x || x = '.' || x = '_' || x = '-') = true :=
        List.all_eq_true.mpr fun x hx =>
          batchIdChar_of_identifier (List.all_eq_true.mp hsource.2 x hx)
      simp only [List.cons_append, List.length_append, List.length_cons, hlength, hhead,
        List.all_append, List.all_cons, hrest, hchars, Bool.true_and, Bool.and_eq_true,
        decide_eq_true_eq]
      constructor
      · intro h
        omega
      · intro h
        exact ⟨by omega, by decide⟩

end Form

/-! ## Different segments have different batch ids -/

section Distinct

variable {sha256Hex : String → String} {stampText : String} {ids ids' : List RecordId}

theorem recordId_length (id : RecordId) : id.val.toList.length = 55 := by
  have h := id.property
  unfold matchesRecordId at h
  simp only [Bool.and_eq_true, decide_eq_true_eq] at h
  rw [String.length_toList]
  exact h.1.1.2

/-- The lines after the first one. -/
theorem batchMaterial_toList (stampText : String) (ids : List RecordId) :
    (batchMaterial stampText ids).toList =
      stampText.toList ++ ids.flatMap fun id => '\n' :: id.val.toList := by
  rw [batchMaterial, String.toList_intercalate]
  induction ids generalizing stampText with
  | nil => simp
  | cons id rest ih =>
      have hrest := ih id.val
      simp only [List.map_cons] at hrest ⊢
      rw [List.intercalate_cons_cons, hrest]
      simp

/-- Record ids have one length, so the material shows them all. -/
theorem batchMaterial_injective (h : batchMaterial stampText ids = batchMaterial stampText ids') :
    ids = ids' := by
  have hlist := congrArg String.toList h
  rw [batchMaterial_toList, batchMaterial_toList] at hlist
  have hlines := List.append_cancel_left hlist
  clear h hlist
  induction ids generalizing ids' with
  | nil =>
      cases ids' with
      | nil => rfl
      | cons id' rest' => simp at hlines
  | cons id rest ih =>
      cases ids' with
      | nil => simp at hlines
      | cons id' rest' =>
          simp only [List.flatMap_cons, List.cons_append, List.cons.injEq, true_and] at hlines
          have hsame : id.val.toList.length = id'.val.toList.length := by
            rw [recordId_length, recordId_length]
          obtain ⟨hhead, htail⟩ := List.append_inj hlines hsame
          rw [Subtype.ext (String.toList_inj.mp hhead), ih htail]

/-- **At one instant different sources or records have different batch ids**, where their materials
do not collide. -/
theorem batchIdOf_injective {source source' : String}
    (hsha : matchesSha256 (sha256Hex (batchMaterial stampText ids)) = true)
    (hsha' : matchesSha256 (sha256Hex (batchMaterial stampText ids')) = true)
    (hcollision : batchSuffix sha256Hex stampText ids = batchSuffix sha256Hex stampText ids' →
      batchMaterial stampText ids = batchMaterial stampText ids')
    (h : batchIdOf sha256Hex source stampText ids = batchIdOf sha256Hex source' stampText ids') :
    source = source' ∧ ids = ids' := by
  have hlist := congrArg String.toList h
  simp only [batchIdOf, String.toList_append] at hlist
  have hlength : (batchSuffix sha256Hex stampText ids).toList.length =
      (batchSuffix sha256Hex stampText ids').toList.length := by
    rw [(batchSuffix_form hsha).1, (batchSuffix_form hsha').1]
  obtain ⟨hsource, hsuffix⟩ := List.append_inj' hlist hlength
  refine ⟨String.toList_inj.mp (List.append_cancel_right hsource), ?_⟩
  exact batchMaterial_injective (hcollision (String.toList_inj.mp hsuffix))

end Distinct

/-! ## Accepted configurations -/

/-- What every source of a configuration owes: well-formed batch ids, and at one instant a batch id
of its own for each pair of source and records. Record ids are taken to tell records apart, as are
the digests of the two materials. -/
structure AcceptedConfig.Commits (config : AcceptedConfig) (sha256Hex : String → String) : Prop where
  wellFormed : ∀ source stampText recordIds, config.Source source →
    matchesBatchId (batchIdOf sha256Hex source stampText recordIds) = true
  distinct : ∀ (source source' stampText : String) (records records' : List RecordEnvelope),
    config.Source source → config.Source source' →
    (∀ a ∈ records, ∀ b ∈ records', a.recordId = b.recordId → a = b) →
    (batchSuffix sha256Hex stampText (records.map RecordEnvelope.recordId) =
        batchSuffix sha256Hex stampText (records'.map RecordEnvelope.recordId) →
      batchMaterial stampText (records.map RecordEnvelope.recordId) =
        batchMaterial stampText (records'.map RecordEnvelope.recordId)) →
    (source, records) ≠ (source', records') →
    batchIdOf sha256Hex source stampText (records.map RecordEnvelope.recordId) ≠
      batchIdOf sha256Hex source' stampText (records'.map RecordEnvelope.recordId)

section Accepted

variable {config : AcceptedConfig} {sha256Hex : String → String}

/-- Lists with the same record ids are equal where ids tell records apart. -/
theorem records_eq_of_ids {records records' : List RecordEnvelope}
    (hids : ∀ a ∈ records, ∀ b ∈ records', a.recordId = b.recordId → a = b)
    (h : records.map RecordEnvelope.recordId = records'.map RecordEnvelope.recordId) :
    records = records' := by
  induction records generalizing records' with
  | nil => exact (List.map_eq_nil_iff.mp h.symm).symm
  | cons a rest ih =>
      cases records' with
      | nil => simp at h
      | cons b rest' =>
          simp only [List.map_cons, List.cons.injEq] at h
          rw [hids a (by simp) b (by simp) h.1, ih (fun x hx y hy =>
            hids x (List.mem_cons_of_mem _ hx) y (List.mem_cons_of_mem _ hy)) h.2]

theorem length_intentSourceId (ruleId channelId : String) :
    (intentSourceId ruleId channelId).length = ruleId.length + 1 + channelId.length := by
  rw [intentSourceId, String.length_append, String.length_append]
  rfl

/-- Every source id has the characters of an identifier. -/
theorem AcceptedConfig.Source.identifierText {source : String} (h : config.Source source) :
    Milhouse.identifierText source = true := by
  cases h with
  | collector id hid => exact (matchesIdentifier_iff.mp (config.collectors_valid _ hid)).1
  | rule rule hrule => exact (matchesIdentifier_iff.mp (config.rules_valid _ hrule)).1
  | intent rule channel hrule hchannel _ =>
      exact identifierText_intentSourceId
        (matchesIdentifier_iff.mp (config.rules_valid _ hrule)).1
        (matchesIdentifier_iff.mp (config.channels_valid _ hchannel)).1

/-- **An accepted configuration can commit exactly where the ids of each rule and each channel that
notifies of it have at most 102 characters together.** -/
theorem acceptedConfig_commits_iff (hsha : ∀ text, matchesSha256 (sha256Hex text) = true) :
    config.Commits sha256Hex ↔
      ∀ rule ∈ config.rules, ∀ channel ∈ config.channels, channel.notifies = true →
        rule.id.length + channel.id.length ≤ 102 := by
  constructor
  · intro hcommits rule hrule channel hchannel hnotifies
    have hsource : config.Source (intentSourceId rule.id channel.id) :=
      .intent rule channel hrule hchannel hnotifies
    have hform := hcommits.wellFormed _ "" [] hsource
    have hlength := (matchesBatchId_batchIdOf hsource.identifierText (hsha _)).mp hform
    rw [length_intentSourceId] at hlength
    omega
  · intro hroom
    refine ⟨fun source stampText recordIds hsource => ?_, ?_⟩
    · rw [matchesBatchId_batchIdOf hsource.identifierText (hsha _)]
      cases hsource with
      | collector id hid =>
          have hbound := (matchesIdentifier_iff.mp (config.collectors_valid _ hid)).2
          omega
      | rule rule hrule =>
          have hbound := (matchesIdentifier_iff.mp (config.rules_valid _ hrule)).2
          omega
      | intent rule channel hrule hchannel hnotifies =>
          have hbound := hroom rule hrule channel hchannel hnotifies
          rw [length_intentSourceId]
          omega
    · intro source source' stampText records records' _ _ hids hcollision hne heq
      obtain ⟨hsource, hrecords⟩ := batchIdOf_injective (hsha _) (hsha _) hcollision heq
      exact hne (by rw [hsource, records_eq_of_ids hids hrecords])

end Accepted

/-! ## The longest ids -/

/-- A rule and a channel with ids of 64 characters, and the collector of the rule. -/
def longConfig : AcceptedConfig where
  collectors := ["c"]
  rules := [⟨"raaaaaaaaaaaaaaaaaaaaaaaaaaaaaaaaaaaaaaaaaaaaaaaaaaaaaaaaaaaaaaa", "c", 1, 1, 0⟩]
  channels := [⟨"naaaaaaaaaaaaaaaaaaaaaaaaaaaaaaaaaaaaaaaaaaaaaaaaaaaaaaaaaaaaaaa", "telegram", true,
    [.internal]⟩]
  collectors_valid := by decide +kernel
  rules_valid := by decide +kernel
  channels_valid := by decide +kernel
  collectors_unique := by decide +kernel
  rules_unique := by decide +kernel
  channels_unique := by decide +kernel
  rules_bound := by decide +kernel

/-- Its intents have no well-formed batch id. -/
theorem longConfig_cannot_commit : ¬ longConfig.Commits fun _ => zeroDigest := by
  intro hcommits
  have hsource : longConfig.Source _ :=
    .intent _ _ List.mem_cons_self List.mem_cons_self (by decide +kernel)
  have hform := hcommits.wellFormed _ "" [] hsource
  rw [matchesBatchId_batchIdOf hsource.identifierText (by decide +kernel)] at hform
  revert hform
  decide +kernel

/-- With short ids it can. -/
def shortConfig : AcceptedConfig where
  collectors := ["c"]
  rules := [sampleRule]
  channels := [sampleChannel]
  collectors_valid := by decide +kernel
  rules_valid := by decide +kernel
  channels_valid := by decide +kernel
  collectors_unique := by decide +kernel
  rules_unique := by decide +kernel
  channels_unique := by decide +kernel
  rules_bound := by decide +kernel

theorem shortConfig_commits : shortConfig.Commits fun _ => zeroDigest :=
  (acceptedConfig_commits_iff fun _ => by decide +kernel).mpr (by decide +kernel)

end Milhouse
