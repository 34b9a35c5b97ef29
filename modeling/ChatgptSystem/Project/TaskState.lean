import ChatgptSystem.Core.JsonParser
import ChatgptSystem.Core.Paths
import ChatgptSystem.Core.Utf8
import ChatgptSystem.Foundations.Regex
import ChatgptSystem.Project.ProjectCheck

/-!
# Durable task records

The records of `TaskStateService` (`project/task-state-service.ts`): what a call accepts, what it
stores, and the text of a record file.

* `redacted`, `boundedText`, `boundedList`, `normalizedPaths` — what becomes of the texts of a call;
* `StoredTaskState` — the members of a record; `startRecord`, `checkpointRecord`, `terminalRecord` —
  the record that a call stores;
* `recordText`, `parseRecord` — a record file and what is read from it;
* `parseRecord_recordText` — a record is read back as it was written.
-/

open ProjectCheckService (RepositoryStateObservation)

namespace TaskState

def MAX_STATE_BYTES : ℕ := 1024 * 1024
def MAX_CHECKPOINTS : ℕ := 64
def MAX_TEXT_BYTES : ℕ := 8192
def MAX_SUMMARY_BYTES : ℕ := 4096
def MAX_ITEM_BYTES : ℕ := 2048
def MAX_EVIDENCE_BYTES : ℕ := 512
def MAX_LIST_ITEMS : ℕ := 100

/-! ## Texts -/

/-- `[A-Za-z0-9]` and some more characters. -/
def alphanumericOr (more : List Char) (c : Char) : Bool := c.isAlphanum || more.contains c

/-- `\s*`. -/
def anySpace : Regex := .many Text.isWhiteSpace 0 none

/-- `(Bearer\s+)` and at least six of `A-Za-z0-9._~+-` and the slash, with the flag `i`. -/
def bearerRule : Replacement where
  group := .seq (.ignoringCase "bearer".toList) (.many Text.isWhiteSpace 1 none)
  dropped := .many (alphanumericOr ['.', '_', '~', '+', '/', '-']) 6 none
  inserted := "[REDACTED]".toList

/-- Two words with `[_-]?` between them, with the flag `i`. -/
def joined (first second : List Char) : Regex :=
  .seq (.ignoringCase first)
    (.seq (.optional (.one fun c => c == '_' || c == '-')) (.ignoringCase second))

/-- `((?:api[_-]?key|...|cookie)\s*[:=]\s*)[^\s,;]+`, with the flag `i`. -/
def assignmentRule : Replacement where
  group := .seq
    (.oneOf
      [joined "api".toList "key".toList, joined "access".toList "token".toList,
       joined "refresh".toList "token".toList, .ignoringCase "token".toList,
       .ignoringCase "password".toList, .ignoringCase "passwd".toList,
       .ignoringCase "secret".toList, .ignoringCase "authorization".toList,
       .ignoringCase "cookie".toList])
    (.seq anySpace (.seq (.one fun c => c == ':' || c == '=') anySpace))
  dropped := .many (fun c => !(Text.isWhiteSpace c || c == ',' || c == ';')) 1 none
  inserted := "[REDACTED]".toList

def wholeRule (expression : Regex) : Replacement where
  group := .empty
  dropped := expression
  inserted := "[REDACTED]".toList

/-- `\bsk-[A-Za-z0-9_-]{12,}\b`. -/
def skRule : Replacement :=
  wholeRule (.seq .boundary (.seq (.literal "sk-".toList)
    (.seq (.many (alphanumericOr ['_', '-']) 12 none) .boundary)))

/-- `\bgh[pousr]_[A-Za-z0-9]{12,}\b`. -/
def ghRule : Replacement :=
  wholeRule (.seq .boundary (.seq (.literal "gh".toList) (.seq (.one "pousr".toList.contains)
    (.seq (.literal "_".toList) (.seq (.many (alphanumericOr []) 12 none) .boundary)))))

/-- `\bAKIA[0-9A-Z]{16}\b`. -/
def akiaRule : Replacement :=
  wholeRule (.seq .boundary (.seq (.literal "AKIA".toList)
    (.seq (.many (fun c => c.isDigit || c.isUpper) 16 (some 16)) .boundary)))

/-- `\beyJ[A-Za-z0-9_-]{8,}\.[A-Za-z0-9_-]{8,}\.[A-Za-z0-9_-]{8,}\b`. -/
def jwtRule : Replacement :=
  let part := Regex.many (alphanumericOr ['_', '-']) 8 none
  wholeRule (.seq .boundary (.seq (.literal "eyJ".toList) (.seq part (.seq (.literal ".".toList)
    (.seq part (.seq (.literal ".".toList) (.seq part .boundary)))))))

/-- The replacements of `redacted`, in their order. -/
def REDACTIONS : List Replacement := [bearerRule, assignmentRule, skRule, ghRule, akiaRule, jwtRule]

def redacted (value : String) : String :=
  String.ofList (REDACTIONS.foldl (fun text rule => rule.replaceAll text) value.toList)

def boundedText (label value : String) (maxBytes : ℕ) : Except AppError String :=
  if Text.trim value.toList = [] then .error (.policy (label ++ " must not be empty."))
  else if value.toList.contains '\x00' then
    .error (.policy (label ++ " must not contain NUL characters."))
  else if value.utf8ByteSize > maxBytes then
    .error (.limit (label ++ " exceeds its bounded size."))
  else .ok (redacted value)

def boundedList (label : String) (values : Option (List String)) (maxItems maxBytes : ℕ) :
    Except AppError (List String) :=
  let list := values.getD []
  if list.length > maxItems then .error (.limit (label ++ " exceeds its bounded item count."))
  else list.mapM fun item => boundedText label item maxBytes

/-- `toLowerCase` as far as it leads to letters of the Latin alphabet: the Kelvin sign is the one
other character whose lower case is such a letter. -/
def lowerCase (c : Char) : Char := if c = '\u212A' then 'k' else c.toLower

def looksSecretPath (basename : String) : Bool :=
  let basename := String.ofList (basename.toList.map lowerCase)
  basename = ".env" || ".env.".toList.isPrefixOf basename.toList ||
    [".npmrc", ".pypirc", "credentials", "credentials.json", "secrets.json", "id_ed25519",
      "id_rsa"].contains basename ||
    [".pem", ".key", ".p12", ".pfx"].any fun ending => ending.toList.isSuffixOf basename.toList

/-- One path of `normalizedPaths`. -/
def normalizedPath (root : AbsPath) (value : String) : Except AppError String :=
  if Text.trim value.toList = [] ∨ value.toList.contains '\x00' ∨
      value.utf8ByteSize > MAX_TEXT_BYTES then
    .error (.policy "Task-state file path is invalid.")
  else
    let candidate :=
      Paths.resolve (if Paths.isAbsolute value then [] else root) (Paths.parse value)
    if !Paths.isInside root candidate || candidate = root then
      .error (.policy "Task-state file paths must stay inside the repository.")
    else if looksSecretPath ((candidate.getLast?.map Name.text).getD "") then
      .ok "[redacted-secret-path]"
    else .ok (String.ofList (Paths.render (Paths.relative root candidate)))

def normalizedPaths (root : String) (values : Option (List String)) :
    Except AppError (List String) := do
  let list := values.getD []
  if list.length > MAX_LIST_ITEMS then
    throw (.limit "Task-state file list exceeds its bounded item count.")
  let result ← list.mapM (normalizedPath (Paths.resolve [] (Paths.parse root)))
  return result.eraseDups

/-! ## Records -/

/-- A stored record: the members of an object in their order. -/
abbrev StoredTaskState : Type := List (String × Json)

def member (record : StoredTaskState) (name : String) : Option Json :=
  (Json.object record).property? name

def status (record : StoredTaskState) : Option String := (member record "status").bind Json.text?

def checkpoints (record : StoredTaskState) : List Json :=
  ((member record "checkpoints").bind Json.items?).getD []

def revision (value : Json) : ℤ :=
  match value.property? "revision" with
  | some (.number n) => n
  | _ => 0

structure TaskCheckpointInput where
  summary : String
  findings : Option (List String)
  decisions : Option (List String)
  inspectedFiles : Option (List String)
  modifiedFiles : Option (List String)
  nextStep : Option String
  evidenceRefs : Option (List String)

def strings (values : List String) : Json := .array (values.map .string)

def optionalMember (name : String) : Option String → List (String × Json)
  | some value => [(name, .string value)]
  | none => []

/-- `boundedText` of a value that may be left out. -/
def boundedOption (label : String) (maxBytes : ℕ) : Option String → Except AppError (Option String)
  | some value => (boundedText label value maxBytes).map some
  | none => .ok none

def newRecord (observation : RepositoryStateObservation) (now taskId goal : String)
    (nextStep : Option String) : StoredTaskState :=
  [("taskId", .string taskId), ("status", .string "active"), ("revision", .number 1),
    ("goal", .string goal), ("repositoryRoot", .string observation.repositoryRoot),
    ("projectFingerprint", .string observation.projectFingerprint),
    ("baseHead", .string observation.head), ("currentHead", .string observation.head),
    ("workingTreeDigest", .string observation.workingTreeDigest)] ++
    optionalMember "nextStep" nextStep ++
    [("checkpoints", .array []), ("createdAt", .string now), ("updatedAt", .string now)]

/-- The record of `start`. -/
def startRecord (observation : RepositoryStateObservation) (now taskId goal : String)
    (nextStep : Option String) : Except AppError StoredTaskState := do
  let goal ← boundedText "Task goal" goal MAX_TEXT_BYTES
  let nextStep ← boundedOption "Task next step" MAX_SUMMARY_BYTES nextStep
  return newRecord observation now taskId goal nextStep

/-- The checkpoint of `checkpoint`. -/
def newCheckpoint (observation : RepositoryStateObservation) (now : String) (revision : ℤ)
    (input : TaskCheckpointInput) : Except AppError (Json × Option String) := do
  let summary ← boundedText "Checkpoint summary" input.summary MAX_SUMMARY_BYTES
  let findings ← boundedList "Checkpoint finding" input.findings 20 MAX_ITEM_BYTES
  let decisions ← boundedList "Checkpoint decision" input.decisions 20 MAX_ITEM_BYTES
  let inspectedFiles ← normalizedPaths observation.repositoryRoot input.inspectedFiles
  let modifiedFiles ← normalizedPaths observation.repositoryRoot input.modifiedFiles
  let nextStep ← boundedOption "Checkpoint next step" MAX_SUMMARY_BYTES input.nextStep
  let evidenceRefs ← boundedList "Checkpoint evidence reference" input.evidenceRefs 50
    MAX_EVIDENCE_BYTES
  return (.object ([("revision", .number revision), ("summary", .string summary),
    ("findings", strings findings), ("decisions", strings decisions),
    ("inspectedFiles", strings inspectedFiles), ("modifiedFiles", strings modifiedFiles)] ++
    optionalMember "nextStep" nextStep ++
    [("evidenceRefs", strings evidenceRefs), ("head", .string observation.head),
     ("workingTreeDigest", .string observation.workingTreeDigest), ("createdAt", .string now)]),
    nextStep)

/-- The members of a record that `checkpoint` sets. -/
def checkpointUpdates (observation : RepositoryStateObservation) (now : String) (revision : ℤ)
    (nextStep : Option String) (checkpoints : List Json) : StoredTaskState :=
  [("revision", .number revision), ("currentHead", .string observation.head),
    ("workingTreeDigest", .string observation.workingTreeDigest)] ++
    optionalMember "nextStep" nextStep ++
    [("checkpoints", .array checkpoints), ("updatedAt", .string now)]

/-- What `checkpoint` makes of the record it has loaded. -/
def checkpointRecord (observation : RepositoryStateObservation) (now : String)
    (input : TaskCheckpointInput) (record : StoredTaskState) : Except AppError StoredTaskState := do
  let revision := revision (.object record) + 1
  let (checkpoint, nextStep) ← newCheckpoint observation now revision input
  return Json.spread record
    (checkpointUpdates observation now revision nextStep (checkpoints record ++ [checkpoint]))

/-- The members of a record that `terminal` sets. -/
def terminalUpdates (observation : RepositoryStateObservation) (now status : String) (revision : ℤ)
    (summary : String) (evidenceRefs : List String) : StoredTaskState :=
  [("status", .string status), ("revision", .number revision),
    ("currentHead", .string observation.head),
    ("workingTreeDigest", .string observation.workingTreeDigest),
    ("outcome", .object [("status", .string status), ("summary", .string summary),
      ("evidenceRefs", strings evidenceRefs), ("head", .string observation.head),
      ("workingTreeDigest", .string observation.workingTreeDigest), ("createdAt", .string now)]),
    ("updatedAt", .string now)]

/-- What `terminal` makes of the record it has loaded. -/
def terminalRecord (observation : RepositoryStateObservation) (now status summary : String)
    (evidenceRefs : Option (List String)) (record : StoredTaskState) :
    Except AppError StoredTaskState := do
  let revision := revision (.object record) + 1
  let summary ← boundedText "Task outcome summary" summary MAX_SUMMARY_BYTES
  let evidenceRefs ← boundedList "Task outcome evidence reference" evidenceRefs 50
    MAX_EVIDENCE_BYTES
  return Json.spread record (terminalUpdates observation now status revision summary evidenceRefs)

def view (record : StoredTaskState) (observation : RepositoryStateObservation) : StoredTaskState :=
  let matching (name value : String) : Bool :=
    match member record name with
    | some (.string stored) => stored = value
    | _ => false
  let headMatches := matching "currentHead" observation.head
  let workingTreeMatches := matching "workingTreeDigest" observation.workingTreeDigest
  Json.spread record [("checkpointCount", .number (checkpoints record).length),
    ("observed", .object [("head", .string observation.head),
      ("workingTreeDigest", .string observation.workingTreeDigest)]),
    ("freshness", .object [("fresh", .bool (headMatches && workingTreeMatches)),
      ("headMatches", .bool headMatches), ("workingTreeMatches", .bool workingTreeMatches)])]

/-! ## Record files -/

def isHex (c : Char) : Bool :=
  ('0' ≤ c && c ≤ '9') || ('a' ≤ c && c ≤ 'f') || ('A' ≤ c && c ≤ 'F')

/-- `TASK_ID_PATTERN`. -/
def validTaskId (taskId : String) : Bool :=
  match taskId.toList.splitOn '-' with
  | [a, b, c, d, e] =>
    a.length = 8 && a.all isHex && b.length = 4 && b.all isHex &&
      c.length = 4 && c.all isHex && c.head? = some '4' &&
      d.length = 4 && d.all isHex && d.head?.any "89abAB".toList.contains &&
      e.length = 12 && e.all isHex
  | _ => false

def recordText (record : StoredTaskState) : Bytes :=
  Text.encode ((Json.object record).stringify 0 ++ ['\n'])

def isText (record : StoredTaskState) (name : String) : Bool :=
  ((member record name).bind Json.text?).isSome

def validStoredRecord (record : StoredTaskState) (taskId fingerprint : String) : Bool :=
  (member record "taskId").bind Json.text? = some taskId &&
    (member record "projectFingerprint").bind Json.text? = some fingerprint &&
    (status record = some "active" || status record = some "completed" ||
      status record = some "failed") &&
    1 ≤ revision (.object record) &&
    isText record "goal" && isText record "repositoryRoot" && isText record "baseHead" &&
    isText record "currentHead" && isText record "workingTreeDigest" &&
    ((member record "checkpoints").bind Json.items?).isSome &&
    (checkpoints record).length ≤ MAX_CHECKPOINTS &&
    isText record "createdAt" && isText record "updatedAt"

/-- What `load` makes of the bytes of a record file. -/
def parseRecord (taskId fingerprint : String) (bytes : Bytes) : Except AppError StoredTaskState :=
  if bytes.length > MAX_STATE_BYTES then
    .error (.recoveryRequired "Durable task state record exceeds its bounded size.")
  else match Json.parse (Text.decode bytes) with
    | some (.object record) =>
      if validStoredRecord record taskId fingerprint then .ok record
      else .error (.recoveryRequired
        "Durable task state record is invalid or belongs to a different project.")
    | some _ => .error (.recoveryRequired
        "Durable task state record is invalid or belongs to a different project.")
    | none => .error (.recoveryRequired "Durable task state record contains invalid JSON.")

variable {record : StoredTaskState}

theorem parseRecord_recordText {taskId fingerprint : String}
    (hsize : (recordText record).length ≤ MAX_STATE_BYTES)
    (hvalid : validStoredRecord record taskId fingerprint = true) :
    parseRecord taskId fingerprint (recordText record) = .ok record := by
  have hparse : Json.parse (Text.decode (recordText record)) = some (.object record) := by
    rw [recordText, Text.decode_encode]
    exact Json.parse_stringify _ _ (by decide)
  rw [parseRecord, if_neg (Nat.not_lt.mpr hsize), hparse]
  exact if_pos hvalid

theorem eq_of_parseRecord {read : StoredTaskState} {taskId fingerprint : String}
    (h : parseRecord taskId fingerprint (recordText record) = .ok read) :
    read = record ∧ validStoredRecord record taskId fingerprint = true := by
  have hparse : Json.parse (Text.decode (recordText record)) = some (.object record) := by
    rw [recordText, Text.decode_encode]
    exact Json.parse_stringify _ _ (by decide)
  rw [parseRecord, hparse] at h
  split at h
  · cases h
  dsimp only at h
  split at h
  next hvalid => exact ⟨(Except.ok.inj h).symm, hvalid⟩
  next => cases h

theorem recordText_injective {record' : StoredTaskState}
    (h : recordText record = recordText record') : record = record' := by
  have htext := List.append_cancel_right (Text.encode_injective h)
  exact Json.object.inj (Json.stringify_injective 0 htext)

/-! ## Valid records -/

def textMembers : List String :=
  ["goal", "repositoryRoot", "baseHead", "currentHead", "workingTreeDigest", "createdAt", "updatedAt"]

/-- What `validStoredRecord` checks. -/
structure Valid (record : StoredTaskState) (taskId fingerprint : String) : Prop where
  taskId : (member record "taskId").bind Json.text? = some taskId
  projectFingerprint : (member record "projectFingerprint").bind Json.text? = some fingerprint
  status : status record ∈ [some "active", some "completed", some "failed"]
  revision : 1 ≤ revision (.object record)
  texts : ∀ name ∈ textMembers, isText record name = true
  checkpoints : ((member record "checkpoints").bind Json.items?).isSome = true
  bounded : (TaskState.checkpoints record).length ≤ MAX_CHECKPOINTS

theorem validStoredRecord_iff {taskId fingerprint : String} :
    validStoredRecord record taskId fingerprint = true ↔ Valid record taskId fingerprint := by
  unfold validStoredRecord
  simp only [Bool.and_eq_true, Bool.or_eq_true, decide_eq_true_eq]
  constructor
  · rintro ⟨⟨⟨⟨⟨⟨⟨⟨⟨⟨⟨⟨htaskId, hfingerprint⟩, hstatus⟩, hrevision⟩, hgoal⟩, hroot⟩, hbase⟩, hhead⟩,
      hdigest⟩, hcheckpoints⟩, hbounded⟩, hcreated⟩, hupdated⟩
    refine ⟨htaskId, hfingerprint, ?_, hrevision, ?_, hcheckpoints, hbounded⟩
    · simpa [or_assoc] using hstatus
    · simpa [textMembers] using ⟨hgoal, hroot, hbase, hhead, hdigest, hcreated, hupdated⟩
  · rintro ⟨htaskId, hfingerprint, hstatus, hrevision, htexts, hcheckpoints, hbounded⟩
    have hstatus' : (status record = some "active" ∨ status record = some "completed") ∨
        status record = some "failed" := by
      simpa [or_assoc] using hstatus
    have htext : ∀ name ∈ textMembers, isText record name = true := htexts
    simp only [textMembers, List.forall_mem_cons] at htext
    obtain ⟨hgoal, hroot, hbase, hhead, hdigest, hcreated, hupdated, -⟩ := htext
    exact ⟨⟨⟨⟨⟨⟨⟨⟨⟨⟨⟨⟨htaskId, hfingerprint⟩, hstatus'⟩, hrevision⟩, hgoal⟩, hroot⟩, hbase⟩, hhead⟩,
      hdigest⟩, hcheckpoints⟩, hbounded⟩, hcreated⟩, hupdated⟩

theorem member_spread (record updates : StoredTaskState) (name : String) :
    member (Json.spread record updates) name = (member updates name).or (member record name) := by
  induction updates generalizing record with
  | nil => rfl
  | cons update updates ih =>
    have hcons : Json.spread record (update :: updates) =
        Json.spread (Json.setMember record update) updates := rfl
    have hupdates : member (update :: updates) name =
        (member updates name).or (if name = update.1 then some update.2 else none) := by
      rw [member, member, Json.property?, Json.property?, List.reverse_cons, List.find?_append,
        Option.map_or]
      by_cases hname : name = update.1
      · rw [if_pos hname, List.find?_cons_of_pos (by simp [hname])]
        rfl
      · rw [if_neg hname, List.find?_cons_of_neg (by simp [Ne.symm hname])]
        rfl
    rw [hcons, ih, member, member, Json.property?_setMember, hupdates, Option.or_assoc]
    congr 1
    split <;> rfl

theorem revision_eq (record : StoredTaskState) : revision (.object record) =
    match member record "revision" with
    | some (.number n) => n
    | _ => 0 := rfl

theorem Valid.spread {updates : StoredTaskState} {taskId fingerprint : String}
    (h : Valid record taskId fingerprint)
    (hkept : member updates "taskId" = none ∧ member updates "projectFingerprint" = none)
    (hstatus : TaskState.status (Json.spread record updates) ∈
      [some "active", some "completed", some "failed"])
    (hrevision : 1 ≤ TaskState.revision (.object (Json.spread record updates)))
    (htexts : ∀ name ∈ textMembers, ∀ value, member updates name = some value →
      (Json.text? value).isSome = true)
    (hcheckpoints : ∀ value, member updates "checkpoints" = some value →
      ∃ items, value = .array items ∧ items.length ≤ MAX_CHECKPOINTS) :
    Valid (Json.spread record updates) taskId fingerprint where
  taskId := by
    rw [member_spread, hkept.1]
    exact h.taskId
  projectFingerprint := by
    rw [member_spread, hkept.2]
    exact h.projectFingerprint
  status := hstatus
  revision := hrevision
  texts := by
    intro name hname
    rw [isText, member_spread]
    cases hmember : member updates name with
    | none => exact h.texts name hname
    | some value => exact htexts name hname value hmember
  checkpoints := by
    rw [member_spread]
    cases hmember : member updates "checkpoints" with
    | none => exact h.checkpoints
    | some value =>
      obtain ⟨items, rfl, -⟩ := hcheckpoints value hmember
      rfl
  bounded := by
    rw [TaskState.checkpoints, member_spread]
    cases hmember : member updates "checkpoints" with
    | none => exact h.bounded
    | some value =>
      obtain ⟨items, rfl, hlength⟩ := hcheckpoints value hmember
      exact hlength

end TaskState
