import ChatgptSystem.Core.Errors
import ChatgptSystem.Core.Json
import ChatgptSystem.Core.Text
import Mathlib.Logic.Basic
import Mathlib.Tactic.SplitIfs

/-!
# Project checks and their evidence

The data of `ProjectCheckService`: the checks of a project, the evidence that is stored for their
executions, and the view of both.

* `DetectedProjectCheck`, `StoredProjectCheckEvidence`, `StoredProjectVerification` — the
  records of `project-check-types.ts`;
* `validStore` — what a store must be to be loaded; `StoredProjectVerification.json` — its text;
* `render`, `overallStatus` — the status of each check against an observation of the repository,
  and of all of them;
* `overallStatus_eq_pass` — a view passes only on fresh passing evidence for each check.
-/

/-- The service: the configured time limit of a command and the hash of its output. -/
structure ProjectCheckService where
  commandTimeoutMs : ℕ
  sha256 : String → String

namespace ProjectCheckService

inductive ProjectCheckStatus where
  | PASS
  | FAIL
  | NOT_RUN
  | STALE
  | UNAVAILABLE
  deriving DecidableEq, Repr

inductive ProjectCheckKind where
  | check
  | typecheck
  | lint
  | test
  | build
  deriving DecidableEq, Repr

inductive ProjectCheckBaseStatus where
  | PASS
  | FAIL
  | UNAVAILABLE
  deriving DecidableEq, Repr

inductive ProjectCheckExecutionLane where
  | projectSandbox
  | adminHost
  deriving DecidableEq, Repr

def ProjectCheckStatus.text : ProjectCheckStatus → String
  | .PASS => "PASS"
  | .FAIL => "FAIL"
  | .NOT_RUN => "NOT_RUN"
  | .STALE => "STALE"
  | .UNAVAILABLE => "UNAVAILABLE"

def ProjectCheckBaseStatus.status : ProjectCheckBaseStatus → ProjectCheckStatus
  | .PASS => .PASS
  | .FAIL => .FAIL
  | .UNAVAILABLE => .UNAVAILABLE

structure DetectedProjectCheck where
  checkId : String
  kind : ProjectCheckKind
  command : String
  args : List String
  cwd : String
  source : String
  execution : ProjectCheckExecutionLane
  deriving DecidableEq, Repr

structure StoredProjectCheckEvidence where
  checkId : String
  kind : ProjectCheckKind
  command : String
  args : List String
  cwd : String
  source : String
  execution : Option ProjectCheckExecutionLane
  baseStatus : ProjectCheckBaseStatus
  startedAt : String
  finishedAt : String
  durationMs : ℤ
  exitCode : Option ℤ
  head : String
  workingTreeDigest : String
  stdoutSha256 : String
  stderrSha256 : String
  stdoutBytes : ℤ
  stderrBytes : ℤ
  stateChangedDuringRun : Bool
  deriving DecidableEq, Repr

/-- The store of a project. The evidence is an object: a list of members in their order. -/
structure StoredProjectVerification where
  version : ℤ
  projectFingerprint : String
  repositoryRoot : String
  updatedAt : String
  evidence : List (String × StoredProjectCheckEvidence)
  deriving DecidableEq, Repr

structure RepositoryStateObservation where
  repositoryRoot : String
  projectFingerprint : String
  head : String
  workingTreeDigest : String
  deriving DecidableEq, Repr

structure Freshness where
  headMatches : Bool
  workingTreeMatches : Bool
  deriving DecidableEq, Repr

structure ProjectCheckViewItem where
  detected : DetectedProjectCheck
  status : ProjectCheckStatus
  evidence : Option StoredProjectCheckEvidence
  freshness : Option Freshness
  deriving DecidableEq, Repr

inductive Operation where
  | detect
  | run
  | report
  deriving DecidableEq, Repr

structure ProjectCheckView where
  operation : Operation
  repositoryRoot : String
  required : Bool
  overallStatus : ProjectCheckStatus
  observedHead : String
  observedWorkingTreeDigest : String
  checks : List ProjectCheckViewItem
  deriving DecidableEq, Repr

/-! ## The store -/

def storeVersion : ℤ := 1

def maxStoreBytes : ℕ := 1024 * 1024

def maxChecks : ℕ := 32

/-- `evidence[checkId]`. -/
def evidenceOf (checkId : String) (evidence : List (String × StoredProjectCheckEvidence)) :
    Option StoredProjectCheckEvidence :=
  (evidence.find? fun entry => entry.1 = checkId).map Prod.snd

/-- `{ ...evidence, [checkId]: stored }`: a member that exists keeps its place. -/
def withEvidence (checkId : String) (stored : StoredProjectCheckEvidence) :
    List (String × StoredProjectCheckEvidence) → List (String × StoredProjectCheckEvidence)
  | [] => [(checkId, stored)]
  | member :: members =>
    if member.1 = checkId then (checkId, stored) :: members
    else member :: withEvidence checkId stored members

theorem evidenceOf_withEvidence (id checkId : String) (stored : StoredProjectCheckEvidence)
    (evidence : List (String × StoredProjectCheckEvidence)) :
    evidenceOf id (withEvidence checkId stored evidence) =
      if id = checkId then some stored else evidenceOf id evidence := by
  unfold evidenceOf
  induction evidence with
  | nil => by_cases h : id = checkId <;> simp [withEvidence, h, eq_comm (a := checkId)]
  | cons member members ih =>
    by_cases hmember : member.1 = checkId
    · by_cases hid : id = checkId <;>
        simp [withEvidence, hmember, hid, eq_comm (a := checkId)]
    · by_cases hid : member.1 = id
      · obtain rfl := hid
        simp [withEvidence, hmember]
      · simp [withEvidence, hmember, hid, ih]

/-- `SHA256`: `/^[a-f0-9]{64}$/`. -/
def isSha256 (text : String) : Bool := Text.matchesHex 64 64 false text.toList

/-- `GIT_HASH`: `/^[a-f0-9]{40,64}$/i`. -/
def isGitHash (text : String) : Bool := Text.matchesHex 40 64 true text.toList

def validEvidence (evidence : StoredProjectCheckEvidence) : Bool :=
  0 ≤ evidence.durationMs && isGitHash evidence.head && isSha256 evidence.workingTreeDigest &&
    isSha256 evidence.stdoutSha256 && isSha256 evidence.stderrSha256 &&
    0 ≤ evidence.stdoutBytes && 0 ≤ evidence.stderrBytes

/-- `validStore`, of a value that has the fields of a store. -/
def validStore (store : StoredProjectVerification) (observation : RepositoryStateObservation) :
    Bool :=
  store.version = storeVersion &&
    store.projectFingerprint = observation.projectFingerprint &&
    store.repositoryRoot = observation.repositoryRoot &&
    store.evidence.length ≤ maxChecks &&
    store.evidence.all fun entry => entry.1 = entry.2.checkId && validEvidence entry.2

/-! ## The text of a store -/

def ProjectCheckKind.text : ProjectCheckKind → String
  | .check => "check"
  | .typecheck => "typecheck"
  | .lint => "lint"
  | .test => "test"
  | .build => "build"

def ProjectCheckExecutionLane.text : ProjectCheckExecutionLane → String
  | .projectSandbox => "project-sandbox"
  | .adminHost => "admin-host"

def StoredProjectCheckEvidence.json (evidence : StoredProjectCheckEvidence) : Json :=
  .object <|
    [("checkId", .string evidence.checkId), ("kind", .string evidence.kind.text),
      ("command", .string evidence.command), ("args", .array (evidence.args.map .string)),
      ("cwd", .string evidence.cwd), ("source", .string evidence.source)] ++
    (evidence.execution.toList.map fun lane => ("execution", Json.string lane.text)) ++
    [("baseStatus", .string evidence.baseStatus.status.text),
      ("startedAt", .string evidence.startedAt), ("finishedAt", .string evidence.finishedAt),
      ("durationMs", .number evidence.durationMs),
      ("exitCode", match evidence.exitCode with
        | some code => .number code
        | none => .null),
      ("head", .string evidence.head), ("workingTreeDigest", .string evidence.workingTreeDigest),
      ("stdoutSha256", .string evidence.stdoutSha256),
      ("stderrSha256", .string evidence.stderrSha256),
      ("stdoutBytes", .number evidence.stdoutBytes),
      ("stderrBytes", .number evidence.stderrBytes),
      ("stateChangedDuringRun", .bool evidence.stateChangedDuringRun)]

def StoredProjectVerification.json (store : StoredProjectVerification) : Json :=
  .object
    [("version", .number store.version),
      ("projectFingerprint", .string store.projectFingerprint),
      ("repositoryRoot", .string store.repositoryRoot), ("updatedAt", .string store.updatedAt),
      ("evidence", .object (store.evidence.map fun entry => (entry.1, entry.2.json)))]

/-! ## The view -/

def overallStatus (checks : List ProjectCheckViewItem) : ProjectCheckStatus :=
  let statuses := checks.map (·.status)
  if checks.isEmpty then .UNAVAILABLE
  else if statuses.contains .STALE then .STALE
  else if statuses.contains .FAIL then .FAIL
  else if statuses.contains .UNAVAILABLE then .UNAVAILABLE
  else if statuses.contains .NOT_RUN then .NOT_RUN
  else .PASS

def renderItem (observation : RepositoryStateObservation)
    (store : Option StoredProjectVerification) (item : DetectedProjectCheck) :
    ProjectCheckViewItem :=
  match store.bind fun store => evidenceOf item.checkId store.evidence with
  | none => { detected := item, status := .NOT_RUN, evidence := none, freshness := none }
  | some evidence =>
    let headMatches := evidence.head = observation.head
    let workingTreeMatches := evidence.workingTreeDigest = observation.workingTreeDigest
    { detected := item
      status :=
        if evidence.stateChangedDuringRun || !headMatches || !workingTreeMatches then .STALE
        else evidence.baseStatus.status
      evidence := some evidence
      freshness := some { headMatches, workingTreeMatches } }

def render (operation : Operation) (observation : RepositoryStateObservation)
    (detected : List DetectedProjectCheck) (store : Option StoredProjectVerification) :
    ProjectCheckView :=
  let checks := detected.map (renderItem observation store)
  { operation
    repositoryRoot := observation.repositoryRoot
    required := !checks.isEmpty
    overallStatus := overallStatus checks
    observedHead := observation.head
    observedWorkingTreeDigest := observation.workingTreeDigest
    checks }

theorem overallStatus_eq_pass (checks : List ProjectCheckViewItem) :
    overallStatus checks = .PASS ↔ checks ≠ [] ∧ ∀ item ∈ checks, item.status = .PASS := by
  unfold overallStatus
  constructor
  · intro h
    refine ⟨fun hnil => by simp [hnil] at h, fun item hitem => ?_⟩
    -- every other status would have been found before the last branch
    have hmem : item.status ∈ checks.map (·.status) := List.mem_map_of_mem hitem
    simp only [List.contains_iff_mem] at h
    cases hstatus : item.status with
    | PASS => rfl
    | _ =>
      rw [hstatus] at hmem
      simp only [hmem, if_true] at h
      split_ifs at h
  · rintro ⟨hne, hall⟩
    have hnot : ∀ status ≠ ProjectCheckStatus.PASS, status ∉ checks.map (·.status) := by
      intro status hs hmem
      obtain ⟨item, hitem, rfl⟩ := List.mem_map.mp hmem
      exact hs (hall item hitem)
    simp [hne, hnot _]

theorem renderItem_pass (observation : RepositoryStateObservation)
    (store : Option StoredProjectVerification) (item : DetectedProjectCheck) :
    (renderItem observation store item).status = .PASS ↔
      ∃ record evidence, store = some record ∧
        evidenceOf item.checkId record.evidence = some evidence ∧
        evidence.baseStatus = .PASS ∧ evidence.head = observation.head ∧
        evidence.workingTreeDigest = observation.workingTreeDigest ∧
        evidence.stateChangedDuringRun = false := by
  unfold renderItem
  split
  next hnone =>
    refine iff_of_false (by simp) ?_
    rintro ⟨record, evidence, rfl, hevidence, -⟩
    rw [Option.bind_some, hevidence] at hnone
    cases hnone
  next evidence hsome =>
    obtain ⟨record, rfl, hevidence⟩ := Option.bind_eq_some_iff.mp hsome
    have hstatus : evidence.baseStatus.status = .PASS ↔ evidence.baseStatus = .PASS := by
      cases evidence.baseStatus <;> simp [ProjectCheckBaseStatus.status]
    simp only [Bool.or_eq_true, Bool.not_eq_true', decide_eq_false_iff_not]
    constructor
    · intro h
      split at h
      · cases h
      next hfresh =>
        simp only [not_or, not_not, Bool.not_eq_true] at hfresh
        exact ⟨record, evidence, rfl, hevidence, hstatus.mp h, hfresh.1.2, hfresh.2, hfresh.1.1⟩
    · rintro ⟨_, found, ⟨rfl⟩, hfound, hpass, hhead, htree, hstill⟩
      obtain rfl : evidence = found := Option.some.inj (hevidence.symm.trans hfound)
      simp [hhead, htree, hstill, hstatus.mpr hpass]

/-! ## An example project -/

def lintCheck : DetectedProjectCheck where
  checkId := "package-script:lint"
  kind := .lint
  command := "npm"
  args := ["run", "lint"]
  cwd := "."
  source := "package.json#scripts.lint"
  execution := .projectSandbox

def testCheck : DetectedProjectCheck where
  checkId := "package-script:test"
  kind := .test
  command := "npm"
  args := ["run", "test"]
  cwd := "."
  source := "package.json#scripts.test"
  execution := .projectSandbox

def hexText (n : ℕ) : String := String.ofList (List.replicate n 'a')

def observedState : RepositoryStateObservation where
  repositoryRoot := "/r"
  projectFingerprint := "p"
  head := hexText 40
  workingTreeDigest := hexText 64

def evidenceFor (item : DetectedProjectCheck) (baseStatus : ProjectCheckBaseStatus)
    (exitCode : ℤ) : StoredProjectCheckEvidence where
  checkId := item.checkId
  kind := item.kind
  command := item.command
  args := item.args
  cwd := item.cwd
  source := item.source
  execution := some item.execution
  baseStatus := baseStatus
  startedAt := "t"
  finishedAt := "t"
  durationMs := 0
  exitCode := some exitCode
  head := observedState.head
  workingTreeDigest := observedState.workingTreeDigest
  stdoutSha256 := hexText 64
  stderrSha256 := hexText 64
  stdoutBytes := 0
  stderrBytes := 0
  stateChangedDuringRun := false

end ProjectCheckService
