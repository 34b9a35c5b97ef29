import ChatgptSystem.Foundations.RelyGuarantee
import ChatgptSystem.Project.ProjectCheck

/-!
# Running project checks

`ProjectCheckService.run` as a program of the operations it awaits: it loads the store of a project,
executes the requested checks one by one, and persists its store with the new evidence after each.

* `CheckOp` — the operations; `Disk` — the stores and their temporary files, with a history of the
  loads and of the executions that were persisted;
* `CheckOp.apply` — what an operation does, by a `Choice` of the environment: the repository, the
  commands and the clock answer anything, and every file operation may fail;
* `loadStore`, `persistStore`, `run` — the program.
-/

open Interleaving

namespace ProjectCheckService

/-- What `JSON.parse` makes of the text of a store file. -/
inductive ParsedStore where
  | invalidJson
  /-- A value without the fields of a store. -/
  | other
  | store (record : StoredProjectVerification)
  deriving DecidableEq

structure StoreFile where
  byteLength : ℕ
  parsed : ParsedStore
  deriving DecidableEq

def StoreFile.ofStore (store : StoredProjectVerification) : StoreFile :=
  ⟨store.json.byteLength, .store store⟩

def StoreFile.evidence (file : StoreFile) (checkId : String) :
    Option StoredProjectCheckEvidence :=
  match file.parsed with
  | .store record => evidenceOf checkId record.evidence
  | _ => none

/-- The runner of a check: the one of the project, or the one built for the host. -/
inductive Executor where
  | projectExec
  | hostExecutor (repositoryRoot : String)
  deriving DecidableEq

structure ProjectCheckCommandResult where
  exitCode : Option ℤ
  stdout : String
  stderr : String

/-- The awaited operations. The files of a project lie in a directory named by its
fingerprint; a temporary file in it is named by a UUID. -/
inductive CheckOp where
  | observeRepositoryState (cwdInput : String)
  | detectChecks (repositoryRoot : String)
  | execute (executor : Executor) (command : String) (args : List String) (cwd : String)
      (timeoutMs : ℕ)
  | isoDate
  | dateNow
  | randomUUID
  | readStore (fingerprint : String)
  | mkdir (fingerprint : String)
  /-- `executed` is ghost: the check whose execution the file is going to persist. -/
  | openWx (fingerprint uuid executed : String)
  | writeFile (fingerprint uuid : String) (content : StoreFile)
  | sync (fingerprint uuid : String)
  | close (fingerprint uuid : String)
  | rename (fingerprint uuid : String)
  | unlink (fingerprint uuid : String)

def CheckOp.Res : CheckOp → Type
  | .observeRepositoryState _ => Except AppError RepositoryStateObservation
  | .detectChecks _ => Except AppError (List DetectedProjectCheck)
  | .execute _ _ _ _ _ => Except AppError ProjectCheckCommandResult
  | .isoDate => String
  | .dateNow => ℤ
  | .randomUUID => String
  | .readStore _ => Except Errno StoreFile
  | _ => Except Errno Unit

abbrev CheckM (α : Type) : Type := Program CheckOp CheckOp.Res AppError α

/-! ## What the operations do -/

inductive Event (ι : Type) where
  | loaded (run : ι)
  | persisted (run : ι) (fingerprint checkId : String)
      (evidence : Option StoredProjectCheckEvidence)
  deriving DecidableEq

/-- A temporary file, with the run that opened it and the check it persists. -/
structure Temporary (ι : Type) where
  content : StoreFile
  owner : ι
  executed : String

/-- The files of all projects, and the ghost history, newest event first. -/
structure Disk (ι : Type) where
  latest : String → Option StoreFile
  temporary : String → String → Option (Temporary ι)
  history : List (Event ι)

inductive Choice where
  | done
  | fails (code : Errno)
  /-- A write fails after it has left some of the text. -/
  | torn (code : Errno) (left : StoreFile)
  | observed (answer : Except AppError RepositoryStateObservation)
  | detected (answer : Except AppError (List DetectedProjectCheck))
  | executed (answer : Except AppError ProjectCheckCommandResult)
  | text (answer : String)
  | number (answer : ℤ)

variable {ι : Type}

namespace Disk

def stored (disk : Disk ι) (fingerprint checkId : String) :
    Option StoredProjectCheckEvidence :=
  (disk.latest fingerprint).bind fun file => file.evidence checkId

def setTemporary (disk : Disk ι) (fingerprint uuid : String) (file : Option (Temporary ι)) :
    Disk ι :=
  { disk with
    temporary := fun f u =>
      if f = fingerprint ∧ u = uuid then file else disk.temporary f u }

def record (disk : Disk ι) (event : Event ι) : Disk ι :=
  { disk with history := event :: disk.history }

def replaceStore (disk : Disk ι) (run : ι) (fingerprint uuid : String) (file : Temporary ι) :
    Disk ι :=
  { latest := Function.update disk.latest fingerprint (some file.content)
    temporary := (disk.setTemporary fingerprint uuid none).temporary
    history := .persisted run fingerprint file.executed (file.content.evidence file.executed) ::
      disk.history }

end Disk

def CheckOp.apply (choice : Choice) (run : ι) : (o : CheckOp) → Disk ι → Option (o.Res × Disk ι)
  | .observeRepositoryState _, disk =>
    match choice with
    | .observed answer => some (answer, disk)
    | _ => none
  | .detectChecks _, disk =>
    match choice with
    | .detected answer => some (answer, disk)
    | _ => none
  | .execute _ _ _ _ _, disk =>
    match choice with
    | .executed answer => some (answer, disk)
    | _ => none
  | .isoDate, disk =>
    match choice with
    | .text answer => some (answer, disk)
    | _ => none
  | .dateNow, disk =>
    match choice with
    | .number answer => some (answer, disk)
    | _ => none
  | .randomUUID, disk =>
    match choice with
    | .text answer => some (answer, disk)
    | _ => none
  | .readStore fingerprint, disk =>
    match choice with
    | .done =>
      match disk.latest fingerprint with
      | none => some (.error .ENOENT, disk.record (.loaded run))
      | some file => some (.ok file, disk.record (.loaded run))
    -- a store that exists is not reported missing
    | .fails code => if code = .ENOENT then none else some (.error code, disk)
    | _ => none
  | .openWx fingerprint uuid executed, disk =>
    match choice with
    | .done =>
      match disk.temporary fingerprint uuid with
      | some _ => some (.error .EEXIST, disk)
      | none => some (.ok (), disk.setTemporary fingerprint uuid
          (some ⟨⟨0, .invalidJson⟩, run, executed⟩))
    | .fails code => some (.error code, disk)
    | _ => none
  | .writeFile fingerprint uuid content, disk =>
    match choice, disk.temporary fingerprint uuid with
    | .done, some file =>
      some (.ok (), disk.setTemporary fingerprint uuid (some { file with content }))
    | .torn code left, some file =>
      some (.error code, disk.setTemporary fingerprint uuid (some { file with content := left }))
    | .fails code, _ => some (.error code, disk)
    | _, _ => none
  | .rename fingerprint uuid, disk =>
    match choice with
    | .done =>
      match disk.temporary fingerprint uuid with
      | none => some (.error .ENOENT, disk)
      | some file => some (.ok (), disk.replaceStore run fingerprint uuid file)
    | .fails code => some (.error code, disk)
    | _ => none
  | .unlink fingerprint uuid, disk =>
    match choice with
    | .done => some (.ok (), disk.setTemporary fingerprint uuid none)
    | .fails code => some (.error code, disk)
    | _ => none
  | .mkdir _, disk | .sync _ _, disk | .close _ _, disk =>
    match choice with
    | .done => some (.ok (), disk)
    | .fails code => some (.error code, disk)
    | _ => none

def exec (run : ι) : Exec CheckOp CheckOp.Res (Disk ι) :=
  fun o disk answer disk' => ∃ choice, o.apply choice run disk = some (answer, disk')

/-! ## The program -/

def throwing {α : Type} : Except Errno α → CheckM α
  | .ok a => .pure a
  | .error code => .throw (.errno code)

/-- `new Date().toISOString()`. -/
def isoDate : CheckM String := .request .isoDate .pure

def dateNow : CheckM ℤ := .request .dateNow .pure

def randomUUID : CheckM String := .request .randomUUID .pure

def observeRepositoryState (cwdInput : String) : CheckM RepositoryStateObservation :=
  .request (.observeRepositoryState cwdInput) Program.ofExcept

def detectChecks (observation : RepositoryStateObservation) :
    CheckM (List DetectedProjectCheck) :=
  .request (.detectChecks observation.repositoryRoot) Program.ofExcept

def emptyStore (observation : RepositoryStateObservation) : StoredProjectVerification where
  version := storeVersion
  projectFingerprint := observation.projectFingerprint
  repositoryRoot := observation.repositoryRoot
  updatedAt := "1970-01-01T00:00:00.000Z"
  evidence := []

def parseStore (observation : RepositoryStateObservation) (file : StoreFile) :
    Except AppError StoredProjectVerification :=
  if file.byteLength > maxStoreBytes then
    .error (.recoveryRequired "Project verification evidence store exceeds its bounded size.")
  else match file.parsed with
    | .invalidJson =>
      .error (.recoveryRequired "Project verification evidence store contains invalid JSON.")
    | .other => .error (.recoveryRequired "Project verification evidence store is invalid.")
    | .store parsed =>
      if validStore parsed observation then .ok parsed
      else .error (.recoveryRequired "Project verification evidence store is invalid.")

theorem parseStore_ok {observation : RepositoryStateObservation} {file : StoreFile}
    {parsed : StoredProjectVerification} (h : parseStore observation file = .ok parsed) :
    file.parsed = .store parsed := by
  unfold parseStore at h
  split at h
  · cases h
  split at h
  · cases h
  · cases h
  next record hrecord =>
    split at h
    · rw [hrecord, Except.ok.inj h]
    · cases h

def loadStore (observation : RepositoryStateObservation) : CheckM StoredProjectVerification :=
  .request (.readStore observation.projectFingerprint) fun
    | .ok file => Program.ofExcept (parseStore observation file)
    | .error .ENOENT => .pure (emptyStore observation)
    | .error code => .throw (.errno code)

/-- `persistStore`, after an execution of the check `executed`. -/
def persistStore (executed : String) (observation : RepositoryStateObservation)
    (store : StoredProjectVerification) : CheckM Unit := do
  let directory := observation.projectFingerprint
  let _ ← .request (.mkdir directory) throwing
  if store.json.byteLength > maxStoreBytes then
    throw (.limit "Project verification evidence store exceeds its bounded size.")
  else
    let temporary ← randomUUID
    let _ ← .request (.openWx directory temporary executed) throwing
    let _ ← (do
        let _ ← .request (.writeFile directory temporary (.ofStore store)) throwing
        .request (.sync directory temporary) throwing : CheckM Unit).tryFinally
      (.request (.close directory temporary) throwing)
    (.request (.rename directory temporary) throwing : CheckM Unit).tryCatch fun error =>
      .request (.unlink directory temporary) fun _ => .throw error

structure RunInput where
  cwdInput : String
  checkIds : Option (List String)
  timeoutMs : Option ℕ
  /-- Whether the caller brings a `hostExecutorFactory`. -/
  hostExecutorFactory : Bool

def unavailableError (error : AppError) : Bool :=
  error.code ∈
    ["PROJECT_EXEC_DISABLED", "SANDBOX_UNAVAILABLE", "COMMAND_NOT_ALLOWED", "EXECUTABLE_NOT_FOUND"]

def failedExecutionError (error : AppError) : Bool := error.code = "COMMAND_TIMEOUT"

/-- The base status of a check whose command ended with an exit code. -/
def statusOfExit (exitCode : Option ℤ) : ProjectCheckBaseStatus :=
  if exitCode = some 0 then .PASS
  else if exitCode = some 126 ∨ exitCode = some 127 then .UNAVAILABLE
  else .FAIL

/-- The checks that a run without `checkIds` executes. -/
def implicitChecks (detected : List DetectedProjectCheck) : List DetectedProjectCheck :=
  if detected.any (·.execution = .projectSandbox) then
    detected.filter (·.execution = .projectSandbox)
  else detected

def requestedChecks (detected : List DetectedProjectCheck) (checkIds : Option (List String)) :
    Except AppError (List DetectedProjectCheck) :=
  match checkIds with
  | none => .ok (implicitChecks detected)
  | some ids => ids.mapM fun id =>
    match detected.find? (·.checkId = id) with
    | some found => .ok found
    | none => .error (.policy "Project verification requested an unknown detected check ID.")

section Service

variable (service : ProjectCheckService)

def evidence (detected : DetectedProjectCheck) (before after : RepositoryStateObservation)
    (startedAt : String) (startedMs : ℤ) (result : Option ProjectCheckCommandResult)
    (baseStatus : ProjectCheckBaseStatus) : CheckM StoredProjectCheckEvidence := do
  let stdout := (result.map (·.stdout)).getD ""
  let stderr := (result.map (·.stderr)).getD ""
  let finishedAt ← isoDate
  let finishedMs ← dateNow
  pure {
    checkId := detected.checkId, kind := detected.kind, command := detected.command
    args := detected.args, cwd := detected.cwd, source := detected.source
    execution := some detected.execution
    baseStatus, startedAt, finishedAt
    durationMs := max 0 (finishedMs - startedMs)
    exitCode := result.bind (·.exitCode)
    head := before.head, workingTreeDigest := before.workingTreeDigest
    stdoutSha256 := service.sha256 stdout, stderrSha256 := service.sha256 stderr
    stdoutBytes := stdout.utf8ByteSize, stderrBytes := stderr.utf8ByteSize
    stateChangedDuringRun :=
      before.head ≠ after.head || before.workingTreeDigest ≠ after.workingTreeDigest }

/-- The command of a check, with the base status that its end stands for. -/
def execute (input : RunInput) (initial before : RepositoryStateObservation)
    (detectedCheck : DetectedProjectCheck) :
    CheckM (Option ProjectCheckCommandResult × ProjectCheckBaseStatus) :=
  let executor := match detectedCheck.execution with
    | .adminHost => Executor.hostExecutor initial.repositoryRoot
    | .projectSandbox => Executor.projectExec
  let timeoutMs := input.timeoutMs.getD
    (if detectedCheck.command = "xcodebuild" then 600000 else service.commandTimeoutMs)
  .request (.execute executor detectedCheck.command detectedCheck.args before.repositoryRoot
      timeoutMs) fun
    | .ok result => .pure (some result, statusOfExit result.exitCode)
    | .error error =>
      if unavailableError error then .pure (none, .UNAVAILABLE)
      else if failedExecutionError error then .pure (none, .FAIL)
      else .throw error

/-- One round of the loop of `run`: execute a check and persist its evidence. -/
def runCheck (input : RunInput) (initial : RepositoryStateObservation)
    (store : StoredProjectVerification) (detectedCheck : DetectedProjectCheck) :
    CheckM StoredProjectVerification := do
  let before ← observeRepositoryState input.cwdInput
  let startedAt ← isoDate
  let startedMs ← dateNow
  let (result, baseStatus) ← service.execute input initial before detectedCheck
  let after ← observeRepositoryState input.cwdInput
  let storedEvidence ← service.evidence detectedCheck before after startedAt startedMs result
    baseStatus
  let updatedAt ← isoDate
  let store := { store with
    updatedAt
    evidence := withEvidence detectedCheck.checkId storedEvidence store.evidence }
  persistStore detectedCheck.checkId initial store
  pure store

/-- The loop of `run`. -/
def runChecks (input : RunInput) (initial : RepositoryStateObservation) :
    List DetectedProjectCheck → StoredProjectVerification → CheckM StoredProjectVerification
  | [], store => pure store
  | detectedCheck :: rest, store => do
    let store ← service.runCheck input initial store detectedCheck
    runChecks input initial rest store

/-- `run` once it knows the checks to execute. -/
def runRequested (input : RunInput) (initial : RepositoryStateObservation)
    (requested : List DetectedProjectCheck) : CheckM ProjectCheckView := do
  let store ← loadStore initial
  let store ← service.runChecks input initial requested store
  let current ← observeRepositoryState input.cwdInput
  let currentDetected ← detectChecks current
  pure (render .run current currentDetected (some store))

def run (input : RunInput) : CheckM ProjectCheckView := do
  let initial ← observeRepositoryState input.cwdInput
  let detected ← detectChecks initial
  if detected.isEmpty then pure (render .run initial detected none)
  else if input.checkIds.any fun ids => ids.length < 1 || ids.length > maxChecks then
    throw (.policy "Project verification checkIds must contain 1-32 entries when provided.")
  else
    let requested ← Program.ofExcept (requestedChecks detected input.checkIds)
    if !(requested.map (·.checkId)).Nodup then
      throw (.policy "Project verification checkIds must be unique.")
    else if requested.any (·.execution = .adminHost) && !input.hostExecutorFactory then
      throw (.authorityDenied
        "Native project verification requires an active Admin authority lease.")
    else service.runRequested input initial requested

end Service

def report (cwdInput : String) : CheckM ProjectCheckView := do
  let observation ← observeRepositoryState cwdInput
  let detected ← detectChecks observation
  let store ← loadStore observation
  pure (render .report observation detected (some store))

end ProjectCheckService
