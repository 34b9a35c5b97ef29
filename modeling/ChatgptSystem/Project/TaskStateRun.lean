import ChatgptSystem.Foundations.ChainLock
import ChatgptSystem.Foundations.RelyGuarantee
import ChatgptSystem.Project.TaskState

/-!
# The calls of the task state service

`TaskStateService` as programs of the operations they await. A call that changes a record holds the
lock of its path (`withPathLock` of `core/path-lock.ts`) from before it loads the record until it
has put a new file in its place.

* `TaskOp` — the operations; `Disk` — the record files, the temporary files and the locks, with a
  ghost history of the files that were put in place; `TaskOp.apply` — what an operation does;
* `load`, `persist`, `withPathLock` — the parts of the calls;
* `start`, `checkpoint`, `terminal`, `taskStatus` — the calls; `TaskCall.program`.
-/

open Interleaving
open ProjectCheckService (RepositoryStateObservation)

namespace TaskState

/-- The path of a record: `projects/<projectFingerprint>/tasks/<taskId>.json`. -/
structure RecordFile where
  projectFingerprint : String
  taskId : String
  deriving DecidableEq

/-- The awaited operations. A temporary file lies beside its record and is named by a UUID. -/
inductive TaskOp where
  | observeRepositoryState (cwdInput : String)
  | isoDate
  | randomUUID
  | canonicalizePath (file : RecordFile)
  /-- `queues.get(key)` and `queues.set(key, settled)`. -/
  | enqueue (key : String)
  | await (previous : Option ℕ)
  | settle (me : ℕ)
  | forget (key : String) (me : ℕ)
  | readFile (file : RecordFile)
  | mkdir (projectFingerprint : String)
  | openWx (file : RecordFile) (uuid : String)
  | writeFile (file : RecordFile) (uuid : String) (content : Bytes)
  | sync (file : RecordFile) (uuid : String)
  | close (file : RecordFile) (uuid : String)
  | rename (file : RecordFile) (uuid : String)
  | unlink (file : RecordFile) (uuid : String)

def TaskOp.Res : TaskOp → Type
  | .observeRepositoryState _ => Except AppError RepositoryStateObservation
  | .isoDate => String
  | .randomUUID => String
  | .canonicalizePath _ => Except Errno String
  | .enqueue _ => Option ℕ × ℕ
  | .await _ => Unit
  | .settle _ => Unit
  | .forget _ _ => Unit
  | .readFile _ => Except Errno Bytes
  | _ => Except Errno Unit

abbrev TaskM (α : Type) : Type := Program TaskOp TaskOp.Res AppError α

/-! ## What the operations do -/

structure Effect (ι : Type) where
  call : ι
  file : RecordFile
  content : Bytes

structure Disk (ι : Type) where
  files : RecordFile → Option Bytes
  temporaries : RecordFile → String → Option Bytes
  locks : ChainLock.State ι String
  /-- Ghost: the UUIDs of earlier processes, and those of this one with the calls that drew them. -/
  used : List String
  drawn : List (String × ι)
  /-- Ghost: the files at the start of the process, and those put in place since, in order. -/
  start : RecordFile → Option Bytes
  effects : List (Effect ι)

inductive Choice where
  | done
  | fails (code : Errno)
  /-- A write fails after it has left some of the content. -/
  | torn (code : Errno) (left : Bytes)
  | observed (answer : Except AppError RepositoryStateObservation)
  | text (answer : String)

variable {ι : Type}

namespace Disk

def empty : Disk ι where
  files _ := none
  temporaries _ _ := none
  locks := .empty
  used := []
  drawn := []
  start _ := none
  effects := []

def restart (disk : Disk ι) : Disk ι :=
  { disk with
    locks := .empty
    used := disk.drawn.map Prod.fst ++ disk.used
    drawn := []
    start := disk.files
    effects := [] }

def setTemporary (disk : Disk ι) (file : RecordFile) (uuid : String) (content : Option Bytes) :
    Disk ι :=
  { disk with
    temporaries := Function.update disk.temporaries file
      (Function.update (disk.temporaries file) uuid content) }

def replace (disk : Disk ι) (call : ι) (file : RecordFile) (uuid : String) (content : Bytes) :
    Disk ι :=
  { disk.setTemporary file uuid none with
    files := Function.update disk.files file (some content)
    effects := disk.effects ++ [⟨call, file, content⟩] }

end Disk

/-- One operation of a call. The canonical form of a record's path is always the same. -/
def TaskOp.apply (canonical : RecordFile → String) (choice : Choice) (call : ι) :
    (o : TaskOp) → Disk ι → Option (o.Res × Disk ι)
  | .observeRepositoryState _, disk =>
    match choice with
    | .observed answer => some (answer, disk)
    | _ => none
  | .isoDate, disk =>
    match choice with
    | .text answer => some (answer, disk)
    | _ => none
  | .randomUUID, disk =>
    match choice with
    -- no UUID is drawn twice
    | .text uuid =>
      if uuid ∈ disk.used ∨ uuid ∈ disk.drawn.map Prod.fst then none
      else some (uuid, { disk with drawn := (uuid, call) :: disk.drawn })
    | _ => none
  | .canonicalizePath file, disk =>
    match choice with
    | .done => some (.ok (canonical file), disk)
    | .fails code => some (.error code, disk)
    | _ => none
  | .enqueue key, disk =>
    some ((disk.locks.queues key, disk.locks.tickets.length),
      { disk with locks := disk.locks.enqueue call key })
  | .await previous, disk => if disk.locks.Ready previous then some ((), disk) else none
  | .settle me, disk => some ((), { disk with locks := disk.locks.settle me })
  | .forget key me, disk => some ((), { disk with locks := disk.locks.forget key me })
  | .readFile file, disk =>
    match choice with
    | .done =>
      match disk.files file with
      | none => some (.error .ENOENT, disk)
      | some bytes => some (.ok bytes, disk)
    | .fails code => if code = .ENOENT then none else some (.error code, disk)
    | _ => none
  | .openWx file uuid, disk =>
    match choice with
    | .done =>
      match disk.temporaries file uuid with
      | some _ => some (.error .EEXIST, disk)
      | none => some (.ok (), disk.setTemporary file uuid (some []))
    | .fails code => some (.error code, disk)
    | _ => none
  | .writeFile file uuid content, disk =>
    match choice with
    | .done => some (.ok (), disk.setTemporary file uuid (some content))
    | .torn code left => some (.error code, disk.setTemporary file uuid (some left))
    | .fails code => some (.error code, disk)
    | _ => none
  | .rename file uuid, disk =>
    match choice with
    | .done =>
      match disk.temporaries file uuid with
      | none => some (.error .ENOENT, disk)
      | some content => some (.ok (), disk.replace call file uuid content)
    | .fails code => some (.error code, disk)
    | _ => none
  | .unlink file uuid, disk =>
    match choice with
    | .done => some (.ok (), disk.setTemporary file uuid none)
    | .fails code => some (.error code, disk)
    | _ => none
  | .mkdir _, disk | .sync _ _, disk | .close _ _, disk =>
    match choice with
    | .done => some (.ok (), disk)
    | .fails code => some (.error code, disk)
    | _ => none

def exec (canonical : RecordFile → String) (call : ι) : Exec TaskOp TaskOp.Res (Disk ι) :=
  fun o disk answer disk' => ∃ choice, o.apply canonical choice call disk = some (answer, disk')

/-! ## The parts of the calls -/

def throwing {α : Type} : Except Errno α → TaskM α
  | .ok a => .pure a
  | .error code => .throw (.errno code)

def observeRepositoryState (cwdInput : String) : TaskM RepositoryStateObservation :=
  .request (.observeRepositoryState cwdInput) .ofExcept

/-- `new Date().toISOString()`. -/
def isoDate : TaskM String := .request .isoDate .pure

def randomUUID : TaskM String := .request .randomUUID .pure

def recordPath (observation : RepositoryStateObservation) (taskId : String) :
    Except AppError RecordFile :=
  if validTaskId taskId then .ok ⟨observation.projectFingerprint, taskId⟩
  else .error (.policy "Task state ID is invalid.")

/-- `TaskStateNotFoundError`. -/
def taskStateNotFound : AppError :=
  .other "TASK_STATE_NOT_FOUND" "The durable task state record was not found for this project."

def load (observation : RepositoryStateObservation) (taskId : String) : TaskM StoredTaskState := do
  let file ← Program.ofExcept (recordPath observation taskId)
  .request (.readFile file) fun
    | .ok bytes => .ofExcept (parseRecord taskId observation.projectFingerprint bytes)
    | .error .ENOENT => .throw taskStateNotFound
    | .error code => .throw (.errno code)

/-- The `catch` of `persist`: close the file if it is open, delete it and raise the error. -/
def discard (file : RecordFile) (uuid : String) (opened : Bool) (error : AppError) : TaskM Unit :=
  let unlink : TaskM Unit := .request (.unlink file uuid) fun _ => .throw error
  if opened then .request (.close file uuid) fun _ => unlink else unlink

/-- The `taskId` of a record, which names its file. -/
def taskIdOf (record : StoredTaskState) : String :=
  ((member record "taskId").bind Json.text?).getD ""

def persist (observation : RepositoryStateObservation) (record : StoredTaskState) : TaskM Unit := do
  let _ ← .request (.mkdir observation.projectFingerprint) throwing
  let file ← Program.ofExcept (recordPath observation (taskIdOf record))
  let serialized := recordText record
  if serialized.length > MAX_STATE_BYTES then
    throw (.limit "Durable task state record exceeds its bounded size.")
  else
    let uuid ← randomUUID
    (.request (.openWx file uuid) throwing : TaskM Unit).tryCatch (discard file uuid false)
    (do
        let _ ← .request (.writeFile file uuid serialized) throwing
        let _ ← .request (.sync file uuid) throwing
        .request (.close file uuid) throwing : TaskM Unit).tryCatch (discard file uuid true)
    (.request (.rename file uuid) throwing : TaskM Unit).tryCatch (discard file uuid false)

/-- `withPathLock`: wait for the promise of the key, run the operation, settle the own promise and
remove it from the map if it is still the last one. -/
def withPathLock {α : Type} (file : RecordFile) (operation : TaskM α) : TaskM α := do
  let key ← .request (.canonicalizePath file) throwing
  .request (.enqueue key) fun (previous, me) =>
    .request (.await previous) fun _ =>
    operation.attempt.bind fun outcome =>
    .request (.settle me) fun _ =>
    .request (.forget key me) fun _ =>
    .ofExcept outcome

/-! ## The calls -/

def start (goal cwdInput : String) (nextStep : Option String) : TaskM StoredTaskState := do
  let observation ← observeRepositoryState cwdInput
  let now ← isoDate
  let taskId ← randomUUID
  let record ← Program.ofExcept (startRecord observation now taskId goal nextStep)
  persist observation record
  pure (view record observation)

/-- The change of a record that has been loaded, and its new file. -/
def update (observation : RepositoryStateObservation)
    (change : String → Except AppError StoredTaskState) : TaskM StoredTaskState := do
  let now ← isoDate
  let updated ← Program.ofExcept (change now)
  persist observation updated
  pure (view updated observation)

def checkpoint (taskId : String) (input : TaskCheckpointInput) (cwdInput : String) :
    TaskM StoredTaskState := do
  let observation ← observeRepositoryState cwdInput
  let file ← Program.ofExcept (recordPath observation taskId)
  withPathLock file do
    let record ← load observation taskId
    if status record ≠ some "active" then
      throw (.conflict "Only an active task can accept a checkpoint.")
    else if (checkpoints record).length ≥ MAX_CHECKPOINTS then
      throw (.limit "Task checkpoint count exceeded its bounded limit.")
    else update observation fun now => checkpointRecord observation now input record

structure VerifiedObservation where
  head : String
  workingTreeDigest : String

def terminal (endStatus taskId summary : String) (evidenceRefs : Option (List String))
    (cwdInput : String) (verified : Option VerifiedObservation) : TaskM StoredTaskState := do
  let observation ← observeRepositoryState cwdInput
  if verified.any fun v => v.head ≠ observation.head ||
      v.workingTreeDigest ≠ observation.workingTreeDigest then
    throw (.conflict "Repository state changed between verification and task completion.")
  else
    let file ← Program.ofExcept (recordPath observation taskId)
    withPathLock file do
      let record ← load observation taskId
      if status record ≠ some "active" then
        throw (.conflict "Only an active task can enter a terminal state.")
      else update observation fun now =>
        terminalRecord observation now endStatus summary evidenceRefs record

def complete (taskId summary : String) (evidenceRefs : Option (List String)) (cwdInput : String)
    (verified : VerifiedObservation) : TaskM StoredTaskState :=
  terminal "completed" taskId summary evidenceRefs cwdInput (some verified)

def fail (taskId summary : String) (evidenceRefs : Option (List String)) (cwdInput : String) :
    TaskM StoredTaskState :=
  terminal "failed" taskId summary evidenceRefs cwdInput none

/-- The call `status`. -/
def taskStatus (taskId cwdInput : String) : TaskM StoredTaskState := do
  let observation ← observeRepositoryState cwdInput
  let record ← load observation taskId
  pure (view record observation)

inductive TaskCall where
  | start (goal cwdInput : String) (nextStep : Option String)
  | checkpoint (taskId : String) (input : TaskCheckpointInput) (cwdInput : String)
  | complete (taskId summary : String) (evidenceRefs : Option (List String)) (cwdInput : String)
      (verified : VerifiedObservation)
  | fail (taskId summary : String) (evidenceRefs : Option (List String)) (cwdInput : String)
  | status (taskId cwdInput : String)

def TaskCall.program : TaskCall → TaskM StoredTaskState
  | .start goal cwdInput nextStep => TaskState.start goal cwdInput nextStep
  | .checkpoint taskId input cwdInput => TaskState.checkpoint taskId input cwdInput
  | .complete taskId summary evidenceRefs cwdInput verified =>
    TaskState.complete taskId summary evidenceRefs cwdInput verified
  | .fail taskId summary evidenceRefs cwdInput =>
    TaskState.fail taskId summary evidenceRefs cwdInput
  | .status taskId cwdInput => TaskState.taskStatus taskId cwdInput

def programs (calls : ι → TaskCall) : Pool ι TaskOp TaskOp.Res AppError StoredTaskState :=
  fun i => (calls i).program

end TaskState
