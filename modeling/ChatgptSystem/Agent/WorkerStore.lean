import ChatgptSystem.Core.Errors
import ChatgptSystem.Core.Json
import ChatgptSystem.Core.Text
import ChatgptSystem.Foundations.Program

/-!
# The worker store

`WorkerStore` of `agent/worker-store.ts`: every method reads the whole file, changes what it has
read and puts a whole new file in its place.

* `WorkerStoreFile` — the records, and `file.sanitize`, which reads them from any JSON value;
* `Operation` — what a method does before it reads the file, and the change it makes;
* `spawn`, `status`, `message`, `sleep`, `finish` — the methods;
* `Disk` — the store file and the temporary files; `StoreOp.apply` — one operation on them.
-/

open Interleaving

namespace WorkerStore

/-! ## Records -/

inductive WorkerState where
  | active
  | sleeping
  | finished
  | failed
  deriving DecidableEq, Repr

inductive MessageSender where
  | prime
  | worker
  deriving DecidableEq, Repr

structure AgentMessage where
  id : String
  /-- `from`. -/
  sender : MessageSender
  text : String
  sentAt : String
  readAt : Option String
  deriving DecidableEq, Repr

structure WorkerRecord where
  id : String
  label : String
  task : String
  state : WorkerState
  aliasName : Option String
  worktreePath : Option String
  inbox : List AgentMessage
  createdAt : String
  lastSeenAt : String
  result : Option String
  deriving DecidableEq, Repr

structure WorkerRun where
  runId : String
  primeAlias : String
  sharedContext : String
  createdAt : String
  parked : Bool
  workers : List WorkerRecord
  deriving DecidableEq, Repr

structure RetiredAlias where
  aliasName : String
  runId : String
  workerId : String
  retiredAt : String
  deriving DecidableEq, Repr

structure WorkerSpawnSpec where
  task : String
  label : Option String
  aliasName : Option String
  worktreePath : Option String

structure WorkerStoreFile where
  runs : List WorkerRun
  retired : List RetiredAlias

def MAX_LABEL_CHARS : ℕ := 60
def MAX_TASK_CHARS : ℕ := 4000
def MAX_CONTEXT_CHARS : ℕ := 4000
def MAX_MESSAGE_CHARS : ℕ := 4000
def MAX_QUEUE : ℕ := 200
def MAX_RETIRED : ℕ := 200
def MAX_ALIAS_CHARS : ℕ := 128
def STORE_VERSION : ℤ := 1

structure Limits where
  maxWorkers : ℕ
  maxParkedRuns : ℕ

/-! ## Values from outside -/

/-- `new Date().toISOString()` and `randomUUID()`. -/
inductive DrawOp where
  | isoDate
  | randomUUID

/-- Computations that read the clock and draw identifiers. -/
abbrev DrawM (α : Type) : Type := Program DrawOp (fun _ => String) AppError α

def isoDate : DrawM String := .request .isoDate .pure

def shortId (letter : String) : DrawM String :=
  .request .randomUUID fun id => .pure (letter ++ "-" ++ String.ofList (Text.slice 8 id.toList))

def trim (text : String) : String := String.ofList (Text.trim text.toList)

def slice (limit : ℕ) (text : String) : String := String.ofList (Text.slice limit text.toList)

def length (text : String) : ℕ := Text.length text.toList

/-- `items.slice(-count)` for a positive count. -/
def last {α : Type} (count : ℕ) (items : List α) : List α := items.drop (items.length - count)

/-- `new Date(0).toISOString()`. -/
def EPOCH : String := "1970-01-01T00:00:00.000Z"

/-! ## Reading the file -/

def textOf (value : Json) (name : String) : Option String := (value.property? name).bind Json.text?

def validMessage (candidate : Json) : Option AgentMessage := do
  let id ← textOf candidate "id"
  guard (id ≠ "")
  let sender ← match textOf candidate "from" with
    | some "prime" => some .prime
    | some "worker" => some .worker
    | _ => none
  let text ← textOf candidate "text"
  guard (text ≠ "")
  let sentAt ← textOf candidate "sentAt"
  let readAt ← match candidate.property? "readAt" with
    | some .null => some none
    | some (.string readAt) => some (some readAt)
    | _ => none
  return { id, sender, text := slice MAX_MESSAGE_CHARS text, sentAt, readAt }

/-- A note of the old format is an unread message of the prime. -/
def messageOfNote (text : String) : DrawM AgentMessage := do
  let id ← shortId "m"
  return { id, sender := .prime, text := slice MAX_MESSAGE_CHARS text, sentAt := EPOCH,
           readAt := none }

def inboxOf (candidate : Json) : DrawM (List AgentMessage) :=
  match (candidate.property? "inbox").bind Json.items? with
  | some messages => pure (messages.filterMap validMessage)
  | none =>
    let notes := ((candidate.property? "notes").bind Json.items?).getD []
    ((notes.filterMap Json.text?).filter (· ≠ "")).mapM' messageOfNote

def stateOf (candidate : Json) : WorkerState :=
  match textOf candidate "state" with
  | some "sleeping" => .sleeping
  | some "finished" => .finished
  | some "failed" => .failed
  | _ => .active

def validWorker (candidate : Json) : DrawM (Option WorkerRecord) :=
  match textOf candidate "id", textOf candidate "task" with
  | some id, some task => do
    let inbox ← inboxOf candidate
    return some
      { id
        label := (textOf candidate "label").getD id
        task
        state := stateOf candidate
        aliasName := textOf candidate "alias"
        worktreePath := textOf candidate "worktreePath"
        inbox := last MAX_QUEUE inbox
        createdAt := (textOf candidate "createdAt").getD EPOCH
        lastSeenAt := (textOf candidate "lastSeenAt").getD EPOCH
        result := textOf candidate "result" }
  | _, _ => pure none

def validRetired (candidate : Json) : Option RetiredAlias := do
  let aliasName ← textOf candidate "alias"
  guard (aliasName ≠ "")
  let runId ← textOf candidate "runId"
  let workerId ← textOf candidate "workerId"
  return { aliasName, runId, workerId, retiredAt := (textOf candidate "retiredAt").getD EPOCH }

def runFromLegacy (candidate : Json) : DrawM (Option WorkerRun) :=
  match textOf candidate "runId", textOf candidate "primeAlias",
      (candidate.property? "workers").bind Json.items? with
  | some runId, some primeAlias, some workers => do
    let workers ← workers.mapM' validWorker
    return some
      { runId
        primeAlias
        sharedContext := (textOf candidate "sharedContext").getD ""
        createdAt := (textOf candidate "createdAt").getD EPOCH
        parked := match candidate.property? "parked" with
          | some (.bool parked) => parked
          | _ => false
        workers := workers.filterMap id }
  | _, _, _ => pure none

def runsFromLegacy (entries : List Json) : DrawM (List WorkerRun) := do
  let runs ← entries.mapM' runFromLegacy
  return runs.filterMap id

/-- What `load` makes of a parsed file. -/
def sanitize : Json → DrawM WorkerStoreFile
  -- the old format, an array of runs
  | .array entries => do
    let runs ← runsFromLegacy entries
    return { runs, retired := [] }
  | parsed => do
    let runs ← runsFromLegacy (((parsed.property? "runs").bind Json.items?).getD [])
    let retired := ((parsed.property? "retired").bind Json.items?).getD []
    return { runs, retired := last MAX_RETIRED (retired.filterMap validRetired) }

/-! ## Writing the file -/

def nullable : Option String → Json
  | none => .null
  | some text => .string text

def WorkerState.toText : WorkerState → String
  | .active => "active"
  | .sleeping => "sleeping"
  | .finished => "finished"
  | .failed => "failed"

def MessageSender.toText : MessageSender → String
  | .prime => "prime"
  | .worker => "worker"

def AgentMessage.toJson (message : AgentMessage) : Json :=
  .object
    [("id", .string message.id), ("from", .string message.sender.toText),
     ("text", .string message.text), ("sentAt", .string message.sentAt),
     ("readAt", nullable message.readAt)]

def WorkerRecord.toJson (worker : WorkerRecord) : Json :=
  .object
    [("id", .string worker.id), ("label", .string worker.label), ("task", .string worker.task),
     ("state", .string worker.state.toText), ("alias", nullable worker.aliasName),
     ("worktreePath", nullable worker.worktreePath),
     ("inbox", .array (worker.inbox.map AgentMessage.toJson)),
     ("createdAt", .string worker.createdAt), ("lastSeenAt", .string worker.lastSeenAt),
     ("result", nullable worker.result)]

def WorkerRun.toJson (run : WorkerRun) : Json :=
  .object
    [("runId", .string run.runId), ("primeAlias", .string run.primeAlias),
     ("sharedContext", .string run.sharedContext), ("createdAt", .string run.createdAt),
     ("parked", .bool run.parked), ("workers", .array (run.workers.map WorkerRecord.toJson))]

def RetiredAlias.toJson (entry : RetiredAlias) : Json :=
  .object
    [("alias", .string entry.aliasName), ("runId", .string entry.runId),
     ("workerId", .string entry.workerId), ("retiredAt", .string entry.retiredAt)]

/-- `{ version: STORE_VERSION, ...bounded }`. -/
def WorkerStoreFile.toJson (file : WorkerStoreFile) : Json :=
  .object
    [("version", .number STORE_VERSION), ("runs", .array (file.runs.map WorkerRun.toJson)),
     ("retired", .array (file.retired.map RetiredAlias.toJson))]

def WorkerStoreFile.bounded (limits : Limits) (file : WorkerStoreFile) : WorkerStoreFile :=
  { runs := last (limits.maxParkedRuns + 8) file.runs, retired := last MAX_RETIRED file.retired }

/-! ## The operations of the methods -/

/-- The text of a file: the JSON value it parses to, or a text that does not parse. -/
inductive StoreText where
  | value (value : Json)
  | invalid

inductive StoreOp where
  | draw (o : DrawOp)
  /-- The path of a new temporary file. -/
  | temporaryName
  | readFile
  | writeFile (temporary : String) (content : Json)
  | rename (temporary : String)
  | audit

def StoreOp.Res : StoreOp → Type
  | .draw _ => String
  | .temporaryName => String
  | .readFile => Except Errno StoreText
  | .writeFile _ _ => Except Errno Unit
  | .rename _ => Except Errno Unit
  | .audit => Unit

abbrev StoreM (α : Type) : Type := Program StoreOp StoreOp.Res AppError α

def draw {α : Type} (p : DrawM α) : StoreM α := p.embed .draw fun _ r => r

def unreadable : AppError := .policy "Worker deposu okunamadı."

/-- The answer of a `readFile` that finds the file as it is. -/
def answerOf : Option StoreText → Except Errno StoreText
  | some text => .ok text
  | none => .error .ENOENT

/-- What the answer to `readFile` is read as. -/
def interpret : Except Errno StoreText → DrawM WorkerStoreFile
  | .ok (.value parsed) => sanitize parsed
  | .ok .invalid => throw unreadable
  | .error .ENOENT => pure { runs := [], retired := [] }
  | .error _ => throw unreadable

def load : StoreM WorkerStoreFile := .request .readFile fun answer => draw (interpret answer)

def orThrow : Except Errno Unit → StoreM Unit
  | .ok () => pure ()
  | .error code => throw (.errno code)

def save (limits : Limits) (file : WorkerStoreFile) : StoreM Unit :=
  .request .temporaryName fun temporary =>
    .request (.writeFile temporary (file.bounded limits).toJson) fun written =>
      (orThrow written).bind fun () => .request (.rename temporary) orThrow

/-- A method: what it checks and draws before it reads the file, the change it makes to the file
with the run it returns, and whether it leaves an audit record. -/
structure Operation where
  prologue : DrawM (WorkerStoreFile → DrawM (WorkerRun × WorkerStoreFile))
  audited : Bool

def Operation.program (limits : Limits) (operation : Operation) : StoreM WorkerRun :=
  (draw operation.prologue).bind fun change =>
    load.bind fun file =>
      (draw (change file)).bind fun changed =>
        (save limits changed.2).bind fun () =>
          if operation.audited then .request .audit fun _ => .pure changed.1 else .pure changed.1

/-! ## The methods -/

def isTerminal (state : WorkerState) : Bool := state = .finished || state = .failed

def activeWorkers (run : WorkerRun) : List WorkerRecord :=
  run.workers.filter fun worker => !isTerminal worker.state && worker.state = .active

def briefFor (sharedContext task : String) : String :=
  if trim sharedContext = "" then task
  else "Bu çalışmadaki tüm worker'lar için ortak bağlam:\n" ++ sharedContext ++
    "\n\nSenin işin:\n" ++ task

/-- Put a changed item in the place of the first one that a search finds. -/
def setFirst {α : Type} (found : α → Bool) (item : α) : List α → List α
  | [] => []
  | x :: rest => if found x then item :: rest else x :: setFirst found item rest

def findRun (runs : List WorkerRun) (runId : String) : DrawM WorkerRun :=
  match runs.find? fun candidate => candidate.runId = runId with
  | some run => pure run
  | none => throw (.policy "Worker run bulunamadı.")

def findWorker (run : WorkerRun) (workerId : String) : DrawM WorkerRecord :=
  match run.workers.find? fun candidate => candidate.id = workerId with
  | some worker => pure worker
  | none => throw (.policy "Worker bulunamadı.")

def WorkerStoreFile.setRun (file : WorkerStoreFile) (run : WorkerRun) : WorkerStoreFile :=
  { file with runs := setFirst (fun candidate => candidate.runId = run.runId) run file.runs }

def WorkerRun.setWorker (run : WorkerRun) (worker : WorkerRecord) : WorkerRun :=
  { run with workers := setFirst (fun candidate => candidate.id = worker.id) worker run.workers }

/-- The workers of a new run, after those that are already in it. -/
def spawnWorkers (sharedContext now : String) :
    List WorkerSpawnSpec → List WorkerRecord → DrawM (List WorkerRecord)
  | [], workers => pure workers
  | spec :: specs, workers =>
    let task := trim spec.task
    if task = "" ∨ length task > MAX_TASK_CHARS then
      throw (.policy "Her worker'a 1-4000 karakterlik iş yaz.")
    else do
      let id ← shortId "w"
      spawnWorkers sharedContext now specs (workers ++
        [{ id
           label := slice MAX_LABEL_CHARS
             (spec.label.getD ("worker-" ++ toString (workers.length + 1)))
           task := briefFor sharedContext task
           state := .active
           aliasName := spec.aliasName
           worktreePath := spec.worktreePath
           inbox := []
           createdAt := now
           lastSeenAt := now
           result := none }])

def spawn (limits : Limits) (primeAlias sharedContext : String) (specs : List WorkerSpawnSpec) :
    Operation where
  prologue := do
    let prime := trim primeAlias
    if prime = "" ∨ length prime > MAX_ALIAS_CHARS then
      throw (.policy "Geçerli bir prime alias ver.")
    if length sharedContext > MAX_CONTEXT_CHARS then
      throw (.policy "Ortak bağlam 4.000 karakteri aşamaz.")
    if specs.length = 0 ∨ specs.length > 8 then
      throw (.policy "Bir spawn 1-8 worker içerir.")
    let now ← isoDate
    return fun file => do
      let runId ← .request .randomUUID .pure
      let workers ← spawnWorkers sharedContext now specs []
      let run : WorkerRun :=
        { runId, primeAlias := prime, sharedContext, createdAt := now, parked := false, workers }
      if (activeWorkers run).length > limits.maxWorkers then
        throw (.policy "Worker slot sınırı aşıldı.")
      return (run, { file with runs := file.runs ++ [run] })
  audited := true

def AgentMessage.markRead (now : String) (message : AgentMessage) : AgentMessage :=
  { message with readAt := some (message.readAt.getD now) }

/-- Reading consumes: the messages that are unread count as read from here on. -/
def status (runId : String) : Operation where
  prologue := pure fun file => do
    let run ← findRun file.runs runId
    let now ← isoDate
    let read : WorkerRun :=
      { run with workers := run.workers.map fun worker =>
          { worker with inbox := worker.inbox.map (AgentMessage.markRead now) } }
    return (read, file.setRun read)
  audited := false

/-- The inbox with room for one more message: a full one loses the oldest message that has been
read. -/
def makeRoom (inbox : List AgentMessage) : DrawM (List AgentMessage) :=
  if inbox.length ≥ MAX_QUEUE then
    if inbox.any fun candidate => candidate.readAt.isSome then
      pure (inbox.eraseP fun candidate => candidate.readAt.isSome)
    else throw (.policy "Kuyruk dolu: önce worker_status ile okunmamışları tüket.")
  else pure inbox

/-- The direction is an enumeration here; the source checks it as well. -/
def message (runId workerId message : String) (sender : MessageSender) : Operation where
  prologue := do
    let text := trim message
    if text = "" ∨ length text > MAX_MESSAGE_CHARS then
      throw (.policy "Mesaj 1-4000 karakter olmalı.")
    return fun file => do
      let run ← findRun file.runs runId
      let worker ← findWorker run workerId
      if isTerminal worker.state then
        throw (.policy "Bitmiş worker'a mesaj yazılamaz.")
      let inbox ← makeRoom worker.inbox
      let id ← shortId "m"
      let sentAt ← isoDate
      let lastSeenAt ← isoDate
      let changed := run.setWorker
        { worker with
          inbox := inbox ++ [{ id, sender, text, sentAt, readAt := none }]
          lastSeenAt
          state := if worker.state = .sleeping then .active else worker.state }
      return (changed, file.setRun changed)
  audited := false

def sleep (runId workerId : String) : Operation where
  prologue := pure fun file => do
    let run ← findRun file.runs runId
    let worker ← findWorker run workerId
    if isTerminal worker.state then
      throw (.policy "Bitmiş worker uyutulamaz.")
    let lastSeenAt ← isoDate
    let changed := run.setWorker { worker with state := .sleeping, lastSeenAt }
    return (changed, file.setRun changed)
  audited := false

def finish (runId workerId report : String) (failed : Bool) : Operation where
  prologue := do
    let text := trim report
    if text = "" ∨ length text > MAX_MESSAGE_CHARS then
      throw (.policy "Rapor 1-4000 karakter olmalı.")
    return fun file => do
      let run ← findRun file.runs runId
      let worker ← findWorker run workerId
      if isTerminal worker.state then
        throw (.policy "Worker zaten bitmiş.")
      let lastSeenAt ← isoDate
      let run := run.setWorker
        { worker with
          state := if failed then .failed else .finished
          result := some text
          lastSeenAt }
      let retired : List RetiredAlias := match worker.aliasName with
        | some aliasName => [{ aliasName, runId, workerId, retiredAt := lastSeenAt }]
        | none => []
      let changed :=
        { run with parked :=
            run.parked || run.workers.all fun candidate => isTerminal candidate.state }
      return (changed, { file.setRun changed with retired := file.retired ++ retired })
  audited := true

/-! ## What a method makes of the file -/

section Changes

variable {limits : Limits} {file changed : WorkerStoreFile} {returned : WorkerRun}
  {change : WorkerStoreFile → DrawM (WorkerRun × WorkerStoreFile)} {runId workerId : String}

theorem find_of_yields_findRun {runs : List WorkerRun} {runId : String} {run : WorkerRun}
    (h : (findRun runs runId).Yields run) :
    runs.find? (fun candidate => candidate.runId = runId) = some run := by
  unfold findRun at h
  split at h
  next heq =>
    cases h
    exact heq
  next => cases h

theorem find_of_yields_findWorker {run : WorkerRun} {workerId : String} {worker : WorkerRecord}
    (h : (findWorker run workerId).Yields worker) :
    run.workers.find? (fun candidate => candidate.id = workerId) = some worker := by
  unfold findWorker at h
  split at h
  next heq =>
    cases h
    exact heq
  next => cases h

theorem spawn_cases {primeAlias sharedContext : String} {specs : List WorkerSpawnSpec}
    (hprologue : (spawn limits primeAlias sharedContext specs).prologue.Yields change)
    (h : (change file).Yields (returned, changed)) : ∃ now,
    (spawnWorkers sharedContext now specs []).Yields returned.workers ∧
      changed = { file with runs := file.runs ++ [returned] } := by
  simp only [spawn] at hprologue
  split at hprologue
  · cases hprologue
  split at hprologue
  · cases hprologue
  split at hprologue
  · cases hprologue
  obtain ⟨now, -, hprologue⟩ := Program.Yields.bind_inv hprologue
  cases hprologue
  obtain ⟨runId, -, h⟩ := Program.Yields.bind_inv h
  obtain ⟨workers, hworkers, h⟩ := Program.Yields.bind_inv h
  split at h
  · cases h
  · cases h
    exact ⟨now, hworkers, rfl⟩

theorem status_cases (hprologue : (status runId).prologue.Yields change)
    (h : (change file).Yields (returned, changed)) : ∃ run now,
    file.runs.find? (fun candidate => candidate.runId = runId) = some run ∧
      returned = { run with workers := run.workers.map fun worker =>
        { worker with inbox := worker.inbox.map (AgentMessage.markRead now) } } ∧
      changed = file.setRun returned := by
  cases hprologue
  obtain ⟨run, hrun, h⟩ := Program.Yields.bind_inv h
  obtain ⟨now, -, h⟩ := Program.Yields.bind_inv h
  cases h
  exact ⟨run, now, find_of_yields_findRun hrun, rfl, rfl⟩

theorem message_cases {text : String} {sender : MessageSender}
    (hprologue : (message runId workerId text sender).prologue.Yields change)
    (h : (change file).Yields (returned, changed)) : ∃ run worker room id sentAt lastSeenAt,
    ¬ (trim text = "" ∨ length (trim text) > MAX_MESSAGE_CHARS) ∧
      file.runs.find? (fun candidate => candidate.runId = runId) = some run ∧
      run.workers.find? (fun candidate => candidate.id = workerId) = some worker ∧
      isTerminal worker.state = false ∧ (makeRoom worker.inbox).Yields room ∧
      (shortId "m").Yields id ∧
      returned = run.setWorker { worker with
        inbox := room ++ [{ id, sender, text := trim text, sentAt, readAt := none }]
        lastSeenAt
        state := if worker.state = .sleeping then .active else worker.state } ∧
      changed = file.setRun returned := by
  simp only [message] at hprologue
  split at hprologue
  · cases hprologue
  next htext =>
  cases hprologue
  obtain ⟨run, hrun, h⟩ := Program.Yields.bind_inv h
  obtain ⟨worker, hworker, h⟩ := Program.Yields.bind_inv h
  split at h
  · cases h
  next hlive =>
  obtain ⟨room, hroom, h⟩ := Program.Yields.bind_inv h
  obtain ⟨id, hid, h⟩ := Program.Yields.bind_inv h
  obtain ⟨sentAt, -, h⟩ := Program.Yields.bind_inv h
  obtain ⟨lastSeenAt, -, h⟩ := Program.Yields.bind_inv h
  cases h
  exact ⟨run, worker, room, id, sentAt, lastSeenAt, htext, find_of_yields_findRun hrun,
    find_of_yields_findWorker hworker, Bool.eq_false_iff.mpr hlive, hroom, hid, rfl, rfl⟩

theorem sleep_cases (hprologue : (sleep runId workerId).prologue.Yields change)
    (h : (change file).Yields (returned, changed)) : ∃ run worker lastSeenAt,
    file.runs.find? (fun candidate => candidate.runId = runId) = some run ∧
      run.workers.find? (fun candidate => candidate.id = workerId) = some worker ∧
      returned = run.setWorker { worker with state := .sleeping, lastSeenAt } ∧
      changed = file.setRun returned := by
  cases hprologue
  obtain ⟨run, hrun, h⟩ := Program.Yields.bind_inv h
  obtain ⟨worker, hworker, h⟩ := Program.Yields.bind_inv h
  split at h
  · cases h
  obtain ⟨lastSeenAt, -, h⟩ := Program.Yields.bind_inv h
  cases h
  exact ⟨run, worker, lastSeenAt, find_of_yields_findRun hrun, find_of_yields_findWorker hworker,
    rfl, rfl⟩

theorem finish_cases {report : String} {failed : Bool}
    (hprologue : (finish runId workerId report failed).prologue.Yields change)
    (h : (change file).Yields (returned, changed)) : ∃ run worker lastSeenAt parked,
    file.runs.find? (fun candidate => candidate.runId = runId) = some run ∧
      run.workers.find? (fun candidate => candidate.id = workerId) = some worker ∧
      returned = { run.setWorker { worker with
        state := if failed then .failed else .finished
        result := some (trim report)
        lastSeenAt } with parked } ∧
      changed = { file.setRun returned with
        retired := file.retired ++ match worker.aliasName with
          | some aliasName => [⟨aliasName, runId, workerId, lastSeenAt⟩]
          | none => [] } := by
  simp only [finish] at hprologue
  split at hprologue
  · cases hprologue
  cases hprologue
  obtain ⟨run, hrun, h⟩ := Program.Yields.bind_inv h
  obtain ⟨worker, hworker, h⟩ := Program.Yields.bind_inv h
  split at h
  · cases h
  obtain ⟨lastSeenAt, -, h⟩ := Program.Yields.bind_inv h
  cases h
  exact ⟨run, worker, lastSeenAt, _, find_of_yields_findRun hrun,
    find_of_yields_findWorker hworker, rfl, rfl⟩

end Changes

/-! ## The fence of retired aliases -/

def workerRetired (aliasName : String) : AppError :=
  .other "WORKER_RETIRED" ("Alias \"" ++ aliasName ++
    "\" bitmiş bir worker'a ait; bu sohbet normal prime akışına dönmeli, yazım kapalı.")

def isRetired (aliasName : String) : StoreM Bool :=
  load.bind fun file => .pure (file.retired.any fun entry => entry.aliasName = aliasName)

def assertAliasLive (aliasName : String) : StoreM Unit :=
  (isRetired aliasName).bind fun retired =>
    if retired then .throw (workerRetired aliasName) else .pure ()

/-! ## The store file -/

structure Save (ι : Type) where
  call : ι
  /-- The file that stood there before. -/
  replaced : Option StoreText
  written : StoreText

/-- The store file and the temporary files next to it. What the calls have done is recorded: the
names they have drawn, the file each has read, and the saves, the latest first. -/
structure Disk (ι : Type) where
  store : Option StoreText
  temporaries : String → Option StoreText
  drawn : List (String × ι)
  loaded : ι → Option (Option StoreText)
  saves : List (Save ι)

inductive StoreChoice where
  | draws (text : String)
  | completes
  /-- The operation fails; a failed write may leave something in the temporary file. -/
  | fails (code : Errno) (leftover : Option StoreText)

section Steps

variable {ι : Type} [DecidableEq ι]

def StoreOp.apply (choice : StoreChoice) (call : ι) :
    (o : StoreOp) → Disk ι → Option (o.Res × Disk ι)
  | .draw _, disk =>
    match choice with
    | .draws text => some (text, disk)
    | _ => none
  | .temporaryName, disk =>
    match choice with
    | .draws name =>
      -- a `randomUUID` has not been drawn before
      if name ∈ disk.drawn.map Prod.fst then none
      else some (name, { disk with drawn := (name, call) :: disk.drawn })
    | _ => none
  | .readFile, disk =>
    match choice with
    | .completes =>
      some (answerOf disk.store, { disk with
        loaded := Function.update disk.loaded call (some disk.store) })
    | .fails code _ => if code = .ENOENT then none else some (.error code, disk)
    | _ => none
  | .writeFile temporary content, disk =>
    match choice with
    | .completes =>
      some (.ok (), { disk with
        temporaries := Function.update disk.temporaries temporary (some (.value content)) })
    | .fails code leftover =>
      some (.error code, { disk with
        temporaries := Function.update disk.temporaries temporary leftover })
    | _ => none
  | .rename temporary, disk =>
    match choice with
    | .completes =>
      match disk.temporaries temporary with
      | none => some (.error .ENOENT, disk)
      | some text =>
        some (.ok (), { disk with
          store := some text
          temporaries := Function.update disk.temporaries temporary none
          saves := ⟨call, disk.store, text⟩ :: disk.saves })
    | .fails code _ => some (.error code, disk)
    | _ => none
  | .audit, disk => some ((), disk)

def storeExec (call : ι) : Exec StoreOp StoreOp.Res (Disk ι) :=
  fun o disk r later => ∃ choice, o.apply choice call disk = some (r, later)

end Steps

end WorkerStore
