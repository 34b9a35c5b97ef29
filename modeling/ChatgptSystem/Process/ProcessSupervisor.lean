import ChatgptSystem.Foundations.Machine
import Mathlib.Data.Int.Notation
import Mathlib.Data.List.MinMax
import Mathlib.Data.List.Nodup
import Mathlib.Logic.Function.Basic

/-!
# Starting managed processes

`ProcessSupervisor.start` (`process/process-supervisor.ts`). A call runs up to its first `await`
when it is made; the preparation, the events of the child, the audit record and the `finally` of a
call are events of their own, which come in any order.

* `ManagedRecord`, `StartCall`, `ProcessSupervisor` — the records and the calls in progress;
* `reserveCapacity`, `startInternal`, `start` — what a call does when it is made;
* `StartEvent`, `supervisor` — what may happen.
-/

namespace Process

/-! ## The data -/

inductive ManagedProcessState where
  | running
  | stopping
  | exited
  | stopped
  | unknown
  deriving DecidableEq

structure StartInput where
  command : String
  args : List String
  cwd : String
  idempotencyKey : Option String
  deriving DecidableEq

/-- The key that a call goes by: `if (input.idempotencyKey)`. -/
def StartInput.key (input : StartInput) : Option String :=
  input.idempotencyKey.filter (· ≠ "")

/-- A record; `D` are the digests of argument lists. -/
structure ManagedRecord (D : Type) where
  processId : String
  command : String
  cwd : String
  argsDigest : D
  idempotencyKey : Option String
  state : ManagedProcessState
  startedAtMs : ℤ
  deriving DecidableEq

/-- An entry of `idempotencyInFlight`. Its promise is given by the number of the call whose
`startInternal` it is. -/
structure InFlight (D : Type) where
  operation : ℕ
  command : String
  cwd : String
  argsDigest : D
  deriving DecidableEq

inductive StartError where
  /-- `The idempotency key is already bound to a different process request.` -/
  | conflict
  /-- `Managed process registry is full.` -/
  | limit
  /-- An error of the preparation or of the child. -/
  | failed
  /-- `Managed child did not report a process identifier after spawn.` -/
  | noProcessIdentifier
  deriving DecidableEq

/-- What a call returns: the identifier of the process in its summary. -/
abbrev StartOutcome : Type := Except StartError String

inductive StartPhase where
  /-- `startInternal` awaits `resolveExecutablePath`. -/
  | preparing (processId : String)
  /-- The child has been created, and has neither been spawned nor failed. -/
  | spawning (processId : String)
  /-- The record is stored; the audit record is awaited. -/
  | auditing (processId : String)
  /-- The promise of `startInternal` is settled. -/
  | settled (outcome : StartOutcome)
  /-- The call has returned the promise of another one. -/
  | following (operation : ℕ)
  | returned (outcome : StartOutcome)
  deriving DecidableEq

/-- Who holds a key: a retained record, or an operation in flight. -/
inductive Holder (D : Type) where
  | record (existing : ManagedRecord D)
  | operation (existing : InFlight D)
  deriving DecidableEq

/-- A call of `start`. As a ghost, who has held its key when it was made. -/
structure StartCall (D : Type) where
  input : StartInput
  phase : StartPhase
  holder : Option (Holder D)
  deriving DecidableEq

/-- A process that was spawned by a call, or by an earlier supervisor. -/
structure Spawn where
  call : Option ℕ
  processId : String
  key : Option String
  deriving DecidableEq

/-- The state of a supervisor. As a ghost, the processes that were spawned, in order. -/
structure ProcessSupervisor (D : Type) where
  records : List (ManagedRecord D)
  idempotencyInFlight : String → Option (InFlight D)
  pendingStarts : ℤ
  calls : List (StartCall D)
  spawned : List Spawn

/-! ## Calls -/

variable {D : Type}

def oldestCompleted (records : List (ManagedRecord D)) : Option (ManagedRecord D) :=
  @List.argmin _ ℤ Int.instLinearOrder.toPreorder _ (·.startedAtMs)
    (records.filter (·.state ≠ .running))

def withoutRecord (records : List (ManagedRecord D)) (processId : String) :
    List (ManagedRecord D) :=
  records.filter (·.processId ≠ processId)

/-- The loop of `reserveCapacity`, for so many rounds. -/
def reserveIn (maxManagedProcesses : ℕ) (pendingStarts : ℤ) :
    ℕ → List (ManagedRecord D) → List (ManagedRecord D) × Bool
  | 0, records => (records, ¬ (maxManagedProcesses : ℤ) ≤ records.length + pendingStarts)
  | rounds + 1, records =>
    if (maxManagedProcesses : ℤ) ≤ records.length + pendingStarts then
      match oldestCompleted records with
      | none => (records, false)
      | some completed =>
        reserveIn maxManagedProcesses pendingStarts rounds
          (withoutRecord records completed.processId)
    else (records, true)

/-- `reserveCapacity`: what is left of the records, and whether there is room for another one. Every
round removes a record. -/
def reserveCapacity (maxManagedProcesses : ℕ) (pendingStarts : ℤ)
    (records : List (ManagedRecord D)) : List (ManagedRecord D) × Bool :=
  reserveIn maxManagedProcesses pendingStarts records.length records

/-- What may fail before the first `await` of `startInternal`. -/
inductive EarlyFault where
  /-- `newProcessId` or `randomBytes`. -/
  | identifier
  /-- `mkdirSync`. -/
  | directory
  deriving DecidableEq

section Start

variable [DecidableEq D] (maxManagedProcesses : ℕ) (digestArgs : List String → D)

def ManagedRecord.sameRequest (existing : ManagedRecord D) (input : StartInput) : Bool :=
  existing.command = input.command && existing.cwd = input.cwd &&
    existing.argsDigest = digestArgs input.args

def InFlight.sameRequest (existing : InFlight D) (input : StartInput) : Bool :=
  existing.command = input.command && existing.cwd = input.cwd &&
    existing.argsDigest = digestArgs input.args

namespace ProcessSupervisor

def retained (s : ProcessSupervisor D) (key : String) : Option (ManagedRecord D) :=
  s.records.find? fun record => record.idempotencyKey = some key

def holder (s : ProcessSupervisor D) (input : StartInput) : Option (Holder D) :=
  input.key.bind fun key =>
    match s.retained key with
    | some existing => some (.record existing)
    | none => (s.idempotencyInFlight key).map .operation

/-- `startInternal` up to its first `await`: what becomes of the records and the reservations, and
how far the call comes. -/
def startInternal (s : ProcessSupervisor D) (input : StartInput) (processId : String)
    (fault : Option EarlyFault) : ProcessSupervisor D × StartPhase :=
  match input.key.bind s.retained with
  | some existing =>
    if existing.sameRequest digestArgs input then (s, .settled (.ok existing.processId))
    else (s, .settled (.error .conflict))
  | none =>
    match reserveCapacity maxManagedProcesses s.pendingStarts s.records with
    | (records, false) => ({ s with records }, .settled (.error .limit))
    | (records, true) =>
      match fault with
      -- thrown before the `try` that gives the reservation back
      | some .identifier =>
        ({ s with records, pendingStarts := s.pendingStarts + 1 }, .settled (.error .failed))
      | some .directory => ({ s with records }, .settled (.error .failed))
      | none => ({ s with records, pendingStarts := s.pendingStarts + 1 }, .preparing processId)

def addCall (s : ProcessSupervisor D) (call : StartCall D) : ProcessSupervisor D :=
  { s with calls := s.calls ++ [call] }

def entry (operation : ℕ) (input : StartInput) : InFlight D :=
  ⟨operation, input.command, input.cwd, digestArgs input.args⟩

/-- `start` up to its first `await`. -/
def start (s : ProcessSupervisor D) (input : StartInput) (processId : String)
    (fault : Option EarlyFault) : ProcessSupervisor D :=
  let internal := s.startInternal maxManagedProcesses digestArgs input processId fault
  let operation := internal.1.addCall ⟨input, internal.2, s.holder input⟩
  match input.key with
  | none => operation
  | some key =>
    match s.idempotencyInFlight key with
    | some existing =>
      if existing.sameRequest digestArgs input then
        s.addCall ⟨input, .following existing.operation, s.holder input⟩
      else s.addCall ⟨input, .returned (.error .conflict), s.holder input⟩
    | none =>
      { operation with
        idempotencyInFlight := Function.update s.idempotencyInFlight key
          (some (entry digestArgs s.calls.length input)) }

end ProcessSupervisor

end Start

/-! ## Events -/

inductive StartEvent where
  /-- A call, the identifier that it draws and what fails before its first `await`. -/
  | start (input : StartInput) (processId : String) (fault : Option EarlyFault)
  /-- The preparation of a call goes on after `resolveExecutablePath` up to the child, or throws. -/
  | prepared (call : ℕ) (succeeds : Bool)
  /-- The child of a call emits `error` and is never spawned. -/
  | childError (call : ℕ)
  /-- The child of a call emits `spawn`; whether it has a `pid`, and the time. -/
  | childSpawn (call : ℕ) (hasPid : Bool) (nowMs : ℤ)
  /-- The audit record of a call is written, or has failed. -/
  | audited (call : ℕ)
  /-- The `finally` of a call whose operation is settled. -/
  | release (call : ℕ)
  /-- A call that has returned another one's promise is settled with it. -/
  | follow (call : ℕ)
  /-- A process ends, is stopped, or its state is refreshed. -/
  | change (processId : String) (state : ManagedProcessState)

namespace ProcessSupervisor

def setPhase (s : ProcessSupervisor D) (i : ℕ) (call : StartCall D) (phase : StartPhase) :
    ProcessSupervisor D :=
  { s with calls := s.calls.set i { call with phase } }

variable [DecidableEq D] (maxManagedProcesses : ℕ) (digestArgs : List String → D)

/-- The `spawn` listener of a call. No two processes have the same identifier. -/
def childSpawn (s : ProcessSupervisor D) (i : ℕ) (call : StartCall D) (processId : String)
    (hasPid : Bool) (nowMs : ℤ) : ProcessSupervisor D :=
  let s' : ProcessSupervisor D :=
    { s with
      pendingStarts := s.pendingStarts - 1
      spawned := s.spawned ++ [⟨some i, processId, call.input.key⟩] }
  if hasPid then
    let record : ManagedRecord D :=
      { processId
        command := call.input.command
        cwd := call.input.cwd
        argsDigest := digestArgs call.input.args
        idempotencyKey := call.input.idempotencyKey
        state := .running
        startedAtMs := nowMs }
    { s' with records := s.records ++ [record] }.setPhase i call (.auditing processId)
  else s'.setPhase i call (.settled (.error .noProcessIdentifier))

/-- The `finally` of a call deletes the entry of its own operation. -/
def release (s : ProcessSupervisor D) (i : ℕ) (call : StartCall D) (outcome : StartOutcome) :
    ProcessSupervisor D :=
  let inFlight := match call.input.key with
    | none => s.idempotencyInFlight
    | some key =>
      if (s.idempotencyInFlight key).any (·.operation = i) then
        Function.update s.idempotencyInFlight key none
      else s.idempotencyInFlight
  { s with idempotencyInFlight := inFlight }.setPhase i call (.returned outcome)

def supervisor : Machine (ProcessSupervisor D) StartEvent := fun s e =>
  match e with
  | .start input processId fault =>
    some (s.start maxManagedProcesses digestArgs input processId fault)
  | .prepared i succeeds =>
    match s.calls[i]? with
    | some ⟨input, .preparing processId, holder⟩ =>
      let call := ⟨input, .preparing processId, holder⟩
      if succeeds then some (s.setPhase i call (.spawning processId))
      else some ({ s with pendingStarts := s.pendingStarts - 1 }.setPhase i call
        (.settled (.error .failed)))
    | _ => none
  | .childError i =>
    match s.calls[i]? with
    | some ⟨input, .spawning processId, holder⟩ =>
      some ({ s with pendingStarts := s.pendingStarts - 1 }.setPhase i
        ⟨input, .spawning processId, holder⟩ (.settled (.error .failed)))
    | _ => none
  | .childSpawn i hasPid nowMs =>
    match s.calls[i]? with
    | some ⟨input, .spawning processId, holder⟩ =>
      if processId ∈ s.spawned.map (·.processId) then none
      else
        let call := ⟨input, .spawning processId, holder⟩
        some (s.childSpawn digestArgs i call processId hasPid nowMs)
    | _ => none
  | .audited i =>
    match s.calls[i]? with
    | some ⟨input, .auditing processId, holder⟩ =>
      some (s.setPhase i ⟨input, .auditing processId, holder⟩ (.settled (.ok processId)))
    | _ => none
  | .release i =>
    match s.calls[i]? with
    | some ⟨input, .settled outcome, holder⟩ =>
      some (s.release i ⟨input, .settled outcome, holder⟩ outcome)
    | _ => none
  | .follow i =>
    match s.calls[i]? with
    | some ⟨input, .following operation, holder⟩ =>
      -- the `finally` of the other call has been waiting for the promise for longer
      match (s.calls[operation]?).map StartCall.phase with
      | some (.returned outcome) =>
        some (s.setPhase i ⟨input, .following operation, holder⟩ (.returned outcome))
      | _ => none
    | _ => none
  | .change processId state =>
    some { s with
      records := s.records.map fun record =>
        if record.processId = processId then { record with state } else record }

end ProcessSupervisor

end Process
