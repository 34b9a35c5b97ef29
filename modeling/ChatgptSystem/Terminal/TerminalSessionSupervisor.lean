import ChatgptSystem.Foundations.Machine
import ChatgptSystem.Core.Text
import Mathlib.Data.Int.Notation
import Mathlib.Data.List.Sort
import Mathlib.Algebra.Order.Ring.Int

/-!
# The terminal session supervisor

`terminal/terminal-session-supervisor.ts`. A method that waits is cut at its `await`s: what it does
up to the first is part of the event that calls it, and what it does after each is an event of its
own, which comes when the environment or the other events let it.

* `TerminalSessionRecord`, `SupervisorState` — the sessions, and the calls and attempts in progress;
* `reserveCapacity`, `newUniqueSessionId`, `terminate`, … — the methods;
* `SupervisorEvent`, `supervisor` — what may happen, in any order.
-/

namespace Terminal

/-! ## The data -/

inductive TerminalSessionState where
  | running
  | exited
  | stopped
  deriving DecidableEq

structure TerminalSize where
  cols : ℕ
  rows : ℕ

structure OpenInput where
  shellPath : String
  cwd : String
  size : TerminalSize

structure TerminalPtyExit where
  exitCode : ℤ
  signal : Option ℤ

/-- The record of a session. Its pty and its termination promise are given by their numbers, and the
text of its output by the number of its pieces. -/
structure TerminalSessionRecord where
  sessionId : String
  cwd : String
  state : TerminalSessionState
  size : TerminalSize
  startedAtMs : ℤ
  exitedAtMs : Option ℤ
  /-- `undefined`, `null` or a number. -/
  exitCode : Option (Option ℤ)
  signal : Option (Option ℤ)
  pty : ℕ
  outputSequence : ℕ
  terminationRequested : Bool
  /-- The promise `closed` has been resolved. -/
  closed : Bool
  terminationPromise : Option ℕ

structure TerminalSessionSummary where
  sessionId : String
  cwd : String
  state : TerminalSessionState
  size : TerminalSize
  startedAtMs : ℤ
  exitedAtMs : Option ℤ
  exitCode : Option (Option ℤ)
  signal : Option (Option ℤ)
  outputSequence : ℕ

def summary (record : TerminalSessionRecord) : TerminalSessionSummary :=
  { sessionId := record.sessionId, cwd := record.cwd, state := record.state, size := record.size
    startedAtMs := record.startedAtMs, exitedAtMs := record.exitedAtMs
    exitCode := record.exitCode, signal := record.signal
    outputSequence := record.outputSequence }

/-- What a call of `open` waits for, or has come to. -/
inductive OpenCall where
  | spawning (input : OpenInput)
  /-- The promise of `backend.spawn` has been resolved with this pty. -/
  | spawned (input : OpenInput) (pty : ℕ)
  | returned (summary : TerminalSessionSummary)
  | failed

/-- What a call of `terminateOnce` waits for, or has come to. -/
inductive AttemptStage where
  /-- `SIGTERM` has been sent. -/
  | grace
  /-- `SIGKILL` has been sent. -/
  | killed
  | resolved
  | rejected
  deriving DecidableEq

structure TerminationAttempt where
  record : ℕ
  stage : AttemptStage

/-- A call of `close` with the attempts it waits for; `succeeded` once its promise is settled. -/
structure CloseCall where
  awaits : List ℕ
  succeeded : Option Bool

structure TerminalSessionSupervisorOptions where
  maxSessions : ℕ
  maxInputBytes : ℕ
  isWin32 : Bool

structure SupervisorState where
  /-- Whether each pty that was spawned is running. -/
  ptys : List Bool
  /-- What has been written to the ptys. -/
  written : List (ℕ × String)
  /-- The records of all sessions there have been. -/
  sessions : List TerminalSessionRecord
  /-- The map of records, in the order of insertion. -/
  records : List ℕ
  pendingStarts : ℤ
  closing : Bool
  opens : List OpenCall
  attempts : List TerminationAttempt
  closes : List CloseCall

namespace SupervisorState

def initial : SupervisorState :=
  { ptys := [], written := [], sessions := [], records := [], pendingStarts := 0, closing := false
    opens := [], attempts := [], closes := [] }

def Alive (s : SupervisorState) (pty : ℕ) : Prop :=
  s.ptys[pty]? = some true

def isRunning (s : SupervisorState) (n : ℕ) : Bool :=
  s.sessions[n]?.any fun record => record.state = .running

/-- Whether the promise `closed` of a record has been resolved. -/
def isClosed (s : SupervisorState) (n : ℕ) : Bool :=
  s.sessions[n]?.any TerminalSessionRecord.closed

def has (s : SupervisorState) (sessionId : String) : Bool :=
  s.records.any fun n => s.sessions[n]?.any fun record => record.sessionId = sessionId

def get (s : SupervisorState) (sessionId : String) : Option ℕ :=
  s.records.find? fun n => s.sessions[n]?.any fun record => record.sessionId = sessionId

def modify (s : SupervisorState) (n : ℕ) (f : TerminalSessionRecord → TerminalSessionRecord) :
    SupervisorState :=
  { s with sessions := s.sessions.modify n f }

def setOpen (s : SupervisorState) (call : ℕ) (stage : OpenCall) : SupervisorState :=
  { s with opens := s.opens.set call stage }

def setAttempt (s : SupervisorState) (attempt : ℕ) (stage : AttemptStage) : SupervisorState :=
  { s with attempts := s.attempts.modify attempt fun a => { a with stage } }

/-! ## Opening -/

def startedAtMs (s : SupervisorState) (n : ℕ) : ℤ :=
  s.sessions[n]?.elim 0 TerminalSessionRecord.startedAtMs

def oldestCompleted (s : SupervisorState) : Option ℕ :=
  ((s.records.filter fun n => !s.isRunning n).insertionSort
    fun m n => s.startedAtMs m ≤ s.startedAtMs n).head?

def isFull (options : TerminalSessionSupervisorOptions) (s : SupervisorState) : Bool :=
  s.records.length + s.pendingStarts ≥ (options.maxSessions : ℤ)

/-- The loop of `reserveCapacity`, with the number of records as its bound. What it has deleted stays
deleted if it throws. -/
def reserveCapacityFrom (options : TerminalSessionSupervisorOptions) (s : SupervisorState) :
    ℕ → Bool × SupervisorState
  | 0 => if s.isFull options then (false, s) else (true, { s with pendingStarts := s.pendingStarts + 1 })
  | bound + 1 =>
    if s.isFull options then
      match s.oldestCompleted with
      | none => (false, s)
      | some completed =>
        reserveCapacityFrom options { s with records := s.records.filter (· ≠ completed) } bound
    else (true, { s with pendingStarts := s.pendingStarts + 1 })

/-- `false` for the error that the registry is full. -/
def reserveCapacity (options : TerminalSessionSupervisorOptions) (s : SupervisorState) :
    Bool × SupervisorState :=
  s.reserveCapacityFrom options s.records.length

def newUniqueSessionId (newSessionId : ℕ → String) (s : SupervisorState) : Option String :=
  ((List.range 8).map newSessionId).find? fun sessionId => !s.has sessionId

/-- `open`, until it waits for `backend.spawn`. -/
def beginOpen (options : TerminalSessionSupervisorOptions) (input : OpenInput) (s : SupervisorState) :
    SupervisorState :=
  if s.closing then { s with opens := s.opens ++ [.failed] }
  else
    let (reserved, s) := s.reserveCapacity options
    { s with opens := s.opens ++ [if reserved then .spawning input else .failed] }

/-- `open`, after `backend.spawn` has failed. -/
def failOpen (call : ℕ) (s : SupervisorState) : SupervisorState :=
  { s with pendingStarts := s.pendingStarts - 1 }.setOpen call .failed

/-- `open`, after `backend.spawn` has returned the pty. -/
def finishOpen (call : ℕ) (input : OpenInput) (pty : ℕ) (now : ℤ) (newSessionId : ℕ → String)
    (s : SupervisorState) : SupervisorState :=
  let s := { s with pendingStarts := s.pendingStarts - 1 }
  match s.newUniqueSessionId newSessionId with
  | none => s.setOpen call .failed
  | some sessionId =>
    let record : TerminalSessionRecord :=
      { sessionId, cwd := input.cwd, state := .running, size := input.size, startedAtMs := now
        exitedAtMs := none, exitCode := none, signal := none, pty, outputSequence := 0
        terminationRequested := false, closed := false, terminationPromise := none }
    { s with
      sessions := s.sessions ++ [record]
      records := s.records ++ [s.sessions.length] }.setOpen call (.returned (summary record))

/-! ## The end of a session -/

/-- The listener of `pty.onExit`. -/
def onExit (n : ℕ) (event : TerminalPtyExit) (now : ℤ) (s : SupervisorState) : SupervisorState :=
  s.modify n fun record =>
    if record.state ≠ .running then record
    else
      { record with
        state := if record.terminationRequested then .stopped else .exited
        exitedAtMs := some now
        exitCode := some (some event.exitCode)
        signal := some event.signal
        closed := true }

def finishAlreadyGone (n : ℕ) (now : ℤ) (s : SupervisorState) : SupervisorState :=
  s.modify n fun record =>
    if record.state ≠ .running then record
    else
      { record with
        state := .stopped
        exitedAtMs := some now
        exitCode := some none
        signal := some none
        closed := true }

/-- How the operating system answers a signal to a process group. -/
inductive SignalAnswer where
  | delivered
  /-- `ESRCH`: there is no such process group. -/
  | noSuchProcess
  | refused
  deriving DecidableEq

/-- `sendSignal`: whether the signal was delivered, or an error. -/
def sendSignal (options : TerminalSessionSupervisorOptions) : SignalAnswer → Except Unit Bool
  | .delivered => .ok true
  | .noSuchProcess => if options.isWin32 then .error () else .ok false
  | .refused => .error ()

/-- `terminateOnce` after a call of `sendSignal`; `next` is where it waits if the signal was
delivered. -/
def afterSignal (n attempt : ℕ) (next : AttemptStage) (sent : Except Unit Bool) (now : ℤ)
    (s : SupervisorState) : SupervisorState :=
  match sent with
  | .ok true => s.setAttempt attempt next
  | .ok false => (s.finishAlreadyGone n now).setAttempt attempt .resolved
  | .error _ => s.setAttempt attempt .rejected

/-- `terminate` gives the number of its promise, or `none` for one that is resolved already. -/
def terminate (options : TerminalSessionSupervisorOptions) (n : ℕ) (answer : SignalAnswer) (now : ℤ)
    (s : SupervisorState) : Option ℕ × SupervisorState :=
  match s.sessions[n]? with
  | none => (none, s)
  | some record =>
    if record.state ≠ .running then (none, s)
    else
      match record.terminationPromise with
      | some attempt => (some attempt, s)
      | none =>
        let attempt := s.attempts.length
        let s := s.modify n fun record =>
          { record with terminationRequested := true, terminationPromise := some attempt }
        let s : SupervisorState :=
          { s with attempts := s.attempts ++ [{ record := n, stage := .grace }] }
        (some attempt, s.afterSignal n attempt .grace (sendSignal options answer) now)

/-- `terminateOnce`, after `waitForClose`. -/
def afterGrace (options : TerminalSessionSupervisorOptions) (n attempt : ℕ) (closedGracefully : Bool)
    (answer : SignalAnswer) (now : ℤ) (s : SupervisorState) : SupervisorState :=
  if !closedGracefully && s.isRunning n then
    s.afterSignal n attempt .killed (sendSignal options answer) now
  else s.setAttempt attempt .resolved

/-- What is done when an attempt has been rejected. -/
def forgetAttempt (n attempt : ℕ) (s : SupervisorState) : SupervisorState :=
  s.modify n fun record =>
    if record.terminationPromise = some attempt then { record with terminationPromise := none }
    else record

/-! ## The other methods -/

/-- `write` throws the error with this limit, or returns a summary. -/
def write (options : TerminalSessionSupervisorOptions) (sessionId data : String)
    (s : SupervisorState) : Except ℕ (Option TerminalSessionSummary) × SupervisorState :=
  match (s.get sessionId).bind fun n => s.sessions[n]? with
  | none => (.ok none, s)
  | some record =>
    if record.state ≠ .running then (.ok (some (summary record)), s)
    else if data.utf8ByteSize > options.maxInputBytes then (.error options.maxInputBytes, s)
    else (.ok (some (summary record)), { s with written := s.written ++ [(record.pty, data)] })

def resize (sessionId : String) (size : TerminalSize) (s : SupervisorState) : SupervisorState :=
  match s.get sessionId with
  | none => s
  | some n => s.modify n fun record =>
      if record.state ≠ .running then record else { record with size }

/-- The listener of `pty.onData`. -/
def onData (n : ℕ) (data : String) (s : SupervisorState) : SupervisorState :=
  if data.isEmpty then s
  else s.modify n fun record => { record with outputSequence := record.outputSequence + 1 }

/-- `stop`, until it waits for the promise of `terminate`. -/
def stop (options : TerminalSessionSupervisorOptions) (sessionId : String) (answer : SignalAnswer)
    (now : ℤ) (s : SupervisorState) : SupervisorState :=
  match s.get sessionId with
  | none => s
  | some n => (s.terminate options n answer now).2

/-- The promises of `terminate` for some records, one after the other. -/
def terminateAll (options : TerminalSessionSupervisorOptions) (answer : ℕ → SignalAnswer) (now : ℤ) :
    List ℕ → SupervisorState → List ℕ × SupervisorState
  | [], s => ([], s)
  | n :: ns, s =>
    let (attempt, s) := s.terminate options n (answer n) now
    let (attempts, s) := terminateAll options answer now ns s
    (attempt.toList ++ attempts, s)

/-- `close`, until it waits for all of the attempts. -/
def close (options : TerminalSessionSupervisorOptions) (answer : ℕ → SignalAnswer) (now : ℤ)
    (s : SupervisorState) : SupervisorState :=
  let s := { s with closing := true }
  let (awaits, s) := s.terminateAll options answer now (s.records.filter s.isRunning)
  { s with closes := s.closes ++ [{ awaits, succeeded := none }] }

def stageOf (s : SupervisorState) (attempt : ℕ) : Option AttemptStage :=
  s.attempts[attempt]?.map TerminationAttempt.stage

/-- `Promise.all` succeeds with all of the attempts, or fails with one of them. -/
def Settles (s : SupervisorState) (awaits : List ℕ) (succeeded : Bool) : Prop :=
  (succeeded = true → ∀ attempt ∈ awaits, s.stageOf attempt = some .resolved) ∧
    (succeeded = false → ∃ attempt ∈ awaits, s.stageOf attempt = some .rejected)

instance (s : SupervisorState) (awaits : List ℕ) (succeeded : Bool) :
    Decidable (s.Settles awaits succeeded) :=
  inferInstanceAs (Decidable (_ ∧ _))

/-- The answer `ESRCH` is given for a process group that has no process left. -/
def Truthful (s : SupervisorState) (n : ℕ) (answer : SignalAnswer) : Prop :=
  answer = .noSuchProcess → ∃ record, s.sessions[n]? = some record ∧
    s.ptys[record.pty]? = some false

instance (s : SupervisorState) (n : ℕ) (answer : SignalAnswer) : Decidable (s.Truthful n answer) :=
  match h : s.sessions[n]? with
  | none => decidable_of_iff (answer ≠ .noSuchProcess) (by simp [Truthful, h])
  | some record => decidable_of_iff (answer = .noSuchProcess → s.ptys[record.pty]? = some false)
      (by simp [Truthful, h])

end SupervisorState

/-! ## What may happen -/

inductive SupervisorEvent where
  | openSession (input : OpenInput)
  /-- The backend spawns the pty of a call of `open`. -/
  | spawns (call : ℕ)
  | spawnFails (call : ℕ)
  /-- A call of `open` goes on with its pty. -/
  | finishOpen (call : ℕ) (now : ℤ) (newSessionId : ℕ → String)
  | write (sessionId data : String)
  | resize (sessionId : String) (size : TerminalSize)
  | data (session : ℕ) (data : String)
  /-- The process group of a pty ends, for whatever reason. -/
  | dies (pty : ℕ)
  /-- The listener of a session is told that its pty has ended. -/
  | exits (session : ℕ) (event : TerminalPtyExit) (now : ℤ)
  | stop (sessionId : String) (answer : SupervisorState.SignalAnswer) (now : ℤ)
  | close (answer : ℕ → SupervisorState.SignalAnswer) (now : ℤ)
  /-- An attempt goes on after `waitForClose`: the session has ended, or the timer has fired. -/
  | afterGrace (attempt : ℕ) (closedGracefully : Bool) (answer : SupervisorState.SignalAnswer)
      (now : ℤ)
  /-- An attempt goes on after `record.closed`. -/
  | afterClosed (attempt : ℕ)
  | forgetAttempt (attempt : ℕ)
  /-- All attempts that a `close` waits for have been resolved, or one has been rejected. -/
  | closed (call : ℕ) (succeeded : Bool)

open SupervisorState in
def supervisor (options : TerminalSessionSupervisorOptions) :
    Machine SupervisorState SupervisorEvent
  | s, .openSession input => some (s.beginOpen options input)
  | s, .spawns call =>
    match s.opens[call]? with
    | some (.spawning input) => some ({ s with ptys := s.ptys ++ [true] }.setOpen call
        (.spawned input s.ptys.length))
    | _ => none
  | s, .spawnFails call =>
    match s.opens[call]? with
    | some (.spawning _) => some (s.failOpen call)
    | _ => none
  | s, .finishOpen call now newSessionId =>
    match s.opens[call]? with
    | some (.spawned input pty) => some (s.finishOpen call input pty now newSessionId)
    | _ => none
  | s, .write sessionId data => some (s.write options sessionId data).2
  | s, .resize sessionId size => some (s.resize sessionId size)
  | s, .data n data => some (s.onData n data)
  | s, .dies pty => some { s with ptys := s.ptys.set pty false }
  | s, .exits n event now =>
    match s.sessions[n]? with
    | some record =>
      if s.ptys[record.pty]? = some false then some (s.onExit n event now) else none
    | none => none
  | s, .stop sessionId answer now =>
    if ∀ n, s.get sessionId = some n → s.Truthful n answer then
      some (s.stop options sessionId answer now)
    else none
  | s, .close answer now =>
    if ∀ n ∈ s.records, s.Truthful n (answer n) then some (s.close options answer now) else none
  | s, .afterGrace attempt closedGracefully answer now =>
    match s.attempts[attempt]? with
    | some ⟨n, .grace⟩ =>
      if s.Truthful n answer ∧ (closedGracefully = true → s.isClosed n = true) then
        some (s.afterGrace options n attempt closedGracefully answer now)
      else none
    | _ => none
  | s, .afterClosed attempt =>
    match s.attempts[attempt]? with
    | some ⟨n, .killed⟩ =>
      if s.isClosed n then some (s.setAttempt attempt .resolved) else none
    | _ => none
  | s, .forgetAttempt attempt =>
    match s.attempts[attempt]? with
    | some ⟨n, .rejected⟩ => some (s.forgetAttempt n attempt)
    | _ => none
  | s, .closed call succeeded =>
    match s.closes[call]? with
    | some ⟨awaits, none⟩ =>
      if s.Settles awaits succeeded then
        some { s with closes := s.closes.set call ⟨awaits, some succeeded⟩ }
      else none
    | _ => none

end Terminal
