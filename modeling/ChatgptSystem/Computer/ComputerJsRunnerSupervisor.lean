import ChatgptSystem.Computer.ComputerErrors
import ChatgptSystem.Core.Text
import ChatgptSystem.Foundations.Machine
import Mathlib.Algebra.GroupWithZero.Nat

/-!
# The supervisor of program runners

`ComputerJsRunnerSupervisor.run` of `computer/computer-js-runner-supervisor.ts`: a program runs in
a child of its own, which is ended before the call settles. Listeners, timers and the continuations
of promises are events of their own, in any order.

* `RunState` — the variables of the call, what is armed, and the child;
* `finishError`, `appendOutput`, `finishSuccess`, `terminate`, … — the functions;
* `RunEvent`, `runner` — what may happen to a call that has spawned its child;
* `Signalled` — what the promise of `terminate` says of the child.
-/

namespace Computer

namespace JsRunner

/-! ## The data -/

inductive RunnerSignal where
  | SIGTERM
  | SIGKILL
  deriving DecidableEq

/-- What `runnerMessageSchema` tells apart; what an `rpc` asks for is not looked at here. -/
inductive RunnerMessage where
  | rpc
  | complete (resultJson : Option String)
  | workerExit
  deriving DecidableEq

structure ComputerJsRunnerResult (Result : Type) where
  stdout : List Char
  stderr : List Char
  result : Option Result
  deriving DecidableEq

inductive Settlement (Result : Type) where
  | resolved (result : ComputerJsRunnerResult Result)
  | rejected (error : ComputerErrorCode)
  deriving DecidableEq

/-- Where `terminateOnce` is. -/
inductive Termination where
  | idle
  /-- The child is asked to stop, and has some time to do so. -/
  | graceful
  /-- A signal could not be sent; the child may still close. -/
  | refused
  | killed
  | resolved
  | rejected
  deriving DecidableEq

/-- What waits for the promise of `terminate`. -/
inductive Continuation (Result : Type) where
  | complete (result : Option Result)
  | failure (error : ComputerErrorCode)
  deriving DecidableEq

inductive Output where
  | stdout
  | stderr
  deriving DecidableEq

structure RunState (Result : Type) where
  terminal : Bool
  completing : Bool
  outputBytes : ℕ
  stdout : List Bytes
  stderr : List Bytes
  /-- The calls of `handleRpc` that have not ended. -/
  pendingRpcs : ℕ
  /-- The execution timer is armed. -/
  timer : Bool
  /-- `abort` listens to the signal of the request. -/
  listening : Bool
  closed : Bool
  termination : Termination
  /-- The signals, and whether they could be sent. -/
  signals : List (RunnerSignal × Bool)
  continuations : List (Continuation Result)
  /-- The calls of `resolve` and `reject`. -/
  settlements : List (Settlement Result)
  deriving DecidableEq

structure ComputerJsRunnerSupervisorOptions where
  maxSourceBytes : ℕ
  maxOutputBytes : ℕ

structure ComputerJsRunnerRequest where
  source : String
  timeoutMs : Option ℕ
  /-- The signal, and whether it has been aborted before the call. -/
  signal : Option Bool

variable {Result : Type}

def outputSize (chunks : List Bytes) : ℕ := (chunks.map List.length).sum

def resultBytes (resultJson : Option String) : ℕ := (resultJson.map String.utf8ByteSize).getD 0

/-- The result that is to be returned; `none` if it is no JSON. -/
def parseResult (parse : String → Option Result) : Option String → Option (Option Result)
  | none => some none
  | some resultJson => (parse resultJson).map some

/-! ## The functions -/

/-- `terminate`, up to the first wait of `terminateOnce`; `sent` says whether a signal that is to be
sent can be sent, a group that no longer exists included. -/
def terminate (sent : Bool) (s : RunState Result) : RunState Result :=
  if s.termination = .idle then
    { s with
      termination := if sent then .graceful else .refused
      signals := s.signals ++ [(.SIGTERM, sent)] }
  else s

def detachRequestGuards (s : RunState Result) : RunState Result :=
  { s with timer := false, listening := false }

def finishError (sent : Bool) (error : ComputerErrorCode) (s : RunState Result) :
    RunState Result :=
  if s.terminal then s
  else
    let s := terminate sent (detachRequestGuards { s with terminal := true })
    { s with continuations := s.continuations ++ [.failure error] }

def appendOutput (maxOutputBytes : ℕ) (sent : Bool) (target : Output) (chunk : Bytes)
    (s : RunState Result) : RunState Result :=
  if s.terminal then s
  else
    let s := { s with outputBytes := s.outputBytes + chunk.length }
    if s.outputBytes > maxOutputBytes then finishError sent .COMPUTER_OUTPUT_LIMIT s
    else
      match target with
      | .stdout => { s with stdout := s.stdout ++ [chunk] }
      | .stderr => { s with stderr := s.stderr ++ [chunk] }

def finishSuccess (maxOutputBytes : ℕ) (parse : String → Option Result) (sent : Bool)
    (resultJson : Option String) (s : RunState Result) : RunState Result :=
  if s.terminal || s.completing then finishError sent .COMPUTER_JS_FAILED s
  else if s.outputBytes + resultBytes resultJson > maxOutputBytes then
    finishError sent .COMPUTER_OUTPUT_LIMIT s
  else
    match parseResult parse resultJson with
    | none => finishError sent .COMPUTER_JS_FAILED s
    | some result =>
      let s := terminate sent { s with
        outputBytes := s.outputBytes + resultBytes resultJson
        completing := true
        timer := false }
      { s with continuations := s.continuations ++ [.complete result] }

/-- The listener of `message`, for a message that has been parsed. -/
def onMessage (maxOutputBytes : ℕ) (parse : String → Option Result) (sent : Bool)
    (parsed : Option RunnerMessage) (s : RunState Result) : RunState Result :=
  if s.terminal then s
  else if s.completing then finishError sent .COMPUTER_JS_FAILED s
  else
    match parsed with
    | none => finishError sent .COMPUTER_JS_FAILED s
    | some (.complete resultJson) => finishSuccess maxOutputBytes parse sent resultJson s
    | some .workerExit => finishError sent .COMPUTER_JS_FAILED s
    | some .rpc => { s with pendingRpcs := s.pendingRpcs + 1 }

/-- The two listeners of `close`. -/
def onClose (sent : Bool) (s : RunState Result) : RunState Result :=
  let s := { s with closed := true }
  if !s.terminal && !s.completing then finishError sent .COMPUTER_JS_FAILED s else s

/-- The time that the child has to close is over; the one who waits goes on. -/
def graceElapsed (sent : Bool) (s : RunState Result) : Option (RunState Result) :=
  if s.closed then none
  else
    match s.termination with
    | .graceful => some { s with
        termination := if sent then .killed else .refused
        signals := s.signals ++ [(.SIGKILL, sent)] }
    | .refused => some { s with termination := .rejected }
    | _ => none

def waitedClosed (s : RunState Result) : Option (RunState Result) :=
  if s.closed then
    match s.termination with
    | .graceful | .refused | .killed => some { s with termination := .resolved }
    | _ => none
  else none

def collect (result : Option Result) (s : RunState Result) : ComputerJsRunnerResult Result :=
  { stdout := Text.decode s.stdout.flatten, stderr := Text.decode s.stderr.flatten
    result := result }

/-- What a continuation does when the promise of `terminate` has been settled. -/
def proceed (success : Bool) (continuation : Continuation Result) (s : RunState Result) :
    RunState Result :=
  match continuation with
  | .failure error => { s with settlements := s.settlements ++ [.rejected error] }
  | .complete result =>
    if s.terminal then s
    else
      let s := detachRequestGuards { s with terminal := true }
      let settlement :=
        if success then .resolved (collect result s) else .rejected .COMPUTER_JS_FAILED
      { s with settlements := s.settlements ++ [settlement] }

def continued (s : RunState Result) : Option (RunState Result) :=
  match s.termination, s.continuations with
  | .resolved, continuation :: rest =>
    some (proceed true continuation { s with continuations := rest })
  | .rejected, continuation :: rest =>
    some (proceed false continuation { s with continuations := rest })
  | _, _ => none

/-! ## What may happen -/

/-- A call of a listener, or of what waits for a timer or a promise. -/
inductive RunEvent where
  | output (target : Output) (chunk : Bytes)
  | message (parsed : Option RunnerMessage)
  /-- `handleRpc` ends; it throws if the user takes over or the child cannot be answered. -/
  | rpcEnded (failure : Option ComputerErrorCode)
  | error
  | close
  | abort
  | timeout
  | supervisorClose
  | graceElapsed
  | waitedClosed
  | continued
  deriving DecidableEq

/-- What an event does, with the answer to the signal it may send. A listener or a timer that is not
armed is not called; a supervisor that closes only knows children that have not closed. -/
def runner (maxOutputBytes : ℕ) (parse : String → Option Result) :
    Machine (RunState Result) (RunEvent × Bool)
  | s, (.output target chunk, sent) => some (appendOutput maxOutputBytes sent target chunk s)
  | s, (.message parsed, sent) => some (onMessage maxOutputBytes parse sent parsed s)
  | s, (.rpcEnded failure, sent) =>
    if s.pendingRpcs = 0 then none
    else
      let s := { s with pendingRpcs := s.pendingRpcs - 1 }
      match failure with
      | none => some s
      | some error => some (finishError sent error s)
  | s, (.error, sent) => some (finishError sent .COMPUTER_JS_FAILED s)
  | s, (.close, sent) => if s.closed then none else some (onClose sent s)
  | s, (.abort, sent) => if s.listening then some (finishError sent .COMPUTER_JS_FAILED s) else none
  | s, (.timeout, sent) => if s.timer then some (finishError sent .COMPUTER_JS_TIMEOUT s) else none
  | s, (.supervisorClose, sent) => if s.closed then some s else some (terminate sent s)
  | s, (.graceElapsed, sent) => graceElapsed sent s
  | s, (.waitedClosed, _) => waitedClosed s
  | s, (.continued, _) => continued s

/-- What `spawn` does; Node gives its pipes to every child that runs. -/
inductive Spawned where
  | throws
  | withoutPipes
  | child
  deriving DecidableEq

def initial : RunState Result :=
  { terminal := false, completing := false, outputBytes := 0, stdout := [], stderr := []
    pendingRpcs := 0, timer := false, listening := false, closed := false, termination := .idle
    signals := [], continuations := [], settlements := [] }

/-- `run`, up to where it waits for the child, or the error it throws at once. -/
def run (options : ComputerJsRunnerSupervisorOptions) (closing : Bool)
    (request : ComputerJsRunnerRequest) (spawned : Spawned) (sent : Bool) :
    Except ComputerErrorCode (RunState Result) :=
  if closing then .error .COMPUTER_JS_FAILED
  else if request.source.utf8ByteSize > options.maxSourceBytes then .error .COMPUTER_OUTPUT_LIMIT
  else
    match spawned with
    | .throws => .error .COMPUTER_JS_FAILED
    | .withoutPipes => .error .COMPUTER_JS_FAILED
    | .child =>
      let s := { initial with timer := request.timeoutMs.isSome }
      if request.signal = some true then .ok (finishError sent .COMPUTER_JS_FAILED s)
      else .ok { s with listening := request.signal.isSome }

/-! ## The signals -/

variable {maxOutputBytes : ℕ} {parse : String → Option Result} {s t : RunState Result}

/-- What the promise of `terminate` says of the child. -/
structure Signalled (s : RunState Result) : Prop where
  closed : s.termination = .resolved → s.closed = true
  refused : s.termination = .refused ∨ s.termination = .rejected →
    ∃ signal, (signal, false) ∈ s.signals

theorem exists_terminate (sent : Bool) (s : RunState Result) : ∃ termination signals,
    terminate sent s = { s with termination := termination, signals := signals } ∧
      termination ≠ .idle ∧ (s.termination ≠ .idle → termination = s.termination) := by
  rw [terminate]
  split
  next hidle =>
    refine ⟨_, _, rfl, ?_, fun hbegun => absurd hidle hbegun⟩
    cases sent <;> exact Termination.noConfusion
  next hbegun => exact ⟨s.termination, s.signals, rfl, hbegun, fun _ => rfl⟩

section

variable (h : Signalled s)

include h

theorem Signalled.of_eq (hclosed : s.closed = true → t.closed = true)
    (htermination : t.termination = s.termination) (hsignals : t.signals = s.signals) :
    Signalled t where
  closed hresolved := hclosed (h.closed (htermination ▸ hresolved))
  refused hrefused := hsignals ▸ h.refused (htermination ▸ hrefused)

theorem Signalled.terminate (sent : Bool) : Signalled (terminate sent s) := by
  rw [JsRunner.terminate]
  split
  · cases sent with
    | true => exact ⟨nofun, nofun⟩
    | false => exact ⟨nofun, fun _ => ⟨.SIGTERM, by simp⟩⟩
  · exact h

theorem Signalled.finishError (sent : Bool) (error : ComputerErrorCode) :
    Signalled (finishError sent error s) := by
  rw [JsRunner.finishError]
  split
  · exact h
  · have hopen : Signalled (detachRequestGuards { s with terminal := true }) :=
      h.of_eq id rfl rfl
    exact (hopen.terminate sent).of_eq id rfl rfl

theorem Signalled.finishSuccess (sent : Bool) (resultJson : Option String) :
    Signalled (finishSuccess maxOutputBytes parse sent resultJson s) := by
  rw [JsRunner.finishSuccess]
  split
  · exact h.finishError sent _
  split
  · exact h.finishError sent _
  split
  · exact h.finishError sent _
  · have hopen : Signalled { s with
        outputBytes := s.outputBytes + resultBytes resultJson
        completing := true
        timer := false } := h.of_eq id rfl rfl
    exact (hopen.terminate sent).of_eq id rfl rfl

theorem Signalled.onMessage (sent : Bool) (parsed : Option RunnerMessage) :
    Signalled (onMessage maxOutputBytes parse sent parsed s) := by
  unfold JsRunner.onMessage
  split
  · exact h
  split
  · exact h.finishError sent _
  split
  · exact h.finishError sent _
  · exact h.finishSuccess sent _
  · exact h.finishError sent _
  · exact h.of_eq id rfl rfl

theorem Signalled.appendOutput (sent : Bool) (target : Output) (chunk : Bytes) :
    Signalled (appendOutput maxOutputBytes sent target chunk s) := by
  unfold JsRunner.appendOutput
  split
  · exact h
  dsimp only
  split
  · refine Signalled.finishError ?_ sent _
    exact h.of_eq id rfl rfl
  · cases target <;> exact h.of_eq id rfl rfl

theorem Signalled.graceElapsed {sent : Bool} (ht : graceElapsed sent s = some t) : Signalled t := by
  rw [JsRunner.graceElapsed] at ht
  split at ht
  · cases ht
  split at ht
  · obtain rfl := Option.some.inj ht
    cases sent with
    | true => exact ⟨nofun, nofun⟩
    | false => exact ⟨nofun, fun _ => ⟨.SIGKILL, by simp⟩⟩
  next hrefused =>
    obtain rfl := Option.some.inj ht
    exact ⟨nofun, fun _ => h.refused (.inl hrefused)⟩
  · cases ht

end

theorem Signalled.waitedClosed (ht : waitedClosed s = some t) : Signalled t := by
  rw [JsRunner.waitedClosed] at ht
  split at ht
  next hclosed =>
    split at ht
    · obtain rfl := Option.some.inj ht
      exact ⟨fun _ => hclosed, nofun⟩
    · obtain rfl := Option.some.inj ht
      exact ⟨fun _ => hclosed, nofun⟩
    · obtain rfl := Option.some.inj ht
      exact ⟨fun _ => hclosed, nofun⟩
    · cases ht
  · cases ht

theorem Signalled.proceed (h : Signalled s) (success : Bool) (continuation : Continuation Result) :
    Signalled (proceed success continuation s) := by
  unfold JsRunner.proceed
  split
  · exact h.of_eq id rfl rfl
  · split
    · exact h
    · exact h.of_eq id rfl rfl

theorem Signalled.step (h : Signalled s) {event : RunEvent} {sent : Bool}
    (ht : runner maxOutputBytes parse s (event, sent) = some t) : Signalled t := by
  cases event with
  | output target chunk =>
    obtain rfl := Option.some.inj ht
    exact h.appendOutput sent target chunk
  | message parsed =>
    obtain rfl := Option.some.inj ht
    exact h.onMessage sent parsed
  | rpcEnded failure =>
    simp only [runner] at ht
    split at ht
    · cases ht
    · cases failure with
      | none =>
        obtain rfl := Option.some.inj ht
        exact h.of_eq id rfl rfl
      | some error =>
        obtain rfl := Option.some.inj ht
        refine Signalled.finishError ?_ sent error
        exact h.of_eq id rfl rfl
  | error =>
    obtain rfl := Option.some.inj ht
    exact h.finishError sent _
  | close =>
    simp only [runner, onClose] at ht
    split at ht
    · cases ht
    · obtain rfl := Option.some.inj ht
      have hclosed : Signalled { s with closed := true } := h.of_eq (fun _ => rfl) rfl rfl
      split
      · exact hclosed.finishError sent _
      · exact hclosed
  | abort =>
    simp only [runner] at ht
    split at ht
    · obtain rfl := Option.some.inj ht
      exact h.finishError sent _
    · cases ht
  | timeout =>
    simp only [runner] at ht
    split at ht
    · obtain rfl := Option.some.inj ht
      exact h.finishError sent _
    · cases ht
  | supervisorClose =>
    simp only [runner] at ht
    split at ht
    · obtain rfl := Option.some.inj ht
      exact h
    · obtain rfl := Option.some.inj ht
      exact h.terminate sent
  | graceElapsed => exact h.graceElapsed ht
  | waitedClosed => exact .waitedClosed ht
  | continued =>
    simp only [runner, continued] at ht
    split at ht
    · obtain rfl := Option.some.inj ht
      refine Signalled.proceed ?_ true _
      exact h.of_eq id rfl rfl
    · obtain rfl := Option.some.inj ht
      refine Signalled.proceed ?_ false _
      exact h.of_eq id rfl rfl
    · cases ht

end JsRunner

end Computer
