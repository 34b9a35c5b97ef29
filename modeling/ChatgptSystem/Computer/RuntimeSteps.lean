import ChatgptSystem.Computer.ComputerAction
import ChatgptSystem.Foundations.ChainLock
import ChatgptSystem.Foundations.Program

/-!
# Steps of the computer runtime

The atomic steps of the operations of `ComputerRuntime`, and what they do to the state of the
runtime. Between two steps any other operation may run; what the source does in one turn, from one
`await` to the next, is one step where the rest of the runtime could tell the difference.

* `NativeRequest` — a request to the native host;
* `RuntimeOp` — the steps; `RuntimeOp.apply` — what they do;
* `RuntimeState` — the lanes, the sessions of JavaScript programs, and the native requests.
-/

open Interleaving

namespace Computer

/-! ## Requests -/

structure ComputerRuntimeConfig where
  enabled : Bool
  requestTimeoutMs : ℤ
  maxActionProgramActions : ℕ
  maxActionProgramRuntimeMs : ℤ
  maxAutomaticRetriesPerAction : ℤ

structure NativeRequest where
  method : ComputerNativeMethod
  params : Members
  timeoutMs : ℚ

def ComputerNativeMethod.isPhysical : ComputerNativeMethod → Bool
  | .open_app | .focus_app | .move_mouse | .click | .double_click | .mouse_down | .mouse_up | .drag
  | .scroll | .type_text | .press_key | .release_inputs => true
  | _ => false

inductive ComputerFailure where
  | computer (error : ComputerError)
  | other

def failed (code : ComputerErrorCode) : ComputerFailure := .computer { code }

/-- `params.timeoutMs` if it is a number, else `params.verify.timeoutMs`. -/
def requestedTimeout (params : Members) : Option ℚ :=
  match params.lookup "timeoutMs", params.lookup "verify" with
  | some (.number timeoutMs), _ => some timeoutMs
  | _, some (.object verify) =>
    match verify.lookup "timeoutMs" with
    | some (.number timeoutMs) => some timeoutMs
    | _ => none
  | _, _ => none

def requestBudget (config : ComputerRuntimeConfig) (params : Members) : ℚ :=
  match requestedTimeout params with
  | none => config.requestTimeoutMs
  | some requested => max (config.requestTimeoutMs : ℚ) (min 61000 (requested + 1000))

/-! ## Steps -/

/-- The atomic steps. An operation on a lane has a promise there, `me`; `lane` is the promise on the
physical lane under which a request is made. -/
inductive RuntimeOp (ι : Type) where
  /-- `requireEnabled`, the time, and, if the input has been accepted, a promise on the physical
  lane. -/
  | enter (accepted : Bool)
  | await (previous : Option ℕ)
  | requireEnabled
  | isClosing
  /-- `options.signal?.aborted`. -/
  | isAborted
  | now
  /-- `waitForRunDelay` and `waitForProgramDelay`. -/
  | delay (milliseconds : ℤ)
  | begin (lane : Option ℕ) (request : NativeRequest)
  | finish (request : NativeRequest)
  | settle (me : ℕ)
  /-- The session of a program that holds the physical lane with the promise `lane`. -/
  | openSession (lane : ℕ)
  /-- `await work(session)`. -/
  | work
  /-- `accepting = false`, and a promise on the lane of the session. -/
  | endSession
  | abortSession
  /-- The check of `accepting`, and a promise on the lane of the session of `owner`. -/
  | join (owner : ι)
  | sessionAborted (owner : ι)
  | cancel (owner : ι)
  /-- `close`: unless the runtime is closing, it is from now on, with a promise on the physical
  lane. -/
  | shut
  /-- Whether the runtime is enabled and the native host is running. -/
  | hostRunning
  | beginClose
  | finishClose
  /-- Wait for the `close` that has been called before. -/
  | joinClose

/-- What `enter` gives: the time, and the promise before, and the promise on the lane. -/
structure Entrance where
  now : ℚ
  chain : Option (Option ℕ × ℕ)

/-- What `join` gives: the promise of the program on the physical lane, and the promise before, and
the promise on the lane of the session. -/
structure SessionEntrance where
  lane : ℕ
  chain : Option ℕ × ℕ

section Steps

variable {ι : Type}

/-- The results of the steps, for replies in `R` and values of programs in `V`. -/
def RuntimeOp.Res (R V : Type) : RuntimeOp ι → Type
  | .enter _ => Except ComputerError Entrance
  | .await _ => Unit
  | .requireEnabled => Except ComputerError Unit
  | .isClosing => Bool
  | .isAborted => Bool
  | .now => ℚ
  | .delay _ => Except ComputerFailure Unit
  | .begin _ _ => Unit
  | .finish _ => Except ComputerFailure R
  | .settle _ => Unit
  | .openSession _ => Unit
  | .work => Except ComputerFailure V
  | .endSession => Option ℕ × ℕ
  | .abortSession => Unit
  | .join _ => Except ComputerError SessionEntrance
  | .sessionAborted _ => Bool
  | .cancel _ => Unit
  | .shut => Option (Option ℕ × ℕ)
  | .hostRunning => Bool
  | .beginClose => Unit
  | .finishClose => Except ComputerFailure Unit
  | .joinClose => Except ComputerFailure Unit

abbrev RuntimeM (ι R V α : Type) : Type :=
  Program (RuntimeOp ι) (RuntimeOp.Res R V) ComputerFailure α

/-- The session of a JavaScript program, with the promise of the program on the physical lane. -/
structure Session where
  lane : ℕ
  accepting : Bool
  aborted : Bool

/-- A native request that has been made, by whom, and under which promise on the physical lane. -/
structure LogEntry (ι : Type) where
  member : ι
  lane : Option ℕ
  request : NativeRequest

/-- The lanes, the sessions and the native requests. The key of a lane is the program whose session
it belongs to, or `none` for the physical lane. -/
structure RuntimeState (ι : Type) where
  chains : ChainLock.State ι (Option ι)
  /-- The promise of the first `close` on the physical lane, once `closing` is set. -/
  closing : Option ℕ
  closed : Option (Except ComputerFailure Unit)
  sessions : ι → Option Session
  /-- The native request that is in progress. -/
  inFlight : ι → Option NativeRequest
  /-- `native.close` has been called. -/
  nativeClosing : Bool
  /-- The native requests, the latest first. -/
  log : List (LogEntry ι)

def RuntimeState.initial : RuntimeState ι :=
  { chains := .empty, closing := none, closed := none, sessions := fun _ => none
    inFlight := fun _ => none, nativeClosing := false, log := [] }

/-- `requireEnabled`. -/
def RuntimeState.standing (config : ComputerRuntimeConfig) (s : RuntimeState ι) :
    Except ComputerError Unit :=
  if ¬ config.enabled then .error { code := .COMPUTER_DISABLED }
  else if s.closing.isSome then .error { code := .COMPUTER_UNAVAILABLE }
  else .ok ()

structure Answer (R V : Type) where
  now : ℚ
  aborted : Bool
  delay : Except ComputerFailure Unit
  reply : Except ComputerFailure R
  work : Except ComputerFailure V
  hostRunning : Bool
  closed : Except ComputerFailure Unit

variable {R V : Type} [DecidableEq ι]

def RuntimeOp.apply (config : ComputerRuntimeConfig) (answer : Answer R V) (i : ι) :
    (o : RuntimeOp ι) → RuntimeState ι → Option (o.Res R V × RuntimeState ι)
  | .enter accepted, s =>
    match s.standing config with
    | .error error => some (.error error, s)
    | .ok () =>
      if accepted then
        some (.ok ⟨answer.now, some (s.chains.queues none, s.chains.tickets.length)⟩,
          { s with chains := s.chains.enqueue i none })
      else some (.ok ⟨answer.now, none⟩, s)
  | .await previous, s => if s.chains.Ready previous then some ((), s) else none
  | .requireEnabled, s => some (s.standing config, s)
  | .isClosing, s => some (s.closing.isSome, s)
  | .isAborted, s => some (answer.aborted, s)
  | .now, s => some (answer.now, s)
  | .delay _, s => some (answer.delay, s)
  | .begin lane request, s =>
    some ((), { s with
      inFlight := Function.update s.inFlight i (some request)
      log := ⟨i, lane, request⟩ :: s.log })
  | .finish _, s =>
    some (answer.reply, { s with inFlight := Function.update s.inFlight i none })
  | .settle me, s => some ((), { s with chains := s.chains.settle me })
  | .openSession lane, s =>
    some ((), { s with
      sessions := Function.update s.sessions i
        (some { lane, accepting := true, aborted := false }) })
  | .work, s => some (answer.work, s)
  | .endSession, s =>
    some ((s.chains.queues (some i), s.chains.tickets.length),
      { s with
        chains := s.chains.enqueue i (some i)
        sessions := Function.update s.sessions i
          ((s.sessions i).map fun session => { session with accepting := false }) })
  | .abortSession, s =>
    some ((), { s with
      sessions := Function.update s.sessions i
        ((s.sessions i).map fun session => { session with aborted := true }) })
  | .join owner, s =>
    (s.sessions owner).map fun session =>
      if session.accepting then
        (.ok ⟨session.lane, s.chains.queues (some owner), s.chains.tickets.length⟩,
          { s with chains := s.chains.enqueue i (some owner) })
      else (.error { code := .COMPUTER_JS_FAILED }, s)
  | .sessionAborted owner, s =>
    (s.sessions owner).map fun session => (session.aborted, s)
  | .cancel owner, s =>
    (s.sessions owner).map fun session =>
      ((), { s with
        sessions := Function.update s.sessions owner
          (some { session with accepting := false, aborted := true }) })
  | .shut, s =>
    match s.closing with
    | some _ => some (none, s)
    | none =>
      some (some (s.chains.queues none, s.chains.tickets.length),
        { s with
          chains := s.chains.enqueue i none
          closing := some s.chains.tickets.length })
  | .hostRunning, s => some (config.enabled && answer.hostRunning, s)
  | .beginClose, s => some ((), { s with nativeClosing := true })
  | .finishClose, s => some (answer.closed, { s with closed := some answer.closed })
  | .joinClose, s => s.closed.map fun outcome => (outcome, s)

def runtimeExec (config : ComputerRuntimeConfig) (i : ι) :
    Exec (RuntimeOp ι) (RuntimeOp.Res R V) (RuntimeState ι) :=
  fun o s r later => ∃ answer : Answer R V, o.apply config answer i s = some (r, later)

end Steps

end Computer
