import ChatgptSystem.Foundations.Program
import ChatgptSystem.Native.InputModels
import Mathlib.Logic.Function.Basic

/-!
# The physical lane and the safety coordinator

The state that the actions of the input controller share, and the operations they do on it.

* `PhysicalActionLane` — the lane that one action holds at a time; a release hands it over to
  the action that waits longest;
* `InputSafetyCoordinator` — the interruption that the monitor records and the actions look for;
* `InputOp`, `InputOp.apply` — the operations; what the system answers is chosen by the
  environment.
-/

open Interleaving

namespace InputControl

open DoubleArithmetic

/-! ## The lane -/

structure PhysicalActionLane (ι : Type) where
  busy : Bool
  waiters : List ι
  /-- The calls whose continuation has been resumed, but which have not gone on yet. -/
  resumed : ι → Bool

section Lane

variable {ι : Type} [DecidableEq ι]

/-- `acquire`, up to the suspension of a call that has to wait. -/
def PhysicalActionLane.acquire (lane : PhysicalActionLane ι) (call : ι) :
    Bool × PhysicalActionLane ι :=
  if !lane.busy then (true, { lane with busy := true })
  else (false, { lane with waiters := lane.waiters ++ [call] })

def PhysicalActionLane.release (lane : PhysicalActionLane ι) : PhysicalActionLane ι :=
  match lane.waiters with
  | [] => { lane with busy := false }
  | next :: rest =>
    { lane with waiters := rest, resumed := Function.update lane.resumed next true }

end Lane

/-! ## The coordinator -/

inductive InputSafetyInterruption where
  | userTakeover
  | emergencyStop
  deriving DecidableEq

def InputSafetyInterruption.toError : InputSafetyInterruption → InputError
  | .userTakeover => .userTakeover
  | .emergencyStop => .emergencyStop

inductive PhysicalInputKind where
  | pointerMoved
  | mouseButton
  | scroll
  | key
  | flagsChanged
  deriving DecidableEq

structure ObservedPhysicalInput (D : Type) where
  kind : PhysicalInputKind
  location : Option (ComputerPoint D)
  /-- Whether the event carries the tag of the events the runtime posts itself. -/
  owned : Bool
  emergencyChord : Bool

structure InputSafetyCoordinator (D : Type) where
  active : Bool
  expectedPointer : Option (ComputerPoint D)
  interruption : Option InputSafetyInterruption
  monitorAvailable : Bool

section Coordinator

variable {D : Type} [DoubleArithmetic D]

namespace InputSafetyCoordinator

def beginAction (coordinator : InputSafetyCoordinator D)
    (expectedPointer : Option (ComputerPoint D)) : InputSafetyCoordinator D :=
  { coordinator with active := true, expectedPointer, interruption := none }

def updateExpectedPointer (coordinator : InputSafetyCoordinator D) (point : ComputerPoint D) :
    InputSafetyCoordinator D :=
  if coordinator.active then { coordinator with expectedPointer := some point } else coordinator

def endAction (coordinator : InputSafetyCoordinator D) : InputSafetyCoordinator D :=
  { coordinator with active := false, expectedPointer := none, interruption := none }

/-- Whether the pointer is more than 18 pixels away from where it is expected. -/
def pointerStrays (expectedPointer location : Option (ComputerPoint D)) : Bool :=
  match expectedPointer, location with
  | some expected, some location => lt (decimal 18 0) (distance location expected)
  | _, _ => false

def observe (coordinator : InputSafetyCoordinator D) (input : ObservedPhysicalInput D) :
    InputSafetyCoordinator D :=
  if !(coordinator.active && coordinator.interruption.isNone) then coordinator
  else if input.owned then coordinator
  else if input.emergencyChord then { coordinator with interruption := some .emergencyStop }
  else match input.kind with
    | .pointerMoved =>
      if pointerStrays coordinator.expectedPointer input.location then
        { coordinator with interruption := some .userTakeover }
      else coordinator
    | _ => { coordinator with interruption := some .userTakeover }

def triggerEmergencyStop (coordinator : InputSafetyCoordinator D) : InputSafetyCoordinator D :=
  if coordinator.active && coordinator.interruption.isNone then
    { coordinator with interruption := some .emergencyStop }
  else coordinator

def checkForInterruption (coordinator : InputSafetyCoordinator D) : Except InputError Unit :=
  if coordinator.active && !coordinator.monitorAvailable then .error .unavailable
  else match coordinator.interruption with
    | some interruption => .error interruption.toError
    | none => .ok ()

end InputSafetyCoordinator

/-- A physical input of the user, given where an action expects the pointer: not an event of the
runtime, and not a movement that stays close to that place. -/
def isTakeover (expectedPointer : Option (ComputerPoint D)) (input : ObservedPhysicalInput D) :
    Bool :=
  !input.owned && (input.emergencyChord || input.kind ≠ .pointerMoved ||
    InputSafetyCoordinator.pointerStrays expectedPointer input.location)

end Coordinator

/-! ## The shared state -/

inductive Phase where
  /-- It has not asked for the lane. -/
  | outside
  | waiting
  /-- It holds the lane and has not begun its safety action. -/
  | holding
  /-- It holds the lane and has begun its safety action. -/
  | begun
  /-- It has released the lane and has not ended its safety action. -/
  | released
  | ended
  deriving DecidableEq

/-- The lane, the coordinator and the held inputs. What the actions have done is recorded: how
far each has come, the events posted, where each action expects the pointer, whether the user has
interfered since it has begun, how many safety checks it has made, and what was held when it
released the lane. -/
structure Machine (ι D : Type) where
  lane : PhysicalActionLane ι
  coordinator : InputSafetyCoordinator D
  heldInputs : HeldInputState
  phase : ι → Phase
  log : List (InputEvent D)
  expects : ι → Option (ComputerPoint D)
  takenOver : ι → Bool
  checks : ι → ℕ
  heldAtRelease : ι → Option HeldInputState

/-! ## Operations -/

inductive InputOp (D : Type) where
  | acquire
  /-- Go on after the lane has been handed over. -/
  | resume
  | release
  | beginAction (expectedPointer : Option (ComputerPoint D))
  | updateExpectedPointer (point : ComputerPoint D)
  | checkForInterruption
  | endAction
  | snapshot
  | insert (input : HeldInput)
  | remove (input : HeldInput)
  | emit (event : InputEvent D)
  | currentPointerPosition
  | activeDisplayBounds
  | sleep (nanoseconds : ℕ)
  | isCancelled
  | verifyExpectedContext
  | verifyExpectedFrontmost
  | observe (input : ObservedPhysicalInput D)
  | triggerEmergencyStop
  | markMonitor (available : Bool)

def InputOp.Res {D : Type} : InputOp D → Type
  | .acquire => Bool
  | .checkForInterruption => Except InputError Unit
  | .snapshot => HeldInputState
  | .emit _ => Except InputError Unit
  | .currentPointerPosition => Except InputError (ComputerPoint D)
  | .activeDisplayBounds => Except InputError (List (ComputerBounds D))
  | .sleep _ => Except InputError Unit
  | .isCancelled => Bool
  | .verifyExpectedContext => Except InputError Unit
  | .verifyExpectedFrontmost => Except InputError Unit
  | _ => Unit

abbrev InputM (D α : Type) : Type := Program (InputOp D) InputOp.Res InputError α

inductive InputChoice (D : Type) where
  | completes
  | fails (error : InputError)
  | points (point : ComputerPoint D)
  | displays (bounds : List (ComputerBounds D))
  | cancelled

section Steps

variable {ι D : Type} [DecidableEq ι] [DoubleArithmetic D]

def Phase.next (phase : Phase) : (o : InputOp D) → o.Res → Phase
  | .acquire, got => cond got .holding .waiting
  | .resume, _ => .holding
  | .beginAction _, _ => .begun
  | .release, _ => if phase = .begun then .released else .ended
  | .endAction, _ => .ended
  | _, _ => phase

/-- The answer of the system to an operation without a result of its own. -/
def InputChoice.outcome : InputChoice D → Option (Except InputError Unit)
  | .completes => some (.ok ())
  | .fails error => some (.error error)
  | _ => none

/-- An operation on the shared state, but for the phase of the call. -/
def InputOp.act (choice : InputChoice D) (call : ι) :
    (o : InputOp D) → Machine ι D → Option (o.Res × Machine ι D)
  | .acquire, m =>
    let (got, lane) := m.lane.acquire call
    some (got, { m with lane })
  | .resume, m =>
    if m.lane.resumed call then
      some ((), { m with
        lane := { m.lane with resumed := Function.update m.lane.resumed call false } })
    else none
  | .release, m =>
    some ((), { m with
      lane := m.lane.release
      heldAtRelease := Function.update m.heldAtRelease call (some m.heldInputs) })
  | .beginAction expectedPointer, m =>
    some ((), { m with
      coordinator := m.coordinator.beginAction expectedPointer
      expects := Function.update m.expects call expectedPointer
      takenOver := Function.update m.takenOver call false })
  | .updateExpectedPointer point, m =>
    some ((), { m with
      coordinator := m.coordinator.updateExpectedPointer point
      expects := Function.update m.expects call (some point) })
  | .checkForInterruption, m =>
    some (m.coordinator.checkForInterruption, { m with
      checks := Function.update m.checks call (m.checks call + 1) })
  | .endAction, m => some ((), { m with coordinator := m.coordinator.endAction })
  | .snapshot, m => some (m.heldInputs, m)
  | .insert input, m => some ((), { m with heldInputs := m.heldInputs.insert input })
  | .remove input, m => some ((), { m with heldInputs := m.heldInputs.remove input })
  | .emit event, m =>
    match choice with
    | .completes => some (.ok (), { m with log := m.log ++ [event] })
    | .fails error => some (.error error, m)
    | _ => none
  | .currentPointerPosition, m =>
    match choice with
    | .points point => some (.ok point, m)
    | .fails error => some (.error error, m)
    | _ => none
  | .activeDisplayBounds, m =>
    match choice with
    | .displays bounds => some (.ok bounds, m)
    | .fails error => some (.error error, m)
    | _ => none
  | .sleep _, m => choice.outcome.map fun outcome => (outcome, m)
  | .isCancelled, m =>
    match choice with
    | .completes => some (false, m)
    | .cancelled => some (true, m)
    | _ => none
  | .verifyExpectedContext, m => choice.outcome.map fun outcome => (outcome, m)
  | .verifyExpectedFrontmost, m => choice.outcome.map fun outcome => (outcome, m)
  | .observe input, m =>
    some ((), { m with
      coordinator := m.coordinator.observe input
      takenOver := fun i =>
        m.takenOver i || (m.phase i = .begun && isTakeover (m.expects i) input) })
  | .triggerEmergencyStop, m =>
    some ((), { m with
      coordinator := m.coordinator.triggerEmergencyStop
      takenOver := fun i => m.takenOver i || m.phase i = .begun })
  | .markMonitor available, m =>
    some ((), { m with coordinator := { m.coordinator with monitorAvailable := available } })

def InputOp.apply (choice : InputChoice D) (call : ι) (o : InputOp D) (m : Machine ι D) :
    Option (o.Res × Machine ι D) :=
  (o.act choice call m).map fun result =>
    (result.1, { result.2 with
      phase := Function.update m.phase call ((m.phase call).next o result.1) })

def inputExec (call : ι) : Exec (InputOp D) InputOp.Res (Machine ι D) :=
  fun o m r m' => ∃ choice, o.apply choice call m = some (r, m')

theorem inputExec_iff {call : ι} {o : InputOp D} {m m' : Machine ι D} {r : o.Res} :
    inputExec call o m r m' ↔ ∃ choice acted, o.act choice call m = some (r, acted) ∧
      m' = { acted with
        phase := Function.update m.phase call ((m.phase call).next o r) } := by
  constructor
  · rintro ⟨choice, h⟩
    obtain ⟨⟨r', acted⟩, hact, heq⟩ := Option.map_eq_some_iff.mp h
    obtain ⟨rfl, rfl⟩ := Prod.mk.inj heq
    exact ⟨choice, acted, hact, rfl⟩
  · rintro ⟨choice, acted, hact, rfl⟩
    exact ⟨choice, by rw [InputOp.apply, hact]; rfl⟩

end Steps

end InputControl
