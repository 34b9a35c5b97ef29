import ChatgptSystem.Core.Text
import ChatgptSystem.Native.InputMachine
import Mathlib.Data.List.Sort

/-!
# The input controller

`ComputerInputController`: every action takes the lane, begins a safety action, posts its events and
looks for an interruption around each of them; when something fails it releases all held inputs, and
in the end it gives the lane back and ends the safety action.

* `emitActionEvent`, `emitMouseDownWithinLane`, `emitMouseUpWithinLane`,
  `releaseAllInputsWithinLane`, `moveMouseWithinLane` — the parts of the actions;
* `withinLane` — what all actions do around their body;
* `moveMouse`, `click`, `doubleClick`, `mouseDown`, `mouseUp`, `drag`, `scroll`, `pressKey`,
  `typeText`, `releaseAllInputs` — the actions; `InputCall` — an action or an event from outside.
-/

open Interleaving

namespace InputControl

open DoubleArithmetic

variable {D : Type}

def orThrow {α : Type} (outcome : Except InputError α) : InputM D α := .ofExcept outcome

/-! ## Single operations -/

def acquireLane : InputM D Unit :=
  .request .acquire fun got =>
    cond got (.pure ()) (.request .resume fun _ => .pure ())

def releaseLane : InputM D Unit := .request .release fun _ => .pure ()

def checkSafety : InputM D Unit := .request .checkForInterruption orThrow

def emit (event : InputEvent D) : InputM D Unit := .request (.emit event) orThrow

def insert (input : HeldInput) : InputM D Unit := .request (.insert input) fun _ => .pure ()

def remove (input : HeldInput) : InputM D Unit := .request (.remove input) fun _ => .pure ()

def snapshot : InputM D HeldInputState := .request .snapshot .pure

def sleep (nanoseconds : ℕ) : InputM D Unit := .request (.sleep nanoseconds) orThrow

def checkCancellation : InputM D Unit :=
  .request .isCancelled fun cancelled => cond cancelled (.throw .cancellation) (.pure ())

def verifyContext (contextGuard : Bool) : InputM D Unit :=
  if contextGuard then do
    checkSafety
    .request .verifyExpectedContext orThrow
    checkSafety
  else pure ()

def verifyFocus : InputM D Unit := do
  checkSafety
  .request .verifyExpectedFrontmost orThrow
  checkSafety

def updateExpectedPointer (point : ComputerPoint D) : InputM D Unit :=
  .request (.updateExpectedPointer point) fun _ => .pure ()

section Geometry

variable [DoubleArithmetic D]

def pointerPosition : InputM D (ComputerPoint D) :=
  .request .currentPointerPosition fun
    | .ok point => if point.isFinite then .pure point else .throw .unavailable
    | .error error => .throw error

/-- `CGRect.contains` for a rectangle with an interior. -/
def ComputerBounds.contains (bounds : ComputerBounds D) (point : ComputerPoint D) : Bool :=
  le bounds.x point.x && lt point.x (add bounds.x bounds.width) &&
    le bounds.y point.y && lt point.y (add bounds.y bounds.height)

def validate (target : ComputerPoint D) : InputM D Unit :=
  if !target.isFinite then .throw .targetOutOfBounds
  else .request .activeDisplayBounds fun
    | .error error => .throw error
    | .ok displays =>
      if displays.any fun bounds =>
          isFinite bounds.x && isFinite bounds.y && isFinite bounds.width &&
            isFinite bounds.height && lt (decimal 0 0) bounds.width &&
            lt (decimal 0 0) bounds.height && bounds.contains target
      then .pure ()
      else .throw .targetOutOfBounds

/-- Whether two points are at most `clickTolerancePixels` apart. -/
def isNear (current target : ComputerPoint D) : Bool :=
  le (distance current target) (decimal 2 0)

def verifyPointerNear (target : ComputerPoint D) : InputM D Unit := do
  let current ← pointerPosition
  if isNear current target then pure () else throw .unavailable

/-! ## Parts of the actions -/

def emitActionEvent (event : InputEvent D) (expectedPointer : Option (ComputerPoint D)) :
    InputM D Unit := do
  checkSafety
  emit event
  match expectedPointer with
  | some point => updateExpectedPointer point
  | none => pure ()
  checkSafety

def emitMouseDownWithinLane (button : ComputerMouseButton) (point : ComputerPoint D)
    (clickCount : ℕ) : InputM D Unit := do
  checkCancellation
  checkSafety
  emit (.mouseButton button true point clickCount)
  insert (.mouseButton button)
  checkSafety

def emitMouseUpWithinLane (button : ComputerMouseButton) (point : ComputerPoint D)
    (clickCount : ℕ) : InputM D Unit := do
  checkSafety
  emit (.mouseButton button false point clickCount)
  remove (.mouseButton button)
  checkSafety

/-- The pointer is read up to `checks` times, with a pause between two reads. -/
def settle (target : ComputerPoint D) : ℕ → InputM D Unit
  | 0 => throw .unavailable
  | checks + 1 => do
    checkCancellation
    checkSafety
    let current ← pointerPosition
    if isNear current target then pure ()
    else if checks = 0 then throw .unavailable
    else
      sleep 2000000
      settle target checks

def waitForPointerToSettle (target : ComputerPoint D) : InputM D Unit := settle target 20

def followSamples (dragButton : Option ComputerMouseButton) (contextGuard : Bool) :
    ℕ → List (PointerTrajectorySample D) → InputM D Unit
  | _, [] => pure ()
  | previousOffset, sample :: samples => do
    checkCancellation
    let delay := sample.offsetNanoseconds - previousOffset
    if delay > 0 then
      checkSafety
      sleep delay
      checkSafety
    checkCancellation
    verifyContext contextGuard
    emitActionEvent (.mouseMove sample.point dragButton) (some sample.point)
    followSamples dragButton contextGuard sample.offsetNanoseconds samples

def moveMouseWithinLane (target : ComputerPoint D) (mode : PointerMotionMode)
    (dragButton : Option ComputerMouseButton) (contextGuard : Bool) :
    InputM D (ComputerActionResult D) := do
  checkCancellation
  validate target
  let start ← pointerPosition
  let samples ← orThrow (PointerTrajectory.samples start target mode)
  followSamples dragButton contextGuard 0 (samples.drop 1)
  waitForPointerToSettle target
  pure { state := "completed", pointer := some target }

/-! ## Releasing all inputs -/

/-- One attempt of several: the first error of all is kept. -/
def attempting (firstError : Option InputError) (p : InputM D Unit) :
    InputM D (Option InputError) :=
  p.attempt.bind fun
    | .ok () => .pure firstError
    | .error error => .pure (firstError.or (some error))

def releaseKeys (activeModifiers : List ComputerKeyModifier) :
    List ℕ → Option InputError → InputM D (Option InputError)
  | [], firstError => .pure firstError
  | keyCode :: keyCodes, firstError =>
    (attempting firstError do
      emit (.key keyCode false activeModifiers)
      remove (.keyCode keyCode)).bind fun firstError =>
    releaseKeys activeModifiers keyCodes firstError

def releaseModifiers :
    List ComputerKeyModifier → List ComputerKeyModifier → Option InputError →
      InputM D (Option InputError)
  | [], _, firstError => .pure firstError
  | modifier :: order, activeModifiers, firstError =>
    if modifier ∈ activeModifiers then
      let nextModifiers := activeModifiers.filter (· ≠ modifier)
      (do
        emit (.key (KeyMapping.modifierKeyCode modifier) false nextModifiers)
        remove (.modifier modifier) : InputM D Unit).attempt.bind fun
      | .ok () => releaseModifiers order nextModifiers firstError
      | .error error => releaseModifiers order activeModifiers (firstError.or (some error))
    else releaseModifiers order activeModifiers firstError

def mouseReleaseOrder : List ComputerMouseButton := [.left, .right, .middle]

def releaseMouseButtons (held : List ComputerMouseButton) (point : ComputerPoint D) :
    List ComputerMouseButton → Option InputError → InputM D (Option InputError)
  | [], firstError => .pure firstError
  | button :: order, firstError =>
    if button ∈ held then
      (attempting firstError do
        emit (.mouseButton button false point 1)
        remove (.mouseButton button)).bind fun firstError =>
      releaseMouseButtons held point order firstError
    else releaseMouseButtons held point order firstError

def releaseAllInputsWithinLane : InputM D Unit := do
  let first ← snapshot
  let firstError ← releaseKeys first.modifiers (first.keyCodes.insertionSort (· ≤ ·)) none
  let firstError ← releaseModifiers KeyMapping.modifierReleaseOrder first.modifiers firstError
  let second ← snapshot
  let firstError ←
    if second.mouseButtons.isEmpty then pure firstError
    else pointerPosition.attempt.bind fun
      | .ok point => releaseMouseButtons second.mouseButtons point mouseReleaseOrder firstError
      | .error error => pure (firstError.or (some error))
  match firstError with
  | some error => throw error
  | none => pure ()

/-! ## The actions -/

/-- What every action does around its body: it takes the lane and begins its safety action; if
the body fails, all inputs are released; the safety action ends after the lane has been released.
-/
def withinLane (body : InputM D (ComputerActionResult D)) : InputM D (ComputerActionResult D) :=
  acquireLane.bind fun () =>
    pointerPosition.attempt.bind fun pointer =>
      .request (.beginAction pointer.toOption) fun () =>
        ((body.bind fun result => releaseLane.bind fun () => .pure result).tryCatch fun error =>
          releaseAllInputsWithinLane.attempt.bind fun _ =>
            releaseLane.bind fun () => .throw error).tryFinally
        (.request .endAction fun _ => .pure ())

def completed (pointer : Option (ComputerPoint D)) : ComputerActionResult D :=
  { state := "completed", pointer }

def moveMouse (target : ComputerPoint D) (mode : PointerMotionMode) (contextGuard : Bool) :
    InputM D (ComputerActionResult D) :=
  withinLane (moveMouseWithinLane target mode none contextGuard)

def click (target : ComputerPoint D) (button : ComputerMouseButton) (mode : PointerMotionMode)
    (contextGuard : Bool) : InputM D (ComputerActionResult D) :=
  withinLane do
    let _ ← moveMouseWithinLane target mode none contextGuard
    verifyPointerNear target
    verifyContext contextGuard
    emitMouseDownWithinLane button target 1
    verifyContext contextGuard
    emitMouseUpWithinLane button target 1
    pure (completed (some target))

def doubleClick (target : ComputerPoint D) (button : ComputerMouseButton)
    (mode : PointerMotionMode) (contextGuard : Bool) : InputM D (ComputerActionResult D) :=
  withinLane do
    let _ ← moveMouseWithinLane target mode none contextGuard
    verifyPointerNear target
    verifyContext contextGuard
    emitMouseDownWithinLane button target 1
    verifyContext contextGuard
    emitMouseUpWithinLane button target 1
    checkSafety
    sleep 60000000
    checkSafety
    checkCancellation
    verifyContext contextGuard
    emitMouseDownWithinLane button target 2
    verifyContext contextGuard
    emitMouseUpWithinLane button target 2
    pure (completed (some target))

def mouseDown (button : ComputerMouseButton) : InputM D (ComputerActionResult D) :=
  withinLane do
    let point ← pointerPosition
    emitMouseDownWithinLane button point 1
    pure (completed (some point))

def mouseUp (button : ComputerMouseButton) : InputM D (ComputerActionResult D) :=
  withinLane do
    let point ← pointerPosition
    emitMouseUpWithinLane button point 1
    pure (completed (some point))

def drag (start target : ComputerPoint D) (button : ComputerMouseButton)
    (mode : PointerMotionMode) (contextGuard : Bool) : InputM D (ComputerActionResult D) :=
  withinLane do
    let _ ← moveMouseWithinLane start mode none contextGuard
    verifyPointerNear start
    verifyContext contextGuard
    emitMouseDownWithinLane button start 1
    let _ ← moveMouseWithinLane target mode (some button) contextGuard
    verifyContext contextGuard
    emitMouseUpWithinLane button target 1
    pure (completed (some target))

def maxScrollDelta : ℕ := 10000

def scroll (vertical horizontal : ℤ) (point : Option (ComputerPoint D))
    (mode : PointerMotionMode) (contextGuard : Bool) : InputM D (ComputerActionResult D) :=
  if ¬ (vertical.natAbs ≤ maxScrollDelta ∧ horizontal.natAbs ≤ maxScrollDelta) then
    .throw .invalidInput
  else withinLane do
    match point with
    | some point =>
      let _ ← moveMouseWithinLane point mode none contextGuard
    | none => pure ()
    checkCancellation
    if vertical ≠ 0 ∨ horizontal ≠ 0 then
      verifyContext contextGuard
      emitActionEvent (.scroll vertical horizontal) none
    let current ← pointerPosition
    pure (completed (some current))

/-- The modifiers that are not active yet go down, in the order of the list. -/
def pressModifiers (modifiers : List ComputerKeyModifier) :
    List ComputerKeyModifier → List ComputerKeyModifier → InputM D (List ComputerKeyModifier)
  | [], activeModifiers => pure activeModifiers
  | modifier :: order, activeModifiers =>
    if modifier ∈ modifiers ∧ modifier ∉ activeModifiers then do
      checkCancellation
      verifyFocus
      let nextModifiers := activeModifiers.insert modifier
      checkSafety
      emit (.key (KeyMapping.modifierKeyCode modifier) true nextModifiers)
      insert (.modifier modifier)
      checkSafety
      pressModifiers modifiers order nextModifiers
    else pressModifiers modifiers order activeModifiers

def liftModifiers (modifiers : List ComputerKeyModifier) :
    List ComputerKeyModifier → List ComputerKeyModifier → InputM D Unit
  | [], _ => pure ()
  | modifier :: order, activeModifiers =>
    if modifier ∈ modifiers ∧ modifier ∈ activeModifiers then do
      checkCancellation
      verifyFocus
      let nextModifiers := activeModifiers.filter (· ≠ modifier)
      checkSafety
      emit (.key (KeyMapping.modifierKeyCode modifier) false nextModifiers)
      remove (.modifier modifier)
      checkSafety
      liftModifiers modifiers order nextModifiers
    else liftModifiers modifiers order activeModifiers

def pressKey (name : String) (modifiers : List ComputerKeyModifier) :
    InputM D (ComputerActionResult D) :=
  match KeyMapping.keyCode name with
  | none => .throw .invalidInput
  | some keyCode => withinLane do
    checkCancellation
    verifyFocus
    let held ← snapshot
    let activeModifiers ← pressModifiers modifiers KeyMapping.modifierDownOrder held.modifiers
    checkCancellation
    verifyFocus
    checkSafety
    emit (.key keyCode true activeModifiers)
    insert (.keyCode keyCode)
    checkSafety
    checkCancellation
    verifyFocus
    checkSafety
    emit (.key keyCode false activeModifiers)
    remove (.keyCode keyCode)
    checkSafety
    liftModifiers modifiers KeyMapping.modifierReleaseOrder activeModifiers
    pure (completed none)

/-- The chunks of a text, after `current`, none longer than 20 code units unless it is a single
character. -/
def unicodeChunksFrom (current : List Char) : List Char → List (List Char)
  | [] => if current.isEmpty then [] else [current]
  | scalar :: text =>
    if Text.length current + (Text.codeUnits scalar).length > 20 ∧ current ≠ [] then
      current :: unicodeChunksFrom [scalar] text
    else unicodeChunksFrom (current ++ [scalar]) text

def unicodeChunks (text : List Char) : List (List Char) := unicodeChunksFrom [] text

def typeChunks : List (List Char) → InputM D Unit
  | [] => pure ()
  | chunk :: chunks => do
    checkCancellation
    verifyFocus
    emitActionEvent (.unicode chunk) none
    typeChunks chunks

def typeText (text : List Char) : InputM D (ComputerActionResult D) :=
  withinLane do
    checkCancellation
    verifyFocus
    typeChunks (unicodeChunks text)
    pure (completed none)

/-- Releasing all inputs on request is no safety action. -/
def releaseAllInputs : InputM D (ComputerActionResult D) :=
  acquireLane.bind fun () =>
    (releaseAllInputsWithinLane.bind fun () =>
      releaseLane.bind fun () => .pure (completed none)).tryCatch fun error =>
    releaseLane.bind fun () => .throw error

/-! ## Calls -/

inductive InputAction (D : Type) where
  | moveMouse (target : ComputerPoint D) (mode : PointerMotionMode) (contextGuard : Bool)
  | click (target : ComputerPoint D) (button : ComputerMouseButton) (mode : PointerMotionMode)
      (contextGuard : Bool)
  | doubleClick (target : ComputerPoint D) (button : ComputerMouseButton)
      (mode : PointerMotionMode) (contextGuard : Bool)
  | mouseDown (button : ComputerMouseButton)
  | mouseUp (button : ComputerMouseButton)
  | drag (start target : ComputerPoint D) (button : ComputerMouseButton)
      (mode : PointerMotionMode) (contextGuard : Bool)
  | scroll (vertical horizontal : ℤ) (point : Option (ComputerPoint D))
      (mode : PointerMotionMode) (contextGuard : Bool)
  | pressKey (name : String) (modifiers : List ComputerKeyModifier)
  | typeText (text : List Char)
  | releaseAllInputs

/-- Something that happens to the coordinator from outside. -/
inductive InputOccurrence (D : Type) where
  | observed (input : ObservedPhysicalInput D)
  | emergencyStop
  | monitor (available : Bool)

inductive InputCall (D : Type) where
  | action (action : InputAction D)
  | occurrence (occurrence : InputOccurrence D)

def InputAction.program : InputAction D → InputM D (ComputerActionResult D)
  | .moveMouse target mode contextGuard => InputControl.moveMouse target mode contextGuard
  | .click target button mode contextGuard => InputControl.click target button mode contextGuard
  | .doubleClick target button mode contextGuard =>
    InputControl.doubleClick target button mode contextGuard
  | .mouseDown button => InputControl.mouseDown button
  | .mouseUp button => InputControl.mouseUp button
  | .drag start target button mode contextGuard =>
    InputControl.drag start target button mode contextGuard
  | .scroll vertical horizontal point mode contextGuard =>
    InputControl.scroll vertical horizontal point mode contextGuard
  | .pressKey name modifiers => InputControl.pressKey name modifiers
  | .typeText text => InputControl.typeText text
  | .releaseAllInputs => InputControl.releaseAllInputs

def InputOccurrence.op : InputOccurrence D → InputOp D
  | .observed input => .observe input
  | .emergencyStop => .triggerEmergencyStop
  | .monitor available => .markMonitor available

def InputCall.program : InputCall D → InputM D (ComputerActionResult D)
  | .action called => called.program
  | .occurrence event => .request event.op fun _ => .pure (completed none)

abbrev InputConfiguration (ι D : Type) : Type :=
  Pool ι (InputOp D) InputOp.Res InputError (ComputerActionResult D) × Machine ι D

def inputPrograms {ι : Type} (calls : ι → InputCall D) :
    Pool ι (InputOp D) InputOp.Res InputError (ComputerActionResult D) :=
  fun i => (calls i).program

def Machine.initial {ι : Type} (monitorAvailable : Bool) : Machine ι D :=
  { lane := { busy := false, waiters := [], resumed := fun _ => false }
    coordinator :=
      { active := false, expectedPointer := none, interruption := none, monitorAvailable }
    heldInputs := .empty
    phase := fun _ => .outside
    log := []
    expects := fun _ => none
    takenOver := fun _ => false
    checks := fun _ => 0
    heldAtRelease := fun _ => none }

end Geometry

end InputControl
