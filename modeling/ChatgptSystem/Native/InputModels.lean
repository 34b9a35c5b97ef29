import Mathlib.Data.Int.Notation
import Mathlib.Data.Nat.Notation
import Mathlib.Data.Nat.Sqrt
import Mathlib.Algebra.Order.Ring.Int

/-!
# Input events

The values of the native input controller: events, the inputs that are held, the key table and
the pointer trajectory. Coordinates are floating-point numbers; their arithmetic is a parameter,
since no result depends on how it rounds.

* `DoubleArithmetic` — the operations on `Double` that the controller uses;
* `InputEvent` — what is posted to the system; `InputEvent.edge` — the input it presses or
  releases;
* `HeldInputState` — the inputs the controller knows to be held;
* `KeyMapping`, `PointerTrajectory` — the tables and the trajectory.
-/

/-- The operations on `Double`. -/
class DoubleArithmetic (D : Type) where
  /-- `mantissa · 10 ^ -digits`. -/
  decimal (mantissa digits : ℕ) : D
  add : D → D → D
  sub : D → D → D
  mul : D → D → D
  div : D → D → D
  hypot : D → D → D
  rounded : D → D
  le : D → D → Bool
  lt : D → D → Bool
  eq : D → D → Bool
  isFinite : D → Bool
  toUInt64 : D → ℕ

instance : DoubleArithmetic ℤ where
  decimal mantissa digits := mantissa / 10 ^ digits
  add := (· + ·)
  sub := (· - ·)
  mul := (· * ·)
  div := (· / ·)
  hypot x y := Nat.sqrt (x.natAbs ^ 2 + y.natAbs ^ 2)
  rounded x := x
  le x y := decide (x ≤ y)
  lt x y := decide (x < y)
  eq x y := decide (x = y)
  isFinite _ := true
  toUInt64 := Int.toNat

namespace InputControl

open DoubleArithmetic

/-! ## Models -/

structure ComputerPoint (D : Type) where
  x : D
  y : D

structure ComputerBounds (D : Type) where
  x : D
  y : D
  width : D
  height : D

inductive PointerMotionMode where
  | instant
  | fast
  | natural
  deriving DecidableEq

inductive ComputerMouseButton where
  | left
  | right
  | middle
  deriving DecidableEq

inductive ComputerKeyModifier where
  | control
  | option
  | shift
  | command
  deriving DecidableEq

structure ComputerActionResult (D : Type) where
  state : String
  pointer : Option (ComputerPoint D)

inductive InputEvent (D : Type) where
  | mouseMove (point : ComputerPoint D) (dragButton : Option ComputerMouseButton)
  | mouseButton (button : ComputerMouseButton) (down : Bool) (point : ComputerPoint D)
      (clickCount : ℕ)
  | scroll (vertical horizontal : ℤ)
  | key (keyCode : ℕ) (down : Bool) (modifiers : List ComputerKeyModifier)
  | unicode (text : List Char)

inductive InputError where
  | targetOutOfBounds
  | invalidInput
  | focusMismatch
  | unavailable
  | userTakeover
  | emergencyStop
  | cancellation
  /-- Any other error of a guard, the event sink or the sleeper. -/
  | other (name : String)
  deriving DecidableEq

/-! ## Keys -/

namespace KeyMapping

def modifierDownOrder : List ComputerKeyModifier := [.control, .option, .shift, .command]

def modifierReleaseOrder : List ComputerKeyModifier := modifierDownOrder.reverse

def keyCodes : List (String × ℕ) :=
  [("a", 0x00), ("b", 0x0B), ("c", 0x08), ("d", 0x02), ("e", 0x0E), ("f", 0x03), ("g", 0x05),
   ("h", 0x04), ("i", 0x22), ("j", 0x26), ("k", 0x28), ("l", 0x25), ("m", 0x2E), ("n", 0x2D),
   ("o", 0x1F), ("p", 0x23), ("q", 0x0C), ("r", 0x0F), ("s", 0x01), ("t", 0x11), ("u", 0x20),
   ("v", 0x09), ("w", 0x0D), ("x", 0x07), ("y", 0x10), ("z", 0x06),
   ("0", 0x1D), ("1", 0x12), ("2", 0x13), ("3", 0x14), ("4", 0x15), ("5", 0x17), ("6", 0x16),
   ("7", 0x1A), ("8", 0x1C), ("9", 0x19),
   ("return", 0x24), ("tab", 0x30), ("space", 0x31), ("delete", 0x33), ("forward_delete", 0x75),
   ("escape", 0x35), ("left", 0x7B), ("right", 0x7C), ("up", 0x7E), ("down", 0x7D),
   ("home", 0x73), ("end", 0x77), ("page_up", 0x74), ("page_down", 0x79),
   ("f1", 0x7A), ("f2", 0x78), ("f3", 0x63), ("f4", 0x76), ("f5", 0x60), ("f6", 0x61),
   ("f7", 0x62), ("f8", 0x64), ("f9", 0x65), ("f10", 0x6D), ("f11", 0x67), ("f12", 0x6F)]

def keyCode (name : String) : Option ℕ := keyCodes.lookup name

def modifierKeyCode : ComputerKeyModifier → ℕ
  | .control => 0x3B
  | .option => 0x3A
  | .shift => 0x38
  | .command => 0x37

def modifier? (keyCode : ℕ) : Option ComputerKeyModifier :=
  modifierDownOrder.find? fun modifier => modifierKeyCode modifier = keyCode

theorem modifier?_modifierKeyCode (modifier : ComputerKeyModifier) :
    modifier? (modifierKeyCode modifier) = some modifier := by
  cases modifier <;> rfl

theorem modifier?_of_keyCode {name : String} {code : ℕ} (h : keyCode name = some code) :
    modifier? code = none := by
  have hall : ∀ entry ∈ keyCodes, modifier? entry.2 = none := by decide
  obtain ⟨before, after, hsplit, -⟩ := List.lookup_eq_some_iff.mp h
  exact hall (name, code) (by rw [hsplit]; simp)

theorem mem_modifierReleaseOrder (modifier : ComputerKeyModifier) :
    modifier ∈ modifierReleaseOrder := by
  cases modifier <;> decide

end KeyMapping

/-! ## Held inputs -/

inductive HeldInput where
  | mouseButton (button : ComputerMouseButton)
  | modifier (modifier : ComputerKeyModifier)
  | keyCode (keyCode : ℕ)
  deriving DecidableEq

def HeldInput.ofKeyCode (keyCode : ℕ) : HeldInput :=
  match KeyMapping.modifier? keyCode with
  | some found => .modifier found
  | none => .keyCode keyCode

/-- The input that an event presses (`true`) or releases (`false`). -/
def InputEvent.edge {D : Type} : InputEvent D → Option (HeldInput × Bool)
  | .mouseButton button down _ _ => some (.mouseButton button, down)
  | .key keyCode down _ => some (.ofKeyCode keyCode, down)
  | _ => none

def InputEvent.isRelease {D : Type} (event : InputEvent D) : Bool :=
  match event.edge with
  | some (_, down) => !down
  | none => false

structure HeldInputState where
  mouseButtons : List ComputerMouseButton
  modifiers : List ComputerKeyModifier
  keyCodes : List ℕ

namespace HeldInputState

def empty : HeldInputState := { mouseButtons := [], modifiers := [], keyCodes := [] }

def isEmpty (state : HeldInputState) : Bool :=
  state.mouseButtons.isEmpty && state.modifiers.isEmpty && state.keyCodes.isEmpty

/-- `insertMouseButton`, `insertModifier` and `insertKeyCode`. -/
def insert (state : HeldInputState) : HeldInput → HeldInputState
  | .mouseButton button => { state with mouseButtons := state.mouseButtons.insert button }
  | .modifier modifier => { state with modifiers := state.modifiers.insert modifier }
  | .keyCode keyCode => { state with keyCodes := state.keyCodes.insert keyCode }

/-- `removeMouseButton`, `removeModifier` and `removeKeyCode`. -/
def remove (state : HeldInputState) : HeldInput → HeldInputState
  | .mouseButton button =>
    { state with mouseButtons := state.mouseButtons.filter (· ≠ button) }
  | .modifier modifier => { state with modifiers := state.modifiers.filter (· ≠ modifier) }
  | .keyCode keyCode => { state with keyCodes := state.keyCodes.filter (· ≠ keyCode) }

def Holds (state : HeldInputState) : HeldInput → Prop
  | .mouseButton button => button ∈ state.mouseButtons
  | .modifier modifier => modifier ∈ state.modifiers
  | .keyCode keyCode => keyCode ∈ state.keyCodes

theorem holds_insert (state : HeldInputState) (input other : HeldInput) :
    (state.insert input).Holds other ↔ other = input ∨ state.Holds other := by
  cases input <;> cases other <;> simp [insert, Holds, List.mem_insert_iff]

theorem holds_remove (state : HeldInputState) (input other : HeldInput) :
    (state.remove input).Holds other ↔ other ≠ input ∧ state.Holds other := by
  cases input <;> cases other <;> simp [remove, Holds, and_comm]

end HeldInputState

/-! ## The pointer trajectory -/

section Trajectory

variable {D : Type} [DoubleArithmetic D]

def ComputerPoint.isFinite (point : ComputerPoint D) : Bool :=
  DoubleArithmetic.isFinite point.x && DoubleArithmetic.isFinite point.y

def distance (a b : ComputerPoint D) : D := hypot (sub a.x b.x) (sub a.y b.y)

structure PointerTrajectorySample (D : Type) where
  point : ComputerPoint D
  offsetNanoseconds : ℕ

/-- `max(a, b)`. -/
def maximum (a b : D) : D := if le a b then b else a

/-- `min(a, b)`. -/
def minimum (a b : D) : D := if lt b a then b else a

def durationNanoseconds (start target : ComputerPoint D) (mode : PointerMotionMode) : ℕ :=
  let length := distance target start
  let fastMilliseconds : D :=
    if le length (decimal 40 0) then decimal 70 0
    else if le length (decimal 200 0) then decimal 100 0
    else if le length (decimal 700 0) then decimal 150 0
    else decimal 210 0
  let requestedMilliseconds :=
    if mode = .natural then rounded (mul fastMilliseconds (decimal 14 1)) else fastMilliseconds
  let durationMilliseconds :=
    minimum (decimal 350 0) (maximum (decimal 70 0) requestedMilliseconds)
  toUInt64 (mul durationMilliseconds (decimal 1000000 0))

def sampleStepNanoseconds : ℕ := 8000000

/-- The offsets of the samples between the first and the last one. -/
def sampleOffsets (duration : ℕ) : List ℕ :=
  (List.range ((duration - 1) / sampleStepNanoseconds)).map fun k =>
    (k + 1) * sampleStepNanoseconds

def PointerTrajectory.samples (start target : ComputerPoint D) (mode : PointerMotionMode) :
    Except InputError (List (PointerTrajectorySample D)) :=
  if !(start.isFinite && target.isFinite) then .error .unavailable
  else if mode = .instant ∨ (eq start.x target.x && eq start.y target.y) then
    .ok [⟨start, 0⟩, ⟨target, 0⟩]
  else
    let dx := sub target.x start.x
    let dy := sub target.y start.y
    let duration := durationNanoseconds start target mode
    let between := (sampleOffsets duration).map fun offset =>
      let t := div (decimal offset 0) (decimal duration 0)
      let eased := mul (mul t t) (sub (decimal 3 0) (mul (decimal 2 0) t))
      { point := ⟨add start.x (mul dx eased), add start.y (mul dy eased)⟩
        offsetNanoseconds := offset }
    .ok (⟨start, 0⟩ :: between ++ [⟨target, duration⟩])

end Trajectory

end InputControl
