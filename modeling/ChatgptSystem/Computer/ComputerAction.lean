import ChatgptSystem.Computer.ComputerErrors
import ChatgptSystem.Computer.JSONValue
import ChatgptSystem.Core.Errors
import ChatgptSystem.Core.Text
import ChatgptSystem.Native.InputModels

/-!
# The preparation of actions

`preparedAction` of `computer/computer-runtime.ts` and what it calls: the check of an action, and
the native request that the action becomes. What the static types of the source exclude is not
checked again.

* `ComputerTarget`, `ComputerVerification`, `ComputerAction` — the values of
  `computer/computer-types.ts`;
* `canonicalTarget`, `locationParams`, `endpointParams`, `verification` — the parts of a request;
* `preparedAction` — the request of an action.
-/

namespace InputControl

def PointerMotionMode.rawValue : PointerMotionMode → String
  | .instant => "instant"
  | .fast => "fast"
  | .natural => "natural"

def ComputerMouseButton.rawValue : ComputerMouseButton → String
  | .left => "left"
  | .right => "right"
  | .middle => "middle"

def ComputerKeyModifier.rawValue : ComputerKeyModifier → String
  | .control => "control"
  | .option => "option"
  | .shift => "shift"
  | .command => "command"

end InputControl

open InputControl (PointerMotionMode ComputerMouseButton ComputerKeyModifier)

namespace Computer

def MAX_SELECTOR_CHARS : ℕ := 4096
def MAX_TYPED_CHARS : ℕ := 16384
def MAX_SCROLL_DELTA : ℤ := 10000

/-! ## Types -/

inductive ComputerTargetScope where
  | index (snapshotId : String) (index : JsNumber)
  | role (role : String) (name : Option String) (exactly : Option Bool)

inductive ComputerTarget where
  | index (snapshotId : String) (index : JsNumber)
  | role (role : String) (name : Option String) (exactly : Option Bool)
      (within : Option ComputerTargetScope)
  | text (text : String) (exactly : Option Bool) (within : Option ComputerTargetScope)
  | ocrText (text : String) (exactly : Option Bool) (within : Option ComputerTargetScope)
  | label (label : String) (exactly : Option Bool) (within : Option ComputerTargetScope)
  | point (x y : JsNumber)

/-- `ComputerActionLocation`, with the fields that `locationParams` reads. -/
structure ComputerActionLocation where
  x : Option JsNumber
  y : Option JsNumber
  target : Option ComputerTarget
  retryBudget : Option JsNumber

inductive ComputerActionEndpoint where
  | coordinate (x y : JsNumber)
  | target (target : ComputerTarget)

inductive ComputerVerification where
  | axChanged (timeoutMs : Option JsNumber)
  | textAppeared (text : String) (exactly : Option Bool) (timeoutMs : Option JsNumber)
  | screenRegionChanged (x y width height : JsNumber) (timeoutMs : Option JsNumber)

structure ComputerApplicationSelector where
  bundleIdentifier : Option String
  name : Option String

inductive ComputerActionType where
  | observe
  | pointer_position
  | open_app
  | focus_app
  | move_mouse
  | click
  | double_click
  | mouse_down
  | mouse_up
  | drag
  | scroll
  | type_text
  | press_key
  | wait
  | wait_for_frontmost
  | wait_for_text
  | wait_until_changed
  | release_inputs
  deriving DecidableEq, Repr

inductive ComputerNativeMethod where
  | health
  | list_apps
  | active_window
  | observe
  | screenshot
  | resolve_target
  | resolve_targets
  | pointer_position
  | move_mouse
  | click
  | double_click
  | mouse_down
  | mouse_up
  | drag
  | scroll
  | type_text
  | press_key
  | wait_for_frontmost
  | wait_for_text
  | wait_until_changed
  | release_inputs
  | focus_app
  | open_app
  deriving DecidableEq, Repr

inductive ComputerAction where
  | observe
  | pointer_position
  | open_app (selector : ComputerApplicationSelector) (timeoutMs : Option JsNumber)
  | focus_app (selector : ComputerApplicationSelector) (timeoutMs : Option JsNumber)
  | move_mouse (location : ComputerActionLocation) (motionMode : Option PointerMotionMode)
      (verify : Option ComputerVerification)
  | click (location : ComputerActionLocation) (button : Option ComputerMouseButton)
      (motionMode : Option PointerMotionMode) (verify : Option ComputerVerification)
  | double_click (location : ComputerActionLocation) (button : Option ComputerMouseButton)
      (motionMode : Option PointerMotionMode) (verify : Option ComputerVerification)
  | mouse_down (button : Option ComputerMouseButton) (verify : Option ComputerVerification)
  | mouse_up (button : Option ComputerMouseButton) (verify : Option ComputerVerification)
  | drag (start finish : ComputerActionEndpoint) (retryBudget : Option JsNumber)
      (button : Option ComputerMouseButton) (motionMode : Option PointerMotionMode)
      (verify : Option ComputerVerification)
  | scroll (vertical horizontal : JsNumber) (positional : ComputerActionLocation)
      (motionMode : Option PointerMotionMode) (verify : Option ComputerVerification)
  | type_text (text : String) (selector : ComputerApplicationSelector)
      (verify : Option ComputerVerification)
  | press_key (key : String) (modifiers : Option (List ComputerKeyModifier))
      (selector : ComputerApplicationSelector) (verify : Option ComputerVerification)
  | wait (durationMs : JsNumber)
  | wait_for_frontmost (selector : ComputerApplicationSelector) (timeoutMs : Option JsNumber)
  | wait_for_text (text : String) (exactly : Option Bool) (timeoutMs : Option JsNumber)
  | wait_until_changed (baselineDigest : String) (timeoutMs : Option JsNumber)
  | release_inputs

/-! ## Checks -/

section Checks

variable {α : Type}

def invalid : Except ComputerError α := .error { code := .COMPUTER_PROTOCOL_INVALID }

def finite : JsNumber → Except ComputerError ℚ
  | .finite value => .ok value
  | _ => invalid

def integerInRange (value : JsNumber) (least most : ℤ) : Except ComputerError ℤ :=
  match value.integer? with
  | some n => if n < least ∨ n > most then invalid else .ok n
  | none => invalid

def optionalTimeout : Option JsNumber → (most : ℤ) → Except ComputerError (Option ℤ)
  | none, _ => .ok none
  | some value, most => do
    let n ← integerInRange value 50 most
    pure (some n)

/-- `value.length === 0 || value.length > MAX_SELECTOR_CHARS` is false. -/
def boundedTargetString (value : String) : Except ComputerError String :=
  if Text.length value.toList = 0 ∨ Text.length value.toList > MAX_SELECTOR_CHARS then invalid
  else .ok value

def whenDefined {β : Type} (check : α → Except ComputerError β) :
    Option α → Except ComputerError (Option β)
  | none => .ok none
  | some value => do
    let checked ← check value
    pure (some checked)

/-- `Number.isSafeInteger(index) && index >= 0`. -/
def safeIndex (index : JsNumber) : Except ComputerError JsNumber :=
  match index.integer? with
  | some n => if n.natAbs ≤ 2 ^ 53 - 1 ∧ 0 ≤ n then .ok index else invalid
  | none => invalid

theorem unless_invalid {α : Type} {condition : Prop} [Decidable condition]
    {rest : Except ComputerError α} {a : α}
    (h : (do if condition then invalid
             rest) = .ok a) : ¬ condition ∧ rest = .ok a := by
  by_cases hc : condition
  · rw [if_pos hc] at h
    cases h
  · rw [if_neg hc] at h
    exact ⟨hc, h⟩

end Checks

def jsonNumber (n : ℤ) : JSONValue := .number n

def selectorParams (input : ComputerApplicationSelector) : Except ComputerError Members := do
  if input.bundleIdentifier = none ∧ input.name = none then invalid
  let bundleIdentifier ← whenDefined boundedTargetString input.bundleIdentifier
  let name ← whenDefined boundedTargetString input.name
  pure (optional "bundleIdentifier" (bundleIdentifier.map .string) ++
    optional "name" (name.map .string))

def verification : Option ComputerVerification → Except ComputerError (Option JSONValue)
  | none => .ok none
  | some (.axChanged timeoutMs) => do
    let timeoutMs ← optionalTimeout timeoutMs 60000
    pure (some (.object ([("kind", .string "ax_changed")] ++
      optional "timeoutMs" (timeoutMs.map jsonNumber))))
  | some (.textAppeared text exactly timeoutMs) => do
    let text ← boundedTargetString text
    let timeoutMs ← optionalTimeout timeoutMs 60000
    pure (some (.object ([("kind", .string "text_appeared"), ("text", .string text)] ++
      optional "exact" (exactly.map .bool) ++ optional "timeoutMs" (timeoutMs.map jsonNumber))))
  | some (.screenRegionChanged x y width height timeoutMs) => do
    let x ← finite x
    let y ← finite y
    let width ← finite width
    let height ← finite height
    if width ≤ 0 ∨ height ≤ 0 then invalid
    let timeoutMs ← optionalTimeout timeoutMs 60000
    pure (some (.object ([("kind", .string "screen_region_changed"), ("x", .number x),
      ("y", .number y), ("width", .number width), ("height", .number height)] ++
      optional "timeoutMs" (timeoutMs.map jsonNumber))))

/-! ## Targets -/

namespace ComputerTargetScope

def toJson : ComputerTargetScope → JSONValue
  | .index snapshotId i => .object
      [("by", .string "index"), ("snapshotId", .string snapshotId), ("index", i.toJson)]
  | .role r name exactly => .object ([("by", .string "role"), ("role", .string r)] ++
      optional "name" (name.map .string) ++ optional "exact" (exactly.map .bool))

end ComputerTargetScope

def canonicalTargetScope : ComputerTargetScope → Except ComputerError ComputerTargetScope
  | .index snapshotId index => do
    let snapshotId ← boundedTargetString snapshotId
    let index ← safeIndex index
    pure (.index snapshotId index)
  | .role role name exactly => do
    let role ← boundedTargetString role
    let name ← whenDefined boundedTargetString name
    pure (.role role name exactly)

def scopeMembers (exactly : Option Bool) (within : Option ComputerTargetScope) : Members :=
  optional "exact" (exactly.map .bool) ++ optional "within" (within.map (·.toJson))

namespace ComputerTarget

def toJson : ComputerTarget → JSONValue
  | .index snapshotId i => .object
      [("by", .string "index"), ("snapshotId", .string snapshotId), ("index", i.toJson)]
  | .role r name exactly within => .object ([("by", .string "role"), ("role", .string r)] ++
      optional "name" (name.map .string) ++ scopeMembers exactly within)
  | .text value exactly within => .object
      ([("by", .string "text"), ("text", .string value)] ++ scopeMembers exactly within)
  | .ocrText value exactly within => .object
      ([("by", .string "ocrText"), ("text", .string value)] ++ scopeMembers exactly within)
  | .label value exactly within => .object
      ([("by", .string "label"), ("label", .string value)] ++ scopeMembers exactly within)
  | .point x y => .object [("by", .string "point"), ("x", x.toJson), ("y", y.toJson)]

end ComputerTarget

def canonicalTarget : ComputerTarget → Except ComputerError ComputerTarget
  | .index snapshotId index => do
    let snapshotId ← boundedTargetString snapshotId
    let index ← safeIndex index
    pure (.index snapshotId index)
  | .role role name exactly within => do
    let role ← boundedTargetString role
    let name ← whenDefined boundedTargetString name
    let within ← whenDefined canonicalTargetScope within
    pure (.role role name exactly within)
  | .text text exactly within => do
    let text ← boundedTargetString text
    let within ← whenDefined canonicalTargetScope within
    pure (.text text exactly within)
  | .ocrText text exactly within => do
    let text ← boundedTargetString text
    let within ← whenDefined canonicalTargetScope within
    pure (.ocrText text exactly within)
  | .label label exactly within => do
    let label ← boundedTargetString label
    let within ← whenDefined canonicalTargetScope within
    pure (.label label exactly within)
  | .point x y => do
    let x ← finite x
    let y ← finite y
    pure (.point (.finite x) (.finite y))

def semanticRetryBudget (value : Option JsNumber) (most : ℤ) : Except ComputerError ℤ := do
  if most < 0 ∨ most > 2 then invalid
  match value with
  | none => pure most
  | some value => integerInRange value 0 most

def locationParams (input : ComputerActionLocation) (maxRetries : ℤ) :
    Except ComputerError Members := do
  if input.x.isSome ≠ input.y.isSome ∨ input.target.isSome = input.x.isSome then invalid
  match input.target with
  | some target => do
    let target ← canonicalTarget target
    let retryBudget ← semanticRetryBudget input.retryBudget maxRetries
    pure [("target", target.toJson), ("retryBudget", jsonNumber retryBudget)]
  | none =>
    match input.retryBudget, input.x, input.y with
    | none, some x, some y => do
      let x ← finite x
      let y ← finite y
      pure [("x", .number x), ("y", .number y)]
    | _, _, _ => invalid

def endpointParams : ComputerActionEndpoint → Except ComputerError (JSONValue × Bool)
  | .target target => do
    let target ← canonicalTarget target
    pure (target.toJson, true)
  | .coordinate x y => do
    let x ← finite x
    let y ← finite y
    pure (.object [("x", .number x), ("y", .number y)], false)

/-! ## Requests -/

structure PreparedComputerAction where
  type : ComputerActionType
  method : Option ComputerNativeMethod
  params : Members
  physical : Bool
  localWaitMs : Option ℕ

/-- The members `button`, `motionMode` and `verify` of a request. -/
def inputMembers (button : Option ComputerMouseButton) (mode : Option PointerMotionMode)
    (verify : Option JSONValue) : Members :=
  optional "button" (button.map fun button => .string button.rawValue) ++
    optional "motionMode" (mode.map fun mode => .string mode.rawValue) ++
    optional "verify" verify

section Requests

variable (type : ComputerActionType) (method : ComputerNativeMethod)

/-- `open_app`, `focus_app` and `wait_for_frontmost`. -/
def applicationRequest (physical : Bool) (selector : ComputerApplicationSelector)
    (timeoutMs : Option JsNumber) : Except ComputerError PreparedComputerAction := do
  let params ← selectorParams selector
  let timeoutMs ← optionalTimeout timeoutMs 60000
  pure { type, method := some method
         params := params ++ optional "timeoutMs" (timeoutMs.map jsonNumber)
         physical, localWaitMs := none }

/-- `move_mouse`, which has no button, `click` and `double_click`. -/
def locatedRequest (maxRetries : ℤ) (location : ComputerActionLocation)
    (button : Option ComputerMouseButton) (motionMode : Option PointerMotionMode)
    (verify : Option ComputerVerification) : Except ComputerError PreparedComputerAction := do
  let params ← locationParams location maxRetries
  let verify ← verification verify
  pure { type, method := some method, params := params ++ inputMembers button motionMode verify
         physical := true, localWaitMs := none }

/-- `mouse_down` and `mouse_up`. -/
def buttonRequest (button : Option ComputerMouseButton) (verify : Option ComputerVerification) :
    Except ComputerError PreparedComputerAction := do
  let verify ← verification verify
  pure { type, method := some method, params := inputMembers button none verify
         physical := true, localWaitMs := none }

def plainRequest (physical : Bool) : PreparedComputerAction :=
  { type, method := some method, params := [], physical, localWaitMs := none }

end Requests

def dragRetryBudget (semantic : Bool) (retryBudget : Option JsNumber) (maxRetries : ℤ) :
    Except ComputerError (Option ℤ) :=
  if semantic then do
    let budget ← semanticRetryBudget retryBudget maxRetries
    pure (some budget)
  else if retryBudget.isSome then invalid
  else .ok none

def scrollLocation (positional : ComputerActionLocation) (maxRetries : ℤ) :
    Except ComputerError Members :=
  if positional.x.isSome ∨ positional.y.isSome ∨ positional.target.isSome then
    locationParams positional maxRetries
  else if positional.retryBudget.isSome then invalid
  else .ok []

def preparedAction (action : ComputerAction) (maxRetries : ℤ) :
    Except ComputerError PreparedComputerAction :=
  match action with
  | .observe => .ok (plainRequest .observe .observe false)
  | .pointer_position => .ok (plainRequest .pointer_position .pointer_position false)
  | .open_app selector timeoutMs => applicationRequest .open_app .open_app true selector timeoutMs
  | .focus_app selector timeoutMs =>
    applicationRequest .focus_app .focus_app true selector timeoutMs
  | .move_mouse location motionMode verify =>
    locatedRequest .move_mouse .move_mouse maxRetries location none motionMode verify
  | .click location button motionMode verify =>
    locatedRequest .click .click maxRetries location button motionMode verify
  | .double_click location button motionMode verify =>
    locatedRequest .double_click .double_click maxRetries location button motionMode verify
  | .mouse_down button verify => buttonRequest .mouse_down .mouse_down button verify
  | .mouse_up button verify => buttonRequest .mouse_up .mouse_up button verify
  | .drag start finish retryBudget button motionMode verify => do
    let from' ← endpointParams start
    let to' ← endpointParams finish
    let budget ← dragRetryBudget (from'.2 || to'.2) retryBudget maxRetries
    let verify ← verification verify
    pure { type := .drag, method := some .drag
           params := [("from", from'.1), ("to", to'.1)] ++
             optional "retryBudget" (budget.map jsonNumber) ++
             inputMembers button motionMode verify
           physical := true, localWaitMs := none }
  | .scroll vertical horizontal positional motionMode verify => do
    let vertical ← integerInRange vertical (-MAX_SCROLL_DELTA) MAX_SCROLL_DELTA
    let horizontal ← integerInRange horizontal (-MAX_SCROLL_DELTA) MAX_SCROLL_DELTA
    let location ← scrollLocation positional maxRetries
    let verify ← verification verify
    pure { type := .scroll, method := some .scroll
           params := [("vertical", jsonNumber vertical), ("horizontal", jsonNumber horizontal)] ++
             location ++ inputMembers none motionMode verify
           physical := true, localWaitMs := none }
  | .type_text text selector verify => do
    if Text.length text.toList > MAX_TYPED_CHARS then invalid
    let params ← selectorParams selector
    let verify ← verification verify
    pure { type := .type_text, method := some .type_text
           params := params ++ [("text", .string text)] ++ optional "verify" verify
           physical := true, localWaitMs := none }
  | .press_key key modifiers selector verify => do
    if Text.length key.toList = 0 ∨ Text.length key.toList > 128 then invalid
    let params ← selectorParams selector
    -- no modifier is given twice
    if ¬ (modifiers.getD []).Nodup then invalid
    let verify ← verification verify
    pure { type := .press_key, method := some .press_key
           params := params ++ [("key", .string key)] ++
             optional "modifiers" (modifiers.map fun modifiers =>
               .array (modifiers.map fun modifier => .string modifier.rawValue)) ++
             optional "verify" verify
           physical := true, localWaitMs := none }
  | .wait durationMs =>
    match durationMs.integer? with
    | some n =>
      if n < 0 then invalid
      else .ok { type := .wait, method := none, params := [], physical := false
                 localWaitMs := some n.toNat }
    | none => invalid
  | .wait_for_frontmost selector timeoutMs =>
    applicationRequest .wait_for_frontmost .wait_for_frontmost false selector timeoutMs
  | .wait_for_text text exactly timeoutMs => do
    let text ← boundedTargetString text
    let timeoutMs ← optionalTimeout timeoutMs 60000
    pure { type := .wait_for_text, method := some .wait_for_text
           params := [("text", .string text)] ++ optional "exact" (exactly.map .bool) ++
             optional "timeoutMs" (timeoutMs.map jsonNumber)
           physical := false, localWaitMs := none }
  | .wait_until_changed baselineDigest timeoutMs => do
    let baselineDigest ← boundedTargetString baselineDigest
    let timeoutMs ← optionalTimeout timeoutMs 60000
    pure { type := .wait_until_changed, method := some .wait_until_changed
           params := [("baselineDigest", .string baselineDigest)] ++
             optional "timeoutMs" (timeoutMs.map jsonNumber)
           physical := false, localWaitMs := none }
  | .release_inputs => .ok (plainRequest .release_inputs .release_inputs true)

end Computer
