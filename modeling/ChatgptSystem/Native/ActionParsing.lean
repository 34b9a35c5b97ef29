import ChatgptSystem.Computer.ComputerAction
import ChatgptSystem.Native.TargetResolver

/-!
# The parsers of the action service

What `ComputerActionService` makes of the parameters of a request.

* `ActionPointSpec`, `ActionVerificationSpec`, `ActionRequest` — what a request is parsed to;
* `ActionService.parseTarget` — the parser of targets;
* `ActionService.parseRequest` — the parser that `handleAction` picks by the method.
-/

open InputControl (ComputerPoint ComputerBounds PointerMotionMode ComputerMouseButton
  ComputerKeyModifier KeyMapping.keyCode)

namespace InputControl

/-- `ComputerMouseButton(rawValue:)`. -/
def ComputerMouseButton.ofRawValue? (raw : String) : Option ComputerMouseButton :=
  [ComputerMouseButton.left, .right, .middle].find? fun button => button.rawValue = raw

/-- `PointerMotionMode(rawValue:)`. -/
def PointerMotionMode.ofRawValue? (raw : String) : Option PointerMotionMode :=
  [PointerMotionMode.instant, .fast, .natural].find? fun mode => mode.rawValue = raw

/-- `ComputerKeyModifier(rawValue:)`. -/
def ComputerKeyModifier.ofRawValue? (raw : String) : Option ComputerKeyModifier :=
  [ComputerKeyModifier.control, .option, .shift, .command].find? fun modifier =>
    modifier.rawValue = raw

@[simp] theorem ComputerMouseButton.ofRawValue?_rawValue (button : ComputerMouseButton) :
    ofRawValue? button.rawValue = some button := by
  cases button <;> rfl

@[simp] theorem PointerMotionMode.ofRawValue?_rawValue (mode : PointerMotionMode) :
    ofRawValue? mode.rawValue = some mode := by
  cases mode <;> rfl

@[simp] theorem ComputerKeyModifier.ofRawValue?_rawValue (modifier : ComputerKeyModifier) :
    ofRawValue? modifier.rawValue = some modifier := by
  cases modifier <;> rfl

end InputControl

namespace Computer

/-! ## What a request is parsed to -/

abbrev NativeTarget : Type := TargetRecovery.ComputerTarget String ℚ

abbrev NativeTargetScope : Type := TargetRecovery.ComputerTargetScope String

inductive ActionVerificationSpec where
  | axChanged (timeoutMs : ℤ)
  | textAppeared (text : String) (isExact : Bool) (timeoutMs : ℤ)
  | screenRegionChanged (bounds : ComputerBounds ℚ) (timeoutMs : ℤ)

inductive ActionPointSpec where
  | point (point : ComputerPoint ℚ)
  | target (target : NativeTarget) (retryBudget : ℤ)

def ActionPointSpec.isSemantic : ActionPointSpec → Bool
  | .target _ _ => true
  | .point _ => false

inductive ActionRequest where
  | pointerPosition
  | moveMouse (point : ActionPointSpec) (mode : PointerMotionMode)
      (verification : Option ActionVerificationSpec)
  | click (double : Bool) (point : ActionPointSpec) (button : ComputerMouseButton)
      (mode : PointerMotionMode) (verification : Option ActionVerificationSpec)
  | mouseButton (down : Bool) (button : ComputerMouseButton)
      (verification : Option ActionVerificationSpec)
  | drag (start finish : ActionPointSpec) (button : ComputerMouseButton)
      (mode : PointerMotionMode) (verification : Option ActionVerificationSpec)
  | scroll (vertical horizontal : ℤ) (point : Option ActionPointSpec) (mode : PointerMotionMode)
      (verification : Option ActionVerificationSpec)
  | typeText (text : String) (selector : ComputerApplicationSelector)
      (verification : Option ActionVerificationSpec)
  | pressKey (key : String) (modifiers : List ComputerKeyModifier)
      (selector : ComputerApplicationSelector) (verification : Option ActionVerificationSpec)
  | waitForFrontmost (selector : ComputerApplicationSelector) (timeoutMs : ℤ)
  | waitForText (text : String) (isExact : Bool) (timeoutMs : ℤ)
  | waitUntilChanged (baselineDigest : String) (timeoutMs : ℤ)
  | releaseInputs
  | application (launch : Bool) (selector : ComputerApplicationSelector) (timeoutMs : ℤ)

/-- `rawIndex >= 0`, and `rawIndex <= Double(Int.max)`, which is `2 ^ 63`. -/
def parseIndex (raw : ℚ) : Parsed ℤ := do
  Parsed.require (isWhole raw)
  Parsed.require (0 ≤ raw && raw ≤ 2 ^ 63)
  toInt raw

namespace ActionService

def maxSelectorCharacters : ℕ := 4096
def maxTypedCharacters : ℕ := 16384
def defaultFocusTimeoutMs : ℤ := 1500

section Parsers

variable (breaking : CharacterBreaking)

/-- `object[key]`, which must be there. -/
def required (object : Members) (key : String) : Parsed JSONValue :=
  Parsed.ofOption (object.lookup key)

def isValidSelectorString (value : String) : Bool :=
  !value.isEmpty && breaking.count value ≤ maxSelectorCharacters

def parseRequiredString (object : Members) (key : String) : Parsed String := do
  let raw ← required object key
  raw.string?

def parseOptionalString : Option JSONValue → Parsed (Option String)
  | some raw => do
    let value ← raw.string?
    Parsed.require (isValidSelectorString breaking value)
    pure (some value)
  | none => pure none

def parseExact : Option JSONValue → Parsed Bool
  | none => pure false
  | some value => value.bool?

def parseTargetScope (value : JSONValue) : Parsed NativeTargetScope := do
  let object ← value.object?
  let kind ← parseRequiredString object "by"
  match kind with
  | "index" => do
    Parsed.require (onlyKeys object ["by", "snapshotId", "index"])
    let snapshotId ← parseRequiredString object "snapshotId"
    Parsed.require (isValidSelectorString breaking snapshotId)
    let rawIndex ← required object "index"
    let rawIndex ← rawIndex.number?
    let index ← parseIndex rawIndex
    pure (.index snapshotId index)
  | "role" => do
    Parsed.require (onlyKeys object ["by", "role", "name", "exact"])
    let role ← parseRequiredString object "role"
    Parsed.require (isValidSelectorString breaking role)
    let isExact ← parseExact (object.lookup "exact")
    let name ← parseOptionalString breaking (object.lookup "name")
    pure (.role role name isExact)
  | _ => .rejected

def applyTargetScope (target : NativeTarget) : Option JSONValue → Parsed NativeTarget
  | none => pure target
  | some rawScope => do
    let scope ← parseTargetScope breaking rawScope
    pure (.scoped target scope)

def parseTextTarget (object : Members) (key : String) (base : String → Bool → NativeTarget) :
    Parsed NativeTarget := do
  Parsed.require (onlyKeys object ["by", key, "exact", "within"])
  let text ← parseRequiredString object key
  Parsed.require (isValidSelectorString breaking text)
  let isExact ← parseExact (object.lookup "exact")
  applyTargetScope breaking (base text isExact) (object.lookup "within")

def parseTarget (value : JSONValue) : Parsed NativeTarget := do
  let object ← value.object?
  let kind ← parseRequiredString object "by"
  match kind with
  | "index" => do
    Parsed.require (onlyKeys object ["by", "snapshotId", "index"])
    let snapshotId ← parseRequiredString object "snapshotId"
    Parsed.require (isValidSelectorString breaking snapshotId)
    let rawIndex ← required object "index"
    let rawIndex ← rawIndex.number?
    let index ← parseIndex rawIndex
    pure (.index snapshotId index)
  | "role" => do
    Parsed.require (onlyKeys object ["by", "role", "name", "exact", "within"])
    let role ← parseRequiredString object "role"
    Parsed.require (isValidSelectorString breaking role)
    let isExact ← parseExact (object.lookup "exact")
    let name ← parseOptionalString breaking (object.lookup "name")
    applyTargetScope breaking (.role role name isExact) (object.lookup "within")
  | "text" => parseTextTarget breaking object "text" .text
  | "ocrText" => parseTextTarget breaking object "text" .ocrText
  | "label" => parseTextTarget breaking object "label" .label
  | "point" => do
    Parsed.require (sameKeys object ["by", "x", "y"])
    let x ← required object "x"
    let x ← x.number?
    let y ← required object "y"
    let y ← y.number?
    pure (.point x y)
  | _ => .rejected

def parsePointObject (object : Members) : Parsed (ComputerPoint ℚ) := do
  let x ← required object "x"
  let x ← x.number?
  let y ← required object "y"
  let y ← y.number?
  pure ⟨x, y⟩

def parseRetryBudget : Option JSONValue → Parsed ℤ
  | none => pure 2
  | some value => do
    let raw ← value.number?
    Parsed.require (isWhole raw)
    Parsed.require (0 ≤ raw && raw ≤ 2)
    toInt raw

def parseActionPointSpec (object : Members) : Parsed ActionPointSpec := do
  let hasX := (object.lookup "x").isSome
  let hasY := (object.lookup "y").isSome
  let hasTarget := (object.lookup "target").isSome
  Parsed.require (hasX == hasY && !(hasX && hasTarget))
  if hasX then do
    Parsed.require (object.lookup "retryBudget").isNone
    let point ← parsePointObject object
    pure (.point point)
  else do
    let rawTarget ← required object "target"
    let target ← parseTarget breaking rawTarget
    let retryBudget ← parseRetryBudget (object.lookup "retryBudget")
    pure (.target target retryBudget)

def parseDragEndpoint (value : JSONValue) (retryBudget : ℤ) : Parsed ActionPointSpec := do
  let object ← value.object?
  match (if sameKeys object ["x", "y"] then parsePointObject object else .rejected) with
  | .accepted point => pure (.point point)
  | .trapped => .trapped
  | .rejected => do
    let target ← parseTarget breaking value
    pure (.target target retryBudget)

def parseMouseButton : Option JSONValue → Parsed ComputerMouseButton
  | none => pure .left
  | some value => do
    let raw ← value.string?
    Parsed.ofOption (ComputerMouseButton.ofRawValue? raw)

def parseMotionMode : Option JSONValue → Parsed PointerMotionMode
  | none => pure .fast
  | some value => do
    let raw ← value.string?
    Parsed.ofOption (PointerMotionMode.ofRawValue? raw)

def parseScrollDelta (object : Members) (key : String) : Parsed ℤ := do
  let value ← required object key
  let raw ← value.number?
  Parsed.require (isWhole raw)
  Parsed.require (-10000 ≤ raw && raw ≤ 10000)
  toInt raw

def parseVerificationTimeout : Option JSONValue → Parsed ℤ
  | none => pure 2000
  | some value => do
    let raw ← value.number?
    Parsed.require (isWhole raw)
    Parsed.require (50 ≤ raw && raw ≤ 60000)
    toInt raw

def parseBoundedText (object : Members) (key : String) : Parsed String := do
  let text ← parseRequiredString object key
  Parsed.require (!text.isEmpty && breaking.count text ≤ maxSelectorCharacters)
  pure text

def parseVerification (object : Members) (kind : String) (timeoutMs : ℤ) :
    Parsed ActionVerificationSpec :=
  match kind with
  | "ax_changed" => do
    Parsed.require (onlyKeys object ["kind", "timeoutMs"])
    pure (.axChanged timeoutMs)
  | "text_appeared" => do
    Parsed.require (onlyKeys object ["kind", "text", "exact", "timeoutMs"])
    let text ← parseBoundedText breaking object "text"
    let isExact ← parseExact (object.lookup "exact")
    pure (.textAppeared text isExact timeoutMs)
  | "screen_region_changed" => do
    Parsed.require (onlyKeys object ["kind", "x", "y", "width", "height", "timeoutMs"])
    let x ← required object "x"
    let x ← x.number?
    let y ← required object "y"
    let y ← y.number?
    let width ← required object "width"
    let width ← width.number?
    let height ← required object "height"
    let height ← height.number?
    Parsed.require (0 < width && 0 < height)
    pure (.screenRegionChanged ⟨x, y, width, height⟩ timeoutMs)
  | _ => .rejected

def parseOptionalVerification : Option JSONValue → Parsed (Option ActionVerificationSpec)
  | none => pure none
  | some value => do
    let object ← value.object?
    let kind ← parseRequiredString object "kind"
    let timeoutMs ← parseVerificationTimeout (object.lookup "timeoutMs")
    let spec ← parseVerification breaking object kind timeoutMs
    pure (some spec)

def parseRequiredSelector (object : Members) : Parsed ComputerApplicationSelector := do
  let bundleIdentifier ← parseOptionalString breaking (object.lookup "bundleIdentifier")
  let name ← parseOptionalString breaking (object.lookup "name")
  Parsed.require (bundleIdentifier.isSome || name.isSome)
  pure { bundleIdentifier, name }

/-! ## Requests -/

def parseMoveMouseParams (params : JSONValue) : Parsed ActionRequest := do
  let object ← params.object?
  Parsed.require (onlyKeys object ["x", "y", "target", "retryBudget", "motionMode", "verify"])
  let point ← parseActionPointSpec breaking object
  let mode ← parseMotionMode (object.lookup "motionMode")
  let verification ← parseOptionalVerification breaking (object.lookup "verify")
  pure (.moveMouse point mode verification)

def parseClickParams (double : Bool) (params : JSONValue) : Parsed ActionRequest := do
  let object ← params.object?
  Parsed.require
    (onlyKeys object ["x", "y", "target", "retryBudget", "button", "motionMode", "verify"])
  let point ← parseActionPointSpec breaking object
  let button ← parseMouseButton (object.lookup "button")
  let mode ← parseMotionMode (object.lookup "motionMode")
  let verification ← parseOptionalVerification breaking (object.lookup "verify")
  pure (.click double point button mode verification)

def parseButtonOnlyParams (down : Bool) (params : JSONValue) : Parsed ActionRequest := do
  let object ← params.object?
  Parsed.require (onlyKeys object ["button", "verify"])
  let button ← parseMouseButton (object.lookup "button")
  let verification ← parseOptionalVerification breaking (object.lookup "verify")
  pure (.mouseButton down button verification)

def parseDragParams (params : JSONValue) : Parsed ActionRequest := do
  let object ← params.object?
  Parsed.require
    (onlyKeys object ["from", "to", "retryBudget", "button", "motionMode", "verify"])
  let rawFrom ← required object "from"
  let rawTo ← required object "to"
  let retryBudget ← parseRetryBudget (object.lookup "retryBudget")
  let start ← parseDragEndpoint breaking rawFrom retryBudget
  let finish ← parseDragEndpoint breaking rawTo retryBudget
  let button ← parseMouseButton (object.lookup "button")
  let mode ← parseMotionMode (object.lookup "motionMode")
  let verification ← parseOptionalVerification breaking (object.lookup "verify")
  Parsed.require
    (!(!start.isSemantic && !finish.isSemantic && (object.lookup "retryBudget").isSome))
  pure (.drag start finish button mode verification)

def parseScrollPoint (object : Members) : Parsed (Option ActionPointSpec) := do
  let hasCoordinates := (object.lookup "x").isSome || (object.lookup "y").isSome
  let hasTarget := (object.lookup "target").isSome
  Parsed.require (!(hasCoordinates && hasTarget))
  if hasCoordinates || hasTarget then do
    let point ← parseActionPointSpec breaking object
    pure (some point)
  else do
    Parsed.require (object.lookup "retryBudget").isNone
    pure none

def parseScrollParams (params : JSONValue) : Parsed ActionRequest := do
  let object ← params.object?
  Parsed.require (onlyKeys object
    ["vertical", "horizontal", "x", "y", "target", "retryBudget", "motionMode", "verify"])
  let vertical ← parseScrollDelta object "vertical"
  let horizontal ← parseScrollDelta object "horizontal"
  let mode ← parseMotionMode (object.lookup "motionMode")
  let verification ← parseOptionalVerification breaking (object.lookup "verify")
  let point ← parseScrollPoint breaking object
  pure (.scroll vertical horizontal point mode verification)

def parseWaitForFrontmostParams (params : JSONValue) : Parsed ActionRequest := do
  let object ← params.object?
  Parsed.require (onlyKeys object ["bundleIdentifier", "name", "timeoutMs"])
  let selector ← parseRequiredSelector breaking object
  let timeoutMs ← parseVerificationTimeout (object.lookup "timeoutMs")
  pure (.waitForFrontmost selector timeoutMs)

def parseWaitForTextParams (params : JSONValue) : Parsed ActionRequest := do
  let object ← params.object?
  Parsed.require (onlyKeys object ["text", "exact", "timeoutMs"])
  let text ← parseBoundedText breaking object "text"
  let timeoutMs ← parseVerificationTimeout (object.lookup "timeoutMs")
  let isExact ← parseExact (object.lookup "exact")
  pure (.waitForText text isExact timeoutMs)

def parseWaitUntilChangedParams (params : JSONValue) : Parsed ActionRequest := do
  let object ← params.object?
  Parsed.require (onlyKeys object ["baselineDigest", "timeoutMs"])
  let baselineDigest ← parseBoundedText breaking object "baselineDigest"
  let timeoutMs ← parseVerificationTimeout (object.lookup "timeoutMs")
  pure (.waitUntilChanged baselineDigest timeoutMs)

def parseTypeTextParams (params : JSONValue) : Parsed ActionRequest := do
  let object ← params.object?
  Parsed.require (onlyKeys object ["text", "bundleIdentifier", "name", "verify"])
  let text ← parseRequiredString object "text"
  Parsed.require (breaking.count text ≤ maxTypedCharacters)
  let selector ← parseRequiredSelector breaking object
  let verification ← parseOptionalVerification breaking (object.lookup "verify")
  pure (.typeText text selector verification)

/-- The modifiers of an array, none of which may be there before. -/
def parseModifierValues (seen : List ComputerKeyModifier) :
    List JSONValue → Parsed (List ComputerKeyModifier)
  | [] => pure seen
  | value :: values => do
    let raw ← value.string?
    let modifier ← Parsed.ofOption (ComputerKeyModifier.ofRawValue? raw)
    Parsed.require (modifier ∉ seen)
    parseModifierValues (seen ++ [modifier]) values

def parseModifiers : Option JSONValue → Parsed (List ComputerKeyModifier)
  | none => pure []
  | some rawModifiers => do
    let values ← rawModifiers.array?
    parseModifierValues [] values

def parsePressKeyParams (params : JSONValue) : Parsed ActionRequest := do
  let object ← params.object?
  Parsed.require (onlyKeys object ["key", "modifiers", "bundleIdentifier", "name", "verify"])
  let key ← parseRequiredString object "key"
  Parsed.require (KeyMapping.keyCode key).isSome
  let selector ← parseRequiredSelector breaking object
  let verification ← parseOptionalVerification breaking (object.lookup "verify")
  let modifiers ← parseModifiers (object.lookup "modifiers")
  pure (.pressKey key modifiers selector verification)

def parseApplicationParams (launch : Bool) (params : JSONValue) : Parsed ActionRequest := do
  let object ← params.object?
  Parsed.require (onlyKeys object ["bundleIdentifier", "name", "timeoutMs"])
  let selector ← parseRequiredSelector breaking object
  let timeoutMs ← match object.lookup "timeoutMs" with
    | some value => parseVerificationTimeout (some value)
    | none => pure defaultFocusTimeoutMs
  pure (.application launch selector timeoutMs)

def parseNoParams (request : ActionRequest) (params : JSONValue) : Parsed ActionRequest := do
  let object ← params.object?
  Parsed.require object.isEmpty
  pure request

/-- The parser that `handleAction` uses for the method; `none` if it does not handle it. -/
def parseRequest (method : ComputerNativeMethod) (params : JSONValue) :
    Option (Parsed ActionRequest) :=
  match method with
  | .pointer_position => some (parseNoParams .pointerPosition params)
  | .move_mouse => some (parseMoveMouseParams breaking params)
  | .click => some (parseClickParams breaking false params)
  | .double_click => some (parseClickParams breaking true params)
  | .mouse_down => some (parseButtonOnlyParams breaking true params)
  | .mouse_up => some (parseButtonOnlyParams breaking false params)
  | .drag => some (parseDragParams breaking params)
  | .scroll => some (parseScrollParams breaking params)
  | .type_text => some (parseTypeTextParams breaking params)
  | .press_key => some (parsePressKeyParams breaking params)
  | .wait_for_frontmost => some (parseWaitForFrontmostParams breaking params)
  | .wait_for_text => some (parseWaitForTextParams breaking params)
  | .wait_until_changed => some (parseWaitUntilChangedParams breaking params)
  | .release_inputs => some (parseNoParams .releaseInputs params)
  | .focus_app => some (parseApplicationParams breaking false params)
  | .open_app => some (parseApplicationParams breaking true params)
  | _ => none

end Parsers

end ActionService

end Computer
