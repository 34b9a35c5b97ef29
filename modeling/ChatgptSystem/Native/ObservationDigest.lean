import ChatgptSystem.Computer.JSONValue
import ChatgptSystem.Native.ObservedTree
import Mathlib.Data.List.Forall2
import Mathlib.Data.Option.Basic
import Mathlib.Data.Rat.Floor

/-!
# The digest of an observation

The host answers `observe` with the digest of the bounded observation, and the verification engine
computes the digest of what it reads itself, over and over, until it is another one. The writer of
JSON texts, SHA-256 and the lengths of texts are parameters.

* `DesktopState`, `observe` — what is read of the frontmost application;
* `ObservationDigest.payload`, `ObservationDigest.digest` — what the digest is made of;
* `sanitizeObservation`, `handleObservation` — the answer of the host;
* `waitUntilAXChanged` — the wait of the verification engine.
-/

open Computer

namespace TargetRecovery

open InputControl DoubleArithmetic

/-! ## What is observed -/

structure ApplicationView (T : Type) where
  name : T
  bundleIdentifier : Option T
  frontmost : Bool
  deriving DecidableEq

def WorkspaceApplication.view {T : Type} (application : WorkspaceApplication T) :
    ApplicationView T :=
  ⟨application.name, application.bundleIdentifier, true⟩

structure ScreenObservation (T D : Type) where
  snapshotId : T
  application : ApplicationView T
  windowTitle : Option T
  elements : List (ObservedElementView T D)
  truncated : Bool

/-- What there is to be read: the frontmost application, the focused window with its title, and
the tree of the application itself. -/
structure DesktopState (T D : Type) where
  frontmostApplication : Option (WorkspaceApplication T)
  focusedWindow :
    Except AccessibilityReadError
      (Option (AXUIElement T D × Except AccessibilityReadError (Option T)))
  applicationElement : AXUIElement T D

section Observe

variable {T D : Type} [HostText T D] [DecidableEq T] [DoubleArithmetic D] (isBlank : T → Bool)

def observe (limits : ObservationLimits) (snapshotId : T) (application : WorkspaceApplication T)
    (state : DesktopState T D) : Except AccessibilityReadError (ScreenObservation T D) := do
  let focusedWindow ← state.focusedWindow
  let root := (focusedWindow.map Prod.fst).getD state.applicationElement
  let windowTitle ← (focusedWindow.map Prod.snd).getD (.ok none)
  let read ← observeTree isBlank limits root
  .ok { snapshotId, application := application.view, windowTitle, elements := read.elements,
        truncated := read.truncated }

def activeWindow (state : DesktopState T D) : Except AccessibilityReadError (Option T) := do
  match ← state.focusedWindow with
  | none => .error .unavailable
  | some window => window.2

end Observe

/-! ## The digest -/

/-- The strings and the numbers of JSON for the texts and the numbers of the host. -/
class HostEncoding (T D : Type) where
  text : T → String
  number : D → ℚ
  text_injective : Function.Injective text
  number_injective : Function.Injective number

namespace ObservationDigest

section Encoding

variable {T D : Type} [HostEncoding T D]

variable (D) in
/-- A text, as `encode` writes it. -/
def textValue (value : T) : JSONValue := .string (HostEncoding.text D value)

variable (T) in
def numberValue (value : D) : JSONValue := .number (HostEncoding.number T value)

def integerValue (value : ℤ) : JSONValue := .number value

variable (D) in
def encodeApplication (view : ApplicationView T) : JSONValue :=
  .object ([("name", textValue D view.name)] ++
    optional "bundleIdentifier" (view.bundleIdentifier.map (textValue D)) ++
    [("frontmost", .bool view.frontmost)])

variable (T) in
def encodeBounds (bounds : ComputerBounds D) : JSONValue :=
  .object [("x", numberValue T bounds.x), ("y", numberValue T bounds.y),
    ("width", numberValue T bounds.width), ("height", numberValue T bounds.height)]

def encodeAxis : ComputerScrollAxis → JSONValue
  | .vertical => .string "vertical"
  | .horizontal => .string "horizontal"

def encodeScroll (scroll : ComputerScrollCapabilityView) : JSONValue :=
  .object [("scrollable", .bool scroll.scrollable), ("axes", .array (scroll.axes.map encodeAxis))]

/-- `ComputerElementView.encode(to:)`. -/
def encodeElement (element : ObservedElementView T D) : JSONValue :=
  .object ([("index", integerValue element.index),
      ("parentIndex", (element.parentIndex.map integerValue).getD .null),
      ("depth", integerValue element.depth), ("role", textValue D element.role)] ++
    optional "subrole" (element.subrole.map (textValue D)) ++
    optional "title" (element.title.map (textValue D)) ++
    optional "description" (element.description.map (textValue D)) ++
    optional "focused" (element.focused.map .bool) ++
    optional "enabled" (element.enabled.map .bool) ++
    optional "selected" (element.selected.map .bool) ++
    optional "bounds" (element.bounds.map (encodeBounds T)) ++
    [("actions", .array (element.actions.map (textValue D))),
      ("scroll", encodeScroll element.scroll)])

def payload (observation : ScreenObservation T D) : JSONValue :=
  .object ([("application", encodeApplication D observation.application)] ++
    optional "windowTitle" (observation.windowTitle.map (textValue D)) ++
    [("elements", .array (observation.elements.map encodeElement)),
      ("truncated", .bool observation.truncated)])

variable {Data Digest : Type} (write : JSONValue → Data) (sha256 : Data → Digest)

def digest (observation : ScreenObservation T D) : Digest := sha256 (write (payload observation))

end Encoding

end ObservationDigest

/-! ## The host -/

section Host

variable {T D : Type} [HostText T D] [DecidableEq T] [DoubleArithmetic D] [HostEncoding T D]
  (isBlank : T → Bool)

variable (D) in
def safeApplicationView (view : ApplicationView T) : ApplicationView T :=
  { name := (boundedText D (some view.name)).getD (HostText.literal D "")
    bundleIdentifier := boundedText D view.bundleIdentifier
    frontmost := view.frontmost }

def sanitizeElement (element : ObservedElementView T D) : ObservedElementView T D :=
  { element with
    role := (boundedText D (some element.role)).getD (HostText.literal D "")
    subrole := boundedText D element.subrole
    title := boundedText D element.title
    description := boundedText D element.description
    actions := (element.actions.take 16).filterMap fun name =>
      boundedText D (some (HostText.first D 128 name)) }

def sanitizeObservation (observation : ScreenObservation T D) (limits : ObservationLimits) :
    ScreenObservation T D :=
  { snapshotId := (boundedText D (some observation.snapshotId)).getD (HostText.literal D "")
    application := safeApplicationView D observation.application
    windowTitle := boundedText D observation.windowTitle
    elements := (observation.elements.take limits.maxElements.toNat).map sanitizeElement
    truncated := observation.truncated ||
      decide (limits.maxElements < (observation.elements.length : ℤ)) }

inductive HostFailure where
  | permissionRequired
  | unavailable
  | outputLimit
  deriving DecidableEq

def AccessibilityReadError.failure : AccessibilityReadError → HostFailure
  | .permissionRequired => .permissionRequired
  | .unavailable => .unavailable

/-- How the host is set up, and what else it asks the system for. -/
structure HostSetting (T D : Type) where
  accessibilityTrusted : Bool
  /-- Whether there is a recovery engine, and then whether the displays can be listed. -/
  recovery : Option Bool
  /-- `UUID().uuidString`. -/
  snapshotId : T
  /-- How many characters the encoded observation has, with its perception. -/
  serializedCharacters : ScreenObservation T D → ℤ

/-- `ComputerRecoveryEngine.refreshObservation`; what it adds to the observation has no part in
the digest. -/
def refreshObservation (setting : HostSetting T D) (displays : Bool) (state : DesktopState T D) :
    Except HostFailure (ScreenObservation T D) :=
  if ! setting.accessibilityTrusted then .error .permissionRequired
  else match state.frontmostApplication with
    | none => .error .unavailable
    | some application =>
      match activeWindow state with
      | .error error => .error error.failure
      | .ok _ =>
        if ! displays then .error .unavailable
        else (observe isBlank .standard setting.snapshotId application state).mapError (·.failure)

def readObservation (setting : HostSetting T D) (state : DesktopState T D) :
    Except HostFailure (ScreenObservation T D) :=
  match setting.recovery with
  | some displays => refreshObservation isBlank setting displays state
  | none =>
    match state.frontmostApplication with
    | none => .error .unavailable
    | some application =>
      (observe isBlank .standard setting.snapshotId application state).mapError (·.failure)

variable {Data Digest : Type} (write : JSONValue → Data) (sha256 : Data → Digest)

/-- `handleObservation`: the bounded observation and its digest. -/
def handleObservation (setting : HostSetting T D) (state : DesktopState T D) :
    Except HostFailure (ScreenObservation T D × Digest) :=
  if ! setting.accessibilityTrusted then .error .permissionRequired
  else match readObservation isBlank setting state with
    | .error failure => .error failure
    | .ok observation =>
      let safeObservation := sanitizeObservation observation .standard
      if setting.serializedCharacters safeObservation ≤
          ObservationLimits.standard.maxSerializedCharacters then
        .ok (safeObservation, ObservationDigest.digest write sha256 safeObservation)
      else .error .outputLimit

/-! ## The verification engine -/

/-- `currentAXDigest`; any failure is `unavailable`. -/
def currentAXDigest (snapshotId : T) (state : DesktopState T D) : Option Digest :=
  match state.frontmostApplication with
  | none => none
  | some application =>
    match observe isBlank .standard snapshotId application state with
    | .error _ => none
    | .ok observation => some (ObservationDigest.digest write sha256 observation)

/-- What a poll meets: cancellation before it, the deadline at its start and after it, the state
and the identifier that it reads, and cancellation in the sleep that follows. -/
structure Poll (T D : Type) where
  cancelled : Bool
  lateAtStart : Bool
  snapshotId : T
  state : DesktopState T D
  lateAfter : Bool
  sleepCancelled : Bool

inductive WaitOutcome (Digest : Type) where
  | changed (digest : Digest)
  | timeout
  | unavailable
  | cancelled
  deriving DecidableEq

def pollAttempts (timeoutMs : ℤ) : ℕ := (max 1 ⌈(timeoutMs : ℚ) / 20⌉).toNat

variable [DecidableEq Digest]

/-- An attempt up to its sleep, if the wait does not end with it. -/
def pollOnce (baselineDigest : Digest) (attempt : ℕ) (poll : Poll T D) :
    Option (WaitOutcome Digest) :=
  if poll.cancelled then some .cancelled
  else if attempt > 0 && poll.lateAtStart then some .timeout
  else match currentAXDigest isBlank write sha256 poll.snapshotId poll.state with
    | none => some .unavailable
    | some digest =>
      if digest ≠ baselineDigest then some (.changed digest)
      else if poll.lateAfter then some .timeout
      else none

/-- The loop of `waitUntilAXChanged`, from an attempt on. -/
def waitLoop (baselineDigest : Digest) (polls : ℕ → Poll T D) (attempt : ℕ) :
    ℕ → WaitOutcome Digest
  | 0 => (pollOnce isBlank write sha256 baselineDigest attempt (polls attempt)).getD .timeout
  | remaining + 1 =>
    match pollOnce isBlank write sha256 baselineDigest attempt (polls attempt) with
    | some outcome => outcome
    | none =>
      if (polls attempt).sleepCancelled then .cancelled
      else waitLoop baselineDigest polls (attempt + 1) remaining

def waitUntilAXChanged (baselineDigest : Digest) (timeoutMs : ℤ) (polls : ℕ → Poll T D) :
    WaitOutcome Digest :=
  if 50 ≤ timeoutMs ∧ timeoutMs ≤ 60000 then
    waitLoop isBlank write sha256 baselineDigest polls 0 (pollAttempts timeoutMs)
  else .unavailable

end Host

end TargetRecovery
