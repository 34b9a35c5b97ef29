import ChatgptSystem.Foundations.Program
import ChatgptSystem.Native.TargetResolver
import Mathlib.Data.List.Sort
import Mathlib.Logic.Function.Basic

/-!
# The recovery engine

`ComputerRecoveryEngine.resolve`: a target is resolved in the cached observation of the frontmost
window; when that fails it is resolved again in a fresh observation, an index target by the role
and the name that its element had, and in the end among the texts that are recognised on the
screen.

* `ComputerObservationCache` — the observations by identifier, and the current one of a window;
* `RecoveryOp`, `RecoveryOp.apply` — what the engine asks of the system, and of its own state;
* `Desktop` — what there is to see;
* `resolve` — the engine.
-/

open Interleaving

namespace TargetRecovery

open InputControl DoubleArithmetic

/-! ## The cache -/

structure ContextKey (T : Type) where
  appIdentity : T
  windowIdentity : T
  windowGeneration : T
  displayTopologyDigest : T
  deriving DecidableEq

structure ComputerObservationCache (T D : Type) where
  capacity : ℕ
  entriesByObservationId : T → Option (CachedComputerObservation T D)
  currentObservationIdByContext : ContextKey T → Option T
  order : List T

section Cache

variable {T D : Type}

def contextKey (cached : CachedComputerObservation T D) : ContextKey T :=
  { appIdentity := cached.appIdentity
    windowIdentity := cached.windowIdentity
    windowGeneration := cached.windowGeneration
    displayTopologyDigest := cached.displayTopologyDigest }

variable [DecidableEq T]

namespace ComputerObservationCache

/-- An observation is dropped; it is no longer the current one of its window either. -/
def evict (cache : ComputerObservationCache T D) (observationId : T) :
    ComputerObservationCache T D :=
  match cache.entriesByObservationId observationId with
  | none => cache
  | some removed =>
    { cache with
      entriesByObservationId := Function.update cache.entriesByObservationId observationId none
      currentObservationIdByContext :=
        if cache.currentObservationIdByContext (contextKey removed) = some observationId then
          Function.update cache.currentObservationIdByContext (contextKey removed) none
        else cache.currentObservationIdByContext }

/-- The oldest observations are dropped until the order is short enough. -/
def trimTo (cache : ComputerObservationCache T D) : List T → ComputerObservationCache T D
  | [] => { cache with order := [] }
  | oldest :: rest =>
    if rest.length + 1 ≤ cache.capacity then { cache with order := oldest :: rest }
    else trimTo (cache.evict oldest) rest

def store (cache : ComputerObservationCache T D) (cached : CachedComputerObservation T D) :
    ComputerObservationCache T D :=
  let order := if (cache.entriesByObservationId cached.observationId).isSome then
    cache.order.filter (· ≠ cached.observationId) else cache.order
  trimTo
    { cache with
      entriesByObservationId :=
        Function.update cache.entriesByObservationId cached.observationId (some cached)
      currentObservationIdByContext :=
        Function.update cache.currentObservationIdByContext (contextKey cached)
          (some cached.observationId) }
    (order ++ [cached.observationId])

def current (cache : ComputerObservationCache T D) (key : ContextKey T) :
    Option (CachedComputerObservation T D) :=
  (cache.currentObservationIdByContext key).bind cache.entriesByObservationId

def observation (cache : ComputerObservationCache T D) (snapshotId : T) :
    Option (CachedComputerObservation T D) :=
  cache.entriesByObservationId snapshotId

end ComputerObservationCache

end Cache

/-! ## State and operations -/

structure WorkspaceApplication (T : Type) where
  name : T
  bundleIdentifier : Option T
  deriving DecidableEq

inductive AccessibilityReadError where
  | permissionRequired
  | unavailable
  deriving DecidableEq

inductive ComputerRecoveryError where
  | invalidRetryBudget
  | targetNotFound
  | targetAmbiguous
  | staleSnapshot
  | unsafeGeometry
  | focusFailed
  | permissionRequired
  | unavailable
  | needsReplan
  deriving DecidableEq

inductive VisionMode where
  | fast
  | accurate

structure RecoveryState (T D : Type) where
  cache : ComputerObservationCache T D
  lastObservation : Option (CachedComputerObservation T D)
  lastWindowIdentity : Option T
  lastWindowGeneration : Option T

inductive RecoveryOp (T D : Type) where
  | accessibilityTrusted
  | screenCaptureAuthorized
  | frontmostApplication
  | runningApplications
  | activate (application : WorkspaceApplication T)
  | activeWindow (application : WorkspaceApplication T)
  | activeDisplayBounds
  | observe (application : WorkspaceApplication T)
  | captureWindowImage (bounds : ComputerBounds D)
  /-- The candidates in the captured image that keep the limits. -/
  | recognizeText (mode : VisionMode)
  | cachedObservation (snapshotId : T)
  | currentObservation (key : ContextKey T)
  | lastObservation
  | windowGeneration (identity : T)
  /-- The observation is cached, and is the last one. -/
  | store (cached : CachedComputerObservation T D)

def RecoveryOp.Res {T D : Type} : RecoveryOp T D → Type
  | .accessibilityTrusted => Bool
  | .screenCaptureAuthorized => Bool
  | .frontmostApplication => Option (WorkspaceApplication T)
  | .runningApplications => List (WorkspaceApplication T)
  | .activate _ => Bool
  | .activeWindow _ => Except AccessibilityReadError (Option T)
  | .activeDisplayBounds => Except ComputerRecoveryError (List (ComputerBounds D))
  | .observe _ => Except AccessibilityReadError (ComputerObservation T D)
  | .captureWindowImage _ => Except ComputerRecoveryError Unit
  | .recognizeText _ => Except ComputerRecoveryError (List (ComputerOcrCandidateView T D))
  | .cachedObservation _ => Option (CachedComputerObservation T D)
  | .currentObservation _ => Option (CachedComputerObservation T D)
  | .lastObservation => Option (CachedComputerObservation T D)
  | .windowGeneration _ => T
  | .store _ => Unit

abbrev RecoveryM (T D α : Type) : Type :=
  Program (RecoveryOp T D) RecoveryOp.Res ComputerRecoveryError α

/-- What there is to see: the frontmost application with its window, and the displays. -/
structure Desktop (T D : Type) where
  application : WorkspaceApplication T
  windowTitle : Option T
  elements : List (ComputerElementView T D)
  displays : List (ComputerBounds D)

inductive RecoveryChoice (T D : Type) where
  | completes
  | refuses
  | fails (error : AccessibilityReadError)
  | observes (snapshotId : T) (truncated : Bool)
  | recognizes (candidates : List (ComputerOcrCandidateView T D))
  | runs (applications : List (WorkspaceApplication T))
  | draws (generation : T)

section Steps

variable {T D : Type} [DecidableEq T]

/-- An operation while the desktop does not change. -/
def RecoveryOp.apply (desktop : Desktop T D) (choice : RecoveryChoice T D) :
    (o : RecoveryOp T D) → RecoveryState T D → Option (o.Res × RecoveryState T D)
  | .accessibilityTrusted, s | .screenCaptureAuthorized, s | .activate _, s =>
    match choice with
    | .completes => some (true, s)
    | .refuses => some (false, s)
    | _ => none
  | .frontmostApplication, s => some (some desktop.application, s)
  | .runningApplications, s =>
    match choice with
    | .runs applications => some (applications, s)
    | _ => none
  | .activeWindow _, s =>
    match choice with
    | .completes => some (.ok desktop.windowTitle, s)
    | .fails error => some (.error error, s)
    | _ => none
  | .activeDisplayBounds, s =>
    match choice with
    | .completes => some (.ok desktop.displays, s)
    | .fails _ => some (.error .unavailable, s)
    | _ => none
  | .observe application, s =>
    match choice with
    | .observes snapshotId truncated =>
      some (.ok
        { snapshotId
          bundleIdentifier := application.bundleIdentifier
          windowTitle := desktop.windowTitle
          elements := desktop.elements
          truncated
          perception := none }, s)
    | .fails error => some (.error error, s)
    | _ => none
  | .captureWindowImage _, s =>
    match choice with
    | .completes => some (.ok (), s)
    | .fails _ => some (.error .unavailable, s)
    | _ => none
  | .recognizeText _, s =>
    match choice with
    | .recognizes candidates => some (.ok candidates, s)
    | .fails _ => some (.error .unavailable, s)
    | _ => none
  | .cachedObservation snapshotId, s => some (s.cache.observation snapshotId, s)
  | .currentObservation key, s => some (s.cache.current key, s)
  | .lastObservation, s => some (s.lastObservation, s)
  | .windowGeneration identity, s =>
    match s.lastWindowGeneration, decide (s.lastWindowIdentity = some identity), choice with
    | some generation, true, _ => some (generation, s)
    | _, _, .draws generation =>
      some (generation, { s with
        lastWindowIdentity := some identity
        lastWindowGeneration := some generation })
    | _, _, _ => none
  | .store cached, s =>
    some ((), { s with cache := s.cache.store cached, lastObservation := some cached })

/-- The steps of the engine while the desktop does not change. -/
def recoveryExec (desktop : Desktop T D) :
    Exec (RecoveryOp T D) RecoveryOp.Res (RecoveryState T D) :=
  fun o s r s' => ∃ choice, o.apply desktop choice s = some (r, s')

end Steps

/-! ## Identities -/

section Identities

variable {T D : Type} [HostText T D] [DoubleArithmetic D]

variable (D) in
omit [DoubleArithmetic D] in
def appIdentity (application : WorkspaceApplication T) : T :=
  let named := HostText.joined D (HostText.literal D "")
    [HostText.literal D "name-", HostText.sha256 D application.name]
  match application.bundleIdentifier with
  | some bundleIdentifier => if HostText.isEmpty D bundleIdentifier then named else bundleIdentifier
  | none => named

variable (D) in
omit [DoubleArithmetic D] in
def windowIdentity (appIdentity : T) (title : Option T) : T :=
  HostText.sha256 D (HostText.joined D (HostText.literal D "\u001f")
    [appIdentity, title.getD (HostText.literal D "")])

omit [HostText T D] in
/-- The order of the displays: by x, y, width and height. -/
def comesBefore (lhs rhs : ComputerBounds D) : Bool :=
  if !eq lhs.x rhs.x then lt lhs.x rhs.x
  else if !eq lhs.y rhs.y then lt lhs.y rhs.y
  else if !eq lhs.width rhs.width then lt lhs.width rhs.width
  else lt lhs.height rhs.height

def topologyDigest (displays : List (ComputerBounds D)) : T :=
  let payload := (displays.insertionSort fun lhs rhs => comesBefore rhs lhs = false).map
    fun bounds => HostText.joined D (HostText.literal D ",")
      [HostText.description bounds.x, HostText.description bounds.y,
        HostText.description bounds.width, HostText.description bounds.height]
  HostText.sha256 D (HostText.joined D (HostText.literal D "\u001e") payload)

end Identities

/-! ## Perception -/

section Perception

variable {T D : Type} [HostText T D] [DecidableEq T]

def classify (observation : ComputerObservation T D) : ComputerPerceptionSummary T D :=
  let isChrome : Bool :=
    observation.bundleIdentifier = some (HostText.literal D "com.google.Chrome")
  let hasWebArea := observation.elements.any fun element =>
    element.role = HostText.literal D "AXWebArea"
  let axQuality : ComputerAXQuality :=
    if isChrome && !hasWebArea then .weak
    else if observation.elements.isEmpty then .weak
    else if observation.truncated then .incomplete
    else .strong
  { axQuality, ocrUsed := false, ocrCandidates := [] }

def focusedWindowBounds (observation : ComputerObservation T D) : Option (ComputerBounds D) :=
  let isWindow (element : ComputerElementView T D) : Bool :=
    element.role = HostText.literal D "AXWindow"
  ((observation.elements.find? fun element =>
      isWindow element && element.focused = some true).bind ComputerElementView.bounds).or
    ((observation.elements.find? isWindow).bind ComputerElementView.bounds)

/-- The fast recognition, and the accurate one where it finds nothing. -/
def recognizeFastThenAccurate : RecoveryM T D (List (ComputerOcrCandidateView T D)) := do
  let fast ← .request (.recognizeText .fast) Program.ofExcept
  if !fast.isEmpty then pure fast
  else .request (.recognizeText .accurate) Program.ofExcept

/-- The observation with what is known about the perception of its window. -/
def observationWithPerception (observation : ComputerObservation T D)
    (summary : ComputerPerceptionSummary T D) : ComputerObservation T D :=
  { observation with perception := some summary }

/-- What is recognised in a window whose elements say little. -/
def enrichObservation (observation : ComputerObservation T D)
    (base : ComputerPerceptionSummary T D) : RecoveryM T D (ComputerObservation T D) :=
  let unread := observationWithPerception observation
    { base with ocrUsed := false, ocrCandidates := [] }
  if base.axQuality ≠ .weak then .pure (observationWithPerception observation base)
  else .request .screenCaptureAuthorized fun authorized =>
    match authorized, focusedWindowBounds observation with
    | true, some windowBounds =>
      (do
        .request (.captureWindowImage windowBounds) Program.ofExcept
        recognizeFastThenAccurate : RecoveryM T D _).attempt.bind fun
      | .ok candidates => .pure (observationWithPerception observation
          { base with ocrUsed := true, ocrCandidates := candidates })
      | .error _ => .pure unread
    | _, _ => .pure unread

end Perception

/-! ## Contexts -/

section Contexts

variable {T D : Type} [HostText T D] [DecidableEq T] [DoubleArithmetic D]

omit [HostText T D] [DecidableEq T] [DoubleArithmetic D] in
def activeDisplays : RecoveryM T D (List (ComputerBounds D)) :=
  .request .activeDisplayBounds fun
    | .ok displays => if displays.isEmpty then .throw .unavailable else .pure displays
    | .error error => .throw error

/-- The cached observation of the frontmost window, while nothing says that it is outdated. -/
def compatibleCachedContext : RecoveryM T D (Option (ComputerTargetResolutionContext T D)) :=
  .request .lastObservation fun
  | none => .pure none
  | some last => .request .frontmostApplication fun
    | none => .pure none
    | some application =>
      let identity := appIdentity D application
      if identity ≠ last.appIdentity then .pure none
      else .request (.activeWindow application) fun
      | .error .permissionRequired => .throw .permissionRequired
      | .error .unavailable => .pure none
      | .ok title =>
        let window := windowIdentity D identity title
        if window ≠ last.windowIdentity then .pure none
        else activeDisplays.bind fun displays =>
          let digest := topologyDigest displays
          let key : ContextKey T :=
            { appIdentity := identity
              windowIdentity := window
              windowGeneration := last.windowGeneration
              displayTopologyDigest := digest }
          if digest ≠ last.displayTopologyDigest then .pure none
          else .request (.currentObservation key) fun
          | none => .pure none
          | some cached => .pure <| some
            { cached
              currentDisplayTopologyDigest := digest
              activeDisplays := displays }

omit [HostText T D] [DecidableEq T] [DoubleArithmetic D] in
def readError {α : Type} : AccessibilityReadError → RecoveryM T D α
  | .permissionRequired => .throw .permissionRequired
  | .unavailable => .throw .unavailable

def freshContext : RecoveryM T D (ComputerTargetResolutionContext T D) :=
  .request .accessibilityTrusted fun trusted =>
    if !trusted then .throw .permissionRequired
    else .request .frontmostApplication fun
    | none => .throw .unavailable
    | some application =>
      let identity := appIdentity D application
      .request (.activeWindow application) fun
      | .error error => readError error
      | .ok title =>
        let window := windowIdentity D identity title
        .request (.windowGeneration window) fun generation =>
          activeDisplays.bind fun displays =>
            let digest := topologyDigest displays
            .request (.observe application) fun
            | .error error => readError error
            | .ok raw => (enrichObservation raw (classify raw)).bind fun observation =>
              let cached : CachedComputerObservation T D :=
                { observationId := observation.snapshotId
                  appIdentity := identity
                  windowIdentity := window
                  windowGeneration := generation
                  displayTopologyDigest := digest
                  observation }
              .request (.store cached) fun _ => .pure
                { cached
                  currentDisplayTopologyDigest := digest
                  activeDisplays := displays }

end Contexts

/-! ## Recognised text -/

structure OCRQuery (T : Type) where
  text : T
  isExact : Bool
  within : Option (ComputerTargetScope T)

section Recognition

variable {T D : Type}

def ocrQuery : ComputerTarget T D → Option (OCRQuery T)
  | .text text isExact | .ocrText text isExact => some { text, isExact, within := none }
  | .scoped target within =>
    (ocrQuery target).map fun base => { base with within := some within }
  | _ => none

def mapResolutionError : ComputerTargetResolutionError → ComputerRecoveryError
  | .notFound => .targetNotFound
  | .ambiguous => .targetAmbiguous
  | .staleSnapshot => .staleSnapshot
  | .unsafeGeometry => .unsafeGeometry

variable [HostText T D] [DecidableEq T] [DoubleArithmetic D]

def scopeBounds (within : Option (ComputerTargetScope T))
    (context : ComputerTargetResolutionContext T D) :
    Except ComputerRecoveryError (Option (ComputerBounds D)) :=
  match within with
  | none => .ok none
  | some within =>
    match ComputerTargetResolver.resolveScope within context with
    | .ok scope => .ok (some scope.bounds)
    | .error error => .error (mapResolutionError error)

variable (D) in
omit [DoubleArithmetic D] in
def matchesRecognised (candidate query : T) (isExact : Bool) : Bool :=
  let normalizedQuery := normalize D query (!isExact)
  let normalizedCandidate := normalize D candidate (!isExact)
  !HostText.isEmpty D normalizedQuery && !HostText.isEmpty D normalizedCandidate &&
    matchesNormalized D normalizedQuery normalizedCandidate isExact

def resolveStructuredOCRCandidates (candidates : List (ComputerOcrCandidateView T D))
    (query : OCRQuery T) (context : ComputerTargetResolutionContext T D) :
    Except ComputerRecoveryError (Option (ResolvedComputerTarget T D)) := do
  let scope ← scopeBounds query.within context
  let matching := candidates.filter fun candidate =>
    matchesRecognised D candidate.text query.text query.isExact && match scope with
      | none => true
      | some scope => hasInterior candidate.bounds && hasInterior scope &&
          liesWithin candidate.bounds scope
  match matching with
  | [] => .ok none
  | [candidate] =>
    if !isSafe candidate.bounds context.activeDisplays then .error .unsafeGeometry
    else
      let bounds := candidate.bounds
      let place := HostText.joined D (HostText.literal D ",")
        [HostText.description bounds.x, HostText.description bounds.y,
          HostText.description bounds.width, HostText.description bounds.height]
      .ok (some
        { source := .ocr
          bounds
          actionPoint := middle bounds
          observationId := some context.cached.observationId
          appIdentity := context.cached.appIdentity
          windowIdentity := context.cached.windowIdentity
          windowGeneration := context.cached.windowGeneration
          displayTopologyDigest := context.currentDisplayTopologyDigest
          confidence := .high
          semanticFingerprint := some (HostText.sha256 D (HostText.joined D
            (HostText.literal D "\u001f") [normalize D query.text true, place])) })
  | _ => .error .targetAmbiguous

/-- The texts on the screen are recognised once more, first fast and then accurately. -/
def resolveOnScreen (query : OCRQuery T) (context : ComputerTargetResolutionContext T D) :
    RecoveryM T D (Option (ResolvedComputerTarget T D)) :=
  .request .screenCaptureAuthorized fun authorized =>
    if !authorized then .throw .permissionRequired
    else match focusedWindowBounds context.cached.observation with
    | none => .pure none
    | some windowBounds => do
      .request (.captureWindowImage windowBounds) Program.ofExcept
      let fast ← .request (.recognizeText .fast) Program.ofExcept
      let resolved ← .ofExcept (resolveStructuredOCRCandidates fast query context)
      match resolved with
      | some resolved => pure (some resolved)
      | none =>
        let accurate ← .request (.recognizeText .accurate) Program.ofExcept
        .ofExcept (resolveStructuredOCRCandidates accurate query context)

def resolveWithOCRIfRelevant (target : ComputerTarget T D)
    (context : ComputerTargetResolutionContext T D) :
    RecoveryM T D (Option (ResolvedComputerTarget T D)) :=
  match ocrQuery target with
  | none => .pure none
  | some query =>
    match context.cached.observation.perception with
    | some perception =>
      if !perception.ocrCandidates.isEmpty then
        .ofExcept (resolveStructuredOCRCandidates perception.ocrCandidates query context)
      else if perception.ocrUsed then .pure none
      else resolveOnScreen query context
    | none => resolveOnScreen query context

end Recognition

/-! ## The engine -/

section Engine

variable {T D : Type} [HostText T D] [DecidableEq T] [DoubleArithmetic D]

omit [HostText T D] [DecidableEq T] [DoubleArithmetic D] in
def priorObservation : ComputerTarget T D → RecoveryM T D (Option (CachedComputerObservation T D))
  | .index snapshotId _ => .request (.cachedObservation snapshotId) .pure
  | .scoped target _ => priorObservation target
  | _ => .pure none

omit [DecidableEq T] [DoubleArithmetic D] in
def roleTarget (element : ComputerElementView T D) : ComputerTarget T D :=
  match element.title.filter fun title => !HostText.isEmpty D title with
  | some title => .role element.role (some title) true
  | none => match element.description.filter fun text => !HostText.isEmpty D text with
    | some text => .role element.role (some text) true
    | none => .role element.role none true

omit [DecidableEq T] [DoubleArithmetic D] in
def semanticRecoveryTarget (prior : Option (CachedComputerObservation T D)) :
    ComputerTarget T D → ComputerTarget T D
  | .scoped target within => .scoped (semanticRecoveryTarget prior target) within
  | .index snapshotId index =>
    match prior.bind fun prior => elementAt prior.observation.elements index with
    | some element => roleTarget element
    | none => .index snapshotId index
  | target => target

omit [DoubleArithmetic D] in
def isOf (prior : CachedComputerObservation T D)
    (application : Option (WorkspaceApplication T)) : Bool :=
  match application with
  | some application => appIdentity D application = prior.appIdentity
  | none => false

omit [DoubleArithmetic D] in
def refocusPriorApplicationIfNeeded (prior : CachedComputerObservation T D) :
    RecoveryM T D Unit :=
  .request .frontmostApplication fun current =>
    if isOf prior current then .pure ()
    else .request .runningApplications fun running =>
      match running.find? fun application => isOf prior (some application) with
      | none => .throw .focusFailed
      | some intended => .request (.activate intended) fun activated =>
        if !activated then .throw .focusFailed
        else .request .frontmostApplication fun current =>
          if isOf prior current then .pure () else .throw .focusFailed

/-- The second attempt: the target is resolved by what it means. -/
def resolveAgain (recoveryTarget : ComputerTarget T D) (retryBudget : ℤ)
    (context : ComputerTargetResolutionContext T D) :
    RecoveryM T D (ResolvedComputerTarget T D) :=
  match ComputerTargetResolver.resolve recoveryTarget context with
  | .ok resolved => .pure resolved
  | .error error =>
    if retryBudget ≤ 1 then .throw (mapResolutionError error)
    else (resolveWithOCRIfRelevant recoveryTarget context).bind fun
      | some resolved => .pure resolved
      | none => .throw .needsReplan

def resolveIn (target recoveryTarget : ComputerTarget T D) (retryBudget : ℤ)
    (usedCachedContext : Bool) (context : ComputerTargetResolutionContext T D) :
    RecoveryM T D (ResolvedComputerTarget T D) :=
  match ComputerTargetResolver.resolve target context with
  | .ok resolved => .pure resolved
  | .error initialResolutionError =>
    let recognised : RecoveryM T D (Option (ResolvedComputerTarget T D)) :=
      if context.cached.observation.perception.any fun perception => perception.ocrUsed then
        resolveWithOCRIfRelevant recoveryTarget context
      else .pure none
    recognised.bind fun
    | some resolved => .pure resolved
    | none =>
      if retryBudget = 0 then .throw (mapResolutionError initialResolutionError)
      else if usedCachedContext then
        freshContext.bind (resolveAgain recoveryTarget retryBudget)
      else resolveAgain recoveryTarget retryBudget context

def resolve (target : ComputerTarget T D) (retryBudget : ℤ) :
    RecoveryM T D (ResolvedComputerTarget T D) :=
  if ¬ (0 ≤ retryBudget ∧ retryBudget ≤ 2) then .throw .invalidRetryBudget
  else .request .accessibilityTrusted fun trusted =>
    if !trusted then .throw .permissionRequired
    else (priorObservation target).bind fun prior =>
      (match prior with
        | some prior => refocusPriorApplicationIfNeeded prior
        | none => .pure () : RecoveryM T D Unit).bind fun _ =>
      let recoveryTarget := semanticRecoveryTarget prior target
      compatibleCachedContext.bind fun
      | some context => resolveIn target recoveryTarget retryBudget true context
      | none => freshContext.bind (resolveIn target recoveryTarget retryBudget false)

end Engine

end TargetRecovery
