import ChatgptSystem.Native.InputModels
import Mathlib.Data.List.Infix

/-!
# The target resolver

`ComputerTargetResolver`: from a target and an accessibility observation to the place an action
goes to. Text and coordinates are parameters, as in the input models.

* `HostText` — the operations on `String` that the resolution uses;
* `ComputerElementView`, `ComputerTarget`, `ResolvedComputerTarget` — the data model;
* `resolveUniqueAXElement`, `resolvedAXTarget` — the only enabled match, and where it is;
* `ComputerTargetResolver.resolve` — the resolver.
-/

/-- The operations on `String`, and the digest of its UTF-8 encoding. -/
class HostText (T D : Type) where
  literal : String → T
  isEmpty : T → Bool
  /-- The first `n` characters. -/
  first : ℕ → T → T
  splitAtWhitespace : T → List T
  joined : (separator : T) → List T → T
  lowercased : T → T
  contains : T → T → Bool
  /-- The hexadecimal digits of the SHA-256 digest. -/
  sha256 : T → T
  /-- A number in a text. -/
  description : D → T

/-- Lists of characters, with a text as its own digest, for runs on fixed inputs. -/
instance : HostText (List Char) ℤ where
  literal := String.toList
  isEmpty := List.isEmpty
  first := List.take
  splitAtWhitespace text := (text.splitOnP Char.isWhitespace).filter fun part => !part.isEmpty
  joined separator parts := separator.intercalate parts
  lowercased := List.map Char.toLower
  contains text part := text.tails.any part.isPrefixOf
  sha256 text := text
  description number := (toString number).toList

namespace TargetRecovery

open InputControl DoubleArithmetic

/-! ## Models -/

structure ComputerElementView (T D : Type) where
  index : ℤ
  parentIndex : Option ℤ
  role : T
  subrole : Option T
  title : Option T
  description : Option T
  focused : Option Bool
  enabled : Option Bool
  selected : Option Bool
  bounds : Option (ComputerBounds D)

inductive ComputerTargetScope (T : Type) where
  | index (snapshotId : T) (index : ℤ)
  | role (role : T) (name : Option T) (isExact : Bool)

inductive ComputerTarget (T D : Type) where
  | index (snapshotId : T) (index : ℤ)
  | role (role : T) (name : Option T) (isExact : Bool)
  | text (text : T) (isExact : Bool)
  | label (label : T) (isExact : Bool)
  | ocrText (text : T) (isExact : Bool)
  | point (x y : D)
  | scoped (target : ComputerTarget T D) (within : ComputerTargetScope T)

inductive ComputerTargetSource where
  | ax
  | ocr
  | point
  deriving DecidableEq

inductive ComputerTargetConfidence where
  | deterministic
  | high
  | explicit
  deriving DecidableEq

structure ResolvedComputerTarget (T D : Type) where
  source : ComputerTargetSource
  bounds : ComputerBounds D
  actionPoint : ComputerPoint D
  observationId : Option T
  appIdentity : T
  windowIdentity : T
  windowGeneration : T
  displayTopologyDigest : T
  confidence : ComputerTargetConfidence
  semanticFingerprint : Option T

inductive ComputerAXQuality where
  | strong
  /-- `partial`, of a truncated observation. -/
  | incomplete
  | weak
  deriving DecidableEq

structure ComputerOcrCandidateView (T D : Type) where
  text : T
  bounds : ComputerBounds D

structure ComputerPerceptionSummary (T D : Type) where
  axQuality : ComputerAXQuality
  ocrUsed : Bool
  ocrCandidates : List (ComputerOcrCandidateView T D)

structure ComputerObservation (T D : Type) where
  snapshotId : T
  bundleIdentifier : Option T
  windowTitle : Option T
  elements : List (ComputerElementView T D)
  truncated : Bool
  perception : Option (ComputerPerceptionSummary T D)

structure CachedComputerObservation (T D : Type) where
  observationId : T
  appIdentity : T
  windowIdentity : T
  windowGeneration : T
  displayTopologyDigest : T
  observation : ComputerObservation T D

structure ComputerTargetResolutionContext (T D : Type) where
  cached : CachedComputerObservation T D
  currentDisplayTopologyDigest : T
  activeDisplays : List (ComputerBounds D)

inductive ComputerTargetResolutionError where
  | notFound
  | ambiguous
  | staleSnapshot
  | unsafeGeometry
  deriving DecidableEq

/-! ## Text and geometry -/

section Text

variable {T : Type} (D : Type) [HostText T D] [DecidableEq T]

/-- White space is collapsed; an inexact comparison ignores the case. -/
def normalize (value : T) (lowercased : Bool) : T :=
  let collapsed := HostText.joined D (HostText.literal D " ")
    (HostText.splitAtWhitespace D (HostText.first D 4096 value))
  if lowercased then HostText.lowercased D collapsed else collapsed

/-- Whether a text that is compared with a query is equal to it, or contains it. -/
def matchesNormalized (query candidate : T) (isExact : Bool) : Bool :=
  if isExact then decide (candidate = query) else HostText.contains D candidate query

def matchesText (query : T) (isExact : Bool) (candidates : List (Option T)) : Bool :=
  let normalizedQuery := normalize D query (!isExact)
  !HostText.isEmpty D normalizedQuery && (candidates.filterMap id).any fun candidate =>
    matchesNormalized D normalizedQuery (normalize D candidate (!isExact)) isExact

variable {D}

def matchesRole (role : T) (name : Option T) (isExact : Bool) (element : ComputerElementView T D) :
    Bool :=
  decide (element.role = role) && match name with
    | none => true
    | some name => matchesText D name isExact [element.title, element.description]

end Text

section Geometry

variable {D : Type} [DoubleArithmetic D]

def hasInterior (bounds : ComputerBounds D) : Bool :=
  isFinite bounds.x && isFinite bounds.y && isFinite bounds.width && isFinite bounds.height &&
    lt (decimal 0 0) bounds.width && lt (decimal 0 0) bounds.height

def liesWithin (bounds container : ComputerBounds D) : Bool :=
  le container.x bounds.x && le container.y bounds.y &&
    le (add bounds.x bounds.width) (add container.x container.width) &&
    le (add bounds.y bounds.height) (add container.y container.height)

def isSafe (bounds : ComputerBounds D) (displays : List (ComputerBounds D)) : Bool :=
  hasInterior bounds && displays.any fun display => hasInterior display && liesWithin bounds display

def displayContains (x y : D) (display : ComputerBounds D) : Bool :=
  hasInterior display && le display.x x && le display.y y &&
    lt x (add display.x display.width) && lt y (add display.y display.height)

def middle (bounds : ComputerBounds D) : ComputerPoint D :=
  ⟨add bounds.x (div bounds.width (decimal 2 0)), add bounds.y (div bounds.height (decimal 2 0))⟩

end Geometry

/-! ## Elements -/

section Elements

variable {T D : Type}

def ComputerElementView.isEnabled (element : ComputerElementView T D) : Bool :=
  element.enabled ≠ some false

def elementAt (elements : List (ComputerElementView T D)) (index : ℤ) :
    Option (ComputerElementView T D) :=
  elements.find? fun element => element.index = index

theorem length_filter_visited_lt {elements : List (ComputerElementView T D)} {visited : List ℤ}
    {element : ComputerElementView T D} (hmem : element ∈ elements)
    (hnew : element.index ∉ visited) :
    (elements.filter fun other => other.index ∉ element.index :: visited).length <
      (elements.filter fun other => other.index ∉ visited).length := by
  have hsplit : (elements.filter fun other => other.index ∉ element.index :: visited) =
      (elements.filter fun other => other.index ∉ visited).filter
        fun other => other.index ≠ element.index := by
    rw [List.filter_filter]
    refine List.filter_congr fun other _ => ?_
    simp [not_or]
  rw [hsplit]
  refine List.length_filter_lt_length_iff_exists.mpr ⟨element, ?_, by simp⟩
  exact List.mem_filter.mpr ⟨hmem, by simpa using hnew⟩

/-- From a parent on upwards, along parents that have not been visited. -/
def reachesAncestor (ancestorIndex : ℤ) (elements : List (ComputerElementView T D))
    (visited : List ℤ) : Option ℤ → Bool
  | none => false
  | some parentIndex =>
    if _hvisited : parentIndex ∈ visited then false
    else if parentIndex = ancestorIndex then true
    else match _hparent : elementAt elements parentIndex with
      | none => false
      | some parentElement =>
        reachesAncestor ancestorIndex elements (parentIndex :: visited) parentElement.parentIndex
termination_by (elements.filter fun element => element.index ∉ visited).length
decreasing_by
  have hmem := List.mem_of_find?_eq_some _hparent
  have hindex : parentElement.index = parentIndex := by simpa using List.find?_some _hparent
  subst hindex
  exact length_filter_visited_lt hmem _hvisited

def isDescendant (element : ComputerElementView T D) (ancestorIndex : ℤ)
    (elements : List (ComputerElementView T D)) : Bool :=
  reachesAncestor ancestorIndex elements [] element.parentIndex

end Elements

/-! ## The resolver -/

namespace ComputerTargetResolver

section Resolver

variable {T D : Type} [HostText T D] [DecidableEq T] [DoubleArithmetic D]

/-- The text of an element by which its place is recognised again. -/
def semanticFingerprint (element : ComputerElementView T D) : T :=
  let bounds := match element.bounds with
    | some bounds => HostText.joined D (HostText.literal D ",")
      [HostText.description bounds.x, HostText.description bounds.y,
        HostText.description bounds.width, HostText.description bounds.height]
    | none => HostText.literal D "none"
  let flag (value : Option Bool) : T := HostText.literal D (match value with
    | some true => "true"
    | some false => "false"
    | none => "nil")
  let empty : T := HostText.literal D ""
  HostText.sha256 D (HostText.joined D (HostText.literal D "\u001f")
    [element.role, element.subrole.getD empty, element.title.getD empty,
      element.description.getD empty, flag element.enabled, flag element.selected, bounds])

/-- The place of an element that is enabled and lies on a display. -/
def resolvedAXTarget (element : ComputerElementView T D)
    (context : ComputerTargetResolutionContext T D) :
    Except ComputerTargetResolutionError (ResolvedComputerTarget T D) :=
  if !element.isEnabled then .error .notFound
  else match element.bounds with
    | none => .error .unsafeGeometry
    | some bounds =>
      if !isSafe bounds context.activeDisplays then .error .unsafeGeometry
      else .ok
        { source := .ax
          bounds
          actionPoint := middle bounds
          observationId := some context.cached.observationId
          appIdentity := context.cached.appIdentity
          windowIdentity := context.cached.windowIdentity
          windowGeneration := context.cached.windowGeneration
          displayTopologyDigest := context.currentDisplayTopologyDigest
          confidence := .deterministic
          semanticFingerprint := some (semanticFingerprint element) }

omit [HostText T D] [DecidableEq T] [DoubleArithmetic D] in
def resolveUniqueAXElement (context : ComputerTargetResolutionContext T D)
    (scopeIndex : Option ℤ) (found : ComputerElementView T D → Bool) :
    Except ComputerTargetResolutionError (ComputerElementView T D) :=
  let elements := context.cached.observation.elements
  let matching := elements.filter fun element => found element && match scopeIndex with
    | none => true
    | some scopeIndex => isDescendant element scopeIndex elements
  match matching.filter ComputerElementView.isEnabled with
  | [] => .error .notFound
  | [element] => .ok element
  | _ => .error .ambiguous

def resolveUniqueAX (context : ComputerTargetResolutionContext T D) (scopeIndex : Option ℤ)
    (found : ComputerElementView T D → Bool) :
    Except ComputerTargetResolutionError (ResolvedComputerTarget T D) := do
  let element ← resolveUniqueAXElement context scopeIndex found
  resolvedAXTarget element context

def indexedElement (context : ComputerTargetResolutionContext T D) (snapshotId : T) (index : ℤ) :
    Except ComputerTargetResolutionError (ComputerElementView T D) :=
  if snapshotId = context.cached.observationId ∧
      snapshotId = context.cached.observation.snapshotId then
    match elementAt context.cached.observation.elements index with
    | some element => .ok element
    | none => .error .staleSnapshot
  else .error .staleSnapshot

def resolveScopeElement (scope : ComputerTargetScope T)
    (context : ComputerTargetResolutionContext T D) :
    Except ComputerTargetResolutionError (ComputerElementView T D) :=
  match scope with
  | .index snapshotId index => indexedElement context snapshotId index
  | .role role name isExact => resolveUniqueAXElement context none (matchesRole role name isExact)

def resolveScope (scope : ComputerTargetScope T) (context : ComputerTargetResolutionContext T D) :
    Except ComputerTargetResolutionError (ResolvedComputerTarget T D) :=
  if context.cached.displayTopologyDigest ≠ context.currentDisplayTopologyDigest then
    .error .staleSnapshot
  else do
    let element ← resolveScopeElement scope context
    resolvedAXTarget element context

def resolveScoped (target : ComputerTarget T D) (scopeIndex : ℤ)
    (context : ComputerTargetResolutionContext T D) :
    Except ComputerTargetResolutionError (ResolvedComputerTarget T D) :=
  match target with
  | .index snapshotId index => do
    let element ← indexedElement context snapshotId index
    if !isDescendant element scopeIndex context.cached.observation.elements then
      .error .notFound
    else resolvedAXTarget element context
  | .role role name isExact =>
    resolveUniqueAX context (some scopeIndex) (matchesRole role name isExact)
  | .text text isExact | .label text isExact =>
    resolveUniqueAX context (some scopeIndex) fun element =>
      matchesText D text isExact [element.title, element.description]
  | .ocrText _ _ | .point _ _ | .scoped _ _ => .error .notFound

omit [HostText T D] [DecidableEq T] in
def resolvePoint (x y : D) (context : ComputerTargetResolutionContext T D) :
    Except ComputerTargetResolutionError (ResolvedComputerTarget T D) :=
  if !(isFinite x && isFinite y && context.activeDisplays.any (displayContains x y)) then
    .error .unsafeGeometry
  else .ok
    { source := .point
      bounds := ⟨x, y, decimal 1 0, decimal 1 0⟩
      actionPoint := ⟨x, y⟩
      observationId := none
      appIdentity := context.cached.appIdentity
      windowIdentity := context.cached.windowIdentity
      windowGeneration := context.cached.windowGeneration
      displayTopologyDigest := context.currentDisplayTopologyDigest
      confidence := .explicit
      semanticFingerprint := none }

def resolve (target : ComputerTarget T D) (context : ComputerTargetResolutionContext T D) :
    Except ComputerTargetResolutionError (ResolvedComputerTarget T D) :=
  match target with
  | .point x y => resolvePoint x y context
  | target =>
    if context.cached.displayTopologyDigest ≠ context.currentDisplayTopologyDigest then
      .error .staleSnapshot
    else match target with
      | .index snapshotId index => do
        let element ← indexedElement context snapshotId index
        resolvedAXTarget element context
      | .role role name isExact =>
        resolveUniqueAX context none (matchesRole role name isExact)
      | .text text isExact | .label text isExact =>
        resolveUniqueAX context none fun element =>
          matchesText D text isExact [element.title, element.description]
      | .ocrText _ _ => .error .notFound
      | .scoped target within => do
        let scope ← resolveScopeElement within context
        resolveScoped target scope.index context
      | .point x y => resolvePoint x y context

end Resolver

end ComputerTargetResolver

end TargetRecovery
