import ChatgptSystem.Native.RecoveryEngine

/-!
# Reading the accessibility tree

`SystemAccessibilityReader.observe`: the tree below the focused window, or below the application,
becomes a list of elements. What the system answers about an element is part of the tree; text
functions are the parameters of the target resolver, and `isBlank` stands for the emptiness of a
text without its white space.

* `AXUIElement` — a tree with the answers about its elements;
* `interactionMetadata`, `isUninformativeContainer` — what an element offers, and whether it is
  left out;
* `traverse` — the elements of a tree, within limits.
-/

namespace TargetRecovery

open InputControl DoubleArithmetic

/-! ## Models -/

inductive ComputerScrollAxis where
  | vertical
  | horizontal
  deriving DecidableEq

structure ComputerScrollCapabilityView where
  scrollable : Bool
  axes : List ComputerScrollAxis
  deriving DecidableEq

structure ObservedElementView (T D : Type) extends ComputerElementView T D where
  depth : ℤ
  actions : List T
  scroll : ComputerScrollCapabilityView

structure ObservationLimits where
  maxElements : ℤ
  maxSerializedCharacters : ℤ
  maxDepth : ℤ

/-- `ObservationLimits.default`. -/
def ObservationLimits.standard : ObservationLimits := ⟨500, 262144, 12⟩

/-- The attributes of an element that are read; an attribute that cannot be read for the moment
has no value. -/
structure AXAttributes (T D : Type) where
  role : Option T
  subrole : Option T
  title : Option T
  description : Option T
  focused : Option Bool
  enabled : Option Bool
  selected : Option Bool
  position : Option (ComputerPoint D)
  size : Option (D × D)
  actionNames : List T

/-- An element of the system: its attributes or why they cannot be read, why its children cannot
be read, and its children. -/
inductive AXUIElement (T D : Type) where
  | node (attributes : Except AccessibilityReadError (AXAttributes T D))
      (childrenError : Option AccessibilityReadError) (children : List (AXUIElement T D))

section Attributes

variable {T D : Type} [HostText T D] [DecidableEq T] [DoubleArithmetic D] (isBlank : T → Bool)

variable (D) in
def boundedText (value : Option T) : Option T := value.map (HostText.first D 4096)

structure InteractionMetadata (T : Type) where
  actions : List T
  scroll : ComputerScrollCapabilityView

def maxActionNames : ℕ := 16
def maxActionNameCharacters : ℕ := 128

variable (D) in
def interactionMetadata (role : T) (actionNames : List T) : InteractionMetadata T :=
  let actions := ((actionNames.take maxActionNames).map
    (HostText.first D maxActionNameCharacters)).filter (! HostText.isEmpty D ·)
  let lowercased := actions.map (HostText.lowercased D)
  let mentions := fun parts : List String =>
    lowercased.any fun name => parts.any fun part =>
      HostText.contains D name (HostText.literal D part)
  let axes :=
    (if mentions ["scrollup", "scrolldown", "vertical"] then [ComputerScrollAxis.vertical]
      else []) ++
    (if mentions ["scrollleft", "scrollright", "horizontal"] then [ComputerScrollAxis.horizontal]
      else [])
  let roleIsScrollable :=
    role = HostText.literal D "AXScrollArea" || role = HostText.literal D "AXScrollBar"
  { actions, scroll := ⟨roleIsScrollable || ! axes.isEmpty, axes⟩ }

/-- The bounds of an element, if its position and size make sense. -/
def boundsOf (attributes : AXAttributes T D) : Option (ComputerBounds D) :=
  match attributes.position, attributes.size with
  | some position, some size =>
    if isFinite position.x && isFinite position.y && isFinite size.1 && isFinite size.2 &&
        le (decimal 0 0) size.1 && le (decimal 0 0) size.2 then
      some ⟨position.x, position.y, size.1, size.2⟩
    else none
  | _, _ => none

variable (D) in
/-- `boundedText(...) ?? "AXUnknown"`. -/
def roleOf (role : Option T) : T := (boundedText D role).getD (HostText.literal D "AXUnknown")

variable (D) in
def isUninformativeContainer (role : T) (subrole title description : Option T)
    (focused selected : Option Bool) (metadata : InteractionMetadata T) (depth : ℤ) : Bool :=
  let isGenericRole := role = HostText.literal D "AXGroup" ||
    role = HostText.literal D "AXGenericElement" || role = HostText.literal D "AXUnknown"
  let hasText := title.any (! isBlank ·) || description.any (! isBlank ·)
  depth > 0 && isGenericRole && ! hasText && subrole.all (HostText.isEmpty D ·) &&
    metadata.actions.isEmpty && ! metadata.scroll.scrollable &&
    (focused ≠ some true && selected ≠ some true)

def isPrunable (attributes : AXAttributes T D) (depth : ℤ) : Bool :=
  isUninformativeContainer D isBlank (roleOf D attributes.role)
    (boundedText D attributes.subrole) (boundedText D attributes.title)
    (boundedText D attributes.description) attributes.focused attributes.selected
    (interactionMetadata D (roleOf D attributes.role) attributes.actionNames) depth

def elementView (attributes : AXAttributes T D) (index : ℤ) (parentIndex : Option ℤ) (depth : ℤ) :
    ObservedElementView T D :=
  let role := roleOf D attributes.role
  let metadata := interactionMetadata D role attributes.actionNames
  { index
    parentIndex
    depth
    role
    subrole := boundedText D attributes.subrole
    title := boundedText D attributes.title
    description := boundedText D attributes.description
    focused := attributes.focused
    enabled := attributes.enabled
    selected := attributes.selected
    bounds := boundsOf attributes
    actions := metadata.actions
    scroll := metadata.scroll }

end Attributes

/-! ## The traversal -/

section Traversal

variable {T D : Type} [HostText T D] [DecidableEq T] [DoubleArithmetic D] (isBlank : T → Bool)
  (limits : ObservationLimits)

/-- The two parameters that are handed on by reference. -/
structure Traversal (T D : Type) where
  elements : List (ObservedElementView T D)
  truncated : Bool

/-- `elements.count < limits.maxElements`. -/
def Traversal.hasRoom (state : Traversal T D) : Bool :=
  (state.elements.length : ℤ) < limits.maxElements

mutual

def traverse (parentIndex : Option ℤ) (depth : ℤ) (state : Traversal T D) :
    AXUIElement T D → Except AccessibilityReadError (Traversal T D)
  | .node attributes childrenError children =>
    if ! state.hasRoom limits then .ok { state with truncated := true }
    else match attributes with
      | .error error => .error error
      | .ok attributes =>
        let index : ℤ := state.elements.length
        let pruned := isPrunable isBlank attributes depth
        let elements := if pruned then state.elements
          else state.elements ++ [elementView attributes index parentIndex depth]
        let currentIndex := if pruned then parentIndex else some index
        match childrenError with
        | some error => .error error
        | none =>
          if ! decide (depth < limits.maxDepth) then
            .ok { elements, truncated := if children.isEmpty then state.truncated else true }
          else traverseChildren currentIndex (depth + 1) { state with elements } children

def traverseChildren (parentIndex : Option ℤ) (depth : ℤ) (state : Traversal T D) :
    List (AXUIElement T D) → Except AccessibilityReadError (Traversal T D)
  | [] => .ok state
  | child :: children =>
    if ! state.hasRoom limits then .ok { state with truncated := true }
    else match traverse parentIndex depth state child with
      | .error error => .error error
      | .ok state => traverseChildren parentIndex depth state children

end

def observeTree (root : AXUIElement T D) : Except AccessibilityReadError (Traversal T D) :=
  traverse isBlank limits none 0 { elements := [], truncated := false } root

end Traversal

end TargetRecovery
