import ChatgptSystem.Native.TargetResolver
import Mathlib.Data.Rat.Floor
import Mathlib.Logic.Relation
import Mathlib.Tactic.Linarith

/-!
# Evidence of a resolution

`ComputerTargetResolver.evidence` counts the elements that a target could mean. What it counts and
what `resolve` does is held together here, for targets by role, text or label, within a scope or
not, over exact arithmetic.

* `enabledAXCandidates`, `candidateCount`, `evidence` — the counting;
* `IsParent` — the tree of the elements; `isDescendant` is sound for its transitive closure;
* `Agrees` — what the resolver and the evidence say of a target;
* `agrees_of_resolvable` — they agree.
-/

/-- Exact coordinates, for which only distances are rounded down. -/
instance : DoubleArithmetic ℚ where
  decimal mantissa digits := mantissa / 10 ^ digits
  add := (· + ·)
  sub := (· - ·)
  mul := (· * ·)
  div := (· / ·)
  hypot x y := Nat.sqrt ⌊x ^ 2 + y ^ 2⌋₊
  rounded x := round x
  le x y := decide (x ≤ y)
  lt x y := decide (x < y)
  eq x y := decide (x = y)
  isFinite _ := true
  toUInt64 x := ⌊x⌋₊

/-- Lists of characters with exact coordinates, for runs on fixed inputs. -/
instance : HostText (List Char) ℚ where
  literal := HostText.literal ℤ
  isEmpty := HostText.isEmpty ℤ
  first := HostText.first ℤ
  splitAtWhitespace := HostText.splitAtWhitespace ℤ
  joined := HostText.joined ℤ
  lowercased := HostText.lowercased ℤ
  contains := HostText.contains ℤ
  sha256 := HostText.sha256 ℤ
  description number := (toString number).toList

namespace TargetRecovery

open InputControl DoubleArithmetic

/-! ## Counting -/

structure ComputerTargetResolutionEvidence where
  candidateCount : ℕ
  scopeResolved : Bool
  scopeScrollable : Bool

namespace ComputerTargetResolver

section Evidence

variable {T D : Type} [HostText T D] [DecidableEq T] [DoubleArithmetic D]

omit [HostText T D] [DecidableEq T] [DoubleArithmetic D] in
def enabledAXCandidates (context : ComputerTargetResolutionContext T D) (scopeIndex : Option ℤ)
    (found : ComputerElementView T D → Bool) : List (ComputerElementView T D) :=
  let elements := context.cached.observation.elements
  elements.filter fun element => element.isEnabled && found element && match scopeIndex with
    | none => true
    | some scopeIndex => isDescendant element scopeIndex elements

omit [DoubleArithmetic D] in
def candidateCount (target : ComputerTarget T D) (scopeIndex : Option ℤ)
    (context : ComputerTargetResolutionContext T D) : ℕ :=
  match target with
  | .index snapshotId index =>
    match indexedElement context snapshotId index with
    | .error _ => 0
    | .ok element =>
      if !element.isEnabled then 0
      else match scopeIndex with
        | none => 1
        | some scopeIndex =>
          if isDescendant element scopeIndex context.cached.observation.elements then 1 else 0
  | .role role name isExact =>
    (enabledAXCandidates context scopeIndex (matchesRole role name isExact)).length
  | .text text isExact | .label text isExact =>
    (enabledAXCandidates context scopeIndex fun element =>
      matchesText D text isExact [element.title, element.description]).length
  | .ocrText _ _ | .point _ _ | .scoped _ _ => 0

omit [DoubleArithmetic D] in
/-- `scrollable` is the scroll capability of an element. -/
def evidence (scrollable : ComputerElementView T D → Bool) (target : ComputerTarget T D)
    (context : ComputerTargetResolutionContext T D) : ComputerTargetResolutionEvidence :=
  if context.cached.displayTopologyDigest ≠ context.currentDisplayTopologyDigest then
    ⟨0, false, false⟩
  else match target with
    | .scoped target within =>
      match resolveScopeElement within context with
      | .ok scope =>
        ⟨candidateCount target (some scope.index) context, true,
          scope.isEnabled && scrollable scope⟩
      | .error _ => ⟨0, false, false⟩
    | target => ⟨candidateCount target none context, false, false⟩

end Evidence

end ComputerTargetResolver

/-! ## Descendants -/

section Descendants

variable {T D : Type} {elements : List (ComputerElementView T D)}

def IsParent (elements : List (ComputerElementView T D)) (child parent : ComputerElementView T D) :
    Prop :=
  parent ∈ elements ∧ child.parentIndex = some parent.index

/-- What an element is below, over any number of parents. -/
def IsBelow (elements : List (ComputerElementView T D)) (ancestorIndex : ℤ)
    (element : ComputerElementView T D) : Prop :=
  ∃ last, Relation.ReflTransGen (IsParent elements) element last ∧
    last.parentIndex = some ancestorIndex

theorem elementAt_spec {index : ℤ} {element : ComputerElementView T D}
    (h : elementAt elements index = some element) : element ∈ elements ∧ element.index = index :=
  ⟨List.mem_of_find?_eq_some h, by simpa using List.find?_some h⟩

theorem isBelow_of_reachesAncestor {ancestorIndex : ℤ} (visited : List ℤ)
    (parentIndex : Option ℤ)
    (h : reachesAncestor ancestorIndex elements visited parentIndex = true)
    (element : ComputerElementView T D) (helement : element.parentIndex = parentIndex) :
    IsBelow elements ancestorIndex element := by
  fun_induction reachesAncestor ancestorIndex elements visited parentIndex generalizing element with
  | case1 => cases h
  | case2 => cases h
  | case3 => exact ⟨element, .refl, helement⟩
  | case4 => cases h
  | case5 visited parentIndex _ _ parentElement hparent ih =>
    obtain ⟨hmem, hindex⟩ := elementAt_spec hparent
    obtain ⟨last, hpath, hlast⟩ := ih h parentElement rfl
    have hedge : IsParent elements element parentElement := ⟨hmem, by rw [helement, hindex]⟩
    exact ⟨last, .head hedge hpath, hlast⟩

theorem transGen_of_isDescendant {element ancestor : ComputerElementView T D}
    (hancestor : ancestor ∈ elements)
    (h : isDescendant element ancestor.index elements = true) :
    Relation.TransGen (IsParent elements) element ancestor := by
  obtain ⟨last, hpath, hlast⟩ := isBelow_of_reachesAncestor [] element.parentIndex h element rfl
  exact Relation.TransGen.tail' hpath ⟨hancestor, hlast⟩

end Descendants

/-! ## Geometry -/

section Geometry

variable {bounds display : ComputerBounds ℚ}

structure Inside (bounds display : ComputerBounds ℚ) : Prop where
  left : display.x ≤ bounds.x
  top : display.y ≤ bounds.y
  right : bounds.x + bounds.width ≤ display.x + display.width
  bottom : bounds.y + bounds.height ≤ display.y + display.height

structure Covers (bounds : ComputerBounds ℚ) (point : ComputerPoint ℚ) : Prop where
  left : bounds.x ≤ point.x
  top : bounds.y ≤ point.y
  right : point.x ≤ bounds.x + bounds.width
  bottom : point.y ≤ bounds.y + bounds.height

theorem hasInterior_iff : hasInterior bounds = true ↔ 0 < bounds.width ∧ 0 < bounds.height := by
  simp [hasInterior, isFinite, lt, decimal]

theorem liesWithin_iff : liesWithin bounds display = true ↔ Inside bounds display := by
  simp only [liesWithin, le, add, Bool.and_eq_true, decide_eq_true_eq]
  exact ⟨fun ⟨⟨⟨left, top⟩, right⟩, bottom⟩ => ⟨left, top, right, bottom⟩,
    fun h => ⟨⟨⟨h.left, h.top⟩, h.right⟩, h.bottom⟩⟩

theorem inside_of_isSafe {displays : List (ComputerBounds ℚ)} (h : isSafe bounds displays = true) :
    ∃ display ∈ displays, Inside bounds display := by
  simp only [isSafe, Bool.and_eq_true, List.any_eq_true] at h
  obtain ⟨-, display, hdisplay, -, hwithin⟩ := h
  exact ⟨display, hdisplay, liesWithin_iff.mp hwithin⟩

theorem covers_middle (h : hasInterior bounds = true) : Covers bounds (middle bounds) := by
  obtain ⟨hwidth, hheight⟩ := hasInterior_iff.mp h
  have hhalf : ∀ {length : ℚ}, 0 < length → 0 ≤ length / 2 ∧ length / 2 ≤ length :=
    fun hlength => ⟨by linarith, by linarith⟩
  have hx : (middle bounds).x = bounds.x + bounds.width / 2 := by
    simp [middle, add, div, decimal]
  have hy : (middle bounds).y = bounds.y + bounds.height / 2 := by
    simp [middle, add, div, decimal]
  obtain ⟨hleft, hright⟩ := hhalf hwidth
  obtain ⟨htop, hbottom⟩ := hhalf hheight
  constructor
  · linarith
  · linarith
  · linarith
  · linarith

end Geometry

/-! ## Agreement -/

section Agreement

variable {T : Type} [HostText T ℚ] [DecidableEq T] {target : ComputerTarget T ℚ}
  {context : ComputerTargetResolutionContext T ℚ} {scopeIndex : Option ℤ}
  {found : ComputerElementView T ℚ → Bool}

def wanted (target : ComputerTarget T ℚ) : Option (ComputerElementView T ℚ → Bool) :=
  match target with
  | .role role name isExact => some (matchesRole role name isExact)
  | .text text isExact | .label text isExact =>
    some fun element => matchesText ℚ text isExact [element.title, element.description]
  | .index _ _ | .ocrText _ _ | .point _ _ | .scoped _ _ => none

/-- A target by role, text or label, without a scope or with one that resolves: what it asks for,
and the scope. -/
inductive Resolvable (context : ComputerTargetResolutionContext T ℚ) :
    ComputerTarget T ℚ → (ComputerElementView T ℚ → Bool) → Option (ComputerElementView T ℚ) →
    Prop where
  | anywhere {target : ComputerTarget T ℚ} {found : ComputerElementView T ℚ → Bool}
      (hwanted : wanted target = some found) : Resolvable context target found none
  | below {target : ComputerTarget T ℚ} {found : ComputerElementView T ℚ → Bool}
      {within : ComputerTargetScope T} {scope : ComputerElementView T ℚ}
      (hwanted : wanted target = some found)
      (hscope : ComputerTargetResolver.resolveScopeElement within context = .ok scope) :
      Resolvable context (.scoped target within) found (some scope)

structure PlacedOn (context : ComputerTargetResolutionContext T ℚ)
    (found : ComputerElementView T ℚ → Bool) (scope : Option (ComputerElementView T ℚ))
    (place : ResolvedComputerTarget T ℚ) (element : ComputerElementView T ℚ) : Prop where
  mem : element ∈ context.cached.observation.elements
  enabled : element.enabled ≠ some false
  found : found element = true
  descendant : ∀ ancestor, scope = some ancestor →
    Relation.TransGen (IsParent context.cached.observation.elements) element ancestor
  bounds : element.bounds = some place.bounds
  inside : ∃ display ∈ context.activeDisplays, Inside place.bounds display
  covers : Covers place.bounds place.actionPoint

structure Agrees (scrollable : ComputerElementView T ℚ → Bool)
    (context : ComputerTargetResolutionContext T ℚ) (target : ComputerTarget T ℚ)
    (found : ComputerElementView T ℚ → Bool) (scope : Option (ComputerElementView T ℚ)) : Prop where
  notFound : ComputerTargetResolver.resolve target context = .error .notFound ↔
    (ComputerTargetResolver.evidence scrollable target context).candidateCount = 0
  ambiguous : ComputerTargetResolver.resolve target context = .error .ambiguous ↔
    2 ≤ (ComputerTargetResolver.evidence scrollable target context).candidateCount
  single : ((∃ place, ComputerTargetResolver.resolve target context = .ok place) ∨
      ComputerTargetResolver.resolve target context = .error .unsafeGeometry) ↔
    (ComputerTargetResolver.evidence scrollable target context).candidateCount = 1
  placed : ∀ place, ComputerTargetResolver.resolve target context = .ok place →
    ∃ element, PlacedOn context found scope place element

namespace ComputerTargetResolver

omit [HostText T ℚ] [DecidableEq T] in
theorem resolveUniqueAXElement_eq : resolveUniqueAXElement context scopeIndex found =
    match enabledAXCandidates context scopeIndex found with
    | [] => .error .notFound
    | [element] => .ok element
    | _ => .error .ambiguous := by
  rw [resolveUniqueAXElement, List.filter_filter, enabledAXCandidates]
  simp only [Bool.and_assoc]
  cases scopeIndex <;> dsimp only <;>
    generalize List.filter _ context.cached.observation.elements = candidates <;>
    rcases candidates with _ | ⟨_, _ | _⟩ <;>
    rfl

omit [HostText T ℚ] [DecidableEq T] in
theorem candidate_spec {element : ComputerElementView T ℚ}
    (h : element ∈ enabledAXCandidates context scopeIndex found) :
    element ∈ context.cached.observation.elements ∧ element.isEnabled = true ∧
      found element = true ∧ ∀ index, scopeIndex = some index →
        isDescendant element index context.cached.observation.elements = true := by
  obtain ⟨hmem, hkept⟩ := List.mem_filter.mp h
  simp only [Bool.and_eq_true] at hkept
  obtain ⟨⟨henabled, hfound⟩, hbelow⟩ := hkept
  refine ⟨hmem, henabled, hfound, ?_⟩
  rintro index rfl
  exact hbelow

omit [DecidableEq T] in
theorem resolvedAXTarget_cases {element : ComputerElementView T ℚ}
    (henabled : element.isEnabled = true) :
    resolvedAXTarget element context = .error .unsafeGeometry ∨
    ∃ place, resolvedAXTarget element context = .ok place ∧ element.bounds = some place.bounds ∧
      isSafe place.bounds context.activeDisplays = true ∧
      place.actionPoint = middle place.bounds := by
  rw [resolvedAXTarget, henabled]
  cases hbounds : element.bounds with
  | none => exact .inl rfl
  | some bounds =>
    cases hsafe : isSafe bounds context.activeDisplays with
    | false => exact .inl (by simp [hsafe])
    | true =>
      simp only [hsafe, Bool.not_true, Bool.false_eq_true, if_false]
      exact .inr ⟨_, rfl, rfl, hsafe, rfl⟩

theorem resolvable_spec (scrollable : ComputerElementView T ℚ → Bool)
    (htopology : context.cached.displayTopologyDigest = context.currentDisplayTopologyDigest)
    {scope : Option (ComputerElementView T ℚ)} (h : Resolvable context target found scope) :
    resolve target context = resolveUniqueAX context (scope.map (·.index)) found ∧
      (evidence scrollable target context).candidateCount =
        (enabledAXCandidates context (scope.map (·.index)) found).length := by
  have hcurrent : ¬ context.cached.displayTopologyDigest ≠ context.currentDisplayTopologyDigest :=
    not_not_intro htopology
  cases h with
  | anywhere hwanted =>
    cases target with
    | role | text | label =>
      obtain rfl := Option.some.inj hwanted
      constructor
      · simp only [resolve, if_neg hcurrent, Option.map_none]
      · simp only [evidence, if_neg hcurrent, Option.map_none, candidateCount]
    | _ => cases hwanted
  | @below base _ within scope hwanted hscope =>
    have hresolve : resolve (.scoped base within) context =
        resolveScoped base scope.index context := by
      simp only [resolve, if_neg hcurrent, hscope]
      rfl
    have hevidence : (evidence scrollable (.scoped base within) context).candidateCount =
        candidateCount base (some scope.index) context := by
      simp only [evidence, if_neg hcurrent, hscope]
    rw [hresolve, hevidence]
    cases base with
    | role | text | label =>
      obtain rfl := Option.some.inj hwanted
      exact ⟨rfl, rfl⟩
    | _ => cases hwanted

theorem mem_of_resolveScopeElement {within : ComputerTargetScope T}
    {scope : ComputerElementView T ℚ} (h : resolveScopeElement within context = .ok scope) :
    scope ∈ context.cached.observation.elements := by
  cases within with
  | index snapshotId index =>
    rw [resolveScopeElement, indexedElement] at h
    split at h
    next =>
      split at h
      next element helement =>
        obtain rfl := Except.ok.inj h
        exact (elementAt_spec helement).1
      next => cases h
    next => cases h
  | role role name isExact =>
    rw [resolveScopeElement, resolveUniqueAXElement_eq] at h
    split at h
    next => cases h
    next element hcandidates =>
      obtain rfl := Except.ok.inj h
      exact List.mem_of_mem_filter (hcandidates ▸ List.mem_singleton_self element)
    next => cases h

end ComputerTargetResolver

open ComputerTargetResolver

omit [HostText T ℚ] [DecidableEq T] in
theorem placedOn_of_candidates {scope : Option (ComputerElementView T ℚ)}
    {element : ComputerElementView T ℚ} {place : ResolvedComputerTarget T ℚ}
    (hscope : ∀ ancestor, scope = some ancestor → ancestor ∈ context.cached.observation.elements)
    (hcandidate : element ∈ enabledAXCandidates context (scope.map (·.index)) found)
    (hbounds : element.bounds = some place.bounds)
    (hsafe : isSafe place.bounds context.activeDisplays = true)
    (hpoint : place.actionPoint = middle place.bounds) :
    PlacedOn context found scope place element := by
  obtain ⟨hmem, henabled, hfound, hbelow⟩ := candidate_spec hcandidate
  refine ⟨hmem, of_decide_eq_true henabled, hfound, ?_, hbounds, inside_of_isSafe hsafe, ?_⟩
  · rintro ancestor rfl
    exact transGen_of_isDescendant (hscope ancestor rfl) (hbelow _ rfl)
  · rw [hpoint]
    rw [isSafe, Bool.and_eq_true] at hsafe
    exact covers_middle hsafe.1

/-- The resolver and the evidence agree, and what is resolved is an enabled match within the scope,
on a display. -/
theorem agrees_of_resolvable (scrollable : ComputerElementView T ℚ → Bool)
    (htopology : context.cached.displayTopologyDigest = context.currentDisplayTopologyDigest)
    {scope : Option (ComputerElementView T ℚ)} (h : Resolvable context target found scope) :
    Agrees scrollable context target found scope := by
  have hscope : ∀ ancestor, scope = some ancestor →
      ancestor ∈ context.cached.observation.elements := by
    rintro ancestor rfl
    cases h with
    | below _ hscope => exact mem_of_resolveScopeElement hscope
  obtain ⟨hresolve, hcount⟩ := resolvable_spec scrollable htopology h
  have hplaced : ∀ element, element ∈ enabledAXCandidates context (scope.map (·.index)) found →
      ∀ place, resolvedAXTarget element context = .ok place →
        ∃ element, PlacedOn context found scope place element := by
    intro element helement place hok
    rcases resolvedAXTarget_cases (candidate_spec helement).2.1 with
      hunsafe | ⟨place', hok', hbounds, hsafe, hpoint⟩
    · cases hunsafe.symm.trans hok
    · obtain rfl := Except.ok.inj (hok'.symm.trans hok)
      exact ⟨element, placedOn_of_candidates hscope helement hbounds hsafe hpoint⟩
  rw [resolveUniqueAX, resolveUniqueAXElement_eq] at hresolve
  cases hcandidates : enabledAXCandidates context (scope.map (·.index)) found with
  | nil =>
    rw [hcandidates] at hresolve hcount
    change _ = Except.error _ at hresolve
    rw [List.length_nil] at hcount
    constructor
    · simp [hresolve, hcount]
    · simp [hresolve, hcount]
    · simp [hresolve, hcount]
    · simp [hresolve]
  | cons element rest =>
    cases rest with
    | nil =>
      rw [hcandidates] at hresolve hcount hplaced
      change _ = resolvedAXTarget element context at hresolve
      rw [List.length_singleton] at hcount
      have helement := candidate_spec (hcandidates ▸ List.mem_singleton_self element)
      have hcases : (∃ place, resolvedAXTarget element context = .ok place) ∨
          resolvedAXTarget element context = .error .unsafeGeometry :=
        (resolvedAXTarget_cases helement.2.1).symm.imp_left fun ⟨place, hok, _⟩ => ⟨place, hok⟩
      constructor
      · rcases hcases with ⟨place, hok⟩ | hunsafe
        · simp [hresolve, hcount, hok]
        · simp [hresolve, hcount, hunsafe]
      · rcases hcases with ⟨place, hok⟩ | hunsafe
        · simp [hresolve, hcount, hok]
        · simp [hresolve, hcount, hunsafe]
      · rw [hresolve, hcount]
        exact iff_of_true hcases rfl
      · intro place hok
        exact hplaced element (List.mem_singleton_self element) place (hresolve ▸ hok)
    | cons second rest =>
      rw [hcandidates] at hresolve hcount
      change _ = Except.error _ at hresolve
      simp only [List.length_cons] at hcount
      constructor
      · simp [hresolve, hcount]
      · simp [hresolve, hcount]
      · simp [hresolve, hcount]
      · simp [hresolve]

/-- A window with a button below it, and another button outside of the window. -/
def twoButtons : ComputerTargetResolutionContext (List Char) ℚ :=
  let button (index : ℤ) (parentIndex : Option ℤ) : ComputerElementView (List Char) ℚ :=
    ⟨index, parentIndex, "AXButton".toList, none, some "Save".toList, none, none, some true, none,
      some ⟨10, 10, 5, 5⟩⟩
  let window : ComputerElementView (List Char) ℚ :=
    ⟨1, none, "AXWindow".toList, none, none, none, none, none, none, none⟩
  let elements := [window, button 2 (some 1), button 3 (some 3)]
  ⟨⟨[], [], [], [], [], ⟨[], none, none, elements, false, none⟩⟩, [], [⟨0, 0, 100, 100⟩]⟩

theorem agrees_of_resolvable_twoButtons :
    twoButtons.cached.displayTopologyDigest = twoButtons.currentDisplayTopologyDigest ∧
      ∃ window found, Resolvable twoButtons (.scoped (.label "save".toList false)
          (.role "AXWindow".toList none true)) found (some window) ∧
        Agrees (fun _ => false) twoButtons (.scoped (.label "save".toList false)
          (.role "AXWindow".toList none true)) found (some window) := by
  have hresolvable : Resolvable twoButtons (.scoped (.label "save".toList false)
      (.role "AXWindow".toList none true)) _ (some _) := .below rfl rfl
  exact ⟨rfl, _, _, hresolvable, agrees_of_resolvable (fun _ => false) rfl hresolvable⟩

end Agreement

end TargetRecovery
