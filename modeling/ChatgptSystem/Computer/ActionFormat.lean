import ChatgptSystem.Native.HostTargetParsing

/-!
# One format of actions

The request that `preparedAction` makes of an action is accepted by the Swift parsers, which decode
it to the values of the action.

* `ComputerTarget.meaning`, `ComputerAction.meaning` — the values of an action, with the defaults
  of the host for what it leaves out;
* `parseTarget_toJson` and its like — one lemma for each part of a request;
* `accepted_of_prepared` — the requests of all actions, and the two parsers of targets;
* `observe_not_action` — the request that is not for the action service.
-/

open InputControl (ComputerPoint ComputerBounds PointerMotionMode ComputerMouseButton
  ComputerKeyModifier KeyMapping.keyCode)

namespace Computer

/-! ## The values of an action -/

namespace ComputerTargetScope

def meaning : ComputerTargetScope → NativeTargetScope
  | .index snapshotId i => .index snapshotId i.whole
  | .role r name exactly => .role r name (exactly.getD false)

end ComputerTargetScope

namespace ComputerTarget

def scopedBy (target : NativeTarget) : Option ComputerTargetScope → NativeTarget
  | some within => .scoped target within.meaning
  | none => target

def meaning : ComputerTarget → NativeTarget
  | .index snapshotId i => .index snapshotId i.whole
  | .role r name exactly within => scopedBy (.role r name (exactly.getD false)) within
  | .text value exactly within => scopedBy (.text value (exactly.getD false)) within
  | .ocrText value exactly within => scopedBy (.ocrText value (exactly.getD false)) within
  | .label value exactly within => scopedBy (.label value (exactly.getD false)) within
  | .point x y => .point x.value y.value

end ComputerTarget

def timeoutMeaning (timeoutMs : Option JsNumber) (default : ℤ) : ℤ :=
  (timeoutMs.map JsNumber.whole).getD default

def ComputerVerification.meaning : ComputerVerification → ActionVerificationSpec
  | .axChanged timeoutMs => .axChanged (timeoutMeaning timeoutMs 2000)
  | .textAppeared text exactly timeoutMs =>
    .textAppeared text (exactly.getD false) (timeoutMeaning timeoutMs 2000)
  | .screenRegionChanged x y width height timeoutMs =>
    .screenRegionChanged ⟨x.value, y.value, width.value, height.value⟩
      (timeoutMeaning timeoutMs 2000)

def budgetMeaning (retryBudget : Option JsNumber) (maxRetries : ℤ) : ℤ :=
  (retryBudget.map JsNumber.whole).getD maxRetries

def ComputerActionLocation.meaning (location : ComputerActionLocation) (maxRetries : ℤ) :
    Option ActionPointSpec :=
  match location.target, location.x, location.y with
  | some target, _, _ =>
    some (.target target.meaning (budgetMeaning location.retryBudget maxRetries))
  | none, some x, some y => some (.point ⟨x.value, y.value⟩)
  | none, _, _ => none

def ComputerActionEndpoint.meaning (endpoint : ComputerActionEndpoint) (budget : ℤ) :
    ActionPointSpec :=
  match endpoint with
  | .target place => .target place.meaning budget
  | .coordinate x y => .point ⟨x.value, y.value⟩

/-- The request of an action with its values. The host itself answers `observe`, and an action that
only waits makes no request. -/
def ComputerAction.meaning (maxRetries : ℤ) : ComputerAction → Option ActionRequest
  | .observe => none
  | .pointer_position => some .pointerPosition
  | .open_app selector timeoutMs =>
    some (.application true selector (timeoutMeaning timeoutMs 1500))
  | .focus_app selector timeoutMs =>
    some (.application false selector (timeoutMeaning timeoutMs 1500))
  | .move_mouse location motionMode verify =>
    (location.meaning maxRetries).map fun point =>
      .moveMouse point (motionMode.getD .fast) (verify.map (·.meaning))
  | .click location button motionMode verify =>
    (location.meaning maxRetries).map fun point =>
      .click false point (button.getD .left) (motionMode.getD .fast)
        (verify.map (·.meaning))
  | .double_click location button motionMode verify =>
    (location.meaning maxRetries).map fun point =>
      .click true point (button.getD .left) (motionMode.getD .fast)
        (verify.map (·.meaning))
  | .mouse_down button verify =>
    some (.mouseButton true (button.getD .left) (verify.map (·.meaning)))
  | .mouse_up button verify =>
    some (.mouseButton false (button.getD .left) (verify.map (·.meaning)))
  | .drag start finish retryBudget button motionMode verify =>
    some (.drag (start.meaning (budgetMeaning retryBudget maxRetries))
      (finish.meaning (budgetMeaning retryBudget maxRetries)) (button.getD .left)
      (motionMode.getD .fast) (verify.map (·.meaning)))
  | .scroll vertical horizontal positional motionMode verify =>
    some (.scroll vertical.whole horizontal.whole (positional.meaning maxRetries)
      (motionMode.getD .fast) (verify.map (·.meaning)))
  | .type_text text selector verify =>
    some (.typeText text selector (verify.map (·.meaning)))
  | .press_key key modifiers selector verify =>
    some (.pressKey key (modifiers.getD []) selector (verify.map (·.meaning)))
  | .wait _ => none
  | .wait_for_frontmost selector timeoutMs =>
    some (.waitForFrontmost selector (timeoutMeaning timeoutMs 2000))
  | .wait_for_text text exactly timeoutMs =>
    some (.waitForText text (exactly.getD false) (timeoutMeaning timeoutMs 2000))
  | .wait_until_changed baselineDigest timeoutMs =>
    some (.waitUntilChanged baselineDigest (timeoutMeaning timeoutMs 2000))
  | .release_inputs => some .releaseInputs

/-! ## Checks -/

section Checks

variable {number : JsNumber} {text key : String} {object : Members} {timeoutMs : Option JsNumber}
  {verify : Option ComputerVerification} {maxRetries : ℤ} {selector : ComputerApplicationSelector}
  {type : ComputerActionType} {method : ComputerNativeMethod} {prepared : PreparedComputerAction}
  {button : Option ComputerMouseButton} {motionMode : Option PointerMotionMode}

theorem eq_of_finite {value : ℚ} (h : finite number = .ok value) : number = .finite value := by
  cases number with
  | finite q => rw [Except.ok.inj h]
  | nan => cases h
  | infinity negative => cases h

theorem eq_of_integerInRange {least most n : ℤ} (h : integerInRange number least most = .ok n) :
    number = .finite n ∧ least ≤ n ∧ n ≤ most := by
  unfold integerInRange at h
  split at h
  next m hm =>
    split at h
    next => cases h
    next hrange =>
      obtain rfl := Except.ok.inj h
      exact ⟨JsNumber.eq_of_integer? hm, by omega, by omega⟩
  next => cases h

theorem eq_of_safeIndex {i : JsNumber} (h : safeIndex number = .ok i) :
    i = number ∧ ∃ n : ℤ, number = .finite n ∧ 0 ≤ n ∧ n ≤ 2 ^ 53 - 1 := by
  unfold safeIndex at h
  split at h
  next n hn =>
    split at h
    next hrange =>
      obtain rfl := Except.ok.inj h
      exact ⟨rfl, n, JsNumber.eq_of_integer? hn, by omega, by omega⟩
    next => cases h
  next => cases h

@[simp] theorem whole_finite (n : ℤ) : (JsNumber.finite n).whole = n := by
  simp [JsNumber.whole, JsNumber.value]

theorem length_toList_le (text : List Char) : text.length ≤ Text.length text := by
  induction text with
  | nil => simp
  | cons c text ih =>
    have hpos : 1 ≤ (Text.codeUnits c).length := by
      unfold Text.codeUnits
      split <;> simp
    simp only [Text.length, List.flatMap_cons, List.length_append, List.length_cons] at ih ⊢
    omega

variable (breaking : CharacterBreaking)

theorem count_le_length (text : String) : breaking.count text ≤ Text.length text.toList :=
  (breaking.count_le text).trans (length_toList_le _)

theorem valid_of_boundedTargetString {value : String} (h : boundedTargetString value = .ok text) :
    text = value ∧ (!value.isEmpty && decide (breaking.count value ≤ 4096)) = true := by
  unfold boundedTargetString at h
  split at h
  next => cases h
  next hlength =>
    obtain ⟨hne, hle⟩ := not_or.mp hlength
    refine ⟨(Except.ok.inj h).symm, ?_⟩
    have hempty : value.isEmpty = false := by
      rw [Bool.eq_false_iff]
      intro hempty
      exact hne (by simp [String.isEmpty_iff.mp hempty, Text.length])
    have hcount := count_le_length breaking value
    simp only [hempty, Bool.not_false, Bool.true_and, decide_eq_true_eq]
    simp only [MAX_SELECTOR_CHARS] at hle
    omega

/-! ## The parts of a request -/

open ActionService

theorem required_of_lookup {value : JSONValue} (h : object.lookup key = some value) :
    required object key = .accepted value := by
  rw [required, h, Parsed.ofOption_some]

theorem parseRequiredString_of_lookup (h : object.lookup key = some (.string text)) :
    parseRequiredString object key = .accepted text := by
  rw [parseRequiredString, required_of_lookup h]
  rfl

theorem parseBoundedText_of_lookup (hlookup : object.lookup key = some (.string text))
    (hvalid : (!text.isEmpty && decide (breaking.count text ≤ 4096)) = true) :
    parseBoundedText breaking object key = .accepted text := by
  rw [parseBoundedText, parseRequiredString_of_lookup hlookup, Parsed.bind_accepted]
  show (Parsed.require (!text.isEmpty && decide (breaking.count text ≤ 4096)) >>= fun _ => _) = _
  rw [hvalid]
  rfl

theorem parseOptionalString_of_whenDefined {value text : Option String}
    (h : whenDefined boundedTargetString value = .ok text) :
    text = value ∧ parseOptionalString breaking (value.map .string) = .accepted value := by
  cases value with
  | none => exact ⟨(Except.ok.inj h).symm, rfl⟩
  | some value =>
    obtain ⟨checked, hchecked, hrest⟩ := Except.bind_eq_ok h
    obtain ⟨rfl, hvalid⟩ := valid_of_boundedTargetString breaking hchecked
    obtain rfl := Except.ok.inj hrest
    refine ⟨rfl, ?_⟩
    show (Parsed.require (isValidSelectorString breaking checked) >>= fun _ => _) = _
    rw [show isValidSelectorString breaking checked = true from hvalid]
    rfl

theorem parseExact_map (exactly : Option Bool) :
    parseExact (exactly.map .bool) = .accepted (exactly.getD false) := by
  cases exactly <;> rfl

theorem parseMouseButton_map (button : Option ComputerMouseButton) :
    parseMouseButton (button.map fun button => .string button.rawValue) =
      .accepted (button.getD .left) := by
  cases button with
  | none => rfl
  | some button => simp [parseMouseButton, JSONValue.string?]

theorem parseMotionMode_map (mode : Option PointerMotionMode) :
    parseMotionMode (mode.map fun mode => .string mode.rawValue) =
      .accepted (mode.getD .fast) := by
  cases mode with
  | none => rfl
  | some mode => simp [parseMotionMode, JSONValue.string?]

theorem parseWhole {n : ℤ} {condition : Bool} (h : condition = true) (hlow : -(2 ^ 63) ≤ n)
    (hhigh : n < 2 ^ 63) : (Parsed.require (isWhole n) >>= fun _ =>
      Parsed.require condition >>= fun _ => toInt n) = .accepted n := by
  rw [h, isWhole_intCast]
  exact toInt_intCast hlow hhigh

theorem parseVerificationTimeout_of_optionalTimeout {checked : Option ℤ}
    (h : optionalTimeout timeoutMs 60000 = .ok checked) :
    parseVerificationTimeout (checked.map jsonNumber) =
      .accepted (timeoutMeaning timeoutMs 2000) ∧
    checked.getD 1500 = timeoutMeaning timeoutMs 1500 ∧ checked.isSome = timeoutMs.isSome := by
  cases timeoutMs with
  | none =>
    obtain rfl := Except.ok.inj h
    exact ⟨rfl, rfl, rfl⟩
  | some number =>
    obtain ⟨n, hn, h⟩ := Except.bind_eq_ok h
    obtain rfl := Except.ok.inj h
    obtain ⟨rfl, hleast, hmost⟩ := eq_of_integerInRange hn
    have hrange : (decide (((50 : ℤ) : ℚ) ≤ n) && decide ((n : ℚ) ≤ (60000 : ℤ))) = true := by
      simp only [Bool.and_eq_true, decide_eq_true_eq, Rat.intCast_le_intCast]
      exact ⟨hleast, hmost⟩
    refine ⟨?_, (whole_finite n).symm, rfl⟩
    rw [show timeoutMeaning (some (.finite n)) 2000 = n from whole_finite n]
    exact parseWhole hrange (by omega) (by omega)

theorem parseOptionalVerification_of_verification {checked : Option JSONValue}
    (h : verification verify = .ok checked) :
    parseOptionalVerification breaking checked = .accepted (verify.map (·.meaning)) := by
  rcases verify with _ | (timeoutMs | ⟨text, exactly, timeoutMs⟩ | ⟨x, y, width, height, timeoutMs⟩)
  · obtain rfl := Except.ok.inj h
    rfl
  · obtain ⟨timeout, htimeout, h⟩ := Except.bind_eq_ok h
    obtain rfl := Except.ok.inj h
    obtain ⟨hparse, -, -⟩ := parseVerificationTimeout_of_optionalTimeout htimeout
    simp [parseOptionalVerification, parseVerification, JSONValue.object?, JSONValue.string?,
      parseRequiredString, required, List.lookup_cons, hparse, ComputerVerification.meaning]
  · obtain ⟨text', htext, h⟩ := Except.bind_eq_ok h
    obtain ⟨timeout, htimeout, h⟩ := Except.bind_eq_ok h
    obtain rfl := Except.ok.inj h
    obtain ⟨hparse, -, -⟩ := parseVerificationTimeout_of_optionalTimeout htimeout
    obtain ⟨rfl, hvalid⟩ := valid_of_boundedTargetString breaking htext
    simp [parseOptionalVerification, parseVerification, JSONValue.object?, JSONValue.string?,
      parseRequiredString, required, List.lookup_cons, List.lookup_append, hparse,
      ComputerVerification.meaning, parseBoundedText_of_lookup breaking _ hvalid, parseExact_map]
  · obtain ⟨x', hx, h⟩ := Except.bind_eq_ok h
    obtain ⟨y', hy, h⟩ := Except.bind_eq_ok h
    obtain ⟨width', hwidth, h⟩ := Except.bind_eq_ok h
    obtain ⟨height', hheight, h⟩ := Except.bind_eq_ok h
    obtain ⟨hpositive, h⟩ := unless_invalid h
    obtain ⟨timeout, htimeout, h⟩ := Except.bind_eq_ok h
    obtain rfl := Except.ok.inj h
    obtain ⟨hparse, -, -⟩ := parseVerificationTimeout_of_optionalTimeout htimeout
    obtain rfl := eq_of_finite hx
    obtain rfl := eq_of_finite hy
    obtain rfl := eq_of_finite hwidth
    obtain rfl := eq_of_finite hheight
    obtain ⟨hw, hh⟩ := not_or.mp hpositive
    have hpos : Parsed.require (decide (0 < width') && decide (0 < height')) = .accepted () := by
      rw [decide_eq_true (Rat.not_le.mp hw), decide_eq_true (Rat.not_le.mp hh)]
      rfl
    simp [parseOptionalVerification, parseVerification, JSONValue.object?, JSONValue.string?,
      JSONValue.number?, parseRequiredString, required, List.lookup_cons, hparse,
      ComputerVerification.meaning, hpos, JsNumber.value]

theorem parseIndex_of_safeIndex {i : JsNumber} (h : safeIndex number = .ok i) :
    i = number ∧ ∃ q, number.toJson = .number q ∧ parseIndex q = .accepted number.whole := by
  obtain ⟨rfl, n, rfl, hpos, hsafe⟩ := eq_of_safeIndex h
  have hrange : (decide ((0 : ℚ) ≤ n) && decide ((n : ℚ) ≤ 2 ^ 63)) = true := by
    rw [show (2 : ℚ) ^ 63 = ((2 ^ 63 : ℤ) : ℚ) from by push_cast; rfl, Bool.and_eq_true,
      decide_eq_true_eq, decide_eq_true_eq, Rat.intCast_le_intCast, Rat.intCast_nonneg]
    omega
  refine ⟨rfl, n, rfl, ?_⟩
  rw [whole_finite]
  exact parseWhole hrange (by omega) (by omega)

theorem require_valid {value : String} (h : boundedTargetString value = .ok text) :
    text = value ∧ Parsed.require (isValidSelectorString breaking value) = .accepted () := by
  obtain ⟨rfl, hvalid⟩ := valid_of_boundedTargetString breaking h
  exact ⟨rfl, by rw [show isValidSelectorString breaking text = true from hvalid]; rfl⟩

theorem parseTargetScope_toJson {scope checked : ComputerTargetScope}
    (h : canonicalTargetScope scope = .ok checked) :
    checked = scope ∧ parseTargetScope breaking scope.toJson = .accepted scope.meaning := by
  cases scope with
  | index snapshotId i =>
    obtain ⟨snapshotId', hsnapshot, h⟩ := Except.bind_eq_ok h
    obtain ⟨i', hi, h⟩ := Except.bind_eq_ok h
    obtain rfl := Except.ok.inj h
    obtain ⟨rfl, hvalid⟩ := require_valid breaking hsnapshot
    obtain ⟨rfl, q, hq, hindex⟩ := parseIndex_of_safeIndex hi
    refine ⟨rfl, ?_⟩
    simp [parseTargetScope, ComputerTargetScope.toJson, JSONValue.object?, JSONValue.string?,
      JSONValue.number?, parseRequiredString, required, List.lookup_cons, hvalid, hq, hindex,
      ComputerTargetScope.meaning]
  | role r name exactly =>
    obtain ⟨r', hrole, h⟩ := Except.bind_eq_ok h
    obtain ⟨name', hname, h⟩ := Except.bind_eq_ok h
    obtain rfl := Except.ok.inj h
    obtain ⟨rfl, hvalid⟩ := require_valid breaking hrole
    obtain ⟨rfl, hoptional⟩ := parseOptionalString_of_whenDefined breaking hname
    refine ⟨rfl, ?_⟩
    simp [parseTargetScope, ComputerTargetScope.toJson, JSONValue.object?, JSONValue.string?,
      parseRequiredString, required, List.lookup_cons, List.lookup_append, hvalid, hoptional,
      parseExact_map, ComputerTargetScope.meaning]

theorem applyTargetScope_map {within checked : Option ComputerTargetScope} (target : NativeTarget)
    (h : whenDefined canonicalTargetScope within = .ok checked) :
    checked = within ∧ applyTargetScope breaking target (within.map (·.toJson)) =
      .accepted (ComputerTarget.scopedBy target within) := by
  cases within with
  | none => exact ⟨(Except.ok.inj h).symm, rfl⟩
  | some scope =>
    obtain ⟨scope', hscope, h'⟩ := Except.bind_eq_ok h
    obtain rfl := Except.ok.inj h'
    obtain ⟨rfl, hparse⟩ := parseTargetScope_toJson breaking hscope
    refine ⟨rfl, ?_⟩
    simp [applyTargetScope, hparse, ComputerTarget.scopedBy]

theorem parseTextTarget_of_checked (kind : String) {value : String} (exactly : Option Bool)
    {within : Option ComputerTargetScope} {checked : ComputerTarget}
    {target : String → Option ComputerTargetScope → ComputerTarget} (base : String → Bool → NativeTarget)
    (hkey : key = "text" ∨ key = "label")
    (h : (do
      let text ← boundedTargetString value
      let within ← whenDefined canonicalTargetScope within
      pure (target text within)) = .ok checked) :
    checked = target value within ∧
      parseTextTarget breaking
        ([("by", .string kind), (key, .string value)] ++ scopeMembers exactly within) key base =
        .accepted (ComputerTarget.scopedBy (base value (exactly.getD false)) within) := by
  obtain ⟨text, htext, h⟩ := Except.bind_eq_ok h
  obtain ⟨within', hwithin, h⟩ := Except.bind_eq_ok h
  obtain rfl := Except.ok.inj h
  obtain ⟨rfl, hvalid⟩ := require_valid breaking htext
  obtain ⟨rfl, hscope⟩ := applyTargetScope_map breaking (base text (exactly.getD false)) hwithin
  refine ⟨rfl, ?_⟩
  rcases hkey with rfl | rfl <;>
    simp [parseTextTarget, scopeMembers, JSONValue.string?, parseRequiredString, required,
      List.lookup_cons, List.lookup_append, hvalid, parseExact_map, hscope]

theorem parseTarget_toJson {target checked : ComputerTarget}
    (h : canonicalTarget target = .ok checked) :
    checked = target ∧ parseTarget breaking target.toJson = .accepted target.meaning := by
  cases target with
  | index snapshotId i =>
    obtain ⟨snapshotId', hsnapshot, h⟩ := Except.bind_eq_ok h
    obtain ⟨i', hi, h⟩ := Except.bind_eq_ok h
    obtain rfl := Except.ok.inj h
    obtain ⟨rfl, hvalid⟩ := require_valid breaking hsnapshot
    obtain ⟨rfl, q, hq, hindex⟩ := parseIndex_of_safeIndex hi
    refine ⟨rfl, ?_⟩
    simp [parseTarget, ComputerTarget.toJson, JSONValue.object?, JSONValue.string?,
      JSONValue.number?, parseRequiredString, required, List.lookup_cons, hvalid, hq, hindex,
      ComputerTarget.meaning]
  | role r name exactly within =>
    obtain ⟨r', hrole, h⟩ := Except.bind_eq_ok h
    obtain ⟨name', hname, h⟩ := Except.bind_eq_ok h
    obtain ⟨within', hwithin, h⟩ := Except.bind_eq_ok h
    obtain rfl := Except.ok.inj h
    obtain ⟨rfl, hvalid⟩ := require_valid breaking hrole
    obtain ⟨rfl, hoptional⟩ := parseOptionalString_of_whenDefined breaking hname
    obtain ⟨rfl, hscope⟩ := applyTargetScope_map breaking (.role r' name' (exactly.getD false)) hwithin
    refine ⟨rfl, ?_⟩
    simp [parseTarget, ComputerTarget.toJson, scopeMembers, JSONValue.object?, JSONValue.string?,
      parseRequiredString, required, List.lookup_cons, List.lookup_append, hvalid, hoptional,
      parseExact_map, hscope, ComputerTarget.meaning]
  | text value exactly within =>
    exact parseTextTarget_of_checked breaking "text" exactly .text (.inl rfl) h
  | ocrText value exactly within =>
    exact parseTextTarget_of_checked breaking "ocrText" exactly .ocrText (.inl rfl) h
  | label value exactly within =>
    exact parseTextTarget_of_checked breaking "label" exactly .label (.inr rfl) h
  | point x y =>
    obtain ⟨x', hx, h⟩ := Except.bind_eq_ok h
    obtain ⟨y', hy, h⟩ := Except.bind_eq_ok h
    obtain rfl := Except.ok.inj h
    obtain rfl := eq_of_finite hx
    obtain rfl := eq_of_finite hy
    refine ⟨rfl, ?_⟩
    simp [parseTarget, ComputerTarget.toJson, JsNumber.toJson, JSONValue.object?,
      JSONValue.string?, JSONValue.number?, parseRequiredString, required, List.lookup_cons,
      sameKeys, ComputerTarget.meaning, JsNumber.value]

/-! ## Places and applications -/

theorem parseRetryBudget_of_checked {value : Option JsNumber} {n : ℤ}
    (h : semanticRetryBudget value maxRetries = .ok n) :
    n = budgetMeaning value maxRetries ∧
      parseRetryBudget (some (jsonNumber n)) = .accepted n := by
  obtain ⟨hmax, h⟩ := unless_invalid h
  have hn : n = budgetMeaning value maxRetries ∧ 0 ≤ n ∧ n ≤ 2 := by
    cases value with
    | none =>
      obtain rfl := Except.ok.inj h
      exact ⟨rfl, by omega, by omega⟩
    | some number =>
      obtain ⟨rfl, hlow, hhigh⟩ := eq_of_integerInRange h
      exact ⟨(whole_finite n).symm, hlow, by omega⟩
  obtain ⟨hbudget, hlow, hhigh⟩ := hn
  have hrange : (decide ((0 : ℚ) ≤ n) && decide ((n : ℚ) ≤ (2 : ℤ))) = true := by
    rw [Bool.and_eq_true, decide_eq_true_eq, decide_eq_true_eq, Rat.intCast_le_intCast,
      Rat.intCast_nonneg]
    exact ⟨hlow, hhigh⟩
  exact ⟨hbudget, parseWhole hrange (by omega) (by omega)⟩

theorem parseActionPointSpec_of_locationParams {location : ComputerActionLocation}
    {params : Members} (object : Members) (h : locationParams location maxRetries = .ok params)
    (hobject : ∀ key ∈ ["x", "y", "target", "retryBudget"], object.lookup key = params.lookup key) :
    ∃ spec, location.meaning maxRetries = some spec ∧
      parseActionPointSpec breaking object = .accepted spec ∧
      ((params.lookup "x").isSome || (params.lookup "y").isSome) = location.target.isNone ∧
      (params.lookup "target").isSome = location.target.isSome ∧
      (∀ key, key ∉ ["x", "y", "target", "retryBudget"] → params.lookup key = none) ∧
      ∀ allowed, (∀ key ∈ ["x", "y", "target", "retryBudget"], key ∈ allowed) →
        onlyKeys params allowed = true := by
  obtain ⟨x, y, target, retryBudget⟩ := location
  obtain ⟨hcombination, h⟩ := unless_invalid h
  have hx := hobject "x" (by simp)
  have hy := hobject "y" (by simp)
  have htarget := hobject "target" (by simp)
  have hbudget := hobject "retryBudget" (by simp)
  cases target with
  | some target =>
    obtain ⟨target', hcanonical, h⟩ := Except.bind_eq_ok h
    obtain ⟨budget, hretry, h⟩ := Except.bind_eq_ok h
    obtain rfl := Except.ok.inj h
    obtain ⟨rfl, hparse⟩ := parseTarget_toJson breaking hcanonical
    obtain ⟨rfl, hparsed⟩ := parseRetryBudget_of_checked hretry
    refine ⟨_, rfl, ?_, rfl, rfl, fun key hkey => ?_, fun allowed hallowed => ?_⟩
    · simp [parseActionPointSpec, required, hx, hy, htarget, hbudget, List.lookup_cons, hparse,
        hparsed]
    · simp only [List.mem_cons, not_or] at hkey
      simp [lookup_cons_of_ne, hkey]
    · simp [hallowed]
  | none =>
    rcases x with _ | x <;> rcases y with _ | y <;> rcases retryBudget with _ | retryBudget <;>
      try cases h
    obtain ⟨x', hfirst, h⟩ := Except.bind_eq_ok h
    obtain ⟨y', hsecond, h⟩ := Except.bind_eq_ok h
    obtain rfl := Except.ok.inj h
    obtain rfl := eq_of_finite hfirst
    obtain rfl := eq_of_finite hsecond
    refine ⟨_, rfl, ?_, rfl, rfl, fun key hkey => ?_, fun allowed hallowed => ?_⟩
    · simp [parseActionPointSpec, parsePointObject, required, hx, hy, htarget, hbudget,
        List.lookup_cons, JSONValue.number?, JsNumber.value]
    · simp only [List.mem_cons, not_or] at hkey
      simp [lookup_cons_of_ne, hkey]
    · simp [hallowed]

theorem exists_by_toJson (target : ComputerTarget) :
    ∃ kind members, target.toJson = .object (("by", .string kind) :: members) := by
  cases target <;> exact ⟨_, _, rfl⟩

theorem parseDragEndpoint_of_endpointParams {endpoint : ComputerActionEndpoint} {value : JSONValue}
    {semantic : Bool} (h : endpointParams endpoint = .ok (value, semantic)) (budget : ℤ) :
    parseDragEndpoint breaking value budget = .accepted (endpoint.meaning budget) ∧
      (endpoint.meaning budget).isSemantic = semantic := by
  cases endpoint with
  | target place =>
    obtain ⟨target', hcanonical, h⟩ := Except.bind_eq_ok h
    obtain ⟨rfl, rfl⟩ := Prod.mk.inj (Except.ok.inj h)
    obtain ⟨rfl, hparse⟩ := parseTarget_toJson breaking hcanonical
    refine ⟨?_, rfl⟩
    -- a target has the key `by`, so it is no point
    obtain ⟨kind, members, hmembers⟩ := exists_by_toJson target'
    have hpoint : sameKeys (("by", .string kind) :: members) ["x", "y"] = false := by
      simp [sameKeys]
    rw [hmembers] at hparse ⊢
    simp [parseDragEndpoint, JSONValue.object?, hpoint, hparse, ComputerActionEndpoint.meaning]
  | coordinate x y =>
    obtain ⟨x', hfirst, h⟩ := Except.bind_eq_ok h
    obtain ⟨y', hsecond, h⟩ := Except.bind_eq_ok h
    obtain ⟨rfl, rfl⟩ := Prod.mk.inj (Except.ok.inj h)
    obtain rfl := eq_of_finite hfirst
    obtain rfl := eq_of_finite hsecond
    refine ⟨?_, rfl⟩
    simp [parseDragEndpoint, JSONValue.object?, sameKeys, List.lookup_cons, parsePointObject,
      required, JSONValue.number?, ComputerActionEndpoint.meaning, JsNumber.value]

theorem parseRequiredSelector_of_selectorParams {params : Members} (object : Members)
    (h : selectorParams selector = .ok params)
    (hobject : ∀ key ∈ ["bundleIdentifier", "name"], object.lookup key = params.lookup key) :
    parseRequiredSelector breaking object = .accepted selector ∧
      params = optional "bundleIdentifier" (selector.bundleIdentifier.map .string) ++
        optional "name" (selector.name.map .string) := by
  obtain ⟨bundleIdentifier, name⟩ := selector
  obtain ⟨hsome, h⟩ := unless_invalid h
  obtain ⟨bundleIdentifier', hbundle, h⟩ := Except.bind_eq_ok h
  obtain ⟨name', hname, h⟩ := Except.bind_eq_ok h
  obtain rfl := Except.ok.inj h
  obtain ⟨rfl, hparseBundle⟩ := parseOptionalString_of_whenDefined breaking hbundle
  obtain ⟨rfl, hparseName⟩ := parseOptionalString_of_whenDefined breaking hname
  refine ⟨?_, rfl⟩
  have hone : Parsed.require (bundleIdentifier'.isSome || name'.isSome) = .accepted () := by
    cases bundleIdentifier' <;> cases name' <;> first | rfl | exact absurd ⟨rfl, rfl⟩ hsome
  rw [parseRequiredSelector, hobject _ (by simp), hobject _ (by simp)]
  simp [List.lookup_append, hparseBundle, hparseName, hone]

/-! ## Requests -/

section InputMembers

variable {mode : Option PointerMotionMode} {verify : Option JSONValue}

@[simp] theorem lookup_inputMembers_of_ne {key : String} (hbutton : key ≠ "button")
    (hmode : key ≠ "motionMode") (hverify : key ≠ "verify") :
    (inputMembers button mode verify).lookup key = none := by
  simp [inputMembers, List.lookup_append, hbutton, hmode, hverify]

@[simp] theorem lookup_inputMembers_button : (inputMembers button mode verify).lookup "button" =
    button.map fun button => .string button.rawValue := by
  simp [inputMembers, List.lookup_append]

@[simp] theorem lookup_inputMembers_motionMode :
    (inputMembers button mode verify).lookup "motionMode" =
      mode.map fun mode => .string mode.rawValue := by
  simp [inputMembers, List.lookup_append]

@[simp] theorem lookup_inputMembers_verify :
    (inputMembers button mode verify).lookup "verify" = verify := by
  simp [inputMembers, List.lookup_append]

@[simp] theorem onlyKeys_inputMembers {allowed : List String}
    (hbutton : button = none ∨ "button" ∈ allowed) (hmode : mode = none ∨ "motionMode" ∈ allowed)
    (hverify : "verify" ∈ allowed) : onlyKeys (inputMembers button mode verify) allowed = true := by
  rcases hbutton with rfl | hbutton <;> rcases hmode with rfl | hmode <;>
    simp [inputMembers, *]

end InputMembers

theorem accepted_of_applicationRequest {physical : Bool}
    (h : applicationRequest type method physical selector timeoutMs = .ok prepared) :
    prepared.method = some method ∧
      (∀ launch, parseApplicationParams breaking launch (.object prepared.params) =
        .accepted (.application launch selector (timeoutMeaning timeoutMs 1500))) ∧
      parseWaitForFrontmostParams breaking (.object prepared.params) =
        .accepted (.waitForFrontmost selector (timeoutMeaning timeoutMs 2000)) := by
  obtain ⟨params, hparams, h⟩ := Except.bind_eq_ok h
  obtain ⟨timeout, htimeout, h⟩ := Except.bind_eq_ok h
  obtain rfl := Except.ok.inj h
  obtain ⟨hparse, hdefault, hsome⟩ := parseVerificationTimeout_of_optionalTimeout htimeout
  obtain ⟨hselector, hmembers⟩ := parseRequiredSelector_of_selectorParams breaking
    (params ++ optional "timeoutMs" (timeout.map jsonNumber)) hparams
    (by simp [List.lookup_append])
  have hkeys : onlyKeys (params ++ optional "timeoutMs" (timeout.map jsonNumber))
      ["bundleIdentifier", "name", "timeoutMs"] = true := by
    simp [hmembers]
  have hlookup : (params ++ optional "timeoutMs" (timeout.map jsonNumber)).lookup "timeoutMs" =
      timeout.map jsonNumber := by
    simp [hmembers, List.lookup_append]
  refine ⟨rfl, fun launch => ?_, ?_⟩
  · simp only [parseApplicationParams, JSONValue.object?, hkeys, hselector, hlookup,
      Parsed.bind_accepted, Parsed.require_true]
    cases timeout with
    | none => simp [defaultFocusTimeoutMs, ← hdefault]
    | some n =>
      obtain ⟨number, rfl⟩ := Option.isSome_iff_exists.mp hsome.symm
      rw [show timeoutMeaning (some number) 1500 = timeoutMeaning (some number) 2000 from rfl]
      show (parseVerificationTimeout (some (jsonNumber n)) >>= _) = _
      rw [show parseVerificationTimeout (some (jsonNumber n)) = _ from hparse]
      rfl
  · simp [parseWaitForFrontmostParams, JSONValue.object?, hkeys, hselector, hlookup, hparse]

theorem accepted_of_locatedRequest {location : ComputerActionLocation}
    (h : locatedRequest type method maxRetries location button motionMode verify = .ok prepared) :
    prepared.method = some method ∧ ∃ point, location.meaning maxRetries = some point ∧
      (button = none → parseMoveMouseParams breaking (.object prepared.params) =
        .accepted (.moveMouse point (motionMode.getD .fast) (verify.map (·.meaning)))) ∧
      ∀ double, parseClickParams breaking double (.object prepared.params) =
        .accepted (.click double point (button.getD .left) (motionMode.getD .fast)
          (verify.map (·.meaning))) := by
  obtain ⟨params, hparams, h⟩ := Except.bind_eq_ok h
  obtain ⟨checked, hverify, h⟩ := Except.bind_eq_ok h
  obtain rfl := Except.ok.inj h
  have hparseVerify := parseOptionalVerification_of_verification breaking hverify
  obtain ⟨point, hpoint, hparse, -, -, hnone, hkeys⟩ := parseActionPointSpec_of_locationParams
    breaking (params ++ inputMembers button motionMode checked) hparams
    (by simp [List.lookup_append])
  refine ⟨rfl, point, hpoint, ?_, fun double => ?_⟩
  · rintro rfl
    have hallowed : onlyKeys (params ++ inputMembers none motionMode checked)
        ["x", "y", "target", "retryBudget", "motionMode", "verify"] = true := by
      rw [onlyKeys_append, hkeys _ (by simp), onlyKeys_inputMembers (.inl rfl) (by simp) (by simp)]
      rfl
    simp [parseMoveMouseParams, JSONValue.object?, hallowed, hparse, hnone, List.lookup_append,
      parseMotionMode_map, hparseVerify, -onlyKeys_append]
  · have hallowed : onlyKeys (params ++ inputMembers button motionMode checked)
        ["x", "y", "target", "retryBudget", "button", "motionMode", "verify"] = true := by
      rw [onlyKeys_append, hkeys _ (by simp), onlyKeys_inputMembers (by simp) (by simp) (by simp)]
      rfl
    simp [parseClickParams, JSONValue.object?, hallowed, hparse, hnone, List.lookup_append,
      parseMouseButton_map, parseMotionMode_map, hparseVerify, -onlyKeys_append]

theorem accepted_of_buttonRequest (h : buttonRequest type method button verify = .ok prepared) :
    prepared.method = some method ∧
      ∀ down, parseButtonOnlyParams breaking down (.object prepared.params) =
        .accepted (.mouseButton down (button.getD .left) (verify.map (·.meaning))) := by
  obtain ⟨checked, hverify, h⟩ := Except.bind_eq_ok h
  obtain rfl := Except.ok.inj h
  have hparseVerify := parseOptionalVerification_of_verification breaking hverify
  refine ⟨rfl, fun down => ?_⟩
  simp [parseButtonOnlyParams, JSONValue.object?, parseMouseButton_map, hparseVerify]

theorem parseModifierValues_of_nodup {modifiers : List ComputerKeyModifier}
    (seen : List ComputerKeyModifier) (h : (seen ++ modifiers).Nodup) :
    parseModifierValues seen (modifiers.map fun modifier => .string modifier.rawValue) =
      .accepted (seen ++ modifiers) := by
  induction modifiers generalizing seen with
  | nil => simp [parseModifierValues]
  | cons modifier modifiers ih =>
    have hnew : modifier ∉ seen := fun hmem =>
      (List.nodup_append.mp h).2.2 modifier hmem modifier List.mem_cons_self rfl
    have hrest := ih (seen ++ [modifier]) (by simpa using h)
    simpa [parseModifierValues, JSONValue.string?, hnew] using hrest

theorem parseModifiers_map {modifiers : Option (List ComputerKeyModifier)}
    (h : (modifiers.getD []).Nodup) :
    parseModifiers (modifiers.map fun modifiers =>
      .array (modifiers.map fun modifier => .string modifier.rawValue)) =
      .accepted (modifiers.getD []) := by
  cases modifiers with
  | none => rfl
  | some modifiers => exact parseModifierValues_of_nodup [] h

theorem meaning_of_not_semantic {endpoint : ComputerActionEndpoint} {budget : ℤ}
    (h : (endpoint.meaning budget).isSemantic = false) (other : ℤ) :
    endpoint.meaning budget = endpoint.meaning other := by
  cases endpoint with
  | coordinate x y => rfl
  | target place => cases h

theorem accepted_of_drag {start finish : ComputerActionEndpoint} {retryBudget : Option JsNumber}
    (h : preparedAction (.drag start finish retryBudget button motionMode verify) maxRetries =
      .ok prepared) :
    prepared.method = some .drag ∧ parseDragParams breaking (.object prepared.params) =
      .accepted (.drag (start.meaning (budgetMeaning retryBudget maxRetries))
        (finish.meaning (budgetMeaning retryBudget maxRetries)) (button.getD .left)
        (motionMode.getD .fast) (verify.map (·.meaning))) := by
  obtain ⟨⟨fromValue, fromSemantic⟩, hfrom, h⟩ := Except.bind_eq_ok h
  obtain ⟨⟨toValue, toSemantic⟩, hto, h⟩ := Except.bind_eq_ok h
  obtain ⟨budget, hbudget, h⟩ := Except.bind_eq_ok h
  obtain ⟨checked, hverify, h⟩ := Except.bind_eq_ok h
  obtain rfl := Except.ok.inj h
  refine ⟨rfl, ?_⟩
  have hparseVerify := parseOptionalVerification_of_verification breaking hverify
  have hkeys : onlyKeys ([("from", fromValue), ("to", toValue)] ++
      optional "retryBudget" (budget.map jsonNumber) ++ inputMembers button motionMode checked)
      ["from", "to", "retryBudget", "button", "motionMode", "verify"] = true := by
    simp
  -- the budget that the host reads, and the one that the endpoints have
  have hread : ∃ read, parseRetryBudget (budget.map jsonNumber) = .accepted read ∧
      start.meaning read = start.meaning (budgetMeaning retryBudget maxRetries) ∧
      finish.meaning read = finish.meaning (budgetMeaning retryBudget maxRetries) ∧
      (fromSemantic || toSemantic || budget.isNone) = true := by
    by_cases hsemantic : (fromSemantic || toSemantic) = true
    · rw [dragRetryBudget, if_pos hsemantic] at hbudget
      obtain ⟨n, hn, hbudget⟩ := Except.bind_eq_ok hbudget
      obtain rfl := Except.ok.inj hbudget
      obtain ⟨rfl, hparse⟩ := parseRetryBudget_of_checked hn
      exact ⟨_, hparse, rfl, rfl, by rw [hsemantic]; rfl⟩
    · obtain ⟨rfl, rfl⟩ := Bool.or_eq_false_iff.mp (Bool.eq_false_iff.mpr hsemantic)
      rw [dragRetryBudget, if_neg hsemantic] at hbudget
      split at hbudget
      next => cases hbudget
      next =>
        obtain rfl := Except.ok.inj hbudget
        exact ⟨2, rfl,
          meaning_of_not_semantic (parseDragEndpoint_of_endpointParams breaking hfrom 2).2 _,
          meaning_of_not_semantic (parseDragEndpoint_of_endpointParams breaking hto 2).2 _, rfl⟩
  obtain ⟨read, hbudgetRead, hstart, hfinish, hallowed⟩ := hread
  obtain ⟨hparseFrom, hsemanticFrom⟩ := parseDragEndpoint_of_endpointParams breaking hfrom read
  obtain ⟨hparseTo, hsemanticTo⟩ := parseDragEndpoint_of_endpointParams breaking hto read
  simp only [parseDragParams, JSONValue.object?, Parsed.bind_accepted, hkeys, Parsed.require_true]
  simp [required, List.lookup_cons, List.lookup_append, hbudgetRead, hparseFrom, hparseTo,
    parseMouseButton_map, parseMotionMode_map, hparseVerify, hsemanticFrom, hsemanticTo]
  rw [hallowed, hstart, hfinish]
  rfl

theorem parseScrollDelta_of_checked {n : ℤ}
    (h : integerInRange number (-MAX_SCROLL_DELTA) MAX_SCROLL_DELTA = .ok n)
    (hlookup : object.lookup key = some (jsonNumber n)) :
    parseScrollDelta object key = .accepted number.whole := by
  obtain ⟨rfl, hlow, hhigh⟩ := eq_of_integerInRange h
  simp only [MAX_SCROLL_DELTA] at hlow hhigh
  have hrange : (decide (((-10000 : ℤ) : ℚ) ≤ n) && decide ((n : ℚ) ≤ (10000 : ℤ))) = true := by
    rw [Bool.and_eq_true, decide_eq_true_eq, decide_eq_true_eq, Rat.intCast_le_intCast,
      Rat.intCast_le_intCast]
    exact ⟨hlow, hhigh⟩
  rw [parseScrollDelta, required_of_lookup hlookup, whole_finite]
  exact parseWhole hrange (by omega) (by omega)

theorem parseScrollPoint_of_scrollLocation {positional : ComputerActionLocation}
    {location : Members} (object : Members)
    (h : scrollLocation positional maxRetries = .ok location)
    (hobject : ∀ key ∈ ["x", "y", "target", "retryBudget"],
      object.lookup key = location.lookup key) :
    parseScrollPoint breaking object = .accepted (positional.meaning maxRetries) ∧
      (∀ key, key ∉ ["x", "y", "target", "retryBudget"] → location.lookup key = none) ∧
      ∀ allowed, (∀ key ∈ ["x", "y", "target", "retryBudget"], key ∈ allowed) →
        onlyKeys location allowed = true := by
  have hx := hobject "x" (by simp)
  have hy := hobject "y" (by simp)
  have htarget := hobject "target" (by simp)
  have hbudget := hobject "retryBudget" (by simp)
  unfold scrollLocation at h
  split at h
  next hsome =>
    obtain ⟨spec, hspec, hparse, hcoordinates, hplace, hnone, hkeys⟩ :=
      parseActionPointSpec_of_locationParams breaking object h hobject
    refine ⟨?_, hnone, hkeys⟩
    rw [parseScrollPoint, hx, hy, htarget, hcoordinates, hplace, hspec]
    cases positional.target <;> simp [hparse]
  next hsome =>
    obtain ⟨⟨hpx, hpy⟩, htargetNone⟩ : (¬ positional.x.isSome = true ∧
        ¬ positional.y.isSome = true) ∧ ¬ positional.target.isSome = true := by
      simpa only [not_or, and_assoc] using hsome
    split at h
    next => cases h
    next hretry =>
      obtain rfl := Except.ok.inj h
      refine ⟨?_, by simp, by simp⟩
      obtain ⟨x, y, target, retryBudget⟩ := positional
      obtain rfl := Option.not_isSome_iff_eq_none.mp hpx
      obtain rfl := Option.not_isSome_iff_eq_none.mp hpy
      obtain rfl := Option.not_isSome_iff_eq_none.mp htargetNone
      rw [parseScrollPoint, hx, hy, htarget, hbudget]
      rfl

theorem accepted_of_scroll {vertical horizontal : JsNumber} {positional : ComputerActionLocation}
    (h : preparedAction (.scroll vertical horizontal positional motionMode verify) maxRetries =
      .ok prepared) :
    prepared.method = some .scroll ∧ parseScrollParams breaking (.object prepared.params) =
      .accepted (.scroll vertical.whole horizontal.whole (positional.meaning maxRetries)
        (motionMode.getD .fast) (verify.map (·.meaning))) := by
  obtain ⟨v, hvertical, h⟩ := Except.bind_eq_ok h
  obtain ⟨w, hhorizontal, h⟩ := Except.bind_eq_ok h
  obtain ⟨location, hlocation, h⟩ := Except.bind_eq_ok h
  obtain ⟨checked, hverify, h⟩ := Except.bind_eq_ok h
  obtain rfl := Except.ok.inj h
  refine ⟨rfl, ?_⟩
  have hparseVerify := parseOptionalVerification_of_verification breaking hverify
  obtain ⟨hparse, hnone, hkeys⟩ := parseScrollPoint_of_scrollLocation breaking
    ([("vertical", jsonNumber v), ("horizontal", jsonNumber w)] ++ location ++
      inputMembers none motionMode checked) hlocation
    (by simp [List.lookup_cons, List.lookup_append])
  have hallowed : onlyKeys ([("vertical", jsonNumber v), ("horizontal", jsonNumber w)] ++
      location ++ inputMembers none motionMode checked)
      ["vertical", "horizontal", "x", "y", "target", "retryBudget", "motionMode", "verify"] =
      true := by
    simp [hkeys]
  have hparseVertical : parseScrollDelta ([("vertical", jsonNumber v),
      ("horizontal", jsonNumber w)] ++ location ++ inputMembers none motionMode checked)
      "vertical" = .accepted vertical.whole :=
    parseScrollDelta_of_checked hvertical (by simp)
  have hparseHorizontal : parseScrollDelta ([("vertical", jsonNumber v),
      ("horizontal", jsonNumber w)] ++ location ++ inputMembers none motionMode checked)
      "horizontal" = .accepted horizontal.whole :=
    parseScrollDelta_of_checked hhorizontal (by simp [List.lookup_cons])
  simp only [parseScrollParams, JSONValue.object?, Parsed.bind_accepted, hallowed,
    Parsed.require_true, hparseVertical, hparseHorizontal, hparse]
  simp [List.lookup_cons, List.lookup_append, hnone, parseMotionMode_map, hparseVerify]

theorem accepted_of_typeText
    (h : preparedAction (.type_text text selector verify) maxRetries = .ok prepared) :
    prepared.method = some .type_text ∧ parseTypeTextParams breaking (.object prepared.params) =
      .accepted (.typeText text selector (verify.map (·.meaning))) := by
  obtain ⟨hlength, h⟩ := unless_invalid h
  obtain ⟨params, hparams, h⟩ := Except.bind_eq_ok h
  obtain ⟨checked, hverify, h⟩ := Except.bind_eq_ok h
  obtain rfl := Except.ok.inj h
  refine ⟨rfl, ?_⟩
  have hparseVerify := parseOptionalVerification_of_verification breaking hverify
  obtain ⟨hselector, hmembers⟩ := parseRequiredSelector_of_selectorParams breaking
    (params ++ [("text", .string text)] ++ optional "verify" checked) hparams
    (by simp [List.lookup_append, List.lookup_cons])
  have hcount : Parsed.require (decide (breaking.count text ≤ maxTypedCharacters)) =
      .accepted () := by
    have hle := count_le_length breaking text
    rw [decide_eq_true (by rw [maxTypedCharacters]; rw [MAX_TYPED_CHARS] at hlength; omega)]
    rfl
  have hallowed : onlyKeys (params ++ [("text", .string text)] ++ optional "verify" checked)
      ["text", "bundleIdentifier", "name", "verify"] = true := by
    simp [hmembers]
  simp only [parseTypeTextParams, JSONValue.object?, Parsed.bind_accepted, hallowed,
    Parsed.require_true, hselector]
  simp [hmembers, List.lookup_append, List.lookup_cons, parseRequiredString, required,
    JSONValue.string?, hcount, hparseVerify]

theorem accepted_of_pressKey {modifiers : Option (List ComputerKeyModifier)}
    (hkey : (KeyMapping.keyCode key).isSome = true)
    (h : preparedAction (.press_key key modifiers selector verify) maxRetries = .ok prepared) :
    prepared.method = some .press_key ∧ parsePressKeyParams breaking (.object prepared.params) =
      .accepted (.pressKey key (modifiers.getD []) selector (verify.map (·.meaning))) := by
  obtain ⟨-, h⟩ := unless_invalid h
  obtain ⟨params, hparams, h⟩ := Except.bind_eq_ok h
  obtain ⟨hnodup, h⟩ := unless_invalid h
  obtain ⟨checked, hverify, h⟩ := Except.bind_eq_ok h
  obtain rfl := Except.ok.inj h
  refine ⟨rfl, ?_⟩
  have hparseVerify := parseOptionalVerification_of_verification breaking hverify
  have hparseModifiers := parseModifiers_map (not_not.mp hnodup)
  generalize modifiers.map (fun modifiers =>
    JSONValue.array (modifiers.map fun modifier => .string modifier.rawValue)) = values
    at hparseModifiers ⊢
  obtain ⟨hselector, hmembers⟩ := parseRequiredSelector_of_selectorParams breaking
    (params ++ [("key", .string key)] ++ optional "modifiers" values ++
      optional "verify" checked) hparams
    (by simp [List.lookup_append, List.lookup_cons])
  have hallowed : onlyKeys (params ++ [("key", .string key)] ++ optional "modifiers" values ++
      optional "verify" checked)
      ["key", "modifiers", "bundleIdentifier", "name", "verify"] = true := by
    simp [hmembers]
  simp only [parsePressKeyParams, JSONValue.object?, Parsed.bind_accepted, hallowed,
    Parsed.require_true, hselector]
  simp [hmembers, List.lookup_append, List.lookup_cons, parseRequiredString, required,
    JSONValue.string?, hkey, hparseVerify, hparseModifiers]

theorem accepted_of_waitForText {exactly : Option Bool}
    (h : preparedAction (.wait_for_text text exactly timeoutMs) maxRetries = .ok prepared) :
    prepared.method = some .wait_for_text ∧
      parseWaitForTextParams breaking (.object prepared.params) =
        .accepted (.waitForText text (exactly.getD false) (timeoutMeaning timeoutMs 2000)) := by
  obtain ⟨text', htext, h⟩ := Except.bind_eq_ok h
  obtain ⟨timeout, htimeout, h⟩ := Except.bind_eq_ok h
  obtain rfl := Except.ok.inj h
  obtain ⟨hparse, -, -⟩ := parseVerificationTimeout_of_optionalTimeout htimeout
  obtain ⟨rfl, hvalid⟩ := valid_of_boundedTargetString breaking htext
  refine ⟨rfl, ?_⟩
  simp [parseWaitForTextParams, JSONValue.object?, List.lookup_cons, List.lookup_append, hparse,
    parseBoundedText_of_lookup breaking _ hvalid, parseExact_map]

theorem accepted_of_waitUntilChanged {baselineDigest : String}
    (h : preparedAction (.wait_until_changed baselineDigest timeoutMs) maxRetries = .ok prepared) :
    prepared.method = some .wait_until_changed ∧
      parseWaitUntilChangedParams breaking (.object prepared.params) =
        .accepted (.waitUntilChanged baselineDigest (timeoutMeaning timeoutMs 2000)) := by
  obtain ⟨digest, hdigest, h⟩ := Except.bind_eq_ok h
  obtain ⟨timeout, htimeout, h⟩ := Except.bind_eq_ok h
  obtain rfl := Except.ok.inj h
  obtain ⟨hparse, -, -⟩ := parseVerificationTimeout_of_optionalTimeout htimeout
  obtain ⟨rfl, hvalid⟩ := valid_of_boundedTargetString breaking hdigest
  refine ⟨rfl, ?_⟩
  simp [parseWaitUntilChangedParams, JSONValue.object?, List.lookup_cons, hparse,
    parseBoundedText_of_lookup breaking _ hvalid]

theorem method_of_wait {durationMs : JsNumber}
    (h : preparedAction (.wait durationMs) maxRetries = .ok prepared) : prepared.method = none := by
  simp only [preparedAction] at h
  split at h
  next =>
    split at h
    next => cases h
    next =>
      obtain rfl := Except.ok.inj h
      rfl
  next => cases h

/-- What the host makes of a prepared action: `observe` it answers itself, a wait makes no request,
and every other request is accepted by the action service, with the values of the action. -/
def Accepted (action : ComputerAction) (maxRetries : ℤ) (prepared : PreparedComputerAction) : Prop :=
  match action with
  | .wait _ => prepared.method = none
  | .observe => prepared.method = some .observe ∧
      HostService.hasEmptyObjectParams (.object prepared.params) = true
  | _ => ∃ method request, prepared.method = some method ∧ action.meaning maxRetries = some request ∧
      parseRequest breaking method (.object prepared.params) = some (.accepted request)

/-- A prepared action makes a request that is accepted with the values of the action, and the two
parsers of targets accept the same values and make the same target of them. -/
theorem accepted_of_prepared {action : ComputerAction} {maxRetries : ℤ}
    {prepared : PreparedComputerAction} (h : preparedAction action maxRetries = .ok prepared)
    (hkey : ∀ key modifiers selector verify,
      action = .press_key key modifiers selector verify → (KeyMapping.keyCode key).isSome = true) :
    Accepted breaking action maxRetries prepared ∧
      ∀ value, HostService.parseTarget breaking value = parseTarget breaking value := by
  refine ⟨?_, HostService.parseTarget_eq breaking⟩
  cases action with
  | observe =>
    obtain rfl := Except.ok.inj h
    exact ⟨rfl, rfl⟩
  | pointer_position =>
    obtain rfl := Except.ok.inj h
    exact ⟨_, _, rfl, rfl, rfl⟩
  | open_app selector timeoutMs =>
    obtain ⟨hmethod, hparse, -⟩ := accepted_of_applicationRequest breaking h
    exact ⟨_, _, hmethod, rfl, congrArg some (hparse true)⟩
  | focus_app selector timeoutMs =>
    obtain ⟨hmethod, hparse, -⟩ := accepted_of_applicationRequest breaking h
    exact ⟨_, _, hmethod, rfl, congrArg some (hparse false)⟩
  | move_mouse location motionMode verify =>
    obtain ⟨hmethod, point, hpoint, hparse, -⟩ := accepted_of_locatedRequest breaking h
    exact ⟨_, _, hmethod, congrArg (Option.map _) hpoint, congrArg some (hparse rfl)⟩
  | click location button motionMode verify =>
    obtain ⟨hmethod, point, hpoint, -, hparse⟩ := accepted_of_locatedRequest breaking h
    exact ⟨_, _, hmethod, congrArg (Option.map _) hpoint, congrArg some (hparse false)⟩
  | double_click location button motionMode verify =>
    obtain ⟨hmethod, point, hpoint, -, hparse⟩ := accepted_of_locatedRequest breaking h
    exact ⟨_, _, hmethod, congrArg (Option.map _) hpoint, congrArg some (hparse true)⟩
  | mouse_down button verify =>
    obtain ⟨hmethod, hparse⟩ := accepted_of_buttonRequest breaking h
    exact ⟨_, _, hmethod, rfl, congrArg some (hparse true)⟩
  | mouse_up button verify =>
    obtain ⟨hmethod, hparse⟩ := accepted_of_buttonRequest breaking h
    exact ⟨_, _, hmethod, rfl, congrArg some (hparse false)⟩
  | drag start finish retryBudget button motionMode verify =>
    obtain ⟨hmethod, hparse⟩ := accepted_of_drag breaking h
    exact ⟨_, _, hmethod, rfl, congrArg some hparse⟩
  | scroll vertical horizontal positional motionMode verify =>
    obtain ⟨hmethod, hparse⟩ := accepted_of_scroll breaking h
    exact ⟨_, _, hmethod, rfl, congrArg some hparse⟩
  | type_text text selector verify =>
    obtain ⟨hmethod, hparse⟩ := accepted_of_typeText breaking h
    exact ⟨_, _, hmethod, rfl, congrArg some hparse⟩
  | press_key key modifiers selector verify =>
    obtain ⟨hmethod, hparse⟩ := accepted_of_pressKey breaking
      (hkey key modifiers selector verify rfl) h
    exact ⟨_, _, hmethod, rfl, congrArg some hparse⟩
  | wait durationMs => exact method_of_wait h
  | wait_for_frontmost selector timeoutMs =>
    obtain ⟨hmethod, -, hparse⟩ := accepted_of_applicationRequest breaking h
    exact ⟨_, _, hmethod, rfl, congrArg some hparse⟩
  | wait_for_text text exactly timeoutMs =>
    obtain ⟨hmethod, hparse⟩ := accepted_of_waitForText breaking h
    exact ⟨_, _, hmethod, rfl, congrArg some hparse⟩
  | wait_until_changed baselineDigest timeoutMs =>
    obtain ⟨hmethod, hparse⟩ := accepted_of_waitUntilChanged breaking h
    exact ⟨_, _, hmethod, rfl, congrArg some hparse⟩
  | release_inputs =>
    obtain rfl := Except.ok.inj h
    exact ⟨_, _, rfl, rfl, rfl⟩

end Checks

section Example

def scalarBreaking : CharacterBreaking where
  characters text := text.map fun c => [c]
  flatten_characters text := by
    induction text with
    | nil => rfl
    | cons c text ih => simp [ih]
  ne_nil_of_mem text character h := by
    obtain ⟨c, -, rfl⟩ := List.mem_map.mp h
    simp

def clickOnDialog : ComputerAction :=
  .click
    { x := none, y := none, retryBudget := some (.finite 1)
      target := some (.role "AXButton" (some "OK") none (some (.role "AXSheet" none (some true)))) }
    none none (some (.axChanged (some (.finite 500))))

theorem accepted_of_prepared_click : ∃ prepared, preparedAction clickOnDialog 2 = .ok prepared ∧
    Accepted scalarBreaking clickOnDialog 2 prepared := by
  obtain ⟨prepared, hprepared⟩ : ∃ prepared, preparedAction clickOnDialog 2 = .ok prepared :=
    ⟨_, rfl⟩
  exact ⟨prepared, hprepared,
    (accepted_of_prepared scalarBreaking hprepared fun _ _ _ _ h => by cases h).1⟩

/-- The action service does not handle the request of `observe`. -/
theorem observe_not_action : ∃ prepared, preparedAction .observe 2 = .ok prepared ∧
    prepared.method = some .observe ∧
    ActionService.parseRequest scalarBreaking .observe (.object prepared.params) = none :=
  ⟨_, rfl, rfl, rfl⟩

end Example

end Computer
