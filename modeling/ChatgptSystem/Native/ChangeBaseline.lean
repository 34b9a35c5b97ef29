import ChatgptSystem.Core.Errors
import ChatgptSystem.Native.ObservationDigest

/-!
# Digests as baselines of a wait

The digest of an answer to `observe` is what the verification engine computes of the same state
exactly if no text of the window and its application is cut off by the host; what is cut off of
the elements is cut off by the reader already.

* `Same`, `Faithful` — what a JSON text tells, and encodings that it can be read off;
* `samePayload_of_same` — the payload of a digest;
* `sanitizeElement_eq` — the elements of an observation pass the host unchanged;
* `waitLoop_unchanged` — the wait on a state that stays.
-/

open Computer

namespace TargetRecovery

open InputControl DoubleArithmetic ObservationDigest

/-! ## What a text tells -/

/-- Two values that are the same but for the order of their members. -/
inductive Same : JSONValue → JSONValue → Prop
  | null : Same .null .null
  | bool (b : Bool) : Same (.bool b) (.bool b)
  | number (n : ℚ) : Same (.number n) (.number n)
  | string (s : String) : Same (.string s) (.string s)
  | array {xs ys : List JSONValue} (items : List.Forall₂ Same xs ys) : Same (.array xs) (.array ys)
  | object {xs ys : Members} (members : ∀ key, Option.Rel Same (xs.lookup key) (ys.lookup key)) :
    Same (.object xs) (.object ys)

theorem Same.members {xs ys : Members} (h : Same (.object xs) (.object ys)) (key : String) :
    Option.Rel Same (xs.lookup key) (ys.lookup key) := by
  cases h with
  | object members => exact members key

theorem Same.string_inj {a b : String} (h : Same (.string a) (.string b)) : a = b := by
  generalize hx : JSONValue.string a = x at h
  generalize hy : JSONValue.string b = y at h
  cases h <;> simp_all

theorem Same.number_inj {a b : ℚ} (h : Same (.number a) (.number b)) : a = b := by
  generalize hx : JSONValue.number a = x at h
  generalize hy : JSONValue.number b = y at h
  cases h <;> simp_all

theorem Same.refl : ∀ value : JSONValue, Same value value
  | .null => .null
  | .bool b => .bool b
  | .number n => .number n
  | .string s => .string s
  | .array values => .array (List.forall₂_same.mpr fun value hvalue => Same.refl value)
  | .object members => .object fun key => by
    cases hlookup : members.lookup key with
    | none => exact .none
    | some value =>
      have hsize : sizeOf value < sizeOf members := by
        obtain ⟨before, after, rfl, -⟩ := List.lookup_eq_some_iff.mp hlookup
        have hlt := List.sizeOf_lt_of_mem
          (List.mem_append_right before (List.mem_cons_self (a := (key, value)) (l := after)))
        rw [Prod.mk.sizeOf_spec] at hlt
        omega
      exact .some (Same.refl value)

def Faithful {α : Type} (encode : α → JSONValue) : Prop :=
  ∀ a b, Same (encode a) (encode b) → a = b

section Faithful

variable {α : Type} {encode : α → JSONValue}

theorem faithful_bool : Faithful JSONValue.bool := by
  intro a b h
  cases h
  rfl

theorem faithful_integer : Faithful integerValue := by
  intro a b h
  exact_mod_cast h.number_inj

theorem Faithful.array (h : Faithful encode) :
    Faithful fun values : List α => JSONValue.array (values.map encode) := by
  intro as bs hsame
  cases hsame with
  | array items =>
    rw [List.forall₂_map_left_iff, List.forall₂_map_right_iff] at items
    exact List.forall₂_eq_eq_eq ▸ items.imp h

variable {xs ys : Members}

theorem Same.required (h : Same (.object xs) (.object ys)) (key : String)
    (hencode : Faithful encode) {a b : α} (hx : xs.lookup key = some (encode a))
    (hy : ys.lookup key = some (encode b)) : a = b := by
  have hmember := h.members key
  rw [hx, hy] at hmember
  cases hmember with
  | some hsame => exact hencode a b hsame

theorem Same.optional (h : Same (.object xs) (.object ys)) (key : String)
    (hencode : Faithful encode) {a b : Option α} (hx : xs.lookup key = a.map encode)
    (hy : ys.lookup key = b.map encode) : a = b := by
  have hmember := h.members key
  rw [hx, hy] at hmember
  cases a with
  | none =>
    cases b with
    | none => rfl
    | some b => cases hmember
  | some a =>
    cases b with
    | none => cases hmember
    | some b =>
      cases hmember with
      | some hsame => rw [hencode a b hsame]

end Faithful

section Payload

variable {T D : Type} [HostEncoding T D]

theorem faithful_textValue : Faithful (textValue D : T → JSONValue) :=
  fun _ _ h => HostEncoding.text_injective h.string_inj

theorem faithful_numberValue : Faithful (numberValue T : D → JSONValue) :=
  fun _ _ h => HostEncoding.number_injective h.number_inj

theorem faithful_encodeAxis : Faithful encodeAxis := by
  intro a b h
  cases a <;> cases b
  · rfl
  · exact absurd h.string_inj (by decide)
  · exact absurd h.string_inj (by decide)
  · rfl

theorem faithful_encodeScroll : Faithful encodeScroll := by
  intro a b h
  have hscrollable : a.scrollable = b.scrollable :=
    h.required "scrollable" faithful_bool rfl rfl
  have haxes : a.axes = b.axes := h.required "axes" faithful_encodeAxis.array rfl rfl
  cases a
  cases b
  simp_all

theorem faithful_encodeBounds : Faithful (encodeBounds T : ComputerBounds D → JSONValue) := by
  intro a b h
  have hx : a.x = b.x := h.required "x" faithful_numberValue rfl rfl
  have hy : a.y = b.y := h.required "y" faithful_numberValue rfl rfl
  have hwidth : a.width = b.width := h.required "width" faithful_numberValue rfl rfl
  have hheight : a.height = b.height := h.required "height" faithful_numberValue rfl rfl
  cases a
  cases b
  simp_all

theorem faithful_nullable :
    Faithful fun value : Option ℤ => (value.map integerValue).getD .null := by
  intro a b h
  cases a with
  | none =>
    cases b with
    | none => rfl
    | some b => cases h
  | some a =>
    cases b with
    | none => cases h
    | some b => rw [faithful_integer a b h]

theorem faithful_encodeApplication :
    Faithful (encodeApplication D : ApplicationView T → JSONValue) := by
  have hmembers : ∀ view : ApplicationView T, ∃ members,
      encodeApplication D view = .object members ∧
      members.lookup "name" = some (textValue D view.name) ∧
      members.lookup "bundleIdentifier" = view.bundleIdentifier.map (textValue D) ∧
      members.lookup "frontmost" = some (.bool view.frontmost) := by
    intro view
    refine ⟨_, rfl, ?_, ?_, ?_⟩ <;> simp [List.lookup_append, List.lookup_cons]
  intro a b h
  obtain ⟨xs, hxs, hname, hbundle, hfrontmost⟩ := hmembers a
  obtain ⟨ys, hys, hname', hbundle', hfrontmost'⟩ := hmembers b
  rw [hxs, hys] at h
  have hname : a.name = b.name := h.required "name" faithful_textValue hname hname'
  have hbundle : a.bundleIdentifier = b.bundleIdentifier :=
    h.optional "bundleIdentifier" faithful_textValue hbundle hbundle'
  have hfrontmost : a.frontmost = b.frontmost :=
    h.required "frontmost" faithful_bool hfrontmost hfrontmost'
  cases a
  cases b
  simp_all

structure ElementMembers (members : Members) (element : ObservedElementView T D) : Prop where
  index : members.lookup "index" = some (integerValue element.index)
  parentIndex :
    members.lookup "parentIndex" = some ((element.parentIndex.map integerValue).getD .null)
  depth : members.lookup "depth" = some (integerValue element.depth)
  role : members.lookup "role" = some (textValue D element.role)
  subrole : members.lookup "subrole" = element.subrole.map (textValue D)
  title : members.lookup "title" = element.title.map (textValue D)
  description : members.lookup "description" = element.description.map (textValue D)
  focused : members.lookup "focused" = element.focused.map .bool
  enabled : members.lookup "enabled" = element.enabled.map .bool
  selected : members.lookup "selected" = element.selected.map .bool
  bounds : members.lookup "bounds" = element.bounds.map (encodeBounds T)
  actions : members.lookup "actions" = some (.array (element.actions.map (textValue D)))
  scroll : members.lookup "scroll" = some (encodeScroll element.scroll)

theorem exists_elementMembers (element : ObservedElementView T D) :
    ∃ members, encodeElement element = .object members ∧ ElementMembers members element := by
  refine ⟨_, rfl, ?_⟩
  constructor <;> simp [List.lookup_append, List.lookup_cons]

theorem faithful_encodeElement :
    Faithful (encodeElement : ObservedElementView T D → JSONValue) := by
  intro a b h
  obtain ⟨xs, hxs, ha⟩ := exists_elementMembers a
  obtain ⟨ys, hys, hb⟩ := exists_elementMembers b
  rw [hxs, hys] at h
  have hindex : a.index = b.index := h.required "index" faithful_integer ha.index hb.index
  have hparentIndex : a.parentIndex = b.parentIndex :=
    h.required "parentIndex" faithful_nullable ha.parentIndex hb.parentIndex
  have hdepth : a.depth = b.depth := h.required "depth" faithful_integer ha.depth hb.depth
  have hrole : a.role = b.role := h.required "role" faithful_textValue ha.role hb.role
  have hsubrole : a.subrole = b.subrole :=
    h.optional "subrole" faithful_textValue ha.subrole hb.subrole
  have htitle : a.title = b.title := h.optional "title" faithful_textValue ha.title hb.title
  have hdescription : a.description = b.description :=
    h.optional "description" faithful_textValue ha.description hb.description
  have hfocused : a.focused = b.focused := h.optional "focused" faithful_bool ha.focused hb.focused
  have henabled : a.enabled = b.enabled := h.optional "enabled" faithful_bool ha.enabled hb.enabled
  have hselected : a.selected = b.selected :=
    h.optional "selected" faithful_bool ha.selected hb.selected
  have hbounds : a.bounds = b.bounds :=
    h.optional "bounds" faithful_encodeBounds ha.bounds hb.bounds
  have hactions : a.actions = b.actions :=
    h.required "actions" faithful_textValue.array ha.actions hb.actions
  have hscroll : a.scroll = b.scroll :=
    h.required "scroll" faithful_encodeScroll ha.scroll hb.scroll
  obtain ⟨⟨⟩⟩ := a
  obtain ⟨⟨⟩⟩ := b
  simp_all

structure SamePayload (a b : ScreenObservation T D) : Prop where
  application : a.application = b.application
  windowTitle : a.windowTitle = b.windowTitle
  elements : a.elements = b.elements
  truncated : a.truncated = b.truncated

theorem samePayload_of_same {a b : ScreenObservation T D} (h : Same (payload a) (payload b)) :
    SamePayload a b := by
  have hmembers : ∀ observation : ScreenObservation T D, ∃ members,
      payload observation = .object members ∧
      members.lookup "application" = some (encodeApplication D observation.application) ∧
      members.lookup "windowTitle" = observation.windowTitle.map (textValue D) ∧
      members.lookup "elements" = some (.array (observation.elements.map encodeElement)) ∧
      members.lookup "truncated" = some (.bool observation.truncated) := by
    intro observation
    refine ⟨_, rfl, ?_, ?_, ?_, ?_⟩ <;> simp [List.lookup_append, List.lookup_cons]
  obtain ⟨xs, hxs, happlication, htitle, helements, htruncated⟩ := hmembers a
  obtain ⟨ys, hys, happlication', htitle', helements', htruncated'⟩ := hmembers b
  rw [hxs, hys] at h
  exact
    { application := h.required "application" faithful_encodeApplication happlication happlication'
      windowTitle := h.optional "windowTitle" faithful_textValue htitle htitle'
      elements := h.required "elements" faithful_encodeElement.array helements helements'
      truncated := h.required "truncated" faithful_bool htruncated htruncated' }

theorem payload_congr {a b : ScreenObservation T D} (h : SamePayload a b) :
    payload a = payload b := by
  rw [payload, payload, h.application, h.windowTitle, h.elements, h.truncated]

end Payload

/-! ## What the host cuts off -/

/-- The numbers of characters of texts. -/
class TextCount (T D : Type) [HostText T D] where
  count : T → ℕ
  count_first : ∀ n (text : T), count (HostText.first D n text) = min n (count text)
  first_of_count_le : ∀ n (text : T), count text ≤ n → HostText.first D n text = text
  count_literal : ∀ name : String, count (HostText.literal D name) ≤ name.length

section Sanitize

variable {T D : Type} [HostText T D] [TextCount T D]

variable (D) in
theorem first_eq_self_iff {n : ℕ} {text : T} :
    HostText.first D n text = text ↔ TextCount.count D text ≤ n := by
  constructor
  · intro h
    rw [← h, TextCount.count_first]
    exact Nat.min_le_left _ _
  · exact TextCount.first_of_count_le n text

variable (D) in
theorem boundedText_eq_self_iff {value : Option T} :
    boundedText D value = value ↔ ∀ text ∈ value, TextCount.count D text ≤ 4096 := by
  cases value with
  | none => simp [boundedText]
  | some text => simp [boundedText, first_eq_self_iff D]

variable (D) in
theorem boundedText_boundedText (value : Option T) :
    boundedText D (boundedText D value) = boundedText D value := by
  rw [boundedText_eq_self_iff]
  intro text htext
  obtain ⟨original, -, rfl⟩ := Option.mem_map.mp htext
  rw [TextCount.count_first]
  exact Nat.min_le_left _ _

variable (D) in
theorem boundedText_roleOf (role : Option T) :
    boundedText D (some (roleOf D role)) = some (roleOf D role) := by
  rw [boundedText_eq_self_iff]
  rintro text htext
  obtain rfl := Option.some.inj htext
  cases role with
  | none => exact (TextCount.count_literal _).trans (by decide)
  | some role =>
    rw [roleOf, boundedText, Option.map_some, Option.getD_some, TextCount.count_first]
    exact Nat.min_le_left _ _

variable [DecidableEq T]

variable (D) in
theorem sanitize_actions (role : T) (actionNames : List T) :
    ((interactionMetadata D role actionNames).actions.take 16).filterMap
        (fun name => boundedText D (some (HostText.first D 128 name))) =
      (interactionMetadata D role actionNames).actions := by
  have hshort : ∀ name ∈ (interactionMetadata D role actionNames).actions,
      TextCount.count D name ≤ 128 := by
    intro name hname
    obtain ⟨original, -, rfl⟩ := List.mem_map.mp (List.mem_filter.mp hname).1
    rw [TextCount.count_first]
    exact Nat.min_le_left _ _
  have hfew : (interactionMetadata D role actionNames).actions.length ≤ 16 := by
    refine (List.length_filter_le _ _).trans ?_
    rw [List.length_map]
    exact List.length_take_le _ _
  rw [List.take_of_length_le hfew]
  calc (interactionMetadata D role actionNames).actions.filterMap
        (fun name => boundedText D (some (HostText.first D 128 name)))
      = (interactionMetadata D role actionNames).actions.filterMap some := by
        refine List.filterMap_congr fun name hname => ?_
        have hcount := hshort name hname
        rw [TextCount.first_of_count_le 128 name hcount, boundedText_eq_self_iff]
        rintro text htext
        obtain rfl := Option.some.inj htext
        exact hcount.trans (by decide)
    _ = (interactionMetadata D role actionNames).actions := List.filterMap_some

variable [DoubleArithmetic D] {isBlank : T → Bool}

theorem sanitizeElement_eq {node : Outline.Address × AXUIElement T D}
    {view : ObservedElementView T D} (h : DrawnFrom isBlank node view) :
    sanitizeElement view = view := by
  obtain ⟨attributes, -, -, hview⟩ := h
  have hrole : (boundedText D (some view.role)).getD (HostText.literal D "") = view.role := by
    rw [hview]
    change (boundedText D (some (roleOf D attributes.role))).getD _ = roleOf D attributes.role
    rw [boundedText_roleOf, Option.getD_some]
  have hactions : (view.actions.take 16).filterMap
      (fun name => boundedText D (some (HostText.first D 128 name))) = view.actions := by
    rw [hview]
    exact sanitize_actions D (roleOf D attributes.role) attributes.actionNames
  have hsubrole : boundedText D view.subrole = view.subrole := by
    rw [hview]
    exact boundedText_boundedText D attributes.subrole
  have htitle : boundedText D view.title = view.title := by
    rw [hview]
    exact boundedText_boundedText D attributes.title
  have hdescription : boundedText D view.description = view.description := by
    rw [hview]
    exact boundedText_boundedText D attributes.description
  rw [sanitizeElement, hrole, hactions, hsubrole, htitle, hdescription]

theorem sanitize_elements {root : AXUIElement T D} {read : Traversal T D}
    (h : observeTree isBlank .standard root = .ok read) :
    (read.elements.take ObservationLimits.standard.maxElements.toNat).map sanitizeElement =
        read.elements ∧
      ¬ ObservationLimits.standard.maxElements < (read.elements.length : ℤ) := by
  obtain ⟨rows, hrows⟩ := traverse_reads [] none ⟨[], false⟩ read root h
  have helements : read.elements = rows.map Prod.snd := hrows.elements
  have hlength : read.elements.length ≤ 500 := hrows.bounded
  refine ⟨?_, fun hlt => ?_⟩
  · rw [List.take_of_length_le (show _ ≤ ObservationLimits.standard.maxElements.toNat from hlength)]
    refine (List.map_congr_left fun view hview => ?_).trans (List.map_id _)
    rw [helements] at hview
    obtain ⟨row, hrow, rfl⟩ := List.mem_map.mp hview
    exact sanitizeElement_eq (hrows.shows row hrow)
  · have hmax : ObservationLimits.standard.maxElements = 500 := rfl
    omega

/-! ## Readings -/

variable {limits : ObservationLimits} {snapshotId : T} {application : WorkspaceApplication T}
  {state : DesktopState T D} {observation : ScreenObservation T D}

def DesktopState.title (state : DesktopState T D) : Option T :=
  match state.focusedWindow with
  | .ok (some (_, .ok title)) => title
  | _ => none

omit [TextCount T D] in
theorem exists_of_observe (h : observe isBlank limits snapshotId application state =
    .ok observation) :
    ∃ root read, observeTree isBlank limits root = .ok read ∧
      observation = ⟨snapshotId, application.view, state.title, read.elements, read.truncated⟩ := by
  obtain ⟨window, hwindow, h⟩ := Except.bind_eq_ok h
  obtain ⟨title, htitle, h⟩ := Except.bind_eq_ok h
  obtain ⟨read, hread, h⟩ := Except.bind_eq_ok h
  obtain rfl := Except.ok.inj h
  refine ⟨_, read, hread, ?_⟩
  have heq : state.title = title := by
    rw [DesktopState.title, hwindow]
    cases window with
    | none => exact Except.ok.inj htitle
    | some window =>
      obtain ⟨window, answer⟩ := window
      change answer = .ok title at htitle
      rw [htitle]
  rw [heq]

omit [TextCount T D] in
theorem observe_again (h : observe isBlank limits snapshotId application state = .ok observation)
    (again : T) : observe isBlank limits again application state =
      .ok { observation with snapshotId := again } := by
  obtain ⟨window, hwindow, h⟩ := Except.bind_eq_ok h
  obtain ⟨title, htitle, h⟩ := Except.bind_eq_ok h
  obtain ⟨read, hread, h⟩ := Except.bind_eq_ok h
  obtain rfl := Except.ok.inj h
  simp only [observe, hwindow, htitle, hread, bind, Except.bind]

/-- No text of the window and its application has more characters than the host passes on. -/
structure TextsFit (state : DesktopState T D) : Prop where
  name : ∀ application ∈ state.frontmostApplication,
    TextCount.count D application.name ≤ 4096
  bundleIdentifier : ∀ application ∈ state.frontmostApplication,
    ∀ identifier ∈ application.bundleIdentifier, TextCount.count D identifier ≤ 4096
  windowTitle : ∀ title ∈ state.title, TextCount.count D title ≤ 4096

theorem samePayload_sanitize_iff (happlication : state.frontmostApplication = some application)
    (h : observe isBlank .standard snapshotId application state = .ok observation) :
    SamePayload (sanitizeObservation observation .standard) observation ↔ TextsFit state := by
  obtain ⟨root, read, hread, rfl⟩ := exists_of_observe h
  obtain ⟨helements, hfew⟩ := sanitize_elements hread
  have hname : (boundedText D (some application.name)).getD (HostText.literal D "") =
      application.name ↔ TextCount.count D application.name ≤ 4096 := first_eq_self_iff D
  constructor
  · intro hsame
    have hview := hsame.application
    rw [sanitizeObservation, safeApplicationView, ApplicationView.mk.injEq] at hview
    refine ⟨fun other hother => ?_, fun other hother => ?_, ?_⟩
    · obtain rfl : application = other := Option.some.inj (happlication.symm.trans hother)
      exact hname.mp hview.1
    · obtain rfl : application = other := Option.some.inj (happlication.symm.trans hother)
      exact (boundedText_eq_self_iff D).mp hview.2.1
    · exact (boundedText_eq_self_iff D).mp hsame.windowTitle
  · intro hfit
    constructor
    · rw [sanitizeObservation, safeApplicationView, ApplicationView.mk.injEq]
      refine ⟨hname.mpr (hfit.name application happlication), ?_, rfl⟩
      exact (boundedText_eq_self_iff D).mpr (hfit.bundleIdentifier application happlication)
    · exact (boundedText_eq_self_iff D).mpr hfit.windowTitle
    · exact helements
    · rw [sanitizeObservation, decide_eq_false hfew, Bool.or_false]

end Sanitize

/-! ## The wait -/

section Wait

variable {T D : Type} [HostText T D] [DecidableEq T] [DoubleArithmetic D] [HostEncoding T D]
  {Data Digest : Type} {isBlank : T → Bool} {write : JSONValue → Data} {sha256 : Data → Digest}
  {setting : HostSetting T D} {state : DesktopState T D} {observation : ScreenObservation T D}

omit [HostText T D] [DecidableEq T] [DoubleArithmetic D] [HostEncoding T D] in
theorem eq_ok_of_mapError {x : Except AccessibilityReadError (ScreenObservation T D)}
    (h : x.mapError (·.failure) = .ok observation) : x = .ok observation := by
  cases x with
  | error error => cases h
  | ok other => exact congrArg _ (Except.ok.inj h)

omit [HostEncoding T D] in
theorem exists_of_refreshObservation {displays : Bool}
    (h : refreshObservation isBlank setting displays state = .ok observation) :
    ∃ application, state.frontmostApplication = some application ∧
      observe isBlank .standard setting.snapshotId application state = .ok observation := by
  rw [refreshObservation] at h
  split at h
  next => cases h
  split at h
  next => cases h
  next application happlication =>
  split at h
  next => cases h
  next =>
  split at h
  next => cases h
  next => exact ⟨application, happlication, eq_ok_of_mapError h⟩

omit [HostEncoding T D] in
theorem exists_of_readObservation (h : readObservation isBlank setting state = .ok observation) :
    ∃ application, state.frontmostApplication = some application ∧
      observe isBlank .standard setting.snapshotId application state = .ok observation := by
  rw [readObservation] at h
  split at h
  next => exact exists_of_refreshObservation h
  next =>
  split at h
  next => cases h
  next application happlication => exact ⟨application, happlication, eq_ok_of_mapError h⟩

theorem exists_of_handleObservation {digest : Digest}
    (h : handleObservation isBlank write sha256 setting state = .ok (observation, digest)) :
    ∃ application original, state.frontmostApplication = some application ∧
      observe isBlank .standard setting.snapshotId application state = .ok original ∧
      observation = sanitizeObservation original .standard ∧
      digest = ObservationDigest.digest write sha256 observation := by
  rw [handleObservation] at h
  split at h
  next => cases h
  next =>
  split at h
  next => cases h
  next original hread =>
  dsimp only at h
  split at h
  next =>
    obtain ⟨rfl, rfl⟩ := Prod.mk.inj (Except.ok.inj h)
    obtain ⟨application, happlication, hobserve⟩ := exists_of_readObservation hread
    exact ⟨application, original, happlication, hobserve, rfl, rfl⟩
  next => cases h

omit [HostText T D] [DecidableEq T] [DoubleArithmetic D] in
theorem digest_eq_iff (hwrite : ∀ a b, write a = write b → Same a b)
    (hsha256 : Function.Injective sha256) {a b : ScreenObservation T D} :
    digest write sha256 a = digest write sha256 b ↔ SamePayload a b :=
  ⟨fun h => samePayload_of_same (hwrite _ _ (hsha256 h)),
    fun h => by rw [digest, digest, payload_congr h]⟩

theorem currentAXDigest_eq {application : WorkspaceApplication T} {snapshotId : T}
    (happlication : state.frontmostApplication = some application)
    (h : observe isBlank .standard snapshotId application state = .ok observation) (again : T) :
    currentAXDigest isBlank write sha256 again state =
      some (digest write sha256 observation) := by
  rw [currentAXDigest, happlication]
  dsimp only
  rw [observe_again h again]
  rfl

variable [DecidableEq Digest]

/-- A digest is what every poll computes of a state, so that no wait ends with a change as long as
the state stays, and a wait that is not cancelled ends with a timeout. -/
structure IsBaseline (isBlank : T → Bool) (write : JSONValue → Data) (sha256 : Data → Digest)
    (digest : Digest) (state : DesktopState T D) : Prop where
  poll : ∀ again, currentAXDigest isBlank write sha256 again state = some digest
  unchanged : ∀ timeoutMs polls, (∀ n, (polls n).state = state) → ∀ other,
    waitUntilAXChanged isBlank write sha256 digest timeoutMs polls ≠ .changed other
  timeout : ∀ timeoutMs polls, 50 ≤ timeoutMs → timeoutMs ≤ 60000 →
    (∀ n, (polls n).state = state) →
    (∀ n, (polls n).cancelled = false ∧ (polls n).sleepCancelled = false) →
    waitUntilAXChanged isBlank write sha256 digest timeoutMs polls = .timeout

variable {baseline : Digest}

theorem pollOnce_unchanged {poll : Poll T D} (attempt : ℕ)
    (h : currentAXDigest isBlank write sha256 poll.snapshotId poll.state = some baseline) :
    pollOnce isBlank write sha256 baseline attempt poll = some .cancelled ∧
        poll.cancelled = true ∨
      pollOnce isBlank write sha256 baseline attempt poll = some .timeout ∨
      pollOnce isBlank write sha256 baseline attempt poll = none := by
  rw [pollOnce, h]
  cases poll.cancelled with
  | true => exact .inl ⟨rfl, rfl⟩
  | false =>
    refine .inr ?_
    cases decide (attempt > 0) && poll.lateAtStart <;> cases poll.lateAfter <;> simp

theorem waitLoop_unchanged {polls : ℕ → Poll T D}
    (h : ∀ n, currentAXDigest isBlank write sha256 (polls n).snapshotId (polls n).state =
      some baseline) (remaining : ℕ) (attempt : ℕ) :
    waitLoop isBlank write sha256 baseline polls attempt remaining = .timeout ∨
      waitLoop isBlank write sha256 baseline polls attempt remaining = .cancelled ∧
        ∃ n, (polls n).cancelled = true ∨ (polls n).sleepCancelled = true := by
  induction remaining generalizing attempt with
  | zero =>
    rw [waitLoop]
    rcases pollOnce_unchanged attempt (h attempt) with ⟨hpoll, hcancelled⟩ | hpoll | hpoll <;>
      rw [hpoll]
    · exact .inr ⟨rfl, attempt, .inl hcancelled⟩
    · exact .inl rfl
    · exact .inl rfl
  | succ remaining ih =>
    rw [waitLoop]
    rcases pollOnce_unchanged attempt (h attempt) with ⟨hpoll, hcancelled⟩ | hpoll | hpoll <;>
      rw [hpoll]
    · exact .inr ⟨rfl, attempt, .inl hcancelled⟩
    · exact .inl rfl
    · cases hsleep : (polls attempt).sleepCancelled with
      | true => exact .inr ⟨rfl, attempt, .inr hsleep⟩
      | false => exact ih (attempt + 1)

theorem isBaseline_of_poll
    (h : ∀ again, currentAXDigest isBlank write sha256 again state = some baseline) :
    IsBaseline isBlank write sha256 baseline state := by
  have hpolls : ∀ {polls : ℕ → Poll T D}, (∀ n, (polls n).state = state) → ∀ n,
      currentAXDigest isBlank write sha256 (polls n).snapshotId (polls n).state = some baseline :=
    fun hstate n => by rw [hstate n]; exact h _
  refine ⟨h, fun timeoutMs polls hstate other => ?_,
    fun timeoutMs polls hmin hmax hstate hrun => ?_⟩
  · rw [waitUntilAXChanged]
    split
    · have hwait := waitLoop_unchanged (hpolls hstate) (pollAttempts timeoutMs) 0
      rcases hwait with hwait | ⟨hwait, -⟩ <;> rw [hwait] <;> simp
    · simp
  · rw [waitUntilAXChanged, if_pos ⟨hmin, hmax⟩]
    rcases waitLoop_unchanged (hpolls hstate) (pollAttempts timeoutMs) 0 with hwait | ⟨-, n, hn⟩
    · exact hwait
    · rw [(hrun n).1, (hrun n).2] at hn
      simp at hn

/-- The digest that the host answers with is a baseline exactly if no text of the window and its
application is cut off; and observations that differ have different digests. -/
theorem isBaseline_handleObservation_iff [TextCount T D]
    (hwrite : ∀ a b, write a = write b → Same a b) (hsha256 : Function.Injective sha256)
    {digest : Digest}
    (h : handleObservation isBlank write sha256 setting state = .ok (observation, digest)) :
    (IsBaseline isBlank write sha256 digest state ↔ TextsFit state) ∧
      ∀ setting' state' observation' digest',
        handleObservation isBlank write sha256 setting' state' = .ok (observation', digest') →
        (observation.application ≠ observation'.application ∨
          observation.windowTitle ≠ observation'.windowTitle ∨
          observation.elements ≠ observation'.elements ∨
          observation.truncated ≠ observation'.truncated) →
        digest ≠ digest' := by
  obtain ⟨application, original, happlication, hobserve, rfl, rfl⟩ := exists_of_handleObservation h
  refine ⟨?_, ?_⟩
  · rw [← samePayload_sanitize_iff happlication hobserve, ← digest_eq_iff hwrite hsha256]
    constructor
    · intro hbaseline
      have hpoll := hbaseline.poll setting.snapshotId
      rw [currentAXDigest_eq happlication hobserve] at hpoll
      exact (Option.some.inj hpoll).symm
    · intro heq
      refine isBaseline_of_poll fun again => ?_
      rw [currentAXDigest_eq happlication hobserve, heq]
  · intro setting' state' observation' digest' h' hdiffers heq
    obtain ⟨-, -, -, -, -, rfl⟩ := exists_of_handleObservation h'
    obtain ⟨ha, hb, hc, hd⟩ := (digest_eq_iff hwrite hsha256).mp heq
    rcases hdiffers with hne | hne | hne | hne
    · exact hne ha
    · exact hne hb
    · exact hne hc
    · exact hne hd

theorem waitLoop_changed {digest : Digest} {polls : ℕ → Poll T D}
    (hcancelled : (polls 0).cancelled = false)
    (h : currentAXDigest isBlank write sha256 (polls 0).snapshotId (polls 0).state = some digest)
    (hne : digest ≠ baseline) (remaining : ℕ) :
    waitLoop isBlank write sha256 baseline polls 0 remaining = .changed digest := by
  have hpoll : pollOnce isBlank write sha256 baseline 0 (polls 0) = some (.changed digest) := by
    rw [pollOnce, hcancelled, h]
    simp [hne]
  cases remaining with
  | zero => rw [waitLoop, hpoll, Option.getD_some]
  | succ remaining => rw [waitLoop, hpoll]

end Wait

/-! ## A long title -/

instance : TextCount (List Char) ℤ where
  count := List.length
  count_first _ _ := List.length_take
  first_of_count_le _ _ h := List.take_of_length_le h
  count_literal _ := le_of_eq String.length_toList

instance : HostEncoding (List Char) ℤ where
  text := String.ofList
  number n := n
  text_injective := fun a b h => by simpa using congrArg String.toList h
  number_injective := Int.cast_injective

def plainSetting : HostSetting (List Char) ℤ :=
  { accessibilityTrusted := true
    recovery := none
    snapshotId := ['s']
    serializedCharacters := fun observation => (observation.windowTitle.getD []).length + 200 }

def titledDesktop (characters : ℕ) : DesktopState (List Char) ℤ :=
  let window : AXUIElement (List Char) ℤ :=
    .node (.ok
      { role := some ['W'], subrole := none, title := none, description := none, focused := none
        enabled := none, selected := none, position := none, size := none, actionNames := [] })
      none []
  { frontmostApplication := some ⟨['A'], none⟩
    focusedWindow := .ok (some (window, .ok (some (List.replicate characters 'a'))))
    applicationElement := window }

def titledObservation (characters : ℕ) : ScreenObservation (List Char) ℤ :=
  { snapshotId := ['s']
    application := ⟨['A'], none, true⟩
    windowTitle := some (List.replicate characters 'a')
    elements :=
      [{ index := 0, parentIndex := none, role := ['W'], subrole := none, title := none
         description := none, focused := none, enabled := none, selected := none, bounds := none
         depth := 0, actions := [], scroll := ⟨false, []⟩ }]
    truncated := false }

theorem sanitize_titledObservation (characters : ℕ) :
    sanitizeObservation (titledObservation characters) .standard =
      { titledObservation characters with
        windowTitle := some (List.replicate (min 4096 characters) 'a') } := by
  simp only [sanitizeObservation, titledObservation, boundedText, Option.map_some]
  rw [show HostText.first ℤ 4096 (List.replicate characters 'a') =
    List.replicate (min 4096 characters) 'a' from List.take_replicate]
  rfl

theorem handleObservation_titledDesktop {characters : ℕ} :
    handleObservation List.isEmpty id id plainSetting (titledDesktop characters) =
      .ok (sanitizeObservation (titledObservation characters) .standard,
        digest id id (sanitizeObservation (titledObservation characters) .standard)) := by
  have hread : readObservation List.isEmpty plainSetting (titledDesktop characters) =
      .ok (titledObservation characters) := rfl
  have hsize : plainSetting.serializedCharacters
      (sanitizeObservation (titledObservation characters) .standard) ≤
        ObservationLimits.standard.maxSerializedCharacters := by
    rw [sanitize_titledObservation]
    simp only [plainSetting, ObservationLimits.standard, Option.getD_some, List.length_replicate]
    omega
  rw [handleObservation, hread]
  simp only [plainSetting, Bool.not_true, Bool.false_eq_true, if_false]
  exact if_pos hsize

def stillPoll (state : DesktopState (List Char) ℤ) : Poll (List Char) ℤ :=
  { cancelled := false, lateAtStart := false, snapshotId := ['t'], state, lateAfter := false
    sleepCancelled := false }

open Classical in
/-- With a title of 4097 characters the wait ends at once, although nothing has changed. -/
theorem waitUntilAXChanged_titledDesktop :
    ∃ observation baseline other,
      handleObservation List.isEmpty id id plainSetting (titledDesktop 4097) =
        .ok (observation, baseline) ∧
      waitUntilAXChanged List.isEmpty id id baseline 2000
        (fun _ => stillPoll (titledDesktop 4097)) = .changed other := by
  refine ⟨_, _, digest id id (titledObservation 4097), handleObservation_titledDesktop, ?_⟩
  rw [waitUntilAXChanged, if_pos (by decide)]
  refine waitLoop_changed rfl rfl (fun heq => ?_) _
  have hsame : Same (payload (titledObservation 4097))
      (payload (sanitizeObservation (titledObservation 4097) .standard)) := by
    change payload _ = payload _ at heq
    rw [← heq]
    exact Same.refl _
  have htitle := (samePayload_of_same hsame).windowTitle
  rw [sanitize_titledObservation] at htitle
  have hlength := congrArg (fun title => (title.getD []).length) htitle
  simp only [titledObservation, Option.getD_some, List.length_replicate] at hlength
  omega

open Classical in
theorem isBaseline_handleObservation_iff_titledDesktop :
    IsBaseline List.isEmpty id id
      (digest id id (sanitizeObservation (titledObservation 5) .standard)) (titledDesktop 5) := by
  have hfit : TextsFit (titledDesktop 5) := by
    refine ⟨fun application happlication => ?_, fun application happlication => ?_, ?_⟩
    · obtain rfl := Option.some.inj happlication
      decide
    · obtain rfl := Option.some.inj happlication
      simp
    · intro title htitle
      obtain rfl := Option.some.inj htitle
      decide
  have hwrite : ∀ a b : JSONValue, id a = id b → Same a b := by
    rintro a b rfl
    exact Same.refl a
  exact (isBaseline_handleObservation_iff hwrite Function.injective_id
    handleObservation_titledDesktop).1.mpr hfit

end TargetRecovery
