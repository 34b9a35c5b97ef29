import ChatgptSystem.Native.HostTargetParsing
import Mathlib.Algebra.Order.Ring.Rat
import Mathlib.Tactic.NormNum

/-!
# Numbers that do not fit

The parsers compare the index of an element with `Double(Int.max)`, which is not the largest
integer but the power of two above it. A request with this index stops the helper.

* `HostService.parseRequest` — the parsers of the requests that the host answers itself;
* `Parsed.Ends` — how a parser ends, with a rule for each kind of step;
* `WellFormedTarget`, `OverflowingTarget` — the targets that are accepted, and those that reach
  the conversion of an index that does not fit;
* `HostService.parseRequest_eq_trapped_iff` — the requests that stop the helper.
-/

open InputControl (PointerMotionMode ComputerKeyModifier)

namespace Computer

/-! ## The requests of the host -/

namespace HostService

inductive HostRequest where
  | health
  | listApps
  | activeWindow
  | observe
  | screenshot
  | resolveTarget (target : NativeTarget) (retryBudget : ℤ)
  | resolveTargets (targets : List NativeTarget) (retryBudget : ℤ)

section Requests

variable (breaking : CharacterBreaking)

def parseRetryBudget : Option JSONValue → Parsed ℤ
  | none => pure 2
  | some value => do
    let raw ← value.number?
    Parsed.require (isWhole raw)
    Parsed.require (0 ≤ raw && raw ≤ 2)
    toInt raw

def parseResolveTargetParams (params : JSONValue) : Parsed HostRequest := do
  let object ← params.object?
  Parsed.require (onlyKeys object ["target", "retryBudget"])
  let rawTarget ← required object "target"
  let target ← parseTarget breaking rawTarget
  let retryBudget ← parseRetryBudget (object.lookup "retryBudget")
  pure (.resolveTarget target retryBudget)

def parseTargets : List JSONValue → Parsed (List NativeTarget)
  | [] => pure []
  | rawTarget :: rawTargets => do
    let target ← parseTarget breaking rawTarget
    let targets ← parseTargets rawTargets
    pure (target :: targets)

def parseResolveTargetsParams (params : JSONValue) : Parsed HostRequest := do
  let object ← params.object?
  Parsed.require (onlyKeys object ["targets", "retryBudget"])
  let rawTargets ← required object "targets"
  let rawTargets ← rawTargets.array?
  Parsed.require (!rawTargets.isEmpty && rawTargets.length ≤ 100)
  let retryBudget ← parseRetryBudget (object.lookup "retryBudget")
  let targets ← parseTargets breaking rawTargets
  pure (.resolveTargets targets retryBudget)

def parseEmpty (request : HostRequest) (params : JSONValue) : Parsed HostRequest := do
  Parsed.require (hasEmptyObjectParams params)
  pure request

/-- The parser that `handle` uses for the method: its own, or that of the action service. -/
def parseRequest (method : ComputerNativeMethod) (params : JSONValue) :
    Parsed (HostRequest ⊕ ActionRequest) :=
  let own := fun parsed : Parsed HostRequest => parsed.bind fun request => .accepted (.inl request)
  match method with
  | .health => own (parseEmpty .health params)
  | .list_apps => own (parseEmpty .listApps params)
  | .active_window => own (parseEmpty .activeWindow params)
  | .observe => own (parseEmpty .observe params)
  | .screenshot => own (parseEmpty .screenshot params)
  | .resolve_target => own (parseResolveTargetParams breaking params)
  | .resolve_targets => own (parseResolveTargetsParams breaking params)
  | method =>
    match ActionService.parseRequest breaking method params with
    | some parsed => parsed.bind fun request => .accepted (.inr request)
    | none => .rejected

end Requests

end HostService

/-! ## How a parser ends -/

namespace Parsed

variable {α β : Type} {a : α} {x : Parsed α} {f : α → Parsed β}

@[simp] theorem bind_eq_accepted_iff {b : β} :
    (x >>= f) = .accepted b ↔ ∃ a, x = .accepted a ∧ f a = .accepted b := by
  cases x <;> simp [Bind.bind, bind]

@[simp] theorem bind_eq_trapped_iff :
    (x >>= f) = .trapped ↔ x = .trapped ∨ ∃ a, x = .accepted a ∧ f a = .trapped := by
  cases x <;> simp [Bind.bind, bind]

theorem bind_accepted_eq_trapped_iff {g : α → β} :
    (x >>= fun a => .accepted (g a)) = .trapped ↔ x = .trapped := by
  simp

@[simp] theorem require_eq_accepted_iff {condition : Bool} {u : Unit} :
    require condition = .accepted u ↔ condition = true := by
  cases condition <;> simp [require]

@[simp] theorem require_ne_trapped {condition : Bool} : require condition ≠ .trapped := by
  cases condition <;> simp [require]

@[simp] theorem ofOption_eq_accepted_iff {value : Option α} :
    ofOption value = .accepted a ↔ value = some a := by
  cases value <;> simp [ofOption]

@[simp] theorem ofOption_ne_trapped {value : Option α} : ofOption value ≠ .trapped := by
  cases value <;> simp [ofOption]

end Parsed

section Values

variable {value : JSONValue}

@[simp] theorem object?_eq_accepted_iff {members : Members} :
    value.object? = .accepted members ↔ value = .object members := by
  cases value <;> simp [JSONValue.object?]

@[simp] theorem array?_eq_accepted_iff {values : List JSONValue} :
    value.array? = .accepted values ↔ value = .array values := by
  cases value <;> simp [JSONValue.array?]

@[simp] theorem string?_eq_accepted_iff {text : String} :
    value.string? = .accepted text ↔ value = .string text := by
  cases value <;> simp [JSONValue.string?]

@[simp] theorem number?_eq_accepted_iff {raw : ℚ} :
    value.number? = .accepted raw ↔ value = .number raw := by
  cases value <;> simp [JSONValue.number?]

@[simp] theorem bool?_eq_accepted_iff {flag : Bool} :
    value.bool? = .accepted flag ↔ value = .bool flag := by
  cases value <;> simp [JSONValue.bool?]

@[simp] theorem object?_ne_trapped : value.object? ≠ .trapped := by
  cases value <;> simp [JSONValue.object?]

@[simp] theorem array?_ne_trapped : value.array? ≠ .trapped := by
  cases value <;> simp [JSONValue.array?]

@[simp] theorem string?_ne_trapped : value.string? ≠ .trapped := by
  cases value <;> simp [JSONValue.string?]

@[simp] theorem number?_ne_trapped : value.number? ≠ .trapped := by
  cases value <;> simp [JSONValue.number?]

@[simp] theorem bool?_ne_trapped : value.bool? ≠ .trapped := by
  cases value <;> simp [JSONValue.bool?]

end Values

/-- The parser has a result exactly in the one case, and stops its program exactly in the other. -/
structure Parsed.Ends {α : Type} (x : Parsed α) (accepts traps : Prop) : Prop where
  accepted : (∃ a, x = .accepted a) ↔ accepts
  trapped : x = .trapped ↔ traps

namespace Parsed.Ends

variable {α β : Type} {a : α} {x : Parsed α} {y : Parsed β} {f : α → Parsed β}
  {accepts traps accepts' traps' : Prop} {P p q : α → Prop}

theorem congr (h : Ends x accepts traps) (haccepts : accepts ↔ accepts')
    (htraps : traps ↔ traps') : Ends x accepts' traps' :=
  ⟨h.accepted.trans haccepts, h.trapped.trans htraps⟩

theorem done : Ends (.accepted a) True False := ⟨by simp, by simp⟩

theorem map {g : α → β} (h : Ends x accepts traps) :
    Ends (x >>= fun a => .accepted (g a)) accepts traps := by
  refine ⟨?_, by simpa using h.trapped⟩
  rw [← h.accepted]
  simp [exists_comm]

theorem require {condition : Bool} (h : condition = true → Ends y accepts traps) :
    Ends (Parsed.require condition >>= fun _ => y) (condition = true ∧ accepts)
      (condition = true ∧ traps) := by
  cases condition with
  | false => exact ⟨by simp, by simp⟩
  | true => simpa using h rfl

theorem part (hx : ∀ a, x = .accepted a ↔ P a) (hsafe : x ≠ .trapped)
    (hf : ∀ a, P a → Ends (f a) (p a) (q a)) :
    Ends (x >>= f) (∃ a, P a ∧ p a) (∃ a, P a ∧ q a) := by
  constructor
  · simp only [bind_eq_accepted_iff, hx]
    constructor
    · rintro ⟨b, a, ha, hb⟩
      exact ⟨a, ha, (hf a ha).accepted.mp ⟨b, hb⟩⟩
    · rintro ⟨a, ha, hp⟩
      obtain ⟨b, hb⟩ := (hf a ha).accepted.mpr hp
      exact ⟨b, a, ha, hb⟩
  · simp only [bind_eq_trapped_iff, hx, hsafe, false_or]
    exact exists_congr fun a => and_congr_right fun ha => (hf a ha).trapped

theorem bind (hx : Ends x accepts False) (hf : ∀ a, Ends (f a) accepts' traps') :
    Ends (x >>= f) (accepts ∧ accepts') (accepts ∧ traps') := by
  rw [← hx.accepted]
  refine (part (fun _ => Iff.rfl) hx.trapped.mp fun a _ => hf a).congr ?_ ?_ <;>
    exact exists_and_right

theorem bind_trapped_iff (hx : Ends x accepts False) (hf : ∀ a, f a = .trapped ↔ traps) :
    (x >>= f) = .trapped ↔ accepts ∧ traps := by
  simp [hx.trapped, hf, ← hx.accepted]

end Parsed.Ends

/-- What follows if the parser has a result, and if it stops its program. -/
structure Parsed.Leads {α : Type} (x : Parsed α) (accepts traps : Prop) : Prop where
  accepted : (∃ a, x = .accepted a) → accepts
  trapped : x = .trapped → traps

theorem Parsed.Ends.leads {α : Type} {x : Parsed α} {accepts traps accepts' traps' : Prop}
    (h : Ends x accepts traps) (haccepts : accepts → accepts') (htraps : traps → traps') :
    Leads x accepts' traps' :=
  ⟨fun hx => haccepts (h.accepted.mp hx), fun hx => htraps (h.trapped.mp hx)⟩

theorem Parsed.Leads.rejected {α : Type} {accepts traps : Prop} :
    Leads (.rejected : Parsed α) accepts traps :=
  ⟨by simp, nofun⟩

/-! ## Conversions -/

section Conversions

variable {raw : ℚ}

theorem tdiv_den_eq (h : isWhole raw = true) : (raw.num.tdiv raw.den : ℚ) = raw := by
  have hden : raw.den = 1 := by simpa [isWhole] using h
  rw [hden, Nat.cast_one, Int.tdiv_one]
  exact Rat.coe_int_num_of_den_eq_one hden

theorem toInt_ends (h : isWhole raw = true) :
    Parsed.Ends (toInt raw) (-2 ^ 63 ≤ raw ∧ raw < 2 ^ 63) (¬ (-2 ^ 63 ≤ raw ∧ raw < 2 ^ 63)) := by
  have hraw := tdiv_den_eq h
  have hfits : -2 ^ 63 ≤ raw.num.tdiv raw.den ∧ raw.num.tdiv raw.den < 2 ^ 63 ↔
      -2 ^ 63 ≤ raw ∧ raw < 2 ^ 63 := by
    conv_rhs => rw [← hraw]
    exact_mod_cast Iff.rfl
  rw [toInt, ← hfits]
  split
  next hyes =>
    exact Parsed.Ends.done.congr (iff_of_true trivial hyes) (iff_of_false id (not_not_intro hyes))
  next hno => exact ⟨iff_of_false (by simp) hno, iff_of_true rfl hno⟩

def IsIndex (raw : ℚ) : Prop := isWhole raw = true ∧ 0 ≤ raw ∧ raw < 2 ^ 63

theorem parseIndex_ends : Parsed.Ends (parseIndex raw) (IsIndex raw) (raw = 2 ^ 63) := by
  refine .congr (.require fun hwhole => .require fun _ => toInt_ends hwhole) ?_ ?_
  all_goals rw [Bool.and_eq_true, decide_eq_true_iff, decide_eq_true_iff]
  · constructor
    · rintro ⟨hwhole, ⟨hlow, -⟩, -, hhigh⟩
      exact ⟨hwhole, hlow, hhigh⟩
    · rintro ⟨hwhole, hlow, hhigh⟩
      exact ⟨hwhole, ⟨hlow, hhigh.le⟩, le_trans (by norm_num) hlow, hhigh⟩
  · constructor
    · rintro ⟨-, ⟨hlow, hhigh⟩, hfits⟩
      exact hhigh.antisymm (not_lt.mp fun hlt => hfits ⟨le_trans (by norm_num) hlow, hlt⟩)
    · rintro rfl
      exact ⟨by decide +kernel, by norm_num, fun hfits => absurd hfits.2 (lt_irrefl _)⟩

end Conversions

/-! ## Targets -/

namespace ActionService

section Targets

variable (breaking : CharacterBreaking)

/-- A member that must be there and be a string that is not empty and not too long. -/
def HasString (members : Members) (key : String) : Prop :=
  ∃ text, members.lookup key = some (.string text) ∧ isValidSelectorString breaking text = true

/-- A member that may be left out and otherwise is such a string. -/
def MayHaveString (members : Members) (key : String) : Prop :=
  members.lookup key = none ∨ HasString breaking members key

/-- A member that may be left out and otherwise is a truth value. -/
def MayHaveBool (members : Members) (key : String) : Prop :=
  members.lookup key = none ∨ ∃ flag, members.lookup key = some (.bool flag)

/-- What an index target or scope has apart from the range of its index. -/
structure IndexMembers (members : Members) (raw : ℚ) : Prop where
  kind : members.lookup "by" = some (.string "index")
  keys : onlyKeys members ["by", "snapshotId", "index"] = true
  snapshotId : HasString breaking members "snapshotId"
  index : members.lookup "index" = some (.number raw)

/-- What a role target or scope has, with the keys that are allowed. -/
structure RoleMembers (members : Members) (keys : List String) : Prop where
  kind : members.lookup "by" = some (.string "role")
  keys : onlyKeys members keys = true
  role : HasString breaking members "role"
  isExact : MayHaveBool members "exact"
  name : MayHaveString breaking members "name"

structure TextMembers (members : Members) (kind key : String) : Prop where
  kind : members.lookup "by" = some (.string kind)
  keys : onlyKeys members ["by", key, "exact", "within"] = true
  text : HasString breaking members key
  isExact : MayHaveBool members "exact"

inductive ScopedMembers (members : Members) : Prop
  | role (h : RoleMembers breaking members ["by", "role", "name", "exact", "within"])
  | text (h : TextMembers breaking members "text" "text")
  | ocrText (h : TextMembers breaking members "ocrText" "text")
  | label (h : TextMembers breaking members "label" "label")

inductive WellFormedScope : JSONValue → Prop
  | index {members : Members} {raw : ℚ} (h : IndexMembers breaking members raw)
      (hraw : IsIndex raw) : WellFormedScope (.object members)
  | role {members : Members} (h : RoleMembers breaking members ["by", "role", "name", "exact"]) :
      WellFormedScope (.object members)

inductive OverflowingScope : JSONValue → Prop
  | index {members : Members} (h : IndexMembers breaking members (2 ^ 63)) :
      OverflowingScope (.object members)

inductive WellFormedTarget : JSONValue → Prop
  | index {members : Members} {raw : ℚ} (h : IndexMembers breaking members raw)
      (hraw : IsIndex raw) : WellFormedTarget (.object members)
  | plain {members : Members} (h : ScopedMembers breaking members)
      (hwithin : members.lookup "within" = none) : WellFormedTarget (.object members)
  | scoped {members : Members} {scope : JSONValue} (h : ScopedMembers breaking members)
      (hwithin : members.lookup "within" = some scope) (hscope : WellFormedScope breaking scope) :
      WellFormedTarget (.object members)
  | point {members : Members} {x y : ℚ} (hkind : members.lookup "by" = some (.string "point"))
      (hkeys : sameKeys members ["by", "x", "y"] = true)
      (hx : members.lookup "x" = some (.number x)) (hy : members.lookup "y" = some (.number y)) :
      WellFormedTarget (.object members)

/-- A target that reaches the conversion of the index that does not fit, its own or that of its
scope. -/
inductive OverflowingTarget : JSONValue → Prop
  | index {members : Members} (h : IndexMembers breaking members (2 ^ 63)) :
      OverflowingTarget (.object members)
  | scoped {members : Members} {scope : JSONValue} (h : ScopedMembers breaking members)
      (hwithin : members.lookup "within" = some scope)
      (hscope : OverflowingScope breaking scope) : OverflowingTarget (.object members)

variable {breaking} {members : Members} {value : JSONValue}

/-! ### Parts of targets -/

variable {key : String}

@[simp] theorem parseRequiredString_eq_accepted_iff {text : String} :
    parseRequiredString members key = .accepted text ↔
      members.lookup key = some (.string text) := by
  simp [parseRequiredString, required]

@[simp] theorem parseRequiredString_ne_trapped : parseRequiredString members key ≠ .trapped := by
  simp [parseRequiredString, required]

@[simp] theorem parseExact_ne_trapped {flag : Option JSONValue} : parseExact flag ≠ .trapped := by
  cases flag <;> simp [parseExact]

theorem parseExact_ends :
    Parsed.Ends (parseExact (members.lookup key)) (MayHaveBool members key) False := by
  refine ⟨?_, by simp⟩
  rw [MayHaveBool]
  cases members.lookup key <;> simp [parseExact]

@[simp] theorem parseOptionalString_ne_trapped {text : Option JSONValue} :
    parseOptionalString breaking text ≠ .trapped := by
  cases text <;> simp [parseOptionalString]

theorem parseOptionalString_ends :
    Parsed.Ends (parseOptionalString breaking (members.lookup key))
      (MayHaveString breaking members key) False := by
  refine ⟨?_, by simp⟩
  rw [MayHaveString, HasString]
  cases members.lookup key <;> simp [parseOptionalString]

section Parts

variable {α : Type} {accepts traps : Prop}

theorem validString_ends {f : String → Parsed α} (hf : ∀ text, Parsed.Ends (f text) accepts traps) :
    Parsed.Ends (parseRequiredString members key >>= fun text =>
        Parsed.require (isValidSelectorString breaking text) >>= fun _ => f text)
      (HasString breaking members key ∧ accepts) (HasString breaking members key ∧ traps) := by
  refine .congr (.part (fun _ => parseRequiredString_eq_accepted_iff)
    parseRequiredString_ne_trapped fun text _ => .require fun _ => hf text) ?_ ?_
  all_goals
    rw [HasString, ← exists_and_right]
    exact exists_congr fun _ => and_assoc.symm

theorem number_ends {f : ℚ → Parsed α} {p q : ℚ → Prop} (hf : ∀ raw, Parsed.Ends (f raw) (p raw)
    (q raw)) : Parsed.Ends (required members key >>= fun value => value.number? >>= f)
      (∃ raw, members.lookup key = some (.number raw) ∧ p raw)
      (∃ raw, members.lookup key = some (.number raw) ∧ q raw) := by
  refine .congr (.part (fun _ => Parsed.ofOption_eq_accepted_iff) Parsed.ofOption_ne_trapped
    fun value _ => .part (fun _ => number?_eq_accepted_iff) number?_ne_trapped
      fun raw _ => hf raw) ?_ ?_
  all_goals
    constructor
    · rintro ⟨_, hlookup, raw, rfl, h⟩
      exact ⟨raw, hlookup, h⟩
    · rintro ⟨raw, hlookup, h⟩
      exact ⟨_, hlookup, raw, rfl, h⟩

theorem lookup_ends {parse : Option JSONValue → Parsed α} {P Q : JSONValue → Prop}
    (hnone : Parsed.Ends (parse none) True False)
    (hsome : ∀ value, Parsed.Ends (parse (some value)) (P value) (Q value)) :
    Parsed.Ends (parse (members.lookup key)) (∀ value, members.lookup key = some value → P value)
      (∃ value, members.lookup key = some value ∧ Q value) := by
  cases members.lookup key with
  | none => simpa using hnone
  | some value => simpa using hsome value

end Parts

def parseIndexMembers {α : Type} (breaking : CharacterBreaking) (object : Members)
    (result : String → ℤ → α) : Parsed α := do
  Parsed.require (onlyKeys object ["by", "snapshotId", "index"])
  let snapshotId ← parseRequiredString object "snapshotId"
  Parsed.require (isValidSelectorString breaking snapshotId)
  let rawIndex ← required object "index"
  let rawIndex ← rawIndex.number?
  let index ← parseIndex rawIndex
  pure (result snapshotId index)

theorem parseIndexMembers_ends {α : Type} {result : String → ℤ → α}
    (hkind : members.lookup "by" = some (.string "index")) :
    Parsed.Ends (parseIndexMembers breaking members result)
      (∃ raw, IndexMembers breaking members raw ∧ IsIndex raw)
      (IndexMembers breaking members (2 ^ 63)) := by
  refine .congr (.require fun _ => validString_ends fun _ => number_ends fun _ =>
    .map parseIndex_ends) ?_ ?_
  · constructor
    · rintro ⟨hkeys, htext, raw, hraw, hindex⟩
      exact ⟨raw, ⟨hkind, hkeys, htext, hraw⟩, hindex⟩
    · rintro ⟨raw, h, hindex⟩
      exact ⟨h.keys, h.snapshotId, raw, h.index, hindex⟩
  · constructor
    · rintro ⟨hkeys, htext, raw, hraw, rfl⟩
      exact ⟨hkind, hkeys, htext, hraw⟩
    · intro h
      exact ⟨h.keys, h.snapshotId, _, h.index, rfl⟩

theorem roleMembers_ends {α : Type} {keys : List String}
    {f : String → Bool → Option String → Parsed α} {accepts traps : Prop}
    (hkind : members.lookup "by" = some (.string "role"))
    (hf : ∀ role isExact name, Parsed.Ends (f role isExact name) accepts traps) :
    Parsed.Ends (do
        Parsed.require (onlyKeys members keys)
        let role ← parseRequiredString members "role"
        Parsed.require (isValidSelectorString breaking role)
        let isExact ← parseExact (members.lookup "exact")
        let name ← parseOptionalString breaking (members.lookup "name")
        f role isExact name)
      (RoleMembers breaking members keys ∧ accepts)
      (RoleMembers breaking members keys ∧ traps) := by
  refine .congr (.require fun _ => validString_ends fun role => .bind parseExact_ends
    fun isExact => .bind parseOptionalString_ends fun name => hf role isExact name) ?_ ?_
  all_goals
    constructor
    · rintro ⟨hkeys, hrole, hexact, hname, h⟩
      exact ⟨⟨hkind, hkeys, hrole, hexact, hname⟩, h⟩
    · rintro ⟨hmembers, h⟩
      exact ⟨hmembers.keys, hmembers.role, hmembers.isExact, hmembers.name, h⟩

theorem kind_ends {α : Type} {f : Members → String → Parsed α} {accepts traps : JSONValue → Prop}
    (hf : ∀ members kind, members.lookup key = some (.string kind) →
      Parsed.Leads (f members kind) (accepts (.object members)) (traps (.object members)))
    (haccepts : ∀ value, accepts value → ∃ members kind, value = .object members ∧
      members.lookup key = some (.string kind) ∧ ∃ a, f members kind = .accepted a)
    (htraps : ∀ value, traps value → ∃ members kind, value = .object members ∧
      members.lookup key = some (.string kind) ∧ f members kind = .trapped) :
    Parsed.Ends (value.object? >>= fun object => parseRequiredString object key >>= f object)
      (accepts value) (traps value) := by
  constructor
  · simp only [Parsed.bind_eq_accepted_iff, object?_eq_accepted_iff,
      parseRequiredString_eq_accepted_iff]
    constructor
    · rintro ⟨a, members, rfl, kind, hkind, h⟩
      exact (hf members kind hkind).accepted ⟨a, h⟩
    · intro h
      obtain ⟨members, kind, rfl, hkind, a, ha⟩ := haccepts value h
      exact ⟨a, members, rfl, kind, hkind, ha⟩
  · simp only [Parsed.bind_eq_trapped_iff, object?_ne_trapped, object?_eq_accepted_iff,
      parseRequiredString_ne_trapped, parseRequiredString_eq_accepted_iff, false_or]
    constructor
    · rintro ⟨members, rfl, kind, hkind, h⟩
      exact (hf members kind hkind).trapped h
    · intro h
      obtain ⟨members, kind, rfl, hkind, h⟩ := htraps value h
      exact ⟨members, rfl, kind, hkind, h⟩

/-! ### Scopes -/

theorem parseTargetScope_ends : Parsed.Ends (parseTargetScope breaking value)
    (WellFormedScope breaking value) (OverflowingScope breaking value) := by
  refine kind_ends (fun members kind hkind => ?_) ?_ ?_
  · split
    next =>
      exact (parseIndexMembers_ends hkind).leads (fun ⟨_, h, hraw⟩ => .index h hraw) .index
    next => exact (roleMembers_ends hkind fun _ _ _ => .done).leads (fun h => .role h.1) (·.2.elim)
    next => exact .rejected
  · rintro _ (⟨h, hraw⟩ | h)
    · exact ⟨_, _, rfl, h.kind, (parseIndexMembers_ends h.kind).accepted.mpr ⟨_, h, hraw⟩⟩
    · exact ⟨_, _, rfl, h.kind,
        (roleMembers_ends h.kind fun _ _ _ => .done).accepted.mpr ⟨h, trivial⟩⟩
  · rintro _ ⟨h⟩
    exact ⟨_, _, rfl, h.kind, (parseIndexMembers_ends h.kind).trapped.mpr h⟩

/-! ### Targets -/

theorem applyTargetScope_ends {target : NativeTarget} :
    Parsed.Ends (applyTargetScope breaking target (members.lookup key))
      (∀ value, members.lookup key = some value → WellFormedScope breaking value)
      (∃ value, members.lookup key = some value ∧ OverflowingScope breaking value) :=
  lookup_ends .done fun _ => .map parseTargetScope_ends

def parseRoleTarget (breaking : CharacterBreaking) (object : Members) : Parsed NativeTarget := do
  Parsed.require (onlyKeys object ["by", "role", "name", "exact", "within"])
  let role ← parseRequiredString object "role"
  Parsed.require (isValidSelectorString breaking role)
  let isExact ← parseExact (object.lookup "exact")
  let name ← parseOptionalString breaking (object.lookup "name")
  applyTargetScope breaking (.role role name isExact) (object.lookup "within")

/-- How a parser ends that takes a scope in the end. -/
structure EndsWithScope (breaking : CharacterBreaking) (members : Members)
    (parsed : Parsed NativeTarget) (base : Prop) : Prop where
  trapped : parsed = .trapped ↔ base ∧ ∃ scope, members.lookup "within" = some scope ∧
    OverflowingScope breaking scope
  accepted : (∃ target, parsed = .accepted target) ↔ base ∧
    ∀ scope, members.lookup "within" = some scope → WellFormedScope breaking scope

theorem parseRoleTarget_ends (hkind : members.lookup "by" = some (.string "role")) :
    EndsWithScope breaking members (parseRoleTarget breaking members)
      (RoleMembers breaking members ["by", "role", "name", "exact", "within"]) :=
  have h : Parsed.Ends (parseRoleTarget breaking members) _ _ :=
    roleMembers_ends hkind fun _ _ _ => applyTargetScope_ends
  ⟨h.trapped, h.accepted⟩

theorem parseTextTarget_ends {kind : String} {base : String → Bool → NativeTarget}
    (hkind : members.lookup "by" = some (.string kind)) :
    EndsWithScope breaking members (parseTextTarget breaking members key base)
      (TextMembers breaking members kind key) := by
  have h : Parsed.Ends (parseTextTarget breaking members key base) _ _ :=
    .require fun _ => validString_ends fun _ => .bind parseExact_ends fun _ => applyTargetScope_ends
  refine ⟨h.trapped.trans ?_, h.accepted.trans ?_⟩
  all_goals
    constructor
    · rintro ⟨hkeys, htext, hexact, hscope⟩
      exact ⟨⟨hkind, hkeys, htext, hexact⟩, hscope⟩
    · rintro ⟨hmembers, hscope⟩
      exact ⟨hmembers.keys, hmembers.text, hmembers.isExact, hscope⟩

def parsePointTarget (object : Members) : Parsed NativeTarget := do
  Parsed.require (sameKeys object ["by", "x", "y"])
  let x ← required object "x"
  let x ← x.number?
  let y ← required object "y"
  let y ← y.number?
  pure (.point x y)

def parseKind (breaking : CharacterBreaking) (object : Members) (kind : String) :
    Parsed NativeTarget :=
  match kind with
  | "index" => parseIndexMembers breaking object .index
  | "role" => parseRoleTarget breaking object
  | "text" => parseTextTarget breaking object "text" .text
  | "ocrText" => parseTextTarget breaking object "text" .ocrText
  | "label" => parseTextTarget breaking object "label" .label
  | "point" => parsePointTarget object
  | _ => .rejected

theorem parsePointTarget_ends : Parsed.Ends (parsePointTarget members)
    (sameKeys members ["by", "x", "y"] = true ∧ ∃ x, members.lookup "x" = some (.number x) ∧
      ∃ y, members.lookup "y" = some (.number y) ∧ True) False :=
  .congr (.require fun _ => number_ends fun _ => number_ends fun _ => .done) Iff.rfl (by simp)

theorem EndsWithScope.leads {parsed : Parsed NativeTarget} {base : Prop}
    (h : EndsWithScope breaking members parsed base)
    (hbase : base → ScopedMembers breaking members) :
    parsed.Leads (WellFormedTarget breaking (.object members))
      (OverflowingTarget breaking (.object members)) where
  accepted hparsed := by
    obtain ⟨hmembers, hscope⟩ := h.accepted.mp hparsed
    cases hwithin : members.lookup "within" with
    | none => exact .plain (hbase hmembers) hwithin
    | some scope => exact .scoped (hbase hmembers) hwithin (hscope scope hwithin)
  trapped hparsed := by
    obtain ⟨hmembers, scope, hwithin, hscope⟩ := h.trapped.mp hparsed
    exact .scoped (hbase hmembers) hwithin hscope

theorem ScopedMembers.exists_ends (h : ScopedMembers breaking members) :
    ∃ kind base, members.lookup "by" = some (.string kind) ∧ base ∧
      EndsWithScope breaking members (parseKind breaking members kind) base := by
  rcases h with h | h | h | h
  · exact ⟨_, _, h.kind, h, parseRoleTarget_ends h.kind⟩
  all_goals exact ⟨_, _, h.kind, h, parseTextTarget_ends h.kind⟩

theorem parseTarget_ends : Parsed.Ends (parseTarget breaking value)
    (WellFormedTarget breaking value) (OverflowingTarget breaking value) := by
  change Parsed.Ends (value.object? >>= fun object => parseRequiredString object "by" >>=
    parseKind breaking object) _ _
  refine kind_ends (fun members kind hkind => ?_) ?_ ?_
  · unfold parseKind
    split
    next =>
      exact (parseIndexMembers_ends hkind).leads (fun ⟨_, h, hraw⟩ => .index h hraw) .index
    next => exact (parseRoleTarget_ends hkind).leads .role
    next => exact (parseTextTarget_ends hkind).leads .text
    next => exact (parseTextTarget_ends hkind).leads .ocrText
    next => exact (parseTextTarget_ends hkind).leads .label
    next =>
      exact parsePointTarget_ends.leads
        (fun ⟨hkeys, _, hx, _, hy, _⟩ => .point hkind hkeys hx hy) False.elim
    next => exact .rejected
  · have hscoped : ∀ {members}, ScopedMembers breaking members →
        (∀ scope, members.lookup "within" = some scope → WellFormedScope breaking scope) →
        ∃ members' kind, JSONValue.object members = .object members' ∧
          members'.lookup "by" = some (.string kind) ∧
          ∃ a, parseKind breaking members' kind = .accepted a := by
      intro members h hscope
      obtain ⟨kind, base, hkind, hbase, hends⟩ := h.exists_ends
      exact ⟨_, _, rfl, hkind, hends.accepted.mpr ⟨hbase, hscope⟩⟩
    rintro _ (⟨h, hraw⟩ | ⟨h, hwithin⟩ | ⟨h, hwithin, hscope⟩ | ⟨hkind, hkeys, hx, hy⟩)
    · exact ⟨_, _, rfl, h.kind, (parseIndexMembers_ends h.kind).accepted.mpr ⟨_, h, hraw⟩⟩
    · exact hscoped h fun scope hsome => absurd (hwithin.symm.trans hsome) (by simp)
    · exact hscoped h fun scope hsome => Option.some.inj (hwithin.symm.trans hsome) ▸ hscope
    · exact ⟨_, _, rfl, hkind, parsePointTarget_ends.accepted.mpr ⟨hkeys, _, hx, _, hy, trivial⟩⟩
  · rintro _ (h | ⟨h, hwithin, hscope⟩)
    · exact ⟨_, _, rfl, h.kind, (parseIndexMembers_ends h.kind).trapped.mpr h⟩
    · obtain ⟨kind, base, hkind, hbase, hends⟩ := h.exists_ends
      exact ⟨_, _, rfl, hkind, hends.trapped.mpr ⟨hbase, _, hwithin, hscope⟩⟩

end Targets

/-! ## Other parameters -/

section Parameters

variable {breaking : CharacterBreaking} {members : Members} {value : JSONValue}

def IsWholeNumber (low high : ℚ) (value : JSONValue) : Prop :=
  ∃ raw, value = .number raw ∧ isWhole raw = true ∧ low ≤ raw ∧ raw ≤ high

def parseWholeNumber (low high : ℚ) (value : JSONValue) : Parsed ℤ := do
  let raw ← value.number?
  Parsed.require (isWhole raw)
  Parsed.require (low ≤ raw && raw ≤ high)
  toInt raw

theorem parseWholeNumber_ends {low high : ℚ} (hlow : -2 ^ 63 ≤ low) (hhigh : high < 2 ^ 63) :
    Parsed.Ends (parseWholeNumber low high value) (IsWholeNumber low high value) False := by
  refine .congr (.part (fun _ => number?_eq_accepted_iff) number?_ne_trapped fun raw _ =>
    .require fun hwhole => .require fun _ => toInt_ends hwhole) ?_ ?_
  all_goals simp only [Bool.and_eq_true, decide_eq_true_iff]
  · refine exists_congr fun raw => and_congr_right fun _ => and_congr_right fun _ => ?_
    exact and_iff_left_of_imp fun h => ⟨hlow.trans h.1, h.2.trans_lt hhigh⟩
  · refine iff_of_false ?_ id
    rintro ⟨raw, -, -, hbounds, hfits⟩
    exact hfits ⟨hlow.trans hbounds.1, hbounds.2.trans_lt hhigh⟩

/-- A member that may be left out and otherwise is such a number. -/
def MayHaveWholeNumber (low high : ℚ) (members : Members) (key : String) : Prop :=
  ∀ value, members.lookup key = some value → IsWholeNumber low high value

variable {key : String}

theorem optional_ends {α : Type} {parse : Option JSONValue → Parsed α} {P : JSONValue → Prop}
    (hnone : Parsed.Ends (parse none) True False)
    (hsome : ∀ value, Parsed.Ends (parse (some value)) (P value) False) :
    Parsed.Ends (parse (members.lookup key)) (∀ value, members.lookup key = some value → P value)
      False :=
  .congr (lookup_ends hnone hsome) Iff.rfl (by simp)

theorem parseRetryBudget_ends : Parsed.Ends (parseRetryBudget (members.lookup key))
    (MayHaveWholeNumber 0 2 members key) False :=
  optional_ends .done fun _ => parseWholeNumber_ends (by norm_num) (by norm_num)

@[simp] theorem parseRetryBudget_ne_trapped :
    parseRetryBudget (members.lookup key) ≠ .trapped := parseRetryBudget_ends.trapped.mp

theorem parseVerificationTimeout_ends :
    Parsed.Ends (parseVerificationTimeout (members.lookup key))
      (MayHaveWholeNumber 50 60000 members key) False :=
  optional_ends .done fun _ => parseWholeNumber_ends (by norm_num) (by norm_num)

@[simp] theorem parseVerificationTimeout_ne_trapped {timeout : Option JSONValue} :
    parseVerificationTimeout timeout ≠ .trapped := by
  cases timeout with
  | none => simp [parseVerificationTimeout]
  | some value => exact (parseWholeNumber_ends (by norm_num) (by norm_num)).trapped.mp

def HasDelta (members : Members) (key : String) : Prop :=
  ∃ value, members.lookup key = some value ∧ IsWholeNumber (-10000) 10000 value

theorem parseScrollDelta_ends :
    Parsed.Ends (parseScrollDelta members key) (HasDelta members key) False :=
  .congr (.part (fun _ => Parsed.ofOption_eq_accepted_iff) Parsed.ofOption_ne_trapped fun _ _ =>
    parseWholeNumber_ends (by norm_num) (by norm_num)) Iff.rfl (by simp)

@[simp] theorem parseMotionMode_ne_trapped {mode : Option JSONValue} :
    parseMotionMode mode ≠ .trapped := by
  cases mode <;> simp [parseMotionMode]

@[simp] theorem parseMouseButton_ne_trapped {button : Option JSONValue} :
    parseMouseButton button ≠ .trapped := by
  cases button <;> simp [parseMouseButton]

def MayHaveMode (members : Members) : Prop :=
  ∀ value, members.lookup "motionMode" = some value →
    ∃ mode : PointerMotionMode, value = .string mode.rawValue

theorem parseMotionMode_ends : Parsed.Ends (parseMotionMode (members.lookup "motionMode"))
    (MayHaveMode members) False := by
  refine optional_ends .done fun value => ⟨?_, by simp⟩
  simp only [parseMotionMode, Parsed.bind_eq_accepted_iff, string?_eq_accepted_iff,
    Parsed.ofOption_eq_accepted_iff]
  constructor
  · rintro ⟨mode, raw, rfl, hmode⟩
    have hraw : mode.rawValue = raw := by
      simpa using List.find?_some hmode
    exact ⟨mode, by rw [hraw]⟩
  · rintro ⟨mode, rfl⟩
    exact ⟨mode, _, rfl, PointerMotionMode.ofRawValue?_rawValue mode⟩

/-! ### Verifications -/

def HasText (breaking : CharacterBreaking) (members : Members) (key : String) : Prop :=
  ∃ text, members.lookup key = some (.string text) ∧
    (!text.isEmpty && breaking.count text ≤ maxSelectorCharacters) = true

theorem parseBoundedText_ends :
    Parsed.Ends (parseBoundedText breaking members key) (HasText breaking members key) False :=
  .congr (.part (fun _ => parseRequiredString_eq_accepted_iff) parseRequiredString_ne_trapped
    fun _ _ => .require fun _ => .done) (by simp [HasText]) (by simp)

@[simp] theorem parseBoundedText_ne_trapped :
    parseBoundedText breaking members key ≠ .trapped := parseBoundedText_ends.trapped.mp

inductive WellFormedVerification (breaking : CharacterBreaking) (members : Members) : Prop
  | axChanged (hkind : members.lookup "kind" = some (.string "ax_changed"))
      (hkeys : onlyKeys members ["kind", "timeoutMs"] = true)
  | textAppeared (hkind : members.lookup "kind" = some (.string "text_appeared"))
      (hkeys : onlyKeys members ["kind", "text", "exact", "timeoutMs"] = true)
      (htext : HasText breaking members "text") (hexact : MayHaveBool members "exact")
  | screenRegionChanged {x y width height : ℚ}
      (hkind : members.lookup "kind" = some (.string "screen_region_changed"))
      (hkeys : onlyKeys members ["kind", "x", "y", "width", "height", "timeoutMs"] = true)
      (hx : members.lookup "x" = some (.number x)) (hy : members.lookup "y" = some (.number y))
      (hwidth : members.lookup "width" = some (.number width))
      (hheight : members.lookup "height" = some (.number height))
      (hpos : 0 < width ∧ 0 < height)

theorem WellFormedVerification.exists_kind (h : WellFormedVerification breaking members) :
    ∃ kind, members.lookup "kind" = some (.string kind) := by
  cases h with
  | axChanged hkind => exact ⟨_, hkind⟩
  | textAppeared hkind => exact ⟨_, hkind⟩
  | screenRegionChanged hkind => exact ⟨_, hkind⟩

def MayHaveVerification (breaking : CharacterBreaking) (members : Members) : Prop :=
  ∀ value, members.lookup "verify" = some value → ∃ object, value = .object object ∧
    MayHaveWholeNumber 50 60000 object "timeoutMs" ∧ WellFormedVerification breaking object

theorem parseVerification_ends {kind : String} {timeoutMs : ℤ}
    (hkind : members.lookup "kind" = some (.string kind)) :
    Parsed.Ends (parseVerification breaking members kind timeoutMs)
      (WellFormedVerification breaking members) False := by
  have hsame : ∀ {kind'}, members.lookup "kind" = some (.string kind') → kind = kind' :=
    fun h => by simpa using hkind.symm.trans h
  unfold parseVerification
  split
  next =>
    refine .congr (.require fun _ => .done) ⟨fun h => .axChanged hkind h.1, fun h => ?_⟩ (by simp)
    cases h with
    | axChanged _ hkeys => exact ⟨hkeys, trivial⟩
    | textAppeared h | screenRegionChanged h => exact absurd (hsame h) (by decide)
  next =>
    refine .congr (.require fun _ => .bind parseBoundedText_ends fun _ => .map parseExact_ends)
      ⟨fun ⟨hkeys, htext, hexact⟩ => .textAppeared hkind hkeys htext hexact, fun h => ?_⟩ (by simp)
    cases h with
    | textAppeared _ hkeys htext hexact => exact ⟨hkeys, htext, hexact⟩
    | axChanged h | screenRegionChanged h => exact absurd (hsame h) (by decide)
  next =>
    refine .congr (.require fun _ => number_ends fun _ => number_ends fun _ => number_ends fun _ =>
      number_ends fun _ => .require fun _ => .done) ⟨?_, fun h => ?_⟩ (by simp)
    · rintro ⟨hkeys, x, hx, y, hy, width, hwidth, height, hheight, hpos, -⟩
      rw [Bool.and_eq_true, decide_eq_true_iff, decide_eq_true_iff] at hpos
      exact .screenRegionChanged hkind hkeys hx hy hwidth hheight hpos
    · cases h with
      | screenRegionChanged _ hkeys hx hy hwidth hheight hpos =>
        refine ⟨hkeys, _, hx, _, hy, _, hwidth, _, hheight, ?_, trivial⟩
        rw [Bool.and_eq_true, decide_eq_true_iff, decide_eq_true_iff]
        exact hpos
      | axChanged h | textAppeared h => exact absurd (hsame h) (by decide)
  next hno₁ hno₂ hno₃ =>
    refine ⟨iff_of_false (by simp) fun h => ?_, iff_of_false nofun id⟩
    cases h with
    | axChanged h => exact hno₁ (hsame h)
    | textAppeared h => exact hno₂ (hsame h)
    | screenRegionChanged h => exact hno₃ (hsame h)

theorem parseOptionalVerification_ends :
    Parsed.Ends (parseOptionalVerification breaking (members.lookup "verify"))
      (MayHaveVerification breaking members) False := by
  refine optional_ends .done fun value => .congr (.part (fun _ => object?_eq_accepted_iff)
    object?_ne_trapped fun object _ => .part (fun _ => parseRequiredString_eq_accepted_iff)
      parseRequiredString_ne_trapped fun kind hkind => .bind parseVerificationTimeout_ends
        fun _ => .map (parseVerification_ends hkind)) ?_ (by simp)
  refine exists_congr fun object => and_congr_right fun _ => ⟨fun ⟨_, _, h⟩ => h, fun h => ?_⟩
  obtain ⟨kind, hkind⟩ := h.2.exists_kind
  exact ⟨kind, hkind, h⟩

@[simp] theorem parseOptionalVerification_ne_trapped :
    parseOptionalVerification breaking (members.lookup "verify") ≠ .trapped :=
  parseOptionalVerification_ends.trapped.mp

/-! ## Requests -/

/-- The place of an action is a target that stops the helper. -/
def OverflowingPoint (breaking : CharacterBreaking) (members : Members) : Prop :=
  members.lookup "x" = none ∧ members.lookup "y" = none ∧
    ∃ target, members.lookup "target" = some target ∧ OverflowingTarget breaking target

@[simp] theorem parsePointObject_ne_trapped : parsePointObject members ≠ .trapped := by
  simp [parsePointObject, required]

@[simp] theorem parseActionPointSpec_eq_trapped_iff :
    parseActionPointSpec breaking members = .trapped ↔ OverflowingPoint breaking members := by
  rw [OverflowingPoint]
  cases hx : members.lookup "x" with
  | some x => simp [parseActionPointSpec, hx]
  | none =>
    cases hy : members.lookup "y" with
    | some y => simp [parseActionPointSpec, hx, hy]
    | none => simp [parseActionPointSpec, hx, hy, required, parseTarget_ends.trapped]

inductive WellFormedEndpoint (breaking : CharacterBreaking) : JSONValue → Prop
  | point {members : Members} {x y : ℚ} (hkeys : sameKeys members ["x", "y"] = true)
      (hx : members.lookup "x" = some (.number x)) (hy : members.lookup "y" = some (.number y)) :
      WellFormedEndpoint breaking (.object members)
  | target {value : JSONValue} (h : WellFormedTarget breaking value) :
      WellFormedEndpoint breaking value

theorem sameKeys_eq_false {kind : JSONValue} (h : members.lookup "by" = some kind) :
    sameKeys members ["x", "y"] = false := by
  obtain ⟨before, after, rfl, -⟩ := List.lookup_eq_some_iff.mp h
  simp [sameKeys, onlyKeys]

theorem OverflowingTarget.exists_kind (h : OverflowingTarget breaking value) :
    ∃ members kind, value = .object members ∧ members.lookup "by" = some kind := by
  rcases h with h | ⟨h | h | h | h, -, -⟩
  all_goals exact ⟨_, _, rfl, h.kind⟩

theorem WellFormedTarget.exists_kind (h : WellFormedTarget breaking value) :
    ∃ members kind, value = .object members ∧ members.lookup "by" = some kind := by
  rcases h with ⟨h, -⟩ | ⟨h | h | h | h, -⟩ | ⟨h | h | h | h, -, -⟩ | ⟨hkind, -, -, -⟩
  all_goals first | exact ⟨_, _, rfl, h.kind⟩ | exact ⟨_, _, rfl, hkind⟩

theorem parseDragEndpoint_ends {retryBudget : ℤ} :
    Parsed.Ends (parseDragEndpoint breaking value retryBudget) (WellFormedEndpoint breaking value)
      (OverflowingTarget breaking value) := by
  constructor
  · constructor
    · rintro ⟨spec, h⟩
      simp only [parseDragEndpoint, Parsed.bind_eq_accepted_iff, object?_eq_accepted_iff] at h
      obtain ⟨members, rfl, h⟩ := h
      split at h
      next point hpoint =>
        split at hpoint
        next hkeys =>
          simp only [parsePointObject, required, Parsed.bind_eq_accepted_iff,
            Parsed.ofOption_eq_accepted_iff, number?_eq_accepted_iff] at hpoint
          obtain ⟨_, hx, x, rfl, _, hy, y, rfl, -⟩ := hpoint
          exact .point hkeys hx hy
        next => cases hpoint
      next => cases h
      next => exact .target (parseTarget_ends.map.accepted.mp ⟨spec, h⟩)
    · rintro (@⟨members, x, y, hkeys, hx, hy⟩ | h)
      · refine ⟨.point ⟨x, y⟩, ?_⟩
        simp only [parseDragEndpoint, JSONValue.object?, Parsed.bind_accepted, hkeys, if_true,
          parsePointObject, required, hx, hy, Parsed.ofOption_some, JSONValue.number?,
          Parsed.pure_eq]
      · obtain ⟨target, htarget⟩ := parseTarget_ends.accepted.mpr h
        obtain ⟨members, kind, rfl, hkind⟩ := h.exists_kind
        exact ⟨.target target retryBudget, by simp [parseDragEndpoint, JSONValue.object?,
          sameKeys_eq_false hkind, htarget]⟩
  · constructor
    · intro h
      simp only [parseDragEndpoint, Parsed.bind_eq_trapped_iff, object?_ne_trapped,
        object?_eq_accepted_iff, false_or] at h
      obtain ⟨members, rfl, h⟩ := h
      split at h
      next => cases h
      next htrapped =>
        split at htrapped
        next => exact absurd htrapped parsePointObject_ne_trapped
        next => cases htrapped
      next => exact parseTarget_ends.map.trapped.mp h
    · intro h
      obtain ⟨members, kind, rfl, hkind⟩ := h.exists_kind
      simp [parseDragEndpoint, JSONValue.object?, sameKeys_eq_false hkind,
        parseTarget_ends.trapped.mpr h]

/-! ### Requests without an index -/

@[simp] theorem parseRequiredSelector_ne_trapped :
    parseRequiredSelector breaking members ≠ .trapped := by
  simp [parseRequiredSelector]

theorem parseModifierValues_ne_trapped (seen : List ComputerKeyModifier)
    (values : List JSONValue) : parseModifierValues seen values ≠ .trapped := by
  induction values generalizing seen with
  | nil => simp [parseModifierValues]
  | cons value values ih => simp [parseModifierValues, ih]

@[simp] theorem parseModifiers_ne_trapped {modifiers : Option JSONValue} :
    parseModifiers modifiers ≠ .trapped := by
  cases modifiers <;> simp [parseModifiers, parseModifierValues_ne_trapped]

theorem parseNoParams_ne_trapped {request : ActionRequest} :
    parseNoParams request value ≠ .trapped := by
  simp [parseNoParams]

theorem parseButtonOnlyParams_ne_trapped {down : Bool} :
    parseButtonOnlyParams breaking down value ≠ .trapped := by
  simp [parseButtonOnlyParams]

theorem parseTypeTextParams_ne_trapped : parseTypeTextParams breaking value ≠ .trapped := by
  simp [parseTypeTextParams]

theorem parsePressKeyParams_ne_trapped : parsePressKeyParams breaking value ≠ .trapped := by
  simp [parsePressKeyParams]

theorem parseWaitForFrontmostParams_ne_trapped :
    parseWaitForFrontmostParams breaking value ≠ .trapped := by
  simp [parseWaitForFrontmostParams]

theorem parseWaitForTextParams_ne_trapped : parseWaitForTextParams breaking value ≠ .trapped := by
  simp [parseWaitForTextParams]

theorem parseWaitUntilChangedParams_ne_trapped :
    parseWaitUntilChangedParams breaking value ≠ .trapped := by
  simp [parseWaitUntilChangedParams]

theorem parseApplicationParams_ne_trapped {launch : Bool} :
    parseApplicationParams breaking launch value ≠ .trapped := by
  intro h
  simp only [parseApplicationParams, Parsed.bind_eq_trapped_iff, object?_ne_trapped,
    Parsed.require_ne_trapped, parseRequiredSelector_ne_trapped, false_or] at h
  obtain ⟨members, -, -, -, selector, -, htimeout⟩ := h
  split at htimeout <;> simp at htimeout

end Parameters

end ActionService

/-! ## Requests with an index -/

open ActionService

/-- The requests that reach the conversion of the index that does not fit. -/
inductive OverflowingRequest (breaking : CharacterBreaking) :
    ComputerNativeMethod → JSONValue → Prop
  | moveMouse {members : Members}
      (hkeys : onlyKeys members ["x", "y", "target", "retryBudget", "motionMode", "verify"] = true)
      (hpoint : OverflowingPoint breaking members) :
      OverflowingRequest breaking .move_mouse (.object members)
  | click {members : Members}
      (hkeys : onlyKeys members
        ["x", "y", "target", "retryBudget", "button", "motionMode", "verify"] = true)
      (hpoint : OverflowingPoint breaking members) :
      OverflowingRequest breaking .click (.object members)
  | doubleClick {members : Members}
      (hkeys : onlyKeys members
        ["x", "y", "target", "retryBudget", "button", "motionMode", "verify"] = true)
      (hpoint : OverflowingPoint breaking members) :
      OverflowingRequest breaking .double_click (.object members)
  | drag {members : Members} {start finish : JSONValue}
      (hkeys : onlyKeys members
        ["from", "to", "retryBudget", "button", "motionMode", "verify"] = true)
      (hstart : members.lookup "from" = some start)
      (hfinish : members.lookup "to" = some finish)
      (hbudget : MayHaveWholeNumber 0 2 members "retryBudget")
      (htarget : OverflowingTarget breaking start ∨
        WellFormedEndpoint breaking start ∧ OverflowingTarget breaking finish) :
      OverflowingRequest breaking .drag (.object members)
  | scroll {members : Members}
      (hkeys : onlyKeys members ["vertical", "horizontal", "x", "y", "target", "retryBudget",
        "motionMode", "verify"] = true)
      (hvertical : HasDelta members "vertical") (hhorizontal : HasDelta members "horizontal")
      (hmode : MayHaveMode members) (hverify : MayHaveVerification breaking members)
      (hpoint : OverflowingPoint breaking members) :
      OverflowingRequest breaking .scroll (.object members)
  | resolveTarget {members : Members} {target : JSONValue}
      (hkeys : onlyKeys members ["target", "retryBudget"] = true)
      (htarget : members.lookup "target" = some target)
      (hoverflow : OverflowingTarget breaking target) :
      OverflowingRequest breaking .resolve_target (.object members)
  | resolveTargets {members : Members} {before after : List JSONValue} {target : JSONValue}
      (hkeys : onlyKeys members ["targets", "retryBudget"] = true)
      (htargets : members.lookup "targets" = some (.array (before ++ target :: after)))
      (hfew : (before ++ target :: after).length ≤ 100)
      (hbudget : MayHaveWholeNumber 0 2 members "retryBudget")
      (hbefore : ∀ value ∈ before, WellFormedTarget breaking value)
      (hoverflow : OverflowingTarget breaking target) :
      OverflowingRequest breaking .resolve_targets (.object members)

section Requests

variable {breaking : CharacterBreaking} {members : Members} {value : JSONValue}

theorem params_eq_trapped_iff {α : Type} {keys : List String} {f : Members → Parsed α} :
    (value.object? >>= fun object => Parsed.require (onlyKeys object keys) >>= fun _ => f object) =
      .trapped ↔ ∃ members, value = .object members ∧ onlyKeys members keys = true ∧
        f members = .trapped := by
  simp

theorem pointParams_eq_trapped_iff {keys : List String}
    {f : Members → ActionPointSpec → Parsed ActionRequest}
    (hf : ∀ members point, f members point ≠ .trapped) :
    (value.object? >>= fun object => Parsed.require (onlyKeys object keys) >>= fun _ =>
        parseActionPointSpec breaking object >>= f object) = .trapped ↔
      ∃ members, value = .object members ∧ onlyKeys members keys = true ∧
        OverflowingPoint breaking members := by
  simp [hf]

theorem parseClickParams_eq_trapped_iff {double : Bool} :
    parseClickParams breaking double value = .trapped ↔ ∃ members, value = .object members ∧
      onlyKeys members
        ["x", "y", "target", "retryBudget", "button", "motionMode", "verify"] = true ∧
      OverflowingPoint breaking members :=
  pointParams_eq_trapped_iff fun _ _ => by simp

theorem parseDragParams_eq_trapped_iff :
    parseDragParams breaking value = .trapped ↔ OverflowingRequest breaking .drag value := by
  simp only [parseDragParams, ActionService.required, Parsed.bind_eq_trapped_iff,
    object?_ne_trapped, object?_eq_accepted_iff, Parsed.require_ne_trapped,
    Parsed.require_eq_accepted_iff, Parsed.ofOption_ne_trapped, Parsed.ofOption_eq_accepted_iff,
    ActionService.parseRetryBudget_ne_trapped, parseDragEndpoint_ends.trapped,
    parseMouseButton_ne_trapped, parseMotionMode_ne_trapped, parseOptionalVerification_ne_trapped,
    Parsed.pure_eq, reduceCtorEq, false_or, and_false, exists_const, exists_false, or_false]
  constructor
  · rintro ⟨members, rfl, hkeys, start, hstart, finish, hfinish, budget, hbudget, htarget⟩
    refine .drag hkeys hstart hfinish (parseRetryBudget_ends.accepted.mp ⟨_, hbudget⟩) ?_
    rcases htarget with htarget | ⟨spec, hspec, htarget⟩
    · exact .inl htarget
    · exact .inr ⟨parseDragEndpoint_ends.accepted.mp ⟨spec, hspec⟩, htarget⟩
  · rintro ⟨⟩
    next hkeys hstart hfinish hbudget htarget =>
    obtain ⟨budget, hbudget⟩ := parseRetryBudget_ends.accepted.mpr hbudget
    refine ⟨_, rfl, hkeys, _, hstart, _, hfinish, budget, hbudget, ?_⟩
    rcases htarget with htarget | ⟨hspec, htarget⟩
    · exact .inl htarget
    · obtain ⟨spec, hspec⟩ := parseDragEndpoint_ends.accepted.mpr hspec
      exact .inr ⟨spec, hspec, htarget⟩

theorem parseScrollPoint_eq_trapped_iff :
    parseScrollPoint breaking members = .trapped ↔ OverflowingPoint breaking members := by
  cases hx : members.lookup "x" <;> cases hy : members.lookup "y" <;>
    cases htarget : members.lookup "target" <;>
      simp [parseScrollPoint, hx, hy, htarget, OverflowingPoint]

theorem parseScrollParams_eq_trapped_iff :
    parseScrollParams breaking value = .trapped ↔ OverflowingRequest breaking .scroll value := by
  refine params_eq_trapped_iff.trans (.trans (exists_congr fun members => and_congr_right fun _ =>
    and_congr_right fun _ => parseScrollDelta_ends.bind_trapped_iff fun _ =>
      parseScrollDelta_ends.bind_trapped_iff fun _ => parseMotionMode_ends.bind_trapped_iff fun _ =>
        parseOptionalVerification_ends.bind_trapped_iff fun _ =>
          Parsed.bind_accepted_eq_trapped_iff.trans parseScrollPoint_eq_trapped_iff) ⟨?_, ?_⟩)
  · rintro ⟨members, rfl, hkeys, hvertical, hhorizontal, hmode, hverify, hpoint⟩
    exact .scroll hkeys hvertical hhorizontal hmode hverify hpoint
  · rintro ⟨⟩
    next hkeys hvertical hhorizontal hmode hverify hpoint =>
    exact ⟨_, rfl, hkeys, hvertical, hhorizontal, hmode, hverify, hpoint⟩

/-! ### The host -/

theorem HostService.parseRetryBudget_eq (budget : Option JSONValue) :
    HostService.parseRetryBudget budget = ActionService.parseRetryBudget budget := by
  cases budget <;> rfl

theorem HostService.parseRetryBudget_ends {key : String} :
    Parsed.Ends (HostService.parseRetryBudget (members.lookup key))
      (MayHaveWholeNumber 0 2 members key) False := by
  rw [HostService.parseRetryBudget_eq]
  exact ActionService.parseRetryBudget_ends

theorem parseResolveTargetParams_eq_trapped_iff :
    HostService.parseResolveTargetParams breaking value = .trapped ↔
      OverflowingRequest breaking .resolve_target value := by
  simp only [HostService.parseResolveTargetParams, HostService.required,
    HostService.parseTarget_eq, HostService.parseRetryBudget_ends.trapped,
    Parsed.bind_eq_trapped_iff, object?_ne_trapped, object?_eq_accepted_iff,
    Parsed.require_ne_trapped, Parsed.require_eq_accepted_iff, Parsed.ofOption_ne_trapped,
    Parsed.ofOption_eq_accepted_iff, parseTarget_ends.trapped, Parsed.pure_eq, reduceCtorEq,
    false_or, and_false, exists_const, exists_false, or_false]
  constructor
  · rintro ⟨members, rfl, hkeys, target, htarget, hoverflow⟩
    exact .resolveTarget hkeys htarget hoverflow
  · rintro ⟨⟩
    next hkeys htarget hoverflow => exact ⟨_, rfl, hkeys, _, htarget, hoverflow⟩

theorem parseTargets_eq_trapped_iff (values : List JSONValue) :
    HostService.parseTargets breaking values = .trapped ↔ ∃ before target after,
      values = before ++ target :: after ∧ (∀ value ∈ before, WellFormedTarget breaking value) ∧
        OverflowingTarget breaking target := by
  induction values with
  | nil => simp [HostService.parseTargets]
  | cons value values ih =>
    simp only [HostService.parseTargets, HostService.parseTarget_eq, Parsed.bind_eq_trapped_iff,
      parseTarget_ends.trapped, Parsed.pure_eq, reduceCtorEq, and_false, exists_false, or_false]
    constructor
    · rintro (hoverflow | ⟨target, htarget, htrapped⟩)
      · exact ⟨[], value, values, rfl, by simp, hoverflow⟩
      · obtain ⟨before, target', after, rfl, hbefore, hoverflow⟩ := ih.mp htrapped
        refine ⟨value :: before, target', after, rfl, fun x hx => ?_, hoverflow⟩
        rcases List.mem_cons.mp hx with rfl | hx
        · exact parseTarget_ends.accepted.mp ⟨target, htarget⟩
        · exact hbefore x hx
    · rintro ⟨before, target, after, heq, hbefore, hoverflow⟩
      cases before with
      | nil =>
        obtain ⟨rfl, -⟩ := List.cons.inj heq
        exact .inl hoverflow
      | cons first before =>
        obtain ⟨rfl, rfl⟩ := List.cons.inj heq
        obtain ⟨parsed, hparsed⟩ :=
          parseTarget_ends.accepted.mpr (hbefore value List.mem_cons_self)
        exact .inr ⟨parsed, hparsed, ih.mpr ⟨before, target, after, rfl,
          fun x hx => hbefore x (List.mem_cons_of_mem _ hx), hoverflow⟩⟩

theorem parseResolveTargetsParams_eq_trapped_iff :
    HostService.parseResolveTargetsParams breaking value = .trapped ↔
      OverflowingRequest breaking .resolve_targets value := by
  refine params_eq_trapped_iff.trans ?_
  simp only [HostService.required, Parsed.bind_eq_trapped_iff, array?_ne_trapped,
    array?_eq_accepted_iff, Parsed.require_ne_trapped, Parsed.require_eq_accepted_iff,
    Parsed.ofOption_ne_trapped, Parsed.ofOption_eq_accepted_iff,
    HostService.parseRetryBudget_ends.trapped, exists_and_right,
    HostService.parseRetryBudget_ends.accepted, parseTargets_eq_trapped_iff, Parsed.pure_eq,
    reduceCtorEq, false_or, and_false, exists_const, or_false]
  constructor
  · rintro ⟨members, rfl, hkeys, _, htargets, values, rfl, hlength, hbudget, before, target,
      ⟨after, rfl⟩, hbefore, hoverflow⟩
    rw [Bool.and_eq_true, decide_eq_true_iff] at hlength
    exact .resolveTargets hkeys htargets hlength.2 hbudget hbefore hoverflow
  · rintro ⟨⟩
    next hkeys htargets hfew hbudget hbefore hoverflow =>
    refine ⟨_, rfl, hkeys, _, htargets, _, rfl, ?_, hbudget, _, _, ⟨_, rfl⟩, hbefore, hoverflow⟩
    rw [Bool.and_eq_true, decide_eq_true_iff]
    exact ⟨by simp, hfew⟩

theorem HostService.parseEmpty_ne_trapped {request : HostService.HostRequest} :
    HostService.parseEmpty request value ≠ .trapped := by
  simp [HostService.parseEmpty]

/-- A request stops the helper exactly if it reaches the conversion of an index of `2 ^ 63`; in
every other request each number that is converted fits. -/
theorem HostService.parseRequest_eq_trapped_iff (breaking : CharacterBreaking)
    (method : ComputerNativeMethod) (params : JSONValue) :
    HostService.parseRequest breaking method params = .trapped ↔
      OverflowingRequest breaking method params := by
  have hown : ∀ {α : Type} {x : Parsed α} {g : α → HostService.HostRequest ⊕ ActionRequest},
      (x = .trapped ↔ OverflowingRequest breaking method params) →
      ((x >>= fun a => .accepted (g a)) = .trapped ↔ OverflowingRequest breaking method params) :=
    fun h => Parsed.bind_accepted_eq_trapped_iff.trans h
  have hnone : ∀ {α : Type} {x : Parsed α} {g : α → HostService.HostRequest ⊕ ActionRequest},
      x ≠ .trapped → ¬ OverflowingRequest breaking method params →
      ((x >>= fun a => .accepted (g a)) = .trapped ↔ OverflowingRequest breaking method params) :=
    fun hx hno => hown (iff_of_false hx hno)
  cases method with
  | resolve_target => exact hown parseResolveTargetParams_eq_trapped_iff
  | resolve_targets => exact hown parseResolveTargetsParams_eq_trapped_iff
  | drag => exact hown parseDragParams_eq_trapped_iff
  | scroll => exact hown parseScrollParams_eq_trapped_iff
  | move_mouse =>
    refine hown ((pointParams_eq_trapped_iff fun _ _ => by simp).trans ⟨?_, ?_⟩)
    · rintro ⟨members, rfl, hkeys, hpoint⟩
      exact .moveMouse hkeys hpoint
    · rintro ⟨⟩
      next hkeys hpoint => exact ⟨_, rfl, hkeys, hpoint⟩
  | click =>
    refine hown (parseClickParams_eq_trapped_iff.trans ⟨?_, ?_⟩)
    · rintro ⟨members, rfl, hkeys, hpoint⟩
      exact .click hkeys hpoint
    · rintro ⟨⟩
      next hkeys hpoint => exact ⟨_, rfl, hkeys, hpoint⟩
  | double_click =>
    refine hown (parseClickParams_eq_trapped_iff.trans ⟨?_, ?_⟩)
    · rintro ⟨members, rfl, hkeys, hpoint⟩
      exact .doubleClick hkeys hpoint
    · rintro ⟨⟩
      next hkeys hpoint => exact ⟨_, rfl, hkeys, hpoint⟩
  | health | list_apps | active_window | observe | screenshot =>
    exact hnone parseEmpty_ne_trapped (by nofun)
  | pointer_position | release_inputs => exact hnone parseNoParams_ne_trapped (by nofun)
  | mouse_down | mouse_up => exact hnone parseButtonOnlyParams_ne_trapped (by nofun)
  | type_text => exact hnone parseTypeTextParams_ne_trapped (by nofun)
  | press_key => exact hnone parsePressKeyParams_ne_trapped (by nofun)
  | wait_for_frontmost => exact hnone parseWaitForFrontmostParams_ne_trapped (by nofun)
  | wait_for_text => exact hnone parseWaitForTextParams_ne_trapped (by nofun)
  | wait_until_changed => exact hnone parseWaitUntilChangedParams_ne_trapped (by nofun)
  | focus_app | open_app => exact hnone parseApplicationParams_ne_trapped (by nofun)

def overflowingClick : JSONValue :=
  .object [("target", .object [("by", .string "index"), ("snapshotId", .string "s"),
    ("index", .number (2 ^ 63))])]

theorem parseRequest_overflowingClick :
    HostService.parseRequest oneByOne .click overflowingClick = .trapped := by
  rfl

end Requests

end Computer
