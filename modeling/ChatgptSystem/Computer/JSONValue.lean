import Mathlib.Algebra.Order.Field.Rat

/-!
# Values between the two languages

What the TypeScript side sends to the Swift host as JSON, and how the Swift side takes a value
apart.

* `JSONValue` — a value, with the members of an object as the list of its keys and values;
* `optional` — a member that may be left out, with what can be looked up in such lists;
* `JsNumber` — the numbers of JavaScript, some of which are none of JSON;
* `Parsed` — what a Swift parser ends with;
* `CharacterBreaking` — how Swift counts the characters of a string.
-/

namespace Computer

/-- `JSONValue`. Every number of a JSON text is finite, and one number for `0` and `-0`. -/
inductive JSONValue where
  | null
  | bool (value : Bool)
  | number (value : ℚ)
  | string (value : String)
  | array (values : List JSONValue)
  | object (members : List (String × JSONValue))

abbrev Members : Type := List (String × JSONValue)

/-! ## Members -/

/-- `...(value !== undefined ? { [name]: value } : {})`. -/
def optional (name : String) : Option JSONValue → Members
  | some value => [(name, value)]
  | none => []

def onlyKeys (members : Members) (allowed : List String) : Bool :=
  members.all fun entry => allowed.contains entry.1

def sameKeys (members : Members) (keys : List String) : Bool :=
  onlyKeys members keys && keys.all fun key => (members.lookup key).isSome

section Members

variable {name key : String} {value : Option JSONValue} {xs ys : Members}
  {allowed : List String}

@[simp] theorem optional_none : optional name none = [] := rfl

@[simp] theorem lookup_optional_self : (optional name value).lookup name = value := by
  cases value <;> simp [optional]

@[simp] theorem lookup_optional_of_ne (h : key ≠ name) :
    (optional name value).lookup key = none := by
  cases value <;> simp [optional, h]

theorem lookup_cons_of_ne {entry : JSONValue} (h : key ≠ name) :
    List.lookup key ((name, entry) :: xs) = xs.lookup key := by
  rw [List.lookup_cons, beq_eq_false_iff_ne.mpr h]

@[simp] theorem onlyKeys_nil : onlyKeys [] allowed = true := rfl

@[simp] theorem onlyKeys_cons {entry : JSONValue} :
    onlyKeys ((key, entry) :: xs) allowed = (allowed.contains key && onlyKeys xs allowed) := by
  simp [onlyKeys]

@[simp] theorem onlyKeys_append :
    onlyKeys (xs ++ ys) allowed = (onlyKeys xs allowed && onlyKeys ys allowed) := by
  simp [onlyKeys]

@[simp] theorem onlyKeys_optional (h : name ∈ allowed) :
    onlyKeys (optional name value) allowed = true := by
  cases value <;> simp [onlyKeys, optional, h]

end Members

/-! ## Numbers -/

inductive JsNumber where
  | finite (value : ℚ)
  | nan
  | infinity (negative : Bool)

namespace JsNumber

/-- `Number.isInteger`, with the integer. -/
def integer? : JsNumber → Option ℤ
  | .finite value => if value.den = 1 then some value.num else none
  | _ => none

/-- What `JSON.stringify` makes of the number. -/
def toJson : JsNumber → JSONValue
  | .finite value => .number value
  | _ => .null

def value : JsNumber → ℚ
  | .finite value => value
  | _ => 0

def whole (number : JsNumber) : ℤ := number.value.num

theorem eq_of_integer? {number : JsNumber} {n : ℤ} (h : number.integer? = some n) :
    number = .finite n := by
  cases number with
  | finite value =>
    obtain ⟨hden, rfl⟩ : value.den = 1 ∧ value.num = n := by simpa [integer?] using h
    rw [show value = (value.num : ℚ) from Rat.ext rfl hden]
    rfl
  | nan => cases h
  | infinity negative => cases h

end JsNumber

/-! ## Swift parsers -/

/-- A parser returns a value or `nil`, or its program is stopped by a conversion that overflows. -/
inductive Parsed (α : Type) where
  | accepted (value : α)
  | rejected
  | trapped

namespace Parsed

variable {α β : Type}

def bind : Parsed α → (α → Parsed β) → Parsed β
  | .accepted value, f => f value
  | .rejected, _ => .rejected
  | .trapped, _ => .trapped

instance : Monad Parsed where
  pure := .accepted
  bind := .bind

/-- `guard condition else { return nil }`. -/
def require (condition : Bool) : Parsed Unit := if condition then .accepted () else .rejected

/-- `guard let value = value else { return nil }`. -/
def ofOption : Option α → Parsed α
  | some value => .accepted value
  | none => .rejected

@[simp] theorem bind_accepted (value : α) (f : α → Parsed β) :
    (Parsed.accepted value >>= f) = f value := rfl

@[simp] theorem bind_rejected (f : α → Parsed β) : (Parsed.rejected >>= f) = .rejected := rfl

@[simp] theorem pure_eq (value : α) : (pure value : Parsed α) = .accepted value := rfl

@[simp] theorem require_true : require true = .accepted () := rfl

@[simp] theorem ofOption_some (value : α) : ofOption (some value) = .accepted value := rfl

end Parsed

/-- `guard case let .object(object) = value`. -/
def JSONValue.object? : JSONValue → Parsed Members
  | .object members => .accepted members
  | _ => .rejected

/-- `guard case let .array(values) = value`. -/
def JSONValue.array? : JSONValue → Parsed (List JSONValue)
  | .array values => .accepted values
  | _ => .rejected

/-- `guard case let .string(text) = value`. -/
def JSONValue.string? : JSONValue → Parsed String
  | .string text => .accepted text
  | _ => .rejected

/-- `guard case let .number(raw) = value`. -/
def JSONValue.number? : JSONValue → Parsed ℚ
  | .number raw => .accepted raw
  | _ => .rejected

/-- `guard case let .bool(flag) = value`. -/
def JSONValue.bool? : JSONValue → Parsed Bool
  | .bool flag => .accepted flag
  | _ => .rejected

/-- `raw.rounded(.towardZero) == raw`. -/
def isWhole (raw : ℚ) : Bool := raw.den == 1

/-- `Int(raw)`, which stops the program when the integer part does not fit into 64 bits. -/
def toInt (raw : ℚ) : Parsed ℤ :=
  if -(2 ^ 63) ≤ raw.num.tdiv raw.den ∧ raw.num.tdiv raw.den < 2 ^ 63 then
    .accepted (raw.num.tdiv raw.den)
  else .trapped

theorem toInt_intCast {n : ℤ} (hlow : -(2 ^ 63) ≤ n) (hhigh : n < 2 ^ 63) :
    toInt n = .accepted n := by
  have hn : (n : ℚ).num.tdiv (n : ℚ).den = n := by simp
  rw [toInt, hn, if_pos ⟨hlow, hhigh⟩]

@[simp] theorem isWhole_intCast (n : ℤ) : isWhole n = true := by simp [isWhole]

/-! ## Characters -/

/-- How a string is broken into characters: each is made of one scalar value or more. -/
structure CharacterBreaking where
  characters : List Char → List (List Char)
  flatten_characters : ∀ text, (characters text).flatten = text
  ne_nil_of_mem : ∀ text, ∀ character ∈ characters text, character ≠ []

theorem flatten_singletons (text : List Char) : (text.map fun c => [c]).flatten = text := by
  rw [← List.flatMap_def, List.flatMap_singleton']

theorem singletons_ne_nil (text : List Char) : ∀ character ∈ text.map fun c => [c],
    character ≠ [] := by
  intro character h
  obtain ⟨c, -, rfl⟩ := List.mem_map.mp h
  exact List.cons_ne_nil c []

def oneByOne : CharacterBreaking where
  characters text := text.map fun c => [c]
  flatten_characters := flatten_singletons
  ne_nil_of_mem := singletons_ne_nil

def CharacterBreaking.count (breaking : CharacterBreaking) (text : String) : ℕ :=
  (breaking.characters text.toList).length

theorem length_le_length_flatten {groups : List (List Char)} (h : ∀ group ∈ groups, group ≠ []) :
    groups.length ≤ groups.flatten.length := by
  induction groups with
  | nil => simp
  | cons group groups ih =>
    obtain ⟨hgroup, hrest⟩ := List.forall_mem_cons.mp h
    have hpos := List.length_pos_iff.mpr hgroup
    have hle := ih hrest
    simp only [List.length_cons, List.flatten_cons, List.length_append]
    omega

theorem CharacterBreaking.count_le (breaking : CharacterBreaking) (text : String) :
    breaking.count text ≤ text.toList.length := by
  have hle := length_le_length_flatten (breaking.ne_nil_of_mem text.toList)
  rwa [breaking.flatten_characters] at hle

end Computer
