import Mathlib.Data.Int.Notation
import Mathlib.Data.Nat.Notation
import Mathlib.Algebra.GroupWithZero.Nat

/-!
# JSON text

`JSON.stringify(value, null, 2)`, the text the services keep their durable records in, and the
access to parsed values.
-/

/-- A JSON value. The numbers the services store are integers. -/
inductive Json where
  | null
  | bool (value : Bool)
  | number (value : ℤ)
  | string (value : String)
  | array (items : List Json)
  | object (members : List (String × Json))

namespace Json

/-! ## Parsed values -/

/-- `value[name]` for a name that arrays do not have; the last member of a name counts. -/
def property? (value : Json) (name : String) : Option Json :=
  match value with
  | .object members => (members.reverse.find? fun member => member.1 = name).map (·.2)
  | _ => none

/-- The members of an object after an assignment: a member that is there keeps its place. -/
def setMember (members : List (String × Json)) (update : String × Json) : List (String × Json) :=
  if members.any (·.1 = update.1) then
    members.map fun member => if member.1 = update.1 then update else member
  else members ++ [update]

/-- The members of `{ ...members, ...updates }`. -/
def spread (members updates : List (String × Json)) : List (String × Json) :=
  updates.foldl setMember members

def text? : Json → Option String
  | .string text => some text
  | _ => none

def items? : Json → Option (List Json)
  | .array items => some items
  | _ => none

theorem property?_setMember (members : List (String × Json)) (update : String × Json) (name : String) :
    (object (setMember members update)).property? name =
      if name = update.1 then some update.2 else (object members).property? name := by
  rw [property?, property?, setMember]
  split
  next hany =>
    induction members with
    | nil => cases hany
    | cons member members ih =>
      rw [List.map_cons, List.reverse_cons, List.reverse_cons, List.find?_append, List.find?_append,
        Option.map_or, Option.map_or]
      by_cases hlater : members.any (·.1 = update.1) = true
      · rw [ih hlater]
        by_cases hname : name = update.1
        · rw [if_pos hname, if_pos hname, Option.some_or]
        rw [if_neg hname, if_neg hname]
        by_cases hmember : member.1 = update.1 <;> simp [hmember, Ne.symm hname]
      · have hkept : members.map (fun member => if member.1 = update.1 then update else member) =
            members := by
          refine (List.map_congr_left fun m hm => if_neg fun heq => hlater ?_).trans (List.map_id _)
          exact List.any_eq_true.mpr ⟨m, hm, decide_eq_true heq⟩
        have hmember : member.1 = update.1 := by simpa [hlater] using hany
        rw [hkept]
        by_cases hname : name = update.1
        · have hnone : members.reverse.find? (fun member => member.1 = name) = none := by
            rw [List.find?_eq_none]
            intro m hm heq
            refine hlater (List.any_eq_true.mpr ⟨m, List.mem_reverse.mp hm, ?_⟩)
            simpa [hname] using heq
          rw [hnone, if_pos hname]
          simp [hmember, hname]
        · rw [if_neg hname]
          simp [hmember, Ne.symm hname]
  next hany =>
    rw [List.reverse_append, List.reverse_singleton, List.singleton_append]
    by_cases hname : name = update.1
    · rw [if_pos hname, List.find?_cons_of_pos (by simp [hname])]
      rfl
    · rw [if_neg hname, List.find?_cons_of_neg (by simp [Ne.symm hname])]

mutual

def beq : Json → Json → Bool
  | .null, .null => true
  | .bool a, .bool b => a == b
  | .number a, .number b => a == b
  | .string a, .string b => a == b
  | .array a, .array b => beqItems a b
  | .object a, .object b => beqMembers a b
  | _, _ => false

def beqItems : List Json → List Json → Bool
  | [], [] => true
  | a :: as, b :: bs => beq a b && beqItems as bs
  | _, _ => false

def beqMember : String × Json → String × Json → Bool
  | (name, a), (name', b) => name == name' && beq a b

def beqMembers : List (String × Json) → List (String × Json) → Bool
  | [], [] => true
  | a :: as, b :: bs => beqMember a b && beqMembers as bs
  | _, _ => false

end

mutual

theorem eq_of_beq {a b : Json} (h : beq a b = true) : a = b := by
  cases a <;> cases b <;> simp only [beq, Bool.false_eq_true, beq_iff_eq] at h
  · rfl
  · rw [h]
  · rw [h]
  · rw [h]
  · rw [eq_of_beqItems h]
  · rw [eq_of_beqMembers h]

theorem eq_of_beqItems {a b : List Json} (h : beqItems a b = true) : a = b := by
  cases a <;> cases b <;> simp only [beqItems, Bool.false_eq_true, Bool.and_eq_true] at h
  · rfl
  · rw [eq_of_beq h.1, eq_of_beqItems h.2]

theorem eq_of_beqMember {a b : String × Json} (h : beqMember a b = true) : a = b := by
  cases a
  cases b
  simp only [beqMember, Bool.and_eq_true, beq_iff_eq] at h
  rw [h.1, eq_of_beq h.2]

theorem eq_of_beqMembers {a b : List (String × Json)} (h : beqMembers a b = true) : a = b := by
  cases a <;> cases b <;> simp only [beqMembers, Bool.false_eq_true, Bool.and_eq_true] at h
  · rfl
  · rw [eq_of_beqMember h.1, eq_of_beqMembers h.2]

end

/-! ## The text -/

/-- The four hexadecimal digits of a `\u` escape. -/
def hex4 (n : ℕ) : List Char :=
  [n / 0x1000 % 16, n / 0x100 % 16, n / 0x10 % 16, n % 16].map Nat.digitChar

def escape (c : Char) : List Char :=
  match c.toNat with
  | 0x22 => ['\\', '"']
  | 0x5C => ['\\', '\\']
  | 0x8 => ['\\', 'b']
  | 0xC => ['\\', 'f']
  | 0xA => ['\\', 'n']
  | 0xD => ['\\', 'r']
  | 0x9 => ['\\', 't']
  | n => if n < 0x20 then ['\\', 'u'] ++ hex4 n else [c]

def quote (text : String) : List Char := '"' :: text.toList.flatMap escape ++ ['"']

def newline (depth : ℕ) : List Char := '\n' :: List.replicate (2 * depth) ' '

mutual

/-- `JSON.stringify(value, null, 2)`, for a value nested at a depth. -/
def stringify (depth : ℕ) : Json → List Char
  | .null => "null".toList
  | .bool value => (if value then "true" else "false").toList
  | .number value => (toString value).toList
  | .string value => quote value
  | .array [] => ['[', ']']
  | .array (item :: items) =>
    '[' :: newline (depth + 1) ++ stringify (depth + 1) item ++ stringifyItems (depth + 1) items ++
      newline depth ++ [']']
  | .object [] => ['\x7b', '\x7d']
  | .object (member :: members) =>
    '\x7b' :: newline (depth + 1) ++ stringifyMember (depth + 1) member ++
      stringifyMembers (depth + 1) members ++ newline depth ++ ['\x7d']

def stringifyItems (depth : ℕ) : List Json → List Char
  | [] => []
  | item :: items =>
    ',' :: newline depth ++ stringify depth item ++ stringifyItems depth items

def stringifyMember (depth : ℕ) : String × Json → List Char
  | (name, value) => quote name ++ [':', ' '] ++ stringify depth value

def stringifyMembers (depth : ℕ) : List (String × Json) → List Char
  | [] => []
  | member :: members =>
    ',' :: newline depth ++ stringifyMember depth member ++ stringifyMembers depth members

end

/-- The UTF-8 length of a record file: the record's text and a line feed. -/
@[irreducible] def byteLength (value : Json) : ℕ :=
  ((value.stringify 0 ++ ['\n']).map Char.utf8Size).sum

example : String.ofList ((Json.object [("a", .array [.number 1, .null]), ("b", .object [])]).stringify 0) =
    "\x7b\n  \"a\": [\n    1,\n    null\n  ],\n  \"b\": \x7b\x7d\n\x7d" := by
  decide +kernel

end Json
