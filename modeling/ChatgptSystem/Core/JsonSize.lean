import ChatgptSystem.Core.Json
import ChatgptSystem.Core.Text
import Mathlib.Algebra.Order.BigOperators.Group.List
import Mathlib.Algebra.Order.Ring.Nat

/-!
# The length of JSON text

How many bytes the text of `JSON.stringify(value, null, 2)` has in UTF-8, from the lengths of the
parts of the value.
-/

namespace Json

def utf8Length (text : List Char) : ℕ := (Text.encode text).length

@[irreducible] def quoteBytes (text : String) : ℕ := utf8Length (quote text)

@[irreducible] def textBytes (depth : ℕ) (value : Json) : ℕ := utf8Length (value.stringify depth)

@[simp] theorem utf8Length_nil : utf8Length [] = 0 := rfl

@[simp] theorem utf8Length_cons (c : Char) (text : List Char) :
    utf8Length (c :: text) = c.utf8Size + utf8Length text := by
  rw [utf8Length, Text.encode, List.flatMap_cons, List.length_append, String.length_utf8EncodeChar]
  rfl

@[simp] theorem utf8Length_append (a b : List Char) :
    utf8Length (a ++ b) = utf8Length a + utf8Length b := by
  rw [utf8Length, Text.encode, List.flatMap_append, List.length_append]
  rfl

@[simp] theorem utf8Length_replicate (n : ℕ) (c : Char) :
    utf8Length (List.replicate n c) = n * c.utf8Size := by
  induction n with
  | zero => simp
  | succ n ih => rw [List.replicate_succ, utf8Length_cons, ih, Nat.succ_mul, Nat.add_comm]

theorem utf8ByteSize_eq (text : String) : text.utf8ByteSize = utf8Length text.toList := by
  rw [utf8Length, Text.encode, ← String.size_toByteArray, ← String.utf8Encode_toList,
    List.utf8Encode, List.size_toByteArray]

theorem utf8Length_newline (depth : ℕ) : utf8Length (newline depth) = 1 + 2 * depth := by
  rw [newline, utf8Length_cons, utf8Length_replicate]
  exact congrArg (1 + ·) (Nat.mul_one _)

theorem quoteBytes_replicate (n : ℕ) (c : Char) :
    quoteBytes (String.ofList (List.replicate n c)) = 2 + n * utf8Length (escape c) := by
  have hbody : utf8Length ((List.replicate n c).flatMap escape) = n * utf8Length (escape c) := by
    induction n with
    | zero => simp
    | succ n ih =>
      rw [List.replicate_succ, List.flatMap_cons, utf8Length_append, ih, Nat.succ_mul, Nat.add_comm]
  rw [quoteBytes, quote, String.toList_ofList, utf8Length_append, utf8Length_cons, hbody]
  simp only [utf8Length_cons, utf8Length_nil]
  have hquote : ('"').utf8Size = 1 := rfl
  omega

theorem textBytes_string (depth : ℕ) (text : String) :
    textBytes depth (.string text) = quoteBytes text := by
  rw [textBytes, stringify, quoteBytes]

theorem textBytes_number (depth : ℕ) (n : ℤ) :
    textBytes depth (.number n) = utf8Length (toString n).toList := by
  rw [textBytes, stringify]

private theorem utf8Length_stringifyItems (depth : ℕ) (items : List Json) :
    utf8Length (stringifyItems depth items) =
      (items.map fun item => 2 + 2 * depth + textBytes depth item).sum := by
  induction items with
  | nil => rw [stringifyItems]; rfl
  | cons item items ih =>
    rw [stringifyItems, utf8Length_append, utf8Length_append, utf8Length_cons, utf8Length_newline, ih,
      List.map_cons, List.sum_cons, textBytes]
    have hcomma : (',').utf8Size = 1 := rfl
    omega

theorem textBytes_array (depth : ℕ) {items : List Json} (h : items ≠ []) :
    textBytes depth (.array items) =
      2 + 2 * depth + (items.map fun item => 4 + 2 * depth + textBytes (depth + 1) item).sum := by
  cases items with
  | nil => exact absurd rfl h
  | cons item items =>
    rw [textBytes, stringify]
    simp only [utf8Length_append, utf8Length_cons, utf8Length_nil, utf8Length_newline,
      utf8Length_stringifyItems, List.map_cons, List.sum_cons]
    rw [← textBytes]
    have hopen : ('[').utf8Size = 1 := rfl
    have hclose : (']').utf8Size = 1 := rfl
    have hitems : (items.map fun item => 2 + 2 * (depth + 1) + textBytes (depth + 1) item) =
        items.map fun item => 4 + 2 * depth + textBytes (depth + 1) item :=
      List.map_congr_left fun item _ => by omega
    rw [hitems]
    omega

/-- The length of a member of an object that is nested at a depth. -/
def memberBytes (depth : ℕ) (member : String × Json) : ℕ :=
  6 + 2 * depth + quoteBytes member.1 + textBytes (depth + 1) member.2

private theorem utf8Length_stringifyMember (depth : ℕ) (member : String × Json) :
    utf8Length (stringifyMember depth member) =
      2 + quoteBytes member.1 + textBytes depth member.2 := by
  obtain ⟨name, value⟩ := member
  rw [stringifyMember]
  simp only [utf8Length_append, utf8Length_cons, utf8Length_nil]
  rw [← textBytes, ← quoteBytes]
  have hcolon : (':').utf8Size = 1 := rfl
  have hspace : (' ').utf8Size = 1 := rfl
  omega

private theorem utf8Length_stringifyMembers (depth : ℕ) (members : List (String × Json)) :
    utf8Length (stringifyMembers (depth + 1) members) = (members.map (memberBytes depth)).sum := by
  induction members with
  | nil => rw [stringifyMembers]; rfl
  | cons member members ih =>
    rw [stringifyMembers, utf8Length_append, utf8Length_append, utf8Length_cons, utf8Length_newline,
      utf8Length_stringifyMember, ih, List.map_cons, List.sum_cons, memberBytes]
    have hcomma : (',').utf8Size = 1 := rfl
    omega

theorem textBytes_object (depth : ℕ) {members : List (String × Json)} (h : members ≠ []) :
    textBytes depth (.object members) =
      2 + 2 * depth + (members.map (memberBytes depth)).sum := by
  cases members with
  | nil => exact absurd rfl h
  | cons member members =>
    rw [textBytes, stringify]
    simp only [utf8Length_append, utf8Length_cons, utf8Length_nil, utf8Length_newline,
      utf8Length_stringifyMember, utf8Length_stringifyMembers, List.map_cons, List.sum_cons,
      memberBytes]
    have hopen : ('\x7b').utf8Size = 1 := rfl
    have hclose : ('\x7d').utf8Size = 1 := rfl
    omega

theorem memberBytes_le (depth : ℕ) {members : List (String × Json)} {member : String × Json}
    (h : member ∈ members) :
    textBytes (depth + 1) member.2 ≤ (members.map (memberBytes depth)).sum := by
  have hmember : textBytes (depth + 1) member.2 ≤ memberBytes depth member := Nat.le_add_left ..
  exact hmember.trans (List.single_le_sum (fun _ _ => Nat.zero_le _) _ (List.mem_map_of_mem h))

theorem le_textBytes_object (depth : ℕ) {before after : List (String × Json)}
    {first second : String × Json} (hfirst : first ∈ before) (hsecond : second ∈ after) :
    textBytes (depth + 1) first.2 + textBytes (depth + 1) second.2 ≤
      textBytes depth (.object (before ++ after)) := by
  have hne : before ++ after ≠ [] := List.append_ne_nil_of_left_ne_nil (List.ne_nil_of_mem hfirst) _
  rw [textBytes_object depth hne, List.map_append, List.sum_append]
  have hbefore := memberBytes_le depth hfirst
  have hafter := memberBytes_le depth hsecond
  omega

end Json
