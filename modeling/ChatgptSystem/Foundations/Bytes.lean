import Mathlib.Data.List.Basic

/-!
# Byte strings and terminated fields

Byte strings as lists, ASCII literals, and the fact that a field free of its terminator can be
read back from the front of any string (`terminated_inj`).
-/

abbrev Bytes : Type := List UInt8

namespace Bytes

def ascii (text : String) : Bytes :=
  text.toList.map fun c => UInt8.ofNat c.toNat

/-- A field that does not contain its terminator `z`, followed by `z`, determines both the
field and the rest. -/
theorem terminated_inj {α : Type} {z : α} {p q x y : List α} (hp : z ∉ p) (hq : z ∉ q)
    (h : p ++ z :: x = q ++ z :: y) : p = q ∧ x = y := by
  induction p generalizing q with
  | nil =>
    cases q with
    | nil => exact ⟨rfl, (List.cons.inj h).2⟩
    | cons b q => exact absurd ((List.cons.inj h).1 ▸ List.mem_cons_self) hq
  | cons a p ih =>
    cases q with
    | nil => exact absurd ((List.cons.inj h).1 ▸ List.mem_cons_self) hp
    | cons b q =>
      obtain ⟨rfl, hrest⟩ := List.cons.inj h
      obtain ⟨rfl, rfl⟩ := ih (List.not_mem_of_not_mem_cons hp)
        (List.not_mem_of_not_mem_cons hq) hrest
      exact ⟨rfl, rfl⟩

end Bytes
