import ChatgptSystem.Core.Text
import Mathlib.Data.List.Dedup
import Mathlib.Data.List.Sort

/-!
# Split and sorted texts

* `Text.split_line`, `Text.split_of_notMem` — a text that is split at a character;
* `Text.sortedSet` — the elements of a `Set`, sorted;
* `Text.IsSortedSet`, `Text.isSortedSet_sortedSet` — each element once, in the order of `sort`.
-/

namespace Text

/-- The character that ends the records of Git's machine-readable output. -/
def nul : Char := '\x00'

variable {z : Char}

/-! ## Pieces -/

theorem split_of_notMem {piece : List Char} (h : z ∉ piece) : split piece [z] = [piece] := by
  unfold split
  induction piece with
  | nil => rfl
  | cons c piece ih =>
    obtain ⟨hc, hpiece⟩ := not_or.mp (mt List.mem_cons.mpr h)
    have hno : ¬ [z].isPrefixOf (c :: piece) = true := by simpa [List.isPrefixOf] using hc
    rw [splitFrom, if_neg hno, ih hpiece]

theorem split_line {piece : List Char} (h : z ∉ piece) (rest : List Char) :
    split (piece ++ z :: rest) [z] = piece :: split rest [z] := by
  unfold split
  induction piece with
  | nil =>
    have hyes : [z].isPrefixOf (z :: rest) = true := by simp [List.isPrefixOf]
    rw [List.nil_append, splitFrom, if_pos hyes]
    rfl
  | cons c piece ih =>
    obtain ⟨hc, hpiece⟩ := not_or.mp (mt List.mem_cons.mpr h)
    have hno : ¬ [z].isPrefixOf (c :: (piece ++ z :: rest)) = true := by
      simpa [List.isPrefixOf] using hc
    rw [List.cons_append, splitFrom, if_neg hno, ih hpiece]

theorem split_pieces_append {pieces : List (List Char)} (h : ∀ piece ∈ pieces, z ∉ piece)
    (rest : List Char) :
    split (pieces.flatMap (· ++ [z]) ++ rest) [z] = pieces ++ split rest [z] := by
  induction pieces with
  | nil => rfl
  | cons piece pieces ih =>
    rw [List.flatMap_cons, List.append_assoc, List.append_assoc, List.singleton_append,
      split_line (h piece List.mem_cons_self),
      ih fun piece hpiece => h piece (List.mem_cons_of_mem _ hpiece), List.cons_append]

theorem split_pieces {pieces : List (List Char)} (h : ∀ piece ∈ pieces, z ∉ piece) :
    split (pieces.flatMap (· ++ [z])) [z] = pieces ++ [[]] := by
  rw [← List.append_nil (pieces.flatMap _), split_pieces_append h]
  rfl

theorem getLast?_split_append {last : List Char} (h : z ∉ last) (front : List Char) :
    (split (front ++ z :: last) [z]).getLast? = some last := by
  induction hlength : front.length using Nat.strong_induction_on generalizing front with
  | _ n ih =>
    by_cases hz : z ∈ front
    · obtain ⟨piece, rest, rfl, hpiece⟩ := List.eq_append_cons_of_mem hz
      rw [List.append_assoc, List.cons_append, split_line hpiece, List.getLast?_cons,
        ih rest.length (by simp at hlength; omega) rest rfl]
      rfl
    · rw [split_line hz, split_of_notMem h]
      rfl

/-! ## Sets -/

/-- `[...new Set(values)].sort()`. -/
def sortedSet (values : List (List Char)) : List (List Char) :=
  values.reverse.dedup.reverse.insertionSort fun a b => sortsBefore a b

/-- The elements of a list, each of them once and in the order of `sort`. -/
structure IsSortedSet (sorted values : List (List Char)) : Prop where
  increasing : sorted.Pairwise fun a b => a ≠ b ∧ sortsBefore a b = true
  mem_iff : ∀ value, value ∈ sorted ↔ value ∈ values

instance : Std.Total fun a b : List Char => sortsBefore a b = true where
  total a b := by
    simpa [sortsBefore] using le_total (a.flatMap codeUnits) (b.flatMap codeUnits)

instance : IsTrans (List Char) fun a b => sortsBefore a b = true where
  trans a b c hab hbc := by
    simp only [sortsBefore, decide_eq_true_eq] at hab hbc ⊢
    exact le_trans hab hbc

theorem isSortedSet_sortedSet (values : List (List Char)) :
    IsSortedSet (sortedSet values) values := by
  have hperm := List.perm_insertionSort (fun a b => sortsBefore a b = true)
    values.reverse.dedup.reverse
  constructor
  · refine List.Pairwise.and ?_ (List.pairwise_insertionSort _ _)
    exact hperm.nodup_iff.mpr (List.nodup_reverse.mpr (List.nodup_dedup _))
  · intro value
    rw [sortedSet, hperm.mem_iff, List.mem_reverse, List.mem_dedup, List.mem_reverse]

end Text
