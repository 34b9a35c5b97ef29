import Mathlib.Data.List.Infix

/-!
# Delimiters in streams

A delimiter is looked for in a stream that arrives in chunks. What may be the beginning of the
delimiter is retained; all before it can be released.

* `Delimiter.First` — the first occurrence of a delimiter;
* `Delimiter.findFirst` — the search;
* `Delimiter.released`, `Delimiter.retained` — the two parts of a stream without the delimiter;
* `Delimiter.first_append_iff` — the retained part is enough to find the delimiter.
-/

namespace Delimiter

variable {α : Type} {delimiter s p c before after : List α}

/-- What stands before the first occurrence of the delimiter, and what after it. -/
structure First (delimiter s before after : List α) : Prop where
  eq : s = before ++ delimiter ++ after
  le : ∀ before' after', s = before' ++ delimiter ++ after' → before.length ≤ before'.length

theorem First.unique {before' after' : List α} (h : First delimiter s before after)
    (h' : First delimiter s before' after') : before = before' ∧ after = after' := by
  have hlength : before.length = before'.length :=
    le_antisymm (h.le _ _ h'.eq) (h'.le _ _ h.eq)
  have heq := h.eq.symm.trans h'.eq
  rw [List.append_assoc, List.append_assoc] at heq
  obtain ⟨rfl, hrest⟩ := List.append_inj heq hlength
  exact ⟨rfl, List.append_cancel_left hrest⟩

theorem First.infix (h : First delimiter s before after) : delimiter <:+: s :=
  ⟨before, after, h.eq.symm⟩

theorem first_of_prefix (h : delimiter <+: s) : First delimiter s [] (s.drop delimiter.length) where
  eq := by
    obtain ⟨rest, rfl⟩ := h
    rw [List.drop_left, List.nil_append]
  le _ _ _ := Nat.zero_le _

theorem First.cons {a : α} (h : First delimiter s before after) (hno : ¬ delimiter <+: a :: s) :
    First delimiter (a :: s) (a :: before) after where
  eq := by rw [h.eq]; rfl
  le before' after' heq := by
    cases before' with
    | nil =>
      refine absurd ⟨after', ?_⟩ hno
      rw [heq, List.nil_append]
    | cons b before' =>
      obtain ⟨-, heq⟩ := List.cons.inj heq
      exact Nat.succ_le_succ (h.le before' after' heq)

/-! ## The search -/

section Search

variable [DecidableEq α]

def findFirst (delimiter : List α) : List α → Option (List α × List α)
  | [] => if delimiter.isEmpty then some ([], []) else none
  | a :: s =>
    if delimiter <+: a :: s then some ([], (a :: s).drop delimiter.length)
    else (findFirst delimiter s).map fun parts => (a :: parts.1, parts.2)

theorem first_of_findFirst (h : findFirst delimiter s = some (before, after)) :
    First delimiter s before after := by
  induction s generalizing before with
  | nil =>
    rw [findFirst] at h
    split at h
    next hempty =>
      obtain ⟨rfl, rfl⟩ := Prod.mk.inj (Option.some.inj h)
      rw [List.isEmpty_iff.mp hempty]
      exact first_of_prefix List.nil_prefix
    next => cases h
  | cons a s ih =>
    rw [findFirst] at h
    split at h
    next hbegins =>
      obtain ⟨rfl, rfl⟩ := Prod.mk.inj (Option.some.inj h)
      exact first_of_prefix hbegins
    next hno =>
      obtain ⟨⟨early, late⟩, hfind, hparts⟩ := Option.map_eq_some_iff.mp h
      obtain ⟨rfl, rfl⟩ := Prod.mk.inj hparts
      exact (ih hfind).cons hno

theorem findFirst_eq_none_iff : findFirst delimiter s = none ↔ ¬ delimiter <:+: s := by
  induction s with
  | nil => simp [findFirst]
  | cons a s ih =>
    rw [findFirst, List.infix_cons_iff]
    split
    next hbegins => simp [hbegins]
    next hno => rw [Option.map_eq_none_iff, ih]; simp [hno]

theorem findFirst_eq_some_iff :
    findFirst delimiter s = some (before, after) ↔ First delimiter s before after := by
  refine ⟨first_of_findFirst, fun h => ?_⟩
  cases hfind : findFirst delimiter s with
  | none => exact absurd h.infix (findFirst_eq_none_iff.mp hfind)
  | some parts =>
    obtain ⟨early, late⟩ := parts
    obtain ⟨rfl, rfl⟩ := (first_of_findFirst hfind).unique h
    rfl

end Search

/-! ## What is retained -/

/-- All but the last elements, one fewer than the delimiter has. -/
def released (delimiter p : List α) : List α := p.take (p.length - (delimiter.length - 1))

/-- The last elements, one fewer than the delimiter has. -/
def retained (delimiter p : List α) : List α := p.drop (p.length - (delimiter.length - 1))

@[simp] theorem released_append_retained : released delimiter p ++ retained delimiter p = p :=
  List.take_append_drop _ _

@[simp] theorem released_nil : released delimiter ([] : List α) = [] := List.take_nil

@[simp] theorem retained_nil : retained delimiter ([] : List α) = [] := List.drop_nil

theorem length_retained :
    (retained delimiter p).length = min (delimiter.length - 1) p.length := by
  rw [retained, List.length_drop]
  omega

theorem released_eq_nil_or (delimiter p : List α) :
    released delimiter p = [] ∨ delimiter.length ≤ (retained delimiter p).length + 1 := by
  rw [length_retained]
  by_cases hlength : p.length ≤ delimiter.length - 1
  · left
    rw [released, Nat.sub_eq_zero_of_le hlength, List.take_zero]
  · right
    omega

theorem cut_append (delimiter p c : List α) :
    (p ++ c).length - (delimiter.length - 1) = (released delimiter p).length +
      ((retained delimiter p ++ c).length - (delimiter.length - 1)) := by
  have hlength : (released delimiter p).length + (retained delimiter p).length = p.length := by
    rw [← List.length_append, released_append_retained]
  rw [List.length_append, List.length_append]
  rcases released_eq_nil_or delimiter p with hnil | hlong
  · rw [hnil, List.length_nil] at hlength ⊢
    omega
  · omega

theorem released_append (delimiter p c : List α) : released delimiter (p ++ c) =
    released delimiter p ++ released delimiter (retained delimiter p ++ c) := by
  have hsplit : p ++ c = released delimiter p ++ (retained delimiter p ++ c) := by
    rw [← List.append_assoc, released_append_retained]
  calc released delimiter (p ++ c)
      = (released delimiter p ++ (retained delimiter p ++ c)).take
          ((released delimiter p).length +
            ((retained delimiter p ++ c).length - (delimiter.length - 1))) := by
        rw [← cut_append, ← hsplit, released]
    _ = released delimiter p ++ released delimiter (retained delimiter p ++ c) :=
        List.take_length_add_append _

theorem retained_append (delimiter p c : List α) :
    retained delimiter (p ++ c) = retained delimiter (retained delimiter p ++ c) := by
  have hsplit : p ++ c = released delimiter p ++ (retained delimiter p ++ c) := by
    rw [← List.append_assoc, released_append_retained]
  calc retained delimiter (p ++ c)
      = (released delimiter p ++ (retained delimiter p ++ c)).drop
          ((released delimiter p).length +
            ((retained delimiter p ++ c).length - (delimiter.length - 1))) := by
        rw [← cut_append, ← hsplit, retained]
    _ = retained delimiter (retained delimiter p ++ c) := List.drop_length_add_append _

theorem released_prefix (hno : ¬ delimiter <:+: p) (h : p ++ c = before ++ delimiter ++ after) :
    released delimiter p <+: before := by
  have hp : released delimiter p <+: p ++ c :=
    ⟨retained delimiter p ++ c, by rw [← List.append_assoc, released_append_retained]⟩
  have hbefore : before <+: p ++ c :=
    ⟨delimiter ++ after, by rw [h, List.append_assoc]⟩
  rcases List.prefix_or_prefix_of_prefix hp hbefore with hbegins | hbegins
  · exact hbegins
  by_cases hlength : (released delimiter p).length ≤ before.length
  · exact (hbegins.eq_of_length_le hlength) ▸ List.prefix_rfl
  -- an occurrence that begins earlier ends in what has been there before the chunk
  refine absurd ?_ hno
  have hsum : (released delimiter p).length + (retained delimiter p).length = p.length := by
    rw [← List.length_append, released_append_retained]
  have hshort : (before ++ delimiter).length ≤ p.length := by
    rw [List.length_append]
    rcases released_eq_nil_or delimiter p with hnil | hlong
    · rw [hnil] at hlength
      exact absurd (Nat.zero_le _) hlength
    · omega
  have hinside : before ++ delimiter <+: p :=
    List.prefix_of_prefix_length_le ⟨after, h.symm⟩ (List.prefix_append p c) hshort
  exact (List.infix_append' before delimiter []).trans
    (by rw [List.append_nil]; exact hinside.isInfix)

/-- The delimiter is found in what has been retained and the next chunk. -/
theorem first_append_iff (hno : ¬ delimiter <:+: p) :
    First delimiter (p ++ c) before after ↔
      ∃ rest, before = released delimiter p ++ rest ∧
        First delimiter (retained delimiter p ++ c) rest after := by
  have hsplit : p ++ c = released delimiter p ++ (retained delimiter p ++ c) := by
    rw [← List.append_assoc, released_append_retained]
  constructor
  · intro h
    obtain ⟨rest, rfl⟩ := released_prefix hno h.eq
    refine ⟨rest, rfl, ?_, fun before' after' heq => ?_⟩
    · have heq := h.eq
      rw [hsplit, List.append_assoc, List.append_assoc] at heq
      rw [List.append_cancel_left heq, List.append_assoc]
    · have hle := h.le (released delimiter p ++ before') after' (by
        rw [hsplit, heq, List.append_assoc, List.append_assoc, List.append_assoc])
      simpa using hle
  · rintro ⟨rest, rfl, h⟩
    refine ⟨by rw [hsplit, h.eq]; simp only [List.append_assoc], fun before' after' heq => ?_⟩
    obtain ⟨rest', rfl⟩ := released_prefix hno heq
    rw [hsplit, List.append_assoc, List.append_assoc] at heq
    have hle := h.le rest' after' (by rw [List.append_cancel_left heq, List.append_assoc])
    simpa using hle

theorem infix_append_iff (hno : ¬ delimiter <:+: p) :
    delimiter <:+: p ++ c ↔ delimiter <:+: retained delimiter p ++ c := by
  constructor
  · rintro ⟨before, after, h⟩
    obtain ⟨rest, rfl⟩ := released_prefix hno h.symm
    refine ⟨rest, after, ?_⟩
    have hsplit : p ++ c = released delimiter p ++ (retained delimiter p ++ c) := by
      rw [← List.append_assoc, released_append_retained]
    rw [hsplit, List.append_assoc, List.append_assoc] at h
    rw [← List.append_cancel_left h, List.append_assoc]
  · intro h
    refine h.trans ⟨released delimiter p, [], ?_⟩
    rw [List.append_nil, ← List.append_assoc, released_append_retained]

end Delimiter
