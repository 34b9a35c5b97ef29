import ChatgptSystem.Core.Text

/-!
# Occurrences of a text in another one

What `splitFirst` and `split` find of the occurrences of a text, those that overlap included.

* `splitFirst_eq_some` — the first occurrence stands before all others;
* `split_eq` — splitting at the first occurrence, and again behind it;
* `Replaced` — the occurrences that do not overlap are replaced, taken from left to right;
* `Replaced.eq_zero_iff`, `Replaced.two_le_iff` — what their number says of all occurrences.
-/

namespace Text

variable {search replacement text before after : List Char}

theorem isPrefixOf_iff_exists : search.isPrefixOf text = true ↔ ∃ after, text = search ++ after := by
  rw [List.isPrefixOf_iff_prefix]
  exact ⟨fun ⟨after, h⟩ => ⟨after, h.symm⟩, fun ⟨after, h⟩ => ⟨after, h.symm⟩⟩

theorem splitFirst_eq_some (h : splitFirst search text = some (before, after)) :
    text = before ++ search ++ after ∧
      ∀ before' after', text = before' ++ search ++ after' → before.length ≤ before'.length := by
  induction text generalizing before with
  | nil =>
    rw [splitFirst] at h
    split at h
    next hsearch =>
      obtain ⟨rfl, rfl⟩ := Prod.mk.inj (Option.some.inj h)
      rw [List.isEmpty_iff.mp hsearch]
      exact ⟨rfl, fun _ _ _ => Nat.zero_le _⟩
    next => cases h
  | cons c text ih =>
    rw [splitFirst] at h
    split at h
    next hprefix =>
      obtain ⟨rest, hrest⟩ := isPrefixOf_iff_exists.mp hprefix
      obtain ⟨rfl, rfl⟩ := Prod.mk.inj (Option.some.inj h)
      rw [hrest, List.drop_left]
      exact ⟨rfl, fun _ _ _ => Nat.zero_le _⟩
    next hprefix =>
      obtain ⟨⟨early, late⟩, hsplit, hparts⟩ := Option.map_eq_some_iff.mp h
      obtain ⟨rfl, rfl⟩ := Prod.mk.inj hparts
      obtain ⟨rfl, hfirst⟩ := ih hsplit
      refine ⟨rfl, fun before' after' heq => ?_⟩
      cases before' with
      | nil => exact absurd (isPrefixOf_iff_exists.mpr ⟨after', heq⟩) hprefix
      | cons d before' =>
        obtain ⟨-, heq⟩ := List.cons.inj heq
        exact Nat.succ_le_succ (hfirst before' after' heq)

theorem splitFirst_eq_none_iff : splitFirst search text = none ↔ ¬ search <:+: text := by
  rw [← splitFirst_isSome_iff, Option.not_isSome_iff_eq_none]

theorem splitFrom_skip (search : List Char) (skip : ℕ) (text : List Char) :
    splitFrom search skip text = splitFrom search 0 (text.drop skip) := by
  induction text generalizing skip with
  | nil => rw [List.drop_nil, splitFrom, splitFrom]
  | cons c text ih =>
    cases skip with
    | zero => rfl
    | succ skip => rw [splitFrom, List.drop_succ_cons, ih]

theorem splitFrom_ne_nil (search : List Char) (skip : ℕ) (text : List Char) :
    splitFrom search skip text ≠ [] := by
  induction text generalizing skip with
  | nil => exact List.cons_ne_nil _ _
  | cons c text ih =>
    cases skip with
    | succ skip => exact ih skip
    | zero =>
      rw [splitFrom]
      split
      · exact List.cons_ne_nil _ _
      · split
        · exact List.cons_ne_nil _ _
        · exact List.cons_ne_nil _ _

theorem split_eq (hne : search ≠ []) (text : List Char) :
    split text search = match splitFirst search text with
      | none => [text]
      | some (before, after) => before :: split after search := by
  induction text with
  | nil =>
    rw [splitFirst, if_neg (mt List.isEmpty_iff.mp hne)]
    rfl
  | cons c text ih =>
    rw [split, splitFrom, splitFirst]
    split
    next hprefix =>
      obtain ⟨d, rest, rfl⟩ := List.exists_cons_of_ne_nil hne
      rw [splitFrom_skip]
      rfl
    next hprefix =>
      rw [← split, ih]
      cases splitFirst search text with
      | none => rfl
      | some parts => rfl

/-- The occurrences of `search` that do not overlap, taken from left to right, are replaced; they are
`n`. -/
inductive Replaced (search replacement : List Char) : List Char → List Char → ℕ → Prop where
  | none {text : List Char} (h : ¬ search <:+: text) : Replaced search replacement text text 0
  | first {before after result : List Char} {n : ℕ}
      (hfirst : ∀ before' after', before ++ search ++ after = before' ++ search ++ after' →
        before.length ≤ before'.length)
      (h : Replaced search replacement after result n) :
      Replaced search replacement (before ++ search ++ after) (before ++ replacement ++ result) (n + 1)

theorem replaced_split (hne : search ≠ []) (replacement text : List Char) :
    Replaced search replacement text (List.intercalate replacement (split text search))
      ((split text search).length - 1) := by
  induction hlength : text.length using Nat.strongRecOn generalizing text with
  | ind k ih =>
    rw [split_eq hne]
    cases hsplit : splitFirst search text with
    | none =>
      dsimp only
      rw [List.intercalate_singleton]
      exact .none (splitFirst_eq_none_iff.mp hsplit)
    | some parts =>
      obtain ⟨before, after⟩ := parts
      obtain ⟨rfl, hfirst⟩ := splitFirst_eq_some hsplit
      have hpos := List.length_pos_of_ne_nil hne
      have hrest := ih after.length (by simp only [← hlength, List.length_append]; omega) after rfl
      dsimp only
      obtain ⟨piece, pieces, hpieces⟩ := List.exists_cons_of_ne_nil (splitFrom_ne_nil search 0 after)
      rw [← split] at hpieces
      rw [hpieces] at hrest ⊢
      rw [List.intercalate_cons_cons]
      exact .first hfirst hrest

theorem Replaced.eq_zero_iff {result : List Char} {n : ℕ} (h : Replaced search replacement text result n) :
    n = 0 ↔ ¬ search <:+: text := by
  cases h with
  | none h => exact iff_of_true rfl h
  | first hfirst h => exact iff_of_false (Nat.succ_ne_zero _) (not_not_intro ⟨_, _, rfl⟩)

theorem Replaced.two_le_iff {result : List Char} {n : ℕ}
    (h : Replaced search replacement text result n) :
    2 ≤ n ↔ ∃ first second third, text = first ++ search ++ second ++ search ++ third := by
  cases h with
  | none h =>
    refine iff_of_false (by decide) ?_
    rintro ⟨first, second, third, rfl⟩
    exact h ⟨first, second ++ search ++ third, by simp⟩
  | @first before after result n hfirst h =>
    constructor
    · intro hn
      have hinfix : search <:+: after := by
        by_contra hno
        rw [h.eq_zero_iff.mpr hno] at hn
        exact absurd hn (by decide)
      obtain ⟨second, third, rfl⟩ := hinfix
      exact ⟨before, second, third, by simp⟩
    · rintro ⟨first, second, third, heq⟩
      -- Behind the first occurrence of the two stands the second one, so it stands behind the very first.
      have hle := hfirst first (second ++ search ++ third) (by rw [heq]; simp)
      have hinfix : search <:+: after := by
        have hsplit : (before ++ search) ++ after = (first ++ search) ++ (second ++ search ++ third) := by
          rw [heq]
          simp
        obtain ⟨between, -, rfl⟩ | ⟨between, hbefore, hrest⟩ := List.append_eq_append_iff.mp hsplit
        · exact ⟨between ++ second, third, by simp⟩
        · have hlength := congrArg List.length hbefore
          rw [List.length_append, List.length_append, List.length_append] at hlength
          obtain rfl := List.eq_nil_of_length_eq_zero (by omega : between.length = 0)
          exact ⟨second, third, hrest⟩
      have hne : n ≠ 0 := mt h.eq_zero_iff.mp (not_not_intro hinfix)
      omega

end Text
