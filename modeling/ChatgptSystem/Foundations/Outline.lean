import Mathlib.Data.List.Infix
import Mathlib.Data.List.Nodup
import Mathlib.Data.Int.Notation
import Mathlib.Logic.Relation
import Mathlib.Order.Basic

/-!
# Outlines of trees

The nodes of a tree are named by addresses: the address of a child ends with its place among the
children. Some nodes, listed one after another, are an outline of the tree if each of them points
to the nearest one above it.

* `Outline.Below` — the order of addresses;
* `Outline.Links` — what the pointers of a part of an outline are;
* `Outline.Links.append`, `Outline.Links.cons` — parts put together;
* `Outline.transGen_points_iff` — along the pointers an entry leads to exactly those above it.
-/

namespace Outline

/-- The places of a node and of the nodes above it, that of the highest one first. -/
abbrev Address := List ℕ

/-- An address is strictly below another one. -/
def Below (a b : Address) : Prop := b <+: a ∧ b ≠ a

variable {a b c : Address}

theorem not_below_self : ¬ Below a a := fun h => h.2 rfl

theorem Below.trans (h : Below a b) (h' : Below b c) : Below a c :=
  ⟨h'.1.trans h.1, fun heq => h'.2 (h'.1.eq_of_length_le (heq ▸ h.1.length_le))⟩

theorem Below.not_below (h : Below a b) : ¬ Below b a :=
  fun h' => not_below_self (h.trans h')

/-! ## Pointers -/

/-- The nodes of a part of an outline, each with its pointer. -/
abbrev Entries := List (Address × Option ℤ)

/-- An entry above an address such that no other one is between them. -/
structure Nearest (entries : Entries) (a : Address) (j : ℕ) : Prop where
  exists_entry : ∃ b pointer, entries[j]? = some (b, pointer) ∧ Below a b ∧
    ∀ entry ∈ entries, Below a entry.1 → entry.1 <+: b

/-- The entries stand in an outline from a position on, and the node they are all below, if there
is one, is at `outer`: each entry points to the nearest one above it, or to `outer`. -/
def Links (base : ℤ) (outer : Option ℤ) (entries : Entries) : Prop :=
  ∀ (k : ℕ) a pointer, entries[k]? = some (a, pointer) →
    (pointer = outer ∧ ∀ entry ∈ entries, ¬ Below a entry.1) ∨
    ∃ j : ℕ, j < k ∧ pointer = some (base + j) ∧ Nearest entries a j

variable {base : ℤ} {outer : Option ℤ} {xs ys : Entries}

theorem links_nil : Links base outer [] := fun k _ _ h => by simp at h

/-- Two parts, none of whose nodes is below one of the other part. -/
theorem Links.append (hx : Links base outer xs) (hy : Links (base + xs.length) outer ys)
    (hapart : ∀ x ∈ xs, ∀ y ∈ ys, ¬ Below x.1 y.1 ∧ ¬ Below y.1 x.1) :
    Links base outer (xs ++ ys) := by
  intro k a pointer hk
  rcases Nat.lt_or_ge k xs.length with hlt | hge
  · rw [List.getElem?_append_left hlt] at hk
    have hmem : (a, pointer) ∈ xs := List.mem_of_getElem? hk
    rcases hx k a pointer hk with ⟨hpointer, hnone⟩ |
      ⟨j, hj, hpointer, ⟨b, q, hb, hbelow, hnearest⟩⟩
    · refine .inl ⟨hpointer, fun entry hentry => ?_⟩
      rcases List.mem_append.mp hentry with hentry | hentry
      · exact hnone entry hentry
      · exact (hapart _ hmem entry hentry).1
    · refine .inr ⟨j, hj, hpointer, ⟨b, q, ?_, hbelow, fun entry hentry habove => ?_⟩⟩
      · rw [List.getElem?_append_left (hj.trans hlt), hb]
      · rcases List.mem_append.mp hentry with hentry | hentry
        · exact hnearest entry hentry habove
        · exact absurd habove (hapart _ hmem entry hentry).1
  · rw [List.getElem?_append_right hge] at hk
    have hmem : (a, pointer) ∈ ys := List.mem_of_getElem? hk
    rcases hy _ a pointer hk with ⟨hpointer, hnone⟩ |
      ⟨j, hj, hpointer, ⟨b, q, hb, hbelow, hnearest⟩⟩
    · refine .inl ⟨hpointer, fun entry hentry => ?_⟩
      rcases List.mem_append.mp hentry with hentry | hentry
      · exact (hapart entry hentry _ hmem).2
      · exact hnone entry hentry
    · refine .inr ⟨xs.length + j, by omega, ?_, ⟨b, q, ?_, hbelow, fun entry hentry habove => ?_⟩⟩
      · rw [hpointer, Int.natCast_add, Int.add_assoc]
      · rw [List.getElem?_append_right (Nat.le_add_right _ _), Nat.add_sub_cancel_left, hb]
      · rcases List.mem_append.mp hentry with hentry | hentry
        · exact absurd habove (hapart entry hentry _ hmem).2
        · exact hnearest entry hentry habove

/-- A node in front of the nodes below it. -/
theorem Links.cons (hy : Links (base + 1) (some base) ys) (hbelow : ∀ y ∈ ys, Below y.1 a) :
    Links base outer ((a, outer) :: ys) := by
  have hnone : ∀ y ∈ ys, ¬ Below a y.1 := fun y hmem => (hbelow y hmem).not_below
  intro k c pointer hk
  cases k with
  | zero =>
    obtain ⟨rfl, rfl⟩ := Prod.mk.inj (Option.some.inj hk)
    refine .inl ⟨rfl, fun entry hentry => ?_⟩
    rcases List.mem_cons.mp hentry with rfl | hentry
    · exact not_below_self
    · exact hnone entry hentry
  | succ k =>
    rw [List.getElem?_cons_succ] at hk
    have hmem : (c, pointer) ∈ ys := List.mem_of_getElem? hk
    rcases hy k c pointer hk with ⟨rfl, hno⟩ | ⟨j, hj, hpointer, ⟨b, q, hb, hcb, hnearest⟩⟩
    · refine .inr ⟨0, k.succ_pos, by simp, ⟨a, outer, rfl, hbelow _ hmem, fun entry hentry h => ?_⟩⟩
      rcases List.mem_cons.mp hentry with rfl | hentry
      · exact List.prefix_rfl
      · exact absurd h (hno entry hentry)
    · refine .inr ⟨j + 1, Nat.succ_lt_succ hj, ?_, ⟨b, q, hb, hcb, fun entry hentry h => ?_⟩⟩
      · rw [hpointer]
        congr 1
        push_cast
        omega
      · rcases List.mem_cons.mp hentry with rfl | hentry
        · exact (hbelow _ (List.mem_of_getElem? hb)).1
        · exact hnearest entry hentry h

/-! ## The way up -/

/-- The pointer of an entry is the position of another one. -/
def Points (entries : Entries) (k j : ℕ) : Prop :=
  ∃ a, entries[k]? = some (a, some (j : ℤ))

theorem Links.points (h : Links 0 none xs) {k j : ℕ} (hpoints : Points xs k j) :
    j < k ∧ ∃ a, (xs[k]?.map Prod.fst) = some a ∧ Nearest xs a j := by
  obtain ⟨a, hk⟩ := hpoints
  rcases h k a _ hk with ⟨hnone, -⟩ | ⟨i, hi, hpointer, hnearest⟩
  · cases hnone
  · have hindex : ((j : ℕ) : ℤ) = i := by simpa using hpointer
    obtain rfl : j = i := Int.ofNat_inj.mp hindex
    exact ⟨hi, a, by rw [hk]; rfl, hnearest⟩

/-- In an outline of distinct nodes, the pointers lead from an entry to exactly the entries that
are above it. -/
theorem transGen_points_iff (h : Links 0 none xs) (hnodup : (xs.map Prod.fst).Nodup) {k j : ℕ}
    {a b : Address} (hk : xs[k]?.map Prod.fst = some a) (hj : xs[j]?.map Prod.fst = some b) :
    Relation.TransGen (Points xs) k j ↔ Below a b := by
  constructor
  · intro hpath
    induction hpath using Relation.TransGen.head_induction_on generalizing a with
    | single hedge =>
      obtain ⟨-, a', ha', c, q, hc, hbelow, -⟩ := h.points hedge
      obtain rfl : a = a' := Option.some.inj (hk.symm.trans ha')
      rw [hc] at hj
      exact Option.some.inj hj ▸ hbelow
    | head hedge _ ih =>
      obtain ⟨-, a', ha', c, q, hc, hbelow, -⟩ := h.points hedge
      obtain rfl : a = a' := Option.some.inj (hk.symm.trans ha')
      exact hbelow.trans (ih (by rw [hc]; rfl))
  · intro hbelow
    induction k using Nat.strong_induction_on generalizing a with
    | _ k ih =>
    obtain ⟨⟨a', pointer⟩, hentry, rfl⟩ := Option.map_eq_some_iff.mp hk
    obtain ⟨⟨b', other⟩, hother, rfl⟩ := Option.map_eq_some_iff.mp hj
    rcases h k a' pointer hentry with ⟨-, hnone⟩ | ⟨i, hi, hpointer, c, q, hc, hac, hnearest⟩
    · exact absurd hbelow (hnone _ (List.mem_of_getElem? hother))
    · have hedge : Points xs k i := ⟨a', by rw [hentry, hpointer, Int.zero_add]⟩
      have habove : b' <+: c := hnearest _ (List.mem_of_getElem? hother) hbelow
      by_cases heq : b' = c
      · -- the nearest entry above is the one that is looked for
        have hij : i = j := by
          have hlt : j < (xs.map Prod.fst).length := by
            simpa using (List.getElem?_eq_some_iff.mp hother).1
          refine ((List.getElem?_inj hlt hnodup).mp ?_).symm
          rw [List.getElem?_map, List.getElem?_map, hother, hc, heq]
          rfl
        exact .single (hij ▸ hedge)
      · exact .head hedge (ih i hi (by rw [hc]; rfl) ⟨habove, heq⟩)

end Outline
