import Mathlib.Data.List.Basic
import Mathlib.Data.List.Induction
import Mathlib.Data.List.TakeWhile
import Mathlib.Data.Nat.Notation
import Mathlib.Tactic.Common
import Mathlib.Algebra.GroupWithZero.Nat

/-!
# Objects as maps

The own properties of an ordinary object of the source language, in the order in which they are
enumerated: the array indices by value, and behind them the other keys as they came in.

* `arrayIndex?` — the keys that are array indices;
* `set`, `delete` — an assignment to an own property, and the removal of some;
* `Enumerated` — the order; `Enumerated.set`, `Enumerated.delete` keep it;
* `mem_set`, `mem_delete`, `Enumerated.lookup_eq_some_iff` — what the properties are.
-/

namespace PlainObject

variable {α : Type}

/-- The value of a key that is an array index: a decimal numeral below 2^32 - 1. -/
def arrayIndex? (key : List Char) : Option ℕ :=
  let n := key.foldl (fun n c => 10 * n + (c.toNat - '0'.toNat)) 0
  if Nat.toDigits 10 n = key ∧ n < 2 ^ 32 - 1 then some n else none

/-- Whether a key is enumerated before another one that is added later. -/
def Precedes (a b : List Char) : Prop :=
  match arrayIndex? a, arrayIndex? b with
  | some m, some n => m < n
  | some _, none => True
  | none, some _ => False
  | none, none => a ≠ b

instance (a b : List Char) : Decidable (Precedes a b) := by
  unfold Precedes
  split <;> infer_instance

/-- `object[key] = value` for a key that names an own property or none. -/
def set (key : List Char) (value : α) (own : List (List Char × α)) : List (List Char × α) :=
  if own.any fun property => property.1 = key then
    own.map fun property => if property.1 = key then (key, value) else property
  else
    own.takeWhile (fun property => Precedes property.1 key) ++
      (key, value) :: own.dropWhile fun property => Precedes property.1 key

/-- `delete object[key]` for each of the keys. -/
def delete (keys : List (List Char)) (own : List (List Char × α)) : List (List Char × α) :=
  own.filter fun property => property.1 ∉ keys

/-- The properties are in the order of enumeration, and each key names one. -/
def Enumerated (own : List (List Char × α)) : Prop :=
  own.Pairwise fun p q => Precedes p.1 q.1

/-! ## The order of the keys -/

theorem arrayIndex?_injective {a b : List Char} {n : ℕ} (ha : arrayIndex? a = some n)
    (hb : arrayIndex? b = some n) : a = b := by
  have hdigits : ∀ {key : List Char}, arrayIndex? key = some n → Nat.toDigits 10 n = key := by
    intro key h
    unfold arrayIndex? at h
    dsimp only at h
    split at h
    next hkey =>
      obtain rfl := Option.some.inj h
      exact hkey.1
    next => cases h
  rw [← hdigits ha, ← hdigits hb]

theorem Precedes.ne {a b : List Char} (h : Precedes a b) : a ≠ b := by
  rintro rfl
  unfold Precedes at h
  cases ha : arrayIndex? a with
  | none => simp [ha] at h
  | some n => simp [ha] at h

theorem precedes_of_not {a b : List Char} (h : ¬ Precedes a b) (hne : a ≠ b) :
    Precedes b a ∧ ∃ n, arrayIndex? b = some n := by
  unfold Precedes at h ⊢
  cases ha : arrayIndex? a with
  | none =>
    cases hb : arrayIndex? b with
    | none => simp [ha, hb, hne] at h
    | some n => simp
  | some m =>
    cases hb : arrayIndex? b with
    | none => simp [ha, hb] at h
    | some n =>
      simp only [ha, hb, not_lt] at h
      have hdiffers : m ≠ n := fun heq => hne (arrayIndex?_injective (heq ▸ ha) hb)
      exact ⟨by simpa using by omega, n, rfl⟩

theorem Precedes.trans_of_index {a b c : List Char} {n : ℕ} (ha : arrayIndex? a = some n)
    (hab : Precedes a b) (hbc : Precedes b c) : Precedes a c := by
  unfold Precedes at hab hbc ⊢
  cases hb : arrayIndex? b <;> cases hc : arrayIndex? c <;>
    simp only [ha, hb, hc] at hab hbc ⊢
  omega

/-! ## Properties -/

section Set

variable {key : List Char} {value : α} {own : List (List Char × α)}

theorem any_key_iff : (own.any fun property => property.1 = key) = true ↔
    ∃ w, (key, w) ∈ own := by
  simp only [List.any_eq_true, decide_eq_true_eq, Prod.exists]
  constructor
  · rintro ⟨k, w, hmem, rfl⟩
    exact ⟨w, hmem⟩
  · rintro ⟨w, hmem⟩
    exact ⟨key, w, hmem, rfl⟩

theorem mem_set {k : List Char} {w : α} :
    (k, w) ∈ set key value own ↔ (k = key ∧ w = value) ∨ (k ≠ key ∧ (k, w) ∈ own) := by
  unfold set
  split
  next hany =>
    obtain ⟨old, hold⟩ := any_key_iff.mp hany
    rw [List.mem_map]
    constructor
    · rintro ⟨⟨k', w'⟩, hmem, heq⟩
      by_cases hk : k' = key
      · rw [if_pos hk] at heq
        exact .inl (Prod.mk.inj heq.symm)
      · rw [if_neg hk] at heq
        obtain ⟨rfl, rfl⟩ := Prod.mk.inj heq
        exact .inr ⟨hk, hmem⟩
    · rintro (⟨rfl, rfl⟩ | ⟨hk, hmem⟩)
      · exact ⟨(k, old), hold, if_pos rfl⟩
      · exact ⟨(k, w), hmem, if_neg hk⟩
  next hany =>
    have hmem : (k, w) ∈ own → k ≠ key := by
      rintro hmem rfl
      exact hany (any_key_iff.mpr ⟨w, hmem⟩)
    have happend : (k, w) ∈ own ↔
        (k, w) ∈ own.takeWhile (fun property => Precedes property.1 key) ∨
          (k, w) ∈ own.dropWhile (fun property => Precedes property.1 key) := by
      rw [← List.mem_append, List.takeWhile_append_dropWhile]
    rw [List.mem_append, List.mem_cons, Prod.mk.injEq]
    tauto

theorem mem_delete {keys : List (List Char)} {property : List Char × α} :
    property ∈ delete keys own ↔ property ∈ own ∧ property.1 ∉ keys := by
  simp [delete]

theorem set_of_precedes (h : ∀ property ∈ own, Precedes property.1 key) :
    set key value own = own ++ [(key, value)] := by
  have hany : ¬ (own.any fun property => property.1 = key) = true := fun hany => by
    obtain ⟨w, hmem⟩ := any_key_iff.mp hany
    exact (h _ hmem).ne rfl
  have hall : ∀ property ∈ own, decide (Precedes property.1 key) = true := fun property hmem =>
    decide_eq_true (h property hmem)
  rw [set, if_neg hany, List.takeWhile_eq_self_iff.mpr hall, List.dropWhile_eq_nil_iff.mpr hall]

theorem set_of_not_precedes (hnew : ∀ w, (key, w) ∉ own)
    (h : ∀ property ∈ own, ¬ Precedes property.1 key) :
    set key value own = (key, value) :: own := by
  have hany : ¬ (own.any fun property => property.1 = key) = true := fun hany =>
    (any_key_iff.mp hany).elim hnew
  rw [set, if_neg hany]
  cases own with
  | nil => rfl
  | cons property own =>
    have hfirst := h property List.mem_cons_self
    rw [List.takeWhile_cons_of_neg (by simpa using hfirst),
      List.dropWhile_cons_of_neg (by simpa using hfirst), List.nil_append]

theorem length_set_of_mem (h : ∃ w, (key, w) ∈ own) : (set key value own).length = own.length := by
  rw [set, if_pos (any_key_iff.mpr h), List.length_map]

theorem length_set_of_notMem (h : ∀ w, (key, w) ∉ own) :
    (set key value own).length = own.length + 1 := by
  have hany : ¬ (own.any fun property => property.1 = key) = true := fun hany =>
    (any_key_iff.mp hany).elim h
  have hlength := congrArg List.length (List.takeWhile_append_dropWhile
    (p := fun property : List Char × α => decide (Precedes property.1 key)) (l := own))
  rw [List.length_append] at hlength
  rw [set, if_neg hany, List.length_append, List.length_cons, ← hlength, Nat.add_assoc]

end Set

namespace Enumerated

variable {key : List Char} {value : α} {own : List (List Char × α)}

section

variable (h : Enumerated own)

include h

theorem delete (keys : List (List Char)) : Enumerated (delete keys own) :=
  List.Pairwise.filter _ h

theorem set (key : List Char) (value : α) : Enumerated (set key value own) := by
  unfold PlainObject.set
  split
  next =>
    refine List.pairwise_map.mpr (h.imp fun {p q} hpq => ?_)
    have hkey : ∀ p : List Char × α, (if p.1 = key then (key, value) else p).1 = p.1 := by
      intro p
      split
      next hp => exact hp.symm
      next => rfl
    rwa [hkey, hkey]
  next hany =>
    have hsplit : Enumerated (own.takeWhile (fun property => Precedes property.1 key) ++
        own.dropWhile fun property => Precedes property.1 key) := by
      rwa [List.takeWhile_append_dropWhile]
    obtain ⟨hbefore, hafter, hcross⟩ := List.pairwise_append.mp hsplit
    have hbehind : ∀ q ∈ own.dropWhile (fun property => Precedes property.1 key),
        Precedes key q.1 := by
      intro q hq
      cases hdrop : own.dropWhile (fun property => Precedes property.1 key) with
      | nil => simp [hdrop] at hq
      | cons p rest =>
        have hp : p ∈ own := (List.dropWhile_sublist _).subset (hdrop ▸ List.mem_cons_self)
        have hnot : ¬ Precedes p.1 key := fun hp => by
          have := List.head_dropWhile_not (fun property => decide (Precedes property.1 key))
            (l := own) (by simp [hdrop])
          simp [hdrop, hp] at this
        have hne : p.1 ≠ key := fun heq => hany (any_key_iff.mpr ⟨p.2, by rwa [← heq]⟩)
        obtain ⟨hkey, n, hn⟩ := precedes_of_not hnot hne
        rw [hdrop] at hq hafter
        rcases List.mem_cons.mp hq with rfl | hq
        · exact hkey
        · exact hkey.trans_of_index hn ((List.pairwise_cons.mp hafter).1 q hq)
    refine List.pairwise_append.mpr ⟨hbefore, List.pairwise_cons.mpr ⟨hbehind, hafter⟩, ?_⟩
    intro p hp q hq
    rcases List.mem_cons.mp hq with rfl | hq
    · have hprecedes := List.mem_takeWhile_imp hp
      exact of_decide_eq_true hprecedes
    · exact hcross p hp q hq

theorem eq_of_mem {v w : α} (hv : (key, v) ∈ own) (hw : (key, w) ∈ own) : v = w := by
  induction own with
  | nil => cases hv
  | cons p own ih =>
    obtain ⟨hp, hrest⟩ := List.pairwise_cons.mp h
    rcases List.mem_cons.mp hv with hfirst | hmem
    · subst hfirst
      rcases List.mem_cons.mp hw with hsame | hmem
      · exact (Prod.mk.inj hsame).2.symm
      · exact absurd rfl (hp _ hmem).ne
    · rcases List.mem_cons.mp hw with hfirst | hmem'
      · subst hfirst
        exact absurd rfl (hp _ hmem).ne
      · exact ih hrest hmem hmem'

theorem lookup_eq_some_iff : own.lookup key = some value ↔ (key, value) ∈ own := by
  rw [List.lookup_eq_some_iff]
  constructor
  · rintro ⟨before, after, rfl, -⟩
    exact List.mem_append_right _ List.mem_cons_self
  · intro hmem
    obtain ⟨before, after, rfl⟩ := List.append_of_mem hmem
    refine ⟨before, after, rfl, fun p hp => ?_⟩
    have hprecedes := (List.pairwise_append.mp h).2.2 p hp _ List.mem_cons_self
    exact bne_iff_ne.mpr hprecedes.ne.symm

theorem foldl_set :
    own.foldl (fun object property => PlainObject.set property.1 property.2 object) [] = own := by
  induction own using List.reverseRecOn with
  | nil => rfl
  | append_singleton own property ih =>
    obtain ⟨hown, -, hbehind⟩ := List.pairwise_append.mp h
    rw [List.foldl_append, ih hown, List.foldl_cons, List.foldl_nil,
      set_of_precedes fun p hp => hbehind p hp property List.mem_cons_self]

end

end Enumerated

end PlainObject
