import Mathlib.Computability.Language

/-!
# Regular expressions with classes of characters

Expressions over an arbitrary alphabet, their languages, and the decision whether a whole text is in
the language.

* `RegExp.language` — the language of an expression;
* `RegExp.accepts_iff` — a text is accepted exactly if it is in the language, by derivatives;
* `Language.mem_prod_iff` — texts of a product, laid out along its factors;
* `Language.mem_prod_congr` — products whose factors agree on all layouts.
-/

open Computability

/-- A regular expression. -/
inductive RegExp (α : Type) where
  | empty
  /-- One character of a class. -/
  | one (p : α → Bool)
  | seq (first second : RegExp α)
  | alt (first second : RegExp α)
  | star (r : RegExp α)

namespace RegExp

variable {α : Type}

/-- The texts that an expression matches as a whole. -/
def language : RegExp α → Language α
  | .empty => 1
  | .one p => {text | ∃ c, p c = true ∧ text = [c]}
  | .seq r s => r.language * s.language
  | .alt r s => r.language + s.language
  | .star r => (r.language)∗

/-- The empty text is in the language. -/
def nullable : RegExp α → Bool
  | .empty => true
  | .one _ => false
  | .seq r s => r.nullable && s.nullable
  | .alt r s => r.nullable || s.nullable
  | .star _ => true

/-- What may follow a character. -/
def derive (c : α) : RegExp α → RegExp α
  | .empty => .one fun _ => false
  | .one p => if p c then .empty else .one fun _ => false
  | .seq r s =>
    if r.nullable then .alt (.seq (r.derive c) s) (s.derive c) else .seq (r.derive c) s
  | .alt r s => .alt (r.derive c) (s.derive c)
  | .star r => .seq (r.derive c) (.star r)

/-- The whole text is in the language. -/
def accepts (r : RegExp α) : List α → Bool
  | [] => r.nullable
  | c :: text => (r.derive c).accepts text

theorem mem_language_one {p : α → Bool} {text : List α} :
    text ∈ (one p).language ↔ ∃ c, p c = true ∧ text = [c] := Iff.rfl

theorem nullable_iff (r : RegExp α) : r.nullable = true ↔ [] ∈ r.language := by
  induction r with
  | empty => exact iff_of_true rfl Language.nil_mem_one
  | one p => exact iff_of_false nofun (by rintro ⟨c, -, h⟩; cases h)
  | seq r s ihr ihs =>
    rw [nullable, Bool.and_eq_true, ihr, ihs, language, Language.mem_mul]
    constructor
    · rintro ⟨hr, hs⟩
      exact ⟨[], hr, [], hs, rfl⟩
    · rintro ⟨a, ha, b, hb, hab⟩
      obtain ⟨rfl, rfl⟩ := List.append_eq_nil_iff.mp hab
      exact ⟨ha, hb⟩
  | alt r s ihr ihs => rw [nullable, Bool.or_eq_true, ihr, ihs, language, Language.mem_add]
  | star r _ => exact iff_of_true rfl (Language.nil_mem_kstar _)

theorem cons_mem_kstar_iff {l : Language α} {c : α} {text : List α} :
    c :: text ∈ l∗ ↔ ∃ a b, text = a ++ b ∧ c :: a ∈ l ∧ b ∈ l∗ := by
  constructor
  · intro h
    obtain ⟨parts, hflatten, hparts⟩ := Language.mem_kstar_iff_exists_nonempty.mp h
    cases parts with
    | nil => cases hflatten
    | cons first parts =>
      obtain ⟨hfirst, hne⟩ := hparts first List.mem_cons_self
      cases first with
      | nil => exact absurd rfl hne
      | cons d first =>
        obtain ⟨rfl, rfl⟩ := List.cons.inj hflatten
        exact ⟨first, parts.flatten, rfl, hfirst,
          Language.join_mem_kstar fun y hy => (hparts y (List.mem_cons_of_mem _ hy)).1⟩
  · rintro ⟨a, b, rfl, ha, hb⟩
    obtain ⟨parts, rfl, hparts⟩ := Language.mem_kstar.mp hb
    exact Language.mem_kstar.mpr ⟨(c :: a) :: parts, rfl, List.forall_mem_cons.mpr ⟨ha, hparts⟩⟩

theorem mem_derive_iff (r : RegExp α) (c : α) (text : List α) :
    text ∈ (r.derive c).language ↔ c :: text ∈ r.language := by
  induction r generalizing text with
  | empty => exact iff_of_false (by rintro ⟨d, h, -⟩; cases h) nofun
  | one p =>
    rw [derive, mem_language_one]
    split
    next hp =>
      refine (Language.mem_one _).trans ⟨?_, ?_⟩
      · rintro rfl
        exact ⟨c, hp, rfl⟩
      · rintro ⟨d, -, h⟩
        exact (List.cons.inj h).2
    next hp =>
      refine iff_of_false (by rintro ⟨d, h, -⟩; cases h) ?_
      rintro ⟨d, hd, h⟩
      exact hp ((List.cons.inj h).1 ▸ hd)
  | seq r s ihr ihs =>
    have hseq : c :: text ∈ (seq r s).language ↔
        (∃ a b, text = a ++ b ∧ c :: a ∈ r.language ∧ b ∈ s.language) ∨
          [] ∈ r.language ∧ c :: text ∈ s.language := by
      rw [language, Language.mem_mul]
      constructor
      · rintro ⟨a, ha, b, hb, hab⟩
        cases a with
        | nil => exact .inr ⟨ha, hab ▸ hb⟩
        | cons d a =>
          obtain ⟨rfl, rfl⟩ := List.cons.inj hab
          exact .inl ⟨a, b, rfl, ha, hb⟩
      · rintro (⟨a, b, rfl, ha, hb⟩ | ⟨hnil, hs⟩)
        · exact ⟨c :: a, ha, b, hb, rfl⟩
        · exact ⟨[], hnil, c :: text, hs, rfl⟩
    have hfirst : text ∈ (seq (r.derive c) s).language ↔
        ∃ a b, text = a ++ b ∧ c :: a ∈ r.language ∧ b ∈ s.language := by
      rw [language, Language.mem_mul]
      constructor
      · rintro ⟨a, ha, b, hb, rfl⟩
        exact ⟨a, b, rfl, (ihr a).mp ha, hb⟩
      · rintro ⟨a, b, rfl, ha, hb⟩
        exact ⟨a, (ihr a).mpr ha, b, hb, rfl⟩
    rw [derive, hseq, ← nullable_iff]
    split
    next hnil =>
      rw [language, Language.mem_add, hfirst, ihs]
      exact or_congr_right (and_iff_right hnil).symm
    next hnil =>
      rw [hfirst]
      exact (or_iff_left fun h => hnil h.1).symm
  | alt r s ihr ihs => rw [derive, language, Language.mem_add, ihr, ihs, language, Language.mem_add]
  | star r ih =>
    have hstar : (star r).language = (r.language)∗ := rfl
    rw [derive, language, Language.mem_mul, hstar, cons_mem_kstar_iff]
    constructor
    · rintro ⟨a, ha, b, hb, rfl⟩
      exact ⟨a, b, rfl, (ih a).mp ha, hb⟩
    · rintro ⟨a, b, rfl, ha, hb⟩
      exact ⟨a, (ih a).mpr ha, b, hb, rfl⟩

theorem mem_language_star_one {p : α → Bool} {text : List α} :
    text ∈ (star (one p)).language ↔ ∀ c ∈ text, p c = true := by
  rw [language, Language.mem_kstar]
  constructor
  · rintro ⟨parts, rfl, hparts⟩ c hc
    obtain ⟨part, hpart, hmem⟩ := List.mem_flatten.mp hc
    obtain ⟨d, hd, rfl⟩ := hparts part hpart
    exact List.mem_singleton.mp hmem ▸ hd
  · intro h
    refine ⟨text.map fun c => [c], by simp [← List.flatMap_def], fun part hpart => ?_⟩
    obtain ⟨c, hc, rfl⟩ := List.mem_map.mp hpart
    exact ⟨c, h c hc, rfl⟩

theorem accepts_iff (r : RegExp α) (text : List α) : r.accepts text = true ↔ text ∈ r.language := by
  induction text generalizing r with
  | nil => exact nullable_iff r
  | cons c text ih => rw [accepts, ih, mem_derive_iff]

end RegExp

/-! ## Products of languages -/

namespace Language

variable {α β : Type} {text : List α}

/-- A text of a product is laid out along the factors. -/
theorem mem_prod_iff {languages : List (Language α)} : text ∈ languages.prod ↔
    ∃ parts : List (List α), parts.flatten = text ∧ List.Forall₂ (· ∈ ·) parts languages := by
  induction languages generalizing text with
  | nil =>
    rw [List.prod_nil, mem_one]
    constructor
    · rintro rfl
      exact ⟨[], rfl, .nil⟩
    · rintro ⟨parts, rfl, hparts⟩
      cases hparts
      rfl
  | cons first languages ih =>
    rw [List.prod_cons, mem_mul]
    constructor
    · rintro ⟨a, ha, b, hb, rfl⟩
      obtain ⟨parts, rfl, hparts⟩ := ih.mp hb
      exact ⟨a :: parts, rfl, .cons ha hparts⟩
    · rintro ⟨parts, rfl, hparts⟩
      cases hparts with
      | cons ha hparts => exact ⟨_, ha, _, ih.mpr ⟨_, rfl, hparts⟩, rfl⟩

/-- Two products agree on a text if their factors agree on the parts of every layout along either
of them. -/
theorem mem_prod_congr {items : List β} {l m : β → Language α}
    (h : ∀ parts : List (List α), parts.flatten = text →
      List.Forall₂ (fun part item => part ∈ l item ∨ part ∈ m item) parts items →
        List.Forall₂ (fun part item => part ∈ l item ↔ part ∈ m item) parts items) :
    text ∈ (items.map l).prod ↔ text ∈ (items.map m).prod := by
  rw [mem_prod_iff, mem_prod_iff]
  refine exists_congr fun parts => and_congr_right fun hflatten => ?_
  rw [List.forall₂_map_right_iff, List.forall₂_map_right_iff]
  constructor
  · exact fun hl => List.Forall₂.mp (fun _ _ hiff hpart => hiff.mp hpart)
      (h parts hflatten (hl.imp fun _ _ hpart => .inl hpart)) hl
  · exact fun hm => List.Forall₂.mp (fun _ _ hiff hpart => hiff.mpr hpart)
      (h parts hflatten (hm.imp fun _ _ hpart => .inr hpart)) hm

end Language
