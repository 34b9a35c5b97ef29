import Mathlib.Data.List.Chain
import Mathlib.Data.List.TakeWhile
import Mathlib.Data.Nat.Notation

/-!
# Regular expressions

The regular expressions of the source language, matched by backtracking, and `String.prototype.replace`
with the flag `g` and without it.

* `Regex` — expressions that repeat single characters only;
* `Regex.allMatches` — all matches at a position, the preferred one first;
* `Regex.Recognises` — the expression matches the texts of a language, wherever they stand;
* `Regex.search` — the leftmost match, with `search_eq_none_iff`, `search_skip` and `search_append`;
* `Regex.templateTokens`, `Regex.expand` — a replacement text with its `$` patterns;
* `Replacement` — an expression with a group in front that is kept; `Replacement.replaceAll`;
* `Replacement.replaceAll_eq_self` — a text in which the expression starts nowhere is kept.
-/

/-- A regular expression in which only a class of characters is repeated. -/
inductive Regex where
  | empty
  /-- One character of a class. -/
  | one (p : Char → Bool)
  /-- Characters of a class, as many as possible. -/
  | many (p : Char → Bool) (least : ℕ) (most : Option ℕ)
  /-- `\b`. -/
  | boundary
  | seq (first second : Regex)
  | alt (first second : Regex)

namespace Regex

/-- The characters of a word in `\b`. -/
def isWordCharacter (c : Char) : Bool := c.isAlphanum || c == '_'

/-- The character in front of what follows a match. -/
def last (before : Option Char) (matched : List Char) : Option Char :=
  matched.getLast?.or before

/-- The matches at a position behind the character `before`, each with what follows it. -/
def allMatches : Regex → Option Char → List Char → List (List Char × List Char)
  | .empty, _, text => [([], text)]
  | .one p, _, text =>
    match text with
    | c :: rest => if p c then [([c], rest)] else []
    | [] => []
  | .many p least most, _, text =>
    let run := (text.takeWhile p).take (most.getD text.length)
    (List.range (run.length + 1 - least)).map fun fewer =>
      (text.take (run.length - fewer), text.drop (run.length - fewer))
  | .boundary, before, text =>
    if before.any isWordCharacter != text.head?.any isWordCharacter then [([], text)] else []
  | .seq first second, before, text =>
    (first.allMatches before text).flatMap fun a =>
      (second.allMatches (last before a.1) a.2).map fun b => (a.1 ++ b.1, b.2)
  | .alt first second, before, text => first.allMatches before text ++ second.allMatches before text

def literal (text : List Char) : Regex :=
  text.foldr (fun c rest => .seq (.one (· == c)) rest) .empty

/-- A text of lower-case letters and signs, with the flag `i`. -/
def ignoringCase (text : List Char) : Regex :=
  text.foldr (fun c rest => .seq (.one (·.toLower == c)) rest) .empty

/-- `?`. -/
def optional (r : Regex) : Regex := .alt r .empty

/-- One of some expressions, the first one preferred. -/
def oneOf : List Regex → Regex
  | [] => .one fun _ => false
  | [r] => r
  | r :: rest => .alt r (oneOf rest)

/-! ## The language of an expression -/

/-- The matches are the texts of a language, wherever they stand. -/
def Recognises (r : Regex) (L : List Char → Prop) : Prop :=
  ∀ before text m rest, (m, rest) ∈ r.allMatches before text ↔ L m ∧ text = m ++ rest

theorem recognises_empty : Recognises .empty (· = []) := by
  intro before text m rest
  simp only [allMatches, List.mem_singleton, Prod.mk.injEq]
  exact and_congr_right fun hm => by rw [hm, List.nil_append, eq_comm]

theorem recognises_one (p : Char → Bool) : Recognises (.one p) fun m => ∃ c, p c ∧ m = [c] := by
  intro before text m rest
  cases text with
  | nil => simp +contextual [allMatches]
  | cons c text =>
    by_cases hp : p c
    · simp only [allMatches, hp, if_true, List.mem_singleton, Prod.mk.injEq]
      constructor
      · rintro ⟨rfl, rfl⟩
        exact ⟨⟨c, hp, rfl⟩, rfl⟩
      · rintro ⟨⟨d, -, rfl⟩, h⟩
        obtain ⟨rfl, rfl⟩ := List.cons.inj h
        exact ⟨rfl, rfl⟩
    · simp only [allMatches, hp]
      refine iff_of_false List.not_mem_nil ?_
      rintro ⟨⟨d, hd, rfl⟩, h⟩
      obtain ⟨rfl, -⟩ := List.cons.inj h
      exact hp hd

theorem Recognises.seq {r s : Regex} {L M : List Char → Prop} (hr : r.Recognises L)
    (hs : s.Recognises M) :
    Recognises (.seq r s) fun m => ∃ a b, L a ∧ M b ∧ m = a ++ b := by
  intro before text m rest
  simp only [allMatches, List.mem_flatMap, List.mem_map, Prod.mk.injEq]
  constructor
  · rintro ⟨⟨a, text'⟩, ha, ⟨b, rest'⟩, hb, rfl, rfl⟩
    obtain ⟨hL, rfl⟩ := (hr ..).mp ha
    obtain ⟨hM, rfl⟩ := (hs ..).mp hb
    exact ⟨⟨a, b, hL, hM, rfl⟩, (List.append_assoc ..).symm⟩
  · rintro ⟨⟨a, b, hL, hM, rfl⟩, rfl⟩
    refine ⟨(a, b ++ rest), (hr ..).mpr ⟨hL, List.append_assoc ..⟩, (b, rest), ?_, rfl, rfl⟩
    exact (hs ..).mpr ⟨hM, rfl⟩

theorem recognises_literal (text : List Char) : Recognises (literal text) (· = text) := by
  induction text with
  | nil => exact recognises_empty
  | cons c text ih =>
    intro before input m rest
    refine ((recognises_one (· == c)).seq ih before input m rest).trans (and_congr_left' ?_)
    constructor
    · rintro ⟨_, _, ⟨d, hd, rfl⟩, rfl, rfl⟩
      rw [eq_of_beq hd]
      rfl
    · rintro rfl
      exact ⟨[c], text, ⟨c, beq_self_eq_true c, rfl⟩, rfl, rfl⟩

theorem recognises_many (p : Char → Bool) (least most : ℕ) :
    Recognises (.many p least (some most)) fun m =>
      (∀ c ∈ m, p c) ∧ least ≤ m.length ∧ m.length ≤ most := by
  intro before text m rest
  simp only [allMatches, Option.getD_some, List.mem_map, List.mem_range, Prod.mk.injEq,
    List.length_take]
  constructor
  · -- A match is a part of the longest run of the class.
    rintro ⟨fewer, hfewer, rfl, rfl⟩
    obtain ⟨back, hback⟩ := List.takeWhile_prefix p (l := text)
    have htake (k : ℕ) (hk : k ≤ (text.takeWhile p).length) :
        text.take k = (text.takeWhile p).take k := by
      conv_lhs => rw [← hback, List.take_append_of_le_length hk]
    refine ⟨?_, (List.take_append_drop _ _).symm⟩
    rw [htake _ (by omega), List.length_take]
    exact ⟨fun c hc => List.mem_takeWhile_imp (List.mem_of_mem_take hc), by omega, by omega⟩
  · rintro ⟨⟨hp, hleast, hmost⟩, rfl⟩
    have hrun : m.length ≤ ((m ++ rest).takeWhile p).length := by
      rw [List.takeWhile_append_of_pos hp, List.length_append]
      omega
    refine ⟨min most ((m ++ rest).takeWhile p).length - m.length, by omega, ?_, ?_⟩
    · rw [Nat.sub_sub_self (by omega), List.take_left]
    · rw [Nat.sub_sub_self (by omega), List.drop_left]

/-- A text of a language stands somewhere in a text. -/
def Occurs (L : List Char → Prop) (text : List Char) : Prop :=
  ∃ front m back, text = front ++ m ++ back ∧ L m

section Occurs

variable {L : List Char → Prop} {front back text : List Char} {c : Char}

theorem Occurs.mono_left (front : List Char) (h : Occurs L back) : Occurs L (front ++ back) := by
  obtain ⟨a, m, b, rfl, hm⟩ := h
  exact ⟨front ++ a, m, b, by simp only [List.append_assoc], hm⟩

theorem Occurs.mono_right (h : Occurs L front) : Occurs L (front ++ back) := by
  obtain ⟨a, m, b, rfl, hm⟩ := h
  exact ⟨a, m, b ++ back, by simp only [List.append_assoc], hm⟩

theorem Occurs.of_append {m : List Char} (hm : L m) (htext : text = m ++ back) : Occurs L text :=
  ⟨[], m, back, htext, hm⟩

theorem occurs_cons_iff :
    Occurs L (c :: text) ↔ (∃ m back, L m ∧ c :: text = m ++ back) ∨ Occurs L text := by
  constructor
  · rintro ⟨front, m, back, htext, hm⟩
    cases front with
    | nil => exact .inl ⟨m, back, hm, htext⟩
    | cons d front =>
      rw [List.cons_append, List.cons_append] at htext
      exact .inr ⟨front, m, back, (List.cons.inj htext).2, hm⟩
  · rintro (⟨m, back, hm, htext⟩ | h)
    · exact .of_append hm htext
    · exact h.mono_left [c]

theorem eq_append_of_append_cons (front : List Char) {m x : List Char} (hc : c ∉ m)
    (h : front ++ c :: back = m ++ x) : ∃ y, front = m ++ y := by
  obtain ⟨y, rfl, hy⟩ | ⟨y, hy, -⟩ := List.append_eq_append_iff.mp h
  · cases y with
    | nil => exact ⟨[], by simp⟩
    | cons d y =>
      obtain ⟨rfl, -⟩ := List.cons.inj hy
      exact absurd (List.mem_append_right _ List.mem_cons_self) hc
  · exact ⟨y, hy⟩

theorem append_cons_inj {front' back' : List Char} (hfront : c ∉ front) (hfront' : c ∉ front')
    (h : front ++ c :: back = front' ++ c :: back') : front = front' ∧ back = back' := by
  obtain ⟨y, rfl⟩ := eq_append_of_append_cons front hfront' h
  obtain ⟨z, hz⟩ := eq_append_of_append_cons front' hfront h.symm
  obtain ⟨rfl, -⟩ : y = [] ∧ z = [] := by simpa using hz
  rw [List.append_nil, List.append_cancel_left_eq] at h
  exact ⟨List.append_nil _, (List.cons.inj h).2⟩

theorem occurs_append_cons (hc : ∀ m, L m → c ∉ m) :
    Occurs L (front ++ c :: back) ↔ Occurs L front ∨ Occurs L back := by
  constructor
  · induction front with
    | nil =>
      rw [List.nil_append, occurs_cons_iff]
      rintro (⟨m, x, hm, hx⟩ | h)
      · exact .inl (.of_append hm (eq_append_of_append_cons [] (hc m hm) hx).choose_spec)
      · exact .inr h
    | cons d front ih =>
      rw [List.cons_append, occurs_cons_iff]
      rintro (⟨m, x, hm, hx⟩ | h)
      · obtain ⟨y, hy⟩ := eq_append_of_append_cons (d :: front) (hc m hm) hx
        exact .inl (.of_append hm hy)
      · exact (ih h).imp_left fun h => h.mono_left [d]
  · rintro (h | h)
    · exact h.mono_right
    · exact Occurs.mono_left front (h.mono_left [c])

end Occurs

/-! ## The leftmost match -/

/-- The leftmost match behind the character `before`: the text in front of it, its own and what
follows it. -/
def search (r : Regex) : Option Char → List Char → Option (List Char × List Char × List Char)
  | before, [] => (r.allMatches before []).head?.map fun found => ([], found)
  | before, c :: text =>
    match (r.allMatches before (c :: text)).head? with
    | some found => some ([], found)
    | none => (r.search (some c) text).map fun found => (c :: found.1, found.2)

/-- `expression.test(text)`. -/
def test (r : Regex) (text : List Char) : Bool := (r.search none text).isSome

section Search

variable {r : Regex} {L : List Char → Prop} {before : Option Char} {text : List Char}

section

variable (hr : r.Recognises L)

include hr

theorem head_eq_none_iff :
    (r.allMatches before text).head? = none ↔ ∀ m rest, L m → text ≠ m ++ rest := by
  rw [List.head?_eq_none_iff, List.eq_nil_iff_forall_not_mem]
  exact ⟨fun h m rest hm htext => h (m, rest) ((hr ..).mpr ⟨hm, htext⟩),
    fun h found hfound => h _ _ ((hr ..).mp hfound).1 ((hr ..).mp hfound).2⟩

theorem head_eq_some_iff (hcode : ∀ m n, L m → L n → m <+: n → m = n) {m rest : List Char} :
    (r.allMatches before text).head? = some (m, rest) ↔ L m ∧ text = m ++ rest := by
  rw [← hr before]
  refine ⟨fun h => List.mem_of_head? h, fun h => ?_⟩
  cases hhead : (r.allMatches before text).head? with
  | none =>
    rw [List.head?_eq_none_iff] at hhead
    exact absurd (hhead ▸ h) List.not_mem_nil
  | some found =>
    obtain ⟨n, rest'⟩ := found
    obtain ⟨hn, hn'⟩ := (hr ..).mp (List.mem_of_head? hhead)
    obtain ⟨hm, hm'⟩ := (hr ..).mp h
    have hnm : n = m := by
      obtain hnm | hmn := List.prefix_or_prefix_of_prefix ⟨rest', hn'.symm⟩ ⟨rest, hm'.symm⟩
      · exact hcode n m hn hm hnm
      · exact (hcode m n hm hn hmn).symm
    subst hnm
    rw [List.append_cancel_left (hn'.symm.trans hm')]

theorem search_eq_none_iff (before : Option Char) :
    r.search before text = none ↔ ¬Occurs L text := by
  induction text generalizing before with
  | nil =>
    rw [search, Option.map_eq_none_iff, head_eq_none_iff hr]
    constructor
    · rintro h ⟨front, m, back, htext, hm⟩
      obtain ⟨hfront, rfl⟩ := List.append_eq_nil_iff.mp htext.symm
      obtain ⟨rfl, rfl⟩ := List.append_eq_nil_iff.mp hfront
      exact h [] [] hm rfl
    · intro h m rest hm htext
      exact h (.of_append hm htext)
  | cons c text ih =>
    rw [occurs_cons_iff, not_or, ← ih (some c), search]
    cases hhead : (r.allMatches before (c :: text)).head? with
    | none =>
      have hnone := (head_eq_none_iff hr).mp hhead
      rw [Option.map_eq_none_iff, iff_and_self]
      rintro - ⟨m, back, hm, htext⟩
      exact hnone m back hm htext
    | some found =>
      obtain ⟨hm, htext⟩ := (hr ..).mp (List.mem_of_head? hhead)
      refine iff_of_false nofun fun h => h.1 ⟨_, _, hm, htext⟩

theorem search_eq_some {front m back : List Char}
    (h : r.search before text = some (front, m, back)) : text = front ++ m ++ back ∧ L m := by
  induction text generalizing before front with
  | nil =>
    rw [search, Option.map_eq_some_iff] at h
    obtain ⟨found, hfound, heq⟩ := h
    obtain ⟨hm, htext⟩ := (hr ..).mp (List.mem_of_head? hfound)
    cases heq
    exact ⟨htext, hm⟩
  | cons c text ih =>
    rw [search] at h
    cases hhead : (r.allMatches before (c :: text)).head? with
    | some found =>
      rw [hhead] at h
      obtain ⟨hm, htext⟩ := (hr ..).mp (List.mem_of_head? hhead)
      cases h
      exact ⟨htext, hm⟩
    | none =>
      rw [hhead] at h
      obtain ⟨⟨front', found⟩, hfound, heq⟩ := Option.map_eq_some_iff.mp h
      cases heq
      obtain ⟨htext, hm⟩ := ih hfound
      exact ⟨congrArg (c :: ·) htext, hm⟩

/-- The text in front of a character that is in no match, and in which there is no match, is
passed over. -/
theorem search_skip {c : Char} (hc : ∀ m, L m → c ∉ m) {front : List Char}
    (hfront : ¬Occurs L front) :
    r.search before (front ++ c :: text) =
      (r.search (some c) text).map fun found => (front ++ c :: found.1, found.2) := by
  induction front generalizing before with
  | nil =>
    have hhead : (r.allMatches before (c :: text)).head? = none := by
      refine (head_eq_none_iff hr).mpr fun m rest hm htext => ?_
      cases m with
      | nil => exact hfront (.of_append hm rfl)
      | cons d m => exact hc _ hm ((List.cons.inj htext).1 ▸ List.mem_cons_self)
    rw [List.nil_append, search, hhead]
    rfl
  | cons d front ih =>
    rw [occurs_cons_iff, not_or] at hfront
    have hhead : (r.allMatches before (d :: (front ++ c :: text))).head? = none := by
      refine (head_eq_none_iff hr).mpr fun m rest hm htext => ?_
      obtain ⟨x, hx⟩ := eq_append_of_append_cons (d :: front) (hc m hm) htext
      exact hfront.1 ⟨m, x, hm, hx⟩
    rw [List.cons_append, search, hhead, ih hfront.2, Option.map_map]
    rfl

/-- A match in front of a character that is in no match is found there. -/
theorem search_append (hcode : ∀ m n, L m → L n → m <+: n → m = n) {c : Char}
    (hc : ∀ m, L m → c ∉ m) {back front m rest : List Char}
    (h : r.search before text = some (front, m, rest)) :
    r.search before (text ++ c :: back) = some (front, m, rest ++ c :: back) := by
  induction text generalizing before front with
  | nil =>
    rw [search, Option.map_eq_some_iff] at h
    obtain ⟨found, hfound, heq⟩ := h
    obtain ⟨hm, htext⟩ := (hr ..).mp (List.mem_of_head? hfound)
    cases heq
    have hhead : (r.allMatches before (c :: back)).head? = some (m, rest ++ c :: back) :=
      (head_eq_some_iff hr hcode).mpr ⟨hm, by rw [← List.append_assoc, ← htext, List.nil_append]⟩
    rw [List.nil_append, search, hhead]
  | cons d text ih =>
    rw [search] at h
    cases hhead : (r.allMatches before (d :: text)).head? with
    | some found =>
      rw [hhead] at h
      obtain ⟨hm, htext⟩ := (hr ..).mp (List.mem_of_head? hhead)
      cases h
      have hhead' : (r.allMatches before (d :: (text ++ c :: back))).head? =
          some (m, rest ++ c :: back) :=
        (head_eq_some_iff hr hcode).mpr
          ⟨hm, by rw [← List.append_assoc, ← htext, List.cons_append]⟩
      rw [List.cons_append, search, hhead']
    | none =>
      rw [hhead] at h
      obtain ⟨⟨front', found⟩, hfound, heq⟩ := Option.map_eq_some_iff.mp h
      cases heq
      have hhead' : (r.allMatches before (d :: (text ++ c :: back))).head? = none := by
        refine (head_eq_none_iff hr).mpr fun n x hn htext => ?_
        obtain ⟨y, hy⟩ := eq_append_of_append_cons (d :: text) (hc n hn) htext
        exact (head_eq_none_iff hr).mp hhead n y hn hy
      rw [List.cons_append, search, hhead', ih hfound]
      rfl

end

end Search

/-! ## Replacement texts -/

/-- A part of a replacement text, for an expression without groups. -/
inductive Token where
  | literal (c : Char)
  /-- `$$`: a dollar sign. -/
  | dollar
  /-- `$&`: the match. -/
  | matched
  /-- A dollar sign and a backtick: the text in front of the match. -/
  | front
  /-- A dollar sign and an apostrophe: the text behind the match. -/
  | back
  deriving DecidableEq

namespace Token

/-- How a part is written. -/
def source : Token → List Char
  | .literal c => [c]
  | .dollar => ['$', '$']
  | .matched => ['$', '&']
  | .front => ['$', '\x60']
  | .back => ['$', '\x27']

/-- What a part stands for. -/
def text (front m back : List Char) : Token → List Char
  | .literal c => [c]
  | .dollar => ['$']
  | .matched => m
  | .front => front
  | .back => back

end Token

/-- The part that a dollar sign and a character make up. -/
def special (c : Char) : Option Token :=
  if c = '$' then some .dollar
  else if c = '&' then some .matched
  else if c = '\x60' then some .front
  else if c = '\x27' then some .back
  else none

def templateTokens : List Char → List Token
  | [] => []
  | [c] => [.literal c]
  | c :: d :: rest =>
    match if c = '$' then special d else none with
    | some token => token :: templateTokens rest
    | none => .literal c :: templateTokens (d :: rest)

/-- The text that a replacement text stands for, at a match. -/
def expand (front m back template : List Char) : List Char :=
  (templateTokens template).flatMap (Token.text front m back)

/-- `text.replace(expression, template)`. -/
def replaceFirst (r : Regex) (template text : List Char) : List Char :=
  match r.search none text with
  | none => text
  | some (front, m, back) => front ++ expand front m back template ++ back

theorem source_special {c : Char} {token : Token} (h : special c = some token) :
    token.source = ['$', c] ∧ (token = .dollar ↔ c = '$') := by
  unfold special at h
  split_ifs at h with hdollar hmatched hfront hback <;> cases h <;> subst_vars <;> decide

theorem templateTokens_cons {c : Char} {rest : List Char} (hc : c ≠ '$') :
    templateTokens (c :: rest) = .literal c :: templateTokens rest := by
  cases rest with
  | nil => rfl
  | cons d rest => rw [templateTokens, if_neg hc]

theorem flatMap_source (template : List Char) :
    (templateTokens template).flatMap Token.source = template := by
  induction template using templateTokens.induct with
  | case1 => rfl
  | case2 c => rfl
  | case3 c d rest token htoken ih =>
    obtain ⟨rfl, hspecial⟩ : c = '$' ∧ special d = some token := by simpa using htoken
    rw [templateTokens, htoken, List.flatMap_cons, ih, (source_special hspecial).1]
    rfl
  | case4 c d rest htoken ih =>
    rw [templateTokens, htoken, List.flatMap_cons, ih]
    rfl

theorem isChain_templateTokens (template : List Char) :
    (templateTokens template).IsChain fun a b => a = .literal '$' → b ≠ .dollar := by
  induction template using templateTokens.induct with
  | case1 => exact .nil
  | case2 c => exact .singleton _
  | case3 c d rest token htoken ih =>
    obtain ⟨rfl, hspecial⟩ : c = '$' ∧ special d = some token := by simpa using htoken
    rw [templateTokens, htoken, List.isChain_cons]
    refine ⟨?_, ih⟩
    rintro b - rfl
    exact absurd (source_special hspecial).1 nofun
  | case4 c d rest htoken ih =>
    rw [templateTokens, htoken, List.isChain_cons]
    refine ⟨?_, ih⟩
    rintro b hb hc rfl
    obtain rfl := Token.literal.inj hc
    -- The next part is written with a dollar sign in front, so the character is one.
    have hd : d = '$' := by
      have hsource := flatMap_source (d :: rest)
      obtain ⟨tokens, htokens⟩ := List.head?_eq_some_iff.mp hb
      rw [htokens, List.flatMap_cons] at hsource
      exact (List.cons.inj hsource).1.symm
    rw [if_pos rfl, hd] at htoken
    exact absurd htoken (by decide)

theorem templateTokens_eq {template : List Char}
    (h : ∀ c, special c ≠ none → ¬['$', c] <:+: template) :
    templateTokens template = template.map .literal := by
  induction template using templateTokens.induct with
  | case1 => rfl
  | case2 c => rfl
  | case3 c d rest token htoken ih =>
    obtain ⟨rfl, hspecial⟩ : c = '$' ∧ special d = some token := by simpa using htoken
    exact absurd ⟨[], rest, rfl⟩ (h d (by rw [hspecial]; nofun))
  | case4 c d rest htoken ih =>
    have htail := ih fun e he hinfix => h e he (List.infix_cons hinfix)
    rw [templateTokens, htoken, htail]
    rfl

theorem not_infix_of_literal {template : List Char}
    (h : ∀ token ∈ templateTokens template, ∃ c, token = .literal c) {c : Char}
    (hc : special c ≠ none) : ¬['$', c] <:+: template := by
  induction template using templateTokens.induct with
  | case1 => exact fun hinfix => absurd hinfix.length_le (by simp)
  | case2 d => exact fun hinfix => absurd hinfix.length_le (by simp)
  | case3 d e rest token htoken ih =>
    obtain ⟨rfl, hspecial⟩ : d = '$' ∧ special e = some token := by simpa using htoken
    rw [templateTokens, htoken] at h
    obtain ⟨f, rfl⟩ := h token List.mem_cons_self
    exact absurd (source_special hspecial).1 nofun
  | case4 d e rest htoken ih =>
    rw [templateTokens, htoken] at h
    rw [List.infix_cons_iff, not_or]
    refine ⟨?_, ih fun token htoken => h token (List.mem_cons_of_mem _ htoken)⟩
    rw [List.cons_prefix_cons, List.cons_prefix_cons]
    rintro ⟨rfl, rfl, -⟩
    exact hc (by simpa using htoken)

theorem expand_eq_self {front m back template : List Char}
    (h : ∀ c, special c ≠ none → ¬['$', c] <:+: template) :
    expand front m back template = template := by
  rw [expand, templateTokens_eq h, List.flatMap_map]
  exact List.flatMap_singleton' template

end Regex

/-- An expression with a group in front, and what is put in place of the part behind the group. The
expression does not match the empty text. -/
structure Replacement where
  group : Regex
  dropped : Regex
  inserted : List Char

namespace Replacement

variable (replacement : Replacement)

/-- The preferred match at a position: the text of the group and of the part behind it. -/
def matchAt (before : Option Char) (text : List Char) : Option (List Char × List Char) :=
  ((replacement.group.allMatches before text).flatMap fun a =>
    (replacement.dropped.allMatches (Regex.last before a.1) a.2).map fun b => (a.1, b.1)).head?

/-- The text behind the character `before`, of which `skip` characters belong to a match. -/
def replaceFrom : ℕ → Option Char → List Char → List Char
  | _, _, [] => []
  | skip + 1, _, c :: rest => replaceFrom skip (some c) rest
  | 0, before, c :: rest =>
    match replacement.matchAt before (c :: rest) with
    | some (group, dropped) => group ++ replacement.inserted ++
        replaceFrom (group.length + dropped.length - 1) (some c) rest
    | none => c :: replaceFrom 0 (some c) rest

/-- `text.replace(expression, "$1" + inserted)` with the flag `g`. -/
def replaceAll (text : List Char) : List Char := replacement.replaceFrom 0 none text

variable {replacement}

theorem replaceFrom_eq_self {q : Char → Prop} {before : Option Char} {text : List Char}
    (hmatch : ∀ before c rest, (∀ b ∈ before, q b) → q c →
      replacement.matchAt before (c :: rest) = none)
    (hbefore : ∀ b ∈ before, q b) (htext : ∀ c ∈ text, q c) :
    replacement.replaceFrom 0 before text = text := by
  induction text generalizing before with
  | nil => rfl
  | cons c rest ih =>
    have hc := htext c List.mem_cons_self
    rw [replaceFrom, hmatch before c rest hbefore hc]
    refine congrArg (c :: ·) (ih (fun b hb => ?_) fun d hd => htext d (List.mem_cons_of_mem _ hd))
    rwa [← Option.some.inj hb]

theorem replaceAll_eq_self {q : Char → Prop} {text : List Char}
    (hmatch : ∀ before c rest, (∀ b ∈ before, q b) → q c →
      replacement.matchAt before (c :: rest) = none)
    (htext : ∀ c ∈ text, q c) : replacement.replaceAll text = text :=
  replaceFrom_eq_self hmatch nofun htext

end Replacement
