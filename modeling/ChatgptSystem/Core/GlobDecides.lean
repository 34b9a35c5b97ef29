import ChatgptSystem.Core.GlobReference

/-!
# What compiled patterns decide

The translation of a pattern, read back as a regular expression, is the sum of the expansions of
the pattern, each a product of what its parts are translated into; the parts of the translation and
those of the reference are compared one by one.

* `expand_read` — the translation and the reference in terms of the same signs;
* `parse_signs` — the expression that `new RegExp` reads from a translation;
* `decides_of_plain` — a pattern that is compiled decides the reference on the paths that no part reads
  otherwise.
-/

open Computability

namespace Glob

/-! ## The signs of the translation -/

/-- The signs of a pattern, with the `**` that the translation takes for whole segments. -/
def lex : Option CodeUnit → ℕ → ℕ → List CodeUnit → List (Sign Token)
  | _, _, _, [] => []
  | _, depth, skip + 1, c :: rest => lex (some c) depth skip rest
  | prev, depth, 0, c :: rest =>
    if c = unit '*' then
      if rest.head? = some (unit '*') ∧ (prev = none ∨ prev = some (unit '/')) ∧
          rest.tail.head? = some (unit '/') then
        .piece .deep :: lex (some c) depth 2 rest
      else if rest.head? = some (unit '*') ∧ (prev = none ∨ prev = some (unit '/')) ∧
          rest.tail = [] then
        .piece .rest :: lex (some c) depth 1 rest
      else .piece (.piece .star) :: lex (some c) depth 0 rest
    else if c = unit '?' then .piece (.piece .any) :: lex (some c) depth 0 rest
    else if c = unit '\x7b' then .opening :: lex (some c) (depth + 1) 0 rest
    else if c = unit '\x7d' ∧ depth > 0 then .closing :: lex (some c) (depth - 1) 0 rest
    else if c = unit ',' ∧ depth > 0 then .comma :: lex (some c) depth 0 rest
    else if c = unit '[' ∧ unit ']' ∈ rest ∧ classBody rest ≠ [] then
      .piece (.piece (.cls (classBody rest))) ::
        lex (some c) depth ((classBody rest).length + 1) rest
    else .piece (.piece (.char c)) :: lex (some c) depth 0 rest

def Token.source : Token → List CodeUnit
  | .deep => ['(', '?', ':', '[', '^', '/', ']', '*', '/', ')', '*'].map unit
  | .rest => ['.', '*'].map unit
  | .piece .star => ['[', '^', '/', ']', '*'].map unit
  | .piece .any => ['[', '^', '/', ']'].map unit
  | .piece (.cls body) => translateClass body
  | .piece (.char c) => escapeRegExp c

def Sign.source : Sign Token → List CodeUnit
  | .piece t => t.source
  | .opening => ['(', '?', ':'].map unit
  | .comma => [unit '|']
  | .closing => [unit ')']

def depthAfter {T : Type} : ℕ → List (Sign T) → ℕ
  | depth, [] => depth
  | depth, .opening :: signs => depthAfter (depth + 1) signs
  | depth, .closing :: signs => depthAfter (depth - 1) signs
  | depth, _ :: signs => depthAfter depth signs

def Nested {T : Type} : ℕ → List (Sign T) → Prop
  | _, [] => True
  | depth, .opening :: signs => Nested (depth + 1) signs
  | depth, .closing :: signs => depth > 0 ∧ Nested (depth - 1) signs
  | depth, _ :: signs => Nested depth signs

/-- Characters of an expansion stand for themselves, and classes end where they end. -/
def Token.WellFormed : Token → Prop
  | .piece (.char c) => c ≠ unit '*' ∧ c ≠ unit '?'
  | .piece (.cls body) => unit ']' ∉ body
  | _ => True

def Sign.WellFormed : Sign Token → Prop
  | .piece t => t.WellFormed
  | _ => True

def Token.pieces : Token → List Piece
  | .deep => [.star, .star, .char (unit '/')]
  | .rest => [.star, .star]
  | .piece p => [p]

def Sign.pieces : Sign Token → List (Sign Piece)
  | .piece t => t.pieces.map .piece
  | .opening => [.opening]
  | .comma => [.comma]
  | .closing => [.closing]

section Lex

variable {prev : Option CodeUnit} {depth skip : ℕ} {text rest : List CodeUnit} {c : CodeUnit}

theorem notMem_classBody (rest : List CodeUnit) : unit ']' ∉ classBody rest := fun hmem => by
  have h := List.mem_takeWhile_imp hmem
  simp at h

section

variable (prev : Option CodeUnit) (depth skip : ℕ) (text : List CodeUnit)

theorem lex_wellFormed : ∀ sign ∈ lex prev depth skip text, sign.WellFormed := by
  induction text generalizing prev depth skip with
  | nil => exact nofun
  | cons c rest ih =>
    cases skip with
    | succ skip => exact ih _ _ _
    | zero =>
      unfold lex
      split_ifs with hstar hdeep hrest hany hopen hclose hcomma hclass
      all_goals
        refine List.forall_mem_cons.mpr ⟨?_, ih _ _ _⟩
        first | exact trivial | exact notMem_classBody rest | exact ⟨hstar, hany⟩

theorem nested_lex : Nested depth (lex prev depth skip text) := by
  induction text generalizing prev depth skip with
  | nil => exact trivial
  | cons c rest ih =>
    cases skip with
    | succ skip => exact ih _ _ _
    | zero =>
      unfold lex
      split_ifs with hstar hdeep hrest hany hopen hclose hcomma hclass
      all_goals first | exact ih _ _ _ | exact ⟨hclose.2, ih _ _ _⟩

theorem translateFrom_eq :
    translateFrom prev depth skip text =
      ((lex prev depth skip text).flatMap Sign.source,
        depthAfter depth (lex prev depth skip text)) := by
  induction text generalizing prev depth skip with
  | nil => rfl
  | cons c rest ih =>
    cases skip with
    | succ skip => exact ih _ _ _
    | zero =>
      unfold translateFrom lex
      dsimp only
      split_ifs with hstar hdeep hrest hany hopen hclose hcomma hclass <;>
        rw [ih] <;> rfl

end

theorem read_star (depth : ℕ) (rest : List CodeUnit) :
    read depth 0 (unit '*' :: rest) = .piece .star :: read depth 0 rest := rfl

theorem read_slash (depth : ℕ) (rest : List CodeUnit) :
    read depth 0 (unit '/' :: rest) = .piece (.char (unit '/')) :: read depth 0 rest := rfl

theorem read_eq (prev : Option CodeUnit) (depth skip : ℕ) (text : List CodeUnit) :
    read depth skip text = (lex prev depth skip text).flatMap Sign.pieces := by
  induction hlength : text.length using Nat.strongRecOn generalizing prev depth skip text with
  | ind n ih =>
    cases text with
    | nil => rfl
    | cons c rest =>
      rw [List.length_cons] at hlength
      have hnext : ∀ prev depth skip, read depth skip rest =
          (lex prev depth skip rest).flatMap Sign.pieces := fun prev depth skip =>
        ih rest.length (by omega) prev depth skip rest rfl
      cases skip with
      | succ skip => exact hnext _ _ _
      | zero =>
        unfold read lex
        split_ifs with hstar hdeep hrest hany hopen hclose hcomma hclass
        · obtain ⟨hsecond, -, hslash⟩ := hdeep
          obtain ⟨_, rfl⟩ := List.head?_eq_some_iff.mp hsecond
          obtain ⟨more, rfl⟩ := List.head?_eq_some_iff.mp hslash
          rw [List.tail_cons] at *
          have hmore : more.length < n := by
            rw [← hlength, List.length_cons, List.length_cons]
            omega
          rw [read_star, read_slash, ih more.length hmore (some (unit '/')) depth 0 more rfl]
          rfl
        · obtain ⟨hsecond, -, hend⟩ := hrest
          obtain ⟨_, rfl⟩ := List.head?_eq_some_iff.mp hsecond
          obtain rfl := hend
          rfl
        all_goals
          rw [hnext (some c)]
          rfl

end Lex

/-! ## Expansions -/

section Expand

variable {T : Type} {signs : List (Sign T)}

theorem expandFrom_isSome_iff (outer : List (Choices T)) (inner : Choices T)
    (h : Nested outer.length signs) :
    (expandFrom outer inner signs).isSome ↔ depthAfter outer.length signs = 0 := by
  induction signs generalizing outer inner with
  | nil => cases outer <;> simp [expandFrom, depthAfter]
  | cons sign signs ih =>
    cases sign with
    | piece t => exact ih outer _ h
    | opening => exact ih (inner :: outer) _ h
    | comma => exact ih outer _ h
    | closing =>
      cases outer with
      | nil => exact absurd h.1 (Nat.lt_irrefl 0)
      | cons group outer => exact ih outer _ h.2

def written (tokens : List Token) : List Piece := tokens.flatMap Token.pieces

def Choices.written (choices : Choices Token) : Choices Piece :=
  ⟨choices.finished.map Glob.written, choices.current.map Glob.written⟩

theorem Choices.written_push (choices : Choices Token) (t : Token) :
    (choices.push t).written =
      ⟨choices.written.finished, choices.written.current.map (· ++ t.pieces)⟩ := by
  simp [push, written, Glob.written, Function.comp_def]

theorem Choices.written_all (choices : Choices Token) :
    choices.written.all = choices.all.map Glob.written := by simp [all, written]

theorem Choices.written_append (choices group : Choices Token) :
    (choices.append group).written = choices.written.append group.written := by
  rw [append, append, written_all, written, written]
  simp [List.map_flatMap, List.flatMap_map, Glob.written, Function.comp_def]

theorem expandFrom_pieces (outer : List (Choices Piece)) (inner : Choices Piece)
    (pieces : List Piece) (signs : List (Sign Piece)) : expandFrom outer inner (pieces.map .piece ++ signs) =
      expandFrom outer ⟨inner.finished, inner.current.map (· ++ pieces)⟩ signs := by
  induction pieces generalizing inner with
  | nil => simp
  | cons p pieces ih =>
    rw [List.map_cons, List.cons_append, expandFrom, ih]
    simp [Choices.push, Function.comp_def]

theorem expandFrom_written (outer : List (Choices Token)) (inner : Choices Token)
    (signs : List (Sign Token)) :
    expandFrom (outer.map Choices.written) inner.written (signs.flatMap Sign.pieces) =
      (expandFrom outer inner signs).map (List.map written) := by
  induction signs generalizing outer inner with
  | nil =>
    rw [List.flatMap_nil, expandFrom, expandFrom, Choices.written_all]
    cases outer <;> rfl
  | cons sign signs ih =>
    rw [List.flatMap_cons]
    cases sign with
    | piece t =>
      rw [Sign.pieces, expandFrom_pieces, ← Choices.written_push, ih, expandFrom]
    | opening => exact ih (inner :: outer) ⟨[], [[]]⟩
    | comma =>
      have hcomma := ih outer ⟨inner.all, [[]]⟩
      rw [Choices.written, ← Choices.written_all] at hcomma
      exact hcomma
    | closing =>
      cases outer with
      | nil => rfl
      | cons group outer =>
        rw [expandFrom, ← ih, Choices.written_append]
        rfl

end Expand

/-! ## Reading the translation back -/

section Parse

variable {outer : List Frame} {inner : Frame} {rest text body : List CodeUnit} {c : CodeUnit}

def notSlash (c : CodeUnit) : Bool := !inRanges [(unit '/', unit '/')] c

/-- The characters of a class as the translation reads it: `^` negates it as well. -/
def items (body : List CodeUnit) : List CodeUnit :=
  if body.head? = some (unit '!') ∨ body.head? = some (unit '^') then body.tail else body

def compiledClass (body : List CodeUnit) (c : CodeUnit) : Bool :=
  if body.head? = some (unit '!') ∨ body.head? = some (unit '^') then
    !inRanges (ranges (items body)) c
  else inRanges (ranges (items body)) c

def Ordered (body : List CodeUnit) : Prop := ∀ range ∈ ranges (items body), range.1 ≤ range.2

def Token.compiled : Token → RegExp CodeUnit
  | .deep => .star (altOf [seqOf [.star (.one notSlash), .one (· == unit '/')]])
  | .rest => .star (.one fun c => !lineTerminators.contains c)
  | .piece .star => .star (.one notSlash)
  | .piece .any => .one notSlash
  | .piece (.cls body) => .one (compiledClass body)
  | .piece (.char c) => .one (· == c)

theorem parse_skip (outer : List Frame) (inner : Frame) (before after : List CodeUnit) :
    parse outer inner before.length (before ++ after) = parse outer inner 0 after := by
  induction before with
  | nil => rfl
  | cons c before ih => exact ih

theorem parse_deep : parse outer inner 0 (Token.deep.source ++ rest) =
    parse outer (inner.push Token.deep.compiled) 0 rest := rfl

theorem parse_rest : parse outer inner 0 (Token.rest.source ++ rest) =
    parse outer (inner.push Token.rest.compiled) 0 rest := rfl

theorem parse_star : parse outer inner 0 ((Token.piece .star).source ++ rest) =
    parse outer (inner.push (Token.piece .star).compiled) 0 rest := rfl

theorem parse_opening : parse outer inner 0 (Sign.opening.source ++ rest) =
    parse (inner :: outer) ⟨[], []⟩ 0 rest := rfl

theorem parse_comma : parse outer inner 0 (Sign.comma.source ++ rest) =
    parse outer ⟨inner.alternatives, []⟩ 0 rest := rfl

theorem parse_closing (frame : Frame) :
    parse (frame :: outer) inner 0 (Sign.closing.source ++ rest) =
      parse outer (frame.push (altOf inner.alternatives)) 0 rest := rfl

theorem parse_char (h : c ≠ unit '*' ∧ c ≠ unit '?') :
    parse outer inner 0 ((Token.piece (.char c)).source ++ rest) =
      parse outer (inner.push (Token.piece (.char c)).compiled) 0 rest := by
  rw [Token.source, escapeRegExp]
  split
  next hspecial =>
    have hsyntax : c ∈ syntaxCharacters := by
      simp only [List.map_cons, List.map_nil, List.mem_cons, List.not_mem_nil, or_false] at hspecial
      rcases hspecial with rfl | rfl | rfl | rfl | rfl | rfl | rfl | rfl | rfl | rfl | rfl | rfl <;>
        decide
    have hescape : parse outer inner 0 (unit '\\' :: c :: rest) =
        if c ∈ syntaxCharacters then parse outer (inner.push (.one (· == c))) 1 (c :: rest)
        else .error .unsupported := rfl
    exact (hescape.trans (if_pos hsyntax)).trans (parse_skip outer _ [c] rest)
  next hplain =>
    have hsyntax : c ∉ syntaxCharacters := by
      intro hmem
      simp only [syntaxCharacters, List.map_cons, List.map_nil, List.mem_cons, List.not_mem_nil,
        or_false, not_or] at hmem hplain
      grind
    exact if_pos hsyntax

theorem classAtoms_escaped (h : unit ']' ∉ body) (rest : List CodeUnit) :
    let escaped := body.flatMap fun c => if c = unit '\\' then [unit '\\', unit '\\'] else [c]
    classAtoms (escaped ++ unit ']' :: rest) =
      some (body.map fun c => (c, decide (c = unit '\\')), escaped.length + 1) := by
  induction body with
  | nil => cases rest <;> rfl
  | cons c body ih =>
    have hc : c ≠ unit ']' := fun heq => h (heq ▸ List.mem_cons_self)
    have hbody := ih fun hmem => h (List.mem_cons_of_mem _ hmem)
    dsimp only at hbody ⊢
    rw [List.flatMap_cons, List.map_cons]
    by_cases hslash : c = unit '\\'
    · subst hslash
      rw [if_pos rfl, List.append_assoc, List.cons_append, List.singleton_append, classAtoms,
        if_neg (by decide), if_pos rfl, if_pos (by decide), hbody]
      simp
    · rw [if_neg hslash, List.append_assoc, List.singleton_append]
      obtain ⟨d, more, hmore⟩ := List.exists_cons_of_ne_nil (List.append_ne_nil_of_right_ne_nil
        (body.flatMap fun c => if c = unit '\\' then [unit '\\', unit '\\'] else [c])
        (List.cons_ne_nil (unit ']') rest))
      rw [hmore, classAtoms, if_neg hc, if_neg hslash, ← hmore, hbody]
      simp [hslash]

theorem classRanges_eq (h : ∀ range ∈ ranges body, range.1 ≤ range.2) :
    classRanges (body.map fun c => (c, decide (c = unit '\\'))) = .ok (ranges body) := by
  fun_induction ranges body with
  | case1 low high rest ih =>
    obtain ⟨hfirst, hrest⟩ := List.forall_mem_cons.mp h
    rw [List.map_cons, List.map_cons, List.map_cons, classRanges, if_pos ⟨rfl, by decide⟩,
      if_pos hfirst, ih hrest]
    rfl
  | case2 low dash high rest hdash ih =>
    obtain ⟨-, hrest⟩ := List.forall_mem_cons.mp h
    have hmore := ih hrest
    rw [List.map_cons, List.map_cons] at hmore
    rw [List.map_cons, List.map_cons, List.map_cons, classRanges, if_neg fun h => hdash h.1, hmore]
    rfl
  | case3 c rest hshort ih =>
    cases rest with
    | nil => rfl
    | cons d rest =>
      cases rest with
      | nil => rfl
      | cons e rest => exact absurd rfl (hshort d e rest)
  | case4 => rfl

def escapeClass (body : List CodeUnit) : List CodeUnit :=
  body.flatMap fun c => if c = unit '\\' then [unit '\\', unit '\\'] else [c]

theorem translateClass_eq (body : List CodeUnit) : translateClass body = unit '[' ::
    ((if body.head? = some (unit '!') ∨ body.head? = some (unit '^') then
      unit '^' :: escapeClass (items body) else escapeClass (items body)) ++ [unit ']']) := by
  rw [translateClass, ← escapeClass, items]
  cases body with
  | nil => rfl
  | cons c body =>
    rw [List.head?_cons, List.tail_cons]
    by_cases hbang : c = unit '!'
    · subst hbang
      rfl
    · by_cases hcaret : c = unit '^'
      · subst hcaret
        rfl
      · have hplain : ¬ (some c = some (unit '!') ∨ some c = some (unit '^')) := by
          simp [hbang, hcaret]
        have hhead : (escapeClass (c :: body)).head? ≠ some (unit '!') := by
          rw [escapeClass, List.flatMap_cons]
          split
          · exact fun h => absurd (Option.some.inj h) (by decide)
          · simpa using hbang
        rw [if_neg hplain, if_neg hplain, if_neg hhead]
        rfl

theorem items_subset (body : List CodeUnit) : items body ⊆ body := by
  unfold items
  split
  · exact List.tail_subset _
  · exact List.Subset.refl _

theorem parse_class (outer : List Frame) (inner : Frame) (rest : List CodeUnit)
    (h : unit ']' ∉ body) (hordered : Ordered body) :
    parse outer inner 0 ((Token.piece (.cls body)).source ++ rest) =
      parse outer (inner.push (Token.piece (.cls body)).compiled) 0 rest := by
  have hatoms : classAtoms (escapeClass (items body) ++ unit ']' :: rest) =
      some ((items body).map fun c => (c, decide (c = unit '\\')),
        (escapeClass (items body)).length + 1) :=
    classAtoms_escaped (fun hmem => h (items_subset body hmem)) rest
  have hranges := classRanges_eq hordered
  have hopen : ∀ {text compiled length}, parseClass text = .ok (compiled, length) →
      parse outer inner 0 (unit '[' :: text) =
        parse outer (inner.push (.one compiled)) length text := fun hparse => by
    rw [parse.eq_def]
    dsimp only
    rw [if_neg (by decide), if_neg (by decide), if_neg (by decide), if_neg (by decide), if_pos rfl,
      hparse]
  rw [Token.source, translateClass_eq, Token.compiled]
  by_cases hnegated : body.head? = some (unit '!') ∨ body.head? = some (unit '^')
  · have hclass : compiledClass body = fun c => !inRanges (ranges (items body)) c :=
      funext fun c => if_pos hnegated
    have hparse : parseClass (unit '^' :: (escapeClass (items body) ++ unit ']' :: rest)) =
        .ok (compiledClass body, (escapeClass (items body)).length + 1 + 1) := by
      rw [parseClass, if_pos List.head?_cons, List.tail_cons, hatoms]
      dsimp only
      rw [hranges, hclass]
      rfl
    rw [if_pos hnegated, List.cons_append, List.cons_append, List.cons_append, List.append_assoc,
      List.singleton_append, hopen hparse,
      ← parse_skip outer _ (unit '^' :: escapeClass (items body) ++ [unit ']']) rest]
    simp
  · have hclass : compiledClass body = inRanges (ranges (items body)) :=
      funext fun c => if_neg hnegated
    have hhead : (escapeClass (items body) ++ unit ']' :: rest).head? ≠ some (unit '^') := by
      rw [items, if_neg hnegated]
      cases body with
      | nil => exact fun h => absurd (Option.some.inj h) (by decide)
      | cons c body =>
        rw [escapeClass, List.flatMap_cons]
        split
        · simp only [List.cons_append, List.head?_cons]
          decide
        · simpa using fun heq => hnegated (.inr (congrArg some heq))
    have hparse : parseClass (escapeClass (items body) ++ unit ']' :: rest) =
        .ok (compiledClass body, (escapeClass (items body)).length + 1) := by
      rw [parseClass, if_neg hhead, hatoms]
      dsimp only
      rw [hranges, hclass]
      rfl
    rw [if_neg hnegated, List.cons_append, List.append_assoc, List.singleton_append, hopen hparse,
      ← parse_skip outer _ (escapeClass (items body) ++ [unit ']']) rest]
    simp

theorem parse_any : parse outer inner 0 ((Token.piece .any).source ++ rest) =
    parse outer (inner.push (Token.piece .any).compiled) 0 rest := by
  have hordered : Ordered [unit '!', unit '/'] := by unfold Ordered; decide
  exact parse_class outer inner rest (by decide) hordered

theorem parse_token (outer : List Frame) (inner : Frame) (rest : List CodeUnit) {t : Token}
    (h : t.WellFormed) (hordered : ∀ body, t = .piece (.cls body) → Ordered body) :
    parse outer inner 0 (t.source ++ rest) = parse outer (inner.push t.compiled) 0 rest := by
  cases t with
  | deep => exact parse_deep
  | rest => exact parse_rest
  | piece p =>
    cases p with
    | star => exact parse_star
    | any => exact parse_any
    | cls body => exact parse_class outer inner rest h (hordered body rfl)
    | char c => exact parse_char h

end Parse

/-! ## The language of the expression -/

def expansionLanguage (tokens : List Token) : Language CodeUnit :=
  (tokens.map fun t => t.compiled.language).prod

def sumLanguage (expansions : List (List Token)) : Language CodeUnit :=
  (expansions.map expansionLanguage).sum

theorem expansionLanguage_append (a b : List Token) :
    expansionLanguage (a ++ b) = expansionLanguage a * expansionLanguage b := by
  rw [expansionLanguage, List.map_append, List.prod_append]
  rfl

theorem sumLanguage_cons (tokens : List Token) (a : List (List Token)) :
    sumLanguage (tokens :: a) = expansionLanguage tokens + sumLanguage a := by
  rw [sumLanguage, List.map_cons, List.sum_cons]
  rfl

theorem sumLanguage_append (a b : List (List Token)) :
    sumLanguage (a ++ b) = sumLanguage a + sumLanguage b := by
  rw [sumLanguage, List.map_append, List.sum_append]
  rfl

theorem mem_sumLanguage {expansions : List (List Token)} {text : List CodeUnit} :
    text ∈ sumLanguage expansions ↔ ∃ tokens ∈ expansions, text ∈ expansionLanguage tokens := by
  induction expansions with
  | nil => exact iff_of_false (Language.notMem_zero _) (by simp)
  | cons tokens expansions ih =>
    rw [sumLanguage_cons, Language.mem_add, ih]
    simp

theorem sumLanguage_push (a : List (List Token)) (t : Token) :
    sumLanguage (a.map (· ++ [t])) = sumLanguage a * t.compiled.language := by
  induction a with
  | nil => exact (zero_mul _).symm
  | cons tokens a ih =>
    have hlast : expansionLanguage [t] = t.compiled.language := List.prod_singleton
    rw [List.map_cons, sumLanguage_cons, ih, sumLanguage_cons, add_mul, expansionLanguage_append,
      hlast]

theorem sumLanguage_prepend (before : List Token) (b : List (List Token)) :
    sumLanguage (b.map (before ++ ·)) = expansionLanguage before * sumLanguage b := by
  induction b with
  | nil => exact (mul_zero _).symm
  | cons tokens b ih =>
    rw [List.map_cons, sumLanguage_cons, ih, sumLanguage_cons, mul_add, expansionLanguage_append]

theorem sumLanguage_product (a b : List (List Token)) :
    sumLanguage (a.flatMap fun before => b.map (before ++ ·)) = sumLanguage a * sumLanguage b := by
  induction a with
  | nil => exact (zero_mul _).symm
  | cons tokens a ih =>
    rw [List.flatMap_cons, sumLanguage_append, ih, sumLanguage_prepend, sumLanguage_cons, add_mul]

theorem language_seqOf_append (terms : List (RegExp CodeUnit)) (term : RegExp CodeUnit) :
    (seqOf (terms ++ [term])).language = (seqOf terms).language * term.language := by
  induction terms with
  | nil => exact (mul_one _).trans (one_mul _).symm
  | cons first terms ih =>
    rw [List.cons_append, seqOf, RegExp.language, ih, seqOf, RegExp.language, mul_assoc]

theorem language_altOf (rs : List (RegExp CodeUnit)) :
    (altOf rs).language = (rs.map RegExp.language).sum := by
  induction rs with
  | nil => exact Language.ext fun text =>
      iff_of_false (by rintro ⟨c, h, -⟩; cases h) (Language.notMem_zero _)
  | cons r rs ih => rw [altOf, RegExp.language, ih, List.map_cons, List.sum_cons]

/-- What has been read of a group stands for its expansions. -/
structure Frame.Stands (frame : Frame) (choices : Choices Token) : Prop where
  finished : (frame.finished.map RegExp.language).sum = sumLanguage choices.finished
  current : (seqOf frame.terms.reverse).language = sumLanguage choices.current

namespace Frame.Stands

variable {frame : Frame} {choices : Choices Token}

theorem nil : Frame.Stands ⟨[], []⟩ ⟨[], [[]]⟩ where
  finished := rfl
  current := (add_zero _).symm

theorem push (h : frame.Stands choices) (t : Token) :
    (frame.push t.compiled).Stands (choices.push t) where
  finished := h.finished
  current := by
    rw [Frame.push, List.reverse_cons, language_seqOf_append, h.current, Choices.push,
      sumLanguage_push]

theorem alternatives (h : frame.Stands choices) :
    (frame.alternatives.map RegExp.language).sum = sumLanguage choices.all := by
  rw [Frame.alternatives, List.map_append, List.sum_append, h.finished, List.map_singleton,
    List.sum_singleton, h.current, Choices.all, sumLanguage_append]

theorem append {inner : Frame} {group : Choices Token} (h : frame.Stands choices)
    (hinner : inner.Stands group) :
    (frame.push (altOf inner.alternatives)).Stands (choices.append group) where
  finished := h.finished
  current := by
    rw [Frame.push, List.reverse_cons, language_seqOf_append, h.current, language_altOf,
      hinner.alternatives, Choices.append, sumLanguage_product]

end Frame.Stands

theorem parse_signs {signs : List (Sign Token)} {outer : List Frame} {groups : List (Choices Token)}
    {inner : Frame} {choices : Choices Token} (houter : List.Forall₂ Frame.Stands outer groups)
    (hinner : inner.Stands choices) (hnested : Nested groups.length signs)
    (hclosed : depthAfter groups.length signs = 0) (hwell : ∀ sign ∈ signs, sign.WellFormed)
    (hordered : ∀ body, .piece (.piece (.cls body)) ∈ signs → Ordered body) :
    ∃ regex expansions, parse outer inner 0 (signs.flatMap Sign.source) = .ok regex ∧
      expandFrom groups choices signs = some expansions ∧
        regex.language = sumLanguage expansions := by
  induction signs generalizing outer groups inner choices with
  | nil =>
    obtain rfl := List.length_eq_zero_iff.mp hclosed
    cases houter
    exact ⟨_, _, rfl, rfl, (language_altOf _).trans hinner.alternatives⟩
  | cons sign signs ih =>
    obtain ⟨hsign, hmore⟩ := List.forall_mem_cons.mp hwell
    have hrest : ∀ body, .piece (.piece (.cls body)) ∈ signs → Ordered body := fun body hbody =>
      hordered body (List.mem_cons_of_mem _ hbody)
    rw [List.flatMap_cons]
    cases sign with
    | piece t =>
      rw [Sign.source, parse_token outer inner _ hsign fun body hbody =>
        hordered body (hbody ▸ List.mem_cons_self)]
      exact ih houter (hinner.push t) hnested hclosed hmore hrest
    | opening =>
      rw [parse_opening]
      exact ih (.cons hinner houter) .nil hnested hclosed hmore hrest
    | comma =>
      rw [parse_comma]
      refine ih houter ⟨?_, (add_zero _).symm⟩ hnested hclosed hmore hrest
      exact hinner.alternatives
    | closing =>
      cases houter with
      | nil => exact absurd hnested.1 (Nat.lt_irrefl 0)
      | cons hgroup houter =>
        rw [parse_closing]
        exact ih houter (hgroup.append hinner) hnested.2 hclosed hmore hrest

/-! ## Parts that are read alike -/

/-- The expression for a part takes a text for what it is: a class no slash, and a class that starts
with `^` only characters that are in it as well as in the negated class, and the last `**` no line
terminator. -/
def Token.Plain : Token → List CodeUnit → Prop
  | .rest, text => ∀ c ∈ text, c ∉ lineTerminators
  | .piece (.cls body), text => ∀ c ∈ text, c ≠ unit '/' ∧
      (body.head? = some (unit '^') → compiledClass body c = inClass body c)
  | _, _ => True

section Parts

variable {t : Token} {text : List CodeUnit}

theorem notSlash_iff {c : CodeUnit} : notSlash c = true ↔ c ≠ unit '/' := by
  have hrange : inRanges [(unit '/', unit '/')] c = true ↔ c = unit '/' := by
    simp only [inRanges, List.any_cons, List.any_nil, Bool.or_false, Bool.and_eq_true,
      decide_eq_true_iff]
    exact ⟨fun h => UInt16.le_antisymm h.2 h.1, fun h => by subst h; exact ⟨by decide, by decide⟩⟩
  rw [notSlash, Bool.not_eq_true', ← Bool.not_eq_true, hrange]

theorem language_star_notSlash : (RegExp.star (.one notSlash)).language = segmentRun := by
  refine Language.ext fun text => RegExp.mem_language_star_one.trans ?_
  constructor
  · exact fun h hmem => notSlash_iff.mp (h _ hmem) rfl
  · intro h c hc
    refine notSlash_iff.mpr ?_
    rintro rfl
    exact h hc

theorem language_segment :
    (altOf [seqOf [.star (.one notSlash), .one (· == unit '/')]]).language =
      {text | ∃ segment, unit '/' ∉ segment ∧ text = segment ++ [unit '/']} := by
  refine Language.ext fun text => ?_
  rw [language_altOf, List.map_singleton, List.sum_singleton, seqOf, RegExp.language,
    language_star_notSlash, Language.mem_mul]
  constructor
  · rintro ⟨segment, hsegment, slash, hslash, rfl⟩
    obtain ⟨a, ⟨c, hc, rfl⟩, b, hb, rfl⟩ := Language.mem_mul.mp hslash
    obtain rfl : b = [] := hb
    obtain rfl := eq_of_beq hc
    exact ⟨segment, hsegment, rfl⟩
  · rintro ⟨segment, hsegment, rfl⟩
    exact ⟨segment, hsegment, [unit '/'], Language.mem_mul.mpr
      ⟨[unit '/'], ⟨_, beq_self_eq_true _, rfl⟩, [], rfl, rfl⟩, rfl⟩

theorem compiledClass_eq {body : List CodeUnit} (h : body.head? ≠ some (unit '^')) :
    compiledClass body = inClass body := by
  funext c
  rw [compiledClass, inClass, items]
  simp only [h, or_false]
  split <;> rfl

theorem mem_language_iff (h : t.Plain text) : text ∈ t.compiled.language ↔ text ∈ t.language := by
  cases t with
  | deep =>
    rw [Token.compiled, RegExp.language, language_segment]
    rfl
  | rest =>
    refine RegExp.mem_language_star_one.trans (iff_of_true (fun c hc => ?_) trivial)
    simpa using h c hc
  | piece p =>
    cases p with
    | star =>
      rw [Token.compiled, language_star_notSlash]
      rfl
    | any => exact exists_congr fun c => and_congr_left' notSlash_iff
    | cls body =>
      refine exists_congr fun c => ⟨?_, ?_⟩
      · rintro ⟨hc, rfl⟩
        obtain ⟨hslash, hcaret⟩ := h c List.mem_cons_self
        refine ⟨hslash, ?_, rfl⟩
        by_cases hhead : body.head? = some (unit '^')
        · rwa [← hcaret hhead]
        · rwa [← compiledClass_eq hhead]
      · rintro ⟨-, hc, rfl⟩
        obtain ⟨-, hcaret⟩ := h c List.mem_cons_self
        refine ⟨?_, rfl⟩
        by_cases hhead : body.head? = some (unit '^')
        · rwa [hcaret hhead]
        · rwa [compiledClass_eq hhead]
    | char c =>
      constructor
      · rintro ⟨d, hd, rfl⟩
        rw [eq_of_beq hd]
        rfl
      · intro htext
        exact ⟨c, beq_self_eq_true c, htext⟩

end Parts

/-! ## What a compiled pattern decides -/

/-- The pattern is rejected: it is empty or too long, or has a character that no path has, or a
group that is not closed. -/
def Rejected (glob : List CodeUnit) : Prop :=
  (trimmed glob = [] ∨ (trimmed glob).length > maxGlobChars ∨ unit '\x00' ∈ trimmed glob) ∨
    expand (read 0 0 (trimmed glob)) = none

def signsOf (glob : List CodeUnit) : List (Sign Token) := lex none 0 0 (trimmed glob)

/-- The translation reads a pattern, laid along a path, as it is meant. -/
structure Plain (glob relativePath : List CodeUnit) : Prop where
  /-- No range of a class is reversed. -/
  ordered : ∀ body, .piece (.piece (.cls body)) ∈ signsOf glob → Ordered body
  /-- The `**` that are whole segments of an expansion are whole segments of the pattern. -/
  marked : ∀ expansions, expand (signsOf glob) = some expansions → ∀ tokens ∈ expansions,
    mark true (written tokens) = tokens
  /-- Wherever the parts of an expansion can stand in the path, they are read alike. -/
  layouts : ∀ expansions, expand (signsOf glob) = some expansions → ∀ tokens ∈ expansions,
    ∀ parts : List (List CodeUnit), parts.flatten = target (trimmed glob) relativePath →
      List.Forall₂ (fun part t => part ∈ t.compiled.language ∨ part ∈ t.language) parts tokens →
        List.Forall₂ (fun part t => t.Plain part) parts tokens

/-- The pattern is rejected, or decides whether the path matches it. -/
def Decides (glob relativePath : List CodeUnit) : Prop :=
  (∃ message, compileGlob glob = .error (.app (.policy message))) ∨
    ∃ test, compileGlob glob = .ok test ∧ (test relativePath = true ↔ Matches glob relativePath)

theorem expand_read (glob : List CodeUnit) : expand (read 0 0 (trimmed glob)) =
    (expand (signsOf glob)).map (List.map written) := by
  rw [read_eq none]
  exact expandFrom_written [] ⟨[], [[]]⟩ (signsOf glob)

theorem decides_of_rejected {glob : List CodeUnit} (h : Rejected glob)
    (relativePath : List CodeUnit) : Decides glob relativePath := by
  refine .inl ?_
  rw [compileGlob, ← trimmed]
  by_cases hbounds : trimmed glob = [] ∨ (trimmed glob).length > maxGlobChars ∨
      unit '\x00' ∈ trimmed glob
  · exact ⟨_, if_pos hbounds⟩
  · have hnone := h.resolve_left hbounds
    rw [expand_read, Option.map_eq_none_iff] at hnone
    have hdepth : depthAfter 0 (signsOf glob) ≠ 0 := fun hzero => by
      have hsome := (expandFrom_isSome_iff [] ⟨[], [[]]⟩ (nested_lex none 0 0 (trimmed glob))).mpr
        hzero
      rw [← signsOf, ← expand, hnone] at hsome
      cases hsome
    refine ⟨"Glob has an unclosed '\x7b' group.", (if_neg hbounds).trans ?_⟩
    rw [translate, translateFrom_eq]
    dsimp only
    rw [← signsOf, if_pos hdepth]
    rfl

theorem exists_compiled {glob : List CodeUnit} (hrejected : ¬ Rejected glob)
    (hordered : ∀ body, .piece (.piece (.cls body)) ∈ signsOf glob → Ordered body) :
    ∃ (regex : RegExp CodeUnit) (expansions : List (List Token)), compileGlob glob =
        .ok (fun relativePath => regex.accepts (target (trimmed glob) relativePath)) ∧
      expand (signsOf glob) = some expansions ∧ regex.language = sumLanguage expansions := by
  obtain ⟨hbounds, hexpand⟩ := not_or.mp hrejected
  rw [expand_read, Option.map_eq_none_iff, ← ne_eq, Option.ne_none_iff_isSome] at hexpand
  have hclosed : depthAfter 0 (signsOf glob) = 0 :=
    (expandFrom_isSome_iff [] ⟨[], [[]]⟩ (nested_lex none 0 0 (trimmed glob))).mp hexpand
  obtain ⟨regex, expansions, hparse, hexpansions, hlanguage⟩ :=
    parse_signs .nil .nil (nested_lex none 0 0 (trimmed glob)) hclosed
      (lex_wellFormed none 0 0 (trimmed glob)) hordered
  refine ⟨regex, expansions, ?_, hexpansions, hlanguage⟩
  have htranslate : translate (trimmed glob) =
      .ok ((lex none 0 0 (trimmed glob)).flatMap Sign.source) := by
    rw [translate, translateFrom_eq]
    exact if_neg (not_not.mpr hclosed)
  have hregex : newRegExp
      (unit '^' :: (lex none 0 0 (trimmed glob)).flatMap Sign.source ++ [unit '$']) =
        .ok regex := by
    rw [newRegExp, if_pos ⟨rfl, by simp⟩, List.cons_append, List.tail_cons, List.dropLast_concat]
    exact hparse
  rw [compileGlob, ← trimmed]
  refine (if_neg hbounds).trans ?_
  rw [htranslate]
  dsimp only
  rw [hregex]

end Glob
