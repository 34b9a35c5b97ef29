import ChatgptSystem.Core.GlobMatch

/-!
# What glob patterns mean

The relation between glob patterns and paths, without regular expressions: a pattern is read into
signs, the groups are expanded, and each expansion is laid along the path.

* `read`, `expand` — the signs of a pattern, and the choices of alternatives;
* `mark` — the `**` that are whole segments of an expansion;
* `Token.language` — the texts that one part of an expansion stands for;
* `Matches` — a path matches a pattern.
-/

open Computability

namespace Glob

inductive Piece where
  | star
  | any
  | cls (body : List CodeUnit)
  | char (c : CodeUnit)
deriving DecidableEq

inductive Sign (T : Type) where
  | piece (t : T)
  | opening
  | comma
  | closing

/-- The signs of a pattern behind `skip` more characters, inside of `depth` groups. -/
def read : ℕ → ℕ → List CodeUnit → List (Sign Piece)
  | _, _, [] => []
  | depth, skip + 1, _ :: rest => read depth skip rest
  | depth, 0, c :: rest =>
    if c = unit '*' then .piece .star :: read depth 0 rest
    else if c = unit '?' then .piece .any :: read depth 0 rest
    else if c = unit '\x7b' then .opening :: read (depth + 1) 0 rest
    else if c = unit '\x7d' ∧ depth > 0 then .closing :: read (depth - 1) 0 rest
    else if c = unit ',' ∧ depth > 0 then .comma :: read depth 0 rest
    -- A class is not empty and ends at the next closing bracket.
    else if c = unit '[' ∧ unit ']' ∈ rest ∧ classBody rest ≠ [] then
      .piece (.cls (classBody rest)) :: read depth ((classBody rest).length + 1) rest
    else .piece (.char c) :: read depth 0 rest

/-- The expansions of a group as far as it has been read: those of the alternatives before the
current one, and those of the current one. -/
structure Choices (T : Type) where
  finished : List (List T)
  current : List (List T)

namespace Choices

variable {T : Type}

def push (choices : Choices T) (t : T) : Choices T :=
  { choices with current := choices.current.map (· ++ [t]) }

def all (choices : Choices T) : List (List T) := choices.finished ++ choices.current

def append (choices group : Choices T) : Choices T :=
  { choices with
    current := choices.current.flatMap fun before => group.all.map (before ++ ·) }

end Choices

/-- The expansions of a pattern, if all of its groups are closed. -/
def expandFrom {T : Type} : List (Choices T) → Choices T → List (Sign T) → Option (List (List T))
  | outer, inner, [] => if outer.isEmpty then some inner.all else none
  | outer, inner, .piece t :: signs => expandFrom outer (inner.push t) signs
  | outer, inner, .opening :: signs => expandFrom (inner :: outer) ⟨[], [[]]⟩ signs
  | outer, inner, .comma :: signs => expandFrom outer ⟨inner.all, [[]]⟩ signs
  | [], _, .closing :: _ => none
  | group :: outer, inner, .closing :: signs => expandFrom outer (group.append inner) signs

def expand {T : Type} (signs : List (Sign T)) : Option (List (List T)) :=
  expandFrom [] ⟨[], [[]]⟩ signs

inductive Token where
  /-- `**` as a whole segment, with the slash behind it. -/
  | deep
  /-- `**` as the last segment. -/
  | rest
  | piece (p : Piece)
deriving DecidableEq

/-- The parts of an expansion, at the start of a segment or inside of one. -/
def mark : Bool → List Piece → List Token
  | start, .star :: .star :: .char c :: pieces =>
    if start ∧ c = unit '/' then .deep :: mark true pieces
    else .piece .star :: mark false (.star :: .char c :: pieces)
  | start, [.star, .star] => if start then [.rest] else [.piece .star, .piece .star]
  | _, p :: pieces => .piece p :: mark (p = .char (unit '/')) pieces
  | _, [] => []

def ranges : List CodeUnit → List (CodeUnit × CodeUnit)
  | low :: dash :: high :: rest =>
    if dash = unit '-' then (low, high) :: ranges rest
    else (low, low) :: ranges (dash :: high :: rest)
  | c :: rest => (c, c) :: ranges rest
  | [] => []

def inClass (body : List CodeUnit) (c : CodeUnit) : Bool :=
  if body.head? = some (unit '!') then !inRanges (ranges body.tail) c
  else inRanges (ranges body) c

def segmentRun : Language CodeUnit := {run | unit '/' ∉ run}

/-- The texts that a part of an expansion stands for. -/
def Token.language : Token → Language CodeUnit
  | .deep => {text | ∃ segment, unit '/' ∉ segment ∧ text = segment ++ [unit '/']}∗
  | .rest => {_text | True}
  | .piece .star => segmentRun
  | .piece .any => {text | ∃ c, c ≠ unit '/' ∧ text = [c]}
  | .piece (.cls body) => {text | ∃ c, c ≠ unit '/' ∧ inClass body c = true ∧ text = [c]}
  | .piece (.char c) => {[c]}

/-- The pattern trimmed and without a leading `./`. -/
def trimmed (glob : List CodeUnit) : List CodeUnit := dropDotSlash (trim glob)

def Matches (glob relativePath : List CodeUnit) : Prop :=
  ∃ expansions, expand (read 0 0 (trimmed glob)) = some expansions ∧ ∃ pieces ∈ expansions,
    target (trimmed glob) relativePath ∈ ((mark true pieces).map Token.language).prod

end Glob
