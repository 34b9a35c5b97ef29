import ChatgptSystem.Core.Errors
import ChatgptSystem.Core.Text
import ChatgptSystem.Foundations.RegExp

/-!
# Glob patterns

`compileGlob` translates a glob pattern into the text of a regular expression, and `new RegExp`
reads this text. Strings are taken as what they are in the source language, sequences of UTF-16 code
units; these are the characters of patterns and paths, as in `length` and in expressions without
the flag `u`.
-/

namespace Glob

abbrev CodeUnit := UInt16

def unit (c : Char) : CodeUnit := UInt16.ofNat c.toNat

def units (text : String) : List CodeUnit :=
  text.toList.flatMap fun c => (Text.codeUnits c).map UInt16.ofNat

/-! ## Regular expressions as texts -/

inductive RegExpError where
  /-- "Range out of order in character class". -/
  | rangeOutOfOrder
  /-- Syntax that no translated pattern contains. -/
  | unsupported
deriving DecidableEq

/-- `SyntaxCharacter`. -/
def syntaxCharacters : List CodeUnit :=
  ['^', '$', '\\', '.', '*', '+', '?', '(', ')', '[', ']', '\x7b', '\x7d', '|'].map unit

def lineTerminators : List CodeUnit := ['\n', '\r', '\u2028', '\u2029'].map unit

def seqOf : List (RegExp CodeUnit) → RegExp CodeUnit
  | [] => .empty
  | term :: terms => .seq term (seqOf terms)

def altOf : List (RegExp CodeUnit) → RegExp CodeUnit
  | [] => .one fun _ => false
  | r :: rest => .alt r (altOf rest)

/-- What has been read of a group: the alternatives before the current one, and the terms of the
current one, the last one first. -/
structure Frame where
  finished : List (RegExp CodeUnit)
  terms : List (RegExp CodeUnit)

namespace Frame

def push (frame : Frame) (term : RegExp CodeUnit) : Frame :=
  { frame with terms := term :: frame.terms }

def alternatives (frame : Frame) : List (RegExp CodeUnit) :=
  frame.finished ++ [seqOf frame.terms.reverse]

end Frame

/-- The characters of a class up to its end, each with whether it is escaped, and the length. -/
def classAtoms : List CodeUnit → Option (List (CodeUnit × Bool) × ℕ)
  | [] => none
  | [c] => if c = unit ']' then some ([], 1) else none
  | c :: d :: rest =>
    if c = unit ']' then some ([], 1)
    else if c = unit '\\' then
      if d ∈ syntaxCharacters then
        (classAtoms rest).map fun (atoms, length) => ((d, true) :: atoms, length + 2)
      else none
    else (classAtoms (d :: rest)).map fun (atoms, length) => ((c, false) :: atoms, length + 1)

def classRanges : List (CodeUnit × Bool) → Except RegExpError (List (CodeUnit × CodeUnit))
  | [] => .ok []
  | [(c, _)] => .ok [(c, c)]
  | [(c, _), (d, _)] => .ok [(c, c), (d, d)]
  | (low, _) :: (dash, escaped) :: (high, marked) :: atoms =>
    if dash = unit '-' ∧ escaped = false then
      if low ≤ high then (classRanges atoms).map ((low, high) :: ·) else .error .rangeOutOfOrder
    else (classRanges ((dash, escaped) :: (high, marked) :: atoms)).map ((low, low) :: ·)

def inRanges (ranges : List (CodeUnit × CodeUnit)) (c : CodeUnit) : Bool :=
  ranges.any fun (low, high) => low ≤ c && c ≤ high

/-- A class behind its opening bracket: its characters, and its length. -/
def parseClass (text : List CodeUnit) : Except RegExpError ((CodeUnit → Bool) × ℕ) :=
  if text.head? = some (unit '^') then
    match classAtoms text.tail with
    | none => .error .unsupported
    | some (atoms, length) =>
      (classRanges atoms).map fun ranges => (fun c => !inRanges ranges c, length + 1)
  else
    match classAtoms text with
    | none => .error .unsupported
    | some (atoms, length) => (classRanges atoms).map fun ranges => (inRanges ranges, length)

/-- The text of an expression after `skip` more characters of what has been read. -/
def parse : List Frame → Frame → ℕ → List CodeUnit → Except RegExpError (RegExp CodeUnit)
  | outer, inner, _, [] =>
    if outer.isEmpty then .ok (altOf inner.alternatives) else .error .unsupported
  | outer, inner, skip + 1, _ :: rest => parse outer inner skip rest
  | outer, inner, 0, c :: rest =>
    if c ∉ syntaxCharacters then parse outer (inner.push (.one (· == c))) 0 rest
    else if c = unit '.' then
      parse outer (inner.push (.one fun d => !lineTerminators.contains d)) 0 rest
    else if c = unit '*' then
      match inner.terms with
      | [] => .error .unsupported
      | term :: terms => parse outer ⟨inner.finished, .star term :: terms⟩ 0 rest
    else if c = unit '\\' then
      match rest with
      | [] => .error .unsupported
      | d :: _ =>
        if d ∈ syntaxCharacters then parse outer (inner.push (.one (· == d))) 1 rest
        else .error .unsupported
    else if c = unit '[' then
      match parseClass rest with
      | .error error => .error error
      | .ok (p, length) => parse outer (inner.push (.one p)) length rest
    else if c = unit '(' then
      if [unit '?', unit ':'].isPrefixOf rest then parse (inner :: outer) ⟨[], []⟩ 2 rest
      else .error .unsupported
    else if c = unit '|' then parse outer ⟨inner.alternatives, []⟩ 0 rest
    else if c = unit ')' then
      match outer with
      | [] => .error .unsupported
      | frame :: outer => parse outer (frame.push (altOf inner.alternatives)) 0 rest
    else .error .unsupported

/-- `new RegExp(source)` for an expression that is anchored at both ends. -/
def newRegExp (source : List CodeUnit) : Except RegExpError (RegExp CodeUnit) :=
  if source.head? = some (unit '^') ∧ source.tail.getLast? = some (unit '$') then
    parse [] ⟨[], []⟩ 0 source.tail.dropLast
  else .error .unsupported

/-! ## The translation -/

def maxGlobChars : ℕ := 1024

def escapeRegExp (value : CodeUnit) : List CodeUnit :=
  if value ∈ ['.', '+', '^', '$', '\x7b', '\x7d', '(', ')', '|', '[', ']', '\\'].map unit then
    [unit '\\', value]
  else [value]

def classBody (rest : List CodeUnit) : List CodeUnit := rest.takeWhile (· != unit ']')

/-- `[…]` of the expression for a class of the pattern. -/
def translateClass (body : List CodeUnit) : List CodeUnit :=
  let escaped := body.flatMap fun c => if c = unit '\\' then [unit '\\', unit '\\'] else [c]
  unit '[' ::
    (if escaped.head? = some (unit '!') then unit '^' :: escaped.tail else escaped) ++ [unit ']']

/-- The translation behind the character `prev` after `skip` more characters, and how many groups
are open at the end. -/
def translateFrom : Option CodeUnit → ℕ → ℕ → List CodeUnit → List CodeUnit × ℕ
  | _, braceDepth, _, [] => ([], braceDepth)
  | _, braceDepth, skip + 1, c :: rest => translateFrom (some c) braceDepth skip rest
  | prev, braceDepth, 0, c :: rest =>
    let emit (piece : List CodeUnit) (braceDepth skip : ℕ) :=
      (translateFrom (some c) braceDepth skip rest).map (piece ++ ·) id
    if c = unit '*' then
      if rest.head? = some (unit '*') ∧ (prev = none ∨ prev = some (unit '/')) ∧
          rest.tail.head? = some (unit '/') then
        emit (['(', '?', ':', '[', '^', '/', ']', '*', '/', ')', '*'].map unit) braceDepth 2
      else if rest.head? = some (unit '*') ∧ (prev = none ∨ prev = some (unit '/')) ∧
          rest.tail = [] then
        emit (['.', '*'].map unit) braceDepth 1
      else emit (['[', '^', '/', ']', '*'].map unit) braceDepth 0
    else if c = unit '?' then emit (['[', '^', '/', ']'].map unit) braceDepth 0
    else if c = unit '\x7b' then emit (['(', '?', ':'].map unit) (braceDepth + 1) 0
    else if c = unit '\x7d' ∧ braceDepth > 0 then emit [unit ')'] (braceDepth - 1) 0
    else if c = unit ',' ∧ braceDepth > 0 then emit [unit '|'] braceDepth 0
    else if c = unit '[' ∧ unit ']' ∈ rest ∧ classBody rest ≠ [] then
      emit (translateClass (classBody rest)) braceDepth ((classBody rest).length + 1)
    else emit (escapeRegExp c) braceDepth 0

/-- What `compileGlob` throws. -/
inductive GlobError where
  | app (error : AppError)
  | syntaxError
deriving DecidableEq

def unclosed : AppError := .policy "Glob has an unclosed '\x7b' group."

def translate (glob : List CodeUnit) : Except GlobError (List CodeUnit) :=
  let translated := translateFrom none 0 0 glob
  if translated.2 ≠ 0 then .error (.app unclosed) else .ok translated.1

def isWhiteSpace (c : CodeUnit) : Bool := Text.isWhiteSpace (Char.ofNat c.toNat)

def trim (glob : List CodeUnit) : List CodeUnit :=
  ((glob.dropWhile isWhiteSpace).reverse.dropWhile isWhiteSpace).reverse

/-- `.replace(/^\.\//, "")`. -/
def dropDotSlash (glob : List CodeUnit) : List CodeUnit :=
  if [unit '.', unit '/'].isPrefixOf glob then glob.drop 2 else glob

/-- `relativePath.slice(relativePath.lastIndexOf("/") + 1)`. -/
def lastSegment (path : List CodeUnit) : List CodeUnit :=
  (path.reverse.takeWhile (· != unit '/')).reverse

def rejected : AppError := .policy "Glob must contain 1-1024 non-NUL characters."

def target (trimmed relativePath : List CodeUnit) : List CodeUnit :=
  if unit '/' ∉ trimmed then lastSegment relativePath else relativePath

def compileGlob (glob : List CodeUnit) : Except GlobError (List CodeUnit → Bool) :=
  let trimmed := dropDotSlash (trim glob)
  if trimmed = [] ∨ trimmed.length > maxGlobChars ∨ unit '\x00' ∈ trimmed then
    .error (.app rejected)
  else
    match translate trimmed with
    | .error error => .error error
    | .ok source =>
      match newRegExp (unit '^' :: source ++ [unit '$']) with
      | .error _ => .error .syntaxError
      | .ok regex => .ok fun relativePath => regex.accepts (target trimmed relativePath)

example : (compileGlob (units "src/**/*.ts")).map (· (units "src/fs/a.ts")) = .ok true := by
  decide +kernel

end Glob
