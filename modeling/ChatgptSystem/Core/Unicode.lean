import Mathlib.Data.Nat.Notation

/-!
# Unicode normalisation and case

`String.prototype.normalize("NFKC")` and `String.prototype.toLowerCase` on lists of characters,
as the Unicode Standard defines them over the Unicode Character Database. The database is a
parameter: nothing here depends on its version.

* `CharacterDatabase` — the properties of characters the two functions read;
* `CharacterDatabase.nfkc` — decomposition, canonical ordering and canonical composition;
* `CharacterDatabase.toLowerCase` — full case mapping with the rule for the final sigma.
-/

/-- The properties of the Unicode Character Database that normalisation and lower-casing read. -/
structure CharacterDatabase where
  /-- The full compatibility decomposition of a character; itself alone if it has none. -/
  decomposition : Char → List Char
  /-- `Canonical_Combining_Class`; a starter has the class `0`. -/
  combiningClass : Char → ℕ
  /-- The primary composite that is canonically equivalent to a pair. -/
  primaryComposite : Char → Char → Option Char
  /-- The full lower-case mapping that holds in every context. -/
  lowercase : Char → List Char
  /-- `Cased`. -/
  cased : Char → Bool
  /-- `Case_Ignorable`. -/
  caseIgnorable : Char → Bool

namespace CharacterDatabase

variable (unicode : CharacterDatabase)

/-- Put a character in front of a text in canonical order: a combining mark moves behind the
marks of a lower class. -/
def insertMark (c : Char) : List Char → List Char
  | [] => [c]
  | d :: rest =>
    if unicode.combiningClass d ≠ 0 ∧ unicode.combiningClass d < unicode.combiningClass c then
      d :: insertMark c rest
    else c :: d :: rest

def reorder (text : List Char) : List Char := text.foldr unicode.insertMark []

/-- Whether the marks since the starter, last one first, block a character from it. -/
def blocked (skipped : List Char) (c : Char) : Bool :=
  match skipped with
  | [] => false
  | mark :: _ => unicode.combiningClass c ≤ unicode.combiningClass mark

/-- Compose what follows a starter and the marks that have not been composed with it. -/
def composeFrom (starter : Char) (skipped : List Char) : List Char → List Char
  | [] => starter :: skipped.reverse
  | c :: rest =>
    match if unicode.blocked skipped c then none else unicode.primaryComposite starter c with
    | some composite => composeFrom composite skipped rest
    | none =>
      if unicode.combiningClass c = 0 then
        starter :: skipped.reverse ++ composeFrom c [] rest
      else composeFrom starter (c :: skipped) rest

def compose : List Char → List Char
  | [] => []
  | c :: rest =>
    if unicode.combiningClass c = 0 then unicode.composeFrom c [] rest else c :: compose rest

/-- `text.normalize("NFKC")`. -/
def nfkc (text : List Char) : List Char :=
  unicode.compose (unicode.reorder (text.flatMap unicode.decomposition))

/-- Whether a letter stands next, past the characters that case ignores. -/
def casedNext (text : List Char) : Bool :=
  ((text.dropWhile unicode.caseIgnorable).head?.map unicode.cased).getD false

/-- Lower-case the rest of a text, given what stands before it, last character first. -/
def lowerFrom (before : List Char) : List Char → List Char
  | [] => []
  | c :: rest =>
    -- a capital sigma at the end of a word
    (if c = '\u03A3' ∧ unicode.casedNext before ∧ ¬ unicode.casedNext rest then ['\u03C2']
      else unicode.lowercase c) ++ lowerFrom (c :: before) rest

def toLowerCase (text : List Char) : List Char := unicode.lowerFrom [] text

end CharacterDatabase
