import ChatgptSystem.Core.Numbers
import ChatgptSystem.Core.Text
import Mathlib.Data.List.TakeWhile

/-!
# Hunk headers of unified patches

`normalizeUnifiedPatchHunkHeaders` counts the lines of every hunk body anew and writes the counts
into the hunk headers. It takes a body to end at the next line that looks like a header.
-/

namespace UnifiedPatch

open Numbers

abbrev Line := List Char

structure UnifiedPatchNormalization where
  patch : List Char
  normalized : Bool
deriving DecidableEq

/-! ## Hunk headers -/

/-- `\d+`. -/
structure Digits where
  text : List Char
  ne_nil : text ≠ []
  isDigit : ∀ c ∈ text, c.isDigit = true

/-- `Number(text)`. -/
def Digits.value (digits : Digits) : ℕ := Nat.ofDigitChars 10 digits.text 0

def Digits.number (digits : Digits) : Double := nearest digits.value

/-- What `.` does not match. -/
def isLineTerminator (c : Char) : Bool :=
  c == '\n' || c == '\r' || c == '\u2028' || c == '\u2029'

/-- What `HUNK_HEADER` matches, with its groups. -/
structure HeaderMatch where
  oldStart : Digits
  oldCount : Option Digits
  newStart : Digits
  newCount : Option Digits
  trailer : List Char
  oneLine : ∀ c ∈ trailer, isLineTerminator c = false

def readLiteral (literal text : List Char) : Option (List Char) :=
  if literal.isPrefixOf text then some (text.drop literal.length) else none

/-- `(\d+)`. -/
def readDigits (text : List Char) : Option (Digits × List Char) :=
  if h : text.takeWhile Char.isDigit = [] then none
  else some (⟨text.takeWhile Char.isDigit, h, fun _ hc => List.mem_takeWhile_imp hc⟩,
    text.dropWhile Char.isDigit)

/-- `(?:,(\d+))?`. -/
def readCount (text : List Char) : Option Digits × List Char :=
  match readLiteral [','] text with
  | none => (none, text)
  | some rest =>
    match readDigits rest with
    | none => (none, text)
    | some (digits, rest) => (some digits, rest)

/-- `HUNK_HEADER.exec(line)`. -/
def execHunkHeader (line : Line) : Option HeaderMatch := do
  let rest ← readLiteral ['@', '@', ' ', '-'] line
  let (oldStart, rest) ← readDigits rest
  let (oldCount, rest) := readCount rest
  let rest ← readLiteral [' ', '+'] rest
  let (newStart, rest) ← readDigits rest
  let (newCount, rest) := readCount rest
  let trailer ← readLiteral [' ', '@', '@'] rest
  if h : ∀ c ∈ trailer, isLineTerminator c = false then
    some ⟨oldStart, oldCount, newStart, newCount, trailer, h⟩
  else none

structure HunkHeader where
  oldStart : Double
  newStart : Double
  trailer : List Char

structure ParsedHeader where
  header : HunkHeader
  oldLines : Double
  newLines : Double

def HeaderMatch.oldLines (found : HeaderMatch) : Double :=
  found.oldCount.elim (.finite 1) Digits.number

def HeaderMatch.newLines (found : HeaderMatch) : Double :=
  found.newCount.elim (.finite 1) Digits.number

def parseHunkHeader (line : Line) : Option ParsedHeader :=
  (execHunkHeader line).map fun found =>
    { header := ⟨found.oldStart.number, found.newStart.number, found.trailer⟩
      oldLines := found.oldLines
      newLines := found.newLines }

def isFileHeader (line : Line) : Bool :=
  ['-', '-', '-', ' '].isPrefixOf line || ['+', '+', '+', ' '].isPrefixOf line ||
    ['d', 'i', 'f', 'f', ' '].isPrefixOf line || ['I', 'n', 'd', 'e', 'x', ':'].isPrefixOf line

/-- `HUNK_HEADER.test(line)`. -/
def isHunkHeader (line : Line) : Bool := (execHunkHeader line).isSome

def looksLikeHeader (line : Line) : Bool := isHunkHeader line || isFileHeader line

def formatHunkHeader (header : HunkHeader) (oldLines newLines : ℕ) : Line :=
  ['@', '@', ' ', '-'] ++ toText header.oldStart ++ ',' :: toText (.finite oldLines) ++
    [' ', '+'] ++ toText header.newStart ++ ',' :: toText (.finite newLines) ++
    [' ', '@', '@'] ++ header.trailer

/-! ## The normalisation -/

structure HunkBody where
  body : List Line
  oldLines : ℕ
  newLines : ℕ

/-- The loop over the lines behind a hunk header; `none` stands for a malformed body. -/
def readBody (hunk : HunkBody) : List Line → Option HunkBody
  | [] => some hunk
  | candidate :: rest =>
    if looksLikeHeader candidate then some hunk
    else
      match candidate with
      | [] =>
        if rest.isEmpty then some hunk
        else readBody ⟨hunk.body ++ [[]], hunk.oldLines + 1, hunk.newLines + 1⟩ rest
      | c :: text =>
        if c = ' ' then
          readBody ⟨hunk.body ++ [c :: text], hunk.oldLines + 1, hunk.newLines + 1⟩ rest
        else if c = '-' then
          readBody ⟨hunk.body ++ [c :: text], hunk.oldLines + 1, hunk.newLines⟩ rest
        else if c = '+' then
          readBody ⟨hunk.body ++ [c :: text], hunk.oldLines, hunk.newLines + 1⟩ rest
        else if c = '\\' then
          readBody ⟨hunk.body ++ [c :: text], hunk.oldLines, hunk.newLines⟩ rest
        else none

/-- The loop over the lines of the patch after `skip` more lines of a hunk body: the output and
whether a count was corrected, or `none` if the patch is returned as it is. -/
def rewriteFrom : ℕ → List Line → Option (List Line × Bool)
  | _, [] => some ([], false)
  | skip + 1, _ :: rest => rewriteFrom skip rest
  | 0, line :: rest =>
    match parseHunkHeader line with
    | none => (rewriteFrom 0 rest).map fun (output, normalized) => (line :: output, normalized)
    | some parsed =>
      match readBody ⟨[], 0, 0⟩ rest with
      | none => none
      | some hunk =>
        if hunk.body.isEmpty then none
        else
          (rewriteFrom hunk.body.length rest).map fun (output, normalized) =>
            (formatHunkHeader parsed.header hunk.oldLines hunk.newLines :: (hunk.body ++ output),
              decide (.finite hunk.oldLines ≠ parsed.oldLines ∨
                .finite hunk.newLines ≠ parsed.newLines) || normalized)

def normalizeUnifiedPatchHunkHeaders (patchText : List Char) : UnifiedPatchNormalization :=
  match rewriteFrom 0 (patchText.splitOn '\n') with
  | none => ⟨patchText, false⟩
  | some (output, normalized) =>
    ⟨if normalized then ['\n'].intercalate output else patchText, normalized⟩

/-! ## Reading hunk headers -/

section Reading

variable {text rest : List Char}

def countText : Option Digits → List Char
  | none => []
  | some digits => ',' :: digits.text

def HeaderMatch.line (found : HeaderMatch) : Line :=
  ['@', '@', ' ', '-'] ++ (found.oldStart.text ++ (countText found.oldCount ++ ([' ', '+'] ++
    (found.newStart.text ++ (countText found.newCount ++ ([' ', '@', '@'] ++ found.trailer))))))

theorem readLiteral_append (literal text : List Char) :
    readLiteral literal (literal ++ text) = some text := by
  rw [readLiteral, if_pos (List.isPrefixOf_iff_prefix.mpr (List.prefix_append _ _)), List.drop_left]

theorem eq_of_readLiteral {literal : List Char} (h : readLiteral literal text = some rest) :
    text = literal ++ rest := by
  rw [readLiteral] at h
  split at h
  next hprefix =>
    obtain ⟨after, rfl⟩ := List.isPrefixOf_iff_prefix.mp hprefix
    rw [List.drop_left] at h
    rw [Option.some.inj h]
  next => cases h

def NoDigit (text : List Char) : Prop := ∀ c ∈ text.head?, c.isDigit = false

theorem readDigits_append (digits : Digits) (h : NoDigit rest) :
    readDigits (digits.text ++ rest) = some (digits, rest) := by
  have htake : (digits.text ++ rest).takeWhile Char.isDigit = digits.text := by
    rw [List.takeWhile_append_of_pos digits.isDigit]
    cases rest with
    | nil => exact List.append_nil _
    | cons c rest => rw [List.takeWhile_cons_of_neg (by simp [h c rfl]), List.append_nil]
  have hdrop : (digits.text ++ rest).dropWhile Char.isDigit = rest := by
    rw [List.dropWhile_append_of_pos digits.isDigit]
    cases rest with
    | nil => rfl
    | cons c rest => exact List.dropWhile_cons_of_neg (by simp [h c rfl])
  rw [readDigits, dif_neg (by rw [htake]; exact digits.ne_nil)]
  simp only [htake, hdrop]

theorem eq_of_readDigits {digits : Digits} (h : readDigits text = some (digits, rest)) :
    text = digits.text ++ rest := by
  rw [readDigits] at h
  split at h
  next => cases h
  next =>
    cases h
    exact (List.takeWhile_append_dropWhile).symm

theorem readCount_append (count : Option Digits) (h : NoDigit rest)
    (hcomma : rest.head? ≠ some ',') : readCount (countText count ++ rest) = (count, rest) := by
  cases count with
  | none =>
    have hnone : readLiteral [','] rest = none := by
      rw [readLiteral, if_neg]
      intro hprefix
      obtain ⟨after, rfl⟩ := List.isPrefixOf_iff_prefix.mp hprefix
      exact hcomma rfl
    rw [countText, List.nil_append, readCount, hnone]
  | some digits =>
    have hsome : readLiteral [','] (',' :: (digits.text ++ rest)) = some (digits.text ++ rest) :=
      readLiteral_append [','] (digits.text ++ rest)
    rw [countText, List.cons_append, readCount, hsome]
    dsimp only
    rw [readDigits_append digits h]

theorem eq_of_readCount {count : Option Digits} (h : readCount text = (count, rest)) :
    text = countText count ++ rest := by
  unfold readCount at h
  split at h
  next =>
    cases h
    rfl
  next after hliteral =>
    split at h
    next =>
      cases h
      rfl
    next digits after' hdigits =>
      cases h
      rw [eq_of_readLiteral hliteral, eq_of_readDigits hdigits]
      rfl

@[simp] theorem execHunkHeader_line (found : HeaderMatch) :
    execHunkHeader found.line = some found := by
  obtain ⟨oldStart, oldCount, newStart, newCount, trailer, oneLine⟩ := found
  have hsign : ∀ (c : Char) (signs text : List Char), c.isDigit = false →
      NoDigit (c :: signs ++ text) :=
    fun c signs text hc d hd => Option.some.inj hd ▸ hc
  have hcount : ∀ (count : Option Digits) (c : Char) (signs text : List Char), c.isDigit = false →
      NoDigit (countText count ++ (c :: signs ++ text)) := by
    intro count c signs text hc
    cases count with
    | none => exact hsign c signs text hc
    | some digits => exact hsign ',' _ _ rfl
  simp only [execHunkHeader, HeaderMatch.line, readLiteral_append, Option.bind_eq_bind,
    Option.bind_some]
  rw [readDigits_append oldStart (hcount _ _ _ _ rfl)]
  dsimp only [Option.bind_some]
  rw [readCount_append oldCount (hsign _ _ _ rfl) (by simp), readLiteral_append]
  dsimp only [Option.bind_some]
  rw [readDigits_append newStart (hcount _ _ _ _ rfl)]
  dsimp only [Option.bind_some]
  rw [readCount_append newCount (hsign _ _ _ rfl) (by simp), readLiteral_append]
  dsimp only [Option.bind_some]
  rw [dif_pos oneLine]

theorem line_injective : Function.Injective HeaderMatch.line := fun found found' h =>
  Option.some.inj ((execHunkHeader_line found).symm.trans (h ▸ execHunkHeader_line found'))

theorem eq_line_of_exec {line : Line} {found : HeaderMatch} (h : execHunkHeader line = some found) :
    line = found.line := by
  simp only [execHunkHeader, Option.bind_eq_bind, Option.bind_eq_some_iff] at h
  obtain ⟨rest₁, h₁, ⟨oldStart, rest₂⟩, h₂, h⟩ := h
  cases h₃ : readCount rest₂ with
  | mk oldCount rest₃ =>
    simp only [h₃] at h
    obtain ⟨rest₄, h₄, ⟨newStart, rest₅⟩, h₅, h⟩ := h
    cases h₆ : readCount rest₅ with
    | mk newCount rest₆ =>
      simp only [h₆] at h
      obtain ⟨trailer, h₇, h⟩ := h
      split at h
      next =>
        cases h
        rw [eq_of_readLiteral h₁, eq_of_readDigits h₂, eq_of_readCount h₃, eq_of_readLiteral h₄,
          eq_of_readDigits h₅, eq_of_readCount h₆, eq_of_readLiteral h₇]
        rfl
      next => cases h

end Reading

/-! ## Hunk bodies -/

/-- The lines behind a hunk header up to the next one that looks like a header. The empty text
behind the last line break is no line. -/
def bodyAfter : List Line → List Line
  | [] => []
  | line :: rest =>
    if looksLikeHeader line ∨ (line = [] ∧ rest = []) then [] else line :: bodyAfter rest

/-- A context line, a deleted or an added one, or the sign that a line break is missing. -/
def IsBodyLine (line : Line) : Prop := ∀ c ∈ line.head?, c = ' ' ∨ c = '-' ∨ c = '+' ∨ c = '\\'

def countsOld (line : Line) : ℕ :=
  if line = [] ∨ line.head? = some ' ' ∨ line.head? = some '-' then 1 else 0

def countsNew (line : Line) : ℕ :=
  if line = [] ∨ line.head? = some ' ' ∨ line.head? = some '+' then 1 else 0

def oldLineCount (body : List Line) : ℕ := (body.map countsOld).sum

def newLineCount (body : List Line) : ℕ := (body.map countsNew).sum

section Bodies

variable {line : Line} {body lines rest : List Line}

theorem oldLineCount_append (body rest : List Line) :
    oldLineCount (body ++ rest) = oldLineCount body + oldLineCount rest := by
  rw [oldLineCount, List.map_append, List.sum_append]
  rfl

theorem newLineCount_append (body rest : List Line) :
    newLineCount (body ++ rest) = newLineCount body + newLineCount rest := by
  rw [newLineCount, List.map_append, List.sum_append]
  rfl

theorem bodyAfter_cons_of_header (h : looksLikeHeader line = true) :
    bodyAfter (line :: rest) = [] :=
  if_pos (.inl h)

theorem bodyAfter_cons (h : looksLikeHeader line = false) (hend : line = [] → rest ≠ []) :
    bodyAfter (line :: rest) = line :: bodyAfter rest :=
  if_neg (by
    rintro (hheader | ⟨hline, hrest⟩)
    · exact absurd (h ▸ hheader) nofun
    · exact hend hline hrest)

theorem looksLikeHeader_of_mem (h : line ∈ bodyAfter lines) : looksLikeHeader line = false := by
  induction lines with
  | nil => cases h
  | cons first rest ih =>
    rw [bodyAfter] at h
    split at h
    next => cases h
    next hbody =>
      rcases List.mem_cons.mp h with rfl | h
      · exact Bool.eq_false_iff.mpr fun hheader => hbody (.inl hheader)
      · exact ih h

theorem exists_eq_bodyAfter_append (lines : List Line) :
    ∃ rest, lines = bodyAfter lines ++ rest := by
  induction lines with
  | nil => exact ⟨[], rfl⟩
  | cons first rest ih =>
    rw [bodyAfter]
    split
    next => exact ⟨first :: rest, rfl⟩
    next =>
      obtain ⟨after, hafter⟩ := ih
      exact ⟨after, congrArg (first :: ·) hafter⟩

theorem bodyAfter_append (hbody : ∀ l ∈ body, looksLikeHeader l = false)
    (hend : rest = [] → body.getLast? ≠ some []) :
    bodyAfter (body ++ rest) = body ++ bodyAfter rest := by
  induction body with
  | nil => rfl
  | cons first body ih =>
    rw [List.cons_append, bodyAfter_cons (hbody first List.mem_cons_self), ih
      (fun l hl => hbody l (List.mem_cons_of_mem _ hl)), List.cons_append]
    · intro hrest hlast
      refine hend hrest ?_
      rw [List.getLast?_cons, hlast]
      rfl
    · rintro rfl hnil
      obtain ⟨rfl, rfl⟩ := List.append_eq_nil_iff.mp hnil
      exact hend rfl rfl

theorem readBody_of_forall (hunk : HunkBody) (h : ∀ l ∈ bodyAfter lines, IsBodyLine l) :
    readBody hunk lines = some
      { body := hunk.body ++ bodyAfter lines
        oldLines := hunk.oldLines + oldLineCount (bodyAfter lines)
        newLines := hunk.newLines + newLineCount (bodyAfter lines) } := by
  induction lines generalizing hunk with
  | nil => simp [readBody, bodyAfter, oldLineCount, newLineCount]
  | cons first rest ih =>
    unfold readBody
    by_cases hheader : looksLikeHeader first = true
    · rw [if_pos hheader, bodyAfter_cons_of_header hheader]
      simp [oldLineCount, newLineCount]
    · rw [if_neg hheader]
      by_cases hlast : first = [] ∧ rest = []
      · obtain ⟨rfl, rfl⟩ := hlast
        simp [bodyAfter, oldLineCount, newLineCount]
      · have hafter := bodyAfter_cons (Bool.eq_false_iff.mpr hheader)
          fun hfirst hrest => hlast ⟨hfirst, hrest⟩
        rw [hafter] at h ⊢
        obtain ⟨hfirst, hmore⟩ := List.forall_mem_cons.mp h
        cases first with
        | nil =>
          have hrest : rest.isEmpty = false := by
            cases rest with
            | nil => exact absurd ⟨rfl, rfl⟩ hlast
            | cons => rfl
          simp [hrest, ih _ hmore, oldLineCount, newLineCount, countsOld, countsNew, Nat.add_assoc]
        | cons c text =>
          rcases hfirst c rfl with rfl | rfl | rfl | rfl <;>
            simp [ih _ hmore, oldLineCount, newLineCount, countsOld, countsNew, Nat.add_assoc]

theorem readBody_of_exists (hunk : HunkBody) (h : ∃ l ∈ bodyAfter lines, ¬ IsBodyLine l) :
    readBody hunk lines = none := by
  induction lines generalizing hunk with
  | nil => exact absurd h (by simp [bodyAfter])
  | cons first rest ih =>
    unfold readBody
    by_cases hheader : looksLikeHeader first = true
    · rw [bodyAfter_cons_of_header hheader] at h
      exact absurd h (by simp)
    · rw [if_neg hheader]
      by_cases hlast : first = [] ∧ rest = []
      · obtain ⟨rfl, rfl⟩ := hlast
        exact absurd h (by simp [bodyAfter])
      · rw [bodyAfter_cons (Bool.eq_false_iff.mpr hheader)
          fun hfirst hrest => hlast ⟨hfirst, hrest⟩] at h
        simp only [List.mem_cons, exists_eq_or_imp] at h
        cases first with
        | nil =>
          have hrest : rest.isEmpty = false := by
            cases rest with
            | nil => exact absurd ⟨rfl, rfl⟩ hlast
            | cons => rfl
          have hmore := h.resolve_left fun hfirst => hfirst nofun
          simp [hrest, ih _ hmore]
        | cons c text =>
          by_cases hsign : c = ' ' ∨ c = '-' ∨ c = '+' ∨ c = '\\'
          · have hmore := h.resolve_left fun hfirst =>
              hfirst fun d hd => Option.some.inj hd ▸ hsign
            rcases hsign with rfl | rfl | rfl | rfl <;> simp [ih _ hmore]
          · obtain ⟨h₁, h₂, h₃, h₄⟩ : c ≠ ' ' ∧ c ≠ '-' ∧ c ≠ '+' ∧ c ≠ '\\' := by
              simpa only [not_or] using hsign
            simp [h₁, h₂, h₃, h₄]

end Bodies

end UnifiedPatch
