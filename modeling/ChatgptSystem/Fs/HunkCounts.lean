import ChatgptSystem.Fs.UnifiedPatch
import Mathlib.Data.List.Forall2

/-!
# Counts of hunk headers

What the normalisation of hunk headers keeps of a patch. A unified patch delimits the bodies of its
hunks by the counts of their headers; the normalisation takes a body to end at the next line that
looks like a header, so that lines which only look like one, or empty lines behind a body, change
counts that were right.

* `normalize_of_kept`, `normalize_of_rewritten` — when the patch is rewritten, and how;
* `UnifiedPatch` — patches whose hunk bodies are delimited by the counts;
* `normalizes_iff` — when the normalisation is idempotent, changes the counts only, and keeps a
  patch whose counts are right.
-/

namespace UnifiedPatch

open Numbers

variable {line : Line} {body lines rest : List Line} {found : HeaderMatch}
  {P : HeaderMatch → List Line → Prop} {patchText : List Char}

/-! ## When a patch is rewritten -/

def SomeHunk (P : HeaderMatch → List Line → Prop) (lines : List Line) : Prop :=
  ∃ found : HeaderMatch, ∃ rest, found.line :: rest <:+ lines ∧ P found rest

def HeaderMatch.States (found : HeaderMatch) (body : List Line) : Prop :=
  found.oldLines = .finite (oldLineCount body) ∧ found.newLines = .finite (newLineCount body)

def Broken (lines : List Line) : Prop :=
  SomeHunk (fun _ rest => bodyAfter rest = [] ∨ ∃ l ∈ bodyAfter rest, ¬ IsBodyLine l) lines

/-- The counts of a header are not those of the lines up to the next header. -/
def Miscounted (lines : List Line) : Prop :=
  SomeHunk (fun found rest => ¬ found.States (bodyAfter rest)) lines

def HeaderMatch.corrected (found : HeaderMatch) (body : List Line) : Line :=
  formatHunkHeader ⟨found.oldStart.number, found.newStart.number, found.trailer⟩
    (oldLineCount body) (newLineCount body)

/-- All headers with the counts of the lines up to the next header. -/
def rewriteLines : List Line → List Line
  | [] => []
  | line :: rest =>
    ((execHunkHeader line).elim line fun found => found.corrected (bodyAfter rest)) ::
      rewriteLines rest

theorem not_someHunk_nil : ¬ SomeHunk P [] := by
  rintro ⟨found, rest, hsuffix, -⟩
  exact absurd (List.suffix_nil.mp hsuffix) (List.cons_ne_nil _ _)

theorem someHunk_cons : SomeHunk P (line :: rest) ↔
    (∃ found, execHunkHeader line = some found ∧ P found rest) ∨ SomeHunk P rest := by
  constructor
  · rintro ⟨found, after, hsuffix, hP⟩
    rcases List.suffix_cons_iff.mp hsuffix with heq | hsuffix
    · obtain ⟨rfl, rfl⟩ := List.cons.inj heq
      exact .inl ⟨found, execHunkHeader_line found, hP⟩
    · exact .inr ⟨found, after, hsuffix, hP⟩
  · rintro (⟨found, hexec, hP⟩ | ⟨found, after, hsuffix, hP⟩)
    · exact ⟨found, rest, eq_line_of_exec hexec ▸ List.suffix_rfl, hP⟩
    · exact ⟨found, after, hsuffix.trans (List.suffix_cons _ _), hP⟩

theorem exec_eq_none (h : looksLikeHeader line = false) : execHunkHeader line = none :=
  Option.not_isSome_iff_eq_none.mp fun hsome => by
    rw [looksLikeHeader, isHunkHeader, hsome] at h
    cases h

theorem someHunk_append (h : ∀ l ∈ body, execHunkHeader l = none) :
    SomeHunk P (body ++ rest) ↔ SomeHunk P rest := by
  induction body with
  | nil => rfl
  | cons first body ih =>
    rw [List.cons_append, someHunk_cons, h first List.mem_cons_self,
      ih fun l hl => h l (List.mem_cons_of_mem _ hl)]
    exact or_iff_right (by simp)

theorem rewriteLines_append (h : ∀ l ∈ body, execHunkHeader l = none) :
    rewriteLines (body ++ rest) = body ++ rewriteLines rest := by
  induction body with
  | nil => rfl
  | cons first body ih =>
    rw [List.cons_append, rewriteLines, h first List.mem_cons_self,
      ih fun l hl => h l (List.mem_cons_of_mem _ hl)]
    rfl

theorem rewriteFrom_skip (body rest : List Line) :
    rewriteFrom body.length (body ++ rest) = rewriteFrom 0 rest := by
  induction body with
  | nil => rfl
  | cons first body ih => rw [List.length_cons, List.cons_append, rewriteFrom, ih]

theorem lines_induction {motive : List Line → Prop} (nil : motive [])
    (line : ∀ line rest, execHunkHeader line = none → motive rest → motive (line :: rest))
    (hunk : ∀ (found : HeaderMatch) (body rest : List Line), bodyAfter (body ++ rest) = body →
      motive rest → motive (found.line :: (body ++ rest))) (lines : List Line) : motive lines := by
  induction hlength : lines.length using Nat.strongRecOn generalizing lines with
  | ind n ih =>
    cases lines with
    | nil => exact nil
    | cons first rest =>
      rw [List.length_cons] at hlength
      cases hexec : execHunkHeader first with
      | none => exact line first rest hexec (ih rest.length (by omega) rest rfl)
      | some found =>
        obtain ⟨after, hafter⟩ := exists_eq_bodyAfter_append rest
        have hlengths := congrArg List.length hafter
        rw [List.length_append] at hlengths
        rw [eq_line_of_exec hexec, hafter]
        exact hunk found _ after (by rw [← hafter]) (ih after.length (by omega) after rfl)

theorem exec_eq_none_of_mem (h : bodyAfter lines = body) : ∀ l ∈ body, execHunkHeader l = none :=
  fun _ hl => exec_eq_none (looksLikeHeader_of_mem (h ▸ hl))

theorem someHunk_hunk (h : bodyAfter (body ++ rest) = body) :
    SomeHunk P (found.line :: (body ++ rest)) ↔ P found (body ++ rest) ∨ SomeHunk P rest := by
  rw [someHunk_cons, someHunk_append (exec_eq_none_of_mem h)]
  simp

theorem rewriteFrom_of_broken (h : Broken lines) : rewriteFrom 0 lines = none := by
  induction lines using lines_induction with
  | nil => exact absurd h not_someHunk_nil
  | line line rest hnone ih =>
    obtain ⟨found, hfound, -⟩ | hrest := someHunk_cons.mp h
    · exact absurd (hnone ▸ hfound) nofun
    · rw [rewriteFrom, parseHunkHeader, hnone, Option.map_none, ih hrest]
      rfl
  | hunk found body rest hbody ih =>
    rw [rewriteFrom, parseHunkHeader, execHunkHeader_line, Option.map_some]
    dsimp only
    obtain hbroken | hrest := (someHunk_hunk hbody).mp h
    · rw [hbody] at hbroken
      by_cases hline : ∃ l ∈ body, ¬ IsBodyLine l
      · rw [readBody_of_exists _ (by rwa [hbody])]
      · rw [readBody_of_forall _ (by rw [hbody]; simpa using hline), hbody,
          hbroken.resolve_right hline]
        rfl
    · by_cases hline : ∃ l ∈ body, ¬ IsBodyLine l
      · rw [readBody_of_exists _ (by rwa [hbody])]
      · rw [readBody_of_forall _ (by rw [hbody]; simpa using hline), hbody]
        dsimp only [List.nil_append]
        rw [rewriteFrom_skip, ih hrest]
        exact ite_self _

theorem rewriteFrom_of_not_broken (h : ¬ Broken lines) : ∃ normalized,
    rewriteFrom 0 lines = some (rewriteLines lines, normalized) ∧
      (normalized = true ↔ Miscounted lines) := by
  induction lines using lines_induction with
  | nil => exact ⟨false, rfl, iff_of_false nofun not_someHunk_nil⟩
  | line line rest hnone ih =>
    obtain ⟨normalized, hrewrite, hiff⟩ := ih fun hrest => h (someHunk_cons.mpr (.inr hrest))
    refine ⟨normalized, ?_, hiff.trans ?_⟩
    · rw [rewriteFrom, parseHunkHeader, hnone, Option.map_none, hrewrite, rewriteLines, hnone]
      rfl
    · rw [Miscounted, Miscounted, someHunk_cons, hnone]
      exact (or_iff_right (by simp)).symm
  | hunk found body rest hbody ih =>
    rw [Broken, someHunk_hunk hbody, hbody, not_or, not_or] at h
    obtain ⟨⟨hempty, hlines⟩, hrest⟩ := h
    obtain ⟨normalized, hrewrite, hiff⟩ := ih hrest
    refine ⟨decide (.finite (oldLineCount body) ≠ found.oldLines ∨
      .finite (newLineCount body) ≠ found.newLines) || normalized, ?_, ?_⟩
    · rw [rewriteFrom, parseHunkHeader, execHunkHeader_line, Option.map_some]
      dsimp only
      rw [readBody_of_forall _ (by rw [hbody]; simpa using hlines), hbody]
      dsimp only [List.nil_append]
      rw [if_neg (by simpa using hempty), rewriteFrom_skip, hrewrite, rewriteLines,
        execHunkHeader_line, rewriteLines_append (exec_eq_none_of_mem hbody)]
      simp [hbody, HeaderMatch.corrected]
    · rw [Miscounted, someHunk_hunk hbody, hbody, Bool.or_eq_true, hiff, decide_eq_true_iff,
        HeaderMatch.States, not_and_or, ne_comm, @ne_comm _ _ found.newLines]
      rfl

def linesOf (patchText : List Char) : List Line := patchText.splitOn '\n'

theorem normalize_of_kept (h : Broken (linesOf patchText) ∨ ¬ Miscounted (linesOf patchText)) :
    normalizeUnifiedPatchHunkHeaders patchText = ⟨patchText, false⟩ := by
  rw [normalizeUnifiedPatchHunkHeaders, ← linesOf]
  by_cases hbroken : Broken (linesOf patchText)
  · rw [rewriteFrom_of_broken hbroken]
  · obtain ⟨normalized, hrewrite, hiff⟩ := rewriteFrom_of_not_broken hbroken
    have hfalse : normalized = false :=
      Bool.eq_false_iff.mpr (mt hiff.mp (h.resolve_left hbroken))
    rw [hrewrite, hfalse]
    rfl

theorem normalize_of_rewritten (hbroken : ¬ Broken (linesOf patchText))
    (h : Miscounted (linesOf patchText)) : normalizeUnifiedPatchHunkHeaders patchText =
      ⟨['\n'].intercalate (rewriteLines (linesOf patchText)), true⟩ := by
  obtain ⟨normalized, hrewrite, hiff⟩ := rewriteFrom_of_not_broken hbroken
  rw [normalizeUnifiedPatchHunkHeaders, ← linesOf, hrewrite, hiff.mpr h]
  rfl

/-! ## Lines of a patch -/

theorem notMem_of_mem_linesOf (h : line ∈ linesOf patchText) : '\n' ∉ line := by
  induction patchText generalizing line with
  | nil =>
    obtain rfl := List.mem_singleton.mp h
    exact List.not_mem_nil
  | cons c patchText ih =>
    rw [linesOf, List.splitOn_cons_eq_if_modifyHead] at h
    split at h
    next =>
      rcases List.mem_cons.mp h with rfl | h
      · exact List.not_mem_nil
      · exact ih h
    next hc =>
      obtain ⟨first, rest, hsplit⟩ :=
        List.exists_cons_of_ne_nil (List.splitOn_ne_nil '\n' patchText)
      rw [hsplit, List.modifyHead_cons] at h
      rw [linesOf, hsplit] at ih
      rcases List.mem_cons.mp h with rfl | h
      · exact List.mem_cons.not.mpr
          (not_or.mpr ⟨fun heq => hc (beq_iff_eq.mpr heq.symm), ih List.mem_cons_self⟩)
      · exact ih (List.mem_cons_of_mem _ h)

theorem length_linesOf (patchText : List Char) :
    (linesOf patchText).length ≤ patchText.length + 1 := by
  induction patchText with
  | nil => exact Nat.le_refl _
  | cons c patchText ih =>
    rw [linesOf, List.splitOn_cons_eq_if_modifyHead]
    rw [linesOf] at ih
    split
    · exact Nat.succ_le_succ ih
    · rw [List.length_modifyHead]
      exact ih.trans (Nat.le_succ _)

theorem oldLineCount_le (body : List Line) : oldLineCount body ≤ body.length := by
  induction body with
  | nil => exact Nat.le_refl _
  | cons line body ih =>
    rw [oldLineCount, List.map_cons, List.sum_cons, List.length_cons, ← oldLineCount]
    have hline : countsOld line ≤ 1 := by unfold countsOld; split <;> simp
    omega

theorem newLineCount_le (body : List Line) : newLineCount body ≤ body.length := by
  induction body with
  | nil => exact Nat.le_refl _
  | cons line body ih =>
    rw [newLineCount, List.map_cons, List.sum_cons, List.length_cons, ← newLineCount]
    have hline : countsNew line ≤ 1 := by unfold countsNew; split <;> simp
    omega

def Small (lines : List Line) : Prop := lines.length < 2 ^ 53

theorem small_of_suffix (htext : patchText.length < 2 ^ 53)
    (h : line :: rest <:+ linesOf patchText) : Small rest := by
  have hle := h.length_le
  have hlines := length_linesOf patchText
  rw [List.length_cons] at hle
  unfold Small
  omega

theorem Small.of_append (h : Small (body ++ rest)) : Small body := by
  unfold Small at h ⊢
  rw [List.length_append] at h
  omega

theorem small_bodyAfter (h : Small rest) : Small (bodyAfter rest) := by
  obtain ⟨after, hafter⟩ := exists_eq_bodyAfter_append rest
  exact Small.of_append (hafter ▸ h)

/-! ## Corrected headers -/

theorem append_inj_of_head {p : Char → Prop} {a b x y : List Char} (ha : ∀ c ∈ a, p c)
    (hb : ∀ c ∈ b, p c) (hx : ∀ c ∈ x.head?, ¬ p c) (hy : ∀ c ∈ y.head?, ¬ p c)
    (h : a ++ x = b ++ y) : a = b ∧ x = y := by
  obtain ⟨m, rfl, rfl⟩ | ⟨m, rfl, rfl⟩ := List.append_eq_append_iff.mp h
  · cases m with
    | nil => exact ⟨(List.append_nil a).symm, rfl⟩
    | cons c m => exact absurd (hb c (by simp)) (hx c rfl)
  · cases m with
    | nil => exact ⟨List.append_nil b, rfl⟩
    | cons c m => exact absurd (ha c (by simp)) (hy c rfl)

theorem Digits.isNumberCharacter {c : Char} (digits : Digits) (h : c ∈ digits.text) :
    IsNumberCharacter c := .inl (by simp [Char.isAlphanum, digits.isDigit c h])

theorem start_count_inj {start count x y : List Char} {start' : Digits} {count' : Option Digits}
    {c : Char} (hstart : ∀ c ∈ start, IsNumberCharacter c) (hcount : ∀ c ∈ count, c.isDigit = true)
    (h : start ++ (',' :: count ++ ' ' :: c :: x) =
      start'.text ++ (countText count' ++ ([' ', c] ++ y))) :
    start'.text = start ∧ (∃ digits, count' = some digits ∧ digits.text = count) ∧ x = y := by
  have hspace : ¬ IsNumberCharacter ' ' := by unfold IsNumberCharacter; decide
  have hcomma : ¬ IsNumberCharacter ',' := by unfold IsNumberCharacter; decide
  have hbehind : ∀ d ∈ (countText count' ++ ([' ', c] ++ y)).head?, ¬ IsNumberCharacter d := by
    intro d hd
    cases count' with
    | none => exact Option.some.inj hd ▸ hspace
    | some digits => exact Option.some.inj hd ▸ hcomma
  obtain ⟨rfl, hrest⟩ := append_inj_of_head hstart (fun _ => start'.isNumberCharacter)
    (by rintro d ⟨⟩; exact hcomma) hbehind h
  cases count' with
  | none => exact absurd (List.cons.inj hrest).1 (by decide)
  | some digits =>
    obtain ⟨rfl, hmore⟩ := append_inj_of_head (p := fun c => c.isDigit = true) hcount
      digits.isDigit (by simp) (by simp) (List.cons.inj hrest).2
    exact ⟨rfl, ⟨digits, rfl, rfl⟩, (List.cons.inj (List.cons.inj hmore).2).2⟩

theorem number_of_text {digits : Digits} {n : ℕ} (h : digits.text = Nat.toDigits 10 n)
    (hn : n < 2 ^ 53) : digits.number = .finite n := by
  rw [Digits.number, Digits.value, h, Nat.ofDigitChars_ten_toDigits, nearest_of_lt hn]

def HeaderMatch.Canonical (found : HeaderMatch) : Prop :=
  toText found.oldStart.number = found.oldStart.text ∧
    toText found.newStart.number = found.newStart.text

theorem corrected_eq (found : HeaderMatch) (h : Small body) : found.corrected body =
    ['@', '@', ' ', '-'] ++ (toText found.oldStart.number ++ (',' ::
      Nat.toDigits 10 (oldLineCount body) ++ ' ' :: '+' :: (toText found.newStart.number ++ (',' ::
        Nat.toDigits 10 (newLineCount body) ++ ' ' :: '@' :: ('@' :: found.trailer))))) := by
  rw [HeaderMatch.corrected, formatHunkHeader, toText_of_lt ((oldLineCount_le body).trans_lt h),
    toText_of_lt ((newLineCount_le body).trans_lt h)]
  simp only [List.append_assoc, List.cons_append, List.nil_append]

theorem states_of_corrected {found' : HeaderMatch} (hbody : Small body)
    (h : found.corrected body = found'.line) :
    found'.oldStart.text = toText found.oldStart.number ∧
      found'.newStart.text = toText found.newStart.number ∧ found'.trailer = found.trailer ∧
      found'.States body := by
  rw [corrected_eq found hbody, HeaderMatch.line] at h
  have hdigits : ∀ (n : ℕ), ∀ c ∈ Nat.toDigits 10 n, c.isDigit = true := fun n c hc =>
    Nat.isDigit_of_mem_toDigits (by decide) (by decide) hc
  obtain ⟨hold, ⟨oldCount, hoffOld, holdCount⟩, h⟩ := start_count_inj
    (fun _ => isNumberCharacter_of_mem) (hdigits _) (List.append_cancel_left h)
  obtain ⟨hnew, ⟨newCount, hoffNew, hnewCount⟩, h⟩ := start_count_inj
    (fun _ => isNumberCharacter_of_mem) (hdigits _) h
  refine ⟨hold, hnew, (List.cons.inj h).2.symm, ?_, ?_⟩
  · rw [HeaderMatch.oldLines, hoffOld]
    exact number_of_text holdCount ((oldLineCount_le body).trans_lt hbody)
  · rw [HeaderMatch.newLines, hoffNew]
    exact number_of_text hnewCount ((newLineCount_le body).trans_lt hbody)

def digitsOf (n : ℕ) : Digits :=
  ⟨Nat.toDigits 10 n, Nat.toDigits_ne_nil,
    fun _ hc => Nat.isDigit_of_mem_toDigits (by decide) (by decide) hc⟩

theorem exists_corrected (h : found.Canonical) (hbody : Small body) :
    found.corrected body = HeaderMatch.line
      { found with
        oldCount := some (digitsOf (oldLineCount body))
        newCount := some (digitsOf (newLineCount body)) } := by
  rw [corrected_eq found hbody, h.1, h.2]
  rfl

theorem corrected_cases (found : HeaderMatch) (hbody : Small body) :
    '\n' ∉ found.corrected body ∧ (found.corrected body).head? = some '@' := by
  rw [corrected_eq found hbody]
  refine ⟨fun hmem => ?_, rfl⟩
  have hnumber : ∀ x : Double, '\n' ∉ toText x := fun x hx =>
    absurd (isNumberCharacter_of_mem hx) (by unfold IsNumberCharacter; decide)
  have hdigits : ∀ n : ℕ, '\n' ∉ Nat.toDigits 10 n := fun n hn =>
    absurd (isNumberCharacter_of_mem_toDigits hn) (by unfold IsNumberCharacter; decide)
  have htrailer : '\n' ∉ found.trailer := fun hmem => absurd (found.oneLine _ hmem) (by decide)
  simp [hnumber, hdigits, htrailer] at hmem

/-! ## The rewritten patch -/

@[simp] theorem rewriteLines_eq_nil_iff : rewriteLines lines = [] ↔ lines = [] := by
  cases lines <;> simp [rewriteLines]

theorem rewriteLines_of_none (h : execHunkHeader line = none) :
    rewriteLines (line :: rest) = line :: rewriteLines rest := by
  rw [rewriteLines, h]
  rfl

theorem rewriteLines_line (found : HeaderMatch) (rest : List Line) :
    rewriteLines (found.line :: rest) = found.corrected (bodyAfter rest) :: rewriteLines rest := by
  rw [rewriteLines, execHunkHeader_line]
  rfl

theorem exists_of_suffix_rewriteLines {rest' : List Line}
    (h : line :: rest' <:+ rewriteLines lines) :
    ∃ rest, rest' = rewriteLines rest ∧
      ((line :: rest <:+ lines ∧ execHunkHeader line = none) ∨
        ∃ found : HeaderMatch,
          found.line :: rest <:+ lines ∧ line = found.corrected (bodyAfter rest)) := by
  induction lines with
  | nil => exact absurd (List.suffix_nil.mp h) (List.cons_ne_nil _ _)
  | cons first lines ih =>
    cases hexec : execHunkHeader first with
    | none =>
      rw [rewriteLines_of_none hexec] at h
      rcases List.suffix_cons_iff.mp h with heq | h
      · obtain ⟨rfl, rfl⟩ := List.cons.inj heq
        exact ⟨lines, rfl, .inl ⟨List.suffix_rfl, hexec⟩⟩
      · obtain ⟨rest, hrest, hkind⟩ := ih h
        exact ⟨rest, hrest, hkind.imp (And.imp_left fun h => h.trans (List.suffix_cons _ _))
          fun ⟨found, hfound⟩ => ⟨found, hfound.1.trans (List.suffix_cons _ _), hfound.2⟩⟩
    | some found =>
      obtain rfl := eq_line_of_exec hexec
      rw [rewriteLines_line] at h
      rcases List.suffix_cons_iff.mp h with heq | h
      · obtain ⟨rfl, rfl⟩ := List.cons.inj heq
        exact ⟨lines, rfl, .inr ⟨found, List.suffix_rfl, rfl⟩⟩
      · obtain ⟨rest, hrest, hkind⟩ := ih h
        exact ⟨rest, hrest, hkind.imp (And.imp_left fun h => h.trans (List.suffix_cons _ _))
          fun ⟨found, hfound⟩ => ⟨found, hfound.1.trans (List.suffix_cons _ _), hfound.2⟩⟩

theorem linesOf_rewritten (htext : patchText.length < 2 ^ 53) :
    linesOf (['\n'].intercalate (rewriteLines (linesOf patchText))) =
      rewriteLines (linesOf patchText) := by
  refine List.splitOn_intercalate _ (fun line hline => ?_)
    (mt rewriteLines_eq_nil_iff.mp (List.splitOn_ne_nil '\n' patchText))
  obtain ⟨before, rest', hsplit⟩ := List.append_of_mem hline
  obtain ⟨rest, -, ⟨hsuffix, -⟩ | ⟨found, hsuffix, rfl⟩⟩ :=
    exists_of_suffix_rewriteLines ⟨before, hsplit.symm⟩
  · exact notMem_of_mem_linesOf (hsuffix.subset List.mem_cons_self)
  · exact (corrected_cases found (small_bodyAfter (small_of_suffix htext hsuffix))).1

theorem bodyAfter_rewriteLines (h : Small rest) : bodyAfter (rewriteLines rest) = bodyAfter rest ∨
    ∃ l ∈ bodyAfter (rewriteLines rest), ¬ IsBodyLine l := by
  induction rest with
  | nil => exact .inl rfl
  | cons line rest ih =>
    have hrest : Small rest := (Nat.lt_succ_self _).trans h
    cases hexec : execHunkHeader line with
    | some found =>
      obtain rfl := eq_line_of_exec hexec
      obtain ⟨-, hhead⟩ := corrected_cases found (small_bodyAfter hrest)
      have hheader : looksLikeHeader found.line = true := by
        rw [looksLikeHeader, isHunkHeader, hexec]
        rfl
      rw [rewriteLines_line, bodyAfter_cons_of_header hheader]
      cases hstill : looksLikeHeader (found.corrected (bodyAfter rest)) with
      | true => exact .inl (bodyAfter_cons_of_header hstill)
      | false =>
        refine .inr ⟨found.corrected (bodyAfter rest), ?_, fun hbody => ?_⟩
        · rw [bodyAfter_cons hstill fun hnil => by rw [hnil] at hhead; cases hhead]
          exact List.mem_cons_self
        · exact absurd (hbody '@' hhead) (by decide)
    | none =>
      rw [rewriteLines_of_none hexec]
      cases hheader : looksLikeHeader line with
      | true => exact .inl (by
          rw [bodyAfter_cons_of_header hheader, bodyAfter_cons_of_header hheader])
      | false =>
        by_cases hlast : line = [] ∧ rest = []
        · obtain ⟨rfl, rfl⟩ := hlast
          exact .inl rfl
        · have hnil : line = [] → rest ≠ [] := fun hline hrest => hlast ⟨hline, hrest⟩
          rw [bodyAfter_cons hheader hnil, bodyAfter_cons hheader (by simpa using hnil)]
          refine (ih hrest).imp (congrArg (line :: ·)) ?_
          rintro ⟨l, hl, hbad⟩
          exact ⟨l, List.mem_cons_of_mem _ hl, hbad⟩

theorem rewriteLines_kept (htext : patchText.length < 2 ^ 53) :
    Broken (rewriteLines (linesOf patchText)) ∨
      ¬ Miscounted (rewriteLines (linesOf patchText)) := by
  refine or_iff_not_imp_right.mpr fun hmiscounted => ?_
  obtain ⟨found', rest', hsuffix', hstates⟩ := not_not.mp hmiscounted
  obtain ⟨rest, rfl, ⟨-, hnone⟩ | ⟨found, hsuffix, hline⟩⟩ :=
    exists_of_suffix_rewriteLines hsuffix'
  · rw [execHunkHeader_line] at hnone
    cases hnone
  · have hsmall := small_of_suffix htext hsuffix
    obtain ⟨-, -, -, hfound'⟩ := states_of_corrected (small_bodyAfter hsmall) hline.symm
    rcases bodyAfter_rewriteLines hsmall with hsame | hbad
    · exact absurd (hsame ▸ hfound') hstates
    · exact ⟨found', _, hsuffix', .inr hbad⟩

theorem normalize_normalize (htext : patchText.length < 2 ^ 53) :
    (normalizeUnifiedPatchHunkHeaders (normalizeUnifiedPatchHunkHeaders patchText).patch).patch =
      (normalizeUnifiedPatchHunkHeaders patchText).patch := by
  by_cases hkept : Broken (linesOf patchText) ∨ ¬ Miscounted (linesOf patchText)
  · rw [normalize_of_kept hkept, normalize_of_kept hkept]
  · obtain ⟨hbroken, hmiscounted⟩ := not_or.mp hkept
    rw [normalize_of_rewritten hbroken (not_not.mp hmiscounted)]
    dsimp only
    rw [normalize_of_kept]
    rw [linesOf_rewritten htext]
    exact rewriteLines_kept htext

/-- Lines that are the same, or hunk headers that differ in their counts only. -/
inductive SameButCounts : Line → Line → Prop where
  | same (line : Line) : SameButCounts line line
  | counts {found found' : HeaderMatch} (hold : found'.oldStart.text = found.oldStart.text)
      (hnew : found'.newStart.text = found.newStart.text)
      (htrailer : found'.trailer = found.trailer) : SameButCounts found.line found'.line

theorem sameButCounts_corrected_iff (hbody : Small body) :
    SameButCounts found.line (found.corrected body) ↔ found.Canonical := by
  constructor
  · intro h
    generalize hline : found.line = line at h
    generalize hline' : found.corrected body = line' at h
    obtain ⟨found', hfound', hold, hnew⟩ : ∃ found' : HeaderMatch, line' = found'.line ∧
        found'.oldStart.text = found.oldStart.text ∧
          found'.newStart.text = found.newStart.text := by
      cases h with
      | same => exact ⟨found, hline.symm, rfl, rfl⟩
      | counts hold hnew _ =>
        obtain rfl := line_injective hline
        exact ⟨_, rfl, hold, hnew⟩
    obtain ⟨hold', hnew', -⟩ := states_of_corrected hbody (hline'.trans hfound')
    exact ⟨hold'.symm.trans hold, hnew'.symm.trans hnew⟩
  · intro h
    rw [exists_corrected h hbody]
    exact .counts rfl rfl rfl

theorem forall₂_rewriteLines_iff (h : lines.length ≤ 2 ^ 53) :
    List.Forall₂ SameButCounts lines (rewriteLines lines) ↔
      ∀ found : HeaderMatch, found.line ∈ lines → found.Canonical := by
  induction lines with
  | nil => exact iff_of_true .nil nofun
  | cons line rest ih =>
    have hrest : Small rest := h
    cases hexec : execHunkHeader line with
    | none =>
      rw [rewriteLines_of_none hexec, List.forall₂_cons, ih hrest.le]
      have hline : ∀ found : HeaderMatch, found.line ≠ line := by
        rintro found rfl
        rw [execHunkHeader_line] at hexec
        cases hexec
      simp [hline, SameButCounts.same]
    | some found =>
      obtain rfl := eq_line_of_exec hexec
      rw [rewriteLines_line, List.forall₂_cons, ih hrest.le,
        sameButCounts_corrected_iff (small_bodyAfter hrest)]
      constructor
      · rintro ⟨hfound, hmore⟩ found' hmem
        rcases List.mem_cons.mp hmem with heq | hmem
        · exact line_injective heq ▸ hfound
        · exact hmore found' hmem
      · exact fun hall => ⟨hall found List.mem_cons_self,
          fun found' hmem => hall found' (List.mem_cons_of_mem _ hmem)⟩

theorem corrected_of_rewriteLines_eq (h : rewriteLines lines = lines)
    (hsuffix : found.line :: rest <:+ lines) : found.corrected (bodyAfter rest) = found.line := by
  induction lines with
  | nil => exact absurd (List.suffix_nil.mp hsuffix) (List.cons_ne_nil _ _)
  | cons first lines ih =>
    rw [rewriteLines] at h
    obtain ⟨hfirst, hmore⟩ := List.cons.inj h
    rcases List.suffix_cons_iff.mp hsuffix with heq | hsuffix
    · obtain ⟨rfl, rfl⟩ := List.cons.inj heq
      rwa [execHunkHeader_line] at hfirst
    · exact ih hmore hsuffix

/-! ## Patches with right counts -/

structure IsHunk (found : HeaderMatch) (body rest : List Line) : Prop where
  lines : ∀ l ∈ body, IsBodyLine l
  oldCount : found.oldCount.elim 1 Digits.value = oldLineCount body
  newCount : found.newCount.elim 1 Digits.value = newLineCount body
  -- The empty text behind the last line break is no line.
  ends : rest = [] → body.getLast? ≠ some []

def IsHeading (lines : List Line) : Prop :=
  ∃ before oldFile newFile, lines = before ++ [oldFile, newFile] ∧
    (∀ l ∈ before, execHunkHeader l = none) ∧
    ['-', '-', '-', ' '] <+: oldFile ∧ ['+', '+', '+', ' '] <+: newFile

/-- What stands behind a heading: hunks, further files, and at the end lines of neither. -/
inductive Hunks : List Line → Prop where
  | rest {lines : List Line} (h : ∀ l ∈ lines, execHunkHeader l = none) : Hunks lines
  | hunk {found : HeaderMatch} {body rest : List Line} (h : IsHunk found body rest)
      (hrest : Hunks rest) : Hunks (found.line :: (body ++ rest))
  | file {heading rest : List Line} (h : IsHeading heading) (hrest : Hunks rest) :
      Hunks (heading ++ rest)

/-- A patch of one or more files whose headers state the right counts. -/
def IsUnifiedPatch (lines : List Line) : Prop :=
  ∃ heading hunks, lines = heading ++ hunks ∧ IsHeading heading ∧ Hunks hunks

/-- The next line that looks like a header, or the end, is where the body ends: no line of the body
looks like the name of a file, and nothing behind it looks like another line of the body. -/
def Delimited (body rest : List Line) : Prop :=
  (∀ l ∈ body, isFileHeader l = false) ∧ ∀ l ∈ bodyAfter rest, l.head? = some '\\'

theorem exec_eq_none_of_isBodyLine (h : IsBodyLine line) : execHunkHeader line = none := by
  cases hexec : execHunkHeader line with
  | none => rfl
  | some found =>
    rw [eq_line_of_exec hexec] at h
    exact absurd (h '@' rfl) (by decide)

theorem exec_eq_none_of_heading (h : IsHeading lines) : ∀ l ∈ lines, execHunkHeader l = none := by
  obtain ⟨before, oldFile, newFile, rfl, hbefore, hold, hnew⟩ := h
  intro l hl
  rcases List.mem_append.mp hl with hl | hl
  · exact hbefore l hl
  · refine exec_eq_none_of_isBodyLine fun c hc => ?_
    rcases List.mem_cons.mp hl with rfl | hl
    · obtain ⟨name, rfl⟩ := hold
      exact .inr (.inl (Option.some.inj hc).symm)
    · obtain rfl := List.mem_singleton.mp hl
      obtain ⟨name, rfl⟩ := hnew
      exact .inr (.inr (.inl (Option.some.inj hc).symm))

theorem suffix_of_suffix_append (h : ∀ l ∈ body, execHunkHeader l = none)
    (hsuffix : found.line :: rest <:+ body ++ lines) : found.line :: rest <:+ lines := by
  induction body with
  | nil => exact hsuffix
  | cons first body ih =>
    rcases List.suffix_cons_iff.mp hsuffix with heq | hsuffix
    · have hfirst := h first List.mem_cons_self
      rw [← (List.cons.inj heq).1, execHunkHeader_line] at hfirst
      cases hfirst
    · exact ih (fun l hl => h l (List.mem_cons_of_mem _ hl)) hsuffix

theorem exists_isHunk (h : Hunks lines) (hsuffix : found.line :: rest <:+ lines) :
    ∃ body after, rest = body ++ after ∧ IsHunk found body after := by
  induction h with
  | rest hnone =>
    have hline := hnone _ (hsuffix.subset List.mem_cons_self)
    rw [execHunkHeader_line] at hline
    cases hline
  | hunk hhunk _ ih =>
    rcases List.suffix_cons_iff.mp hsuffix with heq | hsuffix
    · obtain ⟨hline, rfl⟩ := List.cons.inj heq
      obtain rfl := line_injective hline
      exact ⟨_, _, rfl, hhunk⟩
    · exact ih (suffix_of_suffix_append
        (fun l hl => exec_eq_none_of_isBodyLine (hhunk.lines l hl)) hsuffix)
  | file hheading _ ih =>
    exact ih (suffix_of_suffix_append (exec_eq_none_of_heading hheading) hsuffix)

theorem number_of_count {count : Option Digits} {n : ℕ} (h : count.elim 1 Digits.value = n)
    (hn : n < 2 ^ 53) : count.elim (.finite 1) Digits.number = .finite n := by
  cases count with
  | none => exact congrArg Double.finite h
  | some digits =>
    obtain rfl : digits.value = n := h
    exact nearest_of_lt hn

theorem IsHunk.states (h : IsHunk found body rest) (hbody : Small body) : found.States body :=
  ⟨number_of_count h.oldCount ((oldLineCount_le body).trans_lt hbody),
    number_of_count h.newCount ((newLineCount_le body).trans_lt hbody)⟩

theorem counts_pos (h : IsBodyLine line) (hsign : line.head? ≠ some '\\') :
    0 < countsOld line + countsNew line := by
  cases line with
  | nil => decide
  | cons c text =>
    rcases h c rfl with rfl | rfl | rfl | rfl
    · simp [countsOld, countsNew]
    · simp [countsOld, countsNew]
    · simp [countsOld, countsNew]
    · exact absurd rfl hsign

theorem sign_of_isFileHeader (h : IsBodyLine line) (hfile : isFileHeader line = true) :
    line.head? ≠ some '\\' := by
  intro hhead
  cases line with
  | nil => cases hhead
  | cons c text =>
    obtain rfl := Option.some.inj hhead
    simp [isFileHeader] at hfile

def lineCount (body : List Line) : ℕ := oldLineCount body + newLineCount body

theorem lineCount_cons (line : Line) (body : List Line) :
    lineCount (line :: body) = countsOld line + countsNew line + lineCount body := by
  simp only [lineCount, oldLineCount, newLineCount, List.map_cons, List.sum_cons]
  omega

theorem lineCount_append (body rest : List Line) :
    lineCount (body ++ rest) = lineCount body + lineCount rest := by
  rw [lineCount, oldLineCount_append, newLineCount_append, lineCount, lineCount]
  omega

theorem lineCount_cut (hbody : ∀ l ∈ body, IsBodyLine l) (h : ∃ l ∈ body, isFileHeader l = true) :
    lineCount (bodyAfter (body ++ rest)) < lineCount body := by
  induction body with
  | nil => exact absurd h (by simp)
  | cons first body ih =>
    obtain ⟨hfirst, hmore⟩ := List.forall_mem_cons.mp hbody
    rw [List.cons_append, lineCount_cons]
    by_cases hfile : isFileHeader first = true
    · have hpos := counts_pos hfirst (sign_of_isFileHeader hfirst hfile)
      rw [bodyAfter_cons_of_header (by rw [looksLikeHeader, hfile, Bool.or_true])]
      exact Nat.lt_of_lt_of_le hpos (Nat.le_add_right _ _)
    · obtain ⟨l, hl, hheader⟩ := h
      have hmem : l ∈ body := (List.mem_cons.mp hl).resolve_left fun heq => hfile (heq ▸ hheader)
      have hnot : looksLikeHeader first = false := by
        rw [looksLikeHeader, isHunkHeader, exec_eq_none_of_isBodyLine hfirst,
          Bool.eq_false_iff.mpr hfile]
        rfl
      have hrest : first = [] → body ++ rest ≠ [] := fun _ hnil =>
        absurd ((List.append_eq_nil_iff.mp hnil).1 ▸ hmem) List.not_mem_nil
      rw [bodyAfter_cons hnot hrest, lineCount_cons]
      exact Nat.add_lt_add_left (ih hmore ⟨l, hmem, hheader⟩) _

theorem looksLikeHeader_eq_false (h : IsBodyLine line) (hfile : isFileHeader line = false) :
    looksLikeHeader line = false := by
  rw [looksLikeHeader, isHunkHeader, exec_eq_none_of_isBodyLine h, hfile]
  rfl

theorem lineCount_pos (hlines : ∀ l ∈ body, IsBodyLine l)
    (h : ∃ l ∈ body, l.head? ≠ some '\\') : 0 < lineCount body := by
  obtain ⟨l, hl, hsign⟩ := h
  obtain ⟨before, after, rfl⟩ := List.append_of_mem hl
  have hpos := counts_pos (hlines l hl) hsign
  rw [lineCount_append, lineCount_cons]
  omega

theorem counts_eq_zero (h : ∀ l ∈ body, l.head? = some '\\') :
    oldLineCount body = 0 ∧ newLineCount body = 0 := by
  induction body with
  | nil => exact ⟨rfl, rfl⟩
  | cons line body ih =>
    obtain ⟨hline, hmore⟩ := List.forall_mem_cons.mp h
    obtain ⟨hold, hnew⟩ := ih hmore
    cases line with
    | nil => cases hline
    | cons c text =>
      rw [oldLineCount, newLineCount, List.map_cons, List.sum_cons, List.map_cons, List.sum_cons,
        ← oldLineCount, ← newLineCount, hold, hnew]
      simp [countsOld, countsNew, hline]

theorem IsHunk.states_iff (h : IsHunk found body rest) (hsmall : Small (body ++ rest))
    (hlines : ∀ l ∈ bodyAfter (body ++ rest), IsBodyLine l) :
    found.States (bodyAfter (body ++ rest)) ↔ Delimited body rest := by
  have hstates := h.states hsmall.of_append
  constructor
  · intro hcounted
    have hsum : lineCount (bodyAfter (body ++ rest)) = lineCount body := by
      have hold := Double.finite.inj (hcounted.1.symm.trans hstates.1)
      have hnew := Double.finite.inj (hcounted.2.symm.trans hstates.2)
      rw [lineCount, lineCount, hold, hnew]
    have hfiles : ∀ l ∈ body, isFileHeader l = false := by
      by_contra hfile
      push Not at hfile
      obtain ⟨l, hl, hheader⟩ := hfile
      exact absurd hsum
        (lineCount_cut h.lines ⟨l, hl, by simpa using hheader⟩).ne
    refine ⟨hfiles, ?_⟩
    by_contra hsign
    push Not at hsign
    rw [bodyAfter_append (fun l hl => looksLikeHeader_eq_false (h.lines l hl) (hfiles l hl)) h.ends]
      at hsum hlines
    have hpos := lineCount_pos (fun l hl => hlines l (List.mem_append_right _ hl)) hsign
    rw [lineCount_append] at hsum
    omega
  · rintro ⟨hfiles, hsigns⟩
    obtain ⟨hold, hnew⟩ := counts_eq_zero hsigns
    rw [bodyAfter_append (fun l hl => looksLikeHeader_eq_false (h.lines l hl) (hfiles l hl)) h.ends,
      HeaderMatch.States, oldLineCount_append, newLineCount_append, hold, hnew]
    exact hstates

/-! ## What the normalisation keeps -/

/-- The normalisation is idempotent, changes the counts of hunk headers only, and keeps a patch
whose counts are right. -/
structure Normalizes (patchText : List Char) : Prop where
  idempotent :
    (normalizeUnifiedPatchHunkHeaders (normalizeUnifiedPatchHunkHeaders patchText).patch).patch =
      (normalizeUnifiedPatchHunkHeaders patchText).patch
  onlyCounts : List.Forall₂ SameButCounts (linesOf patchText)
    (linesOf (normalizeUnifiedPatchHunkHeaders patchText).patch)
  identity : IsUnifiedPatch (linesOf patchText) →
    (normalizeUnifiedPatchHunkHeaders patchText).patch = patchText

/-- The patch is left alone because a hunk is broken; or the starts of its headers are written as
they are read if a count has to be corrected, and, if it is a patch with right counts, its hunks
end at the next line that looks like a header. -/
def Readable (lines : List Line) : Prop :=
  Broken lines ∨
    (Miscounted lines → ∀ found : HeaderMatch, found.line ∈ lines → found.Canonical) ∧
      (IsUnifiedPatch lines → ∀ (found : HeaderMatch) (body rest : List Line),
        found.line :: (body ++ rest) <:+ lines → IsHunk found body rest → Delimited body rest)

theorem isBodyLine_of_not_broken (h : ¬ Broken lines) (hsuffix : found.line :: rest <:+ lines) :
    ∀ l ∈ bodyAfter rest, IsBodyLine l := by
  by_contra hbad
  push Not at hbad
  exact h ⟨found, rest, hsuffix, .inr hbad⟩

theorem not_miscounted_iff (htext : patchText.length < 2 ^ 53)
    (hbroken : ¬ Broken (linesOf patchText)) (hpatch : IsUnifiedPatch (linesOf patchText)) :
    ¬ Miscounted (linesOf patchText) ↔ ∀ (found : HeaderMatch) (body rest : List Line),
      found.line :: (body ++ rest) <:+ linesOf patchText → IsHunk found body rest →
        Delimited body rest := by
  constructor
  · intro hcounted found body rest hsuffix hhunk
    refine (hhunk.states_iff (small_of_suffix htext hsuffix)
      (isBodyLine_of_not_broken hbroken hsuffix)).mp ?_
    by_contra hstates
    exact hcounted ⟨found, _, hsuffix, hstates⟩
  · rintro hdelimited ⟨found, rest, hsuffix, hstates⟩
    obtain ⟨heading, hunks, hlines, hheading, hhunks⟩ := hpatch
    have hbehind : found.line :: rest <:+ hunks :=
      suffix_of_suffix_append (exec_eq_none_of_heading hheading) (hlines ▸ hsuffix)
    obtain ⟨body, after, rfl, hhunk⟩ := exists_isHunk hhunks hbehind
    exact hstates ((hhunk.states_iff (small_of_suffix htext hsuffix)
      (isBodyLine_of_not_broken hbroken hsuffix)).mpr (hdelimited _ _ _ hsuffix hhunk))

theorem rewritten_ne (htext : patchText.length < 2 ^ 53) (h : Miscounted (linesOf patchText)) :
    ['\n'].intercalate (rewriteLines (linesOf patchText)) ≠ patchText := by
  intro heq
  have hlines : rewriteLines (linesOf patchText) = linesOf patchText := by
    rw [← linesOf_rewritten htext, heq]
  obtain ⟨found, rest, hsuffix, hstates⟩ := h
  exact hstates (states_of_corrected (small_bodyAfter (small_of_suffix htext hsuffix))
    (corrected_of_rewriteLines_eq hlines hsuffix)).2.2.2

/-- The bound is that of the length of strings. -/
theorem normalizes_iff (htext : patchText.length < 2 ^ 53) :
    Normalizes patchText ↔ Readable (linesOf patchText) := by
  by_cases hbroken : Broken (linesOf patchText)
  · refine iff_of_true ⟨normalize_normalize htext, ?_, fun _ => ?_⟩ (.inl hbroken)
    · rw [normalize_of_kept (.inl hbroken)]
      exact List.forall₂_same.mpr fun line _ => .same line
    · rw [normalize_of_kept (.inl hbroken)]
  · have hlength : (linesOf patchText).length ≤ 2 ^ 53 := (length_linesOf patchText).trans htext
    rw [Readable, or_iff_right hbroken]
    by_cases hcounted : Miscounted (linesOf patchText)
    · have hrewritten := normalize_of_rewritten hbroken hcounted
      constructor
      · rintro ⟨-, honlyCounts, hidentity⟩
        rw [hrewritten] at honlyCounts hidentity
        rw [linesOf_rewritten htext, forall₂_rewriteLines_iff hlength] at honlyCounts
        exact ⟨fun _ => honlyCounts, fun hpatch => absurd (hidentity hpatch)
          (rewritten_ne htext hcounted)⟩
      · rintro ⟨hcanonical, hdelimited⟩
        refine ⟨normalize_normalize htext, ?_, fun hpatch => ?_⟩
        · rw [hrewritten, linesOf_rewritten htext, forall₂_rewriteLines_iff hlength]
          exact hcanonical hcounted
        · exact absurd hcounted ((not_miscounted_iff htext hbroken hpatch).mpr (hdelimited hpatch))
    · refine iff_of_true ⟨normalize_normalize htext, ?_, fun _ => ?_⟩
        ⟨fun h => absurd h hcounted,
          fun hpatch => (not_miscounted_iff htext hbroken hpatch).mp hcounted⟩
      · rw [normalize_of_kept (.inr hcounted)]
        exact List.forall₂_same.mpr fun line _ => .same line
      · rw [normalize_of_kept (.inr hcounted)]

/-- A patch that deletes the line `-- b`. -/
def deletedDashes : List Char :=
  "--- a/x\n+++ b/x\n@@ -1,3 +1,2 @@\n a\n--- b\n c\n".toList

theorem not_normalizes_deletedDashes : ¬ Normalizes deletedDashes := by
  intro h
  have hlines : linesOf deletedDashes = ["--- a/x".toList, "+++ b/x".toList] ++
      HeaderMatch.line ⟨digitsOf 1, some (digitsOf 3), digitsOf 1, some (digitsOf 2), [],
        List.forall_mem_nil _⟩ :: ([" a".toList, "--- b".toList, " c".toList] ++ [[]]) := by
    decide +kernel
  have hheading : IsHeading ["--- a/x".toList, "+++ b/x".toList] :=
    ⟨[], _, _, rfl, List.forall_mem_nil _, by decide, by decide⟩
  have hhunk : IsHunk ⟨digitsOf 1, some (digitsOf 3), digitsOf 1, some (digitsOf 2), [],
      List.forall_mem_nil _⟩ [" a".toList, "--- b".toList, " c".toList] [[]] :=
    ⟨by simp [IsBodyLine], by decide, by decide, fun h => by cases h⟩
  have hrest : ∀ l ∈ ([[]] : List Line), execHunkHeader l = none := by
    intro l hl
    rw [List.mem_singleton.mp hl]
    rfl
  have hkept := h.identity ⟨_, _, hlines, hheading, .hunk hhunk (.rest hrest)⟩
  exact absurd hkept (by decide +kernel)

theorem normalizes_iff_deletedDashes :
    Normalizes deletedDashes ↔ Readable (linesOf deletedDashes) :=
  normalizes_iff (by decide +kernel)

end UnifiedPatch
