import ChatgptSystem.Foundations.Bytes

/-!
# Terminated lines

A stream is a sequence of lines, each followed by its terminator, and a rest that holds none.

* `Lines.first` — the first line and what follows its terminator, found from the left;
* `Lines.lines`, `Lines.rest` — all complete lines, and what follows the last one;
* `Lines.induction` — a stream is a rest, or a line in front of a shorter stream;
* `Lines.lines_append`, `Lines.rest_append` — a stream that is read in two parts;
* `Lines.newline`, `Lines.dropReturn` — lines of text, which end in LF or in CRLF.
-/

namespace Lines

variable {α : Type} [DecidableEq α] {z : α}

/-- The first line and what follows its terminator. -/
def first (z : α) : List α → Option (List α × List α)
  | [] => none
  | b :: stream =>
    if b = z then some ([], stream)
    else (first z stream).map fun found => (b :: found.1, found.2)

variable {stream line : List α}

theorem first_of_notMem (h : z ∉ stream) : first z stream = none := by
  induction stream with
  | nil => rfl
  | cons b stream ih =>
    rw [first, if_neg (Ne.symm (List.ne_of_not_mem_cons h)),
      ih (List.not_mem_of_not_mem_cons h)]
    rfl

theorem first_line (h : z ∉ line) (stream : List α) :
    first z (line ++ z :: stream) = some (line, stream) := by
  induction line with
  | nil => simp [first]
  | cons b line ih =>
    rw [List.cons_append, first, if_neg (Ne.symm (List.ne_of_not_mem_cons h)),
      ih (List.not_mem_of_not_mem_cons h)]
    rfl

theorem first_eq_some {more : List α} (h : first z stream = some (line, more)) :
    z ∉ line ∧ stream = line ++ z :: more := by
  induction stream generalizing line more with
  | nil => cases h
  | cons b stream ih =>
    unfold first at h
    split at h
    next hb =>
      cases h
      exact ⟨List.not_mem_nil, by rw [hb]; rfl⟩
    next hb =>
      obtain ⟨⟨line', more'⟩, hfound, heq⟩ := Option.map_eq_some_iff.mp h
      obtain ⟨hline, hstream⟩ := ih hfound
      cases heq
      exact ⟨List.not_mem_cons_of_ne_of_not_mem (Ne.symm hb) hline, by rw [hstream]; rfl⟩

omit [DecidableEq α] in
theorem length_le_of_append {part more later : List α} (hpart : z ∉ part)
    (h : part ++ more = line ++ z :: later) : part.length ≤ line.length := by
  rcases List.append_eq_append_iff.mp h with ⟨missing, rfl, -⟩ | ⟨extra, rfl, hextra⟩
  · rw [List.length_append]
    omega
  · cases extra with
    | nil => exact Nat.le_of_eq (by rw [List.append_nil])
    | cons b extra =>
      obtain rfl := (List.cons.inj hextra).1
      exact absurd (List.mem_append_right _ List.mem_cons_self) hpart

theorem length_of_first {more : List α} (h : first z stream = some (line, more)) :
    more.length < stream.length := by
  rw [(first_eq_some h).2, List.length_append, List.length_cons]
  omega

/-- A stream without a terminator, or a line in front of a stream. -/
theorem induction {motive : List α → Prop} (hrest : ∀ stream, z ∉ stream → motive stream)
    (hline : ∀ line stream, z ∉ line → motive stream → motive (line ++ z :: stream))
    (stream : List α) : motive stream := by
  cases hfirst : first z stream with
  | none =>
    refine hrest stream fun hmem => ?_
    obtain ⟨line, more, rfl, hline⟩ := List.eq_append_cons_of_mem hmem
    rw [first_line hline] at hfirst
    cases hfirst
  | some found =>
    obtain ⟨hnone, hstream⟩ := first_eq_some hfirst
    rw [hstream]
    exact hline _ _ hnone (induction hrest hline found.2)
termination_by stream.length
decreasing_by exact length_of_first hfirst

/-- The complete lines of a stream, and what follows the last of them. -/
def split (z : α) : List α → List (List α) × List α
  | [] => ([], [])
  | b :: stream =>
    if b = z then ([] :: (split z stream).1, (split z stream).2)
    else match split z stream with
      | ([], rest) => ([], b :: rest)
      | (line :: lines, rest) => ((b :: line) :: lines, rest)

def lines (z : α) (stream : List α) : List (List α) := (split z stream).1

/-- What follows the last complete line. -/
def rest (z : α) (stream : List α) : List α := (split z stream).2

theorem split_of_notMem (h : z ∉ stream) : split z stream = ([], stream) := by
  induction stream with
  | nil => rfl
  | cons b stream ih =>
    rw [split, if_neg (Ne.symm (List.ne_of_not_mem_cons h)),
      ih (List.not_mem_of_not_mem_cons h)]

theorem split_line (h : z ∉ line) (stream : List α) :
    split z (line ++ z :: stream) = (line :: lines z stream, rest z stream) := by
  induction line with
  | nil => simp [split, lines, rest]
  | cons b line ih =>
    rw [List.cons_append, split, if_neg (Ne.symm (List.ne_of_not_mem_cons h)),
      ih (List.not_mem_of_not_mem_cons h)]

theorem lines_of_notMem (h : z ∉ stream) : lines z stream = [] := by
  rw [lines, split_of_notMem h]

theorem rest_of_notMem (h : z ∉ stream) : rest z stream = stream := by
  rw [rest, split_of_notMem h]

theorem lines_line (h : z ∉ line) (stream : List α) :
    lines z (line ++ z :: stream) = line :: lines z stream := by
  rw [lines, split_line h]

theorem rest_line (h : z ∉ line) (stream : List α) :
    rest z (line ++ z :: stream) = rest z stream := by
  rw [rest, split_line h]

theorem notMem_rest (stream : List α) : z ∉ rest z stream := by
  induction stream using induction (z := z) with
  | hrest stream h => rwa [rest_of_notMem h]
  | hline line stream h ih => rwa [rest_line h]

theorem notMem_of_lines_eq_nil (h : lines z stream = []) : z ∉ stream := by
  induction stream using induction (z := z) with
  | hrest stream hnone => exact hnone
  | hline line stream hnone ih =>
    rw [lines_line hnone] at h
    cases h

theorem eq_of_lines_eq_cons {more : List (List α)} (h : lines z stream = line :: more) :
    z ∉ line ∧ ∃ later, stream = line ++ z :: later ∧ lines z later = more := by
  induction stream using induction (z := z) with
  | hrest stream hnone =>
    rw [lines_of_notMem hnone] at h
    cases h
  | hline first later hnone ih =>
    rw [lines_line hnone] at h
    cases h
    exact ⟨hnone, later, rfl, rfl⟩

/-- A stream in two parts: the second part completes the rest of the first one. -/
theorem lines_append (before after : List α) :
    lines z (before ++ after) = lines z before ++ lines z (rest z before ++ after) := by
  induction before using induction (z := z) with
  | hrest before h => rw [lines_of_notMem h, rest_of_notMem h, List.nil_append]
  | hline line before h ih =>
    rw [List.append_assoc, List.cons_append, lines_line h, lines_line h, rest_line h, ih,
      List.cons_append]

theorem rest_append (before after : List α) :
    rest z (before ++ after) = rest z (rest z before ++ after) := by
  induction before using induction (z := z) with
  | hrest before h => rw [rest_of_notMem h]
  | hline line before h ih =>
    rw [List.append_assoc, List.cons_append, rest_line h, rest_line h, ih]

theorem exists_of_mem_lines (h : line ∈ lines z stream) :
    z ∉ line ∧ ∃ before after, stream = before ++ line ++ z :: after ∧ rest z before = [] ∧
      ∀ l ∈ lines z before, l ∈ lines z stream := by
  induction stream using induction (z := z) with
  | hrest stream hnone =>
    rw [lines_of_notMem hnone] at h
    cases h
  | hline first stream hnone ih =>
    rw [lines_line hnone] at h
    rcases List.mem_cons.mp h with rfl | hmore
    · exact ⟨hnone, [], stream, rfl, rfl, fun l hl => by cases hl⟩
    · obtain ⟨hline, before, after, rfl, hrest, hlines⟩ := ih hmore
      refine ⟨hline, first ++ z :: before, after, by simp, ?_, fun l hl => ?_⟩
      · rw [rest_line hnone, hrest]
      · rw [lines_line hnone] at hl ⊢
        exact (List.mem_cons.mp hl).elim (fun heq => heq ▸ List.mem_cons_self)
          fun hl => List.mem_cons_of_mem _ (hlines l hl)

theorem length_rest_le {limit : ℕ} {before after : List α}
    (hlines : ∀ line ∈ lines z (before ++ after), line.length ≤ limit)
    (hrest : (rest z (before ++ after)).length ≤ limit) : (rest z before).length ≤ limit := by
  rw [lines_append] at hlines
  rw [rest_append] at hrest
  induction after using induction (z := z) with
  | hrest after hnone =>
    have hboth : z ∉ rest z before ++ after := fun hmem =>
      (List.mem_append.mp hmem).elim (notMem_rest before) hnone
    rw [rest_of_notMem hboth, List.length_append] at hrest
    omega
  | hline line after hnone _ =>
    have hboth : z ∉ rest z before ++ line := fun hmem =>
      (List.mem_append.mp hmem).elim (notMem_rest before) hnone
    have hline := hlines (rest z before ++ line) (by
      rw [← List.append_assoc, lines_line hboth]
      exact List.mem_append_right _ List.mem_cons_self)
    rw [List.length_append] at hline
    omega

/-! ## Lines of text -/

def newline : UInt8 := 0x0A

def carriageReturn : UInt8 := 0x0D

/-- A line without the carriage return at its end. -/
def dropReturn (line : Bytes) : Bytes :=
  if line.getLast? = some carriageReturn then line.dropLast else line

theorem length_dropReturn (line : Bytes) : line.length ≤ (dropReturn line).length + 1 := by
  unfold dropReturn
  split
  · rw [List.length_dropLast]
    omega
  · omega

end Lines
