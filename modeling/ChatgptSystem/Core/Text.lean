import ChatgptSystem.Foundations.Bytes
import Mathlib.Data.List.Infix
import Mathlib.Data.List.Lex
import Mathlib.Data.List.TakeWhile
import Mathlib.Logic.Basic

/-!
# Text functions of the source language

The string functions the services use, on lists of characters: strings are taken to consist of
Unicode scalar values.

* `trim`, `slice`, `sliceEnd`, `splitFirst`, `split`, `splitLines`, `replaceFirst`, `includes` —
  `String.prototype` functions;
* `sortsBefore` — the order of `Array.prototype.sort` on strings;
* `encode`, `decode` — UTF-8, where a malformed byte sequence decodes to U+FFFD.
-/

/-- A statement about the elements of a list is decided along the list, whatever their type. -/
instance (priority := 2000) decidableForallMem {α : Type*} (l : List α) (p : α → Prop)
    [DecidablePred p] : Decidable (∀ a ∈ l, p a) :=
  List.decidableBAll p l

namespace Text

/-- The white space and line terminators that `trim` removes. -/
def isWhiteSpace (c : Char) : Bool :=
  let n := c.toNat
  (0x9 ≤ n && n ≤ 0xD) || n == 0x20 || n == 0xA0 || n == 0x1680 ||
    (0x2000 ≤ n && n ≤ 0x200A) || n == 0x2028 || n == 0x2029 || n == 0x202F || n == 0x205F ||
    n == 0x3000 || n == 0xFEFF

theorem isAlpha_eq (c : Char) : c.isAlpha = (decide (c.val ≥ 'A'.val ∧ c.val ≤ 'Z'.val) ||
    decide (c.val ≥ 'a'.val) && decide (c.val ≤ 'z'.val)) := rfl

def trim (text : List Char) : List Char :=
  ((text.dropWhile isWhiteSpace).reverse.dropWhile isWhiteSpace).reverse

def codeUnits (c : Char) : List ℕ :=
  if c.toNat < 0x10000 then [c.toNat]
  else [0xD800 + (c.toNat - 0x10000) / 0x400, 0xDC00 + (c.toNat - 0x10000) % 0x400]

/-- Whether a string stands before or with another in the order of `sort`. -/
def sortsBefore (a b : List Char) : Bool :=
  decide (a.flatMap codeUnits ≤ b.flatMap codeUnits)

def length (text : List Char) : ℕ := (text.flatMap codeUnits).length

/-- `text.slice(0, limit)`. One half of a character cannot be kept. -/
def slice : ℕ → List Char → List Char
  | _, [] => []
  | limit, c :: rest =>
    if (codeUnits c).length ≤ limit then c :: slice (limit - (codeUnits c).length) rest
    else if limit = 0 then []
    else ['\uFFFD']

/-- `text` without its first `n` code units. What is left of one half of a character is not a
character. -/
def dropUnits : ℕ → List Char → List Char
  | 0, text => text
  | _, [] => []
  | n + 1, c :: rest =>
    if (codeUnits c).length ≤ n + 1 then dropUnits (n + 1 - (codeUnits c).length) rest
    else '\uFFFD' :: rest

/-- `text.slice(-keep)` for a positive `keep`. -/
def sliceEnd (keep : ℕ) (text : List Char) : List Char := dropUnits (length text - keep) text

theorem codeUnits_append_inj {c c' : Char} {u u' : List ℕ}
    (h : codeUnits c ++ u = codeUnits c' ++ u') : c = c' ∧ u = u' := by
  have hc : c.toNat < 0xD800 ∨ (0xDFFF < c.toNat ∧ c.toNat < 0x110000) := c.valid
  have hc' : c'.toNat < 0xD800 ∨ (0xDFFF < c'.toNat ∧ c'.toNat < 0x110000) := c'.valid
  suffices hnat : c.toNat = c'.toNat ∧ u = u' from ⟨Char.toNat_inj.mp hnat.1, hnat.2⟩
  unfold codeUnits at h
  split at h <;> split at h <;>
    simp only [List.cons_append, List.nil_append, List.cons.injEq] at h <;>
    refine ⟨by omega, ?_⟩
  · exact h.2
  · omega
  · omega
  · exact h.2.2

theorem codeUnits_ne_nil (c : Char) : codeUnits c ≠ [] := by
  unfold codeUnits
  split <;> exact List.cons_ne_nil _ _

theorem flatMap_codeUnits_injective :
    Function.Injective fun text : List Char => text.flatMap codeUnits := by
  intro a
  induction a with
  | nil =>
    intro b h
    cases b with
    | nil => rfl
    | cons c b => simp [codeUnits_ne_nil] at h
  | cons c a ih =>
    intro b h
    cases b with
    | nil => simp [codeUnits_ne_nil] at h
    | cons c' b =>
      obtain ⟨rfl, hrest⟩ := codeUnits_append_inj (by simpa using h)
      rw [ih hrest]

def splitFirst (search : List Char) : List Char → Option (List Char × List Char)
  | [] => if search.isEmpty then some ([], []) else none
  | c :: rest =>
    if search.isPrefixOf (c :: rest) then some ([], (c :: rest).drop search.length)
    else (splitFirst search rest).map fun parts => (c :: parts.1, parts.2)

def includes (text search : List Char) : Bool := (splitFirst search text).isSome

/-- `text.replace(search, () => replacement)`. -/
def replaceFirst (text search replacement : List Char) : List Char :=
  match splitFirst search text with
  | none => text
  | some (before, after) => before ++ replacement ++ after

/-- The pieces between the occurrences of `search` that do not overlap, after `skip` more
characters of the last occurrence. -/
def splitFrom (search : List Char) : ℕ → List Char → List (List Char)
  | _, [] => [[]]
  | skip + 1, _ :: rest => splitFrom search skip rest
  | 0, c :: rest =>
    if search.isPrefixOf (c :: rest) then [] :: splitFrom search (search.length - 1) rest
    else match splitFrom search 0 rest with
      | [] => [[c]]
      | piece :: pieces => (c :: piece) :: pieces

/-- `text.split(search)` for a search text that is not empty. -/
def split (text search : List Char) : List (List Char) := splitFrom search 0 text

/-- `text.split(/\r?\n/)`. -/
def splitLines : List Char → List (List Char)
  | [] => [[]]
  | '\r' :: '\n' :: rest => [] :: splitLines rest
  | c :: rest =>
    if c = '\n' then [] :: splitLines rest
    else match splitLines rest with
      | [] => [[c]]
      | line :: lines => (c :: line) :: lines

/-- `/^[a-f0-9]{least,most}$/`, with the flag `i` if upper case counts as well. -/
def matchesHex (least most : ℕ) (ignoreCase : Bool) (text : List Char) : Bool :=
  least ≤ text.length && text.length ≤ most && text.all fun c =>
    ('a' ≤ c && c ≤ 'f') || ('0' ≤ c && c ≤ '9') || (ignoreCase && 'A' ≤ c && c ≤ 'F')

/-- `text.replace(/\n/g, "\r\n")`. -/
def crlfOfLf (text : List Char) : List Char :=
  text.flatMap fun c => if c = '\n' then ['\r', '\n'] else [c]

/-- `text.replace(/\r?\n/g, "\r\n")`. -/
def crlf : List Char → List Char
  | '\r' :: '\n' :: rest => '\r' :: '\n' :: crlf rest
  | c :: rest => if c = '\n' then '\r' :: '\n' :: crlf rest else c :: crlf rest
  | [] => []

/-! ## Trimmed texts, lines and pieces -/

variable {text : List Char}

theorem trim_eq_self (h : ∀ c ∈ text, isWhiteSpace c = false) : trim text = text := by
  have hkeep : ∀ l : List Char, (∀ c ∈ l, isWhiteSpace c = false) →
      l.dropWhile isWhiteSpace = l := by
    intro l hl
    cases l with
    | nil => rfl
    | cons c l => exact List.dropWhile_cons_of_neg (by simp [hl c List.mem_cons_self])
  rw [trim, hkeep text h, hkeep _ fun c hc => h c (List.mem_reverse.mp hc), List.reverse_reverse]

theorem slice_eq_self {limit : ℕ} (h : length text ≤ limit) : slice limit text = text := by
  induction text generalizing limit with
  | nil => cases limit <;> rfl
  | cons c rest ih =>
    rw [length, List.flatMap_cons, List.length_append] at h
    rw [slice, if_pos (by omega), ih (by unfold length; omega)]

theorem trim_of_matchesHex {least most : ℕ} {ignoreCase : Bool}
    (h : matchesHex least most ignoreCase text = true) : trim text = text := by
  refine trim_eq_self fun c hc => ?_
  obtain ⟨-, hall⟩ := Bool.and_eq_true_iff.mp h
  have hdigit := List.all_eq_true.mp hall c hc
  have hle : ∀ a b : Char, a ≤ b ↔ a.toNat ≤ b.toNat := fun _ _ => Iff.rfl
  simp only [Bool.or_eq_true, Bool.and_eq_true, decide_eq_true_eq, hle] at hdigit
  have hrange : 0x30 ≤ c.toNat ∧ c.toNat ≤ 0x66 := by
    have hbounds : 'a'.toNat = 0x61 ∧ 'f'.toNat = 0x66 ∧ '0'.toNat = 0x30 ∧ '9'.toNat = 0x39 ∧
        'A'.toNat = 0x41 ∧ 'F'.toNat = 0x46 := by decide
    omega
  simp only [isWhiteSpace, Bool.or_eq_false_iff, Bool.and_eq_false_iff, decide_eq_false_iff_not,
    beq_eq_false_iff_ne]
  omega

theorem trim_append {space : List Char} (h : ∀ c ∈ space, isWhiteSpace c = true) :
    trim (text ++ space) = trim text := by
  have hspace : space.dropWhile isWhiteSpace = [] := List.dropWhile_eq_nil_iff.mpr h
  have hreverse : space.reverse.dropWhile isWhiteSpace = [] :=
    List.dropWhile_eq_nil_iff.mpr fun c hc => h c (List.mem_reverse.mp hc)
  unfold trim
  rw [List.dropWhile_append]
  split
  next hnil => rw [hspace, List.isEmpty_iff.mp hnil]
  next =>
    rw [List.reverse_append, List.dropWhile_append, hreverse, List.isEmpty_nil, if_pos rfl]

theorem infix_trim {w : List Char} (hw : w ≠ []) (hsolid : ∀ c ∈ w, isWhiteSpace c = false)
    (h : w <:+: text) : w <:+: trim text := by
  have hdrop : ∀ (w before after : List Char), w ≠ [] → (∀ c ∈ w, isWhiteSpace c = false) →
      ∃ before', (before ++ w ++ after).dropWhile isWhiteSpace = before' ++ w ++ after := by
    intro w before after hw hsolid
    obtain ⟨c, w, rfl⟩ := List.exists_cons_of_ne_nil hw
    have hc := hsolid c List.mem_cons_self
    rw [List.append_assoc, List.dropWhile_append]
    split
    · exact ⟨[], by simp [hc]⟩
    · exact ⟨before.dropWhile isWhiteSpace, by simp⟩
  obtain ⟨before, after, rfl⟩ := h
  obtain ⟨before', hbefore⟩ := hdrop w before after hw hsolid
  obtain ⟨after', hafter⟩ := hdrop w.reverse after.reverse before'.reverse
    (by simpa using hw) (by simpa using hsolid)
  refine ⟨before', after'.reverse, ?_⟩
  have hreverse : (before' ++ w ++ after).reverse = after.reverse ++ w.reverse ++
      before'.reverse := by simp
  rw [trim, hbefore, hreverse, hafter]
  simp

theorem splitLines_line {line : List Char} (hr : '\r' ∉ line) (hn : '\n' ∉ line)
    (rest : List Char) : splitLines (line ++ '\n' :: rest) = line :: splitLines rest := by
  induction line with
  | nil => simp [splitLines]
  | cons c line ih =>
    obtain ⟨hcr, hr⟩ := not_or.mp (mt List.mem_cons.mpr hr)
    obtain ⟨hcn, hn⟩ := not_or.mp (mt List.mem_cons.mpr hn)
    rw [List.cons_append, splitLines]
    · rw [if_neg (Ne.symm hcn), ih hr hn]
    · rintro rest' hc -
      exact hcr hc.symm

theorem splitLines_lines {lines : List (List Char)} (h : ∀ line ∈ lines, '\r' ∉ line ∧ '\n' ∉ line) :
    splitLines (lines.flatMap (· ++ ['\n'])) = lines ++ [[]] := by
  induction lines with
  | nil => rfl
  | cons line lines ih =>
    obtain ⟨hr, hn⟩ := h line List.mem_cons_self
    rw [List.flatMap_cons, List.append_assoc, List.singleton_append, splitLines_line hr hn,
      ih fun line hline => h line (List.mem_cons_of_mem _ hline), List.cons_append]

theorem splitFirst_isSome_iff (search text : List Char) :
    (splitFirst search text).isSome ↔ search <:+: text := by
  induction text with
  | nil => cases search <;> simp [splitFirst]
  | cons c rest ih =>
    rw [splitFirst, List.infix_cons_iff]
    split
    next h => simp [List.isPrefixOf_iff_prefix.mp h]
    next h =>
      rw [Option.isSome_map, ih]
      exact (or_iff_right (fun hp => h (List.isPrefixOf_iff_prefix.mpr hp))).symm

theorem splitFirst_append {search before after : List Char} (hne : search ≠ [])
    (h : ∀ early late, before = early ++ late → late ≠ [] →
      ¬ search <+: late ++ search ++ after) :
    splitFirst search (before ++ search ++ after) = some (before, after) := by
  induction before with
  | nil =>
    obtain ⟨c, rest, rfl⟩ := List.exists_cons_of_ne_nil hne
    have hprefix : (c :: rest).isPrefixOf (c :: (rest ++ after)) = true :=
      List.isPrefixOf_iff_prefix.mpr (List.prefix_append (c :: rest) after)
    rw [List.nil_append, List.cons_append, splitFirst, if_pos hprefix, ← List.cons_append,
      List.drop_left]
  | cons c before ih =>
    rw [List.cons_append, List.cons_append, splitFirst, if_neg, ih]
    · rfl
    · rintro early late rfl hlate
      exact h (c :: early) late rfl hlate
    · rw [List.isPrefixOf_iff_prefix]
      simpa using h [] (c :: before) rfl (List.cons_ne_nil _ _)

/-! ## UTF-8 -/

/-- `Buffer.from(text, "utf8")`. -/
def encode (text : List Char) : Bytes := text.flatMap String.utf8EncodeChar

/-- A character of which some bytes are still to come: how many, the range of the next one and
the bits read so far. -/
structure Partial where
  missing : ℕ
  low : UInt8
  high : UInt8
  bits : ℕ

/-- What a byte starts: a character of its own, or a longer one. -/
def start (b : UInt8) : Char ⊕ Partial :=
  if b < 0x80 then .inl (Char.ofNat b.toNat)
  else if b < 0xC2 then .inl '\uFFFD'
  else if b < 0xE0 then .inr ⟨1, 0x80, 0xBF, b.toNat - 0xC0⟩
  else if b = 0xE0 then .inr ⟨2, 0xA0, 0xBF, 0⟩
  else if b = 0xED then .inr ⟨2, 0x80, 0x9F, 0xD⟩
  else if b < 0xF0 then .inr ⟨2, 0x80, 0xBF, b.toNat - 0xE0⟩
  else if b = 0xF0 then .inr ⟨3, 0x90, 0xBF, 0⟩
  else if b < 0xF4 then .inr ⟨3, 0x80, 0xBF, b.toNat - 0xF0⟩
  else if b = 0xF4 then .inr ⟨3, 0x80, 0x8F, 4⟩
  else .inl '\uFFFD'

def decodeFrom : Option Partial → Bytes → List Char
  | none, [] => []
  | some _, [] => ['\uFFFD']
  | none, b :: rest =>
    match start b with
    | .inl c => c :: decodeFrom none rest
    | .inr p => decodeFrom (some p) rest
  | some p, b :: rest =>
    if p.low ≤ b ∧ b ≤ p.high then
      let bits := p.bits * 64 + (b.toNat - 0x80)
      if p.missing = 1 then Char.ofNat bits :: decodeFrom none rest
      else decodeFrom (some ⟨p.missing - 1, 0x80, 0xBF, bits⟩) rest
    else
      -- the byte does not continue the character; it starts the next one
      match start b with
      | .inl c => '\uFFFD' :: c :: decodeFrom none rest
      | .inr p => '\uFFFD' :: decodeFrom (some p) rest

/-- `buffer.toString("utf8")`. -/
def decode (bytes : Bytes) : List Char := decodeFrom none bytes

end Text
