import ChatgptSystem.Computer.JSONValue
import ChatgptSystem.Foundations.Budget
import ChatgptSystem.Native.InputModels
import Mathlib.Data.List.DropRight

/-!
# The candidates of the text recognition

`ComputerPerception` bounds the texts that have been recognised on the screen: it drops what is
not certain enough, trims the texts and cuts them to what may be sent. The host service does so
once more before it answers.

* `boundedViewCandidates`, `sanitizePerception` — the loop, and the host service;
* `boundedViewLoop_eq` — the loop gathers what `cutTo` makes of the candidates;
* `Bounds`, `bounds_boundedViewCandidates` — what is kept of the candidates;
* `CutsBehindBlank`, `bounding_iff` — bounding twice changes a text that has been cut behind white
  space, and no other.
-/

open Computer DoubleArithmetic InputControl

namespace ComputerPerception

/-! ## Texts -/

/-- `CharacterSet.whitespacesAndNewlines`: the separators, the tabulation and the line ends. -/
def whitespacesAndNewlines (scalar : Char) : Bool :=
  let n := scalar.toNat
  (0x9 ≤ n && n ≤ 0xD) || n == 0x20 || n == 0x85 || n == 0xA0 || n == 0x1680 ||
    (0x2000 ≤ n && n ≤ 0x200A) || n == 0x2028 || n == 0x2029 || n == 0x202F || n == 0x205F ||
    n == 0x3000

/-- `trimmingCharacters(in:)`, which looks at scalars. -/
def trimmingCharacters (isIn : Char → Bool) (text : List Char) : List Char :=
  (text.dropWhile isIn).rdropWhile isIn

/-- The loop of `boundedScalarText` over the characters. -/
def takeCharacters (maxScalars : ℕ) : ℕ → List (List Char) → List Char
  | _, [] => []
  | scalarCount, character :: rest =>
    if scalarCount + character.length ≤ maxScalars then
      character ++ takeCharacters maxScalars (scalarCount + character.length) rest
    else []

def boundedScalarText (breaking : CharacterBreaking) (value : List Char) (maxScalars : ℕ) :
    List Char :=
  if 0 < maxScalars then takeCharacters maxScalars 0 (breaking.characters value) else []

/-! ## Candidates -/

inductive ComputerOcrSource where
  | visionFast
  | visionAccurate
  deriving DecidableEq

structure ComputerOcrCandidateView (D : Type) where
  text : List Char
  bounds : ComputerBounds D
  confidence : Option D
  source : ComputerOcrSource

def maxOcrCandidates : ℕ := 64

def maxOcrCandidateCharacters : ℕ := 512

def maxOcrAggregateCharacters : ℕ := 8192

section Bounding

variable {D : Type} [DoubleArithmetic D]

variable (D) in
def minimumOcrConfidence : D := decimal 5 1

def isValidScreenBounds (bounds : ComputerBounds D) : Bool :=
  isFinite bounds.x && isFinite bounds.y && isFinite bounds.width && isFinite bounds.height &&
    lt (decimal 0 0) bounds.width && lt (decimal 0 0) bounds.height

/-- A confidence with which a candidate is passed over. -/
def isUncertain (confidence : D) : Bool :=
  !isFinite confidence || lt confidence (minimumOcrConfidence D) || lt (decimal 1 0) confidence

/-- The loop of `boundedViewCandidates`, with `output` and `aggregateScalars`. -/
def boundedViewLoop (breaking : CharacterBreaking) (output : List (ComputerOcrCandidateView D))
    (aggregateScalars : ℕ) : List (ComputerOcrCandidateView D) → List (ComputerOcrCandidateView D)
  | [] => output
  | candidate :: rest =>
    if ¬ output.length < maxOcrCandidates then output
    else if candidate.confidence.any isUncertain then
      boundedViewLoop breaking output aggregateScalars rest
    else if !isValidScreenBounds candidate.bounds then
      boundedViewLoop breaking output aggregateScalars rest
    else
      let normalized := trimmingCharacters whitespacesAndNewlines candidate.text
      if normalized.isEmpty then boundedViewLoop breaking output aggregateScalars rest
      else
        let remaining := maxOcrAggregateCharacters - aggregateScalars
        if ¬ 0 < remaining then output
        else
          let text := boundedScalarText breaking normalized
            (min maxOcrCandidateCharacters remaining)
          if text.isEmpty then boundedViewLoop breaking output aggregateScalars rest
          else
            boundedViewLoop breaking (output ++ [{ candidate with text }])
              (aggregateScalars + text.length) rest

def boundedViewCandidates (breaking : CharacterBreaking)
    (candidates : List (ComputerOcrCandidateView D)) : List (ComputerOcrCandidateView D) :=
  boundedViewLoop breaking [] 0 candidates

/-! ## The host service -/

inductive ComputerAXQuality where
  | strong
  /-- `partial`. -/
  | incomplete
  | weak
  deriving DecidableEq

inductive ComputerRecommendedTargeting where
  | ax
  | ocr
  | visualPoint
  deriving DecidableEq

structure ComputerPerceptionSummary (D : Type) where
  axQuality : ComputerAXQuality
  webContentAccessible : Option Bool
  ocrUsed : Bool
  recommendedTargeting : ComputerRecommendedTargeting
  ocrCandidates : List (ComputerOcrCandidateView D)

omit [DoubleArithmetic D] in
def summary (base : ComputerPerceptionSummary D)
    (ocrCandidates : List (ComputerOcrCandidateView D)) (ocrUsed : Bool) :
    ComputerPerceptionSummary D :=
  let targeting : ComputerRecommendedTargeting :=
    if base.axQuality ≠ .weak then .ax
    else if !ocrCandidates.isEmpty then .ocr
    else .visualPoint
  { axQuality := base.axQuality
    webContentAccessible := base.webContentAccessible
    ocrUsed
    recommendedTargeting := targeting
    ocrCandidates }

def sanitizePerception (breaking : CharacterBreaking) :
    Option (ComputerPerceptionSummary D) → Option (ComputerPerceptionSummary D)
  | none => none
  | some perception =>
    some (summary perception (boundedViewCandidates breaking perception.ocrCandidates)
      perception.ocrUsed)

end Bounding

/-! ## Trimmed texts -/

/-- The text neither begins nor ends with one of the scalars. -/
structure Unpadded (isIn : Char → Bool) (text : List Char) : Prop where
  head : ∀ scalar ∈ text.head?, isIn scalar = false
  last : ∀ scalar ∈ text.getLast?, isIn scalar = false

theorem mem_head?_of_isPrefix {α : Type*} {a : α} {l l' : List α} (h : l <+: l')
    (ha : a ∈ l.head?) : a ∈ l'.head? := by
  obtain ⟨rest, rfl⟩ := h
  cases l with
  | nil => cases ha
  | cons => exact ha

section Texts

variable {isIn : Char → Bool} {text kept : List Char} {breaking : CharacterBreaking} {limit : ℕ}

theorem unpadded_trimmingCharacters : Unpadded isIn (trimmingCharacters isIn text) where
  head := by
    intro scalar hscalar
    have hkept := List.rdropWhile_prefix isIn (text.dropWhile isIn)
    have hfirst : (text.dropWhile isIn).head? = some scalar :=
      mem_head?_of_isPrefix hkept hscalar
    have hnot := List.head?_dropWhile_not isIn text
    rw [hfirst] at hnot
    exact hnot
  last := by
    intro scalar hscalar
    obtain ⟨hne, rfl⟩ := List.mem_getLast?_eq_getLast hscalar
    exact Bool.eq_false_iff.mpr (List.rdropWhile_last_not isIn _ hne)

theorem length_trimmingCharacters_le : (trimmingCharacters isIn text).length ≤ text.length := by
  have hkept := List.rdropWhile_prefix isIn (text.dropWhile isIn)
  exact hkept.length_le.trans (List.length_dropWhile_le _ _)

theorem trimmingCharacters_eq_self_iff :
    trimmingCharacters isIn text = text ↔ Unpadded isIn text := by
  constructor
  · intro h
    rw [← h]
    exact unpadded_trimmingCharacters
  · intro h
    have hhead : text.dropWhile isIn = text := by
      cases text with
      | nil => rfl
      | cons scalar text =>
        exact List.dropWhile_cons_of_neg (Bool.eq_false_iff.mp (h.head scalar rfl))
    rw [trimmingCharacters, hhead]
    exact List.rdropWhile_eq_self_iff.mpr fun hne =>
      Bool.eq_false_iff.mp (h.last _ (List.getLast?_eq_some_getLast hne))

theorem Unpadded.of_isPrefix (h : Unpadded isIn text) (hkept : kept <+: text) :
    Unpadded isIn kept ↔ ∀ scalar ∈ kept.getLast?, isIn scalar = false :=
  ⟨Unpadded.last, fun hlast =>
    ⟨fun scalar hscalar => h.head scalar (mem_head?_of_isPrefix hkept hscalar), hlast⟩⟩

theorem takeCharacters_eq {maxScalars scalarCount : ℕ} (h : scalarCount ≤ maxScalars)
    (characters : List (List Char)) : takeCharacters maxScalars scalarCount characters =
      (Budget.within List.length (maxScalars - scalarCount) characters).flatten := by
  induction characters generalizing scalarCount with
  | nil => rfl
  | cons character rest ih =>
    rw [takeCharacters, Budget.within]
    by_cases hfits : scalarCount + character.length ≤ maxScalars
    · rw [if_pos hfits, if_pos (by omega), ih hfits, List.flatten_cons, Nat.sub_sub]
    · rw [if_neg hfits, if_neg (by omega), List.flatten_nil]

theorem boundedScalarText_eq : boundedScalarText breaking text limit =
    (Budget.within List.length limit (breaking.characters text)).flatten := by
  rw [boundedScalarText]
  split
  next => exact takeCharacters_eq (Nat.zero_le limit) _
  next hlimit =>
    have hle := Budget.total_within_le List.length limit (breaking.characters text)
    refine (List.eq_nil_of_length_eq_zero ?_).symm
    rw [List.length_flatten]
    exact Nat.eq_zero_of_le_zero (hle.trans (Nat.le_of_not_lt hlimit))

theorem length_boundedScalarText_le : (boundedScalarText breaking text limit).length ≤ limit := by
  rw [boundedScalarText_eq, List.length_flatten]
  exact Budget.total_within_le List.length limit _

theorem isPrefix_boundedScalarText : boundedScalarText breaking text limit <+: text := by
  rw [boundedScalarText_eq]
  obtain ⟨rest, hrest⟩ :=
    Budget.isPrefix_within List.length limit (breaking.characters text)
  refine ⟨rest.flatten, ?_⟩
  rw [← List.flatten_append, hrest, breaking.flatten_characters]

theorem boundedScalarText_eq_self (h : text.length ≤ limit) :
    boundedScalarText breaking text limit = text := by
  rw [boundedScalarText_eq, Budget.within_eq_self, breaking.flatten_characters]
  rwa [← breaking.flatten_characters text, List.length_flatten] at h

/-- The characters of the text that fit together end with a blank, and a character follows that does
not fit. -/
def CutsBehindBlank (breaking : CharacterBreaking) (limit : ℕ) (text : List Char) : Prop :=
  ∃ kept next rest blank, breaking.characters text = kept ++ next :: rest ∧
    kept.flatten.length ≤ limit ∧ limit < kept.flatten.length + next.length ∧
    kept.flatten.getLast? = some blank ∧ whitespacesAndNewlines blank = true

theorem unpadded_boundedScalarText_iff (h : Unpadded whitespacesAndNewlines text) :
    Unpadded whitespacesAndNewlines (boundedScalarText breaking text limit) ↔
      ¬ CutsBehindBlank breaking limit text := by
  rw [h.of_isPrefix isPrefix_boundedScalarText, boundedScalarText_eq]
  constructor
  · rintro hlast ⟨kept, next, rest, blank, hcharacters, hfits, hfull, hblank, hisBlank⟩
    rw [List.length_flatten] at hfits hfull
    rw [hcharacters, Budget.within_eq_of_lt hfits hfull] at hlast
    exact Bool.noConfusion ((hlast blank hblank).symm.trans hisBlank)
  · intro hno blank hblank
    by_contra hisBlank
    obtain ⟨rest, hrest⟩ :=
      Budget.isPrefix_within List.length limit (breaking.characters text)
    cases rest with
    | nil =>
      -- nothing has been cut off
      rw [← List.append_nil (Budget.within _ _ _), hrest, breaking.flatten_characters] at hblank
      exact hisBlank (h.last blank hblank)
    | cons next rest =>
      refine hno ⟨_, next, rest, blank, hrest.symm, ?_, ?_, hblank, by simpa using hisBlank⟩
      · rw [List.length_flatten]
        exact Budget.total_within_le List.length limit _
      · rw [List.length_flatten]
        exact Budget.lt_of_within hrest.symm

end Texts

/-! ## What the loop gathers -/

section Gathering

variable {D : Type} [DoubleArithmetic D] {breaking : CharacterBreaking}
  {candidate view : ComputerOcrCandidateView D} {candidates : List (ComputerOcrCandidateView D)}
  {room : ℕ}

/-- A candidate with a confidence and a place that are accepted, and with a text. -/
structure IsValid (candidate : ComputerOcrCandidateView D) : Prop where
  confidence : candidate.confidence.any isUncertain = false
  bounds : isValidScreenBounds candidate.bounds = true
  text : trimmingCharacters whitespacesAndNewlines candidate.text ≠ []

/-- What becomes of a candidate when so many scalars may still be sent. -/
def cutTo (breaking : CharacterBreaking) (room : ℕ) (candidate : ComputerOcrCandidateView D) :
    Option (ComputerOcrCandidateView D) :=
  let text := boundedScalarText breaking
    (trimmingCharacters whitespacesAndNewlines candidate.text) (min maxOcrCandidateCharacters room)
  if candidate.confidence.any isUncertain = false ∧ isValidScreenBounds candidate.bounds = true ∧
      text ≠ [] then
    some { candidate with text }
  else none

theorem cutTo_eq_some : cutTo breaking room candidate = some view ↔
    IsValid candidate ∧ view.text ≠ [] ∧ view = { candidate with
      text := boundedScalarText breaking
        (trimmingCharacters whitespacesAndNewlines candidate.text)
        (min maxOcrCandidateCharacters room) } := by
  rw [cutTo]
  constructor
  · intro h
    split at h
    next hvalid =>
      obtain rfl := Option.some.inj h
      obtain ⟨hconfidence, hbounds, htext⟩ := hvalid
      refine ⟨⟨hconfidence, hbounds, fun hempty => htext ?_⟩, htext, rfl⟩
      rw [hempty]
      exact List.prefix_nil.mp isPrefix_boundedScalarText
    next => cases h
  · rintro ⟨hvalid, htext, rfl⟩
    exact if_pos ⟨hvalid.confidence, hvalid.bounds, htext⟩

theorem cutTo_eq_none (h : ¬ IsValid candidate) : cutTo breaking room candidate = none :=
  Option.eq_none_iff_forall_ne_some.mpr fun _ hview => h (cutTo_eq_some.mp hview).1

theorem cutTo_zero : cutTo breaking 0 candidate = none := by
  rw [Option.eq_none_iff_forall_ne_some]
  intro view hview
  obtain ⟨-, htext, rfl⟩ := cutTo_eq_some.mp hview
  have hle := @length_boundedScalarText_le
    (trimmingCharacters whitespacesAndNewlines candidate.text) breaking 0
  exact htext (List.eq_nil_of_length_eq_zero (Nat.le_zero.mp hle))

abbrev scalars (view : ComputerOcrCandidateView D) : ℕ := view.text.length

theorem boundedViewLoop_eq (output : List (ComputerOcrCandidateView D)) (aggregateScalars : ℕ) :
    boundedViewLoop breaking output aggregateScalars candidates =
      output ++ Budget.gather (cutTo breaking) scalars (maxOcrCandidates - output.length)
        (maxOcrAggregateCharacters - aggregateScalars) candidates := by
  induction candidates generalizing output aggregateScalars with
  | nil => simp [boundedViewLoop, Budget.gather]
  | cons candidate rest ih =>
    rw [boundedViewLoop]
    by_cases hslots : output.length < maxOcrCandidates
    swap
    · rw [if_pos hslots, Nat.sub_eq_zero_of_le (Nat.le_of_not_lt hslots), Budget.gather_noSlots,
        List.append_nil]
    rw [if_neg (not_not.mpr hslots)]
    have hpassed (hnone : cutTo breaking (maxOcrAggregateCharacters - aggregateScalars) candidate
        = none) := (ih output aggregateScalars).trans
      (congrArg (output ++ ·) (@Budget.gather_cons_of_none _ _ _ scalars
        (maxOcrCandidates - output.length) _ _ _ hnone).symm)
    split
    next hconfidence => exact hpassed (cutTo_eq_none fun h => by simp [h.confidence] at hconfidence)
    next hconfidence =>
      split
      next hbounds => exact hpassed (cutTo_eq_none fun h => by simp [h.bounds] at hbounds)
      next hbounds =>
        dsimp only
        split
        next hempty => exact hpassed (cutTo_eq_none fun h => h.text (List.isEmpty_iff.mp hempty))
        next hne =>
          have hvalid : IsValid candidate := {
            confidence := Bool.eq_false_iff.mpr hconfidence
            bounds := by simpa using hbounds
            text := fun h => hne (List.isEmpty_iff.mpr h) }
          split
          next hroom =>
            -- the loop ends here, and nothing more can be cut
            rw [Nat.eq_zero_of_not_pos hroom, Budget.gather_zero fun _ => cutTo_zero,
              List.append_nil]
          next =>
            split
            next htext =>
              refine hpassed (Option.eq_none_iff_forall_ne_some.mpr fun view hview => ?_)
              obtain ⟨-, hkept, rfl⟩ := cutTo_eq_some.mp hview
              exact hkept (List.isEmpty_iff.mp htext)
            next htext =>
              have hcut := cutTo_eq_some.mpr
                ⟨hvalid, fun h => htext (List.isEmpty_iff.mpr h), rfl⟩
              rw [ih, Budget.gather_cons_of_some (Nat.sub_ne_zero_of_lt hslots) hcut,
                List.append_assoc, List.length_append, List.length_singleton, ← Nat.sub_sub,
                ← Nat.sub_sub, List.singleton_append]

theorem boundedViewCandidates_eq : boundedViewCandidates breaking candidates =
    Budget.gather (cutTo breaking) scalars maxOcrCandidates maxOcrAggregateCharacters candidates :=
  boundedViewLoop_eq [] 0

end Gathering

/-! ## Bounding twice -/

section Twice

variable {D : Type} [DoubleArithmetic D] {breaking : CharacterBreaking}
  {candidate view : ComputerOcrCandidateView D} {candidates : List (ComputerOcrCandidateView D)}
  {room : ℕ}

/-- What may be kept of candidates: not too many, none too long and all short enough together, and
in their order, each with a beginning of its trimmed text. -/
structure Bounds (candidates kept : List (ComputerOcrCandidateView D)) : Prop where
  count : kept.length ≤ maxOcrCandidates
  characters : ∀ view ∈ kept, view.text.length ≤ maxOcrCandidateCharacters
  aggregate : (kept.map fun view => view.text.length).sum ≤ maxOcrAggregateCharacters
  inOrder : ∃ chosen : List (ComputerOcrCandidateView D), chosen.Sublist candidates ∧
    List.Forall₂ (fun candidate view => IsValid candidate ∧ view.text ≠ [] ∧
      view.text <+: trimmingCharacters whitespacesAndNewlines candidate.text ∧
      view = { candidate with text := view.text }) chosen kept

theorem bounds_boundedViewCandidates :
    Bounds candidates (boundedViewCandidates breaking candidates) := by
  rw [boundedViewCandidates_eq]
  have hlength {room : ℕ} {candidate view : ComputerOcrCandidateView D}
      (h : cutTo breaking room candidate = some view) :
      view.text.length ≤ min maxOcrCandidateCharacters room := by
    obtain ⟨-, -, rfl⟩ := cutTo_eq_some.mp h
    exact length_boundedScalarText_le
  obtain ⟨chosen, hsublist, hcuts⟩ := @Budget.exists_sublist_gather _ _ (cutTo breaking)
    scalars maxOcrCandidates maxOcrAggregateCharacters candidates
  refine ⟨Budget.length_gather_le, fun view hview => ?_,
    Budget.total_gather_le fun _ _ _ h => (hlength h).trans (min_le_right _ _),
    chosen, hsublist, hcuts.imp fun candidate view hcut => ?_⟩
  · obtain ⟨candidate, room, hcut⟩ := Budget.exists_cut_of_mem_gather hview
    exact (hlength hcut).trans (min_le_left _ _)
  · obtain ⟨room, hcut⟩ := hcut
    obtain ⟨hvalid, htext, rfl⟩ := cutTo_eq_some.mp hcut
    exact ⟨hvalid, htext, isPrefix_boundedScalarText, rfl⟩

theorem cutTo_self_iff (h : cutTo breaking room candidate = some view) :
    cutTo breaking room view = some view ↔
      ¬ CutsBehindBlank breaking (min maxOcrCandidateCharacters room)
        (trimmingCharacters whitespacesAndNewlines candidate.text) := by
  obtain ⟨hvalid, htext, rfl⟩ := cutTo_eq_some.mp h
  rw [← unpadded_boundedScalarText_iff unpadded_trimmingCharacters,
    ← trimmingCharacters_eq_self_iff, cutTo_eq_some]
  constructor
  · rintro ⟨-, -, hview⟩
    have hagain := congrArg ComputerOcrCandidateView.text hview
    dsimp only at hagain
    rw [boundedScalarText_eq_self
      (length_trimmingCharacters_le.trans length_boundedScalarText_le)] at hagain
    exact hagain.symm
  · intro htrimmed
    refine ⟨⟨hvalid.confidence, hvalid.bounds, fun hempty => htext ?_⟩, htext, ?_⟩
    · exact htrimmed.symm.trans hempty
    · dsimp only
      rw [htrimmed, boundedScalarText_eq_self length_boundedScalarText_le]

/-- No text is cut behind a blank: of the candidates to which the loop comes while there are slots,
with so many scalars left. -/
def Clean (breaking : CharacterBreaking) (candidates : List (ComputerOcrCandidateView D)) : Prop :=
  ∀ candidate room, Budget.Reached (cutTo breaking) scalars maxOcrCandidates
      maxOcrAggregateCharacters candidates candidate room →
    IsValid candidate → ¬ CutsBehindBlank breaking (min maxOcrCandidateCharacters room)
      (trimmingCharacters whitespacesAndNewlines candidate.text)

theorem boundedViewCandidates_self_iff :
    boundedViewCandidates breaking (boundedViewCandidates breaking candidates) =
      boundedViewCandidates breaking candidates ↔ Clean breaking candidates := by
  rw [boundedViewCandidates_eq, boundedViewCandidates_eq, Budget.gather_gather_iff]
  constructor
  · intro h candidate room hreached hvalid hblank
    have htext : boundedScalarText breaking (trimmingCharacters whitespacesAndNewlines
        candidate.text) (min maxOcrCandidateCharacters room) ≠ [] := by
      intro hempty
      refine (unpadded_boundedScalarText_iff unpadded_trimmingCharacters).mp ?_ hblank
      rw [hempty]
      exact ⟨by nofun, by nofun⟩
    have hcut := cutTo_eq_some.mpr ⟨hvalid, htext, rfl⟩
    exact (cutTo_self_iff hcut).mp (h candidate room _ hreached hcut) hblank
  · intro h candidate room view hreached hcut
    exact (cutTo_self_iff hcut).mpr (h candidate room hreached (cutTo_eq_some.mp hcut).1)

/-- What is kept of the candidates is always as it should be, and it is kept as it is by the next
bounding exactly if no text is cut behind a blank. -/
theorem bounding_iff (breaking : CharacterBreaking)
    (candidates : List (ComputerOcrCandidateView D)) :
    (Bounds candidates (boundedViewCandidates breaking candidates) ∧
      boundedViewCandidates breaking (boundedViewCandidates breaking candidates) =
        boundedViewCandidates breaking candidates) ↔ Clean breaking candidates := by
  rw [and_iff_right bounds_boundedViewCandidates]
  exact boundedViewCandidates_self_iff

def paddedCandidate : ComputerOcrCandidateView ℤ where
  text := List.replicate 511 'a' ++ [' ', 'b']
  bounds := { x := 0, y := 0, width := 600, height := 20 }
  confidence := some 1
  source := .visionFast

theorem bounding_paddedCandidate :
    boundedViewCandidates oneByOne (boundedViewCandidates oneByOne [paddedCandidate]) ≠
      boundedViewCandidates oneByOne [paddedCandidate] := by
  intro h
  have hlengths := congrArg (List.map scalars) h
  revert hlengths
  decide +kernel

/-- The host service answers what it has been given in the same case. -/
theorem sanitizePerception_summary_iff (base : ComputerPerceptionSummary D) (ocrUsed : Bool) :
    sanitizePerception breaking
        (some (summary base (boundedViewCandidates breaking candidates) ocrUsed)) =
      some (summary base (boundedViewCandidates breaking candidates) ocrUsed) ↔
      Clean breaking candidates := by
  rw [← boundedViewCandidates_self_iff, sanitizePerception, Option.some_inj]
  constructor
  · exact congrArg ComputerPerceptionSummary.ocrCandidates
  · intro h
    dsimp only [summary]
    rw [h]

end Twice

end ComputerPerception
