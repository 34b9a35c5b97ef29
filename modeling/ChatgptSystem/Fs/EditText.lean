import ChatgptSystem.Core.Occurrences
import ChatgptSystem.Fs.WrittenContent

/-!
# What an edit makes of a text

`FileSystemService.edit` replaces a text by another one: its only occurrence, or every one.

* `searchedText` — the text that is searched for, and the one that takes its place;
* `EditedTo` — what an edit should write: the only occurrence is replaced, or all of them are;
* `Apart` — the texts whose occurrences the count does not miss;
* `edit_writes_iff` — when an edit writes only what it should.
-/

open Interleaving Text

/-- The old text, or its CRLF form where only that can occur, and what takes its place. -/
def searchedText (source oldString newString : List Char) : List Char × List Char :=
  if ¬ oldString <:+: source ∧ ['\r', '\n'] <:+: source ∧ ¬ ['\r', '\n'] <:+: oldString ∧
      '\n' ∈ oldString then
    (crlfOfLf oldString, crlf newString)
  else (oldString, newString)

/-- The text `search` stands at a single place of `source`, between `before` and `after`. -/
structure OccursOnce (search source before after : List Char) : Prop where
  eq : source = before ++ search ++ after
  unique : ∀ before' after', source = before' ++ search ++ after' → before' = before

/-- What an edit of the text should write, and how many replacements it should report. -/
def EditedTo (source oldString newString : List Char) (replaceAll : Bool) (result : List Char)
    (replacements : ℕ) : Prop :=
  let (search, replacement) := searchedText source oldString newString
  if replaceAll then Replaced search replacement source result replacements
  else replacements = 1 ∧ ∃ before after, OccursOnce search source before after ∧
    result = before ++ replacement ++ after

/-- If the text occurs at two places, then also at two that do not overlap. -/
def Apart (search source : List Char) : Prop :=
  ∀ before after before' after', source = before ++ search ++ after →
    source = before' ++ search ++ after' → before' ≠ before →
      ∃ first second third, source = first ++ search ++ second ++ search ++ third

/-- The edit writes only what it should of a file with the content `current`, and reports it. -/
def EditWrites {D : Type} (current : Bytes) (oldString newString : List Char) (replaceAll : Bool)
    (program : FsM (FsResult D)) : Prop :=
  program.Obeys
    (contentMonitor current fun content => ∃ result replacements,
      EditedTo (decode current) oldString newString replaceAll result replacements ∧
        content = encode result)
    (fun outcome _ => ∃ path bytes sha256 previousSha256 replacements result,
      outcome = .edited path bytes sha256 previousSha256 replacements ∧
        EditedTo (decode current) oldString newString replaceAll result replacements ∧
          bytes = (encode result).length)
    (fun _ _ => True) ()

namespace FileSystemService

variable {D : Type} [DecidableEq D] {source oldString newString : List Char} {replaceAll : Bool}

/-! ## The count and the replacement -/

variable {search : List Char}

theorem length_split_eq_zero_iff (hne : search ≠ []) :
    (split source search).length - 1 = 0 ↔ ¬ search <:+: source :=
  (replaced_split hne [] source).eq_zero_iff

theorem includes_iff {text : List Char} : includes text search = true ↔ search <:+: text :=
  splitFirst_isSome_iff search text

theorem includes_singleton_iff {text : List Char} {c : Char} :
    includes text [c] = true ↔ c ∈ text := by
  rw [includes_iff]
  exact List.singleton_infix_iff c text

theorem editMatches_eq (source newString : List Char) (hne : oldString ≠ []) :
    editMatches source oldString newString =
      ((searchedText source oldString newString).1, (searchedText source oldString newString).2,
        (split source (searchedText source oldString newString).1).length - 1) := by
  have hcond : (((split source oldString).length - 1 = 0 && includes source ['\r', '\n'] &&
      !includes oldString ['\r', '\n'] && includes oldString ['\n']) = true) ↔
        (¬ oldString <:+: source ∧ ['\r', '\n'] <:+: source ∧ ¬ ['\r', '\n'] <:+: oldString ∧
          '\n' ∈ oldString) := by
    rw [Bool.and_eq_true, Bool.and_eq_true, Bool.and_eq_true, decide_eq_true_iff,
      length_split_eq_zero_iff hne, includes_iff, Bool.not_eq_true', Bool.eq_false_iff, ne_eq,
      includes_iff, includes_singleton_iff, and_assoc, and_assoc]
  unfold editMatches searchedText
  dsimp only
  by_cases h : ¬ oldString <:+: source ∧ ['\r', '\n'] <:+: source ∧ ¬ ['\r', '\n'] <:+: oldString ∧
      '\n' ∈ oldString
  · rw [if_pos (hcond.mpr h), if_pos h]
  · rw [if_neg (mt hcond.mp h), if_neg h]

theorem searchedText_ne_nil (source newString : List Char) (hne : oldString ≠ []) :
    (searchedText source oldString newString).1 ≠ [] := by
  unfold searchedText
  split
  · obtain ⟨c, rest, rfl⟩ := List.exists_cons_of_ne_nil hne
    show List.flatMap _ _ ≠ []
    rw [List.flatMap_cons]
    split
    · exact List.cons_ne_nil _ _
    · exact List.cons_ne_nil _ _
  · exact hne

theorem replaceFirst_of_apart (hne : search ≠ []) (hcount : (split source search).length - 1 = 1)
    (hapart : Apart search source) (replacement : List Char) :
    ∃ before after, OccursOnce search source before after ∧
      replaceFirst source search replacement = before ++ replacement ++ after := by
  have hreplaced := replaced_split hne [] source
  rw [hcount] at hreplaced
  have hinfix : search <:+: source := by
    by_contra hno
    exact absurd (hreplaced.eq_zero_iff.mpr hno) (by decide)
  cases hsplit : splitFirst search source with
  | none => exact absurd hinfix (splitFirst_eq_none_iff.mp hsplit)
  | some parts =>
    obtain ⟨before, after⟩ := parts
    have heq := (splitFirst_eq_some hsplit).1
    refine ⟨before, after, ⟨heq, fun before' after' heq' => ?_⟩, ?_⟩
    · by_contra hother
      exact absurd (hreplaced.two_le_iff.mpr (hapart _ _ _ _ heq heq' hother)) (by decide)
    · rw [replaceFirst, hsplit]

theorem apart_of_occursOnce {before after : List Char} (h : OccursOnce search source before after) :
    Apart search source := by
  intro before' after' before'' after'' heq heq' hne
  exact absurd ((h.unique _ _ heq').trans (h.unique _ _ heq).symm) hne

theorem infix_of_not_apart (h : ¬ Apart search source) : search <:+: source := by
  by_contra hno
  exact h fun before after _ _ heq _ _ => absurd ⟨before, after, heq.symm⟩ hno

theorem not_exists_of_not_apart (h : ¬ Apart search source) :
    ¬ ∃ first second third, source = first ++ search ++ second ++ search ++ third :=
  fun htwo => h fun _ _ _ _ _ _ _ => htwo

/-! ## The edit -/

theorem editedTo_replaceMatches (hne : oldString ≠ [])
    (hzero : (editMatches source oldString newString).2.2 ≠ 0)
    (hone : ¬ ((editMatches source oldString newString).2.2 > 1 && !replaceAll) = true)
    (hapart : replaceAll = true ∨ Apart (searchedText source oldString newString).1 source) :
    EditedTo source oldString newString replaceAll
      (replaceMatches source (editMatches source oldString newString).1
        (editMatches source oldString newString).2.1 replaceAll)
      (if replaceAll then (editMatches source oldString newString).2.2 else 1) := by
  rw [editMatches_eq source newString hne] at hzero hone ⊢
  dsimp only at hzero hone ⊢
  have hsearch := searchedText_ne_nil source newString hne
  unfold EditedTo
  generalize searchedText source oldString newString = searched at *
  obtain ⟨search, replacement⟩ := searched
  dsimp only at *
  cases replaceAll with
  | true =>
    rw [if_pos rfl, if_pos rfl, replaceMatches, if_pos rfl]
    exact replaced_split hsearch replacement source
  | false =>
    rw [if_neg nofun, if_neg nofun, replaceMatches, if_neg nofun]
    refine ⟨rfl, replaceFirst_of_apart hsearch ?_ (hapart.resolve_left nofun) replacement⟩
    simp only [gt_iff_lt, Bool.not_false, Bool.and_true, decide_eq_true_iff] at hone
    omega

theorem editWrites_of_apart (service : FileSystemService D) (uuid : NamePart) (input : String)
    (expectedSha256 : Option D) {current : Bytes}
    (hapart : replaceAll = true ∨
      Apart (searchedText (decode current) oldString newString).1 (decode current)) :
    EditWrites current oldString newString replaceAll
      (service.edit uuid input oldString newString replaceAll expectedSha256) := by
  unfold EditWrites edit
  split
  · exact trivial
  next hempty =>
  have hne : oldString ≠ [] := mt List.isEmpty_iff.mpr (by simpa using hempty)
  split
  · exact trivial
  refine obeys_query_bind (issues_resolve _ _) (fun resolved => obeys_locked _ ?_) fun _ => trivial
  refine obeys_query_bind (issues_exists resolved) (fun found => ?_) fun _ => trivial
  split
  · exact trivial
  refine .bind (obeys_request trivial fun r => obeys_throwing (fun info => ?_) fun _ => trivial)
  split
  · exact trivial
  split
  · exact trivial
  refine .bind ⟨trivial, fun r hr => ?_⟩
  cases r with
  | error e => exact trivial
  | ok content =>
    obtain rfl : content = current := hr
    show Program.Obeys _ _ _ (if _ then _ else _) _
    split
    · exact trivial
    dsimp only
    split
    · exact trivial
    next hzero =>
    split
    · exact trivial
    next hone =>
    split
    · exact trivial
    have hedited := editedTo_replaceMatches hne hzero hone hapart
    refine .bind ((obeys_atomicWrite service uuid resolved _ ⟨_, _, hedited, rfl⟩).mono
      (fun _ _ _ => ?_) fun _ _ _ => trivial)
    exact ⟨_, _, _, _, _, _, rfl, hedited, rfl⟩

/-! ## The edit of a file that is found -/

def rootPolicy : PathPolicy := ⟨[[]], List.cons_ne_nil _ _⟩

theorem yields_canonicalizePath_root : (canonicalizePath []).Yields [] :=
  .request (.ok .directory) (.request (.ok []) (.pure []))

theorem yields_resolve_root : (rootPolicy.resolve "/").Yields [] :=
  .request (.ok .directory) (.request (.ok []) (.request (.ok .directory) (.request (.ok [])
    (.pure []))))

theorem yields_exists_root : (FileSystemService.exists []).Yields true :=
  .request (.ok .directory) (.pure true)

/-- A service with digests of this kind that allows every path, and files of this size. -/
def openService (sha256 : Bytes → D) (maxWriteBytes : ℕ) : FileSystemService D where
  policy := rootPolicy
  maxReadBytes := 0
  maxWriteBytes := maxWriteBytes
  sha256 := sha256
  patchTools := ⟨fun patch => (patch, 0), fun _ => .ok (), fun source _ => .ok (some source)⟩
  pid := ⟨"1", by decide, by decide⟩

def someUuid : NamePart := ⟨"0", by decide, by decide⟩

theorem written_of_editWrites (sha256 : Bytes → D) (replaceAll : Bool) {current : Bytes}
    {maxWriteBytes : ℕ} (hne : oldString ≠ []) (hnew : oldString ≠ newString)
    (hzero : (editMatches (decode current) oldString newString).2.2 ≠ 0)
    (hone : ¬ ((editMatches (decode current) oldString newString).2.2 > 1 && !replaceAll) = true)
    (hlimit : (encode (replaceMatches (decode current)
      (editMatches (decode current) oldString newString).1
      (editMatches (decode current) oldString newString).2.1 replaceAll)).length ≤ maxWriteBytes)
    (h : EditWrites current oldString newString replaceAll
      ((openService sha256 maxWriteBytes).edit someUuid "/" oldString newString replaceAll none)) :
    ∃ result replacements,
      EditedTo (decode current) oldString newString replaceAll result replacements := by
  unfold EditWrites edit at h
  rw [if_neg (by simpa using hne), if_neg hnew] at h
  have hfound := obeys_of_yields (issues_exists []) yields_exists_root
    (obeys_of_locked yields_canonicalizePath_root
      (obeys_of_yields (issues_resolve _ _) yields_resolve_root h))
  rw [if_neg (by decide)] at hfound
  have hfile := hfound.2 (.ok (.file 0 0)) trivial
  dsimp only [Fs.throwing, Program.bind] at hfile
  rw [if_neg (by decide), if_neg (show ¬ (Stats.file 0 0).size >
    (openService sha256 maxWriteBytes).maxReadBytes from Nat.not_lt_zero _)] at hfile
  have hread := hfile.2 (.ok current) rfl
  dsimp only [Fs.throwing, Program.bind] at hread
  rw [Option.any_none, if_neg Bool.false_ne_true, if_neg hzero, if_neg hone,
    if_neg (show ¬ _ > (openService sha256 maxWriteBytes).maxWriteBytes from
      Nat.not_lt.mpr hlimit)] at hread
  obtain ⟨result, replacements, hedited, -⟩ := ((hread.2 (.ok ()) trivial).2 (.ok ()) trivial).1
  exact ⟨result, replacements, hedited⟩

/-- An edit, whatever the file system does, writes only what it should, if and only if it is rejected at
once or the occurrences of a single edit's text stand apart. -/
theorem edit_writes_iff (sha256 : Bytes → D) (current : Bytes) (oldString newString : List Char)
    (replaceAll : Bool) :
    (∀ service : FileSystemService D, service.sha256 = sha256 → ∀ uuid input expectedSha256,
      EditWrites current oldString newString replaceAll
        (service.edit uuid input oldString newString replaceAll expectedSha256)) ↔
      oldString = [] ∨ oldString = newString ∨ replaceAll = true ∨
        Apart (searchedText (decode current) oldString newString).1 (decode current) := by
  constructor
  · intro h
    by_contra hcond
    rw [not_or, not_or, not_or] at hcond
    obtain ⟨hne, hnew, hsingle, hapart⟩ := hcond
    obtain rfl := Bool.eq_false_of_not_eq_true hsingle
    have hsearch := searchedText_ne_nil (decode current) newString hne
    have hreplaced := replaced_split hsearch [] (decode current)
    -- Two occurrences that overlap are counted as one.
    have hcount : (split (decode current) (searchedText (decode current) oldString newString).1).length
        - 1 = 1 := by
      have hzero := mt hreplaced.eq_zero_iff.mp (not_not_intro (infix_of_not_apart hapart))
      have htwo := mt hreplaced.two_le_iff.mp (not_exists_of_not_apart hapart)
      omega
    have heq := editMatches_eq (decode current) newString hne
    obtain ⟨result, replacements, hedited⟩ := written_of_editWrites sha256 false hne hnew
      (by rw [heq]; dsimp only; rw [hcount]; exact Nat.one_ne_zero)
      (by rw [heq]; dsimp only; rw [hcount]; exact Bool.false_ne_true)
      le_rfl (h (openService sha256 _) rfl someUuid "/" none)
    obtain ⟨-, before, after, honce, -⟩ := hedited
    exact hapart (apart_of_occursOnce honce)
  · rintro (rfl | rfl | hrest) service rfl uuid input expectedSha256
    · exact trivial
    · unfold EditWrites edit
      split
      · exact trivial
      · rw [if_pos rfl]
        exact trivial
    · exact editWrites_of_apart service uuid input expectedSha256 hrest

/-- The text "aa" stands at two places of "aaa", and one of them is replaced. -/
theorem not_editWrites_overlapping : ¬ ∀ (current : Bytes) (oldString newString : List Char)
    (replaceAll : Bool) (service : FileSystemService Unit) (uuid : NamePart) (input : String)
    (expectedSha256 : Option Unit), EditWrites current oldString newString replaceAll
      (service.edit uuid input oldString newString replaceAll expectedSha256) := by
  intro h
  obtain ⟨result, replacements, -, before, after, honce, -⟩ := written_of_editWrites (fun _ => ()) false
    (by decide) (by decide) (by decide +kernel) (by decide +kernel) le_rfl
    (h (encode ['a', 'a', 'a']) ['a', 'a'] ['b'] false (openService (fun _ => ()) _) someUuid "/" none)
  have hfirst := honce.unique [] ['a'] (by decide +kernel)
  have hsecond := honce.unique ['a'] [] (by decide +kernel)
  exact absurd (hfirst.trans hsecond.symm) nofun

end FileSystemService
