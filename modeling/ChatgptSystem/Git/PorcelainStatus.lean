import ChatgptSystem.Core.SortedTexts
import ChatgptSystem.Core.Utf8
import ChatgptSystem.Continuity.ProjectContinuityService

/-!
# The status of a worktree

What `git status --porcelain=v1 -z` prints, and how the continuity inspector reads it.

* `StatusEntry`, `porcelain` — the entries of a status and their encoding;
* `parsePorcelainStatus` — the paths that are staged, not staged and untracked, up to a limit;
* `parsePorcelainStatus_porcelain` — it decodes the encoding of every list of entries.
-/

open Text (nul)

namespace GitStatus

/-! ## The inspector -/

/-- The `Set`s, as the values that have been added to them. -/
structure PathSets where
  staged : List (List Char)
  unstaged : List (List Char)
  untracked : List (List Char)

structure TrackedPaths where
  stagedPaths : List (List Char)
  unstagedPaths : List (List Char)
  untrackedPaths : List (List Char)
  pathsTruncated : Bool
  deriving DecidableEq

def isUnit (unit : ℕ) (c : Char) : Bool := unit = c.toNat

/-- `unit === "R" || unit === "C"` -/
def isRename (unit : ℕ) : Bool := isUnit unit 'R' || isUnit unit 'C'

/-- `unit !== " " && unit !== "!" && unit !== "?"` -/
def isChange (unit : ℕ) : Bool := !isUnit unit ' ' && !isUnit unit '!' && !isUnit unit '?'

def boundedPaths (values : List (List Char)) (limit : ℕ) : List (List Char) × Bool :=
  let sorted := Text.sortedSet values
  (sorted.take limit, limit < sorted.length)

def readFields : List (List Char) → PathSets → Except AppError PathSets
  | [], sets => .ok sets
  | entry :: entries, sets =>
    if entry.isEmpty then readFields entries sets
    else
      let units := entry.flatMap Text.codeUnits
      if units.length < 4 ∨ units[2]? ≠ some ' '.toNat then
        .error (Continuity.worktreeInvalid "Git returned invalid porcelain status data.")
      else
        let x := units[0]?.getD ' '.toNat
        let y := units[1]?.getD ' '.toNat
        let pathname := Text.dropUnits 3 entry
        if pathname.isEmpty then
          .error (Continuity.worktreeInvalid "Git returned an empty porcelain path.")
        else if isUnit x '?' && isUnit y '?' then
          readFields entries { sets with untracked := sets.untracked ++ [pathname] }
        else
          let sets := { sets with
            staged := if isChange x then sets.staged ++ [pathname] else sets.staged
            unstaged := if isChange y then sets.unstaged ++ [pathname] else sets.unstaged }
          if isRename x || isRename y then
            match entries with
            | [] => .error (Continuity.worktreeInvalid
                "Git returned incomplete rename/copy porcelain data.")
            | source :: entries =>
              if source.isEmpty then
                .error (Continuity.worktreeInvalid
                  "Git returned incomplete rename/copy porcelain data.")
              else readFields entries sets
          else readFields entries sets

def parsePorcelainStatus (raw : Bytes) (maxTrackedPaths : ℕ) : Except AppError TrackedPaths :=
  (readFields (Text.split (Text.decode raw) [nul]) ⟨[], [], []⟩).map fun sets =>
    let stagedResult := boundedPaths sets.staged maxTrackedPaths
    let unstagedResult := boundedPaths sets.unstaged maxTrackedPaths
    let untrackedResult := boundedPaths sets.untracked maxTrackedPaths
    { stagedPaths := stagedResult.1
      unstagedPaths := unstagedResult.1
      untrackedPaths := untrackedResult.1
      pathsTruncated := stagedResult.2 || unstagedResult.2 || untrackedResult.2 }

/-! ## Status entries -/

def statusCodes : List Char := [' ', 'M', 'T', 'A', 'D', 'R', 'C', 'U']

/-- An entry of a status: an untracked path, or a path that has changed in the index or in the
worktree, with the path it is renamed or copied from. -/
structure StatusEntry where
  x : Char
  y : Char
  path : List Char
  source : Option (List Char)
  legal_codes : (x = '?' ∧ y = '?') ∨ (x ∈ statusCodes ∧ y ∈ statusCodes ∧ ¬ (x = ' ' ∧ y = ' '))
  legal_path : path ≠ [] ∧ nul ∉ path
  legal_source : ∀ text ∈ source, text ≠ [] ∧ nul ∉ text
  source_iff : source.isSome = true ↔ x = 'R' ∨ x = 'C' ∨ y = 'R' ∨ y = 'C'

namespace StatusEntry

variable (entry : StatusEntry)

def fields : List (List Char) := (entry.x :: entry.y :: ' ' :: entry.path) :: entry.source.toList

def IsUntracked : Prop := entry.x = '?' ∧ entry.y = '?'

def IsStaged : Prop := entry.x ≠ '?' ∧ entry.x ≠ ' '

def IsUnstaged : Prop := entry.y ≠ '?' ∧ entry.y ≠ ' '

instance : Decidable entry.IsUntracked := inferInstanceAs (Decidable (_ ∧ _))
instance : Decidable entry.IsStaged := inferInstanceAs (Decidable (_ ∧ _))
instance : Decidable entry.IsUnstaged := inferInstanceAs (Decidable (_ ∧ _))

end StatusEntry

def statusFields (entries : List StatusEntry) : List (List Char) :=
  entries.flatMap StatusEntry.fields

/-- What `git status --porcelain=v1 -z` prints. -/
def porcelain (entries : List StatusEntry) : List Char :=
  (statusFields entries).flatMap (· ++ [nul])

def pathsOf (kind : StatusEntry → Prop) [DecidablePred kind] (entries : List StatusEntry) :
    List (List Char) :=
  (entries.filter fun entry => kind entry).map StatusEntry.path

/-! ## Fields -/

namespace StatusEntry

variable (entry : StatusEntry)

theorem code_cases : (entry.x = '?' ∧ entry.y = '?') ∨
    entry.x ∈ statusCodes ∧ entry.y ∈ statusCodes := by
  rcases entry.legal_codes with h | ⟨hx, hy, -⟩
  · exact .inl h
  · exact .inr ⟨hx, hy⟩

theorem codeUnits_codes : Text.codeUnits entry.x = [entry.x.toNat] ∧
    Text.codeUnits entry.y = [entry.y.toNat] := by
  have hcodes : ∀ c ∈ statusCodes, Text.codeUnits c = [c.toNat] := by decide
  rcases entry.code_cases with ⟨hx, hy⟩ | ⟨hx, hy⟩
  · rw [hx, hy]
    decide
  · exact ⟨hcodes _ hx, hcodes _ hy⟩

theorem units_eq : (entry.x :: entry.y :: ' ' :: entry.path).flatMap Text.codeUnits =
    entry.x.toNat :: entry.y.toNat :: ' '.toNat :: entry.path.flatMap Text.codeUnits := by
  obtain ⟨hx, hy⟩ := entry.codeUnits_codes
  have hspace : Text.codeUnits ' ' = [' '.toNat] := by decide
  simp only [List.flatMap_cons, hx, hy, hspace, List.singleton_append]

theorem units_legal : ¬ ((entry.x :: entry.y :: ' ' :: entry.path).flatMap
      Text.codeUnits).length < 4 ∧
    ((entry.x :: entry.y :: ' ' :: entry.path).flatMap Text.codeUnits)[2]? =
      some ' '.toNat := by
  rw [units_eq]
  obtain ⟨c, rest, hpath⟩ := List.exists_cons_of_ne_nil entry.legal_path.1
  have hunits := List.length_pos_iff.mpr (Text.codeUnits_ne_nil c)
  refine ⟨?_, rfl⟩
  rw [hpath, List.flatMap_cons]
  simp only [List.length_cons, List.length_append]
  omega

theorem dropUnits_eq :
    Text.dropUnits 3 (entry.x :: entry.y :: ' ' :: entry.path) = entry.path := by
  obtain ⟨hx, hy⟩ := entry.codeUnits_codes
  have hspace : Text.codeUnits ' ' = [' '.toNat] := by decide
  have hdrop : ∀ (n : ℕ) (c : Char) (rest : List Char), Text.codeUnits c = [c.toNat] →
      Text.dropUnits (n + 1) (c :: rest) = Text.dropUnits n rest := by
    intro n c rest hc
    rw [Text.dropUnits, hc, List.length_singleton, if_pos (by omega), Nat.add_sub_cancel]
  rw [hdrop 2 _ _ hx, hdrop 1 _ _ hy, hdrop 0 _ _ hspace, Text.dropUnits]

theorem isUnit_iff (c d : Char) : isUnit c.toNat d = true ↔ c = d := by
  simp [isUnit, Char.toNat_inj]

theorem isRename_iff : (isRename entry.x.toNat || isRename entry.y.toNat) = true ↔
    entry.source.isSome = true := by
  rw [entry.source_iff]
  simp only [isRename, Bool.or_eq_true, isUnit_iff]
  tauto

theorem isUntracked_iff : (isUnit entry.x.toNat '?' && isUnit entry.y.toNat '?') = true ↔
    entry.IsUntracked := by
  simp only [Bool.and_eq_true, isUnit_iff, IsUntracked]

theorem isChange_iff : (isChange entry.x.toNat = true ↔ entry.IsStaged) ∧
    (isChange entry.y.toNat = true ↔ entry.IsUnstaged) := by
  have hcodes : ∀ c ∈ statusCodes, c ≠ '!' := by decide
  have hignored : entry.x ≠ '!' ∧ entry.y ≠ '!' := by
    rcases entry.code_cases with ⟨hx, hy⟩ | ⟨hx, hy⟩
    · rw [hx, hy]
      decide
    · exact ⟨hcodes _ hx, hcodes _ hy⟩
  simp only [isChange, Bool.and_eq_true, Bool.not_eq_true', ← Bool.not_eq_true, isUnit_iff,
    IsStaged, IsUnstaged]
  tauto

theorem nul_notMem_fields {field : List Char} (h : field ∈ entry.fields) : nul ∉ field := by
  rcases List.mem_cons.mp h with rfl | hsource
  · have hcodes : ∀ c ∈ statusCodes, nul ≠ c := by decide
    have hlegal : nul ≠ entry.x ∧ nul ≠ entry.y := by
      rcases entry.code_cases with ⟨hx, hy⟩ | ⟨hx, hy⟩
      · rw [hx, hy]
        decide
      · exact ⟨hcodes _ hx, hcodes _ hy⟩
    have hspace : nul ≠ ' ' := by decide
    simp [hlegal, hspace, entry.legal_path.2]
  · exact (entry.legal_source field (Option.mem_toList.mp hsource)).2

end StatusEntry

theorem split_porcelain (entries : List StatusEntry) :
    Text.split (porcelain entries) [nul] = statusFields entries ++ [[]] := by
  refine Text.split_pieces fun field hfield => ?_
  obtain ⟨entry, -, hmem⟩ := List.mem_flatMap.mp hfield
  exact entry.nul_notMem_fields hmem

/-! ## The inspector decodes a status -/

section Inspector

theorem readFields_entry (entry : StatusEntry) (fields : List (List Char)) (sets : PathSets) :
    readFields (entry.fields ++ fields) sets = readFields fields
      { staged := sets.staged ++ pathsOf StatusEntry.IsStaged [entry]
        unstaged := sets.unstaged ++ pathsOf StatusEntry.IsUnstaged [entry]
        untracked := sets.untracked ++ pathsOf StatusEntry.IsUntracked [entry] } := by
  obtain ⟨hlong, hspace⟩ := entry.units_legal
  have hfirst : ¬ (((entry.x :: entry.y :: ' ' :: entry.path).flatMap Text.codeUnits).length < 4 ∨
      ((entry.x :: entry.y :: ' ' :: entry.path).flatMap Text.codeUnits)[2]? ≠
        some ' '.toNat) := not_or.mpr ⟨hlong, not_not.mpr hspace⟩
  have hpath : ¬ entry.path.isEmpty = true := by simpa using entry.legal_path.1
  have hx : ((entry.x :: entry.y :: ' ' :: entry.path).flatMap Text.codeUnits)[0]?.getD
      ' '.toNat = entry.x.toNat := by rw [entry.units_eq]; rfl
  have hy : ((entry.x :: entry.y :: ' ' :: entry.path).flatMap Text.codeUnits)[1]?.getD
      ' '.toNat = entry.y.toNat := by rw [entry.units_eq]; rfl
  obtain ⟨hstaged, hunstaged⟩ := entry.isChange_iff
  rw [StatusEntry.fields, List.cons_append]
  conv_lhs => unfold readFields
  rw [if_neg (by simp), if_neg hfirst]
  simp only [hx, hy, entry.dropUnits_eq, if_neg hpath]
  by_cases huntracked : entry.IsUntracked
  · have hstill : ¬ entry.IsStaged ∧ ¬ entry.IsUnstaged :=
      ⟨fun h => h.1 huntracked.1, fun h => h.1 huntracked.2⟩
    have hsource : entry.source = none := by
      refine Option.not_isSome_iff_eq_none.mp fun hsome => ?_
      have hcodes := entry.source_iff.mp hsome
      rw [huntracked.1, huntracked.2] at hcodes
      revert hcodes
      decide
    rw [if_pos (entry.isUntracked_iff.mpr huntracked), hsource, Option.toList_none,
      List.nil_append]
    simp [pathsOf, hstill, huntracked]
  · rw [if_neg (mt entry.isUntracked_iff.mp huntracked)]
    have hsets : ∀ (kind : StatusEntry → Prop) [DecidablePred kind] (unit : ℕ)
        (values : List (List Char)), (isChange unit = true ↔ kind entry) →
        (if isChange unit then values ++ [entry.path] else values) =
          values ++ pathsOf kind [entry] := by
      intro kind _ unit values hkind
      by_cases h : kind entry
      · rw [if_pos (hkind.mpr h)]
        simp [pathsOf, h]
      · rw [if_neg (mt hkind.mp h)]
        simp [pathsOf, h]
    have hnone : pathsOf StatusEntry.IsUntracked [entry] = [] := by simp [pathsOf, huntracked]
    rw [hsets _ _ _ hstaged, hsets _ _ _ hunstaged, hnone, List.append_nil]
    cases hsource : entry.source with
    | none =>
      have hrename : ¬ (isRename entry.x.toNat || isRename entry.y.toNat) = true := by
        rw [entry.isRename_iff, hsource]
        exact Bool.false_ne_true
      rw [if_neg hrename]
      rfl
    | some source =>
      have hrename : (isRename entry.x.toNat || isRename entry.y.toNat) = true := by
        rw [entry.isRename_iff, hsource]
        rfl
      have hne : ¬ source.isEmpty = true := by simpa using (entry.legal_source source hsource).1
      rw [if_pos hrename]
      show (if source.isEmpty then _ else readFields fields _) = _
      rw [if_neg hne]

theorem readFields_statusFields (entries : List StatusEntry) (sets : PathSets) :
    readFields (statusFields entries ++ [[]]) sets = .ok
      { staged := sets.staged ++ pathsOf StatusEntry.IsStaged entries
        unstaged := sets.unstaged ++ pathsOf StatusEntry.IsUnstaged entries
        untracked := sets.untracked ++ pathsOf StatusEntry.IsUntracked entries } := by
  induction entries generalizing sets with
  | nil => simp [statusFields, readFields, pathsOf]
  | cons entry entries ih =>
    have hpaths : ∀ (kind : StatusEntry → Prop) [DecidablePred kind],
        pathsOf kind [entry] ++ pathsOf kind entries = pathsOf kind (entry :: entries) := by
      intro kind _
      simp only [pathsOf, ← List.map_append, ← List.filter_append, List.singleton_append]
    rw [statusFields, List.flatMap_cons, List.append_assoc, readFields_entry]
    exact (ih _).trans (by simp only [List.append_assoc, hpaths])

theorem parsePorcelainStatus_porcelain (entries : List StatusEntry) (limit : ℕ) :
    ∃ staged unstaged untracked,
      Text.IsSortedSet staged (pathsOf StatusEntry.IsStaged entries) ∧
      Text.IsSortedSet unstaged (pathsOf StatusEntry.IsUnstaged entries) ∧
      Text.IsSortedSet untracked (pathsOf StatusEntry.IsUntracked entries) ∧
      parsePorcelainStatus (Text.encode (porcelain entries)) limit = .ok
        { stagedPaths := staged.take limit
          unstagedPaths := unstaged.take limit
          untrackedPaths := untracked.take limit
          pathsTruncated := decide (limit < staged.length ∨ limit < unstaged.length ∨
            limit < untracked.length) } := by
  refine ⟨_, _, _, Text.isSortedSet_sortedSet _, Text.isSortedSet_sortedSet _,
    Text.isSortedSet_sortedSet _, ?_⟩
  rw [parsePorcelainStatus, Text.decode_encode, split_porcelain, readFields_statusFields]
  simp [boundedPaths, Except.map, Bool.or_assoc]

end Inspector

end GitStatus
