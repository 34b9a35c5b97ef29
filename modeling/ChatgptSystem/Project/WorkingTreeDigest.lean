import ChatgptSystem.Core.Errors
import ChatgptSystem.Foundations.Bytes
import Mathlib.Data.List.Infix

/-!
# The working-tree digest

`TaskStateService.observeRepositoryState` hashes the `HEAD` diff and the untracked files of a
repository into one working-tree digest. This module models the byte sequence that is fed to
the hash and determines which worktree states it identifies.

* `hashWorktree` — the bytes fed to the hash, with the size limits that refuse a state;
  `digestInput` — the same bytes in closed form (`hashWorktree_eq_digestInput`);
* `Unambiguous s` — no other worktree state feeds the bytes of `s`, spelled out on the diff and
  the untracked files;
* `digestInput_determines_iff` — `Unambiguous s` is exactly the condition.
-/

namespace TaskStateService

open Bytes

/-- A relative path as `git ls-files -z` lists it. Git lists paths below the repository root
only, so the `isInside` guard of `hashUntrackedFile` passes for each. -/
structure RelativePath where
  bytes : Bytes
  ne_nil : bytes ≠ []
  nul_free : 0 ∉ bytes
  deriving DecidableEq

structure LinkTarget where
  bytes : Bytes
  nul_free : 0 ∉ bytes
  deriving DecidableEq

/-- An untracked path: a regular file with its content, or a symbolic link. -/
inductive UntrackedFile where
  | regular (content : Bytes)
  | symlink (target : LinkTarget)
  deriving DecidableEq

/-- A worktree at one `HEAD`: the bytes of `git diff --binary HEAD` and the untracked files in
the order Git lists them. -/
structure WorktreeState where
  diff : Bytes
  untracked : List (RelativePath × UntrackedFile)
  distinct : (untracked.map Prod.fst).Nodup

theorem WorktreeState.ext {s t : WorktreeState} (hdiff : s.diff = t.diff)
    (huntracked : s.untracked = t.untracked) : s = t := by
  obtain ⟨d, u, h⟩ := s
  obtain ⟨d', u', h'⟩ := t
  simp_all

/-- What opening an untracked path with `O_RDONLY | O_NOFOLLOW` finds. -/
inductive OpenedPath where
  | regular (content : Bytes)
  | notRegular
  /-- The open fails with `ELOOP`; the link is read instead. -/
  | symlink (target : Bytes)
  /-- The open fails with `ENOENT`. -/
  | missing

def UntrackedFile.open : UntrackedFile → OpenedPath
  | .regular content => .regular content
  | .symlink target => .symlink target.bytes

def maxUntrackedBytes : ℕ := 32 * 1024 * 1024

/-- `hashUntrackedFile`: the bytes fed so far, extended by one untracked path, and the number
of content bytes counted against the budget. -/
def hashUntrackedFile (hash relativePath : Bytes) (opened : OpenedPath)
    (remainingBudget : ℕ) : Except AppError (Bytes × ℕ) :=
  let hash := hash ++ (ascii "path" ++ [0]) ++ relativePath ++ [0]
  match opened with
  | .regular content =>
    if content.length > remainingBudget then
      .error (.limit "Untracked task-state digest input exceeds its bounded size.")
    else .ok (hash ++ content, content.length)
  | .notRegular => .ok (hash, 0)
  | .symlink target =>
    if target.length > remainingBudget then
      .error (.limit "Untracked symlink digest input exceeds its bounded size.")
    else .ok (hash ++ (ascii "symlink" ++ [0]) ++ target, target.length)
  | .missing => .ok (hash, 0)

/-- The loop of `observeRepositoryState` over the untracked files. -/
def hashUntracked : List (RelativePath × UntrackedFile) → Bytes → ℕ → Except AppError Bytes
  | [], hash, _ => .ok hash
  | (relativePath, file) :: rest, hash, untrackedBytes =>
    if untrackedBytes ≥ maxUntrackedBytes then
      .error (.limit "Untracked task-state digest input exceeds its bounded size.")
    else do
      let (hash, consumed) ← hashUntrackedFile hash relativePath.bytes file.open
        (maxUntrackedBytes - untrackedBytes)
      hashUntracked rest (hash ++ [0]) (untrackedBytes + consumed)

/-- The bytes `observeRepositoryState` feeds to the hash. -/
def hashWorktree (s : WorktreeState) : Except AppError Bytes :=
  hashUntracked s.untracked
    ((ascii "tracked-diff" ++ [0]) ++ s.diff ++ ([0] ++ ascii "untracked" ++ [0])) 0

/-! ## The fed bytes in closed form -/

/-- `"\0untracked\0"`. -/
def untrackedMark : Bytes := [0] ++ ascii "untracked" ++ [0]

/-- `"path\0"`. -/
def pathMark : Bytes := ascii "path" ++ [0]

/-- `"symlink\0"`. -/
def symlinkMark : Bytes := ascii "symlink" ++ [0]

def UntrackedFile.body : UntrackedFile → Bytes
  | .regular content => content
  | .symlink target => symlinkMark ++ target.bytes

def entryBytes (relativePath body : Bytes) : Bytes :=
  pathMark ++ (relativePath ++ 0 :: (body ++ [0]))

def untrackedBytes (untracked : List (RelativePath × UntrackedFile)) : Bytes :=
  untracked.flatMap fun e => entryBytes e.1.bytes e.2.body

/-- The bytes fed to the hash, with no limit on their number. -/
def digestInput (s : WorktreeState) : Bytes :=
  (ascii "tracked-diff" ++ [0]) ++ (s.diff ++ (untrackedMark ++ untrackedBytes s.untracked))

@[simp] theorem untrackedBytes_nil : untrackedBytes [] = [] := rfl

@[simp] theorem untrackedBytes_cons (e : RelativePath × UntrackedFile)
    (rest : List (RelativePath × UntrackedFile)) :
    untrackedBytes (e :: rest) = entryBytes e.1.bytes e.2.body ++ untrackedBytes rest := rfl

theorem hashUntrackedFile_eq {hash relativePath hash' : Bytes} {file : UntrackedFile}
    {budget consumed : ℕ}
    (h : hashUntrackedFile hash relativePath file.open budget = .ok (hash', consumed)) :
    hash' ++ [0] = hash ++ entryBytes relativePath file.body := by
  cases file with
  | regular content =>
    simp only [hashUntrackedFile, UntrackedFile.open] at h
    split at h
    · cases h
    · cases h
      simp [entryBytes, pathMark, UntrackedFile.body]
  | symlink target =>
    simp only [hashUntrackedFile, UntrackedFile.open] at h
    split at h
    · cases h
    · cases h
      simp [entryBytes, pathMark, symlinkMark, UntrackedFile.body]

theorem hashUntracked_eq :
    ∀ (untracked : List (RelativePath × UntrackedFile)) {hash hash' : Bytes} {n : ℕ},
      hashUntracked untracked hash n = .ok hash' → hash' = hash ++ untrackedBytes untracked
  | [], _, _, _, h => by
      cases h
      simp
  | (relativePath, file) :: rest, hash, hash', n, h => by
      simp only [hashUntracked] at h
      split at h
      · cases h
      · cases hfile : hashUntrackedFile hash relativePath.bytes file.open
            (maxUntrackedBytes - n) with
        | error e => simp [hfile, bind, Except.bind] at h
        | ok fed =>
          obtain ⟨mid, consumed⟩ := fed
          simp only [hfile, bind, Except.bind] at h
          rw [hashUntracked_eq rest h, hashUntrackedFile_eq hfile, untrackedBytes_cons,
            List.append_assoc]

/-- The size limits only refuse a state; they never change the bytes that are fed. -/
theorem hashWorktree_eq_digestInput {s : WorktreeState} {fed : Bytes}
    (h : hashWorktree s = .ok fed) : fed = digestInput s := by
  rw [hashUntracked_eq _ h]
  simp [digestInput, untrackedMark]

/-! ## The states that share their bytes with no other state -/

/-- A byte string that can follow the untracked mark: no entry, or one entry. Several entries
read as one whose content contains the others. -/
def ReadsAsUntracked (rest : Bytes) : Prop :=
  rest = [] ∨ ∃ (q : RelativePath) (body : Bytes), rest = entryBytes q.bytes body

/-- The only untracked file is the regular file `p`, and no part of it reads as one of the
marks the encoding uses. -/
structure UnambiguousFile (diff : Bytes) (p : RelativePath) (content : Bytes) : Prop where
  /-- The content does not read as a symbolic link. -/
  not_symlink : ∀ target : LinkTarget, content ≠ symlinkMark ++ target.bytes
  /-- The content does not contain the entry of another path. -/
  no_entry : ∀ before (q : RelativePath) after, q ≠ p →
    content ≠ before ++ 0 :: (pathMark ++ (q.bytes ++ 0 :: after))
  /-- The content, with the NUL before it, does not end in the untracked mark. -/
  no_mark_end : ∀ before, 0 :: content ≠ before ++ 0 :: ascii "untracked"
  /-- The content, with the NUL before it, contains no untracked mark followed by an entry. -/
  no_mark_entry : ∀ before (q : RelativePath) after,
    0 :: content ≠ before ++ (untrackedMark ++ (pathMark ++ (q.bytes ++ 0 :: after)))
  /-- A file named `untracked` has no content that reads as an entry. -/
  not_named_untracked : p.bytes = ascii "untracked" → ∀ (q : RelativePath) after,
    content ≠ pathMark ++ (q.bytes ++ 0 :: after)
  /-- The diff does not end in an untracked mark and the word `path`. -/
  diff_end : ∀ before, diff ≠ before ++ (untrackedMark ++ ascii "path")

/-- The worktree states that are determined by the bytes fed to the hash. -/
structure Unambiguous (s : WorktreeState) : Prop where
  /-- The diff contains no untracked mark followed by the header of an entry. -/
  diff_entry : ∀ before (q : RelativePath) after, (after = [] ∨ ∃ rest, after = 0 :: rest) →
    s.diff ≠ before ++ (untrackedMark ++ (pathMark ++ (q.bytes ++ after)))
  /-- There is at most one untracked file, and it is a regular file. -/
  files : s.untracked = [] ∨ ∃ p content, s.untracked = [(p, .regular content)] ∧
    UnambiguousFile s.diff p content

theorem untrackedMark_eq :
    untrackedMark = [0, 117, 110, 116, 114, 97, 99, 107, 101, 100, 0] := by decide

theorem pathMark_eq : pathMark = [112, 97, 116, 104, 0] := by decide

theorem untrackedMark_eq_cons (rest : Bytes) :
    untrackedMark ++ rest = 0 :: (ascii "untracked" ++ 0 :: rest) := by
  simp [untrackedMark]

theorem nul_not_mem_untracked : (0 : UInt8) ∉ ascii "untracked" := by decide

theorem untrackedBytes_ends (untracked : List (RelativePath × UntrackedFile)) :
    untrackedBytes untracked = [] ∨ ∃ init, untrackedBytes untracked = init ++ [0] := by
  induction untracked with
  | nil => exact .inl rfl
  | cons e rest ih =>
    right
    rcases ih with ih | ⟨init, ih⟩ <;> rw [untrackedBytes_cons, ih, entryBytes]
    · exact ⟨pathMark ++ (e.1.bytes ++ 0 :: e.2.body), by simp⟩
    · exact ⟨pathMark ++ (e.1.bytes ++ 0 :: (e.2.body ++ [0])) ++ init, by simp⟩

theorem untrackedBytes_eq_entryBytes (e : RelativePath × UntrackedFile)
    (rest : List (RelativePath × UntrackedFile)) :
    ∃ body, untrackedBytes (e :: rest) = entryBytes e.1.bytes body := by
  rcases untrackedBytes_ends rest with h | ⟨init, h⟩ <;> rw [untrackedBytes_cons, h]
  · exact ⟨e.2.body, by simp⟩
  · exact ⟨e.2.body ++ 0 :: init, by simp [entryBytes]⟩

theorem readsAsUntracked_untrackedBytes (untracked : List (RelativePath × UntrackedFile)) :
    ReadsAsUntracked (untrackedBytes untracked) := by
  cases untracked with
  | nil => exact .inl rfl
  | cons e rest => exact .inr ⟨e.1, untrackedBytes_eq_entryBytes e rest⟩

theorem untrackedMark_append_ends (untracked : List (RelativePath × UntrackedFile)) :
    ∃ init, untrackedMark ++ untrackedBytes untracked = 0 :: (init ++ [0]) := by
  rcases untrackedBytes_ends untracked with h | ⟨init, h⟩ <;> rw [h, untrackedMark_eq_cons]
  · exact ⟨ascii "untracked", rfl⟩
  · exact ⟨ascii "untracked" ++ 0 :: init, by simp⟩

theorem untrackedMark_suffix {x y : Bytes} (h : untrackedMark = x ++ y) (hx : x ≠ [])
    (hy : y.head? = some 0) : y = [0] := by
  have hmem : y ∈ untrackedMark.tails := (List.mem_tails _ _).mpr ⟨x, h.symm⟩
  rw [untrackedMark_eq] at hmem h
  simp only [List.tails, List.mem_cons, List.not_mem_nil, or_false] at hmem
  rcases hmem with rfl | rfl | rfl | rfl | rfl | rfl | rfl | rfl | rfl | rfl | rfl | rfl <;>
    simp_all

theorem untrackedMark_occurrence {x rest rest' : Bytes} (hx : x ≠ [])
    (hread : ReadsAsUntracked rest')
    (h : x ++ (untrackedMark ++ rest) = untrackedMark ++ rest') :
    ∃ y, x = untrackedMark ++ y ∧ rest' = y ++ (untrackedMark ++ rest) := by
  rcases List.append_eq_append_iff.mp h with ⟨a, hmark, hrest⟩ | ⟨y, hxy, hrest⟩
  · cases a with
    | nil => exact ⟨[], by simpa using hmark.symm, by simpa using hrest.symm⟩
    | cons b a =>
      have hb : b = 0 := by
        rw [untrackedMark_eq_cons] at hrest
        exact (List.cons.inj hrest).1.symm
      have hone : b :: a = [0] := untrackedMark_suffix hmark hx (by simp [hb])
      rw [hone, untrackedMark_eq_cons] at hrest
      have htail : ascii "untracked" ++ 0 :: rest = rest' := (List.cons.inj hrest).2
      -- the shared NUL would leave `untracked\0` where an entry starts with `path\0`
      rcases hread with rfl | ⟨q, body, rfl⟩
      · simp at htail
      · simp [entryBytes, pathMark_eq, ascii] at htail
  · exact ⟨y, hxy, hrest⟩

theorem entryBytes_untrackedMark {y rest q body : Bytes} (hq : 0 ∉ q)
    (h : y ++ (untrackedMark ++ rest) = entryBytes q body) :
    (y = ascii "path" ∧ q = ascii "untracked" ∧ rest = body ++ [0]) ∨
      ∃ after, y = pathMark ++ (q ++ after) ∧
        after ++ (untrackedMark ++ rest) = 0 :: (body ++ [0]) := by
  rw [entryBytes] at h
  rcases List.append_eq_append_iff.mp h with ⟨a, hpath, hrest⟩ | ⟨z, rfl, hrest⟩
  · -- the mark starts inside `path\0`, so at its NUL
    have hy : y ∈ pathMark.inits := (List.mem_inits _ _).mpr ⟨a, hpath.symm⟩
    rw [pathMark_eq] at hy hpath
    simp only [List.inits, List.map_cons, List.map_nil, List.mem_cons, List.not_mem_nil,
      or_false] at hy
    rw [untrackedMark_eq_cons] at hrest
    rcases hy with rfl | rfl | rfl | rfl | rfl | rfl <;>
      simp only [List.nil_append, List.cons_append, List.cons.injEq, true_and] at hpath
    iterate 4
      · subst hpath
        simp at hrest
    · left
      subst hpath
      obtain ⟨hname, hbody⟩ :=
        terminated_inj nul_not_mem_untracked hq (List.cons.inj hrest).2
      exact ⟨by decide, hname.symm, hbody⟩
    · right
      subst hpath
      cases q with
      | nil => exact ⟨[], by simp [pathMark_eq], by simpa [untrackedMark_eq_cons] using hrest⟩
      | cons b q =>
        have hb : 0 = b := (List.cons.inj hrest).1
        simp [← hb] at hq
  · right
    by_cases hz : 0 ∈ z
    · obtain ⟨z₁, z₂, rfl, hz₁⟩ := List.eq_append_cons_of_mem hz
      simp only [List.append_assoc, List.cons_append] at hrest
      obtain ⟨rfl, htail⟩ := terminated_inj hq hz₁ hrest
      exact ⟨0 :: z₂, by simp, by simp [htail]⟩
    · rw [untrackedMark_eq_cons] at hrest
      obtain ⟨rfl, htail⟩ := terminated_inj hq hz hrest
      exact ⟨[], by simp, by simp [untrackedMark_eq_cons, htail]⟩

theorem digestInput_eq_iff {s t : WorktreeState} :
    digestInput t = digestInput s ↔
      t.diff ++ (untrackedMark ++ untrackedBytes t.untracked) =
        s.diff ++ (untrackedMark ++ untrackedBytes s.untracked) := by
  simp [digestInput]

def WorktreeState.single (diff : Bytes) (p : RelativePath) (file : UntrackedFile) :
    WorktreeState :=
  ⟨diff, [(p, file)], by simp⟩

/-! ### An ambiguous state shares its bytes -/

section Ambiguous

variable {s : WorktreeState} (hunique : ∀ t, digestInput t = digestInput s → t = s)

include hunique

theorem diff_entry_of_unique (before : Bytes) (q : RelativePath) (after : Bytes)
    (hafter : after = [] ∨ ∃ rest, after = 0 :: rest) :
    s.diff ≠ before ++ (untrackedMark ++ (pathMark ++ (q.bytes ++ after))) := by
  intro hdiff
  obtain ⟨init, hinit⟩ := untrackedMark_append_ends s.untracked
  have hbody : ∃ body, after ++ (untrackedMark ++ untrackedBytes s.untracked) =
      0 :: (body ++ [0]) := by
    rcases hafter with rfl | ⟨rest, rfl⟩
    · exact ⟨init, hinit⟩
    · exact ⟨rest ++ 0 :: init, by simp [hinit]⟩
  obtain ⟨body, hbody⟩ := hbody
  have hs := hunique (.single before q (.regular body)) (digestInput_eq_iff.mpr (by
    simp [WorktreeState.single, hdiff, entryBytes, UntrackedFile.body, hbody]))
  have hlen := congrArg List.length ((congrArg WorktreeState.diff hs).trans hdiff)
  simp [WorktreeState.single, pathMark_eq] at hlen

theorem files_of_unique :
    s.untracked = [] ∨ ∃ p content, s.untracked = [(p, .regular content)] := by
  rcases hlist : s.untracked with _ | ⟨e, rest⟩
  · exact .inl rfl
  · obtain ⟨body, hbody⟩ := untrackedBytes_eq_entryBytes e rest
    have hs := hunique (.single s.diff e.1 (.regular body)) (digestInput_eq_iff.mpr (by
      simp only [hlist, hbody]
      simp [WorktreeState.single, UntrackedFile.body]))
    have huntracked := (congrArg WorktreeState.untracked hs).trans hlist
    exact .inr ⟨e.1, body, huntracked.symm⟩

theorem unambiguousFile_of_unique {p : RelativePath} {content : Bytes}
    (hlist : s.untracked = [(p, .regular content)]) :
    UnambiguousFile s.diff p content := by
  have hbytes : untrackedBytes s.untracked = pathMark ++ (p.bytes ++ 0 :: (content ++ [0])) := by
    simp [hlist, entryBytes, UntrackedFile.body]
  refine ⟨?_, ?_, ?_, ?_, ?_, ?_⟩
  · rintro target rfl
    have hs := hunique (.single s.diff p (.symlink target)) (digestInput_eq_iff.mpr (by
      simp [WorktreeState.single, hbytes, entryBytes, UntrackedFile.body]))
    simpa [WorktreeState.single, hlist] using congrArg WorktreeState.untracked hs
  · rintro before q after hqp rfl
    have hs := hunique ⟨s.diff, [(p, .regular before), (q, .regular after)],
      by simpa using Ne.symm hqp⟩ (digestInput_eq_iff.mpr (by
        simp [hbytes, entryBytes, UntrackedFile.body]))
    simpa [hlist] using congrArg WorktreeState.untracked hs
  · intro before hcontent
    have hs := hunique ⟨s.diff ++ (untrackedMark ++ (pathMark ++ (p.bytes ++ before))), [],
      by simp⟩ (digestInput_eq_iff.mpr (by
        rw [hbytes, ← List.cons_append, hcontent]
        simp [untrackedMark]))
    simpa [hlist] using congrArg WorktreeState.untracked hs
  · intro before q after hcontent
    have hs := hunique
      (.single (s.diff ++ (untrackedMark ++ (pathMark ++ (p.bytes ++ before)))) q
        (.regular after)) (digestInput_eq_iff.mpr (by
          rw [hbytes, ← List.cons_append, hcontent]
          simp [WorktreeState.single, entryBytes, UntrackedFile.body]))
    have hlen := congrArg List.length (congrArg WorktreeState.diff hs)
    simp [WorktreeState.single, pathMark_eq] at hlen
  · rintro hname q after rfl
    have hs := hunique (.single (s.diff ++ (untrackedMark ++ ascii "path")) q (.regular after))
      (digestInput_eq_iff.mpr (by
        rw [hbytes, hname]
        simp [WorktreeState.single, entryBytes, UntrackedFile.body, untrackedMark, pathMark]))
    have hlen := congrArg List.length (congrArg WorktreeState.diff hs)
    simp [WorktreeState.single, untrackedMark_eq] at hlen
  · intro before hdiff
    have hs := hunique (.single before ⟨ascii "untracked", by decide, by decide⟩
      (.regular (pathMark ++ (p.bytes ++ 0 :: content)))) (digestInput_eq_iff.mpr (by
        rw [hbytes, hdiff]
        simp [WorktreeState.single, entryBytes, UntrackedFile.body, untrackedMark, pathMark]))
    have hlen := congrArg List.length ((congrArg WorktreeState.diff hs).trans hdiff)
    simp [WorktreeState.single, untrackedMark_eq] at hlen

end Ambiguous

/-! ### An unambiguous state shares its bytes with no other state -/

section Unambiguous

variable {s t : WorktreeState} (hs : Unambiguous s)

include hs

theorem diff_eq_of_unambiguous
    (h : t.diff ++ (untrackedMark ++ untrackedBytes t.untracked) =
      s.diff ++ (untrackedMark ++ untrackedBytes s.untracked)) : t.diff = s.diff := by
  rcases List.append_eq_append_iff.mp h with ⟨x, hdiff, hrest⟩ | ⟨x, hdiff, hrest⟩
  · by_contra hne
    have hx : x ≠ [] := by
      rintro rfl
      exact hne (by simpa using hdiff.symm)
    obtain ⟨y, rfl, hy⟩ :=
      untrackedMark_occurrence hx (readsAsUntracked_untrackedBytes _) hrest.symm
    rcases readsAsUntracked_untrackedBytes t.untracked with ht | ⟨q, body, ht⟩
    · simp [ht, untrackedMark_eq_cons] at hy
    · rcases entryBytes_untrackedMark q.nul_free (hy.symm.trans ht) with
        ⟨rfl, -, hbody⟩ | ⟨after, rfl, hafter⟩
      · rcases hs.files with hnil | ⟨p, content, -, hfile⟩
        · simp [hnil] at hbody
        · exact hfile.diff_end _ hdiff
      · refine hs.diff_entry _ q after ?_ (by simpa using hdiff)
        cases after with
        | nil => exact .inl rfl
        | cons b rest => exact .inr ⟨rest, by rw [(List.cons.inj hafter).1]⟩
  · by_contra hne
    have hx : x ≠ [] := by
      rintro rfl
      exact hne (by simpa using hdiff)
    obtain ⟨y, rfl, hy⟩ :=
      untrackedMark_occurrence hx (readsAsUntracked_untrackedBytes _) hrest.symm
    rcases hs.files with hnil | ⟨p, content, hlist, hfile⟩
    · simp [hnil, untrackedMark_eq_cons] at hy
    · have hbytes : untrackedBytes s.untracked = entryBytes p.bytes content := by
        simp [hlist, UntrackedFile.body]
      rcases entryBytes_untrackedMark p.nul_free (hy.symm.trans hbytes) with
        ⟨-, hname, hcontent⟩ | ⟨after, -, hafter⟩
      · rcases readsAsUntracked_untrackedBytes t.untracked with ht | ⟨q, body, ht⟩
        · simp [ht] at hcontent
        · have hread : content ++ [0] = pathMark ++ (q.bytes ++ 0 :: body) ++ [0] := by
            rw [← hcontent, ht]
            simp [entryBytes]
          exact hfile.not_named_untracked hname q body (List.append_cancel_right hread)
      · rcases readsAsUntracked_untrackedBytes t.untracked with ht | ⟨q, body, ht⟩
        · have hread : 0 :: content ++ [0] = after ++ 0 :: ascii "untracked" ++ [0] := by
            rw [List.cons_append, ← hafter, ht]
            simp [untrackedMark]
          exact hfile.no_mark_end after (List.append_cancel_right hread)
        · have hread : 0 :: content ++ [0] =
              after ++ (untrackedMark ++ (pathMark ++ (q.bytes ++ 0 :: body))) ++ [0] := by
            rw [List.cons_append, ← hafter, ht]
            simp [entryBytes]
          exact hfile.no_mark_entry after q body (List.append_cancel_right hread)

theorem untracked_eq_of_unambiguous
    (h : untrackedBytes t.untracked = untrackedBytes s.untracked) :
    t.untracked = s.untracked := by
  rcases hs.files with hnil | ⟨p, content, hlist, hfile⟩
  · rcases ht : t.untracked with _ | ⟨e, rest⟩
    · exact hnil.symm
    · simp [ht, hnil, entryBytes] at h
  · rcases ht : t.untracked with _ | ⟨⟨q, file⟩, rest⟩
    · simp [ht, hlist, entryBytes] at h
    · rw [ht, hlist, untrackedBytes_cons, untrackedBytes_cons] at h
      simp only [entryBytes, untrackedBytes_nil, List.append_nil, List.append_assoc,
        List.append_cancel_left_eq, List.cons_append] at h
      obtain ⟨hname, htail⟩ := terminated_inj q.nul_free p.nul_free h
      obtain rfl : q = p := by
        cases q
        cases p
        simp_all
      rcases rest with _ | ⟨⟨q', file'⟩, rest⟩
      · have hbody : file.body = content := by
          simpa [UntrackedFile.body] using htail
        cases file with
        | regular c => simp [hlist, ← hbody, UntrackedFile.body]
        | symlink target => exact absurd hbody.symm (hfile.not_symlink target)
      · obtain ⟨body', hbody'⟩ := untrackedBytes_eq_entryBytes (q', file') rest
        have hqq' : q' ≠ q := by
          have hd := t.distinct
          rw [ht] at hd
          simp only [List.map_cons, List.nodup_cons, List.mem_cons, not_or] at hd
          exact fun heq => hd.1.1 heq.symm
        -- the content of `p` would hold the body of `q` and the entry of `q'`
        have hread : content ++ [0] =
            file.body ++ 0 :: (pathMark ++ (q'.bytes ++ 0 :: body')) ++ [0] := by
          calc content ++ [0] = file.body ++ ([0] ++ untrackedBytes ((q', file') :: rest)) :=
                htail.symm
            _ = _ := by rw [hbody']; simp [entryBytes]
        exact absurd (List.append_cancel_right hread) (hfile.no_entry file.body q' body' hqq')

end Unambiguous

end TaskStateService
