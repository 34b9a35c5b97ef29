import ChatgptSystem.Git.GitService

/-!
# What Git prints

The installed Git is not part of the services. It enters as a parameter `Git W`: in each state
`w : W` of the world the repository has a current branch, a commit, status entries and a working
tree, and each command has a result.

* `LegalBranch`, `IsTracking`, `Header` — the branch names Git allows, and the header line of
  `git status --porcelain --branch`;
* `Git.Documented` — what the services rely on;
* `Git.Clean` — a state whose only status entry, if any, is the ownership metadata.
-/

/-- Git and the repository it is run in, in each state of the world. -/
structure Git (W : Type) where
  /-- The name of the current branch; none if `HEAD` is detached. -/
  branch : W → Option (List Char)
  /-- The commit that `HEAD` resolves to; none before the first commit. -/
  head : W → Option String
  /-- The entries `git status` lists, a line each. -/
  entries : W → List (List Char)
  /-- The digest of the difference to `HEAD` and of the untracked files. -/
  workingTreeDigest : W → String
  run : GitCommand → W → Except AppError GitResult

/-- What `git check-ref-format` documents of the name of a branch, as far as it matters here. -/
structure LegalBranch (name : List Char) : Prop where
  ne_nil : name ≠ []
  no_space : ' ' ∉ name
  no_line : '\r' ∉ name ∧ '\n' ∉ name
  no_dots : ¬ "..".toList <:+: name
  no_last_dot : ∀ front, name ≠ front ++ ['.']

/-- What follows the branch in the header: nothing, or the upstream branch after three dots. -/
def IsTracking (tracking : List Char) : Prop :=
  tracking = [] ∨ ∃ upstream, tracking = "...".toList ++ upstream ∧
    '\r' ∉ upstream ∧ '\n' ∉ upstream

namespace Git

variable {W : Type} (git : Git W)

/-- The header of the status in a state, without the leading `## `. -/
inductive Header (w : W) : List Char → Prop where
  | detached (hbranch : git.branch w = none) : Header w "HEAD (no branch)".toList
  | born {name tracking : List Char} (hbranch : git.branch w = some name)
      (hhead : git.head w ≠ none) (htracking : IsTracking tracking) :
      Header w (name ++ tracking)
  | unborn {label : String} {name tracking : List Char} (hbranch : git.branch w = some name)
      (hhead : git.head w = none)
      (hlabel : label = "No commits yet on " ∨ label = "Initial commit on ")
      (htracking : IsTracking tracking) : Header w (label.toList ++ (name ++ tracking))

/-- What Git documents of branches, commits and the output of its commands. -/
structure Documented : Prop where
  legal : ∀ {w name}, git.branch w = some name → LegalBranch name
  objectId : ∀ {w id}, git.head w = some id → GitService.isObjectId id
  /-- Special characters of a path are quoted. -/
  entry_line : ∀ {w entry}, entry ∈ git.entries w → entry ≠ [] ∧ '\r' ∉ entry ∧ '\n' ∉ entry
  status : ∀ {w result}, git.run .status w = .ok result → result.exitCode = 0 →
    ∃ header, git.Header w header ∧
      result.stdout = (("## ".toList ++ header) :: git.entries w).flatMap (· ++ ['\n'])
  branchShowCurrent : ∀ {w result}, git.run .branchShowCurrent w = .ok result →
    result.exitCode = 0 → result.stdout = ((git.branch w).map (· ++ ['\n'])).getD []
  revParseHead : ∀ {w result}, git.run .revParseHead w = .ok result → result.exitCode = 0 →
    ∃ id, git.head w = some id ∧ result.stdout = id.toList ++ ['\n']

/-- No branch name begins or ends with a white-space character. Git itself allows those beyond
ASCII. -/
def PlainNames : Prop :=
  ∀ {w name}, git.branch w = some name → Text.trim name = name

end Git
