import ChatgptSystem.Core.Errors
import ChatgptSystem.Core.Text
import ChatgptSystem.Foundations.Program

/-!
# Pushing with Git

`GitService.push` and the Git commands it runs.

* `GitCommand` — the commands; `GitM` — programs that run them;
* `validateBranchName` — the branch names the services accept;
* `GitService.push` — a push of the current branch, or of the commit that has been verified.
-/

open Interleaving

structure GitResult where
  exitCode : ℤ
  stdout : List Char
  deriving DecidableEq

inductive GitCommand where
  | status
  | branchShowCurrent
  | revParseHead
  | remoteGetUrl
  | push (source branch : List Char)
  deriving DecidableEq

def GitCommand.args : GitCommand → List String
  | .status => ["status", "--porcelain=v1", "--branch", "--untracked-files=all"]
  | .branchShowCurrent => ["branch", "--show-current"]
  | .revParseHead => ["rev-parse", "HEAD"]
  | .remoteGetUrl => ["remote", "get-url", "--push", "origin"]
  | .push source branch =>
    ["push", "--porcelain", "origin",
      String.ofList (source ++ ":refs/heads/".toList ++ branch)]

/-- A command is refused by the path policy or for the configuration of the repository, cannot
be run to its end, or ends with a result. -/
abbrev GitM (α : Type) : Type :=
  Program GitCommand (fun _ => Except AppError GitResult) AppError α

namespace GitService

def run (command : GitCommand) : GitM GitResult := .request command Program.ofExcept

def status : GitM GitResult := run .status

/-! ## Branch names -/

def isAlphanumeric (c : Char) : Bool :=
  ('A' ≤ c && c ≤ 'Z') || ('a' ≤ c && c ≤ 'z') || ('0' ≤ c && c ≤ '9')

/-- `SAFE_BRANCH_COMPONENT`: `/^[A-Za-z0-9][A-Za-z0-9._-]*$/`. -/
def isSafeBranchComponent : List Char → Bool
  | [] => false
  | c :: rest =>
    isAlphanumeric c && rest.all fun c => isAlphanumeric c || c = '.' || c = '_' || c = '-'

/-- `branch.split("/")`. -/
def components : List Char → List (List Char)
  | [] => [[]]
  | c :: rest =>
    if c = '/' then [] :: components rest
    else match components rest with
      | [] => [[c]]
      | component :: more => (c :: component) :: more

def validateBranchName (branch : List Char) : Except AppError (List Char) :=
  if Text.length branch < 1 || Text.length branch > 200 || branch ≠ Text.trim branch ||
      branch = "HEAD".toList then
    .error (.policy "Git branch name is not allowed.")
  else if (components branch).any fun component =>
      !isSafeBranchComponent component || Text.includes component "..".toList ||
        ".".toList.isSuffixOf component || ".lock".toList.isSuffixOf component then
    .error (.policy "Git branch name is not allowed.")
  else .ok branch

end GitService

/-! ## The push -/

structure GitService where
  remoteWriteEnabled : Bool
  remoteUrlPolicy : List Char → Bool

structure VerifiedGitPush where
  branch : List Char
  head : String

namespace GitService

/-- `[^/\s]+`. -/
def isRemoteName (name : List Char) : Bool :=
  !name.isEmpty && name.all fun c => c ≠ '/' && !Text.isWhiteSpace c

/-- `isAllowedGitHubOrigin`, the default policy: one of three prefixes and two names. -/
def isAllowedGitHubOrigin (url : List Char) : Bool :=
  ["https://github.com/", "git@github.com:", "ssh://git@github.com/"].any fun start =>
    start.toList.isPrefixOf url &&
      match components (url.drop start.toList.length) with
      | [owner, repository] => isRemoteName owner && isRemoteName repository
      | _ => false

variable (service : GitService)

/-- `GIT_OBJECT_ID`: `/^[a-f0-9]{40,64}$/i`. -/
def isObjectId (text : String) : Bool := Text.matchesHex 40 64 true text.toList

/-- The commit to push: the branch itself, or the verified commit if it is still checked out. -/
def pushSource (branch : List Char) : Option VerifiedGitPush → GitM (List Char)
  | none => pure branch
  | some expected => do
    let expectedBranch ← Program.ofExcept (validateBranchName expected.branch)
    if !isObjectId expected.head || branch ≠ expectedBranch then
      throw (.localVerificationStale
        "Local project verification is stale for the state being published.")
    else
      let headResult ← run .revParseHead
      if headResult.exitCode ≠ 0 || Text.trim headResult.stdout ≠ expected.head.toList then
        throw (.localVerificationStale
          "Local project verification is stale for the state being published.")
      else pure expected.head.toList

def push (expected : Option VerifiedGitPush) : GitM GitResult := do
  if !service.remoteWriteEnabled then
    throw (.policy "Git push requires an Admin authority lease.")
  else
    let branchResult ← run .branchShowCurrent
    if branchResult.exitCode ≠ 0 || (Text.trim branchResult.stdout).isEmpty then
      throw (.policy "Git push requires a named current branch.")
    else
      let branch ← Program.ofExcept (validateBranchName (Text.trim branchResult.stdout))
      let source ← pushSource branch expected
      let remoteResult ← run .remoteGetUrl
      let remoteUrl := Text.trim remoteResult.stdout
      if remoteResult.exitCode ≠ 0 || !service.remoteUrlPolicy remoteUrl then
        throw (.policy "Git push is restricted to a credential-free GitHub origin URL.")
      else run (.push source branch)

end GitService
