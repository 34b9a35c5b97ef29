import ChatgptSystem.Core.Paths
import ChatgptSystem.Git.GitOutput
import ChatgptSystem.Project.ProjectCheckRun

/-!
# The publish gate

`ProjectPublishGate.push` looks at the branch, at the report of the project checks and at the
branch again, and then has the verified commit pushed.

* `cleanBranch` — the branch of a clean working tree, from the output of `git status`;
* `GateOp`, `GateM` — the operations of the gate: Git commands and those of the check report;
* `push` — the program of the gate.
-/

open Interleaving

namespace ProjectPublishGate

def allowedUntrackedOwnershipMetadata : List Char := "?? .freebuff/project-id".toList

def summaryBranch (summary : List Char) : List Char :=
  if "No commits yet on ".toList.isPrefixOf summary then
    summary.drop "No commits yet on ".toList.length
  else if "Initial commit on ".toList.isPrefixOf summary then
    summary.drop "Initial commit on ".toList.length
  else ((Text.splitFirst "...".toList summary).map Prod.fst).getD summary

def cleanBranch (result : GitResult) : Except AppError (List Char) :=
  if result.exitCode ≠ 0 then
    .error (.policy "Git status failed before project publication.")
  else
    let lines := (Text.splitLines result.stdout).filter (!·.isEmpty)
    let changes := lines.tail.filter (· ≠ allowedUntrackedOwnershipMetadata)
    let header := lines.headD []
    if !"## ".toList.isPrefixOf header then
      .error (.policy "Git status did not report a named current branch.")
    else if !changes.isEmpty then
      .error (.worktreeNotClean "The project worktree must be clean before publication.")
    else
      let branch := summaryBranch (header.drop 3)
      if branch.isEmpty || "HEAD ".toList.isPrefixOf branch || branch = "HEAD".toList then
        .error (.policy "Git push requires a named current branch.")
      else GitService.validateBranchName (Text.trim branch)

/-! ## The gate -/

inductive GateOp where
  | git (command : GitCommand)
  | check (o : ProjectCheckService.CheckOp)

def GateOp.Res : GateOp → Type
  | .git _ => Except AppError GitResult
  | .check o => o.Res

abbrev GateM (α : Type) : Type := Program GateOp GateOp.Res AppError α

/-- The resumed project; its canonical worktree is all that the gate reads. -/
structure ContinuityResumeContext where
  canonicalWorktree : String

structure Input where
  cwd : String
  resumeContext : Option ContinuityResumeContext

/-- `path.resolve(input)` in a process with a working directory. -/
def resolvePath (processCwd : AbsPath) (input : String) : AbsPath :=
  Paths.resolve (if Paths.isAbsolute input then [] else processCwd) (Paths.parse input)

def push (processCwd : AbsPath) (adminGit : GitService) (input : Input) : GateM GitResult := do
  match input.resumeContext with
  | none =>
    throw (.projectResumeRequired
      "An active project_resume context is required for publication.")
  | some resumeContext =>
    let first ← GitService.status.embed .git fun _ r => r
    let branch ← Program.ofExcept (cleanBranch first)
    if branch = "main".toList then
      throw (.mainPushDenied "Typed project publication may not push the main branch.")
    else
      let verification ← (ProjectCheckService.report input.cwd).embed .check fun _ r => r
      if resolvePath processCwd verification.repositoryRoot ≠
          resolvePath processCwd resumeContext.canonicalWorktree then
        throw (.projectResumeRequired
          "The active verification worktree does not match the resumed project worktree.")
      else if verification.overallStatus = .STALE then
        throw (.localVerificationStale
          "Local project verification is stale for the state being published.")
      else if verification.overallStatus ≠ .PASS then
        throw (.localVerificationRequired
          ("Fresh passing local project verification is required before publication. " ++
            "Current status: " ++ verification.overallStatus.text ++ "."))
      else
        let second ← GitService.status.embed .git fun _ r => r
        let currentBranch ← Program.ofExcept (cleanBranch second)
        if currentBranch ≠ branch then
          throw (.localVerificationStale
            "Local project verification is stale for the state being published.")
        else
          (adminGit.push (some ⟨branch, verification.observedHead⟩)).embed .git fun _ r => r

end ProjectPublishGate
