import ChatgptSystem.Core.Paths
import ChatgptSystem.Foundations.RelyGuarantee
import ChatgptSystem.Git.GitService

/-!
# Managed worktrees

`ManagedWorktreeService` of `git/managed-worktree-service.ts`: worktrees that the program creates,
each on a branch of its own, with a registry of one file for each. An operation changes the
worktrees, the branches and the registry in separate steps, each of which may fail.

* `ManagedWorktreeRecord` — an entry of the registry;
* `WorktreeOp` — the Git commands and the file operations;
* `ManagedWorktreeService.create`, `status`, `remove` — the operations of the service;
* `World` — the worktrees, the branches and the registry; `WorktreeOp.apply` — what each command
  and operation does to them, also when it fails.
-/

open Interleaving

/-! ## Records -/

structure ManagedWorktreeRecord where
  version : ℕ
  worktreeId : String
  repositoryRoot : String
  commonDir : String
  repositoryFingerprint : String
  path : AbsPath
  branch : List Char
  createdAt : String
  deriving DecidableEq

inductive WorktreeOperation where
  | create
  | status
  | remove
  deriving DecidableEq

structure ManagedWorktreeView where
  operation : WorktreeOperation
  worktreeId : String
  path : AbsPath
  repositoryRoot : String
  branch : List Char
  head : List Char
  dirty : Bool
  removed : Bool
  deriving DecidableEq

inductive RegistryText where
  | record (record : ManagedWorktreeRecord)
  /-- A text that is not a JSON value, or one of another shape. -/
  | malformed
  deriving DecidableEq

structure ManagedWorktreeService where
  managedRoot : AbsPath
  /-- `createHash("sha256").update(text).digest("hex")`. -/
  digest : String → String
  /-- The length of the JSON text of a record. -/
  byteLength : ManagedWorktreeRecord → ℕ

/-! ## Commands and file operations -/

inductive ReadCommand where
  | showToplevel
  | gitCommonDir
  | status (untracked : Bool)
  | showRef (branch : List Char)
  | revParseHead
  | branchShowCurrent
  deriving DecidableEq

def ReadCommand.args : ReadCommand → List String
  | .showToplevel => ["rev-parse", "--show-toplevel"]
  | .gitCommonDir => ["rev-parse", "--git-common-dir"]
  | .status untracked =>
    ["status", "--porcelain=v1", "--untracked-files=" ++ if untracked then "normal" else "no"]
  | .showRef branch => ["show-ref", "--verify", "--quiet", "refs/heads/" ++ String.ofList branch]
  | .revParseHead => ["rev-parse", "HEAD"]
  | .branchShowCurrent => ["branch", "--show-current"]

inductive WorktreeOp where
  /-- `policy.resolve`. -/
  | resolvePath (path : List Char)
  /-- `realpath` of a path that starts from a directory. -/
  | realpath (base : String) (path : List Char)
  | git (cwd : String) (command : ReadCommand)
  /-- `git worktree add -b branch destination HEAD`. -/
  | worktreeAdd (repositoryRoot : String) (branch : List Char) (destination : AbsPath)
  /-- `git worktree remove path`. -/
  | worktreeRemove (repositoryRoot : String) (path : AbsPath)
  /-- `git branch -D branch`. -/
  | branchDelete (repositoryRoot : String) (branch : List Char)
  | randomUUID
  | isoDate
  | mkdir
  /-- `open(temp, "wx")`. -/
  | openTemporary (temp : String)
  | writeTemporary (temp : String) (record : ManagedWorktreeRecord)
  | syncTemporary (temp : String)
  | closeTemporary (temp : String)
  | rename (temp worktreeId : String)
  | unlinkTemporary (temp : String)
  | readRecord (worktreeId : String)
  | unlinkRecord (worktreeId : String)
  | lstat (path : AbsPath)

/-- What a command or an operation that succeeds returns. -/
def WorktreeOp.Val : WorktreeOp → Type
  | .resolvePath _ | .realpath _ _ | .randomUUID | .isoDate => String
  | .git _ _ | .worktreeAdd _ _ _ | .worktreeRemove _ _ | .branchDelete _ _ => GitResult
  | .readRecord _ => RegistryText
  | .mkdir | .openTemporary _ | .writeTemporary _ _ | .syncTemporary _ | .closeTemporary _
  | .rename _ _ | .unlinkTemporary _ | .unlinkRecord _ | .lstat _ => Unit

/-- A command that is not run to its end is rejected, and so is an operation that fails. -/
abbrev WorktreeM (α : Type) : Type :=
  Program WorktreeOp (fun o => Except AppError o.Val) AppError α

def WorktreeOp.call (o : WorktreeOp) : WorktreeM o.Val := .request o Program.ofExcept

namespace ManagedWorktreeService

/-! ## Identifiers, records and errors -/

def REGISTRY_VERSION : ℕ := 1

/-- The places of a random UUID: a hexadecimal digit, one of `[89ab]`, or the character itself. -/
def uuidPlaces : List Char := "hhhhhhhh-hhhh-4hhh-vhhh-hhhhhhhhhhhh".toList

def isHexDigit (c : Char) : Bool :=
  ('0' ≤ c && c ≤ '9') || ('a' ≤ c && c ≤ 'f') || ('A' ≤ c && c ≤ 'F')

def fitsPlace (c place : Char) : Bool :=
  if place = 'h' then isHexDigit c
  else if place = 'v' then c = '8' || c = '9' || c = 'a' || c = 'b' || c = 'A' || c = 'B'
  else c = place

/-- `WORKTREE_ID`. -/
def isWorktreeId (text : String) : Bool :=
  text.toList.length = uuidPlaces.length &&
    (text.toList.zip uuidPlaces).all fun (c, place) => fitsPlace c place

/-- The types of the fields are given by the record. -/
def recordShape (record : ManagedWorktreeRecord) : Bool :=
  record.version = REGISTRY_VERSION && isWorktreeId record.worktreeId &&
    Text.matchesHex 64 64 false record.repositoryFingerprint.toList

def worktreeNotFound : AppError := .other "WORKTREE_NOT_FOUND" "The managed worktree was not found."

def worktreeDirty : AppError :=
  .other "WORKTREE_DIRTY" "The worktree has uncommitted or untracked changes."

def sourceDirty : AppError :=
  .other "WORKTREE_DIRTY"
    "A managed worktree can only be created from a source worktree without tracked changes."

variable (service : ManagedWorktreeService)

/-! ## Helpers -/

def fingerprint (commonDir : String) : String :=
  service.digest ("git-common-dir\x00" ++ commonDir)

/-- `path.join(managedRoot, repositoryFingerprint, worktreeId)`. -/
def destination (repositoryFingerprint worktreeId : String) : AbsPath :=
  Paths.resolve service.managedRoot
    (Paths.parse repositoryFingerprint ++ Paths.parse worktreeId)

def pathText (path : AbsPath) : String := String.ofList (Paths.text path)

/-- `registryPath`: the file is named after the identifier. -/
def registryPath (worktreeId : String) : Except AppError String :=
  if isWorktreeId worktreeId then .ok worktreeId else .error worktreeNotFound

def failed (result : GitResult) : Bool := result.exitCode ≠ 0 || (Text.trim result.stdout).isEmpty

structure Repository where
  repositoryRoot : String
  commonDir : String
  repositoryFingerprint : String

def repository (cwdInput : List Char) : WorktreeM Repository := do
  let cwd : String ← (WorktreeOp.resolvePath cwdInput).call
  let rootResult : GitResult ← (WorktreeOp.git cwd .showToplevel).call
  if failed rootResult then
    throw (.policy "Managed worktree operations require a Git repository.")
  else
    let repositoryRoot : String ← (WorktreeOp.resolvePath (Text.trim rootResult.stdout)).call
    let canonicalRoot : String ← (WorktreeOp.realpath repositoryRoot []).call
    let commonResult : GitResult ← (WorktreeOp.git repositoryRoot .gitCommonDir).call
    if failed commonResult then
      throw (.policy "Managed worktree operations could not determine the Git common directory.")
    else
      let commonDir : String ←
        (WorktreeOp.realpath repositoryRoot (Text.trim commonResult.stdout)).call
      return { repositoryRoot := canonicalRoot, commonDir
               repositoryFingerprint := service.fingerprint commonDir }

/-- `isDirty`, and `isDirtyTrackedOnly` if untracked files do not count. -/
def isDirty (worktreePath : String) (untracked : Bool) : WorktreeM Bool := do
  let status : GitResult ← (WorktreeOp.git worktreePath (.status untracked)).call
  if status.exitCode ≠ 0 then
    throw (.recoveryRequired "Managed worktree status could not be verified.")
  else return !status.stdout.isEmpty

/-- `/^[a-f0-9]{40,64}$/i`. -/
def isHead (text : List Char) : Bool := Text.matchesHex 40 64 true text

def head (worktreePath : String) : WorktreeM (List Char) := do
  let result : GitResult ← (WorktreeOp.git worktreePath .revParseHead).call
  if result.exitCode ≠ 0 || !isHead (Text.trim result.stdout) then
    throw (.recoveryRequired "Managed worktree HEAD could not be verified.")
  else return Text.trim result.stdout

def currentBranch (worktreePath : String) : WorktreeM (List Char) := do
  let result : GitResult ← (WorktreeOp.git worktreePath .branchShowCurrent).call
  if failed result then
    throw (.recoveryRequired "Managed worktree branch could not be verified.")
  else Program.ofExcept (GitService.validateBranchName (Text.trim result.stdout))

def isENOENT : AppError → Bool
  | .errno .ENOENT => true
  | _ => false

/-- `safeUnlink`: a file that is not there is no failure. -/
def safeUnlink (o : WorktreeOp) : WorktreeM Unit :=
  .request o fun
    | .ok _ => .pure ()
    | .error e => if isENOENT e then .pure () else .throw e

def writeRecord (record : ManagedWorktreeRecord) : WorktreeM Unit := do
  let _ : Unit ← WorktreeOp.mkdir.call
  let worktreeId ← Program.ofExcept (registryPath record.worktreeId)
  let temp : String ← WorktreeOp.randomUUID.call
  let _ : Unit ← (WorktreeOp.openTemporary temp).call
  Program.tryFinally
    (do
      let _ : Unit ← (WorktreeOp.writeTemporary temp record).call
      let _ : Unit ← (WorktreeOp.syncTemporary temp).call
      return ())
    (WorktreeOp.closeTemporary temp).call
  Program.tryCatch ((WorktreeOp.rename temp worktreeId).call : WorktreeM Unit) fun error => do
    safeUnlink (.unlinkTemporary temp)
    throw error

def loadRecord (worktreeId : String) : WorktreeM ManagedWorktreeRecord := do
  let name ← Program.ofExcept (registryPath worktreeId)
  let read ← Program.attempt ((WorktreeOp.readRecord name).call : WorktreeM RegistryText)
  match read with
  | .error e =>
    if isENOENT e then throw worktreeNotFound
    else throw (.recoveryRequired "Managed worktree registry entry is unreadable or malformed.")
  | .ok .malformed =>
    throw (.recoveryRequired "Managed worktree registry entry is unreadable or malformed.")
  | .ok (.record record) =>
    if service.byteLength record > 64 * 1024 then
      throw (.recoveryRequired "Managed worktree registry entry is oversized.")
    else if !recordShape record || record.worktreeId ≠ worktreeId then
      throw (.recoveryRequired "Managed worktree registry entry is invalid.")
    else return record

def validateOwnedPath (record : ManagedWorktreeRecord) : Except AppError Unit :=
  let expected := service.destination record.repositoryFingerprint record.worktreeId
  if record.path ≠ expected || !Paths.isInside service.managedRoot expected then
    .error (.recoveryRequired "Managed worktree registry path is outside the plugin-owned root.")
  else .ok ()

/-- `exists`. -/
def pathExists (path : AbsPath) : WorktreeM Bool :=
  .request (.lstat path) fun
    | .ok _ => .pure true
    | .error e => if isENOENT e then .pure false else .throw e

structure VerifiedWorktree where
  head : List Char
  dirty : Bool

def verifyRecord (record : ManagedWorktreeRecord) : WorktreeM VerifiedWorktree := do
  Program.ofExcept (service.validateOwnedPath record)
  let _ : String ← (WorktreeOp.resolvePath record.repositoryRoot.toList).call
  if !(← pathExists record.path) then
    throw (.recoveryRequired "Managed worktree path is missing.")
  else
    let cwd := pathText record.path
    let commonResult : GitResult ← (WorktreeOp.git cwd .gitCommonDir).call
    if failed commonResult then
      throw (.recoveryRequired "Managed worktree Git metadata is unavailable.")
    else
      let commonDir : String ← (WorktreeOp.realpath cwd (Text.trim commonResult.stdout)).call
      if commonDir ≠ record.commonDir ||
          service.fingerprint commonDir ≠ record.repositoryFingerprint then
        throw (.recoveryRequired
          "Managed worktree Git common directory no longer matches its registry.")
      else
        let branch ← currentBranch cwd
        if branch ≠ record.branch then
          throw (.recoveryRequired "Managed worktree branch no longer matches its registry.")
        else
          let head ← head cwd
          let dirty ← isDirty cwd true
          return { head, dirty }

/-! ## The operations -/

/-- What `create` does about a record that could not be written. -/
def rollback (repositoryRoot : String) (branch : List Char) (destination : AbsPath)
    (error : AppError) : WorktreeM Unit := do
  let rollback : GitResult ← (WorktreeOp.worktreeRemove repositoryRoot destination).call
  if rollback.exitCode ≠ 0 then
    throw (.recoveryRequired
      "Managed worktree registry write failed and worktree rollback did not complete.")
  else
    let _ : GitResult ← (WorktreeOp.branchDelete repositoryRoot branch).call
    throw error

/-- The part of `create` from the new identifier on. -/
def addWorktree (repository : Repository) (branch : List Char) : WorktreeM ManagedWorktreeView := do
  let worktreeId : String ← WorktreeOp.randomUUID.call
  let destination := service.destination repository.repositoryFingerprint worktreeId
  let _ : Unit ← WorktreeOp.mkdir.call
  let add : GitResult ←
    (WorktreeOp.worktreeAdd repository.repositoryRoot branch destination).call
  if add.exitCode ≠ 0 then
    throw (.conflict "Git could not create the managed worktree.")
  else
    let createdAt : String ← WorktreeOp.isoDate.call
    let record : ManagedWorktreeRecord :=
      { version := REGISTRY_VERSION
        worktreeId
        repositoryRoot := repository.repositoryRoot
        commonDir := repository.commonDir
        repositoryFingerprint := repository.repositoryFingerprint
        path := destination
        branch
        createdAt }
    (writeRecord record).tryCatch (rollback repository.repositoryRoot branch destination)
    let head ← head (pathText destination)
    return { operation := .create, worktreeId, path := destination
             repositoryRoot := repository.repositoryRoot, branch, head
             dirty := false, removed := false }

/-- The audit record of an operation is written as well as possible and is left out. -/
def create (cwdInput branchInput : List Char) : WorktreeM ManagedWorktreeView := do
  let branch ← Program.ofExcept (GitService.validateBranchName branchInput)
  let repository ← service.repository cwdInput
  if ← isDirty repository.repositoryRoot false then throw sourceDirty
  else
    let branchExists : GitResult ←
      (WorktreeOp.git repository.repositoryRoot (.showRef branch)).call
    if branchExists.exitCode = 0 then
      throw (.conflict "The requested worktree branch already exists.")
    else if branchExists.exitCode ≠ 1 then
      throw (.policy "Could not safely verify the requested worktree branch.")
    else service.addWorktree repository branch

def status (worktreeId : String) : WorktreeM ManagedWorktreeView := do
  let record ← service.loadRecord worktreeId
  let verified ← service.verifyRecord record
  return { operation := .status, worktreeId := record.worktreeId, path := record.path
           repositoryRoot := record.repositoryRoot, branch := record.branch
           head := verified.head, dirty := verified.dirty, removed := false }

/-- The part of `remove` that changes something. -/
def removeWorktree (record : ManagedWorktreeRecord) (verified : VerifiedWorktree) :
    WorktreeM ManagedWorktreeView := do
  let remove : GitResult ←
    (WorktreeOp.worktreeRemove record.repositoryRoot record.path).call
  if remove.exitCode ≠ 0 then
    throw (.recoveryRequired "Git refused to remove the clean managed worktree.")
  else
    let name ← Program.ofExcept (registryPath record.worktreeId)
    safeUnlink (.unlinkRecord name)
    return { operation := .remove, worktreeId := record.worktreeId, path := record.path
             repositoryRoot := record.repositoryRoot, branch := record.branch
             head := verified.head, dirty := false, removed := true }

def remove (worktreeId : String) : WorktreeM ManagedWorktreeView := do
  let record ← service.loadRecord worktreeId
  let verified ← service.verifyRecord record
  if verified.dirty then throw worktreeDirty
  else removeWorktree record verified

end ManagedWorktreeService

/-! ## The world -/

structure World where
  worktrees : AbsPath → Bool
  /-- The repository that a directory belongs to. -/
  repositoryOf : String → String
  branches : String → List Char → Bool
  registry : String → Option RegistryText

/-- The world, the temporary files of the registry and the random texts drawn so far. -/
structure WorktreeState where
  world : World
  temporaries : String → Option RegistryText
  drawn : List String

/-- What a Git command that does not end well has done all the same. -/
structure PartialEffect where
  branch : Bool
  worktree : Bool
  deriving DecidableEq

inductive WorktreeChoice where
  | answers (text : String)
  | completes
  | ends (result : GitResult) (effect : PartialEffect)
  | rejects (error : AppError) (effect : PartialEffect)

namespace World

variable (world : World)

def add (repositoryRoot : String) (branch : List Char) (path : AbsPath) (effect : PartialEffect) :
    World :=
  { world with
    branches := if effect.branch then
        Function.update world.branches (world.repositoryOf repositoryRoot)
          (Function.update (world.branches (world.repositoryOf repositoryRoot)) branch true)
      else world.branches
    worktrees := if effect.worktree then Function.update world.worktrees path true
      else world.worktrees }

def dropWorktree (path : AbsPath) : World :=
  { world with worktrees := Function.update world.worktrees path false }

def dropBranch (repositoryRoot : String) (branch : List Char) : World :=
  { world with
    branches := Function.update world.branches (world.repositoryOf repositoryRoot)
      (Function.update (world.branches (world.repositoryOf repositoryRoot)) branch false) }

def setRecord (worktreeId : String) (text : Option RegistryText) : World :=
  { world with registry := Function.update world.registry worktreeId text }

end World

def orFails {α : Type} (choice : WorktreeChoice) (s : WorktreeState)
    (completed : Option (Except AppError α × WorktreeState)) :
    Option (Except AppError α × WorktreeState) :=
  match choice with
  | .completes => completed
  | .rejects (.errno code) _ => if code = .ENOENT then none else some (.error (.errno code), s)
  | _ => none

/-- What a command or an operation does, if it can be resolved so. -/
def WorktreeOp.apply (choice : WorktreeChoice) :
    (o : WorktreeOp) → WorktreeState → Option (Except AppError o.Val × WorktreeState)
  | .resolvePath _, s | .realpath _ _, s =>
    match choice with
    | .answers text => some (.ok text, s)
    | .rejects error _ => some (.error error, s)
    | _ => none
  | .isoDate, s =>
    match choice with
    | .answers text => some (.ok text, s)
    | _ => none
  | .randomUUID, s =>
    match choice with
    | .answers text =>
      -- a random UUID has the form of one, and has not been drawn before
      if text ∈ s.drawn ∨ ManagedWorktreeService.isWorktreeId text = false then none
      else some (.ok text, { s with drawn := text :: s.drawn })
    | _ => none
  | .git _ _, s =>
    match choice with
    | .ends result _ => some (.ok result, s)
    | .rejects error _ => some (.error error, s)
    | _ => none
  | .worktreeAdd repositoryRoot branch path, s =>
    match choice with
    | .ends result effect =>
      if result.exitCode = 0 then
        if s.world.branches (s.world.repositoryOf repositoryRoot) branch ||
            s.world.worktrees path then none
        else
          some (.ok result, { s with world := s.world.add repositoryRoot branch path ⟨true, true⟩ })
      else some (.ok result, { s with world := s.world.add repositoryRoot branch path effect })
    | .rejects error effect =>
      some (.error error, { s with world := s.world.add repositoryRoot branch path effect })
    | _ => none
  | .worktreeRemove _ path, s =>
    match choice with
    | .ends result effect =>
      if result.exitCode = 0 then
        if s.world.worktrees path then
          some (.ok result, { s with world := s.world.dropWorktree path })
        else none
      else some (.ok result,
        if effect.worktree then { s with world := s.world.dropWorktree path } else s)
    | .rejects error effect =>
      some (.error error,
        if effect.worktree then { s with world := s.world.dropWorktree path } else s)
    | _ => none
  | .branchDelete repositoryRoot branch, s =>
    match choice with
    | .ends result effect =>
      some (.ok result, if result.exitCode = 0 ∨ effect.branch then
        { s with world := s.world.dropBranch repositoryRoot branch } else s)
    | .rejects error effect =>
      some (.error error, if effect.branch then
        { s with world := s.world.dropBranch repositoryRoot branch } else s)
    | _ => none
  | .mkdir, s => orFails choice s (some (.ok (), s))
  | .openTemporary temp, s =>
    orFails choice s (some (.ok (),
      { s with temporaries := Function.update s.temporaries temp (some .malformed) }))
  | .writeTemporary temp record, s =>
    orFails choice s (some (.ok (),
      { s with temporaries := Function.update s.temporaries temp (some (.record record)) }))
  | .syncTemporary _, s | .closeTemporary _, s => orFails choice s (some (.ok (), s))
  | .rename temp worktreeId, s =>
    orFails choice s (match s.temporaries temp with
      | none => some (.error (.errno .ENOENT), s)
      | some text => some (.ok (), { s with
          temporaries := Function.update s.temporaries temp none
          world := s.world.setRecord worktreeId (some text) }))
  | .unlinkTemporary temp, s =>
    orFails choice s (match s.temporaries temp with
      | none => some (.error (.errno .ENOENT), s)
      | some _ =>
        some (.ok (), { s with temporaries := Function.update s.temporaries temp none }))
  | .readRecord worktreeId, s =>
    orFails choice s (match s.world.registry worktreeId with
      | none => some (.error (.errno .ENOENT), s)
      | some text => some (.ok text, s))
  | .unlinkRecord worktreeId, s =>
    orFails choice s (match s.world.registry worktreeId with
      | none => some (.error (.errno .ENOENT), s)
      | some _ => some (.ok (), { s with world := s.world.setRecord worktreeId none }))
  | .lstat path, s =>
    orFails choice s
      (if s.world.worktrees path then some (.ok (), s) else some (.error (.errno .ENOENT), s))
