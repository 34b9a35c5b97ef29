import ChatgptSystem.Continuity.ContinuityStore
import ChatgptSystem.Core.Paths
import Mathlib.Data.List.Sort

/-!
# The project continuity service

`ProjectContinuityService.rebind`, `checkpoint` and `resume` as programs of the operations they
await: the transactions of the store, and questions to the file system, Git and the lease
manager, which the environment answers as it likes.

* `Query` — the questions; `ServiceOp` — questions and operations of the store;
* `verifyIdentity` — the comparison of an inspected worktree with the stored one;
* `rebindProject`, `checkpointProject`, `resumeProject` — the methods.
-/

open Interleaving

namespace Continuity

/-- An inspection of the worktree at `identity.canonicalPath`. -/
structure ContinuityInspection where
  identity : StoredWorktreeIdentity
  localState : ContinuityLocalState
  published : ContinuityPublishedState

structure AuthorityLease where
  leaseId : String
  roots : List String
  expiresAt : String

structure ContinuityResumeContext where
  projectId : String
  aliasName : String
  recordVersion : ℕ
  canonicalWorktree : String
  repositoryRoot : String
  repositoryIdentity : String
  expiresAt : String

structure ResumePackage where
  text : String
  truncated : Bool
  contextAvailable : Bool

inductive Query where
  | canonicalizeProjectRoots (roots : List String)
  /-- `realpath(path.resolve(worktreePath))`. -/
  | realpath (worktreePath : String)
  /-- `inspector.inspect(worktreePath, previous, { remote: "skip" })`. -/
  | inspect (worktreePath : String) (previous : ContinuityPublishedState)
  /-- Whether the Git directory can be read and is not younger than the registration. -/
  | gitDirectory (gitDir registeredAt : String)
  /-- The lease, if it is one of the profile `project`. -/
  | resolveLease (leaseId : String)
  | startLease (roots : List String) (requestedTtlSeconds : Option ℕ)
  | endLease (leaseId : String)
  | flushAudit
  | packageBuilder (project : StoredProject) (inspection : ContinuityInspection)
  | registerResume (leaseId : String) (context : ContinuityResumeContext)
  | onActive (aliasName : String)

def Query.Res : Query → Type
  | .canonicalizeProjectRoots _ => Except AppError (List String)
  | .realpath _ => Except Errno String
  | .inspect _ _ => Except AppError ContinuityInspection
  | .gitDirectory _ _ => Except AppError Unit
  | .resolveLease _ => Except AppError (List String)
  | .startLease _ _ => Except AppError AuthorityLease
  | .endLease _ => Except AppError Unit
  | .flushAudit => Unit
  | .packageBuilder _ _ => Except AppError ResumePackage
  | .registerResume _ _ => Except AppError Unit
  | .onActive _ => Except AppError Unit

inductive ServiceOp where
  | store (o : StoreOp)
  | ask (query : Query)

def ServiceOp.Res : ServiceOp → Type
  | .store o => o.Res
  | .ask query => query.Res

abbrev ServiceM (α : Type) : Type := Program ServiceOp ServiceOp.Res AppError α

/-- How an operation is resolved: by the store, or by whatever the environment answers. -/
inductive ServiceChoice where
  | store (choice : StoreChoice)
  | answers (oracle : (query : Query) → query.Res)

section Steps

variable {ι : Type} [DecidableEq ι]

/-- One operation of a call. Only the store's operations act on the database. -/
def ServiceOp.apply (choice : ServiceChoice) (call : ι) :
    (o : ServiceOp) → Database ι → Option (o.Res × Database ι)
  | .store o, database =>
    match choice with
    | .store choice => o.apply choice call database
    | _ => none
  | .ask query, database =>
    match choice with
    | .answers oracle => some (oracle query, database)
    | _ => none

def serviceExec (call : ι) : Exec ServiceOp ServiceOp.Res (Database ι) :=
  fun o s r s' => ∃ choice, o.apply choice call s = some (r, s')

theorem serviceExec_store {call : ι} {o : StoreOp} {database later : Database ι}
    {r : (ServiceOp.store o).Res} (h : serviceExec call (.store o) database r later) :
    storeExec call o database r later := by
  obtain ⟨choice, h⟩ := h
  cases choice with
  | store choice => exact ⟨choice, h⟩
  | answers oracle => cases h

theorem serviceExec_ask {call : ι} {query : Query} {database later : Database ι}
    {r : (ServiceOp.ask query).Res} (h : serviceExec call (.ask query) database r later) :
    later = database := by
  obtain ⟨choice, h⟩ := h
  cases choice with
  | store choice => cases h
  | answers oracle => exact (Prod.mk.inj (Option.some.inj h)).2.symm

end Steps

/-! ## Helpers of the methods -/

def ofStore {α : Type} (p : StoreM α) : ServiceM α := p.embed .store fun _ r => r

def pathIsInside (root candidate : String) : Bool :=
  Paths.isInside (Paths.resolve [] (Paths.parse root)) (Paths.resolve [] (Paths.parse candidate))

def sameCanonicalRootSet (left right : List String) : Bool :=
  left.length = right.length &&
    left.insertionSort (fun a b => Text.sortsBefore a.toList b.toList) =
      right.insertionSort fun a b => Text.sortsBefore a.toList b.toList

def REBIND_GUIDANCE : String :=
  "If the project was moved or re-cloned, call project_rebind with the alias, the current worktreePath (and projectRoots if the parent folder changed), then project_resume."

def worktreeInvalid (message : String) : AppError :=
  .other "CONTINUITY_WORKTREE_INVALID" message

def mismatch (registeredPath reason : String) : AppError :=
  .other "CONTINUITY_WORKTREE_MISMATCH"
    ("The registered worktree " ++ registeredPath ++ " " ++ reason ++ ". " ++ REBIND_GUIDANCE)

def verifyIdentity (worktreePath : String) (expected : StoredWorktreeIdentity)
    (previous : ContinuityPublishedState) (registeredAt : String) :
    ServiceM ContinuityInspection :=
  .request (.ask (.realpath worktreePath)) fun
    | .error _ => throw (worktreeInvalid ("The registered worktree " ++ expected.canonicalPath ++
        " no longer exists. " ++ REBIND_GUIDANCE))
    | .ok _ => .request (.ask (.inspect worktreePath previous)) fun
      | .error error => throw error
      | .ok current =>
        if current.identity.canonicalPath ≠ expected.canonicalPath then
          throw (mismatch expected.canonicalPath "now resolves to a different path")
        else if current.identity.repositoryIdentity ≠ expected.repositoryIdentity ∨
            current.identity.worktreeIdentity ≠ expected.worktreeIdentity then
          throw (mismatch expected.canonicalPath
            "has different Git metadata than when it was registered (re-cloned or re-initialized)")
        else .request (.ask (.gitDirectory current.identity.gitDir registeredAt)) fun
          | .error error => throw error
          | .ok () => pure current

def orThrow {α : Type} (answer : Except AppError α) : ServiceM α := .ofExcept answer

def canonicalizeProjectRoots (roots : List String) : ServiceM (List String) :=
  .request (.ask (.canonicalizeProjectRoots roots)) fun answer => orThrow answer

def recordActiveAlias (aliasName : String) : ServiceM Unit :=
  .request (.ask (.onActive aliasName)) fun _ => pure ()

def requireRegisteredProjectLease (leaseId : String) (storedRoots : List String) :
    ServiceM Unit :=
  .request (.ask (.resolveLease leaseId)) fun
    | .error error => throw error
    | .ok roots =>
      if sameCanonicalRootSet roots storedRoots then pure ()
      else throw (.authorityDenied
        "Project continuity requires a Project lease for the exact registered roots.")

/-! ## The methods -/

structure ProjectRebindInput where
  aliasName : String
  worktreePath : String
  expectedRecordVersion : ℕ
  projectRoots : Option (List String)

structure ProjectCheckpointInput where
  authorityLeaseId : String
  aliasName : String
  expectedRecordVersion : ℕ
  semantic : ContinuitySemanticInput

structure ProjectResumeInput where
  aliasName : String
  requestedTtlSeconds : Option ℕ

structure ProjectContinuityResult where
  projectId : String
  aliasName : String
  recordVersion : ℕ
  worktree : StoredWorktreeIdentity
  localState : ContinuityLocalState
  publishedState : ContinuityPublishedState
  currentRecord : ContinuitySemanticRecord

structure ProjectResumeResult where
  projectId : String
  aliasName : String
  recordVersion : ℕ
  authorityLease : AuthorityLease
  resumePackage : ResumePackage

def continuityResult (project : StoredProject) : ProjectContinuityResult :=
  { projectId := project.id
    aliasName := project.aliasName
    recordVersion := project.currentRecord.recordVersion
    worktree := project.worktree
    localState := project.localState
    publishedState := project.publishedState
    currentRecord := project.currentRecord }

section Methods

variable (unicode : CharacterDatabase)

def rebindProject (input : ProjectRebindInput) : ServiceM ProjectContinuityResult := do
  let stored ← ofStore (getByAlias unicode input.aliasName)
  let roots ← canonicalizeProjectRoots (input.projectRoots.getD stored.roots)
  .request (.ask (.realpath input.worktreePath)) fun
    | .error _ => throw (worktreeInvalid "The project worktree path could not be resolved.")
    | .ok canonicalWorktree =>
      if !roots.any fun root => pathIsInside root canonicalWorktree then
        throw (.authorityDenied
          "The project worktree must be inside one of the Project roots; pass projectRoots for its new parent folder.")
      else .request (.ask (.inspect canonicalWorktree stored.publishedState)) fun
        | .error error => throw error
        | .ok inspection => do
          ofStore (rebind
            { projectId := stored.id
              expectedRecordVersion := input.expectedRecordVersion
              roots
              worktree := inspection.identity
              localState := inspection.localState
              publishedState := inspection.published
              inspectedPath := inspection.identity.canonicalPath })
          recordActiveAlias stored.aliasName
          let project ← ofStore (getByAlias unicode stored.aliasName)
          pure (continuityResult project)

def checkpointProject (input : ProjectCheckpointInput) : ServiceM ProjectContinuityResult := do
  let stored ← ofStore (getByAlias unicode input.aliasName)
  requireRegisteredProjectLease input.authorityLeaseId stored.roots
  let inspection ← verifyIdentity stored.worktree.canonicalPath stored.worktree
    stored.publishedState stored.createdAt
  let _ ← ofStore (checkpoint
    { projectId := stored.id
      expectedRecordVersion := input.expectedRecordVersion
      semantic := input.semantic
      localState := inspection.localState
      publishedState := inspection.published
      inspectedPath := inspection.identity.canonicalPath })
  recordActiveAlias stored.aliasName
  let project ← ofStore (getByAlias unicode stored.aliasName)
  pure (continuityResult project)

/-- `resume` once the lease has been started; an error ends the lease. -/
def resumeWithLease (project : StoredProject) (inspection : ContinuityInspection)
    (lease : AuthorityLease) : ServiceM ProjectResumeResult :=
  (.request (.ask (.packageBuilder project inspection)) fun
    | .error error => throw error
    | .ok packaged => do
      ofStore (updateOperationalState project.id inspection.localState inspection.published
        inspection.identity.canonicalPath)
      let context : ContinuityResumeContext :=
        { projectId := project.id
          aliasName := project.aliasName
          recordVersion := project.currentRecord.recordVersion
          canonicalWorktree := project.worktree.canonicalPath
          repositoryRoot := project.worktree.repositoryRoot
          repositoryIdentity := project.worktree.repositoryIdentity
          expiresAt := lease.expiresAt }
      .request (.ask (.registerResume lease.leaseId context)) fun
        | .error error => throw error
        | .ok () => do
          recordActiveAlias project.aliasName
          pure
            { projectId := project.id
              aliasName := project.aliasName
              recordVersion := project.currentRecord.recordVersion
              authorityLease := lease
              resumePackage := packaged } : ServiceM ProjectResumeResult).tryCatch fun error =>
    .request (.ask (.endLease lease.leaseId)) fun ended =>
      .request (.ask .flushAudit) fun () =>
        match ended with
        | .ok () => throw error
        | .error rollbackError =>
          if rollbackError.code = "AUTHORITY_REQUIRED" then throw error
          else throw (.other "AggregateError"
            "Project resume failed and fresh authority rollback also failed.")

def resumeProject (input : ProjectResumeInput) : ServiceM ProjectResumeResult := do
  let project ← ofStore (getByAlias unicode input.aliasName)
  let revalidatedRoots ← canonicalizeProjectRoots project.roots
  if !sameCanonicalRootSet revalidatedRoots project.roots then
    throw (.authorityDenied "Stored Project roots no longer resolve to the registered root set.")
  else
    let inspection ← verifyIdentity project.worktree.canonicalPath project.worktree
      project.publishedState project.createdAt
    .request (.ask (.startLease revalidatedRoots input.requestedTtlSeconds)) fun
      | .error error => throw error
      | .ok lease => resumeWithLease project inspection lease

end Methods

end Continuity
