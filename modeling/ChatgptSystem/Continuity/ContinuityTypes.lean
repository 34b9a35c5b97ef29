import ChatgptSystem.Core.Errors
import ChatgptSystem.Core.Text
import ChatgptSystem.Core.Unicode

/-!
# Project continuity: the records

The records of `continuity-types.ts` and the schemas that check them. A schema is the predicate
of the values it accepts; the one for aliases also trims.

* `ContinuitySemanticInput`, `StoredWorktreeIdentity`, `ContinuityLocalState`,
  `ContinuityPublishedState` — what a project is stored with;
* `continuityAliasSchema`, `continuityAliasKey` — the alias and the key it is looked up by.
-/

namespace Continuity

def CONTINUITY_MAX_ALIAS_CHARS : ℕ := 128
def CONTINUITY_MAX_PATH_CHARS : ℕ := 16384
def CONTINUITY_MAX_PROJECT_ROOTS : ℕ := 16
def CONTINUITY_MAX_TRACKED_PATHS : ℕ := 100
def CONTINUITY_MAX_GOAL_CHARS : ℕ := 8000
def CONTINUITY_MAX_SEMANTIC_LINE_CHARS : ℕ := 2000
def CONTINUITY_MAX_CONSTRAINTS : ℕ := 32
def CONTINUITY_MAX_SUCCESS_CRITERIA : ℕ := 32
def CONTINUITY_MAX_NEXT_STEP_CHARS : ℕ := 4000
def CONTINUITY_MAX_DETAIL_CHARS : ℕ := 32000
def CONTINUITY_MAX_BRIEF_CHARS : ℕ := 8000
def CONTINUITY_MAX_PLAN_STEPS : ℕ := 20
def CONTINUITY_MAX_PLAN_STEP_CHARS : ℕ := 2000
def CONTINUITY_MAX_PLAN_DETAIL_CHARS : ℕ := 4000
def CONTINUITY_MAX_ACTIVITY_LINES : ℕ := 50
def CONTINUITY_MAX_ACTIVITY_LINE_CHARS : ℕ := 500
def CONTINUITY_MAX_DECISIONS : ℕ := 20
def CONTINUITY_MAX_DECISION_CHARS : ℕ := 4000
def CONTINUITY_MAX_RATIONALE_CHARS : ℕ := 8000
def CONTINUITY_MAX_ALTERNATIVES : ℕ := 12
def CONTINUITY_MAX_EVIDENCE : ℕ := 20
def CONTINUITY_MAX_VALID_WHILE_CHARS : ℕ := 4000
def CONTINUITY_MAX_UNCERTAINTIES : ℕ := 20
def CONTINUITY_MAX_VERIFICATION_SUMMARY : ℕ := 20

/-! ## The records -/

structure ContinuityPlanStep where
  step : String
  status : String
  details : Option String
  deriving DecidableEq

inductive TaskStatus where
  | active
  | blocked
  | completed
  deriving DecidableEq

structure ContinuityTask where
  goal : String
  constraints : List String
  successCriteria : List String
  status : TaskStatus
  nextStep : String
  detail : Option String
  brief : Option String
  planSteps : Option (List ContinuityPlanStep)
  activity : Option (List String)
  deriving DecidableEq

structure ContinuityDecision where
  decision : String
  rationale : String
  alternatives : List String
  evidence : List String
  validWhile : Option String
  deriving DecidableEq

structure ContinuitySemanticInput where
  task : ContinuityTask
  decisions : List ContinuityDecision
  uncertainties : List String
  verificationSummary : List String
  deriving DecidableEq

structure ContinuitySemanticRecord extends ContinuitySemanticInput where
  recordVersion : ℕ
  createdAt : String
  deriving DecidableEq

structure StoredWorktreeIdentity where
  canonicalPath : String
  repositoryRoot : String
  commonGitDir : String
  gitDir : String
  repositoryIdentity : String
  worktreeIdentity : String
  deriving DecidableEq

structure ContinuityLocalState where
  checkedAt : String
  branch : Option String
  headSha : String
  stagedPaths : List String
  unstagedPaths : List String
  untrackedPaths : List String
  pathsTruncated : Bool
  deriving DecidableEq

inductive RemoteVerificationStatus where
  | verified
  | notFound
  | unverified
  deriving DecidableEq

inductive RemoteReason where
  | detachedHead
  | remoteMissing
  | remoteError
  | notChecked
  deriving DecidableEq

structure RemoteRefState where
  status : RemoteVerificationStatus
  ref : Option String
  currentSha : Option String
  checkedAt : String
  lastVerifiedSha : Option String
  lastVerifiedAt : Option String
  reason : Option RemoteReason
  deriving DecidableEq

/-- `remoteName` is `"origin"` or `null`. -/
structure ContinuityPublishedState where
  origin : Bool
  branch : RemoteRefState
  main : RemoteRefState
  deriving DecidableEq

structure StoredProject where
  id : String
  aliasName : String
  aliasKey : String
  roots : List String
  worktree : StoredWorktreeIdentity
  localState : ContinuityLocalState
  publishedState : ContinuityPublishedState
  currentRecord : ContinuitySemanticRecord
  createdAt : String
  updatedAt : String
  deriving DecidableEq

/-! ## The schemas -/

/-- `z.string().min(least).max(most)`. -/
def stringSchema (least most : ℕ) (text : String) : Bool :=
  least ≤ Text.length text.toList && Text.length text.toList ≤ most

/-- `z.array(item).min(least).max(most)`. -/
def arraySchema {α : Type} (least most : ℕ) (item : α → Bool) (items : List α) : Bool :=
  least ≤ items.length && items.length ≤ most && items.all item

/-- `schema.optional()`. -/
def optionalSchema {α : Type} (schema : α → Bool) : Option α → Bool
  | none => true
  | some value => schema value

def shaSchema (text : String) : Bool := Text.matchesHex 40 64 false text.toList

def identitySchema (text : String) : Bool := Text.matchesHex 64 64 false text.toList

def continuityPathSchema : String → Bool := stringSchema 1 CONTINUITY_MAX_PATH_CHARS

def continuityProjectRootsSchema : List String → Bool :=
  arraySchema 1 CONTINUITY_MAX_PROJECT_ROOTS continuityPathSchema

def continuitySemanticLineSchema : String → Bool :=
  stringSchema 1 CONTINUITY_MAX_SEMANTIC_LINE_CHARS

def continuityPlanStepSchema (step : ContinuityPlanStep) : Bool :=
  stringSchema 1 CONTINUITY_MAX_PLAN_STEP_CHARS step.step && stringSchema 1 64 step.status &&
    optionalSchema (stringSchema 0 CONTINUITY_MAX_PLAN_DETAIL_CHARS) step.details

def continuityActivityLineSchema : String → Bool :=
  stringSchema 1 CONTINUITY_MAX_ACTIVITY_LINE_CHARS

def continuityTaskSchema (task : ContinuityTask) : Bool :=
  stringSchema 1 CONTINUITY_MAX_GOAL_CHARS task.goal &&
    arraySchema 0 CONTINUITY_MAX_CONSTRAINTS continuitySemanticLineSchema task.constraints &&
    arraySchema 0 CONTINUITY_MAX_SUCCESS_CRITERIA continuitySemanticLineSchema
      task.successCriteria &&
    stringSchema 1 CONTINUITY_MAX_NEXT_STEP_CHARS task.nextStep &&
    optionalSchema (stringSchema 0 CONTINUITY_MAX_DETAIL_CHARS) task.detail &&
    optionalSchema (stringSchema 0 CONTINUITY_MAX_BRIEF_CHARS) task.brief &&
    optionalSchema (arraySchema 0 CONTINUITY_MAX_PLAN_STEPS continuityPlanStepSchema)
      task.planSteps &&
    optionalSchema (arraySchema 0 CONTINUITY_MAX_ACTIVITY_LINES continuityActivityLineSchema)
      task.activity

def continuityDecisionSchema (decision : ContinuityDecision) : Bool :=
  stringSchema 1 CONTINUITY_MAX_DECISION_CHARS decision.decision &&
    stringSchema 1 CONTINUITY_MAX_RATIONALE_CHARS decision.rationale &&
    arraySchema 0 CONTINUITY_MAX_ALTERNATIVES continuitySemanticLineSchema
      decision.alternatives &&
    arraySchema 0 CONTINUITY_MAX_EVIDENCE continuitySemanticLineSchema decision.evidence &&
    optionalSchema (stringSchema 0 CONTINUITY_MAX_VALID_WHILE_CHARS) decision.validWhile

def continuitySemanticInputSchema (semantic : ContinuitySemanticInput) : Bool :=
  continuityTaskSchema semantic.task &&
    arraySchema 0 CONTINUITY_MAX_DECISIONS continuityDecisionSchema semantic.decisions &&
    arraySchema 0 CONTINUITY_MAX_UNCERTAINTIES continuitySemanticLineSchema
      semantic.uncertainties &&
    arraySchema 0 CONTINUITY_MAX_VERIFICATION_SUMMARY continuitySemanticLineSchema
      semantic.verificationSummary

def continuitySemanticRecordSchema (record : ContinuitySemanticRecord) : Bool :=
  continuitySemanticInputSchema record.toContinuitySemanticInput && 0 < record.recordVersion

def storedWorktreeIdentitySchema (worktree : StoredWorktreeIdentity) : Bool :=
  continuityPathSchema worktree.canonicalPath && continuityPathSchema worktree.repositoryRoot &&
    continuityPathSchema worktree.commonGitDir && continuityPathSchema worktree.gitDir &&
    identitySchema worktree.repositoryIdentity && identitySchema worktree.worktreeIdentity

def continuityLocalStateSchema (state : ContinuityLocalState) : Bool :=
  shaSchema state.headSha &&
    arraySchema 0 CONTINUITY_MAX_TRACKED_PATHS continuityPathSchema state.stagedPaths &&
    arraySchema 0 CONTINUITY_MAX_TRACKED_PATHS continuityPathSchema state.unstagedPaths &&
    arraySchema 0 CONTINUITY_MAX_TRACKED_PATHS continuityPathSchema state.untrackedPaths

def remoteRefStateSchema (state : RemoteRefState) : Bool :=
  optionalSchema shaSchema state.currentSha && optionalSchema shaSchema state.lastVerifiedSha

def continuityPublishedStateSchema (state : ContinuityPublishedState) : Bool :=
  remoteRefStateSchema state.branch && remoteRefStateSchema state.main

/-- What `parse` throws for a value its schema refuses. -/
def zodError : AppError := .other "ZodError" "Invalid input"

/-- `continuityAliasSchema.parse`. -/
@[irreducible] def continuityAliasSchema (aliasName : String) : Except AppError String :=
  let trimmed := String.ofList (Text.trim aliasName.toList)
  if stringSchema 1 CONTINUITY_MAX_ALIAS_CHARS trimmed then .ok trimmed else .error zodError

def continuityAliasKey (unicode : CharacterDatabase) (aliasName : String) : String :=
  String.ofList (unicode.toLowerCase (unicode.nfkc (Text.trim aliasName.toList)))

/-! ## What the calls are given -/

/-- The ghost field `inspectedPath`, here and below, is the worktree whose inspection produced
the local and the published state. -/
structure RegisterProjectRecord where
  id : String
  aliasName : String
  roots : List String
  worktree : StoredWorktreeIdentity
  localState : ContinuityLocalState
  publishedState : ContinuityPublishedState
  inspectedPath : String
  semantic : ContinuitySemanticInput

structure CheckpointProjectRecord where
  projectId : String
  expectedRecordVersion : ℕ
  semantic : ContinuitySemanticInput
  localState : ContinuityLocalState
  publishedState : ContinuityPublishedState
  inspectedPath : String

structure RebindProjectRecord where
  projectId : String
  expectedRecordVersion : ℕ
  roots : List String
  worktree : StoredWorktreeIdentity
  localState : ContinuityLocalState
  publishedState : ContinuityPublishedState
  inspectedPath : String

end Continuity
