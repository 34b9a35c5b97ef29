import ChatgptSystem.Foundations.RelyGuarantee
import ChatgptSystem.Continuity.ContinuityTypes

/-!
# The continuity store

`ContinuityStore` over its three SQLite tables. A statement fails when it breaks a constraint of the
schema; a transaction takes effect as a whole or leaves the tables as they are.

* `Tables` — the rows of `projects`, `worktrees` and `continuity_records`; a JSON column holds
  the value of its text;
* `registerTransaction`, `rebindTransaction`, `checkpointTransaction`, `updateStateStatement` —
  the writes;
* `StoreOp`, `Database` — the operations and their state, with a record of the reads and commits;
* `register`, `getByAlias`, `getRecord`, `rebind`, `checkpoint`, `updateOperationalState` — the
  methods.
-/

open Interleaving

namespace Continuity

/-! ## Tables and statements -/

structure ProjectRow where
  id : String
  aliasName : String
  aliasKey : String
  roots : List String
  currentRecordVersion : ℕ
  createdAt : String
  updatedAt : String
  deriving DecidableEq

/-- `inspectedPath` is ghost. -/
structure WorktreeRow where
  projectId : String
  worktree : StoredWorktreeIdentity
  localState : ContinuityLocalState
  publishedState : ContinuityPublishedState
  checkedAt : String
  inspectedPath : String
  deriving DecidableEq

structure RecordRow where
  projectId : String
  version : ℕ
  semantic : ContinuitySemanticInput
  createdAt : String
  deriving DecidableEq

structure Tables where
  projects : List ProjectRow
  worktrees : List WorktreeRow
  records : List RecordRow
  deriving DecidableEq

def Tables.empty : Tables := ⟨[], [], []⟩

inductive SqliteCode where
  | SQLITE_CONSTRAINT_PRIMARYKEY
  | SQLITE_CONSTRAINT_UNIQUE
  | SQLITE_CONSTRAINT_FOREIGNKEY
  | other (code : String)
  deriving DecidableEq

inductive StoreError where
  | sqlite (code : SqliteCode)
  | app (error : AppError)
  deriving DecidableEq

def insertProject (row : ProjectRow) (tables : Tables) : Except StoreError Tables :=
  if tables.projects.any (·.id = row.id) then .error (.sqlite .SQLITE_CONSTRAINT_PRIMARYKEY)
  else if tables.projects.any (·.aliasKey = row.aliasKey) then
    .error (.sqlite .SQLITE_CONSTRAINT_UNIQUE)
  else .ok { tables with projects := tables.projects ++ [row] }

def insertWorktree (row : WorktreeRow) (tables : Tables) : Except StoreError Tables :=
  if tables.worktrees.any (·.projectId = row.projectId) then
    .error (.sqlite .SQLITE_CONSTRAINT_PRIMARYKEY)
  else if tables.worktrees.any (·.worktree.canonicalPath = row.worktree.canonicalPath) then
    .error (.sqlite .SQLITE_CONSTRAINT_UNIQUE)
  else if ¬ tables.projects.any (·.id = row.projectId) then
    .error (.sqlite .SQLITE_CONSTRAINT_FOREIGNKEY)
  else .ok { tables with worktrees := tables.worktrees ++ [row] }

def insertRecord (row : RecordRow) (tables : Tables) : Except StoreError Tables :=
  if tables.records.any fun r => r.projectId = row.projectId ∧ r.version = row.version then
    .error (.sqlite .SQLITE_CONSTRAINT_PRIMARYKEY)
  else if ¬ tables.projects.any (·.id = row.projectId) then
    .error (.sqlite .SQLITE_CONSTRAINT_FOREIGNKEY)
  else .ok { tables with records := tables.records ++ [row] }

/-- `UPDATE projects SET … WHERE id = ?`. -/
def updateProject (id : String) (change : ProjectRow → ProjectRow) (tables : Tables) : Tables :=
  { tables with
    projects := tables.projects.map fun row => if row.id = id then change row else row }

/-- `UPDATE worktrees SET … WHERE project_id = ?`, of columns without a constraint. -/
def updateWorktree (projectId : String) (change : WorktreeRow → WorktreeRow)
    (tables : Tables) : Tables :=
  { tables with
    worktrees := tables.worktrees.map fun row =>
      if row.projectId = projectId then change row else row }

/-- `UPDATE worktrees SET canonical_path = ?, … WHERE project_id = ?`. -/
def updateWorktreePath (projectId canonicalPath : String) (change : WorktreeRow → WorktreeRow)
    (tables : Tables) : Except StoreError Tables :=
  if tables.worktrees.any (·.projectId = projectId) ∧ tables.worktrees.any fun row =>
      row.projectId ≠ projectId ∧ row.worktree.canonicalPath = canonicalPath then
    .error (.sqlite .SQLITE_CONSTRAINT_UNIQUE)
  else .ok (updateWorktree projectId change tables)

/-- `SELECT current_record_version FROM projects WHERE id = ?`. -/
def currentRecordVersion? (id : String) (tables : Tables) : Option ℕ :=
  (tables.projects.find? (·.id = id)).map (·.currentRecordVersion)

def continuityNotFound : AppError :=
  .other "CONTINUITY_NOT_FOUND" "The registered continuity project was not found."

def rebindConflict : AppError :=
  .conflict "Continuity record version changed; reread the current project before rebinding."

def checkpointConflict : AppError :=
  .conflict "Continuity record version changed; reread the current project before checkpointing."

def continuityRecordNotFound : AppError :=
  .other "CONTINUITY_NOT_FOUND" "The requested continuity record was not found."

def continuityDatabaseInvalid : AppError :=
  .other "CONTINUITY_DATABASE_INVALID" "Stored project continuity data is invalid."

/-! ## Transactions -/

def registerTransaction (input : RegisterProjectRecord) (aliasKey timestamp : String)
    (tables : Tables) : Except StoreError Tables := do
  let recordVersion := 1
  let tables ← insertProject
    { id := input.id
      aliasName := input.aliasName
      aliasKey
      roots := input.roots
      currentRecordVersion := recordVersion
      createdAt := timestamp
      updatedAt := timestamp } tables
  let tables ← insertWorktree
    { projectId := input.id
      worktree := input.worktree
      localState := input.localState
      publishedState := input.publishedState
      checkedAt := input.localState.checkedAt
      inspectedPath := input.inspectedPath } tables
  insertRecord
    { projectId := input.id
      version := recordVersion
      semantic := input.semantic
      createdAt := timestamp } tables

def rebindTransaction (input : RebindProjectRecord) (timestamp : String) (tables : Tables) :
    Except StoreError Tables :=
  match currentRecordVersion? input.projectId tables with
  | none => .error (.app continuityNotFound)
  | some current =>
    if current ≠ input.expectedRecordVersion then
      .error (.app rebindConflict)
    else
      let tables := updateProject input.projectId
        (fun row => { row with
          roots := input.roots
          createdAt := timestamp
          updatedAt := timestamp }) tables
      updateWorktreePath input.projectId input.worktree.canonicalPath
        (fun row => { row with
          worktree := input.worktree
          localState := input.localState
          publishedState := input.publishedState
          checkedAt := input.localState.checkedAt
          inspectedPath := input.inspectedPath }) tables

def checkpointTransaction (input : CheckpointProjectRecord) (timestamp : String)
    (tables : Tables) : Except StoreError (ℕ × Tables) :=
  match currentRecordVersion? input.projectId tables with
  | none => .error (.app continuityNotFound)
  | some current =>
    if current ≠ input.expectedRecordVersion then
      .error (.app checkpointConflict)
    else do
      let nextVersion := current + 1
      let tables ← insertRecord
        { projectId := input.projectId
          version := nextVersion
          semantic := input.semantic
          createdAt := timestamp } tables
      let tables := updateWorktree input.projectId
        (fun row => { row with
          localState := input.localState
          publishedState := input.publishedState
          checkedAt := input.localState.checkedAt
          inspectedPath := input.inspectedPath }) tables
      let tables := updateProject input.projectId
        (fun row => { row with currentRecordVersion := nextVersion, updatedAt := timestamp })
        tables
      return (nextVersion, tables)

/-- The statement of `updateOperationalState`, with the number of rows it changes. -/
def updateStateStatement (projectId : String) (localState : ContinuityLocalState)
    (publishedState : ContinuityPublishedState) (inspectedPath : String) (tables : Tables) :
    ℕ × Tables :=
  ((tables.worktrees.filter (·.projectId = projectId)).length,
    updateWorktree projectId
      (fun row => { row with
        localState
        publishedState
        checkedAt := localState.checkedAt
        inspectedPath }) tables)

/-! ## Operations -/

structure ProjectRows where
  project : ProjectRow
  worktree : WorktreeRow
  record : RecordRow
  deriving DecidableEq

def Tables.selectByAlias (tables : Tables) (aliasKey : String) : Option ProjectRows := do
  let project ← tables.projects.find? (·.aliasKey = aliasKey)
  let worktree ← tables.worktrees.find? (·.projectId = project.id)
  let record ← tables.records.find? fun row =>
    row.projectId = project.id ∧ row.version = project.currentRecordVersion
  return { project, worktree, record }

def Tables.selectRecord (tables : Tables) (projectId : String) (version : ℕ) :
    Option RecordRow :=
  tables.records.find? fun row => row.projectId = projectId ∧ row.version = version

inductive StoreOp where
  /-- `new Date(this.now()).toISOString()`; `none` if the time is out of range. -/
  | isoDate
  | selectByAlias (aliasKey : String)
  | selectRecord (projectId : String) (version : ℕ)
  | register (input : RegisterProjectRecord) (aliasKey timestamp : String)
  | rebind (input : RebindProjectRecord) (timestamp : String)
  | checkpoint (input : CheckpointProjectRecord) (timestamp : String)
  | updateState (projectId : String) (localState : ContinuityLocalState)
      (publishedState : ContinuityPublishedState) (inspectedPath : String)

def StoreOp.Res : StoreOp → Type
  | .isoDate => Option String
  | .selectByAlias _ => Option ProjectRows
  | .selectRecord _ _ => Option RecordRow
  | .register _ _ _ => Except StoreError Unit
  | .rebind _ _ => Except StoreError Unit
  | .checkpoint _ _ => Except StoreError ℕ
  | .updateState _ _ _ _ => Except StoreError ℕ

abbrev StoreM (α : Type) : Type := Program StoreOp StoreOp.Res AppError α

inductive CommitKind where
  | registered
  | rebound
  /-- A checkpoint that stored this version. -/
  | checkpointed (version : ℕ)
  | updated
  deriving DecidableEq

structure Commit (ι : Type) where
  call : ι
  projectId : String
  kind : CommitKind
  deriving DecidableEq

/-- The tables and the ghost record: the commits, newest first, and for each call the commits
there were when it first read a project. -/
structure Database (ι : Type) where
  tables : Tables
  commits : List (Commit ι)
  started : ι → Option (List (Commit ι))

inductive StoreChoice where
  | done
  | date (answer : Option String)
  /-- SQLite fails a write for a reason of its own, and rolls it back. -/
  | fails (code : SqliteCode)

namespace Database

variable {ι : Type}

/-- The end of a transaction: its tables replace the old ones, or nothing changes. -/
def commit (database : Database ι) (event : Commit ι) {α : Type}
    (result : Except StoreError (α × Tables)) : Except StoreError α × Database ι :=
  match result with
  | .ok (a, tables) =>
    (.ok a, { database with tables, commits := event :: database.commits })
  | .error error => (.error error, database)

def noteRead [DecidableEq ι] (database : Database ι) (call : ι) : Database ι :=
  match database.started call with
  | some _ => database
  | none => { database with started := Function.update database.started call database.commits }

@[simp] theorem noteRead_tables [DecidableEq ι] (database : Database ι) (call : ι) :
    (database.noteRead call).tables = database.tables := by
  unfold noteRead
  split <;> rfl

@[simp] theorem noteRead_commits [DecidableEq ι] (database : Database ι) (call : ι) :
    (database.noteRead call).commits = database.commits := by
  unfold noteRead
  split <;> rfl

end Database

variable {ι : Type} [DecidableEq ι]

def StoreOp.apply (choice : StoreChoice) (call : ι) :
    (o : StoreOp) → Database ι → Option (o.Res × Database ι)
  | .isoDate, database =>
    match choice with
    | .date answer => some (answer, database)
    | _ => none
  | .selectByAlias aliasKey, database =>
    match choice with
    | .done => some (database.tables.selectByAlias aliasKey, database.noteRead call)
    | _ => none
  | .selectRecord projectId version, database =>
    match choice with
    | .done => some (database.tables.selectRecord projectId version, database)
    | _ => none
  | .register input aliasKey timestamp, database =>
    match choice with
    | .done => some (database.commit ⟨call, input.id, .registered⟩
        ((registerTransaction input aliasKey timestamp database.tables).map ((), ·)))
    | .fails code => some (.error (.sqlite code), database)
    | _ => none
  | .rebind input timestamp, database =>
    match choice with
    | .done => some (database.commit ⟨call, input.projectId, .rebound⟩
        ((rebindTransaction input timestamp database.tables).map ((), ·)))
    | .fails code => some (.error (.sqlite code), database)
    | _ => none
  | .checkpoint input timestamp, database =>
    match choice with
    | .done => some (database.commit
        ⟨call, input.projectId, .checkpointed (input.expectedRecordVersion + 1)⟩
        (checkpointTransaction input timestamp database.tables))
    | .fails code => some (.error (.sqlite code), database)
    | _ => none
  | .updateState projectId localState publishedState inspectedPath, database =>
    match choice with
    | .done => some (database.commit ⟨call, projectId, .updated⟩
        (.ok (updateStateStatement projectId localState publishedState inspectedPath
          database.tables)))
    | .fails code => some (.error (.sqlite code), database)
    | _ => none

def storeExec (call : ι) : Exec StoreOp StoreOp.Res (Database ι) :=
  fun o s r s' => ∃ choice, o.apply choice call s = some (r, s')

section Steps

variable {call : ι} {database later : Database ι}

theorem storeExec_isoDate {r : StoreOp.isoDate.Res}
    (h : storeExec call .isoDate database r later) : later = database := by
  obtain ⟨choice, h⟩ := h
  cases choice with
  | date answer => exact (Prod.mk.inj (Option.some.inj h)).2.symm
  | done => cases h
  | fails code => cases h

theorem storeExec_selectByAlias {aliasKey : String} {r : (StoreOp.selectByAlias aliasKey).Res}
    (h : storeExec call (.selectByAlias aliasKey) database r later) :
    r = database.tables.selectByAlias aliasKey ∧ later = database.noteRead call := by
  obtain ⟨choice, h⟩ := h
  cases choice with
  | done =>
    obtain ⟨hr, hlater⟩ := Prod.mk.inj (Option.some.inj h)
    exact ⟨hr.symm, hlater.symm⟩
  | date answer => cases h
  | fails code => cases h

theorem storeExec_selectRecord {projectId : String} {version : ℕ}
    {r : (StoreOp.selectRecord projectId version).Res}
    (h : storeExec call (.selectRecord projectId version) database r later) :
    r = database.tables.selectRecord projectId version ∧ later = database := by
  obtain ⟨choice, h⟩ := h
  cases choice with
  | done =>
    obtain ⟨hr, hlater⟩ := Prod.mk.inj (Option.some.inj h)
    exact ⟨hr.symm, hlater.symm⟩
  | date answer => cases h
  | fails code => cases h

theorem storeExec_register {input : RegisterProjectRecord} {aliasKey timestamp : String}
    {r : (StoreOp.register input aliasKey timestamp).Res}
    (h : storeExec call (.register input aliasKey timestamp) database r later) :
    (∃ error, r = .error error ∧ later = database) ∨
    ∃ tables, registerTransaction input aliasKey timestamp database.tables = .ok tables ∧
      r = .ok () ∧ later = { database with
        tables, commits := ⟨call, input.id, .registered⟩ :: database.commits } := by
  obtain ⟨choice, h⟩ := h
  cases choice with
  | done =>
    obtain ⟨hr, hlater⟩ := Prod.mk.inj (Option.some.inj h)
    cases hresult : registerTransaction input aliasKey timestamp database.tables with
    | error error =>
      rw [hresult] at hr hlater
      exact .inl ⟨error, hr.symm, hlater.symm⟩
    | ok tables =>
      rw [hresult] at hr hlater
      exact .inr ⟨tables, rfl, hr.symm, hlater.symm⟩
  | date answer => cases h
  | fails code =>
    obtain ⟨hr, hlater⟩ := Prod.mk.inj (Option.some.inj h)
    exact .inl ⟨.sqlite code, hr.symm, hlater.symm⟩

theorem storeExec_rebind {input : RebindProjectRecord} {timestamp : String}
    {r : (StoreOp.rebind input timestamp).Res}
    (h : storeExec call (.rebind input timestamp) database r later) :
    (∃ error, r = .error error ∧ later = database) ∨
    ∃ tables, rebindTransaction input timestamp database.tables = .ok tables ∧
      r = .ok () ∧ later = { database with
        tables, commits := ⟨call, input.projectId, .rebound⟩ :: database.commits } := by
  obtain ⟨choice, h⟩ := h
  cases choice with
  | done =>
    obtain ⟨hr, hlater⟩ := Prod.mk.inj (Option.some.inj h)
    cases hresult : rebindTransaction input timestamp database.tables with
    | error error =>
      rw [hresult] at hr hlater
      exact .inl ⟨error, hr.symm, hlater.symm⟩
    | ok tables =>
      rw [hresult] at hr hlater
      exact .inr ⟨tables, rfl, hr.symm, hlater.symm⟩
  | date answer => cases h
  | fails code =>
    obtain ⟨hr, hlater⟩ := Prod.mk.inj (Option.some.inj h)
    exact .inl ⟨.sqlite code, hr.symm, hlater.symm⟩

theorem storeExec_checkpoint {input : CheckpointProjectRecord} {timestamp : String}
    {r : (StoreOp.checkpoint input timestamp).Res}
    (h : storeExec call (.checkpoint input timestamp) database r later) :
    (∃ error, r = .error error ∧ later = database ∧
      ((∃ code, error = .sqlite code) ∨
        checkpointTransaction input timestamp database.tables = .error error)) ∨
    ∃ version tables, checkpointTransaction input timestamp database.tables =
        .ok (version, tables) ∧ r = .ok version ∧ later = { database with
        tables
        commits := ⟨call, input.projectId, .checkpointed (input.expectedRecordVersion + 1)⟩ ::
          database.commits } := by
  obtain ⟨choice, h⟩ := h
  cases choice with
  | done =>
    obtain ⟨hr, hlater⟩ := Prod.mk.inj (Option.some.inj h)
    cases hresult : checkpointTransaction input timestamp database.tables with
    | error error =>
      rw [hresult] at hr hlater
      exact .inl ⟨error, hr.symm, hlater.symm, .inr rfl⟩
    | ok result =>
      rw [hresult] at hr hlater
      exact .inr ⟨result.1, result.2, rfl, hr.symm, hlater.symm⟩
  | date answer => cases h
  | fails code =>
    obtain ⟨hr, hlater⟩ := Prod.mk.inj (Option.some.inj h)
    exact .inl ⟨.sqlite code, hr.symm, hlater.symm, .inl ⟨code, rfl⟩⟩

theorem storeExec_updateState {projectId : String} {localState : ContinuityLocalState}
    {publishedState : ContinuityPublishedState} {inspectedPath : String}
    {r : (StoreOp.updateState projectId localState publishedState inspectedPath).Res}
    (h : storeExec call (.updateState projectId localState publishedState inspectedPath) database r
      later) :
    (∃ error, r = .error error ∧ later = database) ∨
    r = .ok (updateStateStatement projectId localState publishedState inspectedPath
        database.tables).1 ∧
      later = { database with
        tables := (updateStateStatement projectId localState publishedState inspectedPath
          database.tables).2
        commits := ⟨call, projectId, .updated⟩ :: database.commits } := by
  obtain ⟨choice, h⟩ := h
  cases choice with
  | done =>
    obtain ⟨hr, hlater⟩ := Prod.mk.inj (Option.some.inj h)
    exact .inr ⟨hr.symm, hlater.symm⟩
  | date answer => cases h
  | fails code =>
    obtain ⟨hr, hlater⟩ := Prod.mk.inj (Option.some.inj h)
    exact .inl ⟨.sqlite code, hr.symm, hlater.symm⟩

end Steps

/-! ## Methods -/

/-- `schema.parse(value)` where the value is used as it is. -/
def parse (accepted : Bool) : StoreM Unit :=
  if accepted then pure () else throw zodError

def sqliteError : SqliteCode → AppError
  | .SQLITE_CONSTRAINT_PRIMARYKEY => .other "SQLITE_CONSTRAINT_PRIMARYKEY" ""
  | .SQLITE_CONSTRAINT_UNIQUE => .other "SQLITE_CONSTRAINT_UNIQUE" ""
  | .SQLITE_CONSTRAINT_FOREIGNKEY => .other "SQLITE_CONSTRAINT_FOREIGNKEY" ""
  | .other code => .other code ""

def StoreError.toApp : StoreError → AppError
  | .app error => error
  | .sqlite code => sqliteError code

def registrationConflictCodes : List SqliteCode :=
  [.SQLITE_CONSTRAINT_PRIMARYKEY, .SQLITE_CONSTRAINT_UNIQUE]

/-- The error of `register` or `rebind` when their transaction fails. -/
def conflictOf (message : String) : StoreError → AppError
  | .app error => error
  | .sqlite code =>
    if code ∈ registrationConflictCodes then .conflict message else sqliteError code

def ProjectRows.currentRecord (rows : ProjectRows) : ContinuitySemanticRecord :=
  { rows.record.semantic with
    recordVersion := rows.record.version
    createdAt := rows.record.createdAt }

/-- Whether every stored value passes the schema it is parsed with. -/
def ProjectRows.accepted (rows : ProjectRows) : Bool :=
  continuityProjectRootsSchema rows.project.roots &&
    storedWorktreeIdentitySchema rows.worktree.worktree &&
    continuityLocalStateSchema rows.worktree.localState &&
    continuityPublishedStateSchema rows.worktree.publishedState &&
    continuitySemanticRecordSchema rows.currentRecord

def ProjectRows.toStored (rows : ProjectRows) : StoredProject :=
  { id := rows.project.id
    aliasName := rows.project.aliasName
    aliasKey := rows.project.aliasKey
    roots := rows.project.roots
    worktree := rows.worktree.worktree
    localState := rows.worktree.localState
    publishedState := rows.worktree.publishedState
    currentRecord := rows.currentRecord
    createdAt := rows.project.createdAt
    updatedAt := rows.project.updatedAt }

/-- What `getByAlias` makes of the row it selects. -/
def storedProject : Option ProjectRows → Except AppError StoredProject
  | none => .error continuityNotFound
  | some rows => if rows.accepted then .ok rows.toStored else .error continuityDatabaseInvalid

def parseSemanticRecord (row : RecordRow) : Except AppError ContinuitySemanticRecord :=
  let record : ContinuitySemanticRecord :=
    { row.semantic with recordVersion := row.version, createdAt := row.createdAt }
  if continuitySemanticRecordSchema record then .ok record else .error continuityDatabaseInvalid

def timestampNow : StoreM String :=
  .request .isoDate fun
    | some timestamp => pure timestamp
    | none => throw (.other "RangeError" "Invalid time value")

def getRecord (projectId : String) (version : ℕ) : StoreM ContinuitySemanticRecord :=
  .request (.selectRecord projectId version) fun
    | none => throw continuityRecordNotFound
    | some row => .ofExcept (parseSemanticRecord row)

def rebind (input : RebindProjectRecord) : StoreM Unit := do
  parse (continuityProjectRootsSchema input.roots)
  parse (storedWorktreeIdentitySchema input.worktree)
  parse (continuityLocalStateSchema input.localState)
  parse (continuityPublishedStateSchema input.publishedState)
  let timestamp ← timestampNow
  .request (.rebind input timestamp) fun
    | .ok () => pure ()
    | .error error =>
      throw (conflictOf "That worktree is already registered to another continuity project." error)

def checkpoint (input : CheckpointProjectRecord) : StoreM ContinuitySemanticRecord := do
  parse (continuitySemanticInputSchema input.semantic)
  parse (continuityLocalStateSchema input.localState)
  parse (continuityPublishedStateSchema input.publishedState)
  let timestamp ← timestampNow
  .request (.checkpoint input timestamp) fun
    | .ok version => getRecord input.projectId version
    | .error error => throw error.toApp

def updateOperationalState (projectId : String) (localState : ContinuityLocalState)
    (publishedState : ContinuityPublishedState) (inspectedPath : String) : StoreM Unit := do
  parse (continuityLocalStateSchema localState)
  parse (continuityPublishedStateSchema publishedState)
  .request (.updateState projectId localState publishedState inspectedPath) fun
    | .ok changes => if changes ≠ 1 then throw continuityNotFound else pure ()
    | .error error => throw error.toApp

section Lookup

variable (unicode : CharacterDatabase)

def getByAlias (aliasName : String) : StoreM StoredProject :=
  .request (.selectByAlias (continuityAliasKey unicode aliasName)) fun rows =>
    .ofExcept (storedProject rows)

def register (input : RegisterProjectRecord) : StoreM StoredProject := do
  let aliasName ← .ofExcept (continuityAliasSchema input.aliasName)
  parse (continuityProjectRootsSchema input.roots)
  parse (storedWorktreeIdentitySchema input.worktree)
  parse (continuityLocalStateSchema input.localState)
  parse (continuityPublishedStateSchema input.publishedState)
  parse (continuitySemanticInputSchema input.semantic)
  let timestamp ← timestampNow
  let aliasKey := continuityAliasKey unicode aliasName
  .request (.register { input with aliasName } aliasKey timestamp) fun
    | .ok () => getByAlias unicode aliasKey
    | .error error => throw (conflictOf
        "A project with the same continuity alias, ID, or worktree is already registered." error)

end Lookup

end Continuity
