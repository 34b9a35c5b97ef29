import ChatgptSystem.Continuity.StoreInvariant
import ChatgptSystem.Continuity.ProjectContinuityService

/-!
# The state of the attached worktree

`rebind`, `checkpoint` and `resume` inspect a worktree first and write what they have seen in a
transaction of their own. Only the record version is checked in between, and a rebind does not
advance it; `resume` checks nothing.

* `Attached` — every stored state comes from an inspection of the stored worktree path;
* `ExclusiveRebinds` — no two rebinds that started from one state of a project have succeeded;
* `Conforming` — the steps that keep both: a state is written while the project is attached to
  the worktree it was seen in, and a rebind is written if no other one came in between;
* `attached_of_conforming` — both hold in every run of conforming steps.
-/

open Interleaving

namespace Continuity

variable {ι : Type} [DecidableEq ι]

/-! ## The properties -/

/-- Every stored state was seen in the stored worktree. -/
def Attached (tables : Tables) : Prop :=
  ∀ w ∈ tables.worktrees, w.inspectedPath = w.worktree.canonicalPath

def Database.stateAtStart (database : Database ι) (call : ι) (projectId : String) :
    Option (List (Commit ι)) :=
  (database.started call).map fun commits => commits.filter (·.projectId = projectId)

/-- Two rebinds of a project that both succeeded have started from different states of it. -/
def ExclusiveRebinds (database : Database ι) : Prop :=
  ∀ i j projectId, i ≠ j → ⟨i, projectId, .rebound⟩ ∈ database.commits →
    ⟨j, projectId, .rebound⟩ ∈ database.commits →
    database.stateAtStart i projectId ≠ database.stateAtStart j projectId

/-! ## The calls -/

inductive ServiceCall where
  | rebind (input : ProjectRebindInput)
  | checkpoint (input : ProjectCheckpointInput)
  | resume (input : ProjectResumeInput)

inductive ServiceResult where
  | continuity (result : ProjectContinuityResult)
  | resumed (result : ProjectResumeResult)

def ServiceCall.program (unicode : CharacterDatabase) : ServiceCall → ServiceM ServiceResult
  | .rebind input => (rebindProject unicode input).bind fun r => .pure (.continuity r)
  | .checkpoint input => (checkpointProject unicode input).bind fun r => .pure (.continuity r)
  | .resume input => (resumeProject unicode input).bind fun r => .pure (.resumed r)

abbrev ServiceConfiguration (ι : Type) : Type :=
  Pool ι ServiceOp ServiceOp.Res AppError ServiceResult × Database ι

def servicePrograms (unicode : CharacterDatabase) (calls : ι → ServiceCall) :
    Pool ι ServiceOp ServiceOp.Res AppError ServiceResult :=
  fun i => (calls i).program unicode

def AttachedTo (tables : Tables) (projectId path : String) : Prop :=
  ∀ w ∈ tables.worktrees, w.projectId = projectId → w.worktree.canonicalPath = path

/-- A rebind of the project has succeeded since the call read it. -/
def ReboundSince (database : Database ι) (call : ι) (projectId : String) : Prop :=
  ∃ commits, database.started call = some commits ∧
    ∃ commit ∈ database.commits, commit.kind = .rebound ∧ commit.projectId = projectId ∧
      commit ∉ commits

/-- If the next operation of the call writes the state of a worktree, then the project is still
attached to that worktree. -/
def StillAttached (c : ServiceConfiguration ι) (i : ι) : Prop :=
  (∀ input timestamp k, c.1 i = .request (.store (.checkpoint input timestamp)) k →
    currentRecordVersion? input.projectId c.2.tables = some input.expectedRecordVersion →
    AttachedTo c.2.tables input.projectId input.inspectedPath) ∧
  ∀ projectId localState publishedState inspectedPath k,
    c.1 i = .request (.store (.updateState projectId localState publishedState inspectedPath)) k →
    AttachedTo c.2.tables projectId inspectedPath

/-- If the next operation of the call writes a rebind, no other one has succeeded since the call
read the project. -/
def NotRebound (c : ServiceConfiguration ι) (i : ι) : Prop :=
  ∀ input timestamp k, c.1 i = .request (.store (.rebind input timestamp)) k →
    currentRecordVersion? input.projectId c.2.tables = some input.expectedRecordVersion →
    ¬ ReboundSince c.2 i input.projectId

def Conforming (c : ServiceConfiguration ι) (i : ι) : Prop :=
  StillAttached c i ∧ NotRebound c i

/-! ## What the calls issue -/

/-- A rebind stores the worktree it has inspected; no call registers a project. -/
def Sound : ServiceOp → Prop
  | .store (.register _ _ _) => False
  | .store (.rebind input _) => input.inspectedPath = input.worktree.canonicalPath
  | _ => True

section Issues

variable {unicode : CharacterDatabase}

theorem issues_verifyIdentity {worktreePath : String} {expected : StoredWorktreeIdentity}
    {previous : ContinuityPublishedState} {registeredAt : String} :
    (verifyIdentity worktreePath expected previous registeredAt).Issues Sound := by
  refine .request trivial fun path => ?_
  cases path with
  | error code => exact .throw _
  | ok path =>
    refine .request trivial fun answer => ?_
    cases answer with
    | error error => exact .throw _
    | ok current =>
      show (if _ then _ else if _ then _ else _ : ServiceM ContinuityInspection).Issues Sound
      split
      · exact .throw _
      split
      · exact .throw _
      refine .request trivial fun answer => ?_
      cases answer with
      | error error => exact .throw _
      | ok _ => exact .pure _

theorem issues_ofStore_getByAlias {aliasName : String} :
    (ofStore (getByAlias unicode aliasName)).Issues Sound :=
  .embed (issues_getByAlias trivial)

theorem issues_recordActiveAlias {aliasName : String} :
    (recordActiveAlias aliasName).Issues Sound :=
  .request trivial fun _ => .pure _

theorem issues_canonicalizeProjectRoots {roots : List String} :
    (canonicalizeProjectRoots roots).Issues Sound :=
  .request trivial fun _ => .ofExcept _

theorem issues_rebindProject {input : ProjectRebindInput} :
    (rebindProject unicode input).Issues Sound := by
  simp only [rebindProject, Program.bind_eq]
  refine issues_ofStore_getByAlias.bind fun stored => ?_
  refine issues_canonicalizeProjectRoots.bind fun roots => .request trivial fun path => ?_
  cases path with
  | error code => exact .throw _
  | ok path =>
    dsimp only
    split
    · exact .throw _
    refine .request trivial fun answer => ?_
    cases answer with
    | error error => exact .throw _
    | ok inspection =>
      refine (Program.Issues.embed (issues_rebind trivial fun _ => ?_)).bind fun _ => ?_
      · exact rfl
      refine issues_recordActiveAlias.bind fun _ => issues_ofStore_getByAlias.bind fun _ => ?_
      exact .pure _

theorem issues_checkpointProject {input : ProjectCheckpointInput} :
    (checkpointProject unicode input).Issues Sound := by
  simp only [checkpointProject, Program.bind_eq]
  refine issues_ofStore_getByAlias.bind fun stored => ?_
  refine .bind (.request trivial fun answer => ?_) fun _ => ?_
  · cases answer with
    | error error => exact .throw _
    | ok roots =>
      dsimp only
      split
      · exact .pure _
      · exact .throw _
  refine issues_verifyIdentity.bind fun inspection => ?_
  refine (Program.Issues.embed
    (issues_checkpoint trivial (fun _ _ => trivial) fun _ => trivial)).bind fun _ => ?_
  refine issues_recordActiveAlias.bind fun _ => issues_ofStore_getByAlias.bind fun _ => ?_
  exact .pure _

theorem issues_resumeWithLease {project : StoredProject} {inspection : ContinuityInspection}
    {lease : AuthorityLease} : (resumeWithLease project inspection lease).Issues Sound := by
  refine .tryCatch (.request trivial fun packaged => ?_) fun error => ?_
  · cases packaged with
    | error error => exact .throw _
    | ok packaged =>
      simp only [Program.bind_eq]
      refine (Program.Issues.embed (issues_updateOperationalState trivial)).bind fun _ => ?_
      refine .request trivial fun answer => ?_
      cases answer with
      | error error => exact .throw _
      | ok _ => exact issues_recordActiveAlias.bind fun _ => .pure _
  · refine .request trivial fun ended => .request trivial fun _ => ?_
    cases ended with
    | ok _ => exact .throw _
    | error rollbackError =>
      dsimp only
      split
      · exact .throw _
      · exact .throw _

theorem issues_resumeProject {input : ProjectResumeInput} :
    (resumeProject unicode input).Issues Sound := by
  simp only [resumeProject, Program.bind_eq]
  refine issues_ofStore_getByAlias.bind fun project => ?_
  refine issues_canonicalizeProjectRoots.bind fun roots => ?_
  split
  · exact .throw _
  refine issues_verifyIdentity.bind fun inspection => .request trivial fun answer => ?_
  cases answer with
  | error error => exact .throw _
  | ok lease => exact issues_resumeWithLease

theorem issues_serviceProgram (call : ServiceCall) : (call.program unicode).Issues Sound := by
  cases call with
  | rebind input => exact issues_rebindProject.bind fun _ => .pure _
  | checkpoint input => exact issues_checkpointProject.bind fun _ => .pure _
  | resume input => exact issues_resumeProject.bind fun _ => .pure _

end Issues

/-! ## One step -/

/-- A rebind was committed by a call that had read the project after every earlier rebind. -/
def OrderedRebinds (database : Database ι) : Prop :=
  ∀ newer commit older, database.commits = newer ++ commit :: older → commit.kind = .rebound →
    ∃ seen, database.started commit.call = some seen ∧ seen <:+ older ∧
      ∀ earlier ∈ older, earlier.kind = .rebound → earlier.projectId = commit.projectId →
        earlier ∈ seen

/-- What a call has read when it started is still in the record. -/
def ReadsKept (database : Database ι) : Prop :=
  ∀ i seen, database.started i = some seen → seen <:+ database.commits

structure RunInv (unicode : CharacterDatabase) (calls : ι → ServiceCall)
    (c : ServiceConfiguration ι) : Prop where
  issues : ∀ i, (c.1 i).Issues Sound
  attached : Attached c.2.tables
  begun : ∀ i, c.1 i = (calls i).program unicode ∨ c.2.started i ≠ none
  reads : ReadsKept c.2
  rebinds : OrderedRebinds c.2

section NoteRead

variable {database : Database ι} {i j : ι} {seen : List (Commit ι)}

theorem started_noteRead_of_some (h : database.started j = some seen) :
    (database.noteRead i).started j = some seen := by
  unfold Database.noteRead
  split
  · exact h
  next hnone =>
    by_cases hij : j = i
    · rw [hij, hnone] at h
      cases h
    · exact (Function.update_of_ne hij _ _).trans h

theorem started_noteRead_ne_none : (database.noteRead i).started i ≠ none := by
  unfold Database.noteRead
  split
  next h => simp [h]
  next => simp

theorem started_of_noteRead (h : (database.noteRead i).started j = some seen) :
    database.started j = some seen ∨ seen = database.commits := by
  unfold Database.noteRead at h
  split at h
  · exact .inl h
  · dsimp only at h
    by_cases hij : j = i
    · subst hij
      rw [Function.update_self] at h
      exact .inr (Option.some.inj h).symm
    · rw [Function.update_of_ne hij] at h
      exact .inl h

theorem readsKept_noteRead (h : ReadsKept database) : ReadsKept (database.noteRead i) := by
  intro j seen hj
  rw [Database.noteRead_commits]
  obtain hj | rfl := started_of_noteRead hj
  · exact h j seen hj
  · exact List.suffix_refl _

theorem orderedRebinds_noteRead (h : OrderedRebinds database) :
    OrderedRebinds (database.noteRead i) := by
  intro newer commit older hcommits hkind
  rw [Database.noteRead_commits] at hcommits
  obtain ⟨seen, hseen, hrest⟩ := h newer commit older hcommits hkind
  exact ⟨seen, started_noteRead_of_some hseen, hrest⟩

end NoteRead

section Commit

variable {database : Database ι} {tables : Tables} {commit : Commit ι}

omit [DecidableEq ι] in
theorem readsKept_commit (h : ReadsKept database) :
    ReadsKept { database with tables, commits := commit :: database.commits } :=
  fun j seen hj => (h j seen hj).trans (List.suffix_cons _ _)

omit [DecidableEq ι] in
theorem orderedRebinds_commit (h : OrderedRebinds database)
    (hcommit : commit.kind = .rebound → ∃ seen, database.started commit.call = some seen ∧
      seen <:+ database.commits ∧ ∀ earlier ∈ database.commits, earlier.kind = .rebound →
        earlier.projectId = commit.projectId → earlier ∈ seen) :
    OrderedRebinds { database with tables, commits := commit :: database.commits } := by
  intro newer commit' older hcommits hkind
  cases newer with
  | nil =>
    obtain ⟨rfl, rfl⟩ := List.cons.inj hcommits
    exact hcommit hkind
  | cons first newer => exact h newer commit' older (List.cons.inj hcommits).2 hkind

end Commit

theorem attached_updateWorktree (tables : Tables) {projectId path : String}
    {change : WorktreeRow → WorktreeRow} (h : Attached tables)
    (hattached : AttachedTo tables projectId path)
    (hpath : ∀ w, (change w).inspectedPath = path)
    (hkept : ∀ w, (change w).worktree = w.worktree) :
    Attached (updateWorktree projectId change tables) := by
  intro w hw
  obtain ⟨row, hrow, rfl⟩ := List.mem_map.mp hw
  split
  next hid => rw [hpath, hkept, hattached row hrow hid]
  next => exact h row hrow

theorem attached_of_updateWorktree (tables : Tables) {projectId path : String}
    {change : WorktreeRow → WorktreeRow}
    (h : Attached (updateWorktree projectId change tables))
    (hpath : ∀ w, (change w).inspectedPath = path)
    (hkept : ∀ w, (change w).worktree = w.worktree) : AttachedTo tables projectId path := by
  intro w hw hid
  have hchanged := h (change w) (List.mem_map.mpr ⟨w, hw, if_pos hid⟩)
  rw [hpath, hkept] at hchanged
  exact hchanged.symm

theorem attached_rebind {tables tables' : Tables} {input : RebindProjectRecord}
    {timestamp : String} (h : Attached tables)
    (hsound : input.inspectedPath = input.worktree.canonicalPath)
    (hresult : rebindTransaction input timestamp tables = .ok tables') : Attached tables' := by
  obtain ⟨-, -, rfl⟩ := rebindTransaction_eq_ok hresult
  intro w hw
  obtain ⟨row, hrow, rfl⟩ := List.mem_map.mp hw
  split
  · exact hsound
  · exact h row hrow

theorem program_eq_request (unicode : CharacterDatabase) (call : ServiceCall) :
    ∃ aliasKey k, call.program unicode = .request (.store (.selectByAlias aliasKey)) k := by
  cases call with
  | rebind input => exact ⟨_, _, rfl⟩
  | checkpoint input => exact ⟨_, _, rfl⟩
  | resume input => exact ⟨_, _, rfl⟩

/-- What an operation of a call does to the database. -/
inductive Effect (i : ι) (database : Database ι) : ServiceOp → Database ι → Prop where
  | silent {o : ServiceOp} (ho : ∀ aliasKey, o ≠ .store (.selectByAlias aliasKey)) :
      Effect i database o database
  | read (aliasKey : String) :
      Effect i database (.store (.selectByAlias aliasKey)) (database.noteRead i)
  | rebind {input : RebindProjectRecord} {timestamp : String} {tables : Tables}
      (hresult : rebindTransaction input timestamp database.tables = .ok tables) :
      Effect i database (.store (.rebind input timestamp))
        { database with tables, commits := ⟨i, input.projectId, .rebound⟩ :: database.commits }
  | checkpoint {input : CheckpointProjectRecord} {timestamp : String} {version : ℕ}
      {tables : Tables}
      (hresult : checkpointTransaction input timestamp database.tables = .ok (version, tables)) :
      Effect i database (.store (.checkpoint input timestamp))
        { database with
          tables
          commits := ⟨i, input.projectId, .checkpointed (input.expectedRecordVersion + 1)⟩ ::
            database.commits }
  | update (projectId : String) (localState : ContinuityLocalState)
      (publishedState : ContinuityPublishedState) (inspectedPath : String) :
      Effect i database (.store (.updateState projectId localState publishedState inspectedPath))
        { database with
          tables := (updateStateStatement projectId localState publishedState inspectedPath
            database.tables).2
          commits := ⟨i, projectId, .updated⟩ :: database.commits }

theorem effect_of_exec {i : ι} {database later : Database ι} {o : ServiceOp} {r : o.Res}
    (hsound : Sound o) (h : serviceExec i o database r later) : Effect i database o later := by
  cases o with
  | ask query =>
    obtain rfl := serviceExec_ask h
    exact .silent fun _ => by simp
  | store o =>
    have h := serviceExec_store h
    cases o with
    | isoDate =>
      obtain rfl := storeExec_isoDate h
      exact .silent fun _ => by simp
    | selectByAlias aliasKey =>
      obtain ⟨-, rfl⟩ := storeExec_selectByAlias h
      exact .read aliasKey
    | selectRecord projectId version =>
      obtain ⟨-, rfl⟩ := storeExec_selectRecord h
      exact .silent fun _ => by simp
    | register input aliasKey timestamp => exact hsound.elim
    | rebind input timestamp =>
      obtain ⟨error, -, rfl⟩ | ⟨tables, hresult, -, rfl⟩ := storeExec_rebind h
      · exact .silent fun _ => by simp
      · exact .rebind hresult
    | checkpoint input timestamp =>
      obtain ⟨error, -, rfl, -⟩ | ⟨version, tables, hresult, -, rfl⟩ := storeExec_checkpoint h
      · exact .silent fun _ => by simp
      · exact .checkpoint hresult
    | updateState projectId localState publishedState inspectedPath =>
      obtain ⟨error, -, rfl⟩ | ⟨-, rfl⟩ := storeExec_updateState h
      · exact .silent fun _ => by simp
      · exact .update _ _ _ _

section Step

variable {unicode : CharacterDatabase} {calls : ι → ServiceCall} {c c' : ServiceConfiguration ι}
  {i : ι}

theorem Effect.started_ne_none {database later : Database ι} {o : ServiceOp} {j : ι}
    (h : Effect i database o later) (hstarted : database.started j ≠ none) :
    later.started j ≠ none := by
  obtain ⟨seen, hseen⟩ := Option.ne_none_iff_exists'.mp hstarted
  cases h with
  | silent => exact hstarted
  | read aliasKey =>
    rw [started_noteRead_of_some hseen]
    exact Option.some_ne_none seen
  | rebind => exact hstarted
  | checkpoint => exact hstarted
  | update => exact hstarted

theorem Effect.readsKept {database later : Database ι} {o : ServiceOp}
    (h : Effect i database o later) (hreads : ReadsKept database) : ReadsKept later := by
  cases h with
  | silent => exact hreads
  | read aliasKey => exact readsKept_noteRead hreads
  | rebind => exact readsKept_commit hreads
  | checkpoint => exact readsKept_commit hreads
  | update => exact readsKept_commit hreads

theorem RunInv.step (hinv : RunInv unicode calls c) (hconforming : Conforming c i)
    (hstep : Pool.Step serviceExec i c c') : RunInv unicode calls c' := by
  have hissues := hstep.issues (fun _ => Sound) hinv.issues
  cases hstep with
  | @intro pool database o k r later hpool hexec =>
    have hsound : Sound o := by
      have hi := hinv.issues i
      rw [show (pool, database).1 i = _ from hpool] at hi
      cases hi with
      | request ho _ => exact ho
    have heffect := effect_of_exec hsound hexec
    refine ⟨hissues, ?_, fun j => ?_, heffect.readsKept hinv.reads, ?_⟩
    · -- the state of a worktree is written only while the project is attached to it
      cases heffect with
      | silent => exact hinv.attached
      | read aliasKey =>
        show Attached (database.noteRead i).tables
        rw [Database.noteRead_tables]
        exact hinv.attached
      | rebind hresult => exact attached_rebind hinv.attached hsound hresult
      | checkpoint hresult =>
        obtain ⟨hcurrent, -, rfl⟩ := checkpointTransaction_eq_ok hresult
        exact attached_updateWorktree { database.tables with records := _ }
          hinv.attached (hconforming.1.1 _ _ k hpool hcurrent) (fun _ => rfl) fun _ => rfl
      | update projectId localState publishedState inspectedPath =>
        exact attached_updateWorktree _ hinv.attached (hconforming.1.2 _ _ _ _ k hpool)
          (fun _ => rfl) fun _ => rfl
    · obtain hj | hj := hinv.begun j
      · by_cases hij : j = i
        · -- its first operation was the read
          subst hij
          obtain ⟨aliasKey, k', hprogram⟩ := program_eq_request unicode (calls j)
          rw [show (pool, database).1 j = _ from hpool, hprogram] at hj
          obtain ⟨rfl, -⟩ := Program.request.inj hj
          refine .inr ?_
          cases heffect with
          | silent ho => exact absurd rfl (ho aliasKey)
          | read => exact started_noteRead_ne_none
        · refine .inl ?_
          show Function.update pool i (k r) j = _
          rw [Function.update_of_ne hij]
          exact hj
      · exact .inr (heffect.started_ne_none hj)
    · cases heffect with
      | silent => exact hinv.rebinds
      | read aliasKey => exact orderedRebinds_noteRead hinv.rebinds
      | checkpoint => exact orderedRebinds_commit hinv.rebinds fun h => by cases h
      | update => exact orderedRebinds_commit hinv.rebinds fun h => by cases h
      | @rebind input timestamp tables hresult =>
        refine orderedRebinds_commit hinv.rebinds fun _ => ?_
        -- the call has read the project, and every rebind since then would not conform
        have hbegun : database.started i ≠ none := by
          obtain hi | hi := hinv.begun i
          · obtain ⟨aliasKey, k', hprogram⟩ := program_eq_request unicode (calls i)
            rw [show (pool, database).1 i = _ from hpool, hprogram] at hi
            exact absurd (Program.request.inj hi).1 (by simp)
          · exact hi
        obtain ⟨seen, hseen⟩ := Option.ne_none_iff_exists'.mp hbegun
        refine ⟨seen, hseen, hinv.reads i seen hseen, fun earlier hearlier hkind hproject => ?_⟩
        by_contra hnew
        exact hconforming.2 input timestamp k hpool (rebindTransaction_eq_ok hresult).1
          ⟨seen, hseen, earlier, hearlier, hkind, hproject, hnew⟩

theorem stillAttached_of_step (hissues : ∀ j, (c.1 j).Issues Sound)
    (hstep : Pool.Step serviceExec i c c') (hcommit : c'.2.commits ≠ c.2.commits)
    (hafter : Attached c'.2.tables) : StillAttached c i := by
  cases hstep with
  | @intro pool database o k r later hpool hexec =>
    have hsound : Sound o := by
      have hi := hissues i
      rw [show (pool, database).1 i = _ from hpool] at hi
      cases hi with
      | request ho _ => exact ho
    have hsame : ∀ {o' : ServiceOp} {k' : o'.Res → ServiceM ServiceResult},
        pool i = .request o' k' → o = o' := fun h => (Program.request.inj (hpool.symm.trans h)).1
    refine ⟨fun input timestamp k' h _ => ?_,
      fun projectId localState publishedState inspectedPath k' h => ?_⟩
    · obtain rfl := hsame h
      cases effect_of_exec hsound hexec with
      | silent => exact absurd rfl hcommit
      | checkpoint hresult =>
        obtain ⟨-, -, rfl⟩ := checkpointTransaction_eq_ok hresult
        exact attached_of_updateWorktree { database.tables with records := _ } hafter
          (fun _ => rfl) fun _ => rfl
    · obtain rfl := hsame h
      cases effect_of_exec hsound hexec with
      | silent => exact absurd rfl hcommit
      | update => exact attached_of_updateWorktree _ hafter (fun _ => rfl) fun _ => rfl

end Step

/-! ## All runs -/

section

omit [DecidableEq ι]

theorem exists_oldest {a : Commit ι} {l : List (Commit ι)} (h : a ∈ l) :
    ∃ newer older, l = newer ++ a :: older ∧ a ∉ older := by
  obtain ⟨older, newer, hl, hnot⟩ := List.eq_append_cons_of_mem (List.mem_reverse.mpr h)
  refine ⟨newer.reverse, older.reverse, ?_, by simpa using hnot⟩
  rw [← List.reverse_reverse l, hl]
  simp

theorem stateAtStart_ne {database : Database ι} (h : OrderedRebinds database) {i j : ι}
    {projectId : String} {newer older newer' older' : List (Commit ι)}
    (hi : database.commits = newer ++ ⟨i, projectId, .rebound⟩ :: older)
    (hj : database.commits = newer' ++ ⟨j, projectId, .rebound⟩ :: older')
    (hoccurs : ⟨j, projectId, .rebound⟩ ∈ older) (honce : ⟨j, projectId, .rebound⟩ ∉ older') :
    database.stateAtStart i projectId ≠ database.stateAtStart j projectId := by
  obtain ⟨seen, hseen, -, hall⟩ := h _ _ _ hi rfl
  obtain ⟨seen', hseen', hsuffix, -⟩ := h _ _ _ hj rfl
  intro hsame
  simp only [Database.stateAtStart, hseen, hseen', Option.map_some, Option.some.injEq] at hsame
  have hmem : (⟨j, projectId, .rebound⟩ : Commit ι) ∈
      seen.filter (·.projectId = projectId) :=
    List.mem_filter.mpr ⟨hall _ hoccurs rfl rfl, by simp⟩
  rw [hsame] at hmem
  exact honce (hsuffix.subset (List.mem_filter.mp hmem).1)

theorem exclusive_of_ordered {database : Database ι} (h : OrderedRebinds database) :
    ExclusiveRebinds database := by
  intro i j projectId hij hi hj
  have hne : (⟨i, projectId, .rebound⟩ : Commit ι) ≠ ⟨j, projectId, .rebound⟩ := fun he =>
    hij (congrArg Commit.call he)
  obtain ⟨newer, older, heq, honce⟩ := exists_oldest hi
  obtain ⟨newer', older', heq', honce'⟩ := exists_oldest hj
  -- one of the two stands before the other
  obtain ⟨between, -, hrest⟩ | ⟨between, -, hrest⟩ :=
    List.append_eq_append_iff.mp (heq.symm.trans heq')
  · cases between with
    | nil => exact absurd (List.cons.inj hrest).1 hne
    | cons first between =>
      have hoccurs : (⟨j, projectId, .rebound⟩ : Commit ι) ∈ older := by
        rw [(List.cons.inj hrest).2]
        exact List.mem_append_right _ List.mem_cons_self
      exact stateAtStart_ne h heq heq' hoccurs honce'
  · cases between with
    | nil => exact absurd (List.cons.inj hrest).1.symm hne
    | cons first between =>
      have hoccurs : (⟨i, projectId, .rebound⟩ : Commit ι) ∈ older' := by
        rw [(List.cons.inj hrest).2]
        exact List.mem_append_right _ List.mem_cons_self
      exact (stateAtStart_ne h heq' heq hoccurs honce).symm

end

section Runs

variable {unicode : CharacterDatabase} {calls : ι → ServiceCall} {c : ServiceConfiguration ι}
  {start : Database ι}

theorem runInv_of_run (hattached : Attached start.tables) (hcommits : start.commits = [])
    (hstarted : ∀ i, start.started i = none)
    (hrun : Pool.Run serviceExec Conforming (servicePrograms unicode calls, start) c) :
    RunInv unicode calls c := by
  induction hrun with
  | refl =>
    refine ⟨fun i => issues_serviceProgram (calls i), hattached, fun i => .inl rfl, ?_, ?_⟩
    · intro i seen hseen
      rw [show (servicePrograms unicode calls, start).2.started i = none from hstarted i] at hseen
      cases hseen
    · intro newer commit older h
      rw [show (servicePrograms unicode calls, start).2.commits = [] from hcommits] at h
      simp at h
  | step _ hconforming hstep ih => exact ih.step hconforming hstep

/-- In every run of `rebind`, `checkpoint` and `resume` whose steps conform, the stored states
have been seen in the stored worktrees, and of two rebinds that started from one state of a
project at most one has succeeded; and a transaction that keeps the first of the two has written
the state of a worktree that the project was still attached to. -/
theorem attached_of_conforming (hattached : Attached start.tables) (hcommits : start.commits = [])
    (hstarted : ∀ i, start.started i = none)
    (hrun : Pool.Run serviceExec Conforming (servicePrograms unicode calls, start) c) :
    Attached c.2.tables ∧ ExclusiveRebinds c.2 ∧
    ∀ i c', Pool.Step serviceExec i c c' → c'.2.commits ≠ c.2.commits → Attached c'.2.tables →
      StillAttached c i := by
  have hinv := runInv_of_run hattached hcommits hstarted hrun
  refine ⟨hinv.attached, exclusive_of_ordered hinv.rebinds, fun i c' hstep hcommit hafter => ?_⟩
  exact stillAttached_of_step hinv.issues hstep hcommit hafter

end Runs

/-! ## A rebind during a resume -/

section Example

/-- A project attached to `/a`. -/
def attachedToA : Database Bool where
  tables :=
    { projects := [⟨"p", "A", "a", ["/"], 1, "t", "t"⟩]
      worktrees := [⟨"p", worktreeAt "/a", localStateOf "a", unverifiedState, "t", "/a"⟩]
      records := [⟨"p", 1, semanticOf "g", "t"⟩] }
  commits := []
  started _ := none

/-- One call moves the project to `/b`, the other one resumes it. -/
def rebindAndResume : Bool → ServiceCall
  | true => .rebind ⟨"A", "/b", 1, none⟩
  | false => .resume ⟨"A", none⟩

/-- The answers about a worktree that is on the branch named like it. -/
def answersAt (path branch : String) : (query : Query) → query.Res
  | .canonicalizeProjectRoots roots => .ok roots
  | .realpath _ => .ok path
  | .inspect _ _ => .ok ⟨worktreeAt path, localStateOf branch, unverifiedState⟩
  | .gitDirectory _ _ => .ok ()
  | .resolveLease _ => .ok []
  | .startLease roots _ => .ok ⟨"l", roots, "t"⟩
  | .endLease _ => .ok ()
  | .flushAudit => ()
  | .packageBuilder _ _ => .ok ⟨"", false, true⟩
  | .registerResume _ _ => .ok ()
  | .onActive _ => .ok ()

def rebindMoves : List (Bool × ServiceChoice) :=
  [.store .done, .answers (answersAt "/b" "b"), .answers (answersAt "/b" "b"),
    .answers (answersAt "/b" "b"), .store (.date (some "t")), .store .done,
    .answers (answersAt "/b" "b"), .store .done].map fun choice => (true, choice)

/-- The moves of a resume up to the update of the stored state, and the rest of them. -/
def inspectMoves (path branch : String) : List (Bool × ServiceChoice) :=
  (.store .done :: List.replicate 6 (.answers (answersAt path branch))).map fun choice =>
    (false, choice)

def updateMoves : List (Bool × ServiceChoice) :=
  [.store .done, .answers (answersAt "" ""), .answers (answersAt "" "")].map fun choice =>
    (false, choice)

def succeeded : ServiceM ServiceResult → Bool
  | .pure _ => true
  | _ => false

/-- A test that implies `Conforming`. -/
def conforms (c : ServiceConfiguration Bool) (i : Bool) : Bool :=
  match c.1 i with
  | .request (.store (.checkpoint input _)) _ => c.2.tables.worktrees.all fun w =>
    w.projectId ≠ input.projectId || w.worktree.canonicalPath = input.inspectedPath
  | .request (.store (.updateState projectId _ _ path)) _ => c.2.tables.worktrees.all fun w =>
    w.projectId ≠ projectId || w.worktree.canonicalPath = path
  | .request (.store (.rebind _ _)) _ => c.2.commits.all fun commit => commit.kind ≠ .rebound
  | _ => true

theorem conforming_of_conforms (c : ServiceConfiguration Bool) (i : Bool)
    (h : conforms c i = true) : Conforming c i := by
  have hattached : ∀ {projectId path : String},
      (c.2.tables.worktrees.all fun w =>
        w.projectId ≠ projectId || w.worktree.canonicalPath = path) = true →
      AttachedTo c.2.tables projectId path := by
    intro projectId path hall w hw hid
    simpa [hid] using List.all_eq_true.mp hall w hw
  unfold conforms at h
  refine ⟨⟨fun input timestamp k hnext _ => ?_, fun projectId _ _ path k hnext => ?_⟩,
    fun input timestamp k hnext _ => ?_⟩
  · rw [hnext] at h
    exact hattached h
  · rw [hnext] at h
    exact hattached h
  · rw [hnext] at h
    rintro ⟨seen, -, commit, hcommit, hkind, -⟩
    exact absurd hkind (by simpa using List.all_eq_true.mp h commit hcommit)

/-- A rebind to `/b`, and after it a resume there. -/
theorem attached_of_conforming_sequential : ∃ c,
    Pool.Run serviceExec Conforming
      (servicePrograms plainCharacters rebindAndResume, attachedToA) c ∧
    (∀ i, succeeded (c.1 i) = true) ∧ Attached c.2.tables ∧ ExclusiveRebinds c.2 := by
  have hfinal : (Pool.scheduleIf conforms ServiceOp.apply
      (rebindMoves ++ inspectMoves "/b" "b" ++ updateMoves)
      (servicePrograms plainCharacters rebindAndResume, attachedToA)).map (fun c =>
        (succeeded (c.1 true), succeeded (c.1 false))) = some (true, true) := by
    decide +kernel
  obtain ⟨c, hc, houtcomes⟩ := Option.map_eq_some_iff.mp hfinal
  obtain ⟨hrebind, hresume⟩ := Prod.mk.inj houtcomes
  have hrun : Pool.Run serviceExec Conforming _ c := Pool.run_of_scheduleIf
    conforming_of_conforms (fun x _ _ _ _ _ hx => ⟨x, hx⟩) _ (.refl _) hc
  have hattached : Attached attachedToA.tables := by
    intro w hw
    obtain rfl := List.mem_singleton.mp hw
    rfl
  have hkept := attached_of_conforming hattached rfl (fun _ => rfl) hrun
  refine ⟨c, hrun, fun i => ?_, hkept.1, hkept.2.1⟩
  cases i with
  | false => exact hresume
  | true => exact hrebind

/-- A resume that has inspected `/a` writes its state after a rebind to `/b`. -/
theorem resume_overwrites_rebind : ∃ c,
    Pool.Run serviceExec (fun _ _ => True)
      (servicePrograms plainCharacters rebindAndResume, attachedToA) c ∧
    (∀ i, succeeded (c.1 i) = true) ∧
    c.2.tables.worktrees =
      [⟨"p", worktreeAt "/b", localStateOf "a", unverifiedState, "t", "/a"⟩] ∧
    ¬ Attached c.2.tables := by
  have hfinal : (Pool.schedule ServiceOp.apply
      (inspectMoves "/a" "a" ++ rebindMoves ++ updateMoves)
      (servicePrograms plainCharacters rebindAndResume, attachedToA)).map (fun c =>
        (succeeded (c.1 true), succeeded (c.1 false), c.2.tables.worktrees)) =
      some (true, true,
        [⟨"p", worktreeAt "/b", localStateOf "a", unverifiedState, "t", "/a"⟩]) := by
    decide +kernel
  obtain ⟨c, hc, houtcomes⟩ := Option.map_eq_some_iff.mp hfinal
  obtain ⟨hrebind, hresume, hworktrees⟩ : _ ∧ _ ∧ _ := by
    simpa only [Prod.mk.injEq] using houtcomes
  refine ⟨c, Pool.run_of_schedule (fun x _ _ _ _ _ hx => ⟨x, hx⟩) _ (.refl _) hc,
    fun i => ?_, hworktrees, fun hattached => ?_⟩
  · cases i with
    | false => exact hresume
    | true => exact hrebind
  · have hpath := hattached ⟨"p", worktreeAt "/b", localStateOf "a", unverifiedState, "t", "/a"⟩
      (by rw [hworktrees]; exact List.mem_cons_self)
    exact absurd hpath (by decide)

end Example

end Continuity
