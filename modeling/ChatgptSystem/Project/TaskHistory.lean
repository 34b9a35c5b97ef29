import ChatgptSystem.Project.TaskStateRun
import Mathlib.Data.List.Nodup
import Mathlib.Data.List.Pairwise
import Mathlib.Logic.Basic
import Mathlib.Tactic.Use

/-!
# The records under concurrent calls

Any number of calls work on the records at the same time.

* `Task` — what a task has been through: its checkpoints, each numbered by the change that brought
  it, and whether it has ended; `Represents` — the record of a task;
* `Inv`, `taskProtocol` — what holds in every state, and what the calls leave to each other;
* `wp_persist`, `wp_withPathLock`, `wp_program` — every call keeps the protocol;
* `records_correct` — the records in every interleaving.
-/

open Interleaving
open ProjectCheckService (RepositoryStateObservation)

namespace TaskState

/-! ## Tasks -/

structure Task where
  checkpoints : List Json
  ended : Bool
  /-- The first change is the one after the start, which has the number `1`. -/
  numbered : checkpoints.map revision = (List.range checkpoints.length).map fun k : ℕ => (k : ℤ) + 2

namespace Task

def revision (task : Task) : ℤ := 1 + task.checkpoints.length + if task.ended then 1 else 0

def new : Task := ⟨[], false, rfl⟩

def append (task : Task) (checkpoint : Json)
    (h : TaskState.revision checkpoint = 1 + task.checkpoints.length + 1) : Task where
  checkpoints := task.checkpoints ++ [checkpoint]
  ended := false
  numbered := by
    rw [List.map_append, task.numbered, List.length_append, List.length_singleton, List.range_succ,
      List.map_append, List.map_singleton, List.map_singleton, h]
    congr 2
    omega

def finish (task : Task) : Task := { task with ended := true }

theorem increasing (task : Task) :
    (task.checkpoints.map TaskState.revision).Pairwise (· < ·) := by
  rw [task.numbered, List.pairwise_map]
  exact List.pairwise_lt_range.imp fun h => by omega

end Task

structure Represents (record : StoredTaskState) (task : Task) : Prop where
  status : if task.ended then status record = some "completed" ∨ status record = some "failed"
    else status record = some "active"
  revision : TaskState.revision (.object record) = task.revision
  checkpoints : member record "checkpoints" = some (.array task.checkpoints)

variable {record : StoredTaskState} {file : RecordFile} {observation : RepositoryStateObservation}

theorem Represents.checkpoints_eq {task : Task} (h : Represents record task) :
    TaskState.checkpoints record = task.checkpoints := by
  rw [TaskState.checkpoints, h.checkpoints]
  rfl

theorem Represents.running {task : Task} (h : Represents record task)
    (hactive : TaskState.status record = some "active") : task.ended = false := by
  have hstatus := h.status
  cases hended : task.ended with
  | false => rfl
  | true =>
    rw [hended, if_pos rfl, hactive] at hstatus
    simp at hstatus

/-- The record of a task that `load` accepts from a file. -/
structure Sound (file : RecordFile) (record : StoredTaskState) : Prop where
  valid : validStoredRecord record file.taskId file.projectFingerprint = true
  represents : ∃ task, Represents record task

theorem Sound.taskIdOf (h : Sound file record) : TaskState.taskIdOf record = file.taskId := by
  rw [TaskState.taskIdOf, (validStoredRecord_iff.mp h.valid).taskId]
  rfl

theorem sound_start {now taskId goal : String} {nextStep : Option String}
    (h : startRecord observation now taskId goal nextStep = .ok record) :
    checkpoints record = [] ∧ Sound ⟨observation.projectFingerprint, taskId⟩ record := by
  obtain ⟨goal, -, h⟩ := Except.bind_eq_ok h
  obtain ⟨nextStep, -, h⟩ := Except.bind_eq_ok h
  cases h
  have hvalid : Valid (newRecord observation now taskId goal nextStep) taskId
      observation.projectFingerprint := by
    have htexts : ∀ name ∈ textMembers,
        isText (newRecord observation now taskId goal nextStep) name = true := by
      simp only [textMembers, List.forall_mem_cons]
      cases nextStep <;> exact ⟨rfl, rfl, rfl, rfl, rfl, rfl, rfl, List.forall_mem_nil _⟩
    cases nextStep <;>
      exact ⟨rfl, rfl, List.mem_cons_self, Int.le_refl 1, htexts, rfl, Nat.zero_le _⟩
  refine ⟨?_, validStoredRecord_iff.mpr hvalid, .new, ?_, ?_, ?_⟩ <;> cases nextStep <;> rfl

theorem revision_newCheckpoint {now : String} {n : ℤ} {input : TaskCheckpointInput}
    {new : Json × Option String} (h : newCheckpoint observation now n input = .ok new) :
    revision new.1 = n := by
  obtain ⟨summary, -, h⟩ := Except.bind_eq_ok h
  obtain ⟨findings, -, h⟩ := Except.bind_eq_ok h
  obtain ⟨decisions, -, h⟩ := Except.bind_eq_ok h
  obtain ⟨inspectedFiles, -, h⟩ := Except.bind_eq_ok h
  obtain ⟨modifiedFiles, -, h⟩ := Except.bind_eq_ok h
  obtain ⟨nextStep, -, h⟩ := Except.bind_eq_ok h
  obtain ⟨evidenceRefs, -, h⟩ := Except.bind_eq_ok h
  cases h
  cases nextStep <;> rfl

theorem sound_checkpoint {now : String} {input : TaskCheckpointInput} {updated : StoredTaskState}
    (hsound : Sound file record) (hactive : status record = some "active")
    (hfew : (checkpoints record).length < MAX_CHECKPOINTS)
    (h : checkpointRecord observation now input record = .ok updated) :
    (∃ checkpoint, checkpoints updated = checkpoints record ++ [checkpoint]) ∧
      Sound file updated := by
  obtain ⟨hvalid, task, htask⟩ := hsound
  obtain ⟨⟨checkpoint, nextStep⟩, hnew, h⟩ := Except.bind_eq_ok h
  cases h
  have hrunning := htask.running hactive
  have hnumber : revision (.object record) + 1 = 1 + task.checkpoints.length + 1 := by
    rw [htask.revision, Task.revision, hrunning]
    simp
  have hrevision : revision checkpoint = 1 + task.checkpoints.length + 1 :=
    (revision_newCheckpoint hnew).trans hnumber
  have hcount : (task.append checkpoint hrevision).revision = 1 + task.checkpoints.length + 1 := by
    simp [Task.revision, Task.append]
    omega
  -- the members of the new record
  generalize hupdates : checkpointUpdates observation now (revision (.object record) + 1) nextStep
    (checkpoints record ++ [checkpoint]) = updates
  have hnewStatus : status (Json.spread record updates) = some "active" := by
    rw [status, member_spread, ← hupdates]
    cases nextStep <;> exact hactive
  have hnewRevision : revision (.object (Json.spread record updates)) =
      revision (.object record) + 1 := by
    rw [revision_eq, member_spread, ← hupdates]
    cases nextStep <;> rfl
  have hcheckpoints : member updates "checkpoints" =
      some (.array (checkpoints record ++ [checkpoint])) := by
    rw [← hupdates]
    cases nextStep <;> rfl
  have hnewCheckpoints : member (Json.spread record updates) "checkpoints" =
      some (.array (checkpoints record ++ [checkpoint])) := by
    rw [member_spread, hcheckpoints]
    rfl
  refine ⟨⟨checkpoint, ?_⟩, validStoredRecord_iff.mpr (Valid.spread (validStoredRecord_iff.mp hvalid)
    ?_ ?_ ?_ ?_ ?_), task.append checkpoint hrevision, hnewStatus, ?_, ?_⟩
  · rw [checkpoints, hnewCheckpoints]
    rfl
  · rw [← hupdates]
    cases nextStep <;> exact ⟨rfl, rfl⟩
  · rw [hnewStatus]
    exact List.mem_cons_self
  · rw [hnewRevision, hnumber]
    omega
  · rw [← hupdates]
    simp only [textMembers, List.forall_mem_cons]
    cases nextStep <;> exact ⟨by rintro _ ⟨⟩, by rintro _ ⟨⟩, by rintro _ ⟨⟩, by rintro _ ⟨⟩; rfl,
      by rintro _ ⟨⟩; rfl, by rintro _ ⟨⟩, by rintro _ ⟨⟩; rfl, List.forall_mem_nil _⟩
  · intro value hvalue
    obtain rfl := Option.some.inj (hvalue.symm.trans hcheckpoints)
    refine ⟨_, rfl, ?_⟩
    rw [List.length_append]
    exact hfew
  · rw [hnewRevision, hcount, hnumber]
  · rw [hnewCheckpoints, htask.checkpoints_eq]
    rfl

theorem sound_terminal {now endStatus summary : String} {evidenceRefs : Option (List String)}
    {updated : StoredTaskState} (hend : endStatus = "completed" ∨ endStatus = "failed")
    (hsound : Sound file record) (hactive : status record = some "active")
    (h : terminalRecord observation now endStatus summary evidenceRefs record = .ok updated) :
    checkpoints updated = checkpoints record ∧ Sound file updated := by
  obtain ⟨hvalid, task, htask⟩ := hsound
  obtain ⟨summary, -, h⟩ := Except.bind_eq_ok h
  obtain ⟨evidenceRefs, -, h⟩ := Except.bind_eq_ok h
  cases h
  have hrunning := htask.running hactive
  generalize hupdates : terminalUpdates observation now endStatus (revision (.object record) + 1)
    summary evidenceRefs = updates
  have hnewStatus : status (Json.spread record updates) = some endStatus := by
    rw [status, member_spread, ← hupdates]
    rfl
  have hnewRevision : revision (.object (Json.spread record updates)) =
      revision (.object record) + 1 := by
    rw [revision_eq, member_spread, ← hupdates]
    rfl
  have hcheckpoints : member updates "checkpoints" = none := by
    rw [← hupdates]
    rfl
  have hcount : task.finish.revision = revision (.object record) + 1 := by
    rw [htask.revision, Task.revision, Task.revision, hrunning]
    simp [Task.finish]
  have hpositive := (validStoredRecord_iff.mp hvalid).revision
  refine ⟨?_, validStoredRecord_iff.mpr (Valid.spread (validStoredRecord_iff.mp hvalid)
    ?_ ?_ ?_ ?_ ?_), task.finish, ?_, hnewRevision.trans hcount.symm, ?_⟩
  · rw [checkpoints, checkpoints, member_spread, hcheckpoints]
    rfl
  · rw [← hupdates]
    exact ⟨rfl, rfl⟩
  · rw [hnewStatus]
    rcases hend with rfl | rfl <;> decide
  · rw [hnewRevision]
    omega
  · rw [← hupdates]
    simp only [textMembers, List.forall_mem_cons]
    exact ⟨by rintro _ ⟨⟩, by rintro _ ⟨⟩, by rintro _ ⟨⟩, by rintro _ ⟨⟩; rfl,
      by rintro _ ⟨⟩; rfl, by rintro _ ⟨⟩, by rintro _ ⟨⟩; rfl, List.forall_mem_nil _⟩
  · intro value hvalue
    rw [hcheckpoints] at hvalue
    cases hvalue
  · rw [hnewStatus]
    show some endStatus = some "completed" ∨ some endStatus = some "failed"
    rwa [Option.some_inj, Option.some_inj]
  · rw [member_spread, hcheckpoints]
    exact htask.checkpoints

/-! ## Histories -/

def checkpointsOf : Option Bytes → List Json
  | some bytes =>
    match Json.parse (Text.decode bytes) with
    | some (.object record) => checkpoints record
    | _ => []
  | none => []

@[simp] theorem checkpointsOf_recordText (record : StoredTaskState) :
    checkpointsOf (some (recordText record)) = checkpoints record := by
  rw [checkpointsOf, recordText, Text.decode_encode, Json.parse_stringify _ _ (by decide)]

def TaskCall.isCheckpoint : TaskCall → Bool
  | .checkpoint _ _ _ => true
  | _ => false

variable {ι : Type}

/-- The checkpoint that a file has gained, if a checkpoint call has put it in place. -/
def gained (calls : ι → TaskCall) (effect : Effect ι) : List (ι × Json) :=
  if (calls effect.call).isCheckpoint then
    (checkpointsOf (some effect.content)).getLast?.toList.map fun c => (effect.call, c)
  else []

/-- The checkpoints of a record that the calls of this process have brought, in the order in which
their files were put in place, each with its call. -/
def taken (calls : ι → TaskCall) (disk : Disk ι) (file : RecordFile) : List (ι × Json) :=
  (disk.effects.filter (·.file = file)).flatMap (gained calls)

theorem taken_sublist (calls : ι → TaskCall) (disk : Disk ι) (file : RecordFile) :
    ((taken calls disk file).map Prod.fst).Sublist (disk.effects.map Effect.call) := by
  have hgained : ∀ effect, ((gained calls effect).map Prod.fst).Sublist [effect.call] := by
    intro effect
    unfold gained
    split
    · cases (checkpointsOf (some effect.content)).getLast? with
      | none => exact List.nil_sublist _
      | some checkpoint => exact .refl _
    · exact List.nil_sublist _
  unfold taken
  induction disk.effects with
  | nil => exact .refl _
  | cons effect effects ih =>
    by_cases hfile : effect.file = file
    · rw [List.filter_cons_of_pos (by simpa using hfile), List.flatMap_cons, List.map_append]
      exact (hgained effect).append ih
    · rw [List.filter_cons_of_neg (by simpa using hfile)]
      exact ih.cons _

/-- A record that `persist` writes: its path is valid, and its text is not too long. -/
structure Storable (file : RecordFile) (record : StoredTaskState) : Prop where
  path : validTaskId file.taskId = true
  size : (recordText record).length ≤ MAX_STATE_BYTES

/-- What holds between two operations. -/
structure Inv (calls : ι → TaskCall) (disk : Disk ι) : Prop where
  locks : disk.locks.Inv
  sound : ∀ file bytes, disk.files file = some bytes →
    ∃ record, bytes = recordText record ∧ Sound file record ∧ Storable file record
  known : ∀ file, disk.files file ≠ none →
    file.taskId ∈ disk.used ∨ file.taskId ∈ disk.drawn.map Prod.fst
  temporary : ∀ file uuid, disk.temporaries file uuid ≠ none →
    uuid ∈ disk.used ∨ uuid ∈ disk.drawn.map Prod.fst
  names : (disk.drawn.map Prod.fst).Nodup
  history : ∀ file, checkpointsOf (disk.files file) =
    checkpointsOf (disk.start file) ++ (taken calls disk file).map Prod.snd
  /-- No call puts two files in place. -/
  once : (disk.effects.map Effect.call).Nodup

theorem Inv.empty (calls : ι → TaskCall) : Inv calls (Disk.empty : Disk ι) where
  locks := .empty
  sound := nofun
  known _ h := absurd rfl h
  temporary _ _ h := absurd rfl h
  names := List.nodup_nil
  history _ := rfl
  once := List.nodup_nil

theorem Inv.restart {calls : ι → TaskCall} {disk : Disk ι} (h : Inv calls disk)
    (calls' : ι → TaskCall) : Inv calls' disk.restart where
  locks := .empty
  sound := h.sound
  known file hfile := .inl (List.mem_append.mpr (h.known file hfile).symm)
  temporary file uuid hfile := .inl (List.mem_append.mpr (h.temporary file uuid hfile).symm)
  names := List.nodup_nil
  history _ := (List.append_nil _).symm
  once := List.nodup_nil

/-! ## The protocol of the calls -/

def Holds (canonical : RecordFile → String) (i : ι) (file : RecordFile) (disk : Disk ι) : Prop :=
  ∃ me, disk.locks.Holds i (canonical file) me

/-- What a call relies on: its promises, its UUIDs and their temporary files, its own effects, the
record whose lock it holds, and the records that only it can create. -/
structure Undisturbed (canonical : RecordFile → String) (i : ι) (disk later : Disk ι) : Prop where
  locks : ChainLock.State.Keeps i disk.locks later.locks
  drawn : ∀ uuid, (uuid, i) ∈ disk.drawn → (uuid, i) ∈ later.drawn
  temporaries : ∀ file uuid, (uuid, i) ∈ disk.drawn →
    later.temporaries file uuid = disk.temporaries file uuid
  effects : ∀ effect : Effect ι, effect.call = i → (effect ∈ later.effects ↔ effect ∈ disk.effects)
  held : ∀ file, Holds canonical i file disk → disk.files file ≠ none →
    later.files file = disk.files file
  created : ∀ file : RecordFile, (file.taskId, i) ∈ disk.drawn → disk.files file = none →
    later.files file = none

structure OwnStep (canonical : RecordFile → String) (i : ι) (disk later : Disk ι) : Prop where
  locks : ∀ j, j ≠ i → ChainLock.State.Keeps j disk.locks later.locks
  drawn : disk.drawn ⊆ later.drawn
  temporaries : ∀ file uuid, (uuid, i) ∉ later.drawn →
    later.temporaries file uuid = disk.temporaries file uuid
  effects : ∀ effect : Effect ι, effect.call ≠ i → (effect ∈ later.effects ↔ effect ∈ disk.effects)
  files : ∀ file, later.files file = disk.files file ∨
    (disk.files file ≠ none ∧ Holds canonical i file disk) ∨
    (disk.files file = none ∧ (file.taskId, i) ∈ disk.drawn)
  start : later.start = disk.start
  grown : disk.effects <+: later.effects
  /-- A record that has ended stays as it is. -/
  ended : ∀ file record, disk.files file = some (recordText record) →
    status record ≠ some "active" → later.files file = disk.files file

theorem OwnStep.refl (canonical : RecordFile → String) (i : ι) (disk : Disk ι) :
    OwnStep canonical i disk disk :=
  ⟨fun _ _ => .refl _ _, fun _ h => h, fun _ _ _ => rfl, fun _ _ => Iff.rfl, fun _ => .inl rfl,
    rfl, List.prefix_rfl, fun _ _ _ _ => rfl⟩

def taskProtocol (canonical : RecordFile → String) (calls : ι → TaskCall) :
    Protocol ι (Disk ι) where
  inv := Inv calls
  rely := Undisturbed canonical
  guar := OwnStep canonical
  rely_refl _ _ := ⟨.refl _ _, fun _ h => h, fun _ _ _ => rfl, fun _ _ => Iff.rfl,
    fun _ _ _ => rfl, fun _ _ h => h⟩
  rely_trans i a b c hab hbc :=
    { locks := hab.locks.trans hbc.locks
      drawn := fun uuid h => hbc.drawn uuid (hab.drawn uuid h)
      temporaries := fun file uuid h =>
        (hbc.temporaries file uuid (hab.drawn uuid h)).trans (hab.temporaries file uuid h)
      effects := fun effect h => (hbc.effects effect h).trans (hab.effects effect h)
      held := fun file hholds hfile => by
        have hsame := hab.held file hholds hfile
        obtain ⟨me, hme⟩ := hholds
        exact (hbc.held file ⟨me, hab.locks.holds hme⟩ (hsame ▸ hfile)).trans hsame
      created := fun file hdrawn hfile =>
        hbc.created file (hab.drawn _ hdrawn) (hab.created file hdrawn hfile) }
  guar_rely := by
    intro i j disk later hij hinv hinv' hown
    -- a UUID belongs to the call that has drawn it
    have hname : ∀ {disk : Disk ι} {uuid : String}, (disk.drawn.map Prod.fst).Nodup →
        (uuid, j) ∈ disk.drawn → (uuid, i) ∉ disk.drawn := fun hnodup hj hi =>
      hij (Prod.mk.inj (List.inj_on_of_nodup_map hnodup hi hj rfl)).2
    refine ⟨hown.locks j (Ne.symm hij), fun uuid h => hown.drawn h, fun file uuid h => ?_,
      fun effect h => hown.effects effect fun h' => hij (h'.symm.trans h), ?_, ?_⟩
    · exact hown.temporaries file uuid (hname hinv'.names (hown.drawn h))
    · rintro file ⟨me, hme⟩ hfile
      rcases hown.files file with hsame | ⟨-, you, hyou⟩ | ⟨hnone, -⟩
      · exact hsame
      · exact absurd (hinv.locks.owner_unique hyou hme) hij
      · exact absurd hnone hfile
    · rintro file hdrawn hfile
      rcases hown.files file with hsame | ⟨hsome, -⟩ | ⟨-, hmine⟩
      · exact hsame.trans hfile
      · exact absurd hfile hsome
      · exact absurd hmine (hname hinv.names hdrawn)

/-- Nothing another call does invalidates the assertion. -/
def Stable (canonical : RecordFile → String) (i : ι) (A : Disk ι → Prop) : Prop :=
  ∀ disk later, A disk → Undisturbed canonical i disk later → A later

theorem Stable.and {canonical : RecordFile → String} {i : ι} {A B : Disk ι → Prop}
    (hA : Stable canonical i A) (hB : Stable canonical i B) :
    Stable canonical i fun disk => A disk ∧ B disk :=
  fun disk later h hrely => ⟨hA disk later h.1 hrely, hB disk later h.2 hrely⟩

def Unsaved (i : ι) (disk : Disk ι) : Prop := ∀ effect ∈ disk.effects, effect.call ≠ i

def Saved (i : ι) (file : RecordFile) (record : StoredTaskState) (disk : Disk ι) : Prop :=
  ⟨i, file, recordText record⟩ ∈ disk.effects

/-- The call may put a new file in the place of this one. -/
def MayWrite (canonical : RecordFile → String) (i : ι) (file : RecordFile) (old : Option Bytes)
    (disk : Disk ι) : Prop :=
  disk.files file = old ∧ ((old ≠ none ∧ Holds canonical i file disk) ∨
    (old = none ∧ (file.taskId, i) ∈ disk.drawn))

section StableAssertions

variable {canonical : RecordFile → String} {i : ι}

theorem stable_unsaved : Stable canonical i (Unsaved i) :=
  fun _ _ h hrely effect heffect hcall => h effect ((hrely.effects effect hcall).mp heffect) hcall

theorem stable_saved {record : StoredTaskState} : Stable canonical i (Saved i file record) :=
  fun _ _ h hrely => (hrely.effects _ rfl).mpr h

theorem stable_holds : Stable canonical i (Holds canonical i file) :=
  fun _ _ ⟨me, hme⟩ hrely => ⟨me, hrely.locks.holds hme⟩

theorem stable_mayWrite {old : Option Bytes} :
    Stable canonical i (MayWrite canonical i file old) := by
  rintro disk later ⟨hfile, hright⟩ hrely
  rcases hright with ⟨hsome, hholds⟩ | ⟨rfl, hdrawn⟩
  · exact ⟨(hrely.held file hholds (hfile ▸ hsome)).trans hfile,
      .inl ⟨hsome, stable_holds _ _ hholds hrely⟩⟩
  · exact ⟨hrely.created file hdrawn hfile, .inr ⟨rfl, hrely.drawn _ hdrawn⟩⟩

theorem stable_drawn {uuid : String} : Stable canonical i fun disk => (uuid, i) ∈ disk.drawn :=
  fun _ _ h hrely => hrely.drawn _ h

theorem stable_temporary {uuid : String} {content : Option Bytes} :
    Stable canonical i fun disk =>
      (uuid, i) ∈ disk.drawn ∧ disk.temporaries file uuid = content :=
  fun _ _ h hrely => ⟨hrely.drawn _ h.1, (hrely.temporaries file uuid h.1).trans h.2⟩

end StableAssertions

/-! ## Rules for the operations -/

section Operations

variable {canonical : RecordFile → String} {calls : ι → TaskCall} {i : ι} {α β : Type}
  {Q : α → Disk ι → Prop} {E : AppError → Disk ι → Prop} {s t t' : Disk ι} {A : Disk ι → Prop}

abbrev Wp (canonical : RecordFile → String) (calls : ι → TaskCall) (i : ι)
    (Q : α → Disk ι → Prop) (E : AppError → Disk ι → Prop) (p : TaskM α) (s : Disk ι) : Prop :=
  p.wp (exec canonical i) (taskProtocol canonical calls) i Q E s

theorem wp_pure {a : α} (hA : Stable canonical i A) (h : A s)
    (hQ : ∀ t, A t → Q a t) : Wp canonical calls i Q E (.pure a) s :=
  fun t hrely _ => hQ t (hA s t h hrely)

theorem wp_throw {e : AppError} (hA : Stable canonical i A) (h : A s)
    (hE : ∀ t, A t → E e t) : Wp canonical calls i Q E (.throw e) s :=
  fun t hrely _ => hE t (hA s t h hrely)

theorem wp_operation {o : TaskOp} {k : o.Res → TaskM α} (hA : Stable canonical i A) (h : A s)
    (hk : ∀ t r t', Inv calls t → A t → exec canonical i o t r t' →
      Inv calls t' ∧ OwnStep canonical i t t' ∧ Wp canonical calls i Q E (k r) t') :
    Wp canonical calls i Q E (.request o k) s :=
  fun t hrely hinv r t' hx => hk t r t' hinv (hA s t h hrely) hx

def TaskOp.isQuiet : TaskOp → Bool
  | .observeRepositoryState _ | .isoDate | .canonicalizePath _ | .await _ | .readFile _ | .mkdir _
  | .sync _ _ | .close _ _ => true
  | _ => false

theorem exec_quiet {o : TaskOp} (ho : o.isQuiet = true) {r : o.Res}
    (h : exec canonical i o t r t') : t' = t := by
  obtain ⟨choice, h⟩ := h
  cases o with
  | readFile file =>
    unfold TaskOp.apply at h
    dsimp only at h
    repeat' split at h
    all_goals first | cases h; rfl | cases h
  | await previous =>
    change (if t.locks.Ready previous then some ((), t) else none) = some (r, t') at h
    split at h
    · cases h
      rfl
    · cases h
  | observeRepositoryState _ | isoDate | canonicalizePath _ | mkdir _ | sync _ _ | close _ _ =>
    cases choice <;> first | (cases h; rfl) | cases h
  | _ => cases ho

theorem wp_quiet {o : TaskOp} {k : o.Res → TaskM α} (ho : o.isQuiet = true)
    (hA : Stable canonical i A) (h : A s)
    (hk : ∀ r t, Inv calls t → A t → exec canonical i o t r t → Wp canonical calls i Q E (k r) t) :
    Wp canonical calls i Q E (.request o k) s := by
  refine wp_operation hA h fun t r t' hinv ha hx => ?_
  obtain rfl := exec_quiet ho hx
  exact ⟨hinv, .refl _ _ _, hk r _ hinv ha hx⟩

theorem wp_ofExcept {outcome : Except AppError β} {f : β → TaskM α} (hA : Stable canonical i A)
    (h : A s) (hE : ∀ e t, A t → E e t)
    (hf : ∀ b, outcome = .ok b → Wp canonical calls i Q E (f b) s) :
    Wp canonical calls i Q E ((Program.ofExcept outcome).bind f) s := by
  cases outcome with
  | ok b => exact hf b rfl
  | error e => exact wp_throw hA h fun t => hE e t

theorem wp_throwing {outcome : Except Errno β} {f : β → TaskM α} (hA : Stable canonical i A)
    (h : A s) (hE : ∀ e t, A t → E e t) (hf : ∀ b, Wp canonical calls i Q E (f b) s) :
    Wp canonical calls i Q E ((throwing outcome).bind f) s := by
  cases outcome with
  | ok b => exact hf b
  | error code => exact wp_throw hA h fun t => hE _ t

/-! ## Putting a file in place -/

theorem Inv.setTemporary (h : Inv calls t) {uuid : String} (hdrawn : (uuid, i) ∈ t.drawn)
    (file : RecordFile) (content : Option Bytes) : Inv calls (t.setTemporary file uuid content) where
  locks := h.locks
  sound := h.sound
  known := h.known
  temporary := by
    intro file' uuid' hfile
    by_cases huuid : uuid' = uuid
    · exact .inr (List.mem_map.mpr ⟨(uuid, i), hdrawn, huuid.symm⟩)
    · refine h.temporary file' uuid' fun hnone => hfile ?_
      rw [← hnone, Disk.setTemporary]
      by_cases hother : file' = file
      · rw [hother]
        simp [huuid]
      · simp [hother]
  names := h.names
  history := h.history
  once := h.once

theorem ownStep_setTemporary {file : RecordFile} {uuid : String} (content : Option Bytes)
    (hdrawn : (uuid, i) ∈ t.drawn) :
    OwnStep canonical i t (t.setTemporary file uuid content) where
  locks _ _ := .refl _ _
  drawn _ h := h
  temporaries := by
    intro file' uuid' hother
    have hne : uuid' ≠ uuid := fun heq => hother (heq ▸ hdrawn)
    show Function.update t.temporaries file _ file' uuid' = _
    by_cases hfile : file' = file
    · rw [hfile, Function.update_self, Function.update_of_ne hne]
    · rw [Function.update_of_ne hfile]
  effects _ _ := Iff.rfl
  files _ := .inl rfl
  start := rfl
  grown := List.prefix_rfl
  ended _ _ _ _ := rfl

structure Writes (calls : ι → TaskCall) (i : ι) (file : RecordFile) (old : Option Bytes)
    (new : StoredTaskState) : Prop where
  sound : Sound file new
  checkpoints : TaskState.checkpoints new =
    checkpointsOf old ++ (gained calls ⟨i, file, recordText new⟩).map Prod.snd
  active : ∀ record, old = some (recordText record) → status record = some "active"
  last : ∀ taskId input cwdInput, calls i = .checkpoint taskId input cwdInput →
    file.taskId = taskId ∧ TaskState.checkpoints new ≠ []

/-- Before the rename: nothing is saved, the file may be written, and the UUID of the temporary file
belongs to the call. -/
def Prepared (canonical : RecordFile → String) (i : ι) (file : RecordFile) (old : Option Bytes)
    (B : ChainLock.State ι String → Prop) (disk : Disk ι) : Prop :=
  Unsaved i disk ∧ MayWrite canonical i file old disk ∧ B disk.locks

variable {old : Option Bytes} {new : StoredTaskState} {uuid : String}
  {B : ChainLock.State ι String → Prop}

theorem stable_frame (hB : ∀ {l l'}, ChainLock.State.Keeps i l l' → B l → B l') :
    Stable canonical i fun disk => B disk.locks :=
  fun _ _ h hrely => hB hrely.locks h

theorem stable_prepared (hB : ∀ {l l'}, ChainLock.State.Keeps i l l' → B l → B l') :
    Stable canonical i (Prepared canonical i file old B) :=
  stable_unsaved.and (stable_mayWrite.and (stable_frame hB))

theorem taken_replace (t : Disk ι) (i : ι) (file file' : RecordFile) (uuid : String)
    (content : Bytes) : taken calls (t.replace i file uuid content) file' =
      taken calls t file' ++ if file = file' then gained calls ⟨i, file, content⟩ else [] := by
  rw [taken, taken, Disk.replace, List.filter_append, List.flatMap_append]
  by_cases hfile : file = file' <;> simp [hfile]

theorem Inv.replace (hinv : Inv calls t) (hwrites : Writes calls i file old new)
    (hstorable : Storable file new) (hready : Prepared canonical i file old B t)
    (hdrawn : (uuid, i) ∈ t.drawn) : Inv calls (t.replace i file uuid (recordText new)) where
  locks := hinv.locks
  sound := by
    intro file' bytes hbytes
    rw [Disk.replace] at hbytes
    by_cases hfile : file' = file
    · subst hfile
      simp only [Function.update_self] at hbytes
      exact ⟨new, (Option.some.inj hbytes).symm, hwrites.sound, hstorable⟩
    · simp only [Function.update_of_ne hfile] at hbytes
      exact hinv.sound file' bytes hbytes
  known := by
    intro file' hne
    by_cases hfile : file' = file
    · subst hfile
      obtain ⟨-, ⟨hsame, hright⟩, -⟩ := hready
      rcases hright with ⟨hsome, -⟩ | ⟨-, hdrawn⟩
      · exact hinv.known file' (hsame ▸ hsome)
      · exact .inr (List.mem_map_of_mem hdrawn)
    · refine hinv.known file' ?_
      simpa only [Disk.replace, Function.update_of_ne hfile] using hne
  temporary := (hinv.setTemporary hdrawn file none).temporary
  names := hinv.names
  history := by
    intro file'
    rw [taken_replace, List.map_append, ← List.append_assoc]
    have hstart : (t.replace i file uuid (recordText new)).start = t.start := rfl
    rw [hstart, ← hinv.history file']
    show checkpointsOf (Function.update t.files file _ file') = _
    by_cases hfile : file = file'
    · subst hfile
      rw [Function.update_self, checkpointsOf_recordText, if_pos rfl, hwrites.checkpoints,
        hready.2.1.1]
    · rw [Function.update_of_ne (Ne.symm hfile), if_neg hfile, List.map_nil, List.append_nil]
  once := by
    show ((t.effects ++ [_]).map Effect.call).Nodup
    rw [List.map_append, List.nodup_append]
    refine ⟨hinv.once, List.nodup_singleton _, ?_⟩
    intro call hcall call' hcall' heq
    obtain ⟨effect, heffect, rfl⟩ := List.mem_map.mp hcall
    obtain rfl := List.mem_singleton.mp hcall'
    exact hready.1 effect heffect heq

theorem ownStep_replace (hwrites : Writes calls i file old new)
    (hready : Prepared canonical i file old B t) (hdrawn : (uuid, i) ∈ t.drawn) :
    OwnStep canonical i t (t.replace i file uuid (recordText new)) where
  locks _ _ := .refl _ _
  drawn _ h := h
  temporaries :=
    have htemporary : OwnStep canonical i t (t.setTemporary file uuid none) :=
      ownStep_setTemporary none hdrawn
    htemporary.temporaries
  effects := by
    intro effect hcall
    show effect ∈ t.effects ++ [_] ↔ _
    rw [List.mem_append, List.mem_singleton, or_iff_left]
    rintro rfl
    exact hcall rfl
  files := by
    intro file'
    by_cases hfile : file' = file
    · subst hfile
      obtain ⟨-, ⟨hsame, hright⟩, -⟩ := hready
      rcases hright with ⟨hsome, hholds⟩ | ⟨hnone, hmine⟩
      · exact .inr (.inl ⟨hsame ▸ hsome, hholds⟩)
      · exact .inr (.inr ⟨hsame.trans hnone, hmine⟩)
    · exact .inl (Function.update_of_ne hfile _ _)
  start := rfl
  grown := List.prefix_append _ _
  ended := by
    intro file' record hrecord hended
    refine Function.update_of_ne ?_ _ _
    rintro rfl
    exact hended (hwrites.active record (hready.2.1.1.symm.trans hrecord))

theorem wp_randomUUID {f : String → TaskM α} (hA : Stable canonical i A) (h : A s)
    (hk : ∀ uuid t, A t → Inv calls { t with drawn := (uuid, i) :: t.drawn } →
      (∀ file : RecordFile, file.taskId = uuid → t.files file = none) →
      Wp canonical calls i Q E (f uuid) { t with drawn := (uuid, i) :: t.drawn }) :
    Wp canonical calls i Q E (randomUUID.bind f) s := by
  refine wp_operation hA h fun t r t' hinv ha hx => ?_
  obtain ⟨choice, hx⟩ := hx
  cases choice with
  | text uuid =>
    change (if uuid ∈ t.used ∨ uuid ∈ t.drawn.map Prod.fst then none else _) = some (r, t') at hx
    split at hx
    · cases hx
    next hfresh =>
      cases hx
      obtain ⟨hused, hdrawn⟩ := not_or.mp hfresh
      have hinv' : Inv calls { t with drawn := (_, i) :: t.drawn } :=
        ⟨hinv.locks, hinv.sound,
          fun file hfile => (hinv.known file hfile).imp id (List.mem_cons_of_mem _),
          fun file uuid hfile => (hinv.temporary file uuid hfile).imp id (List.mem_cons_of_mem _),
          List.nodup_cons.mpr ⟨hdrawn, hinv.names⟩, hinv.history, hinv.once⟩
      refine ⟨hinv', ⟨fun _ _ => .refl _ _, fun _ h => List.mem_cons_of_mem _ h,
        fun _ _ _ => rfl, fun _ _ => Iff.rfl, fun _ => .inl rfl, rfl, List.prefix_rfl, fun _ _ _ _ => rfl⟩,
        hk _ t ha hinv' fun file hfile => ?_⟩
      by_contra hsome
      exact hfresh (hfile ▸ hinv.known file hsome)
  | _ => cases hx

theorem wp_temporary (file : RecordFile) {o : TaskOp} {k : o.Res → TaskM α} (hA : Stable canonical i A) (h : A s)
    (hdrawn : ∀ t, A t → (uuid, i) ∈ t.drawn)
    (hx : ∀ t r t', exec canonical i o t r t' → t' = t ∨ ∃ content, t' = t.setTemporary file uuid content)
    (hk : ∀ t r t', A t → exec canonical i o t r t' → Wp canonical calls i Q E (k r) t') :
    Wp canonical calls i Q E (.request o k) s := by
  refine wp_operation hA h fun t r t' hinv ha hstep => ?_
  rcases hx t r t' hstep with rfl | ⟨content, rfl⟩
  · exact ⟨hinv, .refl _ _ _, hk _ _ _ ha hstep⟩
  · exact ⟨hinv.setTemporary (hdrawn t ha) _ _, ownStep_setTemporary content (hdrawn t ha), hk t _ _ ha hstep⟩

variable {r : Except Errno Unit} {taskId cwdInput : String}

theorem exec_openWx (h : exec canonical i (.openWx file uuid) t r t') :
    t' = t ∨ ∃ content, t' = t.setTemporary file uuid content := by
  obtain ⟨choice, h⟩ := h
  unfold TaskOp.apply at h
  dsimp only at h
  repeat' split at h
  all_goals cases h
  · exact .inl rfl
  · exact .inr ⟨_, rfl⟩
  · exact .inl rfl

theorem exec_unlink (h : exec canonical i (.unlink file uuid) t r t') :
    t' = t ∨ ∃ content, t' = t.setTemporary file uuid content := by
  obtain ⟨choice, h⟩ := h
  unfold TaskOp.apply at h
  dsimp only at h
  split at h
  all_goals cases h
  · exact .inr ⟨_, rfl⟩
  · exact .inl rfl

theorem exec_writeFile {content : Bytes}
    (h : exec canonical i (.writeFile file uuid content) t r t') :
    (r = .ok () ∧ t' = t.setTemporary file uuid (some content)) ∨
      ∃ code, r = .error code ∧ (t' = t ∨ ∃ left, t' = t.setTemporary file uuid left) := by
  obtain ⟨choice, h⟩ := h
  unfold TaskOp.apply at h
  dsimp only at h
  split at h
  all_goals cases h
  · exact .inl ⟨rfl, rfl⟩
  · exact .inr ⟨_, rfl, .inr ⟨_, rfl⟩⟩
  · exact .inr ⟨_, rfl, .inl rfl⟩

theorem exec_rename (h : exec canonical i (.rename file uuid) t r t') :
    (∃ content, r = .ok () ∧ t.temporaries file uuid = some content ∧
        t' = t.replace i file uuid content) ∨ ∃ code, r = .error code ∧ t' = t := by
  obtain ⟨choice, h⟩ := h
  cases choice with
  | done =>
    cases hfile : t.temporaries file uuid with
    | none =>
      simp only [TaskOp.apply, hfile] at h
      cases h
      exact .inr ⟨_, rfl, rfl⟩
    | some content =>
      simp only [TaskOp.apply, hfile] at h
      cases h
      exact .inl ⟨content, rfl, rfl, rfl⟩
  | fails code =>
    cases h
    exact .inr ⟨code, rfl, rfl⟩
  | _ => exact nomatch h

theorem wp_discard (hB : ∀ {l l'}, ChainLock.State.Keeps i l l' → B l → B l') {opened : Bool}
    {error : AppError} {Q : Unit → Disk ι → Prop} (hframe : B s.locks) (hdrawn : (uuid, i) ∈ s.drawn) :
    Wp canonical calls i Q (fun _ t => B t.locks) (discard file uuid opened error) s := by
  have hstable : Stable canonical i fun t : Disk ι => B t.locks ∧ (uuid, i) ∈ t.drawn :=
    (stable_frame hB).and stable_drawn
  have hunlink : ∀ s : Disk ι, B s.locks ∧ (uuid, i) ∈ s.drawn →
      Wp canonical calls i Q (fun _ t => B t.locks)
        (.request (.unlink file uuid) fun _ => .throw error) s := fun s hs =>
    wp_temporary file hstable hs (fun _ h => h.2) (fun _ _ _ => exec_unlink) fun t r t' ht hx => by
      refine wp_throw (stable_frame hB) ?_ fun _ h => h
      rcases exec_unlink hx with rfl | ⟨content, rfl⟩ <;> exact ht.1
  unfold discard
  split
  · exact wp_quiet rfl hstable ⟨hframe, hdrawn⟩ fun _ t _ ht _ => hunlink t ht
  · exact hunlink s ⟨hframe, hdrawn⟩

theorem recordPath_eq_ok (h : recordPath observation taskId = .ok file) :
    file = ⟨observation.projectFingerprint, taskId⟩ := by
  unfold recordPath at h
  split at h
  · exact (Except.ok.inj h).symm
  · cases h

theorem wp_guarded (hB : ∀ {l l'}, ChainLock.State.Keeps i l l' → B l → B l') {p : TaskM Unit}
    {opened : Bool} (hs : Inv calls s) (hA : Stable canonical i A)
    (hp : Wp canonical calls i (fun _ t => A t) (fun _ t => B t.locks ∧ (uuid, i) ∈ t.drawn) p s) :
    Wp canonical calls i (fun _ t => A t) (fun _ t => B t.locks)
      (p.tryCatch (discard file uuid opened)) s :=
  Program.wp_tryCatch hs (Program.wp_mono hp (fun _ t _ h t' hrely _ => hA t t' h hrely)
    fun _ _ _ h => wp_discard hB h.1 h.2)

/-- Before the rename, with a UUID for the temporary file. -/
def Named (canonical : RecordFile → String) (i : ι) (file : RecordFile) (old : Option Bytes)
    (B : ChainLock.State ι String → Prop) (uuid : String) (disk : Disk ι) : Prop :=
  Prepared canonical i file old B disk ∧ (uuid, i) ∈ disk.drawn

section

variable (hB : ∀ {l l'}, ChainLock.State.Keeps i l l' → B l → B l')

include hB

theorem stable_named : Stable canonical i (Named canonical i file old B uuid) :=
  (stable_prepared hB).and stable_drawn

theorem wp_openWx (h : Named canonical i file old B uuid s) :
    Wp canonical calls i (fun _ t => Named canonical i file old B uuid t)
      (fun _ t => B t.locks ∧ (uuid, i) ∈ t.drawn)
      (.request (.openWx file uuid) throwing : TaskM Unit) s := by
  refine wp_temporary file (stable_named hB) h (fun _ ht => ht.2) (fun _ _ _ => exec_openWx) ?_
  intro t r t' ht hx
  have ht' : Named canonical i file old B uuid t' := by
    rcases exec_openWx hx with rfl | ⟨content, rfl⟩ <;> exact ht
  cases r with
  | ok => exact wp_pure (stable_named hB) ht' fun _ h => h
  | error code => exact wp_throw (stable_named hB) ht' fun _ h => ⟨h.1.2.2, h.2⟩

theorem wp_writeFile {content : Bytes} (h : Named canonical i file old B uuid s) :
    Wp canonical calls i
      (fun _ t => Named canonical i file old B uuid t ∧
        (uuid, i) ∈ t.drawn ∧ t.temporaries file uuid = some content)
      (fun _ t => B t.locks ∧ (uuid, i) ∈ t.drawn)
      (do
        let _ ← .request (.writeFile file uuid content) throwing
        let _ ← .request (.sync file uuid) throwing
        .request (.close file uuid) throwing : TaskM Unit) s := by
  refine wp_temporary file (stable_named hB) h (fun _ ht => ht.2) ?_ ?_
  · intro t r t' hx
    rcases exec_writeFile hx with ⟨-, rfl⟩ | ⟨_, -, rfl | ⟨left, rfl⟩⟩
    · exact .inr ⟨_, rfl⟩
    · exact .inl rfl
    · exact .inr ⟨_, rfl⟩
  intro t r t' ht hx
  have hwritten : Stable canonical i fun t => Named canonical i file old B uuid t ∧
      (uuid, i) ∈ t.drawn ∧ t.temporaries file uuid = some content :=
    (stable_named hB).and stable_temporary
  rcases exec_writeFile hx with ⟨rfl, rfl⟩ | ⟨code, rfl, hleft⟩
  · have ht' : Named canonical i file old B uuid (t.setTemporary file uuid (some content)) ∧
        (uuid, i) ∈ (t.setTemporary file uuid (some content)).drawn ∧
        (t.setTemporary file uuid (some content)).temporaries file uuid = some content := by
      refine ⟨ht, ht.2, ?_⟩
      simp [Disk.setTemporary]
    refine wp_quiet rfl hwritten ht' fun r t _ ht _ => ?_
    refine wp_throwing hwritten ht (fun _ _ h => ⟨h.1.1.2.2, h.1.2⟩) fun _ => ?_
    refine wp_quiet rfl hwritten ht fun r t _ ht _ => ?_
    cases r with
    | ok => exact wp_pure hwritten ht fun _ h => h
    | error code => exact wp_throw hwritten ht fun _ h => ⟨h.1.1.2.2, h.1.2⟩
  · have ht' : Named canonical i file old B uuid t' := by
      rcases hleft with rfl | ⟨left, rfl⟩ <;> exact ht
    exact wp_throw (stable_named hB) ht' fun _ h => ⟨h.1.2.2, h.2⟩

theorem wp_rename (hwrites : Writes calls i file old new) (hstorable : Storable file new)
    (h : Named canonical i file old B uuid s)
    (htext : s.temporaries file uuid = some (recordText new)) :
    Wp canonical calls i (fun _ t => Saved i file new t ∧ B t.locks)
      (fun _ t => B t.locks ∧ (uuid, i) ∈ t.drawn)
      (.request (.rename file uuid) throwing : TaskM Unit) s := by
  have hwritten : Stable canonical i fun t => Named canonical i file old B uuid t ∧
      (uuid, i) ∈ t.drawn ∧ t.temporaries file uuid = some (recordText new) :=
    (stable_named hB).and stable_temporary
  refine wp_operation hwritten ⟨h, h.2, htext⟩ fun t r t' hinv ⟨ht, _, htext⟩ hx => ?_
  rcases exec_rename hx with ⟨content, rfl, hcontent, rfl⟩ | ⟨code, rfl, rfl⟩
  · obtain rfl := Option.some.inj (hcontent.symm.trans htext)
    refine ⟨hinv.replace hwrites hstorable ht.1 ht.2, ownStep_replace hwrites ht.1 ht.2, ?_⟩
    refine wp_pure (stable_saved.and (stable_frame hB)) ⟨?_, ht.1.2.2⟩ fun _ h => h
    exact List.mem_append_right _ List.mem_cons_self
  · refine ⟨hinv, .refl _ _ _, ?_⟩
    exact wp_throw (stable_named hB) ht fun _ h => ⟨h.1.2.2, h.2⟩

theorem wp_persist (hready : Prepared canonical i file old B s)
    (hwrites : Writes calls i file old new)
    (hfile : file.projectFingerprint = observation.projectFingerprint) :
    Wp canonical calls i (fun _ t => Saved i file new t ∧ B t.locks) (fun _ t => B t.locks)
      (persist observation new) s := by
  have hstable : Stable canonical i (Prepared canonical i file old B) := stable_prepared hB
  have herror : ∀ (e : AppError) t, Prepared canonical i file old B t → B t.locks :=
    fun _ _ h => h.2.2
  refine wp_quiet rfl hstable hready fun _ s _ hready _ => ?_
  refine wp_throwing hstable hready herror fun _ => ?_
  refine wp_ofExcept hstable hready herror fun path hpath => ?_
  obtain rfl : path = file := by
    rw [recordPath_eq_ok hpath, hwrites.sound.taskIdOf, ← hfile]
  have hvalid : validTaskId path.taskId = true := by
    unfold recordPath at hpath
    split at hpath
    next hvalid => rwa [hwrites.sound.taskIdOf] at hvalid
    next => cases hpath
  dsimp only
  split
  · refine wp_throw hstable hready fun t ht => ?_
    exact ht.2.2
  next hsize =>
  have hstorable : Storable path new := ⟨hvalid, Nat.not_lt.mp hsize⟩
  refine wp_randomUUID hstable hready fun uuid s ⟨hunsaved, ⟨hsame, hright⟩, hframe⟩ hinv _ => ?_
  -- from here on the UUID of the temporary file belongs to the call
  have hnamed : Named canonical i path old B uuid { s with drawn := (uuid, i) :: s.drawn } :=
    ⟨⟨hunsaved, ⟨hsame, hright.imp id fun h => ⟨h.1, List.mem_cons_of_mem _ h.2⟩⟩, hframe⟩,
      List.mem_cons_self⟩
  refine Program.wp_bind hinv (Program.wp_mono
    (wp_guarded hB hinv (stable_named hB) (wp_openWx hB hnamed)) ?_ fun _ _ _ h => h)
  rintro - t hinv ht
  refine Program.wp_bind hinv (Program.wp_mono
    (wp_guarded hB hinv ((stable_named hB).and stable_temporary) (wp_writeFile hB ht)) ?_
    fun _ _ _ h => h)
  rintro - t hinv ⟨ht, -, htext⟩
  exact wp_guarded hB hinv (stable_saved.and (stable_frame hB)) (wp_rename hB hwrites hstorable ht htext)

end

/-! ## Locks -/

/-- The operation runs inside the lock of the file, and the lock is given back whatever its outcome
is. -/
theorem wp_withPathLock {operation : TaskM α} (hA : Stable canonical i A)
    (hAlocks : ∀ t locks, A t → A { t with locks }) (hQ : ∀ a, Stable canonical i (Q a))
    (hQlocks : ∀ a t locks, Q a t → Q a { t with locks }) (h : A s)
    (hop : ∀ me t, Inv calls t → A t → t.locks.Holds i (canonical file) me →
      Wp canonical calls i (fun a t => Q a t ∧ t.locks.Holds i (canonical file) me)
        (fun _ t => t.locks.Holds i (canonical file) me) operation t) :
    Wp canonical calls i Q (fun _ _ => True) (withPathLock file operation) s := by
  refine wp_quiet rfl hA h fun key s _ h hkey => ?_
  cases key with
  | error code => exact wp_throw hA h fun _ _ => trivial
  | ok key =>
  obtain rfl : key = canonical file := by
    obtain ⟨choice, hkey⟩ := hkey
    cases choice <;> cases hkey
    rfl
  refine wp_operation hA h fun t r t' hinv ha hx => ?_
  obtain ⟨choice, hx⟩ := hx
  cases hx
  refine ⟨⟨hinv.locks.enqueue i _, hinv.sound, hinv.known, hinv.temporary, hinv.names, hinv.history,
      hinv.once⟩,
    ⟨fun j _ => .enqueue j i _ _, fun _ h => h, fun _ _ _ => rfl, fun _ _ => Iff.rfl,
      fun _ => .inl rfl, rfl, List.prefix_rfl, fun _ _ _ _ => rfl⟩, ?_⟩
  have hticket := ChainLock.State.getElem?_enqueue_self t.locks i (canonical file)
  have hmine : Stable canonical i fun u => u.locks.tickets[t.locks.tickets.length]? =
      some ⟨i, canonical file, t.locks.queues (canonical file), false⟩ :=
    fun _ _ hu hrely => hrely.locks.own hu rfl
  dsimp only
  generalize hme : t.locks.tickets.length = me at hticket hmine ⊢
  refine wp_quiet rfl (hA.and hmine) ⟨hAlocks t _ ha, hticket⟩ fun _ u hinv ⟨ha, hticket⟩ hx => ?_
  have hholds : u.locks.Holds i (canonical file) me := by
    obtain ⟨_, hx⟩ := hx
    change (if u.locks.Ready _ then some ((), u) else none) = some (_, u) at hx
    split at hx
    next hready => exact ⟨_, hticket, rfl, rfl, rfl, hready⟩
    next => cases hx
  -- the release of the lock, after any outcome
  have hlock : Stable canonical i fun u => u.locks.Holds i (canonical file) me :=
    fun _ _ hu hrely => hrely.locks.holds hu
  have hsettled : Stable canonical i fun u => u.locks.Settled me :=
    fun _ _ hu hrely => hrely.locks.settled hu
  have hrelease : ∀ {C : Disk ι → Prop} {p : TaskM α} u, Stable canonical i C →
      (∀ t locks, C t → C { t with locks }) → C u → u.locks.Holds i (canonical file) me →
      (∀ t, C t → Wp canonical calls i Q (fun _ _ => True) p t) →
      Wp canonical calls i Q (fun _ _ => True)
        (.request (.settle me) fun _ => .request (.forget (canonical file) me) fun _ => p) u := by
    intro C p u hC hClocks hc hholds hp
    refine wp_operation (hC.and hlock) ⟨hc, hholds⟩ fun v r v' hinv ⟨hc, hholds⟩ hx => ?_
    obtain ⟨_, hx⟩ := hx
    cases hx
    refine ⟨⟨hinv.locks.settle hholds, hinv.sound, hinv.known, hinv.temporary, hinv.names,
      hinv.history, hinv.once⟩, ⟨fun j hj => .settle fun ht => ?_, fun _ h => h, fun _ _ _ => rfl,
      fun _ _ => Iff.rfl, fun _ => .inl rfl, rfl, List.prefix_rfl, fun _ _ _ _ => rfl⟩, ?_⟩
    · obtain ⟨w, hw, howner, -⟩ := hholds
      rw [Option.some.inj (ht.symm.trans hw), howner]
      exact Ne.symm hj
    · obtain ⟨w, hw, -⟩ := hholds
      refine wp_operation (hC.and hsettled) ⟨hClocks v _ hc, ChainLock.State.settled_settle hw⟩
        fun x r x' hinv ⟨hc, hset⟩ hx => ?_
      obtain ⟨_, hx⟩ := hx
      cases hx
      exact ⟨⟨hinv.locks.forget hset, hinv.sound, hinv.known, hinv.temporary, hinv.names, hinv.history,
        hinv.once⟩,
        ⟨fun j _ => .forget j _ _ _, fun _ h => h, fun _ _ _ => rfl, fun _ _ => Iff.rfl,
          fun _ => .inl rfl, rfl, List.prefix_rfl, fun _ _ _ _ => rfl⟩, hp _ (hClocks x _ hc)⟩
  refine Program.wp_bind hinv (Program.wp_attempt (Program.wp_mono (hop me u hinv ha hholds) ?_ ?_))
  · rintro a v - ⟨hq, hholds⟩
    exact hrelease v (hQ a) (hQlocks a) hq hholds fun t ht => wp_pure (hQ a) ht fun _ h => h
  · rintro e v - hholds
    have htrue : Stable canonical i fun _ => True := fun _ _ _ _ => trivial
    exact hrelease v htrue (fun _ _ _ => trivial) trivial hholds fun t _ =>
      wp_throw htrue trivial fun _ _ => trivial

/-! ## The calls -/

theorem wp_load {f : StoredTaskState → TaskM α} (hA : Stable canonical i A) (h : A s)
    (hE : ∀ e t, A t → E e t)
    (hf : ∀ record t, Inv calls t → A t →
      t.files ⟨observation.projectFingerprint, taskId⟩ = some (recordText record) →
      Sound ⟨observation.projectFingerprint, taskId⟩ record → Wp canonical calls i Q E (f record) t) :
    Wp canonical calls i Q E ((load observation taskId).bind f) s := by
  rw [load, Program.bind_eq, Program.bind_assoc]
  refine wp_ofExcept hA h hE fun file hfile => ?_
  obtain rfl := recordPath_eq_ok hfile
  refine wp_quiet rfl hA h fun r t hinv ha hx => ?_
  cases r with
  | error code => cases code <;> exact wp_throw hA ha (hE _)
  | ok bytes =>
    have hbytes : t.files ⟨observation.projectFingerprint, taskId⟩ = some bytes := by
      obtain ⟨choice, hx⟩ := hx
      unfold TaskOp.apply at hx
      dsimp only at hx
      repeat' split at hx
      all_goals cases hx
      assumption
    obtain ⟨record, rfl, hsound, -⟩ := hinv.sound _ _ hbytes
    refine wp_ofExcept hA ha hE fun read hread => ?_
    obtain ⟨rfl, -⟩ := eq_of_parseRecord hread
    exact hf read t hinv ha hbytes hsound

/-- A call that changes records has put the record of its view in place. -/
def Returned (calls : ι → TaskCall) (i : ι) (returned : StoredTaskState) (disk : Disk ι) : Prop :=
  ∃ file old record observation, Writes calls i file old record ∧ Saved i file record disk ∧
    returned = view record observation

theorem stable_returned (returned : StoredTaskState) :
    Stable canonical i (Returned calls i returned) := by
  rintro disk later ⟨file, old, record, observation, hwrites, hsaved, hview⟩ hrely
  exact ⟨file, old, record, observation, hwrites, stable_saved _ _ hsaved hrely, hview⟩

theorem wp_update (hB : ∀ {l l'}, ChainLock.State.Keeps i l l' → B l → B l')
    {change : String → Except AppError StoredTaskState} (hready : Prepared canonical i file old B s)
    (hwrites : ∀ now updated, change now = .ok updated → Writes calls i file old updated)
    (hfile : file.projectFingerprint = observation.projectFingerprint) :
    Wp canonical calls i (fun a t => Returned calls i a t ∧ B t.locks) (fun _ t => B t.locks)
      (update observation change) s := by
  have hstable : Stable canonical i (Prepared canonical i file old B) := stable_prepared hB
  refine wp_quiet rfl hstable hready fun now s hs hready _ => ?_
  refine wp_ofExcept hstable hready (fun _ _ h => h.2.2) fun updated hupdated => ?_
  have hnew := hwrites now updated hupdated
  refine Program.wp_bind hs (Program.wp_mono (wp_persist hB hready hnew hfile) ?_ fun _ _ _ h => h)
  rintro - t - hsaved
  exact wp_pure (stable_saved.and (stable_frame hB)) hsaved fun t ht =>
    ⟨⟨file, old, updated, observation, hnew, ht.1, rfl⟩, ht.2⟩

theorem writes_checkpoint {now : String} {input : TaskCheckpointInput}
    {record updated : StoredTaskState} (hcall : calls i = .checkpoint taskId input cwdInput)
    (hfile : file.taskId = taskId) (hsound : Sound file record)
    (hactive : status record = some "active") (hfew : (checkpoints record).length < MAX_CHECKPOINTS)
    (h : checkpointRecord observation now input record = .ok updated) :
    Writes calls i file (some (recordText record)) updated := by
  obtain ⟨⟨checkpoint, hcheckpoints⟩, hupdated⟩ := sound_checkpoint hsound hactive hfew h
  refine ⟨hupdated, ?_, fun old hold => ?_, fun taskId' input' cwdInput' heq => ?_⟩
  · have hyes : (calls i).isCheckpoint = true := by
      rw [hcall]
      rfl
    rw [gained, if_pos hyes, checkpointsOf_recordText, checkpointsOf_recordText, hcheckpoints,
      List.getLast?_concat]
    rfl
  · rwa [← recordText_injective (Option.some.inj hold)]
  · cases hcall.symm.trans heq
    refine ⟨hfile, ?_⟩
    rw [hcheckpoints]
    exact List.append_ne_nil_of_right_ne_nil _ (List.cons_ne_nil _ _)

theorem writes_terminal {now endStatus summary : String} {evidenceRefs : Option (List String)}
    {record updated : StoredTaskState} (hend : endStatus = "completed" ∨ endStatus = "failed")
    (hcall : (calls i).isCheckpoint = false) (hsound : Sound file record)
    (hactive : status record = some "active")
    (h : terminalRecord observation now endStatus summary evidenceRefs record = .ok updated) :
    Writes calls i file (some (recordText record)) updated := by
  obtain ⟨hcheckpoints, hupdated⟩ := sound_terminal hend hsound hactive h
  refine ⟨hupdated, ?_, fun old hold => ?_, fun taskId input cwdInput heq => ?_⟩
  · rw [gained, hcall, checkpointsOf_recordText, hcheckpoints, if_neg Bool.false_ne_true,
      List.map_nil, List.append_nil]
  · rwa [← recordText_injective (Option.some.inj hold)]
  · rw [heq] at hcall
    cases hcall

theorem wp_changeRecord {f : StoredTaskState → TaskM StoredTaskState}
    (hfile : file = ⟨observation.projectFingerprint, taskId⟩) (h : Unsaved i s)
    (hf : ∀ me record t,
      Prepared canonical i file (some (recordText record)) (·.Holds i (canonical file) me) t →
      Sound file record →
      Wp canonical calls i (fun a t => Returned calls i a t ∧ t.locks.Holds i (canonical file) me)
        (fun _ t => t.locks.Holds i (canonical file) me) (f record) t) :
    Wp canonical calls i (Returned calls i) (fun _ _ => True)
      (withPathLock file ((load observation taskId).bind f)) s := by
  subst hfile
  refine wp_withPathLock stable_unsaved (fun _ _ h => h) stable_returned (fun _ _ _ h => h) h
    fun me t hinv ha hholds => ?_
  have hlock : Stable canonical i fun t =>
      t.locks.Holds i (canonical ⟨observation.projectFingerprint, taskId⟩) me :=
    stable_frame fun hkeeps h => hkeeps.holds h
  refine wp_load (stable_unsaved.and hlock) ⟨ha, hholds⟩ (fun _ _ h => h.2)
    fun record t _ ⟨ha, hholds⟩ hrecord hsound => ?_
  exact hf me record t ⟨ha, ⟨hrecord, .inl ⟨nofun, me, hholds⟩⟩, hholds⟩ hsound

theorem wp_checkpoint {input : TaskCheckpointInput}
    (hcall : calls i = .checkpoint taskId input cwdInput) (h : Unsaved i s) :
    Wp canonical calls i (Returned calls i) (fun _ _ => True) (checkpoint taskId input cwdInput) s := by
  refine wp_quiet rfl stable_unsaved h fun answer s _ h _ => ?_
  refine wp_ofExcept stable_unsaved h (fun _ _ _ => trivial) fun observation _ => ?_
  refine wp_ofExcept stable_unsaved h (fun _ _ _ => trivial) fun file hfile => ?_
  have hpath := recordPath_eq_ok hfile
  refine wp_changeRecord hpath h fun me record t hready hsound => ?_
  have hB : ∀ {l l' : ChainLock.State ι String}, ChainLock.State.Keeps i l l' →
      l.Holds i (canonical file) me → l'.Holds i (canonical file) me := fun hkeeps h => hkeeps.holds h
  split
  · exact wp_throw (stable_prepared hB) hready fun _ h => h.2.2
  next hactive =>
    split
    · exact wp_throw (stable_prepared hB) hready fun _ h => h.2.2
    next hfew =>
      refine wp_update hB hready (fun now updated hupdated => ?_) (hpath ▸ rfl)
      exact writes_checkpoint hcall (hpath ▸ rfl) hsound (not_not.mp hactive) (Nat.not_le.mp hfew)
        hupdated

theorem wp_terminal {endStatus summary : String} {evidenceRefs : Option (List String)}
    {verified : Option VerifiedObservation} (hend : endStatus = "completed" ∨ endStatus = "failed")
    (hcall : (calls i).isCheckpoint = false) (h : Unsaved i s) :
    Wp canonical calls i (Returned calls i) (fun _ _ => True)
      (terminal endStatus taskId summary evidenceRefs cwdInput verified) s := by
  refine wp_quiet rfl stable_unsaved h fun answer s _ h _ => ?_
  refine wp_ofExcept stable_unsaved h (fun _ _ _ => trivial) fun observation _ => ?_
  split
  · exact wp_throw stable_unsaved h fun _ _ => trivial
  refine wp_ofExcept stable_unsaved h (fun _ _ _ => trivial) fun file hfile => ?_
  have hpath := recordPath_eq_ok hfile
  refine wp_changeRecord hpath h fun me record t hready hsound => ?_
  have hB : ∀ {l l' : ChainLock.State ι String}, ChainLock.State.Keeps i l l' →
      l.Holds i (canonical file) me → l'.Holds i (canonical file) me := fun hkeeps h => hkeeps.holds h
  split
  · exact wp_throw (stable_prepared hB) hready fun _ h => h.2.2
  next hactive =>
    refine wp_update hB hready (fun now updated hupdated => ?_) (hpath ▸ rfl)
    exact writes_terminal hend hcall hsound (not_not.mp hactive) hupdated

theorem wp_start {goal : String} {nextStep : Option String} (hcall : (calls i).isCheckpoint = false)
    (h : Unsaved i s) :
    Wp canonical calls i (Returned calls i) (fun _ _ => True) (start goal cwdInput nextStep) s := by
  refine wp_quiet rfl stable_unsaved h fun answer s _ h _ => ?_
  refine wp_ofExcept stable_unsaved h (fun _ _ _ => trivial) fun observation _ => ?_
  refine wp_quiet rfl stable_unsaved h fun now s _ h _ => ?_
  refine wp_randomUUID stable_unsaved h fun taskId s h hinv hfresh => ?_
  -- only this call creates the record of its UUID
  have hready : Prepared canonical i ⟨observation.projectFingerprint, taskId⟩ none (fun _ => True)
      { s with drawn := (taskId, i) :: s.drawn } :=
    ⟨h, ⟨hfresh _ rfl, .inr ⟨rfl, List.mem_cons_self⟩⟩, trivial⟩
  have hB : ∀ {l l' : ChainLock.State ι String}, ChainLock.State.Keeps i l l' → True → True :=
    fun _ h => h
  refine wp_ofExcept (stable_prepared hB) hready (fun _ _ _ => trivial) fun record hrecord => ?_
  obtain ⟨hnone, hsound⟩ := sound_start hrecord
  have hwrites : Writes calls i ⟨observation.projectFingerprint, taskId⟩ none record := by
    refine ⟨hsound, ?_, nofun, fun taskId input cwdInput heq => ?_⟩
    · rw [gained, hcall, hnone]
      rfl
    · rw [heq] at hcall
      cases hcall
  refine Program.wp_bind hinv (Program.wp_mono (wp_persist hB hready hwrites rfl) ?_
    fun _ _ _ _ => trivial)
  rintro - t - ⟨hsaved, -⟩
  exact wp_pure stable_saved hsaved fun t ht => ⟨_, _, record, observation, hwrites, ht, rfl⟩

theorem wp_taskStatus :
    Wp canonical calls i (fun _ _ => True) (fun _ _ => True) (taskStatus taskId cwdInput) s := by
  have htrue : Stable canonical i fun _ => True := fun _ _ _ _ => trivial
  refine wp_quiet rfl htrue trivial fun answer s _ _ _ => ?_
  refine wp_ofExcept htrue trivial (fun _ _ _ => trivial) fun observation _ => ?_
  exact wp_load htrue trivial (fun _ _ _ => trivial) fun record t _ _ _ _ =>
    wp_pure htrue trivial fun _ _ => trivial

/-- A call of any kind: one that returns has put the record of its view in place, unless it only
reads. -/
theorem wp_program (h : Unsaved i s) :
    Wp canonical calls i
      (fun a t => (calls i).isCheckpoint = true → Returned calls i a t) (fun _ _ => True)
      (calls i).program s := by
  cases hcall : calls i with
  | start goal cwdInput nextStep =>
    exact Program.wp_mono (wp_start (by rw [hcall]; rfl) h) (fun _ _ _ h _ => h) fun _ _ _ h => h
  | checkpoint taskId input cwdInput =>
    exact Program.wp_mono (wp_checkpoint hcall h) (fun _ _ _ h _ => h)
      fun _ _ _ h => h
  | complete taskId summary evidenceRefs cwdInput verified =>
    exact Program.wp_mono (wp_terminal (.inl rfl) (by rw [hcall]; rfl) h) (fun _ _ _ h _ => h)
      fun _ _ _ h => h
  | fail taskId summary evidenceRefs cwdInput =>
    exact Program.wp_mono (wp_terminal (.inr rfl) (by rw [hcall]; rfl) h) (fun _ _ _ h _ => h)
      fun _ _ _ h => h
  | status taskId cwdInput =>
    exact Program.wp_mono wp_taskStatus (fun _ _ _ _ hyes => nomatch hyes) fun _ _ _ h => h

end Operations

/-! ## All calls -/

/-- What a process may find in the state root. -/
inductive Reachable [DecidableEq ι] (canonical : RecordFile → String) : Disk ι → Prop where
  | empty : Reachable canonical .empty
  | restart {disk later : Disk ι} {calls : ι → TaskCall}
      {pool : Pool ι TaskOp TaskOp.Res AppError StoredTaskState} (h : Reachable canonical disk)
      (hrun : Pool.Run (exec canonical) (fun _ _ => True) (programs calls, disk) (pool, later)) :
      Reachable canonical later.restart

section Runs

variable [DecidableEq ι] {canonical : RecordFile → String} {calls : ι → TaskCall} {root : Disk ι}
  {c c' : Pool ι TaskOp TaskOp.Res AppError StoredTaskState × Disk ι}

theorem safe_of_run (hinv : Inv calls root) (heffects : root.effects = [])
    (hrun : Pool.Run (exec canonical) (fun _ _ => True) (programs calls, root) c) :
    Pool.Safe (exec canonical) (taskProtocol canonical calls)
      (fun i a t => (calls i).isCheckpoint = true → Returned calls i a t) (fun _ _ _ => True) c := by
  refine Pool.wp_run (fun _ _ _ _ _ h => h) hrun ⟨hinv, fun i => wp_program ?_⟩
  intro effect heffect
  rw [heffects] at heffect
  cases heffect

theorem inv_of_reachable (h : Reachable canonical root) (calls : ι → TaskCall) :
    Inv calls root ∧ root.effects = [] ∧ root.start = root.files := by
  induction h generalizing calls with
  | empty => exact ⟨.empty calls, rfl, rfl⟩
  | restart _ hrun ih =>
    obtain ⟨hinv, heffects, -⟩ := ih _
    exact ⟨(safe_of_run hinv heffects hrun).1.restart calls, rfl, rfl⟩

/-- What a run leaves alone: the files at the start, the effects so far and the records that have
ended. -/
structure Later (disk later : Disk ι) : Prop where
  start : later.start = disk.start
  grown : disk.effects <+: later.effects
  ended : ∀ file record, disk.files file = some (recordText record) →
    status record ≠ some "active" → later.files file = disk.files file

omit [DecidableEq ι] in
theorem later_trans {a b d : Disk ι} (h : Later a b) (h' : Later b d) : Later a d where
  start := h'.start.trans h.start
  grown := h.grown.trans h'.grown
  ended file record hrecord hended := by
    have hsame := h.ended file record hrecord hended
    exact (h'.ended file record (hsame.trans hrecord) hended).trans hsame

theorem later_of_run {calls' : ι → TaskCall}
    (hsafe : Pool.Safe (exec canonical) (taskProtocol canonical calls')
      (fun i a t => (calls' i).isCheckpoint = true → Returned calls' i a t) (fun _ _ _ => True) c)
    (hrun : Pool.Run (exec canonical) (fun _ _ => True) c c') : Later c.2 c'.2 := by
  refine Pool.wp_run_rel (fun _ => ⟨rfl, List.prefix_rfl, fun _ _ _ _ => rfl⟩) later_trans ?_ hsafe
    hrun
  intro i disk later _ _ hown
  exact ⟨hown.start, hown.grown, hown.ended⟩

omit [DecidableEq ι] in
theorem Sound.numbers {file : RecordFile} {record : StoredTaskState} (h : Sound file record) :
    revision (.object record) = 1 + (checkpoints record).length +
        (if status record = some "active" then 0 else 1) ∧
      ((checkpoints record).map revision).Pairwise (· < ·) := by
  obtain ⟨task, htask⟩ := h.represents
  have hstatus := htask.status
  refine ⟨?_, htask.checkpoints_eq ▸ task.increasing⟩
  rw [htask.revision, htask.checkpoints_eq, Task.revision]
  cases hended : task.ended with
  | false =>
    rw [hended, if_neg Bool.false_ne_true] at hstatus
    simp [hstatus]
  | true =>
    rw [hended, if_pos rfl] at hstatus
    rcases hstatus with hstatus | hstatus <;> simp [hstatus]

/-- In every interleaving of calls, the records count their changes, a record that has ended stays as
it is, and the checkpoints are those of the calls that took effect, in this order. -/
theorem records_correct (hroot : Reachable canonical root)
    (hrun : Pool.Run (exec canonical) (fun _ _ => True) (programs calls, root) c)
    (hlater : Pool.Run (exec canonical) (fun _ _ => True) c c') :
    (∀ file bytes, c.2.files file = some bytes → ∃ record, bytes = recordText record ∧
      revision (.object record) = 1 + (checkpoints record).length +
        (if status record = some "active" then 0 else 1) ∧
      ((checkpoints record).map revision).Pairwise (· < ·)) ∧
    (∀ file record, c.2.files file = some (recordText record) → status record ≠ some "active" →
      c'.2.files file = some (recordText record)) ∧
    (∀ file, checkpointsOf (c.2.files file) =
      checkpointsOf (root.files file) ++ (taken calls c.2 file).map Prod.snd) ∧
    (∀ file, ((taken calls c.2 file).map Prod.fst).Nodup ∧
      taken calls c.2 file <+: taken calls c'.2 file) ∧
    ∀ i taskId input cwdInput returned, calls i = .checkpoint taskId input cwdInput →
      c.1 i = .pure returned → ∃ file checkpoint, file.taskId = taskId ∧
        (checkpoints returned).getLast? = some checkpoint ∧
        (i, checkpoint) ∈ taken calls c.2 file := by
  obtain ⟨hinv, heffects, hstart⟩ := inv_of_reachable hroot calls
  have hsafe := safe_of_run hinv heffects hrun
  have hfirst := later_of_run (safe_of_run hinv heffects (.refl _)) hrun
  have hsecond := later_of_run hsafe hlater
  refine ⟨fun file bytes hbytes => ?_, fun file record hrecord hended => ?_, fun file => ?_,
    fun file => ⟨?_, ?_⟩, fun i taskId input cwdInput returned hcall hreturned => ?_⟩
  · obtain ⟨record, rfl, hsound, -⟩ := hsafe.1.sound file bytes hbytes
    exact ⟨record, rfl, hsound.numbers⟩
  · exact (hsecond.ended file record hrecord hended).trans hrecord
  · rw [hsafe.1.history file, hfirst.start]
    exact hstart ▸ rfl
  · exact hsafe.1.once.sublist (taken_sublist calls c.2 file)
  · obtain ⟨more, hmore⟩ := hsecond.grown
    rw [taken, taken, ← hmore, List.filter_append, List.flatMap_append]
    exact List.prefix_append _ _
  · have hyes : (calls i).isCheckpoint = true := by
      rw [hcall]
      rfl
    obtain ⟨file, old, record, observation, hwrites, hsaved, rfl⟩ := hsafe.value hreturned hyes
    obtain ⟨hid, hsome⟩ := hwrites.last taskId input cwdInput hcall
    obtain ⟨checkpoint, hcheckpoint⟩ := Option.isSome_iff_exists.mp
      (List.getLast?_isSome.mpr hsome)
    have hview : checkpoints (view record observation) = checkpoints record := by
      rw [checkpoints, view, member_spread]
      rfl
    refine ⟨file, checkpoint, hid, hview ▸ hcheckpoint, ?_⟩
    refine List.mem_flatMap.mpr ⟨_, List.mem_filter.mpr ⟨hsaved, decide_eq_true rfl⟩, ?_⟩
    rw [gained, if_pos hyes, checkpointsOf_recordText, hcheckpoint]
    exact List.mem_singleton.mpr rfl

end Runs

section Example

def exampleTask : String := "11111111-1111-4111-8111-111111111111"

def exampleObservation : RepositoryStateObservation := ⟨"/r", "f", "h", "w"⟩

def exampleCalls : Bool → TaskCall
  | false => .start "g" "." none
  | true => .checkpoint exampleTask ⟨"s", none, none, none, none, none, none⟩ "."

/-- How the operations of `persist` are answered. -/
def persistMoves (uuid : String) : List Choice :=
  [.done, .text uuid, .done, .done, .done, .done, .done]

def startMoves : List Choice :=
  [.observed (.ok exampleObservation), .text "now", .text exampleTask] ++ persistMoves "a"

def checkpointMoves : List Choice :=
  [.observed (.ok exampleObservation), .done, .done, .done, .done, .text "now"] ++
    persistMoves "b" ++ [.done, .done]

def exampleMoves : List (Bool × Choice) :=
  startMoves.map (false, ·) ++ checkpointMoves.map (true, ·)

def returned {α : Type} (p : TaskM α) : Bool :=
  match p with
  | .pure _ => true
  | _ => false

/-- The record of a task with one checkpoint. -/
theorem records_correct_example : ∃ c : Pool Bool TaskOp TaskOp.Res AppError StoredTaskState × Disk Bool,
    Pool.Run (exec RecordFile.taskId) (fun _ _ => True) (programs exampleCalls, .empty) c ∧
    (∀ i, returned (c.1 i) = true) ∧
    (checkpointsOf (c.2.files ⟨"f", exampleTask⟩)).length = 1 ∧
    (∀ file bytes, c.2.files file = some bytes → ∃ record, bytes = recordText record ∧
      revision (.object record) = 1 + (checkpoints record).length +
        (if status record = some "active" then 0 else 1) ∧
      ((checkpoints record).map revision).Pairwise (· < ·)) ∧
    ∀ file, checkpointsOf (c.2.files file) = (taken exampleCalls c.2 file).map Prod.snd := by
  have hfinal : (Pool.schedule (TaskOp.apply RecordFile.taskId) exampleMoves
      (programs exampleCalls, .empty)).map (fun c =>
        (returned (c.1 false), returned (c.1 true),
          (checkpointsOf (c.2.files ⟨"f", exampleTask⟩)).length)) = some (true, true, 1) := by
    decide +kernel
  obtain ⟨c, hc, houtcomes⟩ := Option.map_eq_some_iff.mp hfinal
  obtain ⟨hfalse, htrue, hcount⟩ : _ ∧ _ ∧ _ := by
    simpa only [Prod.mk.injEq] using houtcomes
  have hrun : Pool.Run (exec RecordFile.taskId) (fun _ _ => True) (programs exampleCalls, .empty) c :=
    Pool.run_of_schedule (fun x _ _ _ _ _ hx => ⟨x, hx⟩) exampleMoves (.refl _) hc
  obtain ⟨hnumbers, -, hcheckpoints, -⟩ := records_correct .empty hrun (.refl c)
  refine ⟨c, hrun, fun i => ?_, hcount, hnumbers, fun file => ?_⟩
  · cases i with
    | false => exact hfalse
    | true => exact htrue
  · exact hcheckpoints file

end Example

end TaskState
