import ChatgptSystem.Core.JsonSize
import ChatgptSystem.Project.TaskHistory

/-!
# Ending a task

What `complete` and `fail` make of an active task when nothing else is at work on it and no operation
of the file system fails.

* `Answers`, `Answers.step` — how the environment answers a call that meets no failure;
* `run_persist`, `run_withPathLock`, `run_load` — what the parts of a call do then;
* `tasks_end` — a task ends exactly if the text of its last record is not too long.
-/

open Interleaving
open ProjectCheckService (RepositoryStateObservation)

namespace TaskState

/-- What a call that meets no failure is answered: the repository, the time and the UUIDs, by how
many have been drawn before. -/
structure Answers where
  observation : RepositoryStateObservation
  now : String
  uuid : ℕ → String

variable {ι : Type}

def Answers.choice (answers : Answers) (disk : Disk ι) : TaskOp → Choice
  | .observeRepositoryState _ => .observed (.ok answers.observation)
  | .isoDate => .text answers.now
  | .randomUUID => .text (answers.uuid disk.drawn.length)
  | _ => .done

def Answers.step (answers : Answers) (canonical : RecordFile → String) (i : ι) (o : TaskOp)
    (disk : Disk ι) : Option (o.Res × Disk ι) :=
  o.apply canonical (answers.choice disk o) i disk

def Answers.Fresh (answers : Answers) (disk : Disk ι) : Prop :=
  answers.uuid disk.drawn.length ∉ disk.used ∧
    answers.uuid disk.drawn.length ∉ disk.drawn.map Prod.fst

section Runs

variable {answers : Answers} {canonical : RecordFile → String} {calls : ι → TaskCall} {i : ι}
  {disk : Disk ι} {file : RecordFile} {record : StoredTaskState}

variable {taskId : String} {updated : StoredTaskState}

theorem recordPath_ok {observation : RepositoryStateObservation} (h : validTaskId taskId = true) :
    recordPath observation taskId = .ok ⟨observation.projectFingerprint, taskId⟩ :=
  if_pos h

theorem run_bind_ok {α β : Type} {p : TaskM β} {f : β → TaskM α} {b : β} {later : Disk ι}
    (h : p.run (answers.step canonical i) disk = some (.ok b, later)) :
    (p.bind f).run (answers.step canonical i) disk =
      (f b).run (answers.step canonical i) later := by
  rw [Program.run_bind, h]
  rfl

theorem run_tryCatch_ok {α : Type} {p : TaskM α} {handler : AppError → TaskM α} {a : α}
    {later : Disk ι} (h : p.run (answers.step canonical i) disk = some (.ok a, later)) :
    (p.tryCatch handler).run (answers.step canonical i) disk = some (.ok a, later) := by
  rw [Program.tryCatch, Program.run_bind, Program.run_attempt, h]
  rfl

theorem run_randomUUID (hfresh : answers.Fresh disk) :
    randomUUID.run (answers.step canonical i) disk = some (.ok (answers.uuid disk.drawn.length),
      { disk with drawn := (answers.uuid disk.drawn.length, i) :: disk.drawn }) := by
  have hstep : answers.step canonical i .randomUUID disk = some (answers.uuid disk.drawn.length,
      { disk with drawn := (answers.uuid disk.drawn.length, i) :: disk.drawn }) :=
    if_neg (not_or.mpr hfresh)
  show (answers.step canonical i .randomUUID disk).bind _ = _
  rw [hstep]
  rfl

theorem run_openWx {uuid : String} (hnone : disk.temporaries file uuid = none) :
    (.request (.openWx file uuid) throwing : TaskM Unit).run (answers.step canonical i) disk =
      some (.ok (), disk.setTemporary file uuid (some [])) := by
  have hstep : answers.step canonical i (.openWx file uuid) disk =
      some (.ok (), disk.setTemporary file uuid (some [])) := by
    simp only [Answers.step, Answers.choice, TaskOp.apply, hnone]
  show (answers.step canonical i (.openWx file uuid) disk).bind _ = _
  rw [hstep]
  rfl

theorem run_writeFile {uuid : String} {content : Bytes} :
    (do
      let _ ← .request (.writeFile file uuid content) throwing
      let _ ← .request (.sync file uuid) throwing
      .request (.close file uuid) throwing : TaskM Unit).run (answers.step canonical i) disk =
      some (.ok (), disk.setTemporary file uuid (some content)) := rfl

theorem run_rename {uuid : String} {content : Bytes}
    (hcontent : disk.temporaries file uuid = some content) :
    (.request (.rename file uuid) throwing : TaskM Unit).run (answers.step canonical i) disk =
      some (.ok (), disk.replace i file uuid content) := by
  have hstep : answers.step canonical i (.rename file uuid) disk =
      some (.ok (), disk.replace i file uuid content) := by
    simp only [Answers.step, Answers.choice, TaskOp.apply, hcontent]
  show (answers.step canonical i (.rename file uuid) disk).bind _ = _
  rw [hstep]
  rfl

/-- What `persist` leaves. -/
structure Persisted (answers : Answers) (disk later : Disk ι) (file : RecordFile)
    (record : StoredTaskState) : Prop where
  files : later.files = Function.update disk.files file (some (recordText record))
  locks : later.locks = disk.locks
  used : later.used = disk.used
  drawn : later.drawn.map Prod.fst =
    answers.uuid disk.drawn.length :: disk.drawn.map Prod.fst
  temporaries : disk.temporaries = (fun _ _ => none) → later.temporaries = fun _ _ => none

theorem run_persist (htemporary : disk.temporaries file (answers.uuid disk.drawn.length) = none)
    (hfresh : answers.Fresh disk) (hid : taskIdOf record = file.taskId)
    (hfile : file.projectFingerprint = answers.observation.projectFingerprint)
    (hstorable : Storable file record) :
    ∃ later, (persist answers.observation record).run (answers.step canonical i) disk =
      some (.ok (), later) ∧ Persisted answers disk later file record := by
  have hpath : recordPath answers.observation (taskIdOf record) = .ok file := by
    rw [hid, recordPath_ok hstorable.path, ← hfile]
  have hsize : ¬ (recordText record).length > MAX_STATE_BYTES := Nat.not_lt.mpr hstorable.size
  generalize huuid : answers.uuid disk.drawn.length = uuid at htemporary
  let named : Disk ι := { disk with drawn := (uuid, i) :: disk.drawn }
  let written := (named.setTemporary file uuid (some [])).setTemporary file uuid
    (some (recordText record))
  have hcontent : written.temporaries file uuid = some (recordText record) := by
    simp [written, Disk.setTemporary]
  refine ⟨written.replace i file uuid (recordText record), ?_, rfl, rfl, rfl, ?_, fun hnone => ?_⟩
  rotate_left 1
  · rw [huuid]
    rfl
  · funext file' uuid'
    by_cases hfile' : file' = file
    · subst hfile'
      by_cases huuid' : uuid' = uuid <;>
        simp [written, named, Disk.replace, Disk.setTemporary, hnone, huuid']
    · simp [written, named, Disk.replace, Disk.setTemporary, hnone]
  unfold persist
  show ((Program.ofExcept (recordPath _ _)).bind _).run _ _ = _
  rw [hpath]
  show (if _ > _ then _ else _ : TaskM Unit).run _ _ = _
  rw [if_neg hsize]
  refine (run_bind_ok (run_randomUUID hfresh)).trans ?_
  rw [huuid]
  have htemporary' : named.temporaries file uuid = none := htemporary
  refine (run_bind_ok (run_tryCatch_ok (run_openWx htemporary'))).trans ?_
  refine (run_bind_ok (run_tryCatch_ok run_writeFile)).trans ?_
  exact run_tryCatch_ok (run_rename hcontent)

theorem run_persist_limit (hpath : validTaskId (taskIdOf record) = true)
    (hsize : MAX_STATE_BYTES < (recordText record).length) :
    (persist answers.observation record).run (answers.step canonical i) disk =
      some (.error (.limit "Durable task state record exceeds its bounded size."), disk) := by
  unfold persist
  show ((Program.ofExcept (recordPath _ _)).bind _).run _ _ = _
  rw [recordPath_ok hpath]
  show (if _ > _ then _ else _ : TaskM Unit).run _ _ = _
  rw [if_pos hsize]
  rfl

theorem run_load (hfile : file = ⟨answers.observation.projectFingerprint, taskId⟩)
    (hrecord : disk.files file = some (recordText record)) (hsound : Sound file record)
    (hstorable : Storable file record) :
    (load answers.observation taskId).run (answers.step canonical i) disk =
      some (.ok record, disk) := by
  subst hfile
  unfold load
  show ((Program.ofExcept (recordPath _ _)).bind _).run _ _ = _
  rw [recordPath_ok hstorable.path]
  have hstep : answers.step canonical i
      (.readFile ⟨answers.observation.projectFingerprint, taskId⟩) disk =
      some (.ok (recordText record), disk) := by
    simp only [Answers.step, Answers.choice, TaskOp.apply, hrecord]
  show (answers.step canonical i (.readFile _) disk).bind _ = _
  rw [hstep]
  show (Program.ofExcept (parseRecord _ _ _)).run _ _ = _
  rw [parseRecord_recordText hstorable.size hsound.valid]
  rfl

theorem run_withPathLock {α : Type} {operation : TaskM α} {outcome : Except AppError α}
    {later : Disk ι} (hfree : disk.locks.Ready (disk.locks.queues (canonical file)))
    (hop : operation.run (answers.step canonical i)
      { disk with locks := disk.locks.enqueue i (canonical file) } = some (outcome, later)) :
    (withPathLock file operation).run (answers.step canonical i) disk = some (outcome,
      { later with
        locks := (later.locks.settle disk.locks.tickets.length).forget (canonical file)
          disk.locks.tickets.length }) := by
  have hawait : answers.step canonical i (.await (disk.locks.queues (canonical file)))
      { disk with locks := disk.locks.enqueue i (canonical file) } =
      some ((), { disk with locks := disk.locks.enqueue i (canonical file) }) := by
    refine if_pos fun p hp => ?_
    obtain ⟨t, ht, hset⟩ := hfree p hp
    exact ⟨t, ChainLock.State.getElem?_enqueue_of_some ht, hset⟩
  show (answers.step canonical i (.await _) _).bind _ = _
  rw [hawait]
  show (operation.attempt.bind _).run _ _ = _
  rw [Program.run_bind, Program.run_attempt, hop]
  cases outcome <;> rfl

section

variable {f : StoredTaskState → TaskM StoredTaskState}
  {g : String → Except AppError StoredTaskState}
  (hfile : file = ⟨answers.observation.projectFingerprint, taskId⟩)
  (hrecord : disk.files file = some (recordText record)) (hsound : Sound file record)
  (hstorable : Storable file record)
  (hfree : disk.locks.Ready (disk.locks.queues (canonical file)))
  (hf : f record = update answers.observation g) (hchange : g answers.now = .ok updated)
  (hupdated : Sound file updated)

include hfile hrecord hsound hstorable hfree hf hchange hupdated

theorem run_changeRecord
    (htemporary : disk.temporaries file (answers.uuid disk.drawn.length) = none)
    (hfresh : answers.Fresh disk) (hsize : (recordText updated).length ≤ MAX_STATE_BYTES) :
    ∃ later, (withPathLock file ((load answers.observation taskId).bind f)).run
        (answers.step canonical i) disk = some (.ok (view updated answers.observation), later) ∧
      Persisted answers disk { later with locks := disk.locks } file updated ∧
      later.locks.queues (canonical file) = none := by
  let entered : Disk ι := { disk with locks := disk.locks.enqueue i (canonical file) }
  have hload : (load answers.observation taskId).run (answers.step canonical i) entered =
      some (.ok record, entered) := run_load hfile hrecord hsound hstorable
  obtain ⟨later, hpersist, hlater⟩ : ∃ later, (persist answers.observation updated).run
      (answers.step canonical i) entered = some (.ok (), later) ∧
        Persisted answers entered later file updated :=
    run_persist htemporary hfresh hupdated.taskIdOf (hfile ▸ rfl) ⟨hstorable.path, hsize⟩
  have hchanged : ((load answers.observation taskId).bind f).run (answers.step canonical i) entered =
      some (.ok (view updated answers.observation), later) := by
    rw [run_bind_ok hload, hf, update]
    show ((Program.ofExcept (g answers.now)).bind _).run _ _ = _
    rw [hchange]
    exact run_bind_ok hpersist
  refine ⟨_, run_withPathLock hfree hchanged,
    ⟨hlater.files, rfl, hlater.used, hlater.drawn, hlater.temporaries⟩, ?_⟩
  have hlast : (later.locks.settle disk.locks.tickets.length).queues (canonical file) =
      some disk.locks.tickets.length := by
    rw [hlater.locks]
    exact Function.update_self ..
  show (ChainLock.State.forget _ _ _).queues (canonical file) = none
  rw [ChainLock.State.forget, if_pos hlast]
  exact Function.update_self ..

theorem run_changeRecord_limit (hsize : MAX_STATE_BYTES < (recordText updated).length) :
    ∃ later, (withPathLock file ((load answers.observation taskId).bind f)).run
        (answers.step canonical i) disk =
        some (.error (.limit "Durable task state record exceeds its bounded size."), later) ∧
      later.files = disk.files := by
  let entered : Disk ι := { disk with locks := disk.locks.enqueue i (canonical file) }
  have hload : (load answers.observation taskId).run (answers.step canonical i) entered =
      some (.ok record, entered) := run_load hfile hrecord hsound hstorable
  have hpath : validTaskId (taskIdOf updated) = true := by
    rw [hupdated.taskIdOf]
    exact hstorable.path
  have hpersist : (persist answers.observation updated).run (answers.step canonical i) entered =
      some (.error (.limit "Durable task state record exceeds its bounded size."), entered) :=
    run_persist_limit hpath hsize
  have hchanged : ((load answers.observation taskId).bind f).run (answers.step canonical i) entered =
      some (.error (.limit "Durable task state record exceeds its bounded size."), entered) := by
    rw [run_bind_ok hload, hf, update]
    show ((Program.ofExcept (g answers.now)).bind _).run _ _ = _
    rw [hchange]
    show ((persist answers.observation updated).bind _).run _ _ = _
    rw [Program.run_bind, hpersist]
    rfl
  exact ⟨_, run_withPathLock hfree hchanged, rfl⟩

end

theorem run_terminal {endStatus summary cwdInput : String} {evidenceRefs : Option (List String)}
    {verified : Option VerifiedObservation}
    (hverified : ∀ v ∈ verified, v.head = answers.observation.head ∧
      v.workingTreeDigest = answers.observation.workingTreeDigest)
    (hid : validTaskId taskId = true) :
    (terminal endStatus taskId summary evidenceRefs cwdInput verified).run
        (answers.step canonical i) disk =
      (withPathLock ⟨answers.observation.projectFingerprint, taskId⟩
        ((load answers.observation taskId).bind fun record =>
          if status record ≠ some "active" then
            throw (.conflict "Only an active task can enter a terminal state.")
          else update answers.observation fun now =>
            terminalRecord answers.observation now endStatus summary evidenceRefs record)).run
        (answers.step canonical i) disk := by
  have hmatches : ¬ verified.any (fun v => v.head ≠ answers.observation.head ||
      v.workingTreeDigest ≠ answers.observation.workingTreeDigest) = true := by
    cases verified with
    | none => exact Bool.false_ne_true
    | some v =>
      obtain ⟨hhead, hdigest⟩ := hverified v rfl
      simp [hhead, hdigest]
  unfold terminal
  show (if _ then _ else _ : TaskM StoredTaskState).run _ _ = _
  rw [if_neg hmatches]
  show ((Program.ofExcept (recordPath _ _)).bind _).run _ _ = _
  rw [recordPath_ok hid]
  rfl

theorem run_start {goal cwdInput : String} {nextStep : Option String} {named : Disk ι}
    (hnamed : named = { disk with drawn := (answers.uuid disk.drawn.length, i) :: disk.drawn })
    (hfirst : answers.Fresh disk) (hsecond : answers.Fresh named)
    (hfile : file = ⟨answers.observation.projectFingerprint, answers.uuid disk.drawn.length⟩)
    (hrecord : startRecord answers.observation answers.now file.taskId goal nextStep = .ok record)
    (htemporary : named.temporaries file (answers.uuid named.drawn.length) = none)
    (hstorable : Storable file record) :
    ∃ later, (start goal cwdInput nextStep).run (answers.step canonical i) disk =
        some (.ok (view record answers.observation), later) ∧
      Persisted answers named later file record := by
  have hid : taskIdOf record = file.taskId := (sound_start hrecord).2.taskIdOf
  obtain ⟨later, hpersist, hlater⟩ : ∃ later, (persist answers.observation record).run
      (answers.step canonical i) named = some (.ok (), later) ∧
        Persisted answers named later file record :=
    run_persist htemporary hsecond hid (hfile ▸ rfl) hstorable
  refine ⟨later, ?_, hlater⟩
  unfold start
  show (randomUUID.bind _).run _ _ = _
  rw [run_bind_ok (run_randomUUID hfirst), ← hnamed]
  show ((Program.ofExcept (startRecord _ _ _ _ _)).bind _).run _ _ = _
  have htaskId : answers.uuid disk.drawn.length = file.taskId := hfile ▸ rfl
  rw [htaskId, hrecord]
  exact run_bind_ok hpersist

theorem run_checkpoint {cwdInput : String} {input : TaskCheckpointInput}
    (hfile : file = ⟨answers.observation.projectFingerprint, taskId⟩)
    (hrecord : disk.files file = some (recordText record)) (hsound : Sound file record)
    (hstorable : Storable file record) (hactive : status record = some "active")
    (hfew : (checkpoints record).length < MAX_CHECKPOINTS)
    (hupdate : checkpointRecord answers.observation answers.now input record = .ok updated)
    (hfree : disk.locks.Ready (disk.locks.queues (canonical file)))
    (htemporary : disk.temporaries file (answers.uuid disk.drawn.length) = none)
    (hfresh : answers.Fresh disk) (hsize : (recordText updated).length ≤ MAX_STATE_BYTES) :
    ∃ later, (checkpoint taskId input cwdInput).run (answers.step canonical i) disk =
        some (.ok (view updated answers.observation), later) ∧
      Persisted answers disk { later with locks := disk.locks } file updated ∧
      later.locks.queues (canonical file) = none := by
  have hid : validTaskId taskId = true := by
    have hpath := hstorable.path
    rwa [hfile] at hpath
  let change (now : String) := checkpointRecord answers.observation now input record
  let append (record : StoredTaskState) : TaskM StoredTaskState :=
    if status record ≠ some "active" then
      throw (.conflict "Only an active task can accept a checkpoint.")
    else if (checkpoints record).length ≥ MAX_CHECKPOINTS then
      throw (.limit "Task checkpoint count exceeded its bounded limit.")
    else update answers.observation fun now =>
      checkpointRecord answers.observation now input record
  have hf : append record = update answers.observation change :=
    (if_neg (not_not.mpr hactive)).trans (if_neg (Nat.not_le.mpr hfew))
  obtain ⟨later, hcall, hlater⟩ :=
    run_changeRecord (i := i) (f := append) (g := change) hfile hrecord hsound hstorable hfree hf
      hupdate (sound_checkpoint hsound hactive hfew hupdate).2 htemporary hfresh hsize
  refine ⟨later, ?_, hlater⟩
  unfold checkpoint
  show ((Program.ofExcept (recordPath _ _)).bind _).run _ _ = _
  rw [recordPath_ok hid, ← hfile]
  exact hcall

end Runs

/-! ## What may be stored -/

/-- A text that `boundedText` accepts. -/
structure Bounded (maxBytes : ℕ) (value : String) : Prop where
  visible : Text.trim value.toList ≠ []
  noNul : value.toList.contains '\x00' = false
  size : value.utf8ByteSize ≤ maxBytes

theorem Bounded.boundedText {label value : String} {maxBytes : ℕ} (h : Bounded maxBytes value) :
    boundedText label value maxBytes = .ok (redacted value) := by
  rw [TaskState.boundedText, if_neg h.visible, if_neg (by rw [h.noNul]; exact Bool.false_ne_true),
    if_neg (Nat.not_lt.mpr h.size)]

/-- A list that `boundedList` accepts. -/
structure BoundedItems (maxItems maxBytes : ℕ) (values : Option (List String)) : Prop where
  count : (values.getD []).length ≤ maxItems
  items : ∀ value ∈ values.getD [], Bounded maxBytes value

theorem BoundedItems.boundedList {label : String} {values : Option (List String)}
    {maxItems maxBytes : ℕ} (h : BoundedItems maxItems maxBytes values) :
    boundedList label values maxItems maxBytes = .ok ((values.getD []).map redacted) := by
  rw [TaskState.boundedList, if_neg (Nat.not_lt.mpr h.count)]
  have hitems := h.items
  generalize values.getD [] = list at hitems
  induction list with
  | nil => rfl
  | cons value list ih =>
    rw [List.mapM_cons, (hitems value List.mem_cons_self).boundedText,
      ih fun v hv => hitems v (List.mem_cons_of_mem _ hv)]
    rfl

/-! ## The end of a task -/

section Ending

variable {canonical : RecordFile → String} {calls : ι → TaskCall} {root : Disk ι}
  {c : Pool ι TaskOp TaskOp.Res AppError StoredTaskState × Disk ι} {answers : Answers} {i : ι}
  {taskId summary : String} {evidenceRefs : Option (List String)} {record : StoredTaskState}

/-- What a call that ends a task does: the ended record takes its place and is loaded again, or its
text is too long and the files stay as they were. -/
def Ends (answers : Answers) (canonical : RecordFile → String) (i : ι) (disk : Disk ι)
    (file : RecordFile) (call : TaskM StoredTaskState) (updated : StoredTaskState) : Prop :=
  ∃ later,
    ((recordText updated).length ≤ MAX_STATE_BYTES →
      call.run (answers.step canonical i) disk =
        some (.ok (view updated answers.observation), later) ∧
      later.files file = some (recordText updated) ∧
      (load answers.observation file.taskId).run (answers.step canonical i) later =
        some (.ok updated, later)) ∧
    (MAX_STATE_BYTES < (recordText updated).length →
      call.run (answers.step canonical i) disk =
        some (.error (.limit "Durable task state record exceeds its bounded size."), later) ∧
      later.files = disk.files)

theorem terminalRecord_eq (observation : RepositoryStateObservation) (now endStatus : String)
    (record : StoredTaskState) (hsummary : Bounded MAX_SUMMARY_BYTES summary)
    (hrefs : BoundedItems 50 MAX_EVIDENCE_BYTES evidenceRefs) :
    terminalRecord observation now endStatus summary evidenceRefs record =
      .ok (Json.spread record (terminalUpdates observation now endStatus
        (revision (.object record) + 1) (redacted summary)
        ((evidenceRefs.getD []).map redacted))) := by
  rw [terminalRecord, hsummary.boundedText, hrefs.boundedList]
  rfl

theorem ends_terminal {endStatus cwdInput : String} {verified : Option VerifiedObservation}
    {disk : Disk ι} {file : RecordFile} (hend : endStatus = "completed" ∨ endStatus = "failed")
    (hfile : file = ⟨answers.observation.projectFingerprint, taskId⟩)
    (hrecord : disk.files file = some (recordText record)) (hsound : Sound file record)
    (hstorable : Storable file record) (hactive : status record = some "active")
    (htemporary : disk.temporaries file (answers.uuid disk.drawn.length) = none)
    (hverified : ∀ v ∈ verified, v.head = answers.observation.head ∧
      v.workingTreeDigest = answers.observation.workingTreeDigest)
    (hsummary : Bounded MAX_SUMMARY_BYTES summary)
    (hrefs : BoundedItems 50 MAX_EVIDENCE_BYTES evidenceRefs)
    (hfree : disk.locks.Ready (disk.locks.queues (canonical file))) (hfresh : answers.Fresh disk) :
    ∃ updated, terminalRecord answers.observation answers.now endStatus summary evidenceRefs record =
        .ok updated ∧
      Ends answers canonical i disk file
        (terminal endStatus taskId summary evidenceRefs cwdInput verified) updated := by
  have hid : validTaskId taskId = true := by
    have hpath := hstorable.path
    rwa [hfile] at hpath
  have hupdate := terminalRecord_eq answers.observation answers.now endStatus record hsummary hrefs
  generalize Json.spread record _ = updated at hupdate
  have hupdated := (sound_terminal hend hsound hactive hupdate).2
  refine ⟨updated, hupdate, ?_⟩
  let change (now : String) :=
    terminalRecord answers.observation now endStatus summary evidenceRefs record
  let finish (record : StoredTaskState) : TaskM StoredTaskState :=
    if status record ≠ some "active" then
      throw (.conflict "Only an active task can enter a terminal state.")
    else update answers.observation fun now =>
      terminalRecord answers.observation now endStatus summary evidenceRefs record
  have hf : finish record = update answers.observation change :=
    if_neg (not_not.mpr hactive)
  unfold Ends
  rw [run_terminal hverified hid, ← hfile]
  rcases Nat.lt_or_ge MAX_STATE_BYTES (recordText updated).length with hlong | hshort
  · obtain ⟨later, hcall, hfiles⟩ :=
      run_changeRecord_limit (i := i) (f := finish) (g := change) hfile hrecord hsound hstorable hfree hf hupdate
        hupdated hlong
    exact ⟨later, fun hshort => absurd hlong (Nat.not_lt.mpr hshort), fun _ => ⟨hcall, hfiles⟩⟩
  · obtain ⟨later, hcall, hlater, -⟩ :=
      run_changeRecord (i := i) (f := finish) (g := change) hfile hrecord hsound hstorable hfree hf hupdate hupdated
        htemporary hfresh hshort
    have hplace : later.files file = some (recordText updated) := by
      have hfiles : later.files = Function.update disk.files file (some (recordText updated)) :=
        hlater.files
      rw [hfiles, Function.update_self]
    refine ⟨later, fun _ => ⟨hcall, hplace, ?_⟩, fun hlong => absurd hlong (Nat.not_lt.mpr hshort)⟩
    have hfile' : file = ⟨answers.observation.projectFingerprint, file.taskId⟩ := by rw [hfile]
    exact run_load hfile' hplace hupdated ⟨hstorable.path, hshort⟩

variable [DecidableEq ι]

/-- An active task that no other call is at work on is ended by `complete` and `fail` exactly if the
text of its last record is not too long. -/
theorem tasks_end (hroot : Reachable canonical root)
    (hrun : Pool.Run (exec canonical) (fun _ _ => True) (programs calls, root) c)
    (hrecord : c.2.files ⟨answers.observation.projectFingerprint, taskId⟩ = some (recordText record))
    (hactive : status record = some "active")
    (hsummary : Bounded MAX_SUMMARY_BYTES summary)
    (hrefs : BoundedItems 50 MAX_EVIDENCE_BYTES evidenceRefs)
    (hfree : c.2.locks.Ready
      (c.2.locks.queues (canonical ⟨answers.observation.projectFingerprint, taskId⟩)))
    (hfresh : answers.Fresh c.2) (cwdInput : String) :
    (∃ updated, terminalRecord answers.observation answers.now "completed" summary evidenceRefs
        record = .ok updated ∧
      Ends answers canonical i c.2 ⟨answers.observation.projectFingerprint, taskId⟩
        (complete taskId summary evidenceRefs cwdInput
          ⟨answers.observation.head, answers.observation.workingTreeDigest⟩) updated) ∧
    ∃ updated, terminalRecord answers.observation answers.now "failed" summary evidenceRefs
        record = .ok updated ∧
      Ends answers canonical i c.2 ⟨answers.observation.projectFingerprint, taskId⟩
        (fail taskId summary evidenceRefs cwdInput) updated := by
  obtain ⟨hinv, heffects, -⟩ := inv_of_reachable hroot calls
  have hsafe := safe_of_run hinv heffects hrun
  obtain ⟨stored, htext, hsound, hstorable⟩ := hsafe.1.sound _ _ hrecord
  obtain rfl := recordText_injective htext
  have htemporary : c.2.temporaries ⟨answers.observation.projectFingerprint, taskId⟩
      (answers.uuid c.2.drawn.length) = none := by
    by_contra hsome
    exact (hsafe.1.temporary _ _ hsome).elim hfresh.1 hfresh.2
  refine ⟨ends_terminal (.inl rfl) rfl hrecord hsound hstorable hactive htemporary ?_ hsummary hrefs
      hfree hfresh,
    ends_terminal (.inr rfl) rfl hrecord hsound hstorable hactive htemporary nofun hsummary hrefs
      hfree hfresh⟩
  rintro v ⟨⟩
  exact ⟨rfl, rfl⟩

end Ending

section Example

def exampleAnswers : Answers where
  observation := exampleObservation
  now := "now"
  uuid n := if n = 0 then exampleTask else String.ofList (List.replicate n 'u')

def exampleFile : RecordFile := ⟨"f", exampleTask⟩

def startedRecord : StoredTaskState := newRecord exampleObservation "now" exampleTask "g" none

/-- A task that has just been started can be ended. -/
theorem tasks_end_example :
    ∃ (c : Pool Unit TaskOp TaskOp.Res AppError StoredTaskState × Disk Unit)
      (completed failed : StoredTaskState),
      Pool.Run (exec RecordFile.taskId) (fun _ _ => True)
        (programs fun _ => .start "g" "." none, .empty) c ∧
      c.2.files exampleFile = some (recordText startedRecord) ∧
      Ends exampleAnswers RecordFile.taskId () c.2 exampleFile
        (complete exampleTask "s" none "." ⟨"h", "w"⟩) completed ∧
      Ends exampleAnswers RecordFile.taskId () c.2 exampleFile
        (fail exampleTask "s" none ".") failed := by
  have hfinal : (Pool.schedule (TaskOp.apply RecordFile.taskId) (startMoves.map ((), ·))
      (programs fun _ => .start "g" "." none, .empty)).map (fun c =>
        (decide (c.2.files exampleFile = some (recordText startedRecord)),
          decide (c.2.locks.Ready (c.2.locks.queues exampleTask)),
          decide (exampleAnswers.uuid c.2.drawn.length ∉ c.2.used),
          decide (exampleAnswers.uuid c.2.drawn.length ∉ c.2.drawn.map Prod.fst))) =
      some (true, true, true, true) := by
    decide +kernel
  obtain ⟨c, hc, houtcomes⟩ := Option.map_eq_some_iff.mp hfinal
  obtain ⟨hrecord, hfree, hunused, hundrawn⟩ : _ ∧ _ ∧ _ ∧ _ := by
    simpa only [Prod.mk.injEq, decide_eq_true_eq] using houtcomes
  have hrun : Pool.Run (exec RecordFile.taskId) (fun _ _ => True)
      (programs fun _ => .start "g" "." none, .empty) c :=
    Pool.run_of_schedule (fun x _ _ _ _ _ hx => ⟨x, hx⟩) _ (.refl _) hc
  have hsummary : Bounded MAX_SUMMARY_BYTES "s" := ⟨by decide, by decide, by decide +kernel⟩
  have hrefs : BoundedItems 50 MAX_EVIDENCE_BYTES none := ⟨Nat.zero_le _, nofun⟩
  have hactive : status startedRecord = some "active" := rfl
  have hfresh : exampleAnswers.Fresh c.2 := ⟨hunused, hundrawn⟩
  obtain ⟨⟨completed, -, hcompleted⟩, failed, -, hfailed⟩ :=
    tasks_end (i := ()) .empty hrun hrecord hactive hsummary hrefs hfree hfresh "."
  exact ⟨c, completed, failed, hrun, hrecord, hcompleted, hfailed⟩

end Example

/-! ## A task without room for its end -/

section Example

/-- Control characters: each is one byte of a text, and six of the text of a record. -/
def fill (n : ℕ) : String := String.ofList (List.replicate n '\x01')

theorem redacted_fill (n : ℕ) : redacted (fill n) = fill n := by
  have hkept : ∀ rule ∈ REDACTIONS,
      rule.replaceAll (List.replicate n '\x01') = List.replicate n '\x01' := by
    intro rule hrule
    refine Replacement.replaceAll_eq_self (q := (· = '\x01')) ?_ fun c hc =>
      List.eq_of_mem_replicate hc
    rintro before c rest hbefore rfl
    have hnone : ∀ rule ∈ REDACTIONS, ∀ before ∈ [none, some '\x01'],
        rule.matchAt before ('\x01' :: rest) = none := by
      simp only [REDACTIONS, List.forall_mem_cons]
      refine ⟨⟨?_, ?_, nofun⟩, ⟨?_, ?_, nofun⟩, ⟨?_, ?_, nofun⟩, ⟨?_, ?_, nofun⟩, ⟨?_, ?_, nofun⟩,
        ⟨?_, ?_, nofun⟩, nofun⟩ <;> rfl
    refine hnone rule hrule before ?_
    cases before with
    | none => exact List.mem_cons_self
    | some b =>
      obtain rfl := hbefore b rfl
      exact List.mem_cons_of_mem _ List.mem_cons_self
  rw [redacted, fill, String.toList_ofList]
  congr 1
  generalize REDACTIONS = rules at hkept
  induction rules with
  | nil => rfl
  | cons rule rules ih =>
    rw [List.foldl_cons, hkept rule List.mem_cons_self]
    exact ih fun r hr => hkept r (List.mem_cons_of_mem _ hr)

theorem bounded_fill {n maxBytes : ℕ} (hpositive : 0 < n) (hsize : n ≤ maxBytes) :
    Bounded maxBytes (fill n) where
  visible := by
    rw [fill, String.toList_ofList, Text.trim_eq_self fun c hc => by
      rw [List.eq_of_mem_replicate hc]; decide]
    exact List.ne_nil_of_length_pos (by rwa [List.length_replicate])
  noNul := by
    rw [fill, String.toList_ofList]
    simp
  size := by
    rw [Json.utf8ByteSize_eq, fill, String.toList_ofList, Json.utf8Length_replicate]
    exact (Nat.mul_one n).trans_le hsize

theorem boundedItems_fill {m n maxItems maxBytes : ℕ} (hcount : m ≤ maxItems) (hpositive : 0 < n)
    (hsize : n ≤ maxBytes) : BoundedItems maxItems maxBytes (some (List.replicate m (fill n))) where
  count := by
    rw [Option.getD_some, List.length_replicate]
    exact hcount
  items := by
    intro value hvalue
    rw [List.eq_of_mem_replicate hvalue]
    exact bounded_fill hpositive hsize

theorem map_redacted_fill (m n : ℕ) :
    (List.replicate m (fill n)).map redacted = List.replicate m (fill n) := by
  rw [List.map_replicate, redacted_fill]

def fullRecord (revision : ℤ) (checkpoints : List Json) : StoredTaskState :=
  [("taskId", .string exampleTask), ("status", .string "active"), ("revision", .number revision),
    ("goal", .string (fill 1)), ("repositoryRoot", .string "/r"), ("projectFingerprint", .string "f"),
    ("baseHead", .string "h"), ("currentHead", .string "h"), ("workingTreeDigest", .string "w"),
    ("checkpoints", .array checkpoints), ("createdAt", .string "now"), ("updatedAt", .string "now")]

/-- A checkpoint with as much text as its findings and decisions may have. -/
def fullInput : TaskCheckpointInput where
  summary := fill 1
  findings := some (List.replicate 20 (fill 2048))
  decisions := some (List.replicate 20 (fill 2048))
  inspectedFiles := none
  modifiedFiles := none
  nextStep := none
  evidenceRefs := none

def checkpointWith (revision : ℤ) (items : Json) : Json :=
  .object [("revision", .number revision), ("summary", .string (fill 1)), ("findings", items),
    ("decisions", items), ("inspectedFiles", strings []), ("modifiedFiles", strings []),
    ("evidenceRefs", strings []), ("head", .string "h"), ("workingTreeDigest", .string "w"),
    ("createdAt", .string "now")]

/-- The checkpoint that is made of `fullInput`. -/
def fullCheckpoint (revision : ℤ) : Json :=
  checkpointWith revision (strings (List.replicate 20 (fill 2048)))

theorem startRecord_full :
    startRecord exampleObservation "now" exampleTask (fill 1) none = .ok (fullRecord 1 []) := by
  rw [startRecord, (bounded_fill (by decide) (by decide)).boundedText, redacted_fill]
  rfl

theorem checkpointRecord_full (revision : ℤ) (checkpoints : List Json) :
    checkpointRecord exampleObservation "now" fullInput (fullRecord revision checkpoints) =
      .ok (fullRecord (revision + 1) (checkpoints ++ [fullCheckpoint (revision + 1)])) := by
  have hnew : newCheckpoint exampleObservation "now" (revision + 1) fullInput =
      .ok (fullCheckpoint (revision + 1), none) := by
    rw [newCheckpoint, fullInput, (bounded_fill (by decide) (by decide)).boundedText, redacted_fill,
      (boundedItems_fill (by decide) (by decide) (by decide)).boundedList,
      (boundedItems_fill (by decide) (by decide) (by decide)).boundedList, Option.getD_some,
      map_redacted_fill]
    rfl
  have hspread (items : List Json) : Json.spread (fullRecord revision checkpoints)
      (checkpointUpdates exampleObservation "now" (revision + 1) none items) =
      fullRecord (revision + 1) items := by
    unfold fullRecord
    generalize fill 1 = goal
    rfl
  have hrevision : TaskState.revision (.object (fullRecord revision checkpoints)) = revision := rfl
  have hcheckpoints : TaskState.checkpoints (fullRecord revision checkpoints) = checkpoints := rfl
  rw [checkpointRecord, hrevision, hcheckpoints, hnew, ← hspread]
  rfl

theorem length_recordText (record : StoredTaskState) :
    (recordText record).length = Json.textBytes 0 (.object record) + 1 := by
  rw [recordText, Text.encode, List.flatMap_append, List.length_append, Json.textBytes]
  rfl

theorem textBytes_strings_fill (depth n : ℕ) {m : ℕ} (h : m ≠ 0) :
    Json.textBytes depth (strings (List.replicate m (fill n))) =
      2 + 2 * depth + m * (6 + 2 * depth + 6 * n) := by
  have hquote : Json.quoteBytes (fill n) = 2 + 6 * n := by
    have hescape : Json.utf8Length (Json.escape '\x01') = 6 := by decide
    rw [fill, Json.quoteBytes_replicate, hescape, Nat.mul_comm]
  have hitem : 4 + 2 * depth + Json.textBytes (depth + 1) (.string (fill n)) =
      6 + 2 * depth + 6 * n := by
    rw [Json.textBytes_string, hquote]
    omega
  have hne : List.replicate m (Json.string (fill n)) ≠ [] := by simp [h]
  rw [strings, List.map_replicate, Json.textBytes_array _ hne, List.map_replicate, hitem,
    List.sum_replicate_nat]

theorem textBytes_checkpointWith (revision : ℤ) (items : Json) :
    Json.textBytes 2 (checkpointWith revision items) =
      252 + 2 * Json.textBytes 3 items + Json.utf8Length (toString revision).toList := by
  have hnames : ["revision", "summary", fill 1, "findings", "decisions", "inspectedFiles",
      "modifiedFiles", "evidenceRefs", "head", "h", "workingTreeDigest", "w", "createdAt",
      "now"].map Json.quoteBytes =
      [10, 9, 8, 10, 11, 16, 15, 14, 6, 3, 19, 3, 11, 5] := by
    decide +kernel
  simp only [List.map_cons, List.map_nil, List.cons.injEq, and_true] at hnames
  have hempty : Json.textBytes 3 (strings []) = 2 := by decide +kernel
  rw [checkpointWith, Json.textBytes_object _ (List.cons_ne_nil _ _)]
  simp only [List.map_cons, List.map_nil, List.sum_cons, List.sum_nil, Json.memberBytes,
    Json.textBytes_string, Json.textBytes_number, hnames, hempty, Nat.reduceAdd]
  omega

theorem textBytes_fullCheckpoint (revision : ℤ) : Json.textBytes 2 (fullCheckpoint revision) =
    492268 + Json.utf8Length (toString revision).toList := by
  rw [fullCheckpoint, textBytes_checkpointWith, textBytes_strings_fill 3 2048 (by decide : 20 ≠ 0)]

theorem textBytes_fullRecord (revision : ℤ) (checkpoints : List Json) :
    Json.textBytes 0 (.object (fullRecord revision checkpoints)) =
      299 + Json.utf8Length (toString revision).toList + Json.textBytes 1 (.array checkpoints) := by
  have hnames : ["taskId", exampleTask, "status", "active", "revision", "goal", fill 1,
      "repositoryRoot", "/r", "projectFingerprint", "f", "baseHead", "h", "currentHead",
      "workingTreeDigest", "w", "checkpoints", "createdAt", "now", "updatedAt"].map
      Json.quoteBytes =
      [8, 38, 8, 8, 10, 6, 8, 16, 4, 20, 3, 10, 3, 13, 19, 3, 13, 11, 5, 11] := by
    decide +kernel
  simp only [List.map_cons, List.map_nil, List.cons.injEq, and_true] at hnames
  rw [fullRecord, Json.textBytes_object _ (List.cons_ne_nil _ _)]
  simp only [List.map_cons, List.map_nil, List.sum_cons, List.sum_nil, Json.memberBytes,
    Json.textBytes_string, Json.textBytes_number, hnames, Nat.reduceAdd]
  omega

def exampleRecord : Fin 3 → StoredTaskState
  | 0 => fullRecord 1 []
  | 1 => fullRecord 2 [fullCheckpoint 2]
  | 2 => fullRecord 3 [fullCheckpoint 2, fullCheckpoint 3]

theorem exampleRecord_size (n : Fin 3) : (recordText (exampleRecord n)).length ≤ MAX_STATE_BYTES := by
  have hnumbers : [1, 2, 3].map (fun n : ℤ => Json.utf8Length (toString n).toList) = [1, 1, 1] := by
    decide +kernel
  simp only [List.map_cons, List.map_nil, List.cons.injEq, and_true] at hnumbers
  have hlimit : MAX_STATE_BYTES = 1048576 := rfl
  rw [length_recordText, hlimit]
  match n with
  | 0 =>
    have hempty : Json.textBytes 1 (.array []) = 2 := by decide +kernel
    rw [exampleRecord, textBytes_fullRecord, hempty, hnumbers.1]
    decide
  | 1 =>
    rw [exampleRecord, textBytes_fullRecord, Json.textBytes_array _ (List.cons_ne_nil _ _)]
    simp only [List.map_cons, List.map_nil, List.sum_cons, List.sum_nil, textBytes_fullCheckpoint,
      hnumbers, Nat.reduceAdd]
    decide
  | 2 =>
    rw [exampleRecord, textBytes_fullRecord, Json.textBytes_array _ (List.cons_ne_nil _ _)]
    simp only [List.map_cons, List.map_nil, List.sum_cons, List.sum_nil, textBytes_fullCheckpoint,
      hnumbers, Nat.reduceAdd]
    decide

def exampleRefs : List String := List.replicate 50 (fill 512)

theorem ended_size (endStatus summary : String) (n : ℤ) {updated : StoredTaskState}
    (h : updated = Json.spread (exampleRecord 2) (terminalUpdates exampleObservation "now" endStatus n
      summary exampleRefs)) : MAX_STATE_BYTES < (recordText updated).length := by
  have hlimit : MAX_STATE_BYTES = 1048576 := rfl
  have hcheckpoints : 984000 ≤
      Json.textBytes 1 (.array [fullCheckpoint 2, fullCheckpoint 3]) := by
    rw [Json.textBytes_array _ (List.cons_ne_nil _ _)]
    simp only [List.map_cons, List.map_nil, List.sum_cons, List.sum_nil, Nat.reduceAdd,
      textBytes_fullCheckpoint]
    omega
  have hrefs : 153000 ≤ Json.textBytes 2 (strings exampleRefs) := by
    rw [exampleRefs, textBytes_strings_fill 2 512 (by decide : 50 ≠ 0)]
    decide
  rw [length_recordText, h, hlimit, exampleRecord, fullRecord]
  generalize Json.array [fullCheckpoint 2, fullCheckpoint 3] = checkpoints at hcheckpoints
  rw [terminalUpdates]
  generalize strings exampleRefs = refs at hrefs
  generalize houtcome : Json.object [_, _, _, _, _, _] = outcome
  have hmember : Json.textBytes 2 refs ≤ Json.textBytes 1 outcome := by
    rw [← houtcome, Json.textBytes_object 1 (List.cons_ne_nil _ _)]
    refine le_trans (Json.memberBytes_le 1 ?_ : Json.textBytes 2 ("evidenceRefs", refs).2 ≤ _)
      (Nat.le_add_left _ _)
    exact List.mem_of_getElem? (i := 2) rfl
  generalize hended : Json.spread _ _ = ended
  -- the outcome stands behind the members that the record has had
  have hcheckpointsMember : ("checkpoints", checkpoints) ∈ ended.take 12 := by
    rw [← hended]
    exact List.mem_of_getElem? (i := 9) rfl
  have houtcomeMember : ("outcome", outcome) ∈ ended.drop 12 := by
    rw [← hended]
    exact List.mem_of_getElem? (i := 0) rfl
  have hlength : Json.textBytes 1 checkpoints + Json.textBytes 1 outcome ≤
      Json.textBytes 0 (.object (ended.take 12 ++ ended.drop 12)) :=
    Json.le_textBytes_object 0 hcheckpointsMember houtcomeMember
  rw [List.take_append_drop] at hlength
  omega

/-- No call is at work, and `n` UUIDs have been drawn. -/
structure Idle (n : ℕ) (disk : Disk Unit) : Prop where
  temporaries : disk.temporaries = fun _ _ => none
  used : disk.used = []
  drawn : disk.drawn.map Prod.fst = ((List.range n).map exampleAnswers.uuid).reverse
  free : disk.locks.queues exampleTask = none

variable {disk : Disk Unit}

theorem Idle.count {n : ℕ} (h : Idle n disk) : disk.drawn.length = n := by
  rw [← List.length_map Prod.fst, h.drawn, List.length_reverse, List.length_map, List.length_range]

theorem Idle.fresh {n : ℕ} (h : Idle n disk) (hn : n ≤ 4) : exampleAnswers.Fresh disk := by
  have hnew : ∀ n ∈ List.range 5,
      exampleAnswers.uuid n ∉ ((List.range n).map exampleAnswers.uuid).reverse := by
    decide +kernel
  rw [Answers.Fresh, h.count, h.used, h.drawn]
  exact ⟨List.not_mem_nil, hnew n (List.mem_range.mpr (Nat.lt_succ_of_le hn))⟩

theorem Idle.persisted {n : ℕ} {later : Disk Unit} {record : StoredTaskState} (h : Idle n disk)
    (hlater : Persisted exampleAnswers disk { later with locks := disk.locks } exampleFile record)
    (hfree : later.locks.queues exampleTask = none) : Idle (n + 1) later where
  temporaries := hlater.temporaries h.temporaries
  used := hlater.used.trans h.used
  drawn := by
    have hdrawn : later.drawn.map Prod.fst =
        exampleAnswers.uuid disk.drawn.length :: disk.drawn.map Prod.fst := hlater.drawn
    rw [hdrawn, h.count, h.drawn, List.range_succ, List.map_append, List.reverse_append]
    rfl
  free := hfree

theorem run_example_checkpoint {n : ℕ} {k k' : Fin 3} (h : Idle n disk) (hn : n ≤ 4)
    (hrecord : disk.files exampleFile = some (recordText (exampleRecord k)))
    (hsound : Sound exampleFile (exampleRecord k))
    (hactive : status (exampleRecord k) = some "active")
    (hfew : (checkpoints (exampleRecord k)).length < MAX_CHECKPOINTS)
    (hupdate : checkpointRecord exampleObservation "now" fullInput (exampleRecord k) =
      .ok (exampleRecord k')) :
    ∃ later, (checkpoint exampleTask fullInput ".").run
        (exampleAnswers.step RecordFile.taskId ()) disk =
        some (.ok (view (exampleRecord k') exampleObservation), later) ∧
      Idle (n + 1) later ∧ Sound exampleFile (exampleRecord k') ∧
      later.files exampleFile = some (recordText (exampleRecord k')) := by
  have hfree : disk.locks.Ready (disk.locks.queues (RecordFile.taskId exampleFile)) := by
    intro p hp
    rw [show disk.locks.queues (RecordFile.taskId exampleFile) = none from h.free] at hp
    cases hp
  have htemporary : disk.temporaries exampleFile (exampleAnswers.uuid disk.drawn.length) = none := by
    rw [h.temporaries]
  obtain ⟨later, hcall, hlater, hlast⟩ : ∃ later, (checkpoint exampleTask fullInput ".").run
      (exampleAnswers.step RecordFile.taskId ()) disk =
        some (.ok (view (exampleRecord k') exampleObservation), later) ∧
      Persisted exampleAnswers disk { later with locks := disk.locks } exampleFile
        (exampleRecord k') ∧
      later.locks.queues exampleTask = none :=
    run_checkpoint rfl hrecord hsound ⟨by decide +kernel, exampleRecord_size k⟩ hactive hfew hupdate
      hfree htemporary (h.fresh hn) (exampleRecord_size k')
  refine ⟨later, hcall, h.persisted hlater hlast, (sound_checkpoint hsound hactive hfew hupdate).2, ?_⟩
  have hfiles : later.files =
    Function.update disk.files exampleFile (some (recordText (exampleRecord k'))) := hlater.files
  rw [hfiles, Function.update_self]

theorem run_example_start : ∃ later, (start (fill 1) "." none).run
      (exampleAnswers.step RecordFile.taskId ()) .empty =
        some (.ok (view (exampleRecord 0) exampleObservation), later) ∧
      Idle 2 later ∧ later.files exampleFile = some (recordText (exampleRecord 0)) := by
  have hidle : Idle 0 .empty := ⟨rfl, rfl, rfl, rfl⟩
  let named : Disk Unit := { Disk.empty with drawn := [(exampleTask, ())] }
  have hnamed : Idle 1 named := ⟨rfl, rfl, rfl, rfl⟩
  have hrecord : startRecord exampleObservation "now" exampleTask (fill 1) none =
      .ok (exampleRecord 0) := startRecord_full
  obtain ⟨later, hcall, hlater⟩ : ∃ later, (start (fill 1) "." none).run
      (exampleAnswers.step RecordFile.taskId ()) .empty =
        some (.ok (view (exampleRecord 0) exampleObservation), later) ∧
      Persisted exampleAnswers named later exampleFile (exampleRecord 0) :=
    run_start rfl (hidle.fresh (by decide)) (hnamed.fresh (by decide)) rfl hrecord rfl
      ⟨by decide +kernel, exampleRecord_size 0⟩
  have hfree : later.locks.queues exampleTask = none := by
    rw [hlater.locks]
    rfl
  have hkept : Persisted exampleAnswers named { later with locks := named.locks } exampleFile
      (exampleRecord 0) := ⟨hlater.files, rfl, hlater.used, hlater.drawn, hlater.temporaries⟩
  refine ⟨later, hcall, hnamed.persisted hkept hfree, ?_⟩
  rw [hlater.files, Function.update_self]

/-- Two checkpoints, accepted with texts within their bounds, leave the task no room for its end. -/
theorem tasks_end_counterexample :
    ∃ first second third : Disk Unit,
      (start (fill 1) "." none).run (exampleAnswers.step RecordFile.taskId ()) .empty =
        some (.ok (view (exampleRecord 0) exampleObservation), first) ∧
      (checkpoint exampleTask fullInput ".").run (exampleAnswers.step RecordFile.taskId ()) first =
        some (.ok (view (exampleRecord 1) exampleObservation), second) ∧
      (checkpoint exampleTask fullInput ".").run (exampleAnswers.step RecordFile.taskId ()) second =
        some (.ok (view (exampleRecord 2) exampleObservation), third) ∧
      third.files exampleFile = some (recordText (exampleRecord 2)) ∧
      status (exampleRecord 2) = some "active" ∧
      Bounded MAX_SUMMARY_BYTES (fill 1) ∧
      BoundedItems 50 MAX_EVIDENCE_BYTES (some exampleRefs) ∧
      (∃ later, (complete exampleTask (fill 1) (some exampleRefs) "." ⟨"h", "w"⟩).run
          (exampleAnswers.step RecordFile.taskId ()) third =
          some (.error (.limit "Durable task state record exceeds its bounded size."), later) ∧
        later.files = third.files) ∧
      ∃ later, (fail exampleTask (fill 1) (some exampleRefs) ".").run
          (exampleAnswers.step RecordFile.taskId ()) third =
          some (.error (.limit "Durable task state record exceeds its bounded size."), later) ∧
        later.files = third.files := by
  obtain ⟨first, hstart, hidle, hfile⟩ := run_example_start
  have hsound : Sound exampleFile (exampleRecord 0) := (sound_start startRecord_full).2
  have hfirst : checkpointRecord exampleObservation "now" fullInput (exampleRecord 0) =
      .ok (exampleRecord 1) := checkpointRecord_full 1 []
  obtain ⟨second, hsecond, hidle, hsound, hfile⟩ :=
    run_example_checkpoint hidle (by decide) hfile hsound rfl (by decide) hfirst
  have hnext : checkpointRecord exampleObservation "now" fullInput (exampleRecord 1) =
      .ok (exampleRecord 2) := checkpointRecord_full 2 [fullCheckpoint 2]
  obtain ⟨third, hthird, hidle, hsound, hfile⟩ :=
    run_example_checkpoint hidle (by decide) hfile hsound rfl (by decide) hnext
  have hsummary : Bounded MAX_SUMMARY_BYTES (fill 1) := bounded_fill (by decide) (by decide)
  have hrefs : BoundedItems 50 MAX_EVIDENCE_BYTES (some exampleRefs) :=
    boundedItems_fill (by decide) (by decide) (by decide)
  have hfree : third.locks.Ready (third.locks.queues (RecordFile.taskId exampleFile)) := by
    intro p hp
    rw [show third.locks.queues (RecordFile.taskId exampleFile) = none from hidle.free] at hp
    cases hp
  have htemporary : third.temporaries exampleFile (exampleAnswers.uuid third.drawn.length) = none := by
    rw [hidle.temporaries]
  have hactive : status (exampleRecord 2) = some "active" := rfl
  have hstorable : Storable exampleFile (exampleRecord 2) :=
    ⟨by decide +kernel, exampleRecord_size 2⟩
  have hends (endStatus : String) (verified : Option VerifiedObservation)
      (hend : endStatus = "completed" ∨ endStatus = "failed")
      (hverified : ∀ v ∈ verified, v.head = "h" ∧ v.workingTreeDigest = "w") :
      ∃ later, (terminal endStatus exampleTask (fill 1) (some exampleRefs) "." verified).run
          (exampleAnswers.step RecordFile.taskId ()) third =
          some (.error (.limit "Durable task state record exceeds its bounded size."), later) ∧
        later.files = third.files := by
    obtain ⟨updated, hupdated, later, -, hlong⟩ : ∃ updated,
        terminalRecord exampleAnswers.observation exampleAnswers.now endStatus (fill 1)
          (some exampleRefs) (exampleRecord 2) = .ok updated ∧
        Ends exampleAnswers RecordFile.taskId () third exampleFile
          (terminal endStatus exampleTask (fill 1) (some exampleRefs) "." verified) updated :=
      ends_terminal hend rfl hfile hsound hstorable hactive htemporary hverified hsummary hrefs hfree
        (hidle.fresh (by decide))
    have hupdate := terminalRecord_eq exampleAnswers.observation exampleAnswers.now endStatus
      (exampleRecord 2) hsummary hrefs
    have hitems : exampleRefs.map redacted = exampleRefs := map_redacted_fill 50 512
    rw [redacted_fill, Option.getD_some, hitems, hupdated] at hupdate
    exact ⟨later, hlong (ended_size endStatus (fill 1) _ (Except.ok.inj hupdate))⟩
  refine ⟨first, second, third, hstart, hsecond, hthird, hfile, hactive, hsummary, hrefs, ?_,
    hends "failed" none (.inr rfl) nofun⟩
  refine hends "completed" (some ⟨"h", "w"⟩) (.inl rfl) ?_
  rintro v ⟨⟩
  exact ⟨rfl, rfl⟩

end Example

end TaskState
