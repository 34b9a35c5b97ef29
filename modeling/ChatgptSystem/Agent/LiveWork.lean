import ChatgptSystem.Agent.RetiredFence
import ChatgptSystem.Foundations.Mailbox

/-!
# Live work in the worker store

A save keeps the last `maxParkedRuns + 8` runs, whatever their workers are doing.
`keepsWork_of_spared` says what the store keeps if no spawn pushes out a run that still has work:
every worker that has not been finished, every message that no `status` has returned, and in each
inbox at most `MAX_QUEUE` of the messages sent, in order.

* `Made` — the calls that have been made on a store, with their outcomes;
* `sent`, `waiting`, `Unfinished` — what the calls have left to be done;
* `KeepsWork` — what the store keeps of it;
* `DropsWork` — the calls that push out a run with work;
* `live_run_dropped` — thirteen spawns after which the first run is gone.
-/

open Interleaving

namespace WorkerStore

/-! ## What the calls have left to be done -/

abbrev Call : Type := Method × Except AppError WorkerRun

/-- The calls made one after the other, the latest first, each of which met the side condition
`permit` when it began. -/
inductive Made (limits : Limits) (permit : Disk Unit → Method → Prop) (start : Disk Unit) :
    List Call → Disk Unit → Prop where
  | none : Made limits permit start [] start
  | call {log : List Call} {disk later : Disk Unit} {method : Method}
      {outcome : Except AppError WorkerRun} (h : Made limits permit start log disk)
      (hpermit : permit disk method) (hends : Ends limits method disk outcome later) :
      Made limits permit start ((method, outcome) :: log) later

def AgentMessage.content (message : AgentMessage) : MessageSender × String :=
  (message.sender, message.text)

def sent (runId workerId : String) : List Call → List (MessageSender × String)
  | [] => []
  | (.message runId' workerId' text sender, .ok _) :: log =>
    if runId' = runId ∧ workerId' = workerId then
      sent runId workerId log ++ [(sender, trim text)]
    else sent runId workerId log
  | _ :: log => sent runId workerId log

/-- The messages sent to a worker since `status` has returned its run. -/
def waiting (runId workerId : String) : List Call → List (MessageSender × String)
  | [] => []
  | (.message runId' workerId' text sender, .ok _) :: log =>
    if runId' = runId ∧ workerId' = workerId then
      waiting runId workerId log ++ [(sender, trim text)]
    else waiting runId workerId log
  | (.status runId', .ok _) :: log => if runId' = runId then [] else waiting runId workerId log
  | _ :: log => waiting runId workerId log

def Unfinished (runId workerId : String) : List Call → Prop
  | [] => False
  | (.spawn _ _ _, .ok run) :: log =>
    (run.runId = runId ∧ ∃ worker ∈ run.workers, worker.id = workerId) ∨
      Unfinished runId workerId log
  | (.finish runId' workerId' _ _, .ok _) :: log =>
    ¬(runId' = runId ∧ workerId' = workerId) ∧ Unfinished runId workerId log
  | _ :: log => Unfinished runId workerId log

structure KeepsWork (log : List Call) (file : WorkerStoreFile) : Prop where
  unfinished : ∀ runId workerId, Unfinished runId workerId log → ∃ run ∈ file.runs,
    run.runId = runId ∧ ∃ worker ∈ run.workers, worker.id = workerId ∧
      isTerminal worker.state = false
  messages : ∀ runId workerId, waiting runId workerId log ≠ [] → ∃ run ∈ file.runs,
    run.runId = runId ∧ ∃ worker ∈ run.workers, worker.id = workerId ∧
      waiting runId workerId log <:+ worker.inbox.map AgentMessage.content
  inboxes : ∀ run ∈ file.runs, ∀ worker ∈ run.workers, worker.inbox.length ≤ MAX_QUEUE ∧
    (worker.inbox.map AgentMessage.content).Sublist (sent run.runId worker.id log)

/-- A worker of the run is not finished, or has a message that has not been returned. -/
def WorkerRun.HasWork (run : WorkerRun) : Prop :=
  ∃ worker ∈ run.workers, isTerminal worker.state = false ∨
    ∃ message ∈ worker.inbox, message.readAt = none

/-- The call adds a run to a full store whose oldest run has work. -/
def DropsWork (limits : Limits) (store : Option StoreText) : Method → Prop
  | .spawn _ _ _ => ∃ file oldest rest, (interpret (answerOf store)).Yields file ∧
      file.runs = oldest :: rest ∧ file.runs.length = limits.maxParkedRuns + 8 ∧ oldest.HasWork
  | _ => False

def Spares (limits : Limits) (disk : Disk Unit) (method : Method) : Prop :=
  ¬ DropsWork limits disk.store method

/-! ## Reading a file that the store has saved -/

structure AgentMessage.Readable (message : AgentMessage) : Prop where
  id : message.id ≠ ""
  text : message.text ≠ ""
  length : slice MAX_MESSAGE_CHARS message.text = message.text

theorem AgentMessage.Readable.read {message : AgentMessage} (h : message.Readable) :
    validMessage message.toJson = some message := by
  have hid : textOf message.toJson "id" = some message.id := rfl
  have hfrom : textOf message.toJson "from" = some message.sender.toText := rfl
  have htext : textOf message.toJson "text" = some message.text := rfl
  have hsent : textOf message.toJson "sentAt" = some message.sentAt := rfl
  have hread : message.toJson.property? "readAt" = some (nullable message.readAt) := rfl
  unfold validMessage
  rw [hid, hfrom, htext, hsent, hread]
  obtain ⟨id, sender, text, sentAt, readAt⟩ := message
  simp only at h ⊢
  have hlength := h.length
  cases sender <;> cases readAt <;>
    simp [guard, h.id, h.text, nullable, MessageSender.toText] <;> exact hlength

/-- All workers of the run have inboxes that are read as they have been saved. -/
def WorkerRun.Readable (run : WorkerRun) : Prop :=
  ∀ worker ∈ run.workers, worker.inbox.length ≤ MAX_QUEUE ∧
    ∀ message ∈ worker.inbox, message.Readable

theorem mapM'_toJson {α : Type} {f : Json → DrawM (Option α)} {toJson : α → Json} {items : List α}
    (h : ∀ item ∈ items, f (toJson item) = .pure (some item)) :
    (items.map toJson).mapM' f = .pure (items.map some) := by
  induction items with
  | nil => rfl
  | cons item items ih =>
    have hrest := ih fun other hother => h other (List.mem_cons_of_mem _ hother)
    rw [List.map_cons, List.mapM'_cons, h item List.mem_cons_self, hrest]
    rfl

theorem runFromLegacy_eq {run : WorkerRun} (h : run.Readable) :
    runFromLegacy run.toJson = .pure (some run) := by
  have hworkers := mapM'_toJson fun worker hworker =>
    validWorker_toJson (h worker hworker).1 fun message hm => ((h worker hworker).2 message hm).read
  have hrun : runFromLegacy run.toJson =
      ((run.workers.map WorkerRecord.toJson).mapM' validWorker).bind fun workers =>
        .pure (some { run with workers := workers.filterMap id }) := rfl
  rw [hrun, hworkers]
  simp [Program.bind]

theorem runs_of_interpret {saved file : WorkerStoreFile} (h : ∀ run ∈ saved.runs, run.Readable)
    (hread : (interpret (answerOf (some (.value saved.toJson)))).Yields file) :
    file.runs = saved.runs := by
  obtain ⟨runs, hruns, hread⟩ := Program.Yields.bind_inv hread
  cases hread
  have hitems : ((saved.toJson.property? "runs").bind Json.items?).getD [] =
      saved.runs.map WorkerRun.toJson := rfl
  rw [hitems] at hruns
  obtain ⟨read, hall, hruns⟩ := Program.Yields.bind_inv hruns
  rw [mapM'_toJson fun run hrun => runFromLegacy_eq (h run hrun)] at hall
  cases hall
  cases hruns
  simp

/-! ## Inboxes found by identifiers -/

section Keyed

variable {α κ : Type} [DecidableEq κ] {key : α → κ} {k k' : κ} {item old : α} {items : List α}

theorem find?_setFirst_of_ne (hitem : key item = k) (hne : k' ≠ k) :
    (setFirst (fun x => key x = k) item items).find? (fun x => key x = k') =
      items.find? (fun x => key x = k') := by
  induction items with
  | nil => rfl
  | cons first rest ih =>
    unfold setFirst
    by_cases hfirst : key first = k
    · have hitem' : key item ≠ k' := fun h => hne (h.symm.trans hitem)
      have hfirst' : key first ≠ k' := fun h => hne (h.symm.trans hfirst)
      simp only [hfirst, decide_true, if_true]
      rw [List.find?_cons_of_neg (by simpa using hitem'),
        List.find?_cons_of_neg (by simpa using hfirst')]
    · simp only [hfirst, decide_false, Bool.false_eq_true, if_false, List.find?_cons, ih]

theorem pairwise_setFirst {p : α → Prop} (hitem : key item = k)
    (hold : items.find? (fun x => key x = k) = some old)
    (h : items.Pairwise fun a b => key a = key b → p b) :
    (setFirst (fun x => key x = k) item items).Pairwise fun a b => key a = key b → p b := by
  induction items with
  | nil => cases hold
  | cons first rest ih =>
    obtain ⟨hfirst, hrest⟩ := List.pairwise_cons.mp h
    unfold setFirst
    by_cases hkey : key first = k
    · simp only [hkey, decide_true, if_true]
      refine List.pairwise_cons.mpr ⟨fun b hb heq => hfirst b hb ?_, hrest⟩
      rw [hkey, ← hitem, heq]
    · simp only [hkey, decide_false, Bool.false_eq_true, if_false]
      rw [List.find?_cons_of_neg (by simpa using hkey)] at hold
      refine List.pairwise_cons.mpr ⟨fun b hb heq => ?_, ih hold hrest⟩
      rcases mem_setFirst hb with rfl | hb
      · exact absurd (heq.trans hitem) hkey
      · exact hfirst b hb heq

theorem find?_eq_or_of_mem {p : α → Prop} (h : items.Pairwise fun a b => key a = key b → p b)
    (hmem : item ∈ items) : items.find? (fun x => key x = key item) = some item ∨ p item := by
  induction items with
  | nil => cases hmem
  | cons first rest ih =>
    obtain ⟨hfirst, hrest⟩ := List.pairwise_cons.mp h
    rcases List.mem_cons.mp hmem with rfl | hlater
    · exact .inl (List.find?_cons_of_pos (by simp))
    · by_cases hkey : key first = key item
      · exact .inr (hfirst item hlater hkey)
      · rw [List.find?_cons_of_neg (by simpa using hkey)]
        exact ih hrest hlater

theorem mem_setFirst_self (hold : items.find? (fun x => key x = k) = some old) :
    item ∈ setFirst (fun x => key x = k) item items := by
  induction items with
  | nil => cases hold
  | cons first rest ih =>
    unfold setFirst
    by_cases hkey : key first = k
    · simp [hkey]
    · rw [List.find?_cons_of_neg (by simpa using hkey)] at hold
      simp only [hkey, decide_false, Bool.false_eq_true, if_false]
      exact List.mem_cons_of_mem _ (ih hold)

theorem mem_setFirst_of_mem (hold : items.find? (fun x => key x = k) = some old) {other : α}
    (hmem : other ∈ items) (hne : other ≠ old) :
    other ∈ setFirst (fun x => key x = k) item items := by
  induction items with
  | nil => cases hmem
  | cons first rest ih =>
    unfold setFirst
    by_cases hkey : key first = k
    · rw [List.find?_cons_of_pos (by simpa using hkey)] at hold
      obtain rfl := Option.some.inj hold
      simp only [hkey, decide_true, if_true]
      exact List.mem_cons_of_mem _ ((List.mem_cons.mp hmem).resolve_left hne)
    · rw [List.find?_cons_of_neg (by simpa using hkey)] at hold
      simp only [hkey, decide_false, Bool.false_eq_true, if_false]
      rcases List.mem_cons.mp hmem with rfl | hrest
      · exact List.mem_cons_self
      · exact List.mem_cons_of_mem _ (ih hold hrest)

end Keyed

def WorkerRun.inboxAt (run : WorkerRun) (workerId : String) : List AgentMessage :=
  ((run.workers.find? fun candidate => candidate.id = workerId).map WorkerRecord.inbox).getD []

/-- The inbox of the worker of a run that are found by their identifiers. -/
def inboxAt (runs : List WorkerRun) (runId workerId : String) : List AgentMessage :=
  ((runs.find? fun candidate => candidate.runId = runId).map
    (·.inboxAt workerId)).getD []

def WorkerRun.Untouched (run : WorkerRun) : Prop := ∀ worker ∈ run.workers, worker.inbox = []

/-- The calls address the first of several workers with one identifier. -/
def WorkerRun.Addressed (run : WorkerRun) : Prop :=
  run.workers.Pairwise fun a b => a.id = b.id → b.inbox = []

theorem inboxAt_eq_nil {run : WorkerRun} (h : run.Untouched) (workerId : String) :
    run.inboxAt workerId = [] := by
  unfold WorkerRun.inboxAt
  cases hfind : run.workers.find? fun candidate => candidate.id = workerId with
  | none => rfl
  | some worker => exact h worker (List.mem_of_find?_eq_some hfind)

/-- What the store keeps, run by run. -/
structure Books (log : List Call) (runs : List WorkerRun) : Prop where
  boxes : ∀ runId workerId, Mailbox.Holds AgentMessage.content (fun m => m.readAt.isSome) MAX_QUEUE
    (sent runId workerId log) (waiting runId workerId log) (inboxAt runs runId workerId)
  unfinished : ∀ runId workerId, Unfinished runId workerId log → ∃ run ∈ runs,
    run.runId = runId ∧ ∃ worker ∈ run.workers, worker.id = workerId ∧
      isTerminal worker.state = false
  first : runs.Pairwise fun a b => a.runId = b.runId → b.Untouched
  addressed : ∀ run ∈ runs, run.Addressed
  readable : ∀ run ∈ runs, run.Readable

theorem books_nil : Books [] [] where
  boxes := fun _ _ => Mailbox.holds_nil []
  unfinished := fun _ _ h => h.elim
  first := .nil
  addressed := by simp
  readable := by simp

theorem Books.inbox_cases {log : List Call} {runs : List WorkerRun} (h : Books log runs)
    {run : WorkerRun} (hrun : run ∈ runs) {worker : WorkerRecord} (hworker : worker ∈ run.workers) :
    worker.inbox = [] ∨ worker.inbox = inboxAt runs run.runId worker.id := by
  rcases @find?_eq_or_of_mem _ _ _ WorkerRun.runId _ _ _ h.first hrun with hfirst | huntouched
  · rcases @find?_eq_or_of_mem _ _ _ WorkerRecord.id _ _ _ (h.addressed run hrun) hworker
      with hfound | hempty
    · right
      rw [inboxAt, hfirst, Option.map_some, Option.getD_some, WorkerRun.inboxAt, hfound,
        Option.map_some, Option.getD_some]
    · exact .inl hempty
  · exact .inl (huntouched worker hworker)

theorem Books.keepsWork {log : List Call} {file : WorkerStoreFile} (h : Books log file.runs) :
    KeepsWork log file where
  unfinished := h.unfinished
  messages := fun runId workerId hwaiting => by
    have hsuffix := (h.boxes runId workerId).suffix
    -- the worker is there, since its inbox is not empty
    cases hrun : file.runs.find? fun candidate => candidate.runId = runId with
    | none =>
      rw [inboxAt, hrun] at hsuffix
      exact absurd (List.suffix_nil.mp hsuffix) hwaiting
    | some run =>
      cases hworker : run.workers.find? fun candidate => candidate.id = workerId with
      | none =>
        rw [inboxAt, hrun, Option.map_some, Option.getD_some, WorkerRun.inboxAt, hworker] at hsuffix
        exact absurd (List.suffix_nil.mp hsuffix) hwaiting
      | some worker =>
        rw [inboxAt, hrun, Option.map_some, Option.getD_some, WorkerRun.inboxAt, hworker] at hsuffix
        exact ⟨run, List.mem_of_find?_eq_some hrun, by simpa using List.find?_some hrun, worker,
          List.mem_of_find?_eq_some hworker, by simpa using List.find?_some hworker, hsuffix⟩
  inboxes := fun run hrun worker hworker => by
    rcases h.inbox_cases hrun hworker with hempty | hinbox
    · rw [hempty]
      exact ⟨Nat.zero_le _, List.nil_sublist _⟩
    · rw [hinbox]
      have hbox := h.boxes run.runId worker.id
      exact ⟨hbox.length, hbox.sublist⟩

/-! ## What a call does to the runs -/

def Rewrites (runId workerId : String) (old new : WorkerRecord) (before after : List WorkerRun) :
    Prop :=
  ∃ run run' : WorkerRun, before.find? (fun candidate => candidate.runId = runId) = some run ∧
    run.workers.find? (fun candidate => candidate.id = workerId) = some old ∧ new.id = old.id ∧
    run'.runId = run.runId ∧
    run'.workers = setFirst (fun candidate => candidate.id = workerId) new run.workers ∧
    after = setFirst (fun candidate => candidate.runId = runId) run' before

section Calls

variable {limits : Limits} {log : List Call} {before after : List WorkerRun}
  {file changed : WorkerStoreFile} {returned : WorkerRun}
  {change : WorkerStoreFile → DrawM (WorkerRun × WorkerStoreFile)} {runId workerId : String}

theorem rewrites_of_find {run run' : WorkerRun} {old new : WorkerRecord}
    (hrun : file.runs.find? (fun candidate => candidate.runId = runId) = some run)
    (hworker : run.workers.find? (fun candidate => candidate.id = workerId) = some old)
    (hid : new.id = old.id) (hrun' : run'.runId = run.runId)
    (hworkers : run'.workers = (run.setWorker new).workers) :
    Rewrites runId workerId old new file.runs (file.setRun run').runs := by
  obtain rfl : run.runId = runId := by simpa using List.find?_some hrun
  obtain rfl : old.id = workerId := by simpa using List.find?_some hworker
  refine ⟨run, run', hrun, hworker, hid, hrun', ?_, ?_⟩
  · rw [hworkers, WorkerRun.setWorker, hid]
  · rw [WorkerStoreFile.setRun, hrun']

theorem holds_of_makeRoom {sent waiting : List (MessageSender × String)}
    {inbox room : List AgentMessage}
    (hbox : Mailbox.Holds AgentMessage.content (fun m => m.readAt.isSome) MAX_QUEUE sent waiting
      inbox) (h : (makeRoom inbox).Yields room) :
    Mailbox.Holds AgentMessage.content (fun m => m.readAt.isSome) MAX_QUEUE sent waiting room ∧
      room.length < MAX_QUEUE := by
  unfold makeRoom at h
  split at h
  · split at h
    next hread =>
      cases h
      exact hbox.evict hread
    next => cases h
  next hroom =>
    cases h
    exact ⟨hbox, Nat.lt_of_not_le hroom⟩

theorem mem_of_makeRoom {inbox room : List AgentMessage} (h : (makeRoom inbox).Yields room)
    {message : AgentMessage} (hm : message ∈ room) : message ∈ inbox := by
  unfold makeRoom at h
  split at h
  · split at h
    · cases h
      exact List.mem_of_mem_eraseP hm
    · cases h
  · cases h
    exact hm

theorem readable_of_message {text id sentAt : String} {sender : MessageSender}
    (htext : ¬ (trim text = "" ∨ length (trim text) > MAX_MESSAGE_CHARS))
    (hid : (shortId "m").Yields id) :
    AgentMessage.Readable { id, sender, text := trim text, sentAt, readAt := none } := by
  obtain ⟨hne, hlength⟩ := not_or.mp htext
  have hname : id ≠ "" := by
    cases hid with
    | request r hdone =>
      cases hdone
      intro hempty
      have hlist := congrArg String.toList hempty
      simp at hlist
  have hslice : slice MAX_MESSAGE_CHARS (trim text) = trim text := by
    rw [slice, Text.slice_eq_self (Nat.le_of_not_lt hlength), String.ofList_toList]
  exact ⟨hname, hne, hslice⟩

theorem inbox_of_spawnWorkers {sharedContext now : String} {specs : List WorkerSpawnSpec}
    {workers spawned : List WorkerRecord} (hworkers : ∀ worker ∈ workers,
      worker.inbox = [] ∧ isTerminal worker.state = false)
    (h : (spawnWorkers sharedContext now specs workers).Yields spawned) :
    ∀ worker ∈ spawned, worker.inbox = [] ∧ isTerminal worker.state = false := by
  induction specs generalizing workers with
  | nil =>
    cases h
    exact hworkers
  | cons spec specs ih =>
    unfold spawnWorkers at h
    simp only at h
    split at h
    · cases h
    obtain ⟨id, -, h⟩ := Program.Yields.bind_inv h
    refine ih (fun worker hworker => ?_) h
    rcases List.mem_append.mp hworker with hold | hnew
    · exact hworkers worker hold
    · rw [List.mem_singleton.mp hnew]
      exact ⟨rfl, rfl⟩

/-! ## One call -/

theorem inboxAt_of_find {runs : List WorkerRun} {run : WorkerRun}
    (h : runs.find? (fun candidate => candidate.runId = runId) = some run) (workerId : String) :
    inboxAt runs runId workerId = run.inboxAt workerId := by
  rw [inboxAt, h, Option.map_some, Option.getD_some]

theorem inboxAt_of_find_worker {run : WorkerRun} {worker : WorkerRecord}
    (h : run.workers.find? (fun candidate => candidate.id = workerId) = some worker) :
    run.inboxAt workerId = worker.inbox := by
  rw [WorkerRun.inboxAt, h, Option.map_some, Option.getD_some]

theorem Books.rewrite {log' : List Call} {old new : WorkerRecord} (h : Books log before)
    (hrewrites : Rewrites runId workerId old new before after)
    (hother : ∀ runId' workerId', ¬(runId' = runId ∧ workerId' = workerId) →
      sent runId' workerId' log' = sent runId' workerId' log ∧
        waiting runId' workerId' log' = waiting runId' workerId' log)
    (hbox : Mailbox.Holds AgentMessage.content (fun m => m.readAt.isSome) MAX_QUEUE
        (sent runId workerId log) (waiting runId workerId log) old.inbox →
      Mailbox.Holds AgentMessage.content (fun m => m.readAt.isSome) MAX_QUEUE
        (sent runId workerId log') (waiting runId workerId log') new.inbox)
    (hread : (∀ message ∈ old.inbox, message.Readable) → ∀ message ∈ new.inbox, message.Readable)
    (hunfinished : ∀ runId' workerId', Unfinished runId' workerId' log' →
      Unfinished runId' workerId' log ∧
        (runId' = runId ∧ workerId' = workerId → isTerminal new.state = false)) :
    Books log' after := by
  obtain ⟨run, run', hrun, hworker, hid, hrun', hworkers, rfl⟩ := hrewrites
  obtain rfl : run.runId = runId := by simpa using List.find?_some hrun
  obtain rfl : old.id = workerId := by simpa using List.find?_some hworker
  have hmem := List.mem_of_find?_eq_some hrun
  have hfound := @find?_setFirst _ (fun candidate : WorkerRun => candidate.runId = run.runId) run'
    _ _ hrun (by simpa using hrun')
  have hfoundWorker := @find?_setFirst _ (fun candidate : WorkerRecord => candidate.id = old.id)
    new _ _ hworker (by simpa using hid)
  rw [← hworkers] at hfoundWorker
  have hnew := hbox (by
    have hbox := h.boxes run.runId old.id
    rwa [inboxAt_of_find hrun, inboxAt_of_find_worker hworker] at hbox)
  refine ⟨fun runId' workerId' => ?_, fun runId' workerId' hlive => ?_, ?_, fun other hother => ?_,
    fun other hother => ?_⟩
  · by_cases hboth : runId' = run.runId ∧ workerId' = old.id
    · obtain ⟨rfl, rfl⟩ := hboth
      rw [inboxAt_of_find hfound, inboxAt_of_find_worker hfoundWorker]
      exact hnew
    · obtain ⟨hsent, hwaiting⟩ := hother runId' workerId' hboth
      have hsame : inboxAt (setFirst (fun candidate => candidate.runId = run.runId) run' before)
          runId' workerId' = inboxAt before runId' workerId' := by
        by_cases hsameRun : runId' = run.runId
        · subst hsameRun
          have hne : workerId' ≠ old.id := fun heq => hboth ⟨rfl, heq⟩
          rw [inboxAt_of_find hfound, inboxAt_of_find hrun, WorkerRun.inboxAt, hworkers,
            find?_setFirst_of_ne hid hne, WorkerRun.inboxAt]
        · rw [inboxAt, find?_setFirst_of_ne hrun' hsameRun, inboxAt]
      rw [hsent, hwaiting, hsame]
      exact h.boxes runId' workerId'
  · obtain ⟨hold, hstate⟩ := hunfinished runId' workerId' hlive
    obtain ⟨other, hother, rfl, worker, hin, rfl, hterminal⟩ := h.unfinished runId' workerId' hold
    by_cases hsame : other = run
    · subst hsame
      refine ⟨run', mem_setFirst_self hrun, hrun', ?_⟩
      by_cases hold : worker = old
      · subst hold
        exact ⟨new, hworkers ▸ mem_setFirst_self hworker, hid, hstate ⟨rfl, rfl⟩⟩
      · exact ⟨worker, hworkers ▸ mem_setFirst_of_mem hworker hin hold, rfl, hterminal⟩
    · exact ⟨other, mem_setFirst_of_mem hrun hother hsame, rfl, worker, hin, rfl, hterminal⟩
  · exact pairwise_setFirst hrun' hrun h.first
  · rcases mem_setFirst hother with rfl | hold
    · rw [WorkerRun.Addressed, hworkers]
      exact pairwise_setFirst hid hworker (h.addressed run hmem)
    · exact h.addressed other hold
  · rcases mem_setFirst hother with rfl | hold
    · intro worker hin
      rw [hworkers] at hin
      have hreadable := h.readable run hmem
      rcases mem_setFirst hin with rfl | hin
      · exact ⟨hnew.length, hread (hreadable old (List.mem_of_find?_eq_some hworker)).2⟩
      · exact hreadable worker hin
    · exact h.readable other hold

theorem Books.handOut {run run' : WorkerRun} {now : String} (h : Books log before)
    (hrun : before.find? (fun candidate => candidate.runId = runId) = some run)
    (hrun' : run'.runId = run.runId)
    (hworkers : run'.workers = run.workers.map fun worker =>
      { worker with inbox := worker.inbox.map (AgentMessage.markRead now) }) :
    Books ((.status runId, .ok returned) :: log)
      (setFirst (fun candidate => candidate.runId = runId) run' before) := by
  obtain rfl : run.runId = runId := by simpa using List.find?_some hrun
  have hmem := List.mem_of_find?_eq_some hrun
  have hfound := @find?_setFirst _ (fun candidate : WorkerRun => candidate.runId = run.runId) run'
    _ _ hrun (by simpa using hrun')
  have hinbox : ∀ workerId, run'.inboxAt workerId =
      (run.inboxAt workerId).map (AgentMessage.markRead now) := fun workerId => by
    rw [WorkerRun.inboxAt, hworkers, List.find?_map, Function.comp_def, WorkerRun.inboxAt]
    cases run.workers.find? fun candidate => candidate.id = workerId <;> rfl
  refine ⟨fun runId' workerId' => ?_, fun runId' workerId' hlive => ?_, ?_, fun other hother => ?_,
    fun other hother => ?_⟩
  · have hbox := h.boxes runId' workerId'
    by_cases hsame : runId' = run.runId
    · subst hsame
      rw [waiting, if_pos rfl, inboxAt_of_find hfound, hinbox, ← inboxAt_of_find hrun]
      exact hbox.handOut (fun _ => rfl) fun _ => rfl
    · rw [waiting, if_neg (Ne.symm hsame), inboxAt, find?_setFirst_of_ne hrun' hsame]
      exact hbox
  · obtain ⟨other, hother, rfl, worker, hin, rfl, hterminal⟩ := h.unfinished runId' workerId' hlive
    by_cases hsame : other = run
    · subst hsame
      refine ⟨run', mem_setFirst_self hrun, hrun',
        { worker with inbox := worker.inbox.map (AgentMessage.markRead now) }, ?_, rfl, hterminal⟩
      rw [hworkers]
      exact List.mem_map_of_mem hin
    · exact ⟨other, mem_setFirst_of_mem hrun hother hsame, rfl, worker, hin, rfl, hterminal⟩
  · exact pairwise_setFirst hrun' hrun h.first
  · rcases mem_setFirst hother with rfl | hold
    · rw [WorkerRun.Addressed, hworkers, List.pairwise_map]
      exact (h.addressed run hmem).imp fun hempty heq => by rw [hempty heq, List.map_nil]
    · exact h.addressed other hold
  · rcases mem_setFirst hother with rfl | hold
    · intro worker hin
      rw [hworkers] at hin
      obtain ⟨old, hold, rfl⟩ := List.mem_map.mp hin
      obtain ⟨hlength, hread⟩ := h.readable run hmem old hold
      refine ⟨by simpa using hlength, fun message hm => ?_⟩
      obtain ⟨old, hold, rfl⟩ := List.mem_map.mp hm
      exact ⟨(hread old hold).id, (hread old hold).text, (hread old hold).length⟩
    · exact h.readable other hold

theorem Books.add {primeAlias sharedContext : String} {specs : List WorkerSpawnSpec}
    (h : Books log before)
    (hnew : ∀ worker ∈ returned.workers, worker.inbox = [] ∧ isTerminal worker.state = false) :
    Books ((.spawn primeAlias sharedContext specs, .ok returned) :: log)
      (before ++ [returned]) := by
  have huntouched : returned.Untouched := fun worker hworker => (hnew worker hworker).1
  have hinbox : ∀ runId workerId, inboxAt (before ++ [returned]) runId workerId =
      inboxAt before runId workerId := fun runId workerId => by
    rw [inboxAt, inboxAt, List.find?_append]
    cases before.find? fun candidate => candidate.runId = runId with
    | some run => rfl
    | none =>
      rw [Option.none_or, List.find?_singleton]
      split
      · rw [Option.map_some, Option.getD_some, inboxAt_eq_nil huntouched]
        rfl
      · rfl
  refine ⟨fun runId workerId => ?_, fun runId workerId hlive => ?_, ?_, fun run hrun => ?_,
    fun run hrun => ?_⟩
  · rw [hinbox]
    exact h.boxes runId workerId
  · rcases hlive with ⟨rfl, worker, hworker, rfl⟩ | hold
    · exact ⟨returned, List.mem_append_right _ List.mem_cons_self, rfl, worker, hworker, rfl,
        (hnew worker hworker).2⟩
    · obtain ⟨run, hrun, hrest⟩ := h.unfinished runId workerId hold
      exact ⟨run, List.mem_append_left _ hrun, hrest⟩
  · refine List.pairwise_append.mpr ⟨h.first, List.pairwise_singleton _ _, ?_⟩
    intro _ _ run hrun _
    rw [List.mem_singleton.mp hrun]
    exact huntouched
  · rcases List.mem_append.mp hrun with hold | hadded
    · exact h.addressed run hold
    · rw [List.mem_singleton.mp hadded]
      refine List.pairwise_iff_forall_sublist.mpr fun hsub _ => ?_
      exact huntouched _ (hsub.subset (by simp))
  · rcases List.mem_append.mp hrun with hold | hadded
    · exact h.readable run hold
    · rw [List.mem_singleton.mp hadded]
      intro worker hworker
      rw [huntouched worker hworker]
      exact ⟨Nat.zero_le _, by simp⟩

theorem Books.drop {oldest : WorkerRun} {rest : List WorkerRun} (h : Books log (oldest :: rest))
    (hidle : ¬ oldest.HasWork) : Books log rest := by
  have hsettled : ∀ worker ∈ oldest.workers, isTerminal worker.state = true ∧
      ∀ message ∈ worker.inbox, message.readAt.isSome = true := by
    intro worker hworker
    constructor
    · by_contra hlive
      exact hidle ⟨worker, hworker, .inl (by simpa using hlive)⟩
    · intro message hm
      by_contra hunread
      exact hidle ⟨worker, hworker, .inr ⟨message, hm, by simpa using hunread⟩⟩
  obtain ⟨hfirst, hlater⟩ := List.pairwise_cons.mp h.first
  refine ⟨fun runId workerId => ?_, fun runId workerId hlive => ?_, hlater,
    fun run hrun => h.addressed run (List.mem_cons_of_mem _ hrun),
    fun run hrun => h.readable run (List.mem_cons_of_mem _ hrun)⟩
  · have hbox := h.boxes runId workerId
    by_cases hsame : oldest.runId = runId
    · -- the run that is found from here on has the identifier of the one that has gone
      have hfound : (oldest :: rest).find? (fun candidate => candidate.runId = runId) =
          some oldest := List.find?_cons_of_pos (by simpa using hsame)
      rw [inboxAt_of_find hfound] at hbox
      have hwaiting : waiting runId workerId log = [] := by
        refine hbox.waiting_eq_nil fun message hm => ?_
        unfold WorkerRun.inboxAt at hm
        cases hworker : oldest.workers.find? fun candidate => candidate.id = workerId with
        | none =>
          rw [hworker] at hm
          cases hm
        | some worker =>
          rw [hworker] at hm
          exact (hsettled worker (List.mem_of_find?_eq_some hworker)).2 message hm
      have hempty : inboxAt rest runId workerId = [] := by
        cases hrun : rest.find? fun candidate => candidate.runId = runId with
        | none => rw [inboxAt, hrun, Option.map_none, Option.getD_none]
        | some run =>
          have hid : run.runId = runId := by simpa using List.find?_some hrun
          rw [inboxAt_of_find hrun]
          have huntouched := hfirst run (List.mem_of_find?_eq_some hrun) (hsame.trans hid.symm)
          exact inboxAt_eq_nil huntouched _
      rw [hwaiting, hempty]
      exact Mailbox.holds_nil _
    · rwa [inboxAt, List.find?_cons_of_neg (by simpa using hsame)] at hbox
  · obtain ⟨run, hrun, rfl, worker, hworker, rfl, hterminal⟩ := h.unfinished runId workerId hlive
    rcases List.mem_cons.mp hrun with rfl | hin
    · exact Bool.noConfusion ((hsettled worker hworker).1.symm.trans hterminal)
    · exact ⟨run, hin, rfl, worker, hworker, rfl, hterminal⟩

variable {method : Method}

theorem Books.failed {e : AppError} (h : Books log before) :
    Books ((method, .error e) :: log) before := by
  have hsent : ∀ runId workerId, sent runId workerId ((method, .error e) :: log) =
      sent runId workerId log := fun _ _ => by cases method <;> rfl
  have hwaiting : ∀ runId workerId, waiting runId workerId ((method, .error e) :: log) =
      waiting runId workerId log := fun _ _ => by cases method <;> rfl
  have hlive : ∀ runId workerId, Unfinished runId workerId ((method, .error e) :: log) →
      Unfinished runId workerId log := fun _ _ hlive => by cases method <;> exact hlive
  refine ⟨fun runId workerId => ?_, fun runId workerId hunfinished => ?_, h.first, h.addressed,
    h.readable⟩
  · rw [hsent, hwaiting]
    exact h.boxes runId workerId
  · exact h.unfinished runId workerId (hlive runId workerId hunfinished)

theorem Books.returns (h : Books log file.runs)
    (hprologue : (method.operation limits).prologue.Yields change)
    (hchange : (change file).Yields (returned, changed)) :
    Books ((method, .ok returned) :: log) changed.runs := by
  cases method with
  | spawn primeAlias sharedContext specs =>
    obtain ⟨now, hspawn, rfl⟩ := spawn_cases hprologue hchange
    exact h.add (inbox_of_spawnWorkers (by simp) hspawn)
  | status runId =>
    obtain ⟨run, now, hrun, rfl, rfl⟩ := status_cases hprologue hchange
    obtain rfl : run.runId = runId := by simpa using List.find?_some hrun
    exact h.handOut hrun rfl rfl
  | message runId workerId text sender =>
    obtain ⟨run, worker, room, id, sentAt, lastSeenAt, htext, hrun, hworker, hlive, hroom, hid, rfl,
      rfl⟩ := message_cases hprologue hchange
    refine h.rewrite (rewrites_of_find hrun hworker (by rfl) rfl rfl)
      (fun runId' workerId' hother => ?_) (fun hbox => ?_) (fun hread message hm => ?_)
      fun runId' workerId' hunfinished => ⟨hunfinished, fun _ => ?_⟩
    · have hne : ¬(runId = runId' ∧ workerId = workerId') := fun heq =>
        hother ⟨heq.1.symm, heq.2.symm⟩
      exact ⟨if_neg hne, if_neg hne⟩
    · obtain ⟨hbox, hlength⟩ := holds_of_makeRoom hbox hroom
      have hcontent : AgentMessage.content
        { id, sender, text := trim text, sentAt, readAt := none } = (sender, trim text) := rfl
      rw [sent, if_pos ⟨rfl, rfl⟩, waiting, if_pos ⟨rfl, rfl⟩, ← hcontent]
      exact hbox.push (by rfl) hlength
    · rcases List.mem_append.mp hm with hold | hnew
      · exact hread message (mem_of_makeRoom hroom hold)
      · rw [List.mem_singleton.mp hnew]
        exact readable_of_message htext hid
    · dsimp only
      split
      · rfl
      · exact hlive
  | sleep runId workerId =>
    obtain ⟨run, worker, lastSeenAt, hrun, hworker, rfl, rfl⟩ := sleep_cases hprologue hchange
    exact h.rewrite (rewrites_of_find hrun hworker (by rfl) rfl rfl) (fun _ _ _ => ⟨rfl, rfl⟩) id id
      fun _ _ hunfinished => ⟨hunfinished, fun _ => rfl⟩
  | finish runId workerId report failed =>
    obtain ⟨run, worker, lastSeenAt, parked, hrun, hworker, rfl, rfl⟩ :=
      finish_cases hprologue hchange
    refine h.rewrite (rewrites_of_find hrun hworker (by rfl) rfl rfl) (fun _ _ _ => ⟨rfl, rfl⟩) id id
      fun runId' workerId' hunfinished => ⟨hunfinished.2, fun heq => ?_⟩
    exact absurd ⟨heq.1.symm, heq.2.symm⟩ hunfinished.1

/-! ## Sequences of calls -/

structure Recorded (limits : Limits) (log : List Call) (store : Option StoreText)
    (runs : List WorkerRun) : Prop where
  books : Books log runs
  length : runs.length ≤ limits.maxParkedRuns + 8
  saved : (store = none ∧ runs = []) ∨
    ∃ saved : WorkerStoreFile, store = some (.value saved.toJson) ∧ saved.runs = runs

theorem Recorded.runs_eq {store : Option StoreText} (h : Recorded limits log store before)
    (hread : (interpret (answerOf store)).Yields file) : file.runs = before := by
  rcases h.saved with ⟨rfl, rfl⟩ | ⟨saved, rfl, rfl⟩
  · cases hread
    rfl
  · exact runs_of_interpret h.books.readable hread

theorem length_runs_of_yields (hprologue : (method.operation limits).prologue.Yields change)
    (hchange : (change file).Yields (returned, changed)) :
    (∃ primeAlias sharedContext specs, method = .spawn primeAlias sharedContext specs ∧
      changed.runs = file.runs ++ [returned]) ∨ changed.runs.length = file.runs.length := by
  have hlength : ∀ {run : WorkerRun} {found : WorkerRun → Bool} {runs : List WorkerRun},
      (setFirst found run runs).length = runs.length := by
    intro run found runs
    induction runs with
    | nil => rfl
    | cons first rest ih =>
      unfold setFirst
      split
      · rfl
      · rw [List.length_cons, List.length_cons, ih]
  cases method with
  | spawn primeAlias sharedContext specs =>
    obtain ⟨now, -, rfl⟩ := spawn_cases hprologue hchange
    exact .inl ⟨primeAlias, sharedContext, specs, rfl, rfl⟩
  | status runId =>
    obtain ⟨run, now, -, -, rfl⟩ := status_cases hprologue hchange
    exact .inr hlength
  | message runId workerId text sender =>
    obtain ⟨run, worker, room, id, sentAt, lastSeenAt, -, -, -, -, -, -, -, rfl⟩ :=
      message_cases hprologue hchange
    exact .inr hlength
  | sleep runId workerId =>
    obtain ⟨run, worker, lastSeenAt, -, -, -, rfl⟩ := sleep_cases hprologue hchange
    exact .inr hlength
  | finish runId workerId report failed =>
    obtain ⟨run, worker, lastSeenAt, parked, -, -, -, rfl⟩ := finish_cases hprologue hchange
    exact .inr hlength

theorem Recorded.step {outcome : Except AppError WorkerRun} {disk later : Disk Unit}
    (h : Recorded limits log disk.store before) (hspares : Spares limits disk method)
    (hends : Ends limits method disk outcome later) :
    ∃ after, Recorded limits ((method, outcome) :: log) later.store after := by
  obtain ⟨p, hsteps, hp⟩ := hends
  cases p with
  | request o k => cases hp
  | throw e =>
    obtain rfl := Option.some.inj hp
    refine ⟨before, h.books.failed, h.length, ?_⟩
    rw [store_of_failed hsteps]
    exact h.saved
  | pure run =>
    obtain rfl := Option.some.inj hp
    obtain ⟨text, hstore, change, file, changed, hprologue, hfile, hchange, rfl⟩ :=
      transforms_of_steps hsteps
    obtain rfl := h.runs_eq hfile
    have hbooks := h.books.returns hprologue hchange
    refine ⟨(changed.bounded limits).runs, ?_, length_last_le _ _,
      .inr ⟨changed.bounded limits, hstore, rfl⟩⟩
    show Books _ (last (limits.maxParkedRuns + 8) changed.runs)
    rcases length_runs_of_yields hprologue hchange with
      ⟨primeAlias, sharedContext, specs, rfl, hruns⟩ | hlength
    · rw [hruns] at hbooks ⊢
      rw [last_append_singleton run h.length (by omega)]
      split
      next hfull =>
        -- the store is full, and its oldest run goes
        obtain ⟨oldest, rest, hfirst⟩ := List.exists_cons_of_length_pos
          (show 0 < file.runs.length by omega)
        rw [hfirst] at hbooks ⊢
        refine hbooks.drop fun hwork => hspares ⟨file, oldest, rest, hfile, hfirst, hfull, hwork⟩
      next => exact hbooks
    · rw [last_of_length_le (hlength.trans_le h.length)]
      exact hbooks

theorem recorded_of_made {start disk : Disk Unit} (hstart : start.store = none)
    (h : Made limits (Spares limits) start log disk) :
    ∃ runs, Recorded limits log disk.store runs := by
  induction h with
  | none => exact ⟨[], books_nil, Nat.zero_le _, .inl ⟨hstart, rfl⟩⟩
  | call _ hspares hends ih =>
    obtain ⟨runs, hrecorded⟩ := ih
    exact hrecorded.step hspares hends

/-- As long as no spawn pushes out a run with work, the file that a store keeps of a sequence of
calls keeps all work that these have left, and a call that fails leaves the file as it was. -/
theorem keepsWork_of_spared {start disk : Disk Unit} (hstart : start.store = none)
    (h : Made limits (Spares limits) start log disk) :
    (∃ file, (interpret (answerOf disk.store)).Yields file) ∧
      (∀ file, (interpret (answerOf disk.store)).Yields file → KeepsWork log file) ∧
      ∀ method e later, Ends limits method disk (.error e) later → later.store = disk.store := by
  obtain ⟨runs, hrecorded⟩ := recorded_of_made hstart h
  refine ⟨?_, fun file hread => ?_, fun method e later hends => ?_⟩
  · rcases hrecorded.saved with ⟨hnone, -⟩ | ⟨saved, hsaved, -⟩
    · rw [hnone]
      exact ⟨_, .pure _⟩
    · rw [hsaved]
      exact exists_yields_sanitize saved.toJson
  · have hruns := hrecorded.runs_eq hread
    exact Books.keepsWork (hruns ▸ hrecorded.books)
  · obtain ⟨p, hsteps, hp⟩ := hends
    cases p with
    | request o k => cases hp
    | pure run => cases hp
    | throw e' => exact store_of_failed hsteps

end Calls

section Example

/-- A worker that has just been started is in the store. -/
theorem keepsWork_of_spared_spawn : ∃ later file,
    Ends fenceLimits (spawnOf "a") (.initial none) (.ok (spawnedRun "r" "a")) later ∧
      (interpret (answerOf later.store)).Yields file ∧
      KeepsWork [(spawnOf "a", .ok (spawnedRun "r" "a"))] file := by
  obtain ⟨later, hends, hread⟩ := exists_spawn reading_initial "r" "a"
  have hspares : Spares fenceLimits (.initial none) (spawnOf "a") := by
    rintro ⟨file, oldest, rest, hfile, hruns, -⟩
    cases hfile
    cases hruns
  have hmade : Made fenceLimits (Spares fenceLimits) (.initial none)
      [(spawnOf "a", .ok (spawnedRun "r" "a"))] later := .call .none hspares hends
  exact ⟨later, _, hends, hread.reads, (keepsWork_of_spared rfl hmade).2.1 _ hread.reads⟩

def runAt (k : ℕ) : WorkerRun := spawnedRun (String.ofList (List.replicate k 'r')) "a"

def spawnLog : ℕ → List Call
  | 0 => []
  | k + 1 => (spawnOf "a", .ok (runAt k)) :: spawnLog k

theorem exists_spawns (count : ℕ) : ∃ later saved,
    Made fenceLimits (fun _ _ => True) (.initial none) (spawnLog count) later ∧
      Reading later saved ∧
      saved.runs = last (fenceLimits.maxParkedRuns + 8) ((List.range count).map runAt) := by
  induction count with
  | zero => exact ⟨_, _, .none, reading_initial, rfl⟩
  | succ count ih =>
    obtain ⟨mid, saved, hmade, hmid, hruns⟩ := ih
    obtain ⟨later, hends, hlater⟩ :=
      exists_spawn hmid (String.ofList (List.replicate count 'r')) "a"
    refine ⟨later, _, .call hmade trivial hends, hlater, ?_⟩
    show last _ (saved.runs ++ _) = _
    rw [hruns, last_last_append, List.range_succ, List.map_append, List.map_singleton]
    rfl

/-- After thirteen spawns with room for twelve runs, the worker of the first one has not been
finished, and its run is not in the store. -/
theorem live_run_dropped : ∃ later file,
    Made fenceLimits (fun _ _ => True) (.initial none) (spawnLog 13) later ∧
      (interpret (answerOf later.store)).Yields file ∧
      Unfinished (runAt 0).runId workerId (spawnLog 13) ∧
      ∀ run ∈ file.runs, run.runId ≠ (runAt 0).runId := by
  obtain ⟨later, saved, hmade, hread, hruns⟩ := exists_spawns 13
  refine ⟨later, saved, hmade, hread.reads, ?_, fun run hrun => ?_⟩
  · have hfirst : Unfinished (runAt 0).runId workerId (spawnLog 1) :=
      .inl ⟨rfl, _, List.mem_cons_self, rfl⟩
    have hlater : ∀ count, Unfinished (runAt 0).runId workerId (spawnLog (count + 1)) := by
      intro count
      induction count with
      | zero => exact hfirst
      | succ count ih => exact .inr ih
    exact hlater 12
  · rw [hruns] at hrun
    have hlast : last (fenceLimits.maxParkedRuns + 8) ((List.range 13).map runAt) =
        ((List.range 12).map (· + 1)).map runAt := by
      rw [last, List.length_map, List.length_range, ← List.map_drop]
      rfl
    rw [hlast, List.map_map] at hrun
    obtain ⟨k, -, rfl⟩ := List.mem_map.mp hrun
    intro hid
    have hlength := congrArg (fun id : String => id.toList.length) hid
    simp [runAt, spawnedRun, singleRun] at hlength

end Example

end WorkerStore
