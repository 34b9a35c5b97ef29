import ChatgptSystem.Agent.WorkerHistory

/-!
# The fence of retired aliases

Finishing a worker retires its alias: `assertAliasLive` rejects it from then on. The store keeps
the last `MAX_RETIRED` retirements only. `fenced_of_conforming` says that the fence stays closed
as long as no later `finish` pushes the alias out of the full list.

* `Method`, `InTurn` — the methods of the store, called one after the other;
* `Fenced` — what `isRetired` and `assertAliasLive` do with an alias;
* `Displaces` — the calls that push an alias out of the list;
* `fence_reopens` — a retired alias is accepted again after two hundred more retirements.
-/

open Interleaving

namespace WorkerStore

/-! ## Calls one after the other -/

/-- The methods that change the store, with their arguments. -/
inductive Method where
  | spawn (primeAlias sharedContext : String) (specs : List WorkerSpawnSpec)
  | status (runId : String)
  | message (runId workerId message : String) (sender : MessageSender)
  | sleep (runId workerId : String)
  | finish (runId workerId report : String) (failed : Bool)

def Method.operation (limits : Limits) : Method → Operation
  | .spawn primeAlias sharedContext specs => WorkerStore.spawn limits primeAlias sharedContext specs
  | .status runId => WorkerStore.status runId
  | .message runId workerId text sender => WorkerStore.message runId workerId text sender
  | .sleep runId workerId => WorkerStore.sleep runId workerId
  | .finish runId workerId report failed => WorkerStore.finish runId workerId report failed

/-- The method, running alone, returns or fails with the outcome. -/
def Ends (limits : Limits) (method : Method) (disk : Disk Unit) (outcome : Except AppError WorkerRun)
    (later : Disk Unit) : Prop :=
  ∃ p, Program.Steps (storeExec ()) ((method.operation limits).program limits, disk) (p, later) ∧
    p.outcome? = some outcome

/-- Calls one after the other, each of which meets the side condition `permit` when it begins. -/
inductive InTurn (limits : Limits) (permit : Disk Unit → Method → Prop) :
    Disk Unit → Disk Unit → Prop where
  | refl (disk) : InTurn limits permit disk disk
  | step {disk mid later : Disk Unit} {method : Method} {outcome : Except AppError WorkerRun}
      (h : InTurn limits permit disk mid) (hpermit : permit mid method)
      (hends : Ends limits method mid outcome later) : InTurn limits permit disk later

/-- The alias is rejected: `isRetired` can return true only, and does unless the file cannot be
read, and `assertAliasLive` never returns. -/
structure Fenced (aliasName : String) (disk : Disk Unit) : Prop where
  can : ∃ later, Program.Steps (storeExec ()) (isRetired aliasName, disk) (.pure true, later)
  only : ∀ b later, Program.Steps (storeExec ()) (isRetired aliasName, disk) (.pure b, later) →
    b = true
  rejects : ∀ later, ¬ Program.Steps (storeExec ()) (assertAliasLive aliasName, disk)
    (.pure (), later)

/-- The call finishes a worker that has another alias while the list of retirements is full, and
the oldest of them is the only one of the alias. -/
def Displaces (aliasName : String) (store : Option StoreText) : Method → Prop
  | .finish runId workerId _ _ => ∃ file run worker other,
      (interpret (answerOf store)).Yields file ∧
      file.runs.find? (fun candidate => candidate.runId = runId) = some run ∧
      run.workers.find? (fun candidate => candidate.id = workerId) = some worker ∧
      worker.aliasName = some other ∧ other ≠ aliasName ∧ file.retired.length = MAX_RETIRED ∧
      aliasName ∉ file.retired.tail.map RetiredAlias.aliasName
  | _ => False

/-- The side condition under which an alias stays retired. -/
def Keeps (aliasName : String) (disk : Disk Unit) (method : Method) : Prop :=
  ¬ Displaces aliasName disk.store method

/-! ## Calls that fail -/

section Failing

variable {i : Unit} {disk later : Disk Unit}

theorem still_of_steps_draw {α : Type} {p : DrawM α} {c : StoreM α}
    (h : Program.Steps (storeExec i) (draw p, disk) (c, later)) (hc : c.outcome?.isSome = true) :
    later = disk := by
  induction p with
  | pure b =>
    cases Program.Steps.of_outcome h rfl
    rfl
  | throw e =>
    cases Program.Steps.of_outcome h rfl
    rfl
  | request o k ih =>
    obtain ⟨r, t, ⟨choice, hstep⟩, hrest⟩ := Program.Steps.of_request h hc
    cases choice with
    | draws text =>
      obtain ⟨rfl, rfl⟩ := Prod.mk.inj (Option.some.inj hstep)
      exact ih _ hrest
    | _ => cases hstep

theorem still_of_steps_orThrow {answer : Except Errno Unit} {c : StoreM Unit}
    (h : Program.Steps (storeExec i) (orThrow answer, disk) (c, later)) :
    (c, later) = (orThrow answer, disk) := by
  cases answer with
  | ok => exact Program.Steps.of_outcome h rfl
  | error code => exact Program.Steps.of_outcome h rfl

theorem store_of_steps_load {c : StoreM WorkerStoreFile}
    (h : Program.Steps (storeExec i) (load, disk) (c, later)) (hc : c.outcome?.isSome = true) :
    later.store = disk.store := by
  obtain ⟨answer, read, ⟨choice, hread⟩, hinterpret⟩ := Program.Steps.of_request h hc
  rw [still_of_steps_draw hinterpret hc]
  cases choice with
  | completes =>
    obtain ⟨-, rfl⟩ := Prod.mk.inj (Option.some.inj hread)
    rfl
  | fails code leftover =>
    simp only [StoreOp.apply] at hread
    split at hread
    · cases hread
    · obtain ⟨-, rfl⟩ := Prod.mk.inj (Option.some.inj hread)
      rfl
  | draws text => cases hread

theorem store_of_save_failed {limits : Limits} {file : WorkerStoreFile} {e : AppError}
    (h : Program.Steps (storeExec i) (save limits file, disk) (.throw e, later)) :
    later.store = disk.store := by
  obtain ⟨name, named, ⟨choice, hname⟩, hwriting⟩ := h.of_request rfl
  have hnamed : named.store = disk.store := by
    cases choice with
    | draws text =>
      simp only [StoreOp.apply] at hname
      split at hname
      · cases hname
      · obtain ⟨-, rfl⟩ := Prod.mk.inj (Option.some.inj hname)
        rfl
    | _ => cases hname
  obtain ⟨answer, written, ⟨choice', hwrite⟩, hchecking⟩ := hwriting.of_request rfl
  have hwritten : written.store = named.store := by
    cases choice' with
    | draws text => cases hwrite
    | _ =>
      obtain ⟨-, rfl⟩ := Prod.mk.inj (Option.some.inj hwrite)
      rfl
  rw [← hnamed, ← hwritten]
  rcases hchecking.of_bind_outcome rfl with ⟨e', -, hfailed⟩ | ⟨_, checked, hanswer, hrenaming⟩
  · exact congrArg Disk.store (Prod.mk.inj (still_of_steps_orThrow hfailed)).2
  · rw [← (Prod.mk.inj (still_of_steps_orThrow hanswer)).2]
    obtain ⟨answer', renamed, ⟨choice'', hrename⟩, hlast⟩ := hrenaming.of_request rfl
    obtain ⟨herror, rfl⟩ := Prod.mk.inj (still_of_steps_orThrow hlast)
    cases choice'' with
    | draws text => cases hrename
    | fails code leftover =>
      obtain ⟨-, rfl⟩ := Prod.mk.inj (Option.some.inj hrename)
      rfl
    | completes =>
      unfold StoreOp.apply at hrename
      cases htemporary : checked.temporaries name with
      | none =>
        simp only [htemporary] at hrename
        obtain ⟨-, rfl⟩ := Prod.mk.inj (Option.some.inj hrename)
        rfl
      | some text =>
        -- a rename that has completed is not the end of a failed save
        simp only [htemporary] at hrename
        obtain ⟨rfl, -⟩ := Prod.mk.inj (Option.some.inj hrename)
        cases herror

theorem store_of_failed {limits : Limits} {operation : Operation} {e : AppError}
    (h : Program.Steps (storeExec i) (operation.program limits, disk) (.throw e, later)) :
    later.store = disk.store := by
  rcases h.of_bind_outcome rfl with ⟨_, -, hfailed⟩ | ⟨change, drawn, hdraw, hloading⟩
  · rw [still_of_steps_draw hfailed rfl]
  obtain rfl := still_of_steps_draw hdraw rfl
  rcases hloading.of_bind_outcome rfl with ⟨_, -, hfailed⟩ | ⟨file, loaded, hload, hchanging⟩
  · exact store_of_steps_load hfailed rfl
  rw [← store_of_steps_load hload rfl]
  rcases hchanging.of_bind_outcome rfl with ⟨_, -, hfailed⟩ | ⟨changed, computed, hcompute, hsaving⟩
  · rw [still_of_steps_draw hfailed rfl]
  obtain rfl := still_of_steps_draw hcompute rfl
  rcases hsaving.of_bind_outcome rfl with ⟨_, -, hfailed⟩ | ⟨_, saved, hsave, hending⟩
  · exact store_of_save_failed hfailed
  · cases haudited : operation.audited with
    | false =>
      rw [haudited] at hending
      cases hending.of_outcome rfl
    | true =>
      rw [haudited] at hending
      obtain ⟨_, _, -, hlast⟩ := hending.of_request rfl
      cases hlast.of_outcome rfl

end Failing

/-! ## The list of retirements -/

def aliases (retired : List RetiredAlias) : List String := retired.map RetiredAlias.aliasName

variable {α : Type} {aliasName : String} {limits : Limits}

theorem length_last_le (count : ℕ) (items : List α) : (last count items).length ≤ count := by
  rw [last, List.length_drop]
  omega

theorem retired_bounded (limits : Limits) (file : WorkerStoreFile) :
    (file.bounded limits).retired = last MAX_RETIRED file.retired := by
  simp only [WorkerStoreFile.bounded]

theorem length_retired_bounded (limits : Limits) (file : WorkerStoreFile) :
    (file.bounded limits).retired.length ≤ MAX_RETIRED := by
  rw [retired_bounded]
  exact length_last_le _ _

theorem last_of_length_le {count : ℕ} {items : List α} (h : items.length ≤ count) :
    last count items = items := by
  rw [last, Nat.sub_eq_zero_of_le h, List.drop_zero]

theorem last_append_singleton {count : ℕ} {items : List α} (item : α)
    (hlength : items.length ≤ count) (hcount : 0 < count) :
    last count (items ++ [item]) = (if items.length = count then items.tail else items) ++ [item] := by
  rw [last, List.length_append, List.length_singleton]
  split
  next hfull =>
    rw [hfull, Nat.add_sub_cancel_left, List.drop_append_of_le_length (by omega), List.drop_one]
  next hroom =>
    rw [show items.length + 1 - count = 0 by omega, List.drop_zero]

theorem validRetired_toJson (entry : RetiredAlias) :
    validRetired entry.toJson = if entry.aliasName = "" then none else some entry := by
  have halias : textOf entry.toJson "alias" = some entry.aliasName := rfl
  have hrun : textOf entry.toJson "runId" = some entry.runId := rfl
  have hworker : textOf entry.toJson "workerId" = some entry.workerId := rfl
  have hretired : textOf entry.toJson "retiredAt" = some entry.retiredAt := rfl
  unfold validRetired
  rw [halias, hrun, hworker, hretired]
  by_cases h : entry.aliasName = ""
  · simp [h]
  · simp [h, guard]

theorem retired_of_sanitize {file read : WorkerStoreFile}
    (h : (sanitize file.toJson).Yields read) :
    read.retired = last MAX_RETIRED (file.retired.filter fun entry => entry.aliasName ≠ "") := by
  have hitems : ((file.toJson.property? "retired").bind Json.items?).getD [] =
      file.retired.map RetiredAlias.toJson := rfl
  have hsome : (fun entry : RetiredAlias => validRetired entry.toJson) =
      Option.guard fun entry => entry.aliasName ≠ "" := by
    funext entry
    by_cases hempty : entry.aliasName = "" <;> simp [validRetired_toJson, hempty, Option.guard]
  obtain ⟨runs, -, h⟩ := Program.Yields.bind_inv h
  rw [hitems] at h
  cases h
  rw [List.filterMap_map, Function.comp_def, hsome, List.filterMap_eq_filter]

def Holds (aliasName : String) (store : Option StoreText) : Prop :=
  ∃ file : WorkerStoreFile, store = some (.value file.toJson) ∧
    file.retired.length ≤ MAX_RETIRED ∧ aliasName ∈ aliases file.retired

theorem mem_of_holds {store : Option StoreText} {read : WorkerStoreFile}
    (hholds : Holds aliasName store) (ha : aliasName ≠ "")
    (h : (interpret (answerOf store)).Yields read) : aliasName ∈ aliases read.retired := by
  obtain ⟨file, rfl, hlength, hmem⟩ := hholds
  rw [retired_of_sanitize h, last_of_length_le ((List.length_filter_le _ _).trans hlength)]
  obtain ⟨entry, hentry, rfl⟩ := List.mem_map.mp hmem
  exact List.mem_map.mpr ⟨entry, List.mem_filter.mpr ⟨hentry, by simpa using ha⟩, rfl⟩

theorem length_retired_le {store : Option StoreText} {read : WorkerStoreFile}
    (h : (interpret (answerOf store)).Yields read) : read.retired.length ≤ MAX_RETIRED := by
  unfold interpret at h
  split at h
  next parsed _ =>
    unfold sanitize at h
    split at h
    · obtain ⟨runs, -, h⟩ := Program.Yields.bind_inv h
      cases h
      exact Nat.zero_le _
    · obtain ⟨runs, -, h⟩ := Program.Yields.bind_inv h
      generalize hcount : MAX_RETIRED = count at h ⊢
      cases h
      exact length_last_le _ _
  · cases h
  · cases h
    exact Nat.zero_le _
  · cases h

/-! ## What a method does to the list -/

theorem retired_of_transforms {method : Method} {file changed : WorkerStoreFile}
    {change : WorkerStoreFile → DrawM (WorkerRun × WorkerStoreFile)} {returned : WorkerRun}
    (hprologue : (method.operation limits).prologue.Yields change)
    (h : (change file).Yields (returned, changed)) : changed.retired = file.retired ∨
      ∃ runId workerId report failed run worker other lastSeenAt,
        method = .finish runId workerId report failed ∧
        file.runs.find? (fun candidate => candidate.runId = runId) = some run ∧
        run.workers.find? (fun candidate => candidate.id = workerId) = some worker ∧
        worker.aliasName = some other ∧
        changed.retired = file.retired ++ [⟨other, runId, workerId, lastSeenAt⟩] := by
  cases method with
  | spawn primeAlias sharedContext specs =>
    obtain ⟨now, -, rfl⟩ := spawn_cases hprologue h
    exact .inl rfl
  | status runId =>
    obtain ⟨run, now, -, -, rfl⟩ := status_cases hprologue h
    exact .inl rfl
  | message runId workerId text sender =>
    obtain ⟨run, worker, room, id, sentAt, lastSeenAt, -, -, -, -, -, -, -, rfl⟩ :=
      message_cases hprologue h
    exact .inl rfl
  | sleep runId workerId =>
    obtain ⟨run, worker, lastSeenAt, -, -, -, rfl⟩ := sleep_cases hprologue h
    exact .inl rfl
  | finish runId workerId report failed =>
    obtain ⟨run, worker, lastSeenAt, parked, hrun, hworker, -, rfl⟩ := finish_cases hprologue h
    cases halias : worker.aliasName with
    | none => exact .inl (by simp)
    | some other =>
      exact .inr ⟨runId, workerId, report, failed, run, worker, other, lastSeenAt, rfl, hrun,
        hworker, halias, by simp⟩

/-! ## The fence -/

theorem mem_last_append {retired : List RetiredAlias} {entry : RetiredAlias}
    (hmem : aliasName ∈ aliases retired) (hlength : retired.length ≤ MAX_RETIRED)
    (hkept : entry.aliasName ≠ aliasName → retired.length = MAX_RETIRED →
      aliasName ∈ aliases retired.tail) :
    aliasName ∈ aliases (last MAX_RETIRED (retired ++ [entry])) := by
  rw [last_append_singleton entry hlength (by decide), aliases, List.map_append, List.mem_append]
  by_cases hentry : entry.aliasName = aliasName
  · exact .inr (by simp [hentry])
  · left
    split
    next hfull => exact hkept hentry hfull
    next => exact hmem

theorem holds_step {method : Method} {disk later : Disk Unit} {outcome : Except AppError WorkerRun}
    (ha : aliasName ≠ "") (hholds : Holds aliasName disk.store)
    (hkeeps : Keeps aliasName disk method) (hends : Ends limits method disk outcome later) :
    Holds aliasName later.store := by
  obtain ⟨p, hsteps, hp⟩ := hends
  cases p with
  | request o k => cases hp
  | throw e =>
    rw [store_of_failed hsteps]
    exact hholds
  | pure run =>
    obtain ⟨text, hstore, change, file, changed, hprologue, hfile, hchange, rfl⟩ :=
      transforms_of_steps hsteps
    have hmem := mem_of_holds hholds ha hfile
    have hlength := length_retired_le hfile
    refine ⟨changed.bounded limits, hstore, length_retired_bounded _ _, ?_⟩
    rw [retired_bounded]
    rcases retired_of_transforms hprologue hchange with hsame | ⟨runId, workerId, report, failed,
      run, worker, other, lastSeenAt, rfl, hrun, hworker, halias, hretired⟩
    · rw [hsame, last_of_length_le hlength]
      exact hmem
    · rw [hretired]
      refine mem_last_append hmem hlength fun hother hfull => ?_
      by_contra hgone
      exact hkeeps ⟨file, run, worker, other, hfile, hrun, hworker, halias, hother, hfull, hgone⟩

theorem holds_of_inTurn {disk later : Disk Unit} (ha : aliasName ≠ "")
    (hholds : Holds aliasName disk.store) (h : InTurn limits (Keeps aliasName) disk later) :
    Holds aliasName later.store := by
  induction h with
  | refl => exact hholds
  | step _ hkeeps hends ih => exact holds_step ha ih hkeeps hends

theorem isRetired_of_steps {disk later : Disk Unit} {b : Bool}
    (h : Program.Steps (storeExec ()) (isRetired aliasName, disk) (.pure b, later)) :
    ∃ file, (interpret (answerOf disk.store)).Yields file ∧
      b = file.retired.any fun entry => entry.aliasName = aliasName := by
  obtain ⟨file, loaded, hload, hlast⟩ := h.of_bind
  obtain ⟨answer, read, ⟨choice, hread⟩, hinterpret⟩ := hload.of_request rfl
  obtain ⟨hfile, -⟩ := yields_of_steps_draw hinterpret
  cases hlast.of_outcome rfl
  refine ⟨file, ?_, rfl⟩
  cases choice with
  | completes =>
    obtain ⟨rfl, -⟩ := Prod.mk.inj (Option.some.inj hread)
    exact hfile
  | fails code leftover =>
    simp only [StoreOp.apply] at hread
    split at hread
    · cases hread
    next hcode =>
      obtain ⟨rfl, -⟩ := Prod.mk.inj (Option.some.inj hread)
      rw [interpret_error hcode] at hfile
      cases hfile
  | draws text => cases hread

/-! ## Reading always succeeds -/

theorem exists_yields_bind {β : Type} {p : DrawM α} {f : α → DrawM β} (hp : ∃ a, p.Yields a)
    (hf : ∀ a, ∃ b, (f a).Yields b) : ∃ b, (p.bind f).Yields b := by
  obtain ⟨a, ha⟩ := hp
  obtain ⟨b, hb⟩ := hf a
  exact ⟨b, .bind ha hb⟩

theorem exists_yields_mapM' {β : Type} {f : α → DrawM β} (hf : ∀ a, ∃ b, (f a).Yields b)
    (items : List α) : ∃ values, (items.mapM' f).Yields values := by
  induction items with
  | nil => exact ⟨[], .pure []⟩
  | cons item items ih =>
    exact exists_yields_bind (hf item) fun value =>
      exists_yields_bind ih fun values => ⟨value :: values, .pure _⟩

theorem exists_yields_inboxOf (candidate : Json) : ∃ inbox, (inboxOf candidate).Yields inbox := by
  unfold inboxOf
  split
  · exact ⟨_, .pure _⟩
  · refine exists_yields_mapM' (fun text => ?_) _
    exact exists_yields_bind ⟨_, .request "" (.pure _)⟩ fun _ => ⟨_, .pure _⟩

theorem exists_yields_validWorker (candidate : Json) :
    ∃ worker, (validWorker candidate).Yields worker := by
  unfold validWorker
  split
  · exact exists_yields_bind (exists_yields_inboxOf candidate) fun _ => ⟨_, .pure _⟩
  · exact ⟨none, .pure none⟩

theorem exists_yields_runsFromLegacy (entries : List Json) :
    ∃ runs, (runsFromLegacy entries).Yields runs := by
  refine exists_yields_bind (exists_yields_mapM' (fun candidate => ?_) entries)
    fun _ => ⟨_, .pure _⟩
  unfold runFromLegacy
  split
  · exact exists_yields_bind (exists_yields_mapM' exists_yields_validWorker _) fun _ => ⟨_, .pure _⟩
  · exact ⟨none, .pure none⟩

theorem exists_yields_sanitize (parsed : Json) : ∃ file, (sanitize parsed).Yields file := by
  unfold sanitize
  split
  · exact exists_yields_bind (exists_yields_runsFromLegacy _) fun _ => ⟨_, .pure _⟩
  · exact exists_yields_bind (exists_yields_runsFromLegacy _) fun _ => ⟨_, .pure _⟩

theorem steps_isRetired {disk : Disk Unit} {file : WorkerStoreFile} (aliasName : String)
    (h : (interpret (answerOf disk.store)).Yields file) : ∃ later,
    Program.Steps (storeExec ()) (isRetired aliasName, disk)
      (.pure (file.retired.any fun entry => entry.aliasName = aliasName), later) := by
  let read : Disk Unit := { disk with loaded := Function.update disk.loaded () (some disk.store) }
  have hread : storeExec () .readFile disk (answerOf disk.store) read := ⟨.completes, rfl⟩
  exact ⟨read, .head hread (steps_draw h _)⟩

theorem any_iff_mem_aliases {retired : List RetiredAlias} :
    (retired.any fun entry => entry.aliasName = aliasName) = true ↔
      aliasName ∈ aliases retired := by
  simp [aliases]

theorem fenced_of_holds {disk : Disk Unit} (ha : aliasName ≠ "")
    (hholds : Holds aliasName disk.store) : Fenced aliasName disk := by
  have hany : ∀ file, (interpret (answerOf disk.store)).Yields file →
      (file.retired.any fun entry => entry.aliasName = aliasName) = true := fun file hfile =>
    any_iff_mem_aliases.mpr (mem_of_holds hholds ha hfile)
  refine ⟨?_, fun b later h => ?_, fun later h => ?_⟩
  · obtain ⟨saved, hstore, -⟩ := hholds
    obtain ⟨file, hfile⟩ := exists_yields_sanitize saved.toJson
    have hread : (interpret (answerOf disk.store)).Yields file := by
      rw [hstore]
      exact hfile
    obtain ⟨later, hsteps⟩ := steps_isRetired aliasName hread
    exact ⟨later, hany file hread ▸ hsteps⟩
  · obtain ⟨file, hfile, rfl⟩ := isRetired_of_steps h
    exact hany file hfile
  · obtain ⟨b, mid, hfirst, hlast⟩ := h.of_bind
    obtain ⟨file, hfile, rfl⟩ := isRetired_of_steps hfirst
    rw [if_pos (hany file hfile)] at hlast
    cases hlast.of_outcome rfl

theorem find?_setFirst {found : α → Bool} {item : α} {items : List α} {old : α}
    (hold : items.find? found = some old) (hitem : found item = true) :
    (setFirst found item items).find? found = some item := by
  induction items with
  | nil => cases hold
  | cons first rest ih =>
    rw [List.find?_cons] at hold
    unfold setFirst
    by_cases hfirst : found first = true
    · simp [hfirst, hitem]
    · simp only [hfirst] at hold ⊢
      simpa [List.find?_cons, hfirst] using ih hold

theorem holds_of_finish {runId workerId report : String} {failed : Bool} {disk later : Disk Unit}
    {run : WorkerRun} {worker : WorkerRecord}
    (hends : Ends limits (.finish runId workerId report failed) disk (.ok run) later)
    (hworker : run.workers.find? (fun candidate => candidate.id = workerId) = some worker)
    (halias : worker.aliasName = some aliasName) : Holds aliasName later.store := by
  obtain ⟨p, hsteps, hp⟩ := hends
  cases p with
  | request o k => cases hp
  | throw e => cases hp
  | pure returned =>
    obtain rfl := Except.ok.inj (Option.some.inj hp)
    obtain ⟨text, hstore, change, file, changed, hprologue, hfile, hchange, rfl⟩ :=
      transforms_of_steps hsteps
    obtain ⟨old, finished, lastSeenAt, parked, hold, hfinished, rfl, rfl⟩ :=
      finish_cases hprologue hchange
    obtain rfl : finished.id = workerId := by simpa using List.find?_some hfinished
    have hfound := @find?_setFirst _ _ { finished with
      state := if failed then .failed else .finished
      result := some (trim report)
      lastSeenAt } _ _ hfinished (decide_eq_true rfl)
    obtain rfl := Option.some.inj (hfound.symm.trans hworker)
    refine ⟨_, hstore, length_retired_bounded _ _, ?_⟩
    rw [retired_bounded, show finished.aliasName = some aliasName from halias,
      last_append_singleton _ (length_retired_le hfile) (by decide), aliases, List.map_append,
      List.mem_append]
    exact .inr (by simp)

/-- Once a worker with an alias has been finished, the alias stays rejected, whatever methods are
called one after the other, as long as no finish pushes the alias out of the full list. -/
theorem fenced_of_conforming {limits : Limits} {runId workerId report aliasName : String}
    {failed : Bool} {start finished later : Disk Unit} {run : WorkerRun} {worker : WorkerRecord}
    (hends : Ends limits (.finish runId workerId report failed) start (.ok run) finished)
    (hworker : run.workers.find? (fun candidate => candidate.id = workerId) = some worker)
    (halias : worker.aliasName = some aliasName) (ha : aliasName ≠ "")
    (h : InTurn limits (Keeps aliasName) finished later) : Fenced aliasName later :=
  fenced_of_holds ha (holds_of_inTurn ha (holds_of_finish hends hworker halias) h)

/-! ## Two hundred more retirements -/

section Example

def fenceLimits : Limits := { maxWorkers := 4, maxParkedRuns := 4 }

/-- A run of one worker with an alias, drawn with the identifiers `runId` and the empty one. -/
def singleRun (runId aliasName : String) (state : WorkerState) (result : Option String)
    (parked : Bool) : WorkerRun :=
  { runId, primeAlias := trim "prime", sharedContext := "", createdAt := "now", parked
    workers :=
      [{ id := "w" ++ "-" ++ String.ofList (Text.slice 8 "".toList)
         label := slice MAX_LABEL_CHARS ("worker-" ++ toString 1)
         task := briefFor "" (trim "t")
         state, aliasName := some aliasName, worktreePath := none, inbox := []
         createdAt := "now", lastSeenAt := "now", result }] }

def spawnedRun (runId aliasName : String) : WorkerRun := singleRun runId aliasName .active none false

def finishedRun (runId aliasName : String) : WorkerRun :=
  singleRun runId aliasName .finished (some (trim "done")) true

def workerId : String := "w" ++ "-" ++ String.ofList (Text.slice 8 "".toList)

def spawnedWorker (aliasName : String) : WorkerRecord :=
  { id := workerId
    label := slice MAX_LABEL_CHARS ("worker-" ++ toString 1)
    task := briefFor "" (trim "t")
    state := .active, aliasName := some aliasName, worktreePath := none, inbox := []
    createdAt := "now", lastSeenAt := "now", result := none }

def specOf (aliasName : String) : WorkerSpawnSpec :=
  { task := "t", label := none, aliasName := some aliasName, worktreePath := none }

def spawnOf (aliasName : String) : Method := .spawn "prime" "" [specOf aliasName]

def finishOf (runId : String) : Method := .finish runId workerId "done" false

def Clean (run : WorkerRun) : Prop := (runFromLegacy run.toJson).Yields (some run)

theorem text?_nullable (text : Option String) : (nullable text).text? = text := by
  cases text <;> rfl

theorem validWorker_toJson {worker : WorkerRecord} (hlength : worker.inbox.length ≤ MAX_QUEUE)
    (hread : ∀ message ∈ worker.inbox, validMessage message.toJson = some message) :
    validWorker worker.toJson = .pure (some worker) := by
  have hstate : stateOf worker.toJson = worker.state := by
    have htext : textOf worker.toJson "state" = some worker.state.toText := rfl
    rw [stateOf, htext]
    cases worker.state <;> rfl
  have halias : textOf worker.toJson "alias" = worker.aliasName := text?_nullable _
  have hpath : textOf worker.toJson "worktreePath" = worker.worktreePath := text?_nullable _
  have hresult : textOf worker.toJson "result" = worker.result := text?_nullable _
  have hmessages : (worker.inbox.map AgentMessage.toJson).filterMap validMessage =
      worker.inbox := by
    rw [List.filterMap_map, Function.comp_def,
      List.filterMap_congr (g := some) hread,
      List.filterMap_some]
  have hworker : validWorker worker.toJson = .pure (some
      { id := worker.id, label := worker.label, task := worker.task
        state := stateOf worker.toJson
        aliasName := textOf worker.toJson "alias"
        worktreePath := textOf worker.toJson "worktreePath"
        inbox := last MAX_QUEUE ((worker.inbox.map AgentMessage.toJson).filterMap validMessage)
        createdAt := worker.createdAt, lastSeenAt := worker.lastSeenAt
        result := textOf worker.toJson "result" }) := rfl
  rw [hworker, hstate, halias, hpath, hresult, hmessages, last_of_length_le hlength]

theorem clean_singleRun (runId aliasName : String) (state : WorkerState) (result : Option String)
    (parked : Bool) : Clean (singleRun runId aliasName state result parked) :=
  have hworker : ∀ worker, worker.inbox = [] → (validWorker worker.toJson).Yields (some worker) := by
    intro worker hinbox
    rw [validWorker_toJson] <;> simp [hinbox, Program.Yields.pure]
  .bind (.mapM' (.cons (hworker _ rfl) .nil)) (.pure _)

structure CleanFile (file : WorkerStoreFile) : Prop where
  runs : ∀ run ∈ file.runs, Clean run
  named : ∀ entry ∈ file.retired, entry.aliasName ≠ ""
  length : file.retired.length ≤ MAX_RETIRED

variable {file : WorkerStoreFile}

theorem CleanFile.bounded (hruns : ∀ run ∈ file.runs, Clean run)
    (hnamed : ∀ entry ∈ file.retired, entry.aliasName ≠ "") :
    CleanFile (file.bounded fenceLimits) where
  runs := fun run h => hruns run (List.mem_of_mem_drop h)
  named := fun entry h => by
    rw [retired_bounded] at h
    exact hnamed entry (List.mem_of_mem_drop h)
  length := length_retired_bounded _ _

theorem CleanFile.yields (h : CleanFile file) :
    (interpret (answerOf (some (.value file.toJson)))).Yields file := by
  have hruns : (runsFromLegacy (file.runs.map WorkerRun.toJson)).Yields file.runs := by
    have hall : List.Forall₂ (fun candidate run => (runFromLegacy candidate).Yields run)
        (file.runs.map WorkerRun.toJson) (file.runs.map some) := by
      rw [List.forall₂_map_left_iff, List.forall₂_map_right_iff]
      exact List.forall₂_same.mpr h.runs
    have hsome : (file.runs.map some).filterMap id = file.runs := by simp
    have hread : (runsFromLegacy (file.runs.map WorkerRun.toJson)).Yields
        ((file.runs.map some).filterMap id) := .bind (.mapM' hall) (.pure _)
    rw [hsome] at hread
    exact hread
  have hretired : last MAX_RETIRED ((file.retired.map RetiredAlias.toJson).filterMap validRetired) =
      file.retired := by
    have hsome : ∀ entry ∈ file.retired, validRetired entry.toJson = some entry := fun entry he => by
      rw [validRetired_toJson, if_neg (h.named entry he)]
    rw [List.filterMap_map, Function.comp_def, List.filterMap_congr (g := some) hsome, List.filterMap_some,
      last_of_length_le h.length]
  have hitems : ((file.toJson.property? "retired").bind Json.items?).getD [] =
      file.retired.map RetiredAlias.toJson := rfl
  show (sanitize file.toJson).Yields file
  have hboth : (sanitize file.toJson).Yields
      { runs := file.runs
        retired := last MAX_RETIRED
          ((((file.toJson.property? "retired").bind Json.items?).getD []).filterMap validRetired) } :=
    .bind hruns (.pure _)
  rw [hitems, hretired] at hboth
  exact hboth

theorem yields_spawnOf (runId aliasName : String) :
    ∃ change, ((spawnOf aliasName).operation fenceLimits).prologue.Yields change ∧
      ∀ file : WorkerStoreFile, (change file).Yields (spawnedRun runId aliasName,
        { file with runs := file.runs ++ [spawnedRun runId aliasName] }) := by
  simp only [spawnOf, Method.operation, spawn]
  rw [if_neg (by decide +kernel), if_neg (by decide +kernel), if_neg (by simp)]
  refine ⟨_, .request "now" (.pure _), fun file => .request runId ?_⟩
  have htask : ¬(trim "t" = "" ∨ length (trim "t") > MAX_TASK_CHARS) := by decide +kernel
  have hworkers : (spawnWorkers "" "now" [specOf aliasName] []).Yields
      (spawnedRun runId aliasName).workers := by
    unfold spawnWorkers
    rw [specOf, if_neg htask]
    exact .request "" (.pure _)
  refine .bind (.pure runId) (.bind hworkers ?_)
  have hslots : ¬ (activeWorkers (spawnedRun runId aliasName)).length > fenceLimits.maxWorkers := by
    simp [activeWorkers, spawnedRun, singleRun, isTerminal, fenceLimits]
  rw [if_neg]
  · exact .pure _
  · exact hslots

theorem yields_finishOf {runId aliasName : String}
    (hrun : file.runs.find? (fun candidate => candidate.runId = runId) =
      some (spawnedRun runId aliasName)) :
    ∃ change, ((finishOf runId).operation fenceLimits).prologue.Yields change ∧
      (change file).Yields (finishedRun runId aliasName,
        { file.setRun (finishedRun runId aliasName) with
          retired := file.retired ++ [⟨aliasName, runId, workerId, "now"⟩] }) := by
  simp only [finishOf, Method.operation, finish]
  rw [if_neg (by decide +kernel)]
  refine ⟨_, .pure _, ?_⟩
  have hfound : (findRun file.runs runId).Yields (spawnedRun runId aliasName) := by
    rw [findRun, hrun]
    exact .pure _
  refine .bind hfound ?_
  have hworker : (findWorker (spawnedRun runId aliasName) workerId).Yields
      (spawnedWorker aliasName) := by
    rw [findWorker, spawnedRun, singleRun, List.find?_cons_of_pos (by simp [workerId])]
    exact .pure _
  refine .bind hworker ?_
  rw [if_neg (by simp [spawnedWorker, isTerminal])]
  refine .request "now" (.bind (.pure _) ?_)
  have hset : (spawnedRun runId aliasName).setWorker { spawnedWorker aliasName with
      state := .finished, result := some (trim "done"), lastSeenAt := "now" } =
      { finishedRun runId aliasName with parked := false } := by
    simp [WorkerRun.setWorker, spawnedRun, finishedRun, singleRun, setFirst, spawnedWorker,
      workerId]
  simp only [Bool.false_eq_true, if_false]
  rw [hset]
  exact .pure _

theorem last_last_append (count : ℕ) (items rest : List α) :
    last count (last count items ++ rest) = last count (items ++ rest) := by
  unfold last
  rcases Nat.le_total items.length count with hshort | hlong
  · rw [Nat.sub_eq_zero_of_le hshort, List.drop_zero]
  · have hdrop : items.drop (items.length - count) ++ rest =
        (items ++ rest).drop (items.length - count) :=
      (List.drop_append_of_le_length (Nat.sub_le _ _)).symm
    rw [hdrop, List.drop_drop, List.length_drop, List.length_append]
    congr 1
    omega

theorem last_append_replicate (count : ℕ) (items : List α) (item : α) :
    last count (items ++ List.replicate count item) = List.replicate count item := by
  have hlength : (items ++ List.replicate count item).length - count = items.length := by
    rw [List.length_append, List.length_replicate, Nat.add_sub_cancel]
  rw [last, hlength, List.drop_left]

theorem aliases_last (count : ℕ) (retired : List RetiredAlias) :
    aliases (last count retired) = last count (aliases retired) := by
  rw [aliases, aliases, last, last, List.map_drop, List.length_map]

/-- The file that is read from the disk, which is also what a save of it would be read as. -/
structure Reading (disk : Disk Unit) (file : WorkerStoreFile) : Prop where
  clean : CleanFile file
  reads : (interpret (answerOf disk.store)).Yields file

theorem reading_initial : Reading (.initial none) { runs := [], retired := [] } where
  clean := { runs := by simp, named := by simp, length := Nat.zero_le _ }
  reads := .pure _

theorem ends_of_yields (method : Method) {disk : Disk Unit} {changed : WorkerStoreFile}
    {run : WorkerRun} {change : WorkerStoreFile → DrawM (WorkerRun × WorkerStoreFile)}
    (hread : Reading disk file) (hprologue : (method.operation fenceLimits).prologue.Yields change)
    (hchange : (change file).Yields (run, changed)) (hruns : ∀ run ∈ changed.runs, Clean run)
    (hnamed : ∀ entry ∈ changed.retired, entry.aliasName ≠ "") :
    ∃ later, Ends fenceLimits method disk (.ok run) later ∧
      Reading later (changed.bounded fenceLimits) := by
  have hclean := CleanFile.bounded hruns hnamed
  have htransforms : Transforms fenceLimits (method.operation fenceLimits) disk.store run
      (.value (changed.bounded fenceLimits).toJson) :=
    ⟨change, file, changed, hprologue, hread.reads, hchange, rfl⟩
  have halone : ReturnsAlone fenceLimits (fun _ : Unit => method.operation fenceLimits) () _ run _ :=
    returnsAlone_of_transforms htransforms
  obtain ⟨later, hsteps, hstore⟩ := halone disk rfl
  refine ⟨later, ⟨_, hsteps, rfl⟩, hclean, ?_⟩
  rw [hstore]
  exact hclean.yields

theorem find?_of_unique {found : α → Bool} {item : α} {items : List α} (hmem : item ∈ items)
    (hitem : found item = true) (hunique : ∀ other ∈ items, found other = true → other = item) :
    items.find? found = some item := by
  cases hfind : items.find? found with
  | none => exact absurd hitem (List.find?_eq_none.mp hfind item hmem)
  | some other =>
    rw [hunique other (List.mem_of_find?_eq_some hfind) (List.find?_some hfind)]

theorem mem_setFirst {found : α → Bool} {item other : α} {items : List α}
    (h : other ∈ setFirst found item items) : other = item ∨ other ∈ items := by
  induction items with
  | nil => cases h
  | cons first rest ih =>
    unfold setFirst at h
    split at h
    · rcases List.mem_cons.mp h with rfl | hrest
      · exact .inl rfl
      · exact .inr (List.mem_cons_of_mem _ hrest)
    · rcases List.mem_cons.mp h with rfl | hrest
      · exact .inr List.mem_cons_self
      · exact (ih hrest).imp_right (List.mem_cons_of_mem _)

theorem mem_last_append_singleton {count : ℕ} (items : List α) (item : α) (hcount : 0 < count) :
    item ∈ last count (items ++ [item]) := by
  have hlength : (items ++ [item]).length - count ≤ items.length := by
    rw [List.length_append, List.length_singleton]
    omega
  rw [last, List.drop_append_of_le_length hlength]
  exact List.mem_append_right _ (List.mem_singleton.mpr rfl)

theorem exists_spawn {disk : Disk Unit} (hread : Reading disk file) (runId aliasName : String) :
    ∃ later, Ends fenceLimits (spawnOf aliasName) disk (.ok (spawnedRun runId aliasName)) later ∧
      Reading later (WorkerStoreFile.bounded fenceLimits
        { file with runs := file.runs ++ [spawnedRun runId aliasName] }) := by
  obtain ⟨change, hprologue, hchange⟩ := yields_spawnOf runId aliasName
  have hruns : ∀ run ∈ file.runs ++ [spawnedRun runId aliasName], Clean run := fun run hrun => by
    rcases List.mem_append.mp hrun with hold | hnew
    · exact hread.clean.runs run hold
    · rw [List.mem_singleton.mp hnew]
      exact clean_singleRun _ _ _ _ _
  exact ends_of_yields (spawnOf aliasName) hread hprologue (hchange file) hruns hread.clean.named

theorem exists_turn {aliasName : String} (ha : aliasName ≠ "") {disk : Disk Unit}
    (hread : Reading disk file) : ∃ runId mid later saved,
    Ends fenceLimits (spawnOf aliasName) disk (.ok (spawnedRun runId aliasName)) mid ∧
      Ends fenceLimits (finishOf runId) mid (.ok (finishedRun runId aliasName)) later ∧
      Reading later saved ∧
      aliases saved.retired = last MAX_RETIRED (aliases file.retired ++ [aliasName]) := by
  obtain ⟨runId, hfresh⟩ := exists_fresh_name (file.runs.map WorkerRun.runId)
  obtain ⟨mid, hspawn, hmid⟩ := exists_spawn hread runId aliasName
  -- the run that has just been started is the only one with its identifier
  have hfind : (last (fenceLimits.maxParkedRuns + 8) (file.runs ++ [spawnedRun runId aliasName])).find?
      (fun candidate => candidate.runId = runId) = some (spawnedRun runId aliasName) := by
    refine find?_of_unique (mem_last_append_singleton _ _ (by decide)) (by simp [spawnedRun, singleRun])
      fun other hother hid => ?_
    rcases List.mem_append.mp (List.mem_of_mem_drop hother) with hold | hnew
    · exact absurd (List.mem_map.mpr ⟨other, hold, by simpa using hid⟩) hfresh
    · exact List.mem_singleton.mp hnew
  let spawned : WorkerStoreFile := { file with runs := file.runs ++ [spawnedRun runId aliasName] }
  obtain ⟨change', hprologue', hchange'⟩ :=
    @yields_finishOf (spawned.bounded fenceLimits) runId aliasName hfind
  have hruns' : ∀ run ∈ setFirst (fun candidate => candidate.runId = runId)
      (finishedRun runId aliasName) (last (fenceLimits.maxParkedRuns + 8)
        (file.runs ++ [spawnedRun runId aliasName])), Clean run := fun run hrun => by
    rcases mem_setFirst hrun with rfl | hold
    · exact clean_singleRun _ _ _ _ _
    · exact hmid.clean.runs run hold
  have hsame : spawned.retired = file.retired := rfl
  have hretired : (spawned.bounded fenceLimits).retired = file.retired := by
    rw [retired_bounded, hsame, last_of_length_le hread.clean.length]
  have hnamed' : ∀ entry ∈ (spawned.bounded fenceLimits).retired ++
      [(⟨aliasName, runId, workerId, "now"⟩ : RetiredAlias)], entry.aliasName ≠ "" := by
    intro entry hentry
    rcases List.mem_append.mp hentry with hold | hnew
    · rw [hretired] at hold
      exact hread.clean.named entry hold
    · rw [List.mem_singleton.mp hnew]
      exact ha
  obtain ⟨later, hfinish, hlater⟩ := ends_of_yields (finishOf runId) hmid hprologue'
    hchange' hruns' hnamed'
  refine ⟨runId, mid, later, _, hspawn, hfinish, hlater, ?_⟩
  rw [retired_bounded, aliases_last]
  simp only [hretired, aliases, List.map_append, List.map_cons, List.map_nil]

theorem exists_turns {aliasName : String} (ha : aliasName ≠ "") {disk : Disk Unit}
    (hread : Reading disk file) (count : ℕ) : ∃ later saved,
    InTurn fenceLimits (fun _ _ => True) disk later ∧ Reading later saved ∧
      aliases saved.retired =
        last MAX_RETIRED (aliases file.retired ++ List.replicate count aliasName) := by
  induction count with
  | zero =>
    refine ⟨disk, file, .refl _, hread, ?_⟩
    rw [List.replicate_zero, List.append_nil, ← aliases_last,
      last_of_length_le hread.clean.length]
  | succ count ih =>
    obtain ⟨mid, saved, hturns, hmid, haliases⟩ := ih
    obtain ⟨runId, spawned, later, saved', hspawn, hfinish, hlater, hlast⟩ := exists_turn ha hmid
    refine ⟨later, saved', (hturns.step trivial hspawn).step trivial hfinish, hlater, ?_⟩
    rw [hlast, haliases, last_last_append, List.append_assoc, ← List.replicate_succ']

/-- The alias of a finished worker is rejected, also when another worker has been started. -/
theorem fenced_of_conforming_spawn : ∃ finished runId later,
    Ends fenceLimits (spawnOf "b") finished (.ok (spawnedRun runId "b")) later ∧
      Fenced "a" later := by
  obtain ⟨runId, spawned, finished, file, -, hfinish, hread, -⟩ :=
    exists_turn (show "a" ≠ "" by decide) reading_initial
  obtain ⟨runId', later, -, -, hspawn, -⟩ := exists_turn (show "b" ≠ "" by decide) hread
  have hworker : (finishedRun runId "a").workers.find? (fun candidate => candidate.id = workerId) =
      some { spawnedWorker "a" with state := .finished, result := some (trim "done") } := by
    simp [finishedRun, singleRun, spawnedWorker, workerId]
  have hkeeps : Keeps "a" finished (spawnOf "b") := fun h => h
  have hturns : InTurn fenceLimits (Keeps "a") finished later := .step (.refl _) hkeeps hspawn
  exact ⟨finished, runId', later, hspawn,
    fenced_of_conforming hfinish hworker rfl (by decide) hturns⟩

/-- Two hundred workers are finished after the one with the alias `a`, and `assertAliasLive`
accepts that alias again. -/
theorem fence_reopens : ∃ runId spawned finished later after,
    Ends fenceLimits (spawnOf "a") (.initial none) (.ok (spawnedRun runId "a")) spawned ∧
      Ends fenceLimits (finishOf runId) spawned (.ok (finishedRun runId "a")) finished ∧
      InTurn fenceLimits (fun _ _ => True) finished later ∧
      Program.Steps (storeExec ()) (isRetired "a", later) (.pure false, after) ∧
      Program.Steps (storeExec ()) (assertAliasLive "a", later) (.pure (), after) := by
  obtain ⟨runId, spawned, finished, file, hspawn, hfinish, hread, hfirst⟩ :=
    exists_turn (show "a" ≠ "" by decide) reading_initial
  obtain ⟨later, saved, hturns, hlater, haliases⟩ :=
    exists_turns (show "b" ≠ "" by decide) hread MAX_RETIRED
  have hgone : "a" ∉ aliases saved.retired := by
    rw [haliases, last_append_replicate]
    intro hmem
    exact absurd (List.eq_of_mem_replicate hmem) (by decide)
  obtain ⟨after, hsteps⟩ := steps_isRetired "a" hlater.reads
  rw [Bool.eq_false_iff.mpr (mt any_iff_mem_aliases.mp hgone)] at hsteps
  have haccepts : Program.Steps (storeExec ()) (assertAliasLive "a", later) (.pure (), after) :=
    hsteps.bind _
  exact ⟨runId, spawned, finished, later, after, hspawn, hfinish, hturns, hsteps, haccepts⟩

end Example

end WorkerStore
