import ChatgptSystem.Computer.ComputerRuntime
import ChatgptSystem.Foundations.Trace

/-!
# Programs of actions

What `ComputerRuntime.run` has requested from the native host when it ends, and what it reports.

* `requests` — the native requests of a trace; `RuntimeState.requestsOf` — those of a call;
* `Completed`, `Failed` — the part of a trace that belongs to one action;
* `runActions_runs` — the loop over the actions;
* `Ended` — the ways a run ends, with its report; `run_runs` — every run ends in one of them;
* `release_last_of_run` — the release of the inputs, and the report, for a run that is interleaved
  with any other calls of the runtime;
* `closed_before_turn` — a run that makes no request.
-/

open Interleaving

namespace Computer

/-! ## Kinds of actions -/

def ComputerAction.type : ComputerAction → ComputerActionType
  | .observe => .observe
  | .pointer_position => .pointer_position
  | .open_app _ _ => .open_app
  | .focus_app _ _ => .focus_app
  | .move_mouse _ _ _ => .move_mouse
  | .click _ _ _ _ => .click
  | .double_click _ _ _ _ => .double_click
  | .mouse_down _ _ => .mouse_down
  | .mouse_up _ _ => .mouse_up
  | .drag _ _ _ _ _ _ => .drag
  | .scroll _ _ _ _ _ => .scroll
  | .type_text _ _ _ => .type_text
  | .press_key _ _ _ _ => .press_key
  | .wait _ => .wait
  | .wait_for_frontmost _ _ => .wait_for_frontmost
  | .wait_for_text _ _ _ => .wait_for_text
  | .wait_until_changed _ _ => .wait_until_changed
  | .release_inputs => .release_inputs

/-- What `preparedAction` makes of every action of a type. -/
structure PreparedComputerAction.IsOf (action : PreparedComputerAction)
    (type : ComputerActionType) : Prop where
  type_eq : action.type = type
  physical_eq : action.physical = action.method.any (·.isPhysical)
  method_of_not_wait : action.localWaitMs = none → action.method.isSome

theorem isOf_preparedAction {action : ComputerAction} {maxRetries : ℤ}
    {prepared : PreparedComputerAction} (h : preparedAction action maxRetries = .ok prepared) :
    prepared.IsOf action.type := by
  -- one case for each action: every check but the last must have passed
  cases action <;>
    simp only [preparedAction, applicationRequest, locatedRequest, buttonRequest, plainRequest,
      bind, Except.bind] at h <;>
    (repeat' split at h) <;> cases h <;> exact ⟨rfl, rfl, by simp⟩

theorem forall₂_of_mapM {α β ε : Type} {f : α → Except ε β} {xs : List α} {ys : List β}
    (h : xs.mapM f = .ok ys) : List.Forall₂ (fun x y => f x = .ok y) xs ys := by
  induction xs generalizing ys with
  | nil =>
    rw [List.mapM_nil] at h
    cases h
    exact .nil
  | cons x xs ih =>
    rw [List.mapM_cons] at h
    obtain ⟨y, hy, h⟩ := Except.bind_eq_ok h
    obtain ⟨ys, hys, h⟩ := Except.bind_eq_ok h
    cases h
    exact .cons hy (ih hys)

theorem isOf_checkRun {config : ComputerRuntimeConfig} {ownerMode : Bool}
    {input : ComputerRunInput} {checked : CheckedRun}
    (h : checkRun config ownerMode input = .ok checked) :
    List.Forall₂ (fun action prepared => prepared.IsOf action.type) input.actions
      checked.prepared := by
  unfold checkRun at h
  obtain ⟨_, h⟩ := unless_invalid h
  split at h
  · cases h
  obtain ⟨effectiveTimeoutMs, -, h⟩ := Except.bind_eq_ok h
  obtain ⟨prepared, hprepared, h⟩ := Except.bind_eq_ok h
  cases h
  exact (forall₂_of_mapM hprepared).imp fun _ _ => isOf_preparedAction

def ComputerActionType.holdsButton (type : ComputerActionType) : Bool :=
  type = .mouse_down || type = .mouse_up

theorem holdCapablePresent_of_forall₂ {actions : List ComputerAction}
    {prepared : List PreparedComputerAction}
    (h : List.Forall₂ (fun action prepared => prepared.IsOf action.type) actions prepared)
    (hhold : ∃ action ∈ actions, action.type.holdsButton = true) :
    holdCapablePresent prepared = true := by
  obtain ⟨action, hmem, hhold⟩ := hhold
  obtain ⟨i, hi, rfl⟩ := List.mem_iff_getElem.mp hmem
  have hi' : i < prepared.length := h.length_eq ▸ hi
  have hprepared := h.get hi hi'
  refine List.any_eq_true.mpr ⟨prepared[i], List.getElem_mem hi', ?_⟩
  have htype : prepared[i].type = actions[i].type := hprepared.type_eq
  simpa [htype, ComputerActionType.holdsButton] using hhold

/-! ## Requests of a trace -/

section Traces

variable {ι R V α : Type}

abbrev RuntimeTrace (ι R V : Type) : Type := List (Event (RuntimeOp ι) (RuntimeOp.Res R V))

def requested : Event (RuntimeOp ι) (RuntimeOp.Res R V) → List NativeRequest
  | ⟨.begin _ request, _⟩ => [request]
  | _ => []

def requests (trace : RuntimeTrace ι R V) : List NativeRequest :=
  trace.flatMap requested

@[simp] theorem requests_nil : requests ([] : RuntimeTrace ι R V) = [] :=
  rfl

@[simp] theorem requests_cons (event : Event (RuntimeOp ι) (RuntimeOp.Res R V))
    (trace : RuntimeTrace ι R V) :
    requests (event :: trace) = requested event ++ requests trace := rfl

@[simp] theorem requests_append (trace trace' : RuntimeTrace ι R V) :
    requests (trace ++ trace') = requests trace ++ requests trace' :=
  List.flatMap_append

def RuntimeState.requestsOf [DecidableEq ι] (s : RuntimeState ι) (i : ι) : List NativeRequest :=
  ((s.log.filter fun entry => entry.member = i).map (·.request)).reverse

def RuntimeOp.quiet : RuntimeOp ι → Prop
  | .begin _ _ => False
  | _ => True

theorem requests_of_quiet {p : RuntimeM ι R V α} (hp : p.Issues RuntimeOp.quiet)
    {trace : RuntimeTrace ι R V} {outcome : Except ComputerFailure α}
    (h : p.Runs trace outcome) : requests trace = [] := by
  induction h with
  | pure a => rfl
  | throw e => rfl
  | @request o k trace outcome r _ ih =>
    cases hp with
    | request ho hk =>
      rw [requests_cons, ih (hk r), List.append_nil]
      cases o with
      | begin lane request => exact absurd ho id
      | _ => rfl

variable {trace : RuntimeTrace ι R V}

theorem native_runs {lane : Option ℕ} {request : NativeRequest} {outcome : Except ComputerFailure R}
    (h : (native lane request : RuntimeM ι R V R).Runs trace outcome) :
    trace = [⟨.begin lane request, ()⟩, ⟨.finish request, outcome⟩] := by
  obtain ⟨_, _, rfl, hfinish⟩ := h.of_request
  obtain ⟨reply, _, rfl, hend⟩ := hfinish.of_request
  obtain ⟨rfl, rfl⟩ := hend.of_ofExcept
  rfl

theorem orFail_runs {result : Except ComputerError α} {outcome : Except ComputerFailure α}
    (h : (orFail result : RuntimeM ι R V α).Runs trace outcome) :
    trace = [] ∧ outcome = result.mapError .computer := by
  cases result with
  | ok a => exact h.of_pure
  | error e => exact h.of_throw

theorem requireRequestActive_quiet :
    (requireRequestActive : RuntimeM ι R V Unit).Issues RuntimeOp.quiet := by
  refine .request trivial fun aborted => ?_
  cases aborted with
  | true => exact .throw _
  | false => exact .pure ()

theorem requireRequestActive_runs {outcome : Except ComputerFailure Unit}
    (h : (requireRequestActive : RuntimeM ι R V Unit).Runs trace outcome) :
    outcome = .ok () ∨ outcome = .error (failed .COMPUTER_ACTION_FAILED) := by
  obtain ⟨aborted, _, rfl, hend⟩ := h.of_request
  cases aborted with
  | true => exact .inr hend.of_throw.2
  | false => exact .inl hend.of_pure.2

theorem remainingMs_quiet (deadline : Option ℚ) :
    (remainingMs deadline : RuntimeM ι R V (Option ℤ)).Issues RuntimeOp.quiet := by
  cases deadline with
  | none => exact .pure _
  | some deadline => exact .request trivial fun _ => .pure _

theorem nativeTimeoutMs_quiet (config : ComputerRuntimeConfig) (deadline : Option ℚ)
    (params : Members) :
    (nativeTimeoutMs config deadline params : RuntimeM ι R V ℚ).Issues RuntimeOp.quiet := by
  refine (remainingMs_quiet deadline).bind fun remaining => ?_
  cases remaining with
  | none => exact .pure _
  | some remaining =>
    dsimp only
    split
    · exact .throw _
    · exact .pure _

theorem nativeTimeoutMs_runs {config : ComputerRuntimeConfig} {deadline : Option ℚ}
    {params : Members} {outcome : Except ComputerFailure ℚ}
    (h : (nativeTimeoutMs config deadline params : RuntimeM ι R V ℚ).Runs trace outcome) :
    requests trace = [] ∧
      ((∃ timeoutMs, outcome = .ok timeoutMs) ∨ outcome = .error (failed .COMPUTER_TIMEOUT)) := by
  refine ⟨requests_of_quiet (nativeTimeoutMs_quiet config deadline params) h, ?_⟩
  rcases h.of_bind with ⟨e, hnow, -⟩ | ⟨remaining, _, _, -, hrest, -⟩
  · cases deadline with
    | none => cases hnow
    | some deadline =>
      obtain ⟨_, _, _, hend⟩ := hnow.of_request
      cases hend
  · cases remaining with
    | none => exact .inl ⟨_, hrest.of_pure.2⟩
    | some remaining =>
      dsimp only at hrest
      split at hrest
      · exact .inr hrest.of_throw.2
      · exact .inl ⟨_, hrest.of_pure.2⟩

theorem waitForRunDelay_quiet (milliseconds : ℤ) :
    (waitForRunDelay milliseconds : RuntimeM ι R V Unit).Issues RuntimeOp.quiet :=
  .request trivial fun outcome => .ofExcept outcome

theorem checkStep_quiet (deadline : Option ℚ) :
    (checkStep deadline : RuntimeM ι R V (Option ℤ)).Issues RuntimeOp.quiet := by
  refine requireRequestActive_quiet.bind fun _ =>
    (remainingMs_quiet deadline).bind fun remaining => ?_
  cases remaining with
  | none => exact .pure _
  | some ms =>
    dsimp only
    split
    · exact .throw _
    · exact .pure _

theorem performWait_quiet (milliseconds : ℕ) (remaining : Option ℤ) :
    (performWait milliseconds remaining : RuntimeM ι R V Unit).Issues RuntimeOp.quiet := by
  have hwait : ((waitForRunDelay milliseconds).bind fun _ =>
      requireRequestActive : RuntimeM ι R V Unit).Issues RuntimeOp.quiet :=
    (waitForRunDelay_quiet _).bind fun _ => requireRequestActive_quiet
  cases remaining with
  | none => exact hwait
  | some ms =>
    simp only [performWait]
    split
    · exact (waitForRunDelay_quiet _).bind fun _ => requireRequestActive_quiet.bind fun _ => .throw _
    · exact hwait

end Traces

/-! ## One action -/

def Performs (action : PreparedComputerAction) (made : List NativeRequest) : Prop :=
  match action.localWaitMs, action.method with
  | none, some method => ∃ timeoutMs, made = [{ method, params := action.params, timeoutMs }]
  | _, _ => made = []

theorem Performs.physical {action : PreparedComputerAction} {made : List NativeRequest}
    (h : Performs action made) (hkind : action.physical = action.method.any (·.isPhysical))
    (hmade : ∃ request ∈ made, request.method.isPhysical = true) : action.physical = true := by
  obtain ⟨request, hmem, hphysical⟩ := hmade
  unfold Performs at h
  split at h
  next method _ hmethod =>
    obtain ⟨timeoutMs, rfl⟩ := h
    obtain rfl := List.mem_singleton.mp hmem
    simp [hkind, hmethod, hphysical]
  next =>
    rw [h] at hmem
    cases hmem

section Steps

variable {ι R V : Type} (config : ComputerRuntimeConfig) (checks : RuntimeChecks R) (me : ℕ)
  (deadline : Option ℚ)

structure Completed (action : PreparedComputerAction)
    (part : RuntimeTrace ι R V) : Prop where
  returned : ∃ physical, (runStep config checks me deadline action).Runs part
    (.ok (.ok (), physical))
  performed : Performs action (requests part)

structure Failed (action : PreparedComputerAction) (failure : ComputerFailure)
    (part : RuntimeTrace ι R V) : Prop where
  returned : ∃ physical, (runStep config checks me deadline action).Runs part
    (.ok (.error failure, physical))
  performed : Performs action (requests part) ∨ requests part = []

variable {config checks me deadline} {action : PreparedComputerAction}
  {trace : RuntimeTrace ι R V}

variable {outcome : Except ComputerFailure Unit} {needsCleanup : Bool} {error : ComputerError}
  {checked : CheckedRun}

theorem performRequest_runs {method : ComputerNativeMethod}
    (h : (performRequest config checks me deadline action method).Runs trace outcome) :
    (∃ timeoutMs, requests trace = [{ method, params := action.params, timeoutMs }]) ∨
      requests trace = [] ∧ ∃ failure, outcome = .error failure := by
  rcases h.of_bind with ⟨e, htime, rfl⟩ | ⟨timeoutMs, before, after, htime, hafter, rfl⟩
  · exact .inr ⟨(nativeTimeoutMs_runs htime).1, e, rfl⟩
  have hbefore := (nativeTimeoutMs_runs htime).1
  refine .inl ⟨timeoutMs, ?_⟩
  rcases hafter.of_bind with ⟨e, hnative, rfl⟩ | ⟨reply, before', after', hnative, hcheck, rfl⟩
  · simp [hbefore, native_runs hnative, requested]
  · have hquiet : requests after' = [] := by
      refine requests_of_quiet (.bind requireRequestActive_quiet fun _ => .bind ?_ fun _ => .pure ())
        hcheck
      cases checkReply checks action.type method reply with
      | ok reply => exact .pure reply
      | error e => exact .throw _
    simp [hbefore, native_runs hnative, requested, hquiet]

theorem performAction_runs {remaining : Option ℤ}
    (h : (performAction config checks me deadline action remaining).Runs trace outcome) :
    Performs action (requests trace) ∨
      requests trace = [] ∧ ∃ failure, outcome = .error failure := by
  unfold performAction at h
  unfold Performs
  split at h
  next milliseconds hwait =>
    left
    have hquiet := requests_of_quiet (performWait_quiet milliseconds remaining) h
    simp [hwait, hquiet]
  next method hwait hmethod =>
    rw [hwait, hmethod]
    exact performRequest_runs h
  next hwait hmethod =>
    obtain ⟨rfl, -⟩ := h.of_pure
    simp [hwait, hmethod]

theorem runStep_runs {outcome : Except ComputerFailure (Except ComputerFailure Unit × Bool)}
    (h : (runStep config checks me deadline action).Runs trace outcome) :
    ∃ result physical, outcome = .ok (result, physical) ∧
      (Performs action (requests trace) ∧ physical = action.physical ∨
        requests trace = [] ∧ ∃ failure, result = .error failure) := by
  obtain ⟨closing, rest, rfl, hrest⟩ := h.of_request
  cases closing with
  | true =>
    obtain ⟨rfl, rfl⟩ := hrest.of_pure
    exact ⟨_, _, rfl, .inr ⟨rfl, _, rfl⟩⟩
  | false =>
    obtain ⟨result, before, after, hbefore, hafter, rfl⟩ := Program.Runs.of_attempt_bind hrest
    have hquiet := requests_of_quiet (checkStep_quiet deadline) hbefore
    cases result with
    | error failure =>
      obtain ⟨rfl, rfl⟩ := hafter.of_pure
      exact ⟨_, _, rfl, .inr ⟨by simp [hquiet, requested], _, rfl⟩⟩
    | ok remaining =>
      obtain ⟨result, before', after', hperform, hend, rfl⟩ :=
        Program.Runs.of_attempt_bind hafter
      obtain ⟨rfl, rfl⟩ := hend.of_pure
      refine ⟨_, _, rfl, ?_⟩
      rcases performAction_runs hperform with hmade | ⟨hmade, hfailed⟩
      · exact .inl ⟨by simpa [hquiet, requested] using hmade, rfl⟩
      · exact .inr ⟨by simp [hquiet, hmade, requested], hfailed⟩

/-! ## The report -/

def stepResults (completed : List PreparedComputerAction) : List ComputerRunStepResult :=
  completed.mapIdx fun index action => ⟨index, action.type⟩

@[simp] theorem length_stepResults (completed : List PreparedComputerAction) :
    (stepResults completed).length = completed.length := List.length_mapIdx

theorem stepResults_concat (completed : List PreparedComputerAction)
    (action : PreparedComputerAction) :
    stepResults (completed ++ [action]) =
      stepResults completed ++ [⟨completed.length, action.type⟩] := List.mapIdx_concat

/-- An honest report of the completed actions: their number, and the last 256 of their results. -/
structure RunProgress.Reports (progress : RunProgress) (completed : List PreparedComputerAction) :
    Prop where
  completedCount : progress.completedCount = completed.length
  steps : progress.steps =
    (stepResults completed).drop (completed.length - COMPUTER_MAX_RUN_STEP_RESULTS)
  stepsTruncated : progress.stepsTruncated = true ↔
    COMPUTER_MAX_RUN_STEP_RESULTS < completed.length

theorem RunProgress.Reports.initial : RunProgress.initial.Reports [] where
  completedCount := rfl
  steps := rfl
  stepsTruncated := by simp [RunProgress.initial]

theorem RunProgress.Reports.complete {progress : RunProgress}
    {completed : List PreparedComputerAction} (h : progress.Reports completed)
    (action : PreparedComputerAction) :
    (progress.complete completed.length action.type).Reports (completed ++ [action]) := by
  have hlength : progress.steps.length =
      completed.length - (completed.length - COMPUTER_MAX_RUN_STEP_RESULTS) := by
    rw [h.steps, List.length_drop, length_stepResults]
  have hdrop : ∀ n, n ≤ completed.length →
      (stepResults (completed ++ [action])).drop n =
        (stepResults completed).drop n ++ [⟨completed.length, action.type⟩] := by
    intro n hn
    rw [stepResults_concat, List.drop_append_of_le_length (by simpa using hn)]
  unfold RunProgress.complete
  split
  next hfull =>
    have hmany : COMPUTER_MAX_RUN_STEP_RESULTS ≤ completed.length := by omega
    have hpos : 0 < COMPUTER_MAX_RUN_STEP_RESULTS := by decide
    constructor
    · simp [h.completedCount]
    · have hnext : completed.length - COMPUTER_MAX_RUN_STEP_RESULTS + 1 =
          completed.length + 1 - COMPUTER_MAX_RUN_STEP_RESULTS := by omega
      simp only [h.steps, List.tail_drop, hnext, List.length_append, List.length_singleton]
      rw [hdrop _ (by omega)]
    · simp only [List.length_append, List.length_singleton, true_iff]
      omega
  next hfull =>
    have hfew : completed.length < COMPUTER_MAX_RUN_STEP_RESULTS := by omega
    have hnone : ∀ n, n ≤ COMPUTER_MAX_RUN_STEP_RESULTS →
        n - COMPUTER_MAX_RUN_STEP_RESULTS = 0 := fun n hn => by omega
    constructor
    · simp [h.completedCount]
    · simp only [h.steps, hnone _ hfew.le, List.length_append, List.length_singleton,
        hnone _ hfew, hdrop 0 (Nat.zero_le _)]
    · simp only [h.stepsTruncated, List.length_append, List.length_singleton]
      omega

/-! ## The loop -/

/-- How the loop ends: all actions have completed, or the first of those that are left has
failed. -/
inductive LoopEnded (config : ComputerRuntimeConfig) (checks : RuntimeChecks R) (me : ℕ)
    (deadline : Option ℚ) (actionCount : ℕ) (completed left : List PreparedComputerAction)
    (rest : RuntimeTrace ι R V) :
    Except ComputerFailure RunProgress → Prop where
  | completed {progress : RunProgress} (hleft : left = []) (hrest : rest = [])
      (hreport : progress.Reports completed) :
      LoopEnded config checks me deadline actionCount completed left rest (.ok progress)
  | failed {action : PreparedComputerAction} {later : List PreparedComputerAction}
      {failure : ComputerFailure} (hleft : left = action :: later)
      (hrest : Failed config checks me deadline action failure rest) :
      LoopEnded config checks me deadline actionCount completed left rest
        (.error (runFailure failure completed.length action.type completed.length actionCount))

def PhysicalMade (made : List NativeRequest) : Prop :=
  ∃ request ∈ made, request.method.isPhysical = true

theorem PhysicalMade.of_append {made made' : List NativeRequest}
    (h : PhysicalMade (made ++ made')) : PhysicalMade made ∨ PhysicalMade made' := by
  obtain ⟨request, hmem, hphysical⟩ := h
  rcases List.mem_append.mp hmem with hmem | hmem
  · exact .inl ⟨request, hmem, hphysical⟩
  · exact .inr ⟨request, hmem, hphysical⟩

theorem runActions_runs {actionCount : ℕ} {actions : List PreparedComputerAction}
    (before : List PreparedComputerAction) {progress : RunProgress}
    {outcome : Except ComputerFailure (Except ComputerFailure RunProgress × Bool)}
    (hkind : ∀ action ∈ actions, action.physical = action.method.any (·.isPhysical))
    (hreport : progress.Reports before)
    (h : (runActions config checks me deadline actionCount actions before.length progress
      needsCleanup).Runs trace outcome) :
    ∃ completed left parts rest result cleanup, outcome = .ok (result, cleanup) ∧
      actions = completed ++ left ∧ trace = parts.flatten ++ rest ∧
      List.Forall₂ (Completed config checks me deadline) completed parts ∧
      LoopEnded config checks me deadline
        actionCount (before ++ completed) left rest result ∧
      (needsCleanup = true ∨ PhysicalMade (requests trace) → cleanup = true) := by
  induction actions generalizing before progress needsCleanup trace with
  | nil =>
    obtain ⟨rfl, rfl⟩ := h.of_pure
    refine ⟨[], [], [], [], _, _, rfl, rfl, rfl, .nil, .completed rfl rfl (by simpa using hreport),
      ?_⟩
    rintro (hcleanup | ⟨_, hmem, -⟩)
    · exact hcleanup
    · cases hmem
  | cons action actions ih =>
    have hphysical := hkind action List.mem_cons_self
    rcases h.of_bind with ⟨e, hstep, -⟩ | ⟨⟨result, physical⟩, part, rest, hstep, hrest, rfl⟩
    · obtain ⟨_, _, hok, -⟩ := runStep_runs hstep
      cases hok
    obtain ⟨_, _, hok, hmade⟩ := runStep_runs hstep
    cases hok
    have hcleanup : PhysicalMade (requests part) → physical = true := by
      intro hpart
      rcases hmade with ⟨hperforms, rfl⟩ | ⟨hnone, -⟩
      · exact hperforms.physical hphysical hpart
      · obtain ⟨_, hmem, -⟩ := hpart
        rw [hnone] at hmem
        cases hmem
    cases result with
    | error failure =>
      obtain ⟨rfl, rfl⟩ := hrest.of_pure
      refine ⟨[], action :: actions, [], part, _, _, rfl, rfl, by simp, .nil, ?_, ?_⟩
      · rw [List.append_nil, ← hreport.completedCount]
        exact hreport.completedCount ▸ .failed rfl ⟨⟨_, hstep⟩, hmade.imp And.left And.left⟩
      · rw [List.append_nil, Bool.or_eq_true]
        exact Or.imp_right hcleanup
    | ok done =>
      have hcompleted : Completed config checks me deadline action part := by
        refine ⟨⟨_, hstep⟩, ?_⟩
        rcases hmade with ⟨hperforms, -⟩ | ⟨-, failure, hfailed⟩
        · exact hperforms
        · cases hfailed
      have hnext := hreport.complete action
      rw [show before.length + 1 = (before ++ [action]).length by simp] at hrest
      obtain ⟨completed, left, parts, rest', result, cleanup, rfl, rfl, rfl, hparts, hended,
        hclean⟩ := ih _ (fun a ha => hkind a (List.mem_cons_of_mem _ ha)) hnext hrest
      refine ⟨action :: completed, left, part :: parts, rest', result, cleanup, rfl, rfl,
        by simp, .cons hcompleted hparts, by simpa using hended, ?_⟩
      rw [requests_append]
      rintro (hneeds | hmade)
      · exact hclean (.inl (by rw [hneeds, Bool.true_or]))
      · rcases hmade.of_append with hpart | hrest
        · exact hclean (.inl (by rw [hcleanup hpart, Bool.or_true]))
        · exact hclean (.inr hrest)

/-! ## The end of a run -/

def ComputerFailure.report : ComputerFailure → Option RunFailureDetails
  | .computer { details := some (.run details), .. } => some details
  | _ => none

/-- A failure that is not the run's own: it reports nothing of the run, or it is passed on from the
native host or from the check of an observation. -/
def PassedOn (checks : RuntimeChecks R) (trace : RuntimeTrace ι R V)
    (failure : ComputerFailure) : Prop :=
  failure.report = none ∨ (∃ request, ⟨.finish request, .error failure⟩ ∈ trace) ∨
    ∃ reply error, checks.validateObservationOutput reply = .error error ∧
      failure = .computer error

/-- The native requests are those of the final observation: at most one. -/
def Observes (finalObservation : ComputerFinalObservation) (made : List NativeRequest) : Prop :=
  made = [] ∨ ∃ method timeoutMs, finalObservation.method = some method ∧
    made = [{ method, params := [], timeoutMs }]

theorem Observes.not_physical {finalObservation : ComputerFinalObservation}
    {made : List NativeRequest} (h : Observes finalObservation made) : ¬ PhysicalMade made := by
  rintro ⟨request, hmem, hphysical⟩
  rcases h with rfl | ⟨method, timeoutMs, hmethod, rfl⟩
  · cases hmem
  · obtain rfl := List.mem_singleton.mp hmem
    cases finalObservation <;> cases hmethod <;> cases hphysical

theorem releaseInputsBestEffort_runs
    (h : (releaseInputsBestEffort config me : RuntimeM ι R V Unit).Runs trace outcome) :
    outcome = .ok () ∧ requests trace = [releaseRequest config] := by
  obtain ⟨reply, before, after, hnative, hend, rfl⟩ := Program.Runs.of_attempt_bind h
  obtain ⟨rfl, rfl⟩ := hend.of_pure
  exact ⟨rfl, by simp [native_runs hnative, requested, releaseRequest]⟩

theorem releaseAfterRun_runs
    (h : (releaseAfterRun config me needsCleanup : RuntimeM ι R V Unit).Runs trace outcome) :
    outcome = .ok () ∧ (requests trace = [releaseRequest config] ∨
      requests trace = [] ∧ needsCleanup = false) := by
  cases needsCleanup with
  | true =>
    obtain ⟨hok, hmade⟩ := releaseInputsBestEffort_runs h
    exact ⟨hok, .inl hmade⟩
  | false =>
    obtain ⟨aborted, _, rfl, hrest⟩ := h.of_request
    cases aborted with
    | true =>
      obtain ⟨hok, hmade⟩ := releaseInputsBestEffort_runs hrest
      exact ⟨hok, .inl (by simp [requested, hmade])⟩
    | false =>
      obtain ⟨rfl, rfl⟩ := hrest.of_pure
      exact ⟨rfl, .inr ⟨rfl, rfl⟩⟩

theorem observeFinally_runs {method : ComputerNativeMethod} {outcome : Except ComputerFailure R}
    (h : (observeFinally config checks me deadline method).Runs trace outcome) :
    (requests trace = [] ∨
        ∃ timeoutMs, requests trace = [{ method, params := [], timeoutMs }]) ∧
      ∀ failure, outcome = .error failure → PassedOn checks trace failure := by
  rcases h.of_bind with ⟨e, htime, rfl⟩ | ⟨timeoutMs, before, after, htime, hafter, rfl⟩
  · obtain ⟨hbefore, ⟨_, htime⟩ | htime⟩ := nativeTimeoutMs_runs htime
    · cases htime
    · cases htime
      exact ⟨.inl hbefore, fun failure hfailure => .inl (by cases hfailure; rfl)⟩
  have hbefore := (nativeTimeoutMs_runs htime).1
  rcases hafter.of_bind with ⟨e, hnative, rfl⟩ | ⟨reply, native', after', hnative, hcheck, rfl⟩
  · obtain rfl := native_runs hnative
    refine ⟨.inr ⟨timeoutMs, by simp [hbefore, requested]⟩, fun failure hfailure => .inr (.inl ?_)⟩
    cases hfailure
    exact ⟨_, List.mem_append_right _ (List.mem_cons_of_mem _ List.mem_cons_self)⟩
  obtain rfl := native_runs hnative
  rcases hcheck.of_bind with ⟨e, hactive, rfl⟩ | ⟨_, active, check, hactive, hresult, rfl⟩
  · have hquiet := requests_of_quiet requireRequestActive_quiet hactive
    refine ⟨.inr ⟨timeoutMs, by simp [hbefore, requested, hquiet]⟩, fun failure hfailure => .inl ?_⟩
    rcases requireRequestActive_runs hactive with hok | hfailed
    · cases hok
    · cases hfailure
      rw [Except.error.inj hfailed]
      rfl
  have hquiet := requests_of_quiet requireRequestActive_quiet hactive
  obtain ⟨rfl, rfl⟩ := orFail_runs hresult
  refine ⟨.inr ⟨timeoutMs, by simp [hbefore, requested, hquiet]⟩, fun failure hfailure =>
    .inr (.inr ⟨reply, ?_⟩)⟩
  split at hfailure
  next =>
    cases hresult : checks.validateObservationOutput reply with
    | ok reply =>
      rw [hresult] at hfailure
      cases hfailure
    | error error =>
      rw [hresult] at hfailure
      cases hfailure
      exact ⟨error, rfl, rfl⟩
  next => cases hfailure

def ComputerRunResult.progress (result : ComputerRunResult R) : RunProgress :=
  { completedCount := result.completedCount, steps := result.steps
    stepsTruncated := result.stepsTruncated }

theorem PassedOn.mono {trace' : RuntimeTrace ι R V}
    {failure : ComputerFailure} (h : PassedOn checks trace failure)
    (hsub : ∀ event ∈ trace, event ∈ trace') : PassedOn checks trace' failure := by
  rcases h with hnone | ⟨request, hmem⟩ | hcheck
  · exact .inl hnone
  · exact .inr (.inl ⟨request, hsub _ hmem⟩)
  · exact .inr (.inr hcheck)

theorem finalResult_runs {actionCount : ℕ} {finalObservation : ComputerFinalObservation}
    {progress : RunProgress} {outcome : Except ComputerFailure (ComputerRunResult R)}
    (h : (finalResult config checks me deadline actionCount finalObservation progress).Runs trace
      outcome) :
    Observes finalObservation (requests trace) ∧
      (∀ result, outcome = .ok result →
        result.progress = progress ∧ result.actionCount = actionCount) ∧
      ∀ failure, outcome = .error failure → PassedOn checks trace failure := by
  rcases h.of_bind with ⟨e, hactive, rfl⟩ | ⟨_, before, after, hactive, hafter, rfl⟩
  · refine ⟨.inl (requests_of_quiet requireRequestActive_quiet hactive), (fun _ hok => by cases hok),
      fun failure hfailure => .inl ?_⟩
    rcases requireRequestActive_runs hactive with hok | hfailed
    · cases hok
    · cases hfailure
      rw [Except.error.inj hfailed]
      rfl
  have hbefore := requests_of_quiet requireRequestActive_quiet hactive
  split at hafter
  next hmethod =>
    obtain ⟨rfl, rfl⟩ := hafter.of_pure
    refine ⟨.inl (by simp [hbefore]), fun result hresult => ?_, fun _ hfailure => by cases hfailure⟩
    cases hresult
    exact ⟨rfl, rfl⟩
  next method hmethod =>
    obtain ⟨reply, observed, last, hobserve, hlast, rfl⟩ := Program.Runs.of_attempt_bind hafter
    obtain ⟨hmade, hpassed⟩ := observeFinally_runs hobserve
    have hobserves : requests last = [] →
        Observes finalObservation (requests (before ++ (observed ++ last))) := by
      intro hnone
      simp only [requests_append, hbefore, hnone, List.nil_append, List.append_nil]
      exact hmade.imp_right fun ⟨timeoutMs, hmade⟩ => ⟨method, timeoutMs, hmethod, hmade⟩
    cases reply with
    | ok reply =>
      obtain ⟨rfl, rfl⟩ := hlast.of_pure
      refine ⟨hobserves rfl, fun result hresult => ?_, fun _ hfailure => by cases hfailure⟩
      cases hresult
      exact ⟨rfl, rfl⟩
    | error failure =>
      obtain ⟨aborted, _, rfl, hend⟩ := hlast.of_request
      cases aborted with
      | true =>
        obtain ⟨rfl, rfl⟩ := hend.of_throw
        refine ⟨hobserves rfl, (fun _ hok => by cases hok), fun failure' hfailure => ?_⟩
        cases hfailure
        exact (hpassed failure rfl).mono fun event hevent => by simp [hevent]
      | false =>
        obtain ⟨rfl, rfl⟩ := hend.of_pure
        refine ⟨hobserves rfl, fun result hresult => ?_, fun _ hfailure => by cases hfailure⟩
        cases hresult
        exact ⟨rfl, rfl⟩

/-- How a run ends: what it has done after the actions that have completed, and its outcome. -/
inductive Ended (config : ComputerRuntimeConfig) (checks : RuntimeChecks R) (me : ℕ)
    (deadline : Option ℚ) (finalObservation : ComputerFinalObservation)
    (completed left : List PreparedComputerAction)
    (after : RuntimeTrace ι R V) :
    Except ComputerFailure (ComputerRunResult R) → Prop where
  /-- The runtime is disabled or closing before the run has its turn. -/
  | refused {failure : ComputerFailure} (hcompleted : completed = []) (hmade : requests after = [])
      (hreport : failure.report = none) :
      Ended config checks me deadline finalObservation completed left after (.error failure)
  /-- An action has failed: no action is requested after it. -/
  | failed {action : PreparedComputerAction} {later : List PreparedComputerAction}
      {failure : ComputerFailure} {part rest : RuntimeTrace ι R V}
      (hleft : left = action :: later) (hafter : after = part ++ rest)
      (hpart : Failed config checks me deadline action failure part)
      (hrest : requests rest = [releaseRequest config] ∨ requests rest = []) :
      Ended config checks me deadline finalObservation completed left after
        (.error (runFailure failure completed.length action.type completed.length
          (completed.length + left.length)))
  | finished {result : ComputerRunResult R}
      {observation rest : RuntimeTrace ι R V} (hleft : left = [])
      (hafter : after = observation ++ rest)
      (hobserves : Observes finalObservation (requests observation))
      (hrest : requests rest = [releaseRequest config] ∨ requests rest = [])
      (hreport : result.progress.Reports completed)
      (hcount : result.actionCount = completed.length) :
      Ended config checks me deadline finalObservation completed left after (.ok result)
  /-- All actions have completed, and the run is aborted. -/
  | aborted {failure : ComputerFailure}
      {observation rest : RuntimeTrace ι R V} (hleft : left = [])
      (hafter : after = observation ++ rest)
      (hobserves : Observes finalObservation (requests observation))
      (hrest : requests rest = [releaseRequest config] ∨ requests rest = [])
      (hpassed : PassedOn checks observation failure) :
      Ended config checks me deadline finalObservation completed left after (.error failure)

/-- The run has had its turn in the lane while the runtime was enabled and not closing. -/
def Admitted (trace : RuntimeTrace ι R V) : Prop :=
  ⟨.requireEnabled, .ok ()⟩ ∈ trace

def Genuine [DecidableEq ι] (config : ComputerRuntimeConfig) (i : ι)
    (event : Event (RuntimeOp ι) (RuntimeOp.Res R V)) : Prop :=
  ∃ s s', runtimeExec config i event.1 s event.2 s'

theorem report_of_standing {s : RuntimeState ι} (h : s.standing config = .error error) :
    (ComputerFailure.computer error).report = none := by
  unfold RuntimeState.standing at h
  split at h
  · cases h
    rfl
  split at h <;> cases h
  rfl

theorem Genuine.report_of_requireEnabled [DecidableEq ι] {i : ι}
    (h : Genuine (R := R) (V := V) config i ⟨.requireEnabled, .error error⟩) :
    (ComputerFailure.computer error).report = none := by
  obtain ⟨s, s', answer, happly⟩ := h
  exact report_of_standing (Prod.mk.inj (Option.some.inj happly)).1

theorem Genuine.report_of_enter [DecidableEq ι] {i : ι} {accepted : Bool}
    (h : Genuine (R := R) (V := V) config i ⟨.enter accepted, .error error⟩) :
    (ComputerFailure.computer error).report = none := by
  obtain ⟨s, s', answer, happly⟩ := h
  simp only [RuntimeOp.apply] at happly
  split at happly
  next error' hstanding =>
    obtain ⟨herror, -⟩ := Prod.mk.inj (Option.some.inj happly)
    cases herror
    exact report_of_standing hstanding
  next => split at happly <;> cases happly

structure Account (config : ComputerRuntimeConfig) (checks : RuntimeChecks R) (checked : CheckedRun)
    (trace : RuntimeTrace ι R V)
    (outcome : Except ComputerFailure (ComputerRunResult R)) : Prop where
  ended : ∃ me deadline completed left parts before after,
    checked.prepared = completed ++ left ∧ trace = before ++ parts.flatten ++ after ∧
      requests before = [] ∧ List.Forall₂ (Completed config checks me deadline) completed parts ∧
      Ended config checks me deadline checked.finalObservation completed left after outcome
  released : PhysicalMade (requests trace) ∨
      Admitted trace ∧ holdCapablePresent checked.prepared = true →
    (requests trace).getLast? = some (releaseRequest config)

theorem Account.refused {failure : ComputerFailure} (hmade : requests trace = [])
    (hnot : ¬ Admitted trace) (hreport : failure.report = none) :
    Account config checks checked trace (.error failure) where
  ended := ⟨0, none, [], checked.prepared, [], [], trace, rfl, by simp, rfl, .nil,
    .refused rfl hmade hreport⟩
  released := by
    rintro (⟨_, hmem, -⟩ | ⟨hadmitted, -⟩)
    · rw [hmade] at hmem
      cases hmem
    · exact absurd hadmitted hnot

theorem not_admitted_of_error {rest : RuntimeTrace ι R V} (hrest : ¬ Admitted rest) :
    ¬ Admitted ((⟨.requireEnabled, .error error⟩ : Event (RuntimeOp ι) (RuntimeOp.Res R V)) ::
      rest) := by
  intro hadmitted
  rcases List.mem_cons.mp hadmitted with heq | hmem
  · cases heq
  · exact hrest hmem

theorem releaseThen_runs {result outcome : Except ComputerFailure (ComputerRunResult R)}
    (h : ((releaseAfterRun config me needsCleanup).bind fun _ => .ofExcept result :
      RuntimeM ι R V (ComputerRunResult R)).Runs trace outcome) :
    outcome = result ∧ (requests trace = [releaseRequest config] ∨
      requests trace = [] ∧ needsCleanup = false) := by
  rcases h.of_bind with ⟨e, hrelease, -⟩ | ⟨_, release, last, hrelease, hend, rfl⟩
  · cases (releaseAfterRun_runs hrelease).1
  · obtain ⟨rfl, rfl⟩ := hend.of_ofExcept
    exact ⟨rfl, by simpa using (releaseAfterRun_runs hrelease).2⟩

theorem getLast?_of_cleanup {hold : Bool} {made rest : List NativeRequest}
    (hcleanup : hold = true ∨ PhysicalMade made → needsCleanup = true)
    (hrest : rest = [releaseRequest config] ∨ rest = [] ∧ needsCleanup = false)
    (hneeds : PhysicalMade (made ++ rest) ∨ hold = true) :
    (made ++ rest).getLast? = some (releaseRequest config) := by
  rcases hrest with rfl | ⟨rfl, hclean⟩
  · exact List.getLast?_concat
  · rw [List.append_nil] at hneeds
    rw [hcleanup hneeds.symm] at hclean
    cases hclean

theorem runOnLane_runs [DecidableEq ι] {i : ι} {now : ℚ}
    {outcome : Except ComputerFailure (ComputerRunResult R)}
    (hkind : ∀ action ∈ checked.prepared, action.physical = action.method.any (·.isPhysical))
    (hgenuine : ∀ event ∈ trace, Genuine config i event)
    (h : (runOnLane config checks me now checked).Runs trace outcome) :
    Account config checks checked trace outcome := by
  obtain ⟨standing, rest, rfl, hrest⟩ := h.of_request
  cases standing with
  | error error =>
    obtain ⟨rfl, rfl⟩ := hrest.of_throw
    exact .refused rfl (not_admitted_of_error List.not_mem_nil)
      (hgenuine _ List.mem_cons_self).report_of_requireEnabled
  | ok done =>
    let deadline := checked.effectiveTimeoutMs.map fun (ms : ℤ) => now + (ms : ℚ)
    obtain hfailed | ⟨⟨result, cleanup⟩, loop, after, hloop, hafter, rfl⟩ :=
      Program.Runs.of_bind (p := runActions config checks me deadline checked.prepared.length
        checked.prepared 0 .initial (holdCapablePresent checked.prepared)) hrest
    · obtain ⟨e, hloop, -⟩ := hfailed
      obtain ⟨_, _, _, _, _, _, hok, -⟩ := runActions_runs [] hkind .initial hloop
      cases hok
    obtain ⟨completed, left, parts, part, _, _, hok, hprepared, rfl, hparts, hended, hcleanup⟩ :=
      runActions_runs [] hkind .initial hloop
    cases hok
    rw [List.nil_append] at hended
    cases hended with
    | @failed action later failure hleft hpart =>
      have hrelease : ((releaseAfterRun config me cleanup).bind fun _ => .ofExcept
          (.error (runFailure failure completed.length action.type completed.length
            checked.prepared.length)) : RuntimeM ι R V (ComputerRunResult R)).Runs after outcome :=
        hafter
      obtain ⟨rfl, hreleased⟩ := releaseThen_runs hrelease
      refine ⟨⟨me, deadline, completed, left, parts, [⟨.requireEnabled, .ok done⟩], part ++ after,
        hprepared, by simp, rfl, hparts, ?_⟩, fun hneeds => ?_⟩
      · have hcount : checked.prepared.length = completed.length + left.length := by
          rw [hprepared, List.length_append]
        rw [hcount]
        exact .failed hleft rfl hpart (hreleased.imp_right And.left)
      · have hmade : requests (⟨.requireEnabled, .ok done⟩ :: (parts.flatten ++ part ++ after)) =
            requests (parts.flatten ++ part) ++ requests after := by
          simp [requested]
        rw [hmade] at hneeds ⊢
        exact getLast?_of_cleanup hcleanup hreleased (hneeds.imp_right And.right)
    | completed hleft hpart hreport =>
      subst hleft hpart
      obtain ⟨result, observation, last, hfinal, hlast, rfl⟩ := Program.Runs.of_attempt_bind hafter
      obtain ⟨rfl, hreleased⟩ := releaseThen_runs hlast
      obtain ⟨hobserves, hresult, hpassed⟩ := finalResult_runs hfinal
      refine ⟨⟨me, deadline, completed, [], parts, [⟨.requireEnabled, .ok done⟩],
        observation ++ last, hprepared, by simp, rfl, hparts, ?_⟩, fun hneeds => ?_⟩
      · have hmade := hreleased.imp_right And.left
        cases outcome with
        | ok result =>
          obtain ⟨hprogress, hcount⟩ := hresult result rfl
          exact .finished rfl rfl hobserves hmade (hprogress ▸ hreport)
            (by rw [hcount, hprepared, List.append_nil])
        | error failure => exact .aborted rfl rfl hobserves hmade (hpassed failure rfl)
      · have hmade : requests (⟨.requireEnabled, .ok done⟩ ::
            (parts.flatten ++ [] ++ (observation ++ last))) =
            (requests parts.flatten ++ requests observation) ++ requests last := by
          simp [requested]
        rw [hmade] at hneeds ⊢
        refine getLast?_of_cleanup (fun hneeds => hcleanup ?_) hreleased (hneeds.imp_right And.right)
        refine hneeds.imp_right fun hphysical => ?_
        rw [List.append_nil]
        exact hphysical.of_append.resolve_right hobserves.not_physical

theorem Genuine.chain_of_enter [DecidableEq ι] {i : ι} {entrance : Entrance}
    (h : Genuine (R := R) (V := V) config i ⟨.enter true, .ok entrance⟩) :
    entrance.chain.isSome = true := by
  obtain ⟨s, s', answer, happly⟩ := h
  simp only [RuntimeOp.apply] at happly
  split at happly
  next => cases happly
  next =>
    cases happly
    rfl

theorem Account.of_onLane {chain : Option ℕ × ℕ} {accepted : Except ComputerError Entrance}
    {turn : RuntimeTrace ι R V} {outcome : Except ComputerFailure (ComputerRunResult R)}
    (h : Account config checks checked turn outcome) :
    Account config checks checked (⟨.enter true, accepted⟩ :: ⟨.await chain.1, ()⟩ ::
      (turn ++ [⟨.settle chain.2, ()⟩])) outcome := by
  obtain ⟨⟨me, deadline, completed, left, parts, before, after, hprepared, rfl, hbefore, hparts,
    hended⟩, hreleased⟩ := h
  refine ⟨⟨me, deadline, completed, left, parts,
    ⟨.enter true, accepted⟩ :: ⟨.await chain.1, ()⟩ :: before, after ++ [⟨.settle chain.2, ()⟩],
    hprepared, by simp, by simpa [requested] using hbefore, hparts, ?_⟩, fun hneeds => ?_⟩
  · have hquiet : ∀ made : RuntimeTrace ι R V,
        requests (made ++ [⟨.settle chain.2, ()⟩]) = requests made := fun made => by
      simp [requested]
    cases hended with
    | refused hcompleted hmade hreport => exact .refused hcompleted (by rw [hquiet, hmade]) hreport
    | failed hleft hafter hpart hrest =>
      exact .failed hleft (by rw [hafter, List.append_assoc]) hpart (by rwa [hquiet])
    | finished hleft hafter hobserves hrest hreport hcount =>
      exact .finished hleft (by rw [hafter, List.append_assoc]) hobserves (by rwa [hquiet]) hreport
        hcount
    | aborted hleft hafter hobserves hrest hpassed =>
      exact .aborted hleft (by rw [hafter, List.append_assoc]) hobserves (by rwa [hquiet]) hpassed
  · have hmade : ∀ turn : RuntimeTrace ι R V,
        requests (⟨.enter true, accepted⟩ :: ⟨.await chain.1, ()⟩ ::
          (turn ++ [⟨.settle chain.2, ()⟩])) = requests turn := fun turn => by
      simp [requested]
    rw [hmade] at hneeds ⊢
    refine hreleased (hneeds.imp_right fun ⟨hadmitted, hhold⟩ => ⟨?_, hhold⟩)
    rcases List.mem_cons.mp hadmitted with heq | hmem
    · cases heq
    rcases List.mem_cons.mp hmem with heq | hmem
    · cases heq
    rcases List.mem_append.mp hmem with hmem | hmem
    · exact hmem
    · cases List.mem_singleton.mp hmem

theorem run_runs [DecidableEq ι] {i : ι} {ownerMode : Bool} {input : ComputerRunInput}
    {outcome : Except ComputerFailure (ComputerRunResult R)}
    (hchecked : checkRun config ownerMode input = .ok checked)
    (hgenuine : ∀ event ∈ trace, Genuine config i event)
    (h : (run config checks ownerMode input).Runs trace outcome) :
    Account config checks checked trace outcome := by
  have hkind : ∀ action ∈ checked.prepared, action.physical = action.method.any (·.isPhysical) := by
    intro action hmem
    obtain ⟨n, hn, rfl⟩ := List.mem_iff_getElem.mp hmem
    have hall := isOf_checkRun hchecked
    exact (hall.get (hall.length_eq ▸ hn) hn).physical_eq
  unfold run at h
  rw [hchecked] at h
  obtain ⟨entered, rest, rfl, hrest⟩ := h.of_request
  cases entered with
  | error error =>
    obtain ⟨rfl, rfl⟩ := hrest.of_throw
    refine .refused rfl ?_ (hgenuine _ List.mem_cons_self).report_of_enter
    intro hadmitted
    cases List.mem_singleton.mp hadmitted
  | ok entrance =>
    obtain ⟨now, chain⟩ := entrance
    have hsome := (hgenuine _ List.mem_cons_self).chain_of_enter
    cases chain with
    | none => cases hsome
    | some chain =>
      obtain ⟨_, rest', rfl, hturn⟩ := hrest.of_request
      obtain ⟨result, turn, last, hturn, hlast, rfl⟩ := Program.Runs.of_attempt_bind hturn
      obtain ⟨_, _, rfl, hend⟩ := hlast.of_request
      obtain ⟨rfl, rfl⟩ := hend.of_ofExcept
      refine .of_onLane (runOnLane_runs hkind (fun event hevent => hgenuine event ?_) hturn)
      simp [hevent]

end Steps

/-! ## Runs of the runtime -/

section Runs

variable {ι R V : Type} [DecidableEq ι] {config : ComputerRuntimeConfig} {checks : RuntimeChecks R}

theorem RuntimeOp.log_of_quiet {answer : Answer R V} {i : ι} {o : RuntimeOp ι}
    {s s' : RuntimeState ι} {r : o.Res R V} (hquiet : o.quiet)
    (h : o.apply config answer i s = some (r, s')) : s'.log = s.log := by
  cases o with
  | begin lane request => exact absurd hquiet id
  | enter accepted =>
    simp only [RuntimeOp.apply] at h
    split at h
    · cases h
      rfl
    · split at h <;> cases h <;> rfl
  | await previous =>
    simp only [RuntimeOp.apply] at h
    split at h <;> cases h
    rfl
  | join owner =>
    obtain ⟨session, -, h⟩ := Option.map_eq_some_iff.mp h
    split at h <;> cases h <;> rfl
  | sessionAborted owner | cancel owner | joinClose =>
    obtain ⟨_, -, h⟩ := Option.map_eq_some_iff.mp h
    cases h
    rfl
  | shut =>
    simp only [RuntimeOp.apply] at h
    split at h <;> cases h <;> rfl
  | _ =>
    cases h
    rfl

theorem requestsOf_step {i : ι} {o : RuntimeOp ι} {s s' : RuntimeState ι} {r : o.Res R V}
    (h : runtimeExec config i o s r s') :
    s'.requestsOf = Function.update s.requestsOf i (s.requestsOf i ++ requested ⟨o, r⟩) := by
  obtain ⟨answer, h⟩ := h
  by_cases hquiet : o.quiet
  · have hlog : s'.requestsOf = s.requestsOf := by
      unfold RuntimeState.requestsOf
      rw [o.log_of_quiet hquiet h]
    have hnone : requested ⟨o, r⟩ = [] := by
      cases o with
      | begin lane request => exact absurd hquiet id
      | _ => rfl
    rw [hlog, hnone, List.append_nil, Function.update_eq_self]
  · cases o with
    | begin lane request =>
      cases h
      funext j
      by_cases hij : j = i
      · subst hij
        simp [RuntimeState.requestsOf, requested]
      · simp [RuntimeState.requestsOf, hij, Ne.symm hij]
    | _ => exact absurd trivial hquiet

variable {calls : ι → RuntimeCall ι}
  {permit : RuntimePool ι R V × RuntimeState ι → ι → Prop} {pool : RuntimePool ι R V}
  {s : RuntimeState ι}

/-- A run that has ended has released the inputs with its last native request, if it has requested
a physical action, or if it has had its turn and may have left a mouse button held. No action is
requested after the first failure, and the report is that of the actions that have completed. -/
theorem release_last_of_run
    (hrun : Pool.Run (runtimeExec config) permit (programs config checks calls, .initial) (pool, s))
    {i : ι} {ownerMode : Bool} {input : ComputerRunInput} {checked : CheckedRun}
    {outcome : Except ComputerFailure (RuntimeOutput R V)}
    (hcall : calls i = .run ownerMode input)
    (hchecked : checkRun config ownerMode input = .ok checked)
    (hend : (pool i).outcome? = some outcome) :
    ∃ trace result, outcome = result.map .run ∧
      (run config checks ownerMode input : RuntimeM ι R V _).Runs trace result ∧
      s.requestsOf i = requests trace ∧ Account config checks checked trace result ∧
      (PhysicalMade (s.requestsOf i) ∨
          Admitted trace ∧ (∃ action ∈ input.actions, action.type.holdsButton = true) →
        (s.requestsOf i).getLast? = some (releaseRequest config)) := by
  obtain ⟨trace, hleads, hrecord, hgenuine⟩ :=
    hrun.leads (fun _ _ _ _ _ h => requestsOf_step h) i
  have hruns := hleads.runs_of_outcome hend
  simp only [programs, hcall, RuntimeCall.program] at hruns
  obtain ⟨result, hresult, rfl⟩ : ∃ result,
      (run config checks ownerMode input : RuntimeM ι R V _).Runs trace result ∧
        outcome = result.map .run := by
    rcases hruns.of_bind with ⟨e, hrun, rfl⟩ | ⟨result, before, after, hrun, hend, rfl⟩
    · exact ⟨.error e, hrun, rfl⟩
    · obtain ⟨rfl, rfl⟩ := hend.of_pure
      exact ⟨.ok result, by simpa using hrun, rfl⟩
  have hmade : s.requestsOf i = requests trace := hrecord
  have haccount := run_runs hchecked hgenuine hresult
  refine ⟨trace, result, rfl, hresult, hmade, haccount, fun hneeds => ?_⟩
  rw [hmade] at hneeds ⊢
  exact haccount.released (hneeds.imp_right fun ⟨hadmitted, hhold⟩ =>
    ⟨hadmitted, holdCapablePresent_of_forall₂ (isOf_checkRun hchecked) hhold⟩)

end Runs

section Example

def pressInput : ComputerRunInput :=
  { actions := [.mouse_down none none], finalObservation := some .none, timeoutMs := none }

def pressRun : CheckedRun :=
  { prepared := [{ type := .mouse_down, method := some .mouse_down, params := []
                   physical := true, localWaitMs := none }]
    finalObservation := .none, effectiveTimeoutMs := none }

theorem checkRun_pressInput : checkRun plainConfig true pressInput = .ok pressRun := rfl

/-- A run and a `close`. -/
def runAndClose : Bool → RuntimeCall Bool
  | false => .run true pressInput
  | true => .close

/-- The configuration after a schedule of the run and the `close`. -/
def afterSchedule (moves : List Bool) :
    Option (RuntimePool Bool Unit Unit × RuntimeState Bool) :=
  Pool.schedule (fun answer i o => RuntimeOp.apply plainConfig answer i o)
    (moves.map fun i => (i, plainAnswer))
    (programs plainConfig plainRuntimeChecks runAndClose, .initial)

/-- Whether the run has ended, whether it has entered the lane, and what it has requested. -/
def pressed (c : RuntimePool Bool Unit Unit × RuntimeState Bool) :
    Bool × Bool × List ComputerNativeMethod :=
  ((c.1 false).outcome?.isSome, c.2.chains.tickets.any (fun ticket => !ticket.owner),
    (c.2.requestsOf false).map (·.method))

theorem release_last_of_run_press : ∃ (pool : RuntimePool Bool Unit Unit) (s : RuntimeState Bool)
      (outcome : Except ComputerFailure (RuntimeOutput Unit Unit)),
    Pool.Run (runtimeExec plainConfig) (fun _ _ => True)
        (programs plainConfig plainRuntimeChecks runAndClose, .initial) (pool, s) ∧
      (pool false).outcome? = some outcome ∧
      (s.requestsOf false).map (·.method) = [.mouse_down, .release_inputs] ∧
      ∃ (trace : RuntimeTrace Bool Unit Unit)
        (result : Except ComputerFailure (ComputerRunResult Unit)), outcome = result.map .run ∧
        (run plainConfig plainRuntimeChecks true pressInput).Runs trace result ∧
        s.requestsOf false = requests trace ∧
        Account plainConfig plainRuntimeChecks pressRun trace result ∧
        (PhysicalMade (s.requestsOf false) ∨
            Admitted trace ∧ (∃ action ∈ pressInput.actions, action.type.holdsButton = true) →
          (s.requestsOf false).getLast? = some (releaseRequest plainConfig)) := by
  have hfinal : (afterSchedule (List.replicate 12 false)).map pressed =
      some (true, true, [.mouse_down, .release_inputs]) := rfl
  obtain ⟨⟨pool, s⟩, hc, hpressed⟩ := Option.map_eq_some_iff.mp hfinal
  obtain ⟨hended, hpressed⟩ := Prod.mk.inj hpressed
  obtain ⟨outcome, hend⟩ := Option.isSome_iff_exists.mp hended
  have hrun : Pool.Run (runtimeExec plainConfig) (fun _ _ => True)
      (programs plainConfig plainRuntimeChecks runAndClose, .initial) (pool, s) :=
    Pool.run_of_schedule (fun x _ _ _ _ _ hx => ⟨x, hx⟩) _ (.refl _) hc
  exact ⟨pool, s, outcome, hrun, hend, (Prod.mk.inj hpressed).2,
    release_last_of_run hrun rfl checkRun_pressInput hend⟩

/-- The runtime starts closing while a run that presses a mouse button waits for its turn: the run
makes no request, and so none that releases the inputs. -/
theorem closed_before_turn :
    ¬ ∀ (pool : RuntimePool Bool Unit Unit) (s : RuntimeState Bool)
        (outcome : Except ComputerFailure (RuntimeOutput Unit Unit)),
      Pool.Run (runtimeExec plainConfig) (fun _ _ => True)
          (programs plainConfig plainRuntimeChecks runAndClose, .initial) (pool, s) →
      s.chains.tickets.any (fun ticket => !ticket.owner) = true →
      (pool false).outcome? = some outcome →
      PhysicalMade (s.requestsOf false) ∨
        (∃ action ∈ pressInput.actions, action.type.holdsButton = true) →
      (s.requestsOf false).getLast? = some (releaseRequest plainConfig) := by
  intro hall
  have hfinal : (afterSchedule [false, true, false, false, false]).map pressed =
      some (true, true, []) := rfl
  obtain ⟨⟨pool, s⟩, hc, hpressed⟩ := Option.map_eq_some_iff.mp hfinal
  obtain ⟨hended, hpressed⟩ := Prod.mk.inj hpressed
  obtain ⟨hentered, hnone⟩ := Prod.mk.inj hpressed
  obtain ⟨outcome, hend⟩ := Option.isSome_iff_exists.mp hended
  have hlast := hall pool s outcome
    (Pool.run_of_schedule (fun x _ _ _ _ _ hx => ⟨x, hx⟩) _ (.refl _) hc) hentered hend
    (.inr ⟨_, List.mem_singleton_self _, rfl⟩)
  rw [List.map_eq_nil_iff.mp hnone] at hlast
  cases hlast

end Example

end Computer
