import ChatgptSystem.Computer.RuntimeSteps

/-!
# The computer runtime

The operations of `ComputerRuntime` in `computer/computer-runtime.ts`.

* `onPhysicalLane` — an operation in its turn on the physical lane;
* `run` — a program of actions;
* `scrollUntilVisible`, `withExclusiveProgram`, `close` — the other operations on the lane;
* `runSession` — a call of a program's session, on the lane of the session;
* `RuntimeCall.program` — all operations.
-/

open Interleaving

namespace Computer

def COMPUTER_MAX_RUN_STEP_RESULTS : ℕ := 256
def COMPUTER_MAX_EXPLICIT_RUNTIME_MS : ℤ := 2147483647
def MAX_SCROLL_UNTIL_VISIBLE_STEPS : ℕ := 6
def SMALL_SCROLL_DELTA : ℤ := 3
def PAGE_SCROLL_DELTA : ℤ := 8

structure RuntimeChecks (R : Type) where
  validateObservationOutput : R → Except ComputerError R
  validateActionResult : R → Except ComputerError R
  validateResolvedTargetView : R → Except ComputerError R
  /-- For the number of targets that have been asked for. -/
  validateResolvedTargetViews : ℕ → R → Except ComputerError R
  validateScreenshot : R → Except ComputerError R
  observationDigest : R → Option String

/-! ## Results -/

inductive ComputerFinalObservation where
  | none
  | active_window
  | observe

inductive ComputerRunState where
  | completed
  | completed_unverified

/-- A step of a run; its state is `completed`. -/
structure ComputerRunStepResult where
  index : ℕ
  type : ComputerActionType
  deriving DecidableEq

structure ComputerRunResult (R : Type) where
  state : ComputerRunState
  completedCount : ℕ
  actionCount : ℕ
  steps : List ComputerRunStepResult
  stepsTruncated : Bool
  finalObservation : Option R

inductive ScrollState where
  | target_visible
  | boundary_reached
  | needs_replan

structure ComputerScrollUntilVisibleResult where
  state : ScrollState
  stepsUsed : ℕ
  changed : Bool

inductive RuntimeOutput (R V : Type) where
  | native (reply : R)
  | run (result : ComputerRunResult R)
  | scroll (result : ComputerScrollUntilVisibleResult)
  | exists (found : Bool)
  | work (value : V)
  | health (reply : Option R)
  | done

/-! ## Lanes and requests -/

section Operations

variable {ι R V α : Type}

/-- `PhysicalActionLane.run`, for a promise that has been placed on the lane. -/
def onLane (chain : Option ℕ × ℕ) (work : RuntimeM ι R V α) : RuntimeM ι R V α :=
  .request (.await chain.1) fun _ =>
    work.attempt.bind fun outcome =>
      .request (.settle chain.2) fun _ => Program.ofExcept outcome

/-- `await this.native.request(…)`. -/
def native (lane : Option ℕ) (request : NativeRequest) : RuntimeM ι R V R :=
  .request (.begin lane request) fun _ => .request (.finish request) Program.ofExcept

def orFail : Except ComputerError α → RuntimeM ι R V α
  | .ok value => .pure value
  | .error error => .throw (.computer error)

def requireEnabled : RuntimeM ι R V Unit := .request .requireEnabled orFail

variable (config : ComputerRuntimeConfig)

def plainNative (lane : Option ℕ) (method : ComputerNativeMethod) (params : Members) :
    RuntimeM ι R V R :=
  native lane { method, params, timeoutMs := config.requestTimeoutMs }

/-- `this.requireEnabled()` and what follows it in the same turn: the checks of the input, and, if
they pass, the lane. -/
def onPhysicalLane {β : Type} (checked : Except ComputerError β)
    (work : ℕ → ℚ → β → RuntimeM ι R V α) : RuntimeM ι R V α :=
  .request (.enter checked.isOk) fun
    | .error error => .throw (.computer error)
    | .ok entrance =>
      match checked, entrance.chain with
      | .error error, _ => .throw (.computer error)
      | .ok input, some chain => onLane chain (work chain.2 entrance.now input)
      | .ok _, none => .throw .other

def physical (request : NativeRequest) : RuntimeM ι R V R :=
  onPhysicalLane (.ok request) fun me _ request =>
    requireEnabled.bind fun _ => native (some me) request

def read (lane : Option ℕ) (request : NativeRequest) : RuntimeM ι R V R :=
  requireEnabled.bind fun _ => native lane request

def releaseRequest : NativeRequest :=
  { method := .release_inputs, params := [], timeoutMs := config.requestTimeoutMs }

def releaseInputsBestEffort (me : ℕ) : RuntimeM ι R V Unit :=
  (native (some me) (releaseRequest config)).attempt.bind fun _ => .pure ()

/-! ## Programs of actions -/

structure ComputerRunInput where
  actions : List ComputerAction
  finalObservation : Option ComputerFinalObservation
  timeoutMs : Option JsNumber

/-- An input of `run` that has been checked. -/
structure CheckedRun where
  prepared : List PreparedComputerAction
  finalObservation : ComputerFinalObservation
  /-- The time after which the run is out of time. -/
  effectiveTimeoutMs : Option ℤ

def effectiveTimeout (ownerMode : Bool) (timeoutMs : Option JsNumber) :
    Except ComputerError (Option ℤ) :=
  match timeoutMs with
  | some timeoutMs => do
    let n ← integerInRange timeoutMs 1 COMPUTER_MAX_EXPLICIT_RUNTIME_MS
    pure (some (if ownerMode then n else min n config.maxActionProgramRuntimeMs))
  | none => pure (if ownerMode then none else some config.maxActionProgramRuntimeMs)

/-- The checks of `run` before it enters the lane. -/
def checkRun (ownerMode : Bool) (input : ComputerRunInput) : Except ComputerError CheckedRun := do
  if input.actions = [] then invalid
  if ¬ ownerMode ∧ input.actions.length > config.maxActionProgramActions then
    .error { code := .COMPUTER_OUTPUT_LIMIT }
  let effectiveTimeoutMs ← effectiveTimeout config ownerMode input.timeoutMs
  let prepared ← input.actions.mapM fun action =>
    preparedAction action config.maxAutomaticRetriesPerAction
  pure { prepared, finalObservation := input.finalObservation.getD .observe, effectiveTimeoutMs }

structure RunProgress where
  completedCount : ℕ
  steps : List ComputerRunStepResult
  stepsTruncated : Bool

def RunProgress.initial : RunProgress :=
  { completedCount := 0, steps := [], stepsTruncated := false }

/-- `completedCount += 1` and `retainStep`. -/
def RunProgress.complete (progress : RunProgress) (index : ℕ) (type : ComputerActionType) :
    RunProgress :=
  if progress.steps.length = COMPUTER_MAX_RUN_STEP_RESULTS then
    { completedCount := progress.completedCount + 1
      steps := progress.steps.tail ++ [⟨index, type⟩]
      stepsTruncated := true }
  else
    { completedCount := progress.completedCount + 1
      steps := progress.steps ++ [⟨index, type⟩]
      stepsTruncated := progress.stepsTruncated }

/-- `ComputerAction["type"]` as a string. -/
def ComputerActionType.text : ComputerActionType → String
  | .observe => "observe"
  | .pointer_position => "pointer_position"
  | .open_app => "open_app"
  | .focus_app => "focus_app"
  | .move_mouse => "move_mouse"
  | .click => "click"
  | .double_click => "double_click"
  | .mouse_down => "mouse_down"
  | .mouse_up => "mouse_up"
  | .drag => "drag"
  | .scroll => "scroll"
  | .type_text => "type_text"
  | .press_key => "press_key"
  | .wait => "wait"
  | .wait_for_frontmost => "wait_for_frontmost"
  | .wait_for_text => "wait_for_text"
  | .wait_until_changed => "wait_until_changed"
  | .release_inputs => "release_inputs"

def runFailure (failure : ComputerFailure) (failedStepIndex : ℕ)
    (failedActionType : ComputerActionType) (completedCount actionCount : ℕ) : ComputerFailure :=
  .computer
    { code := match failure with
        | .computer error => error.code
        | .other => .COMPUTER_ACTION_FAILED
      details := some (.run
        { failedStepIndex, failedActionType := failedActionType.text, completedCount
          actionCount }) }

def requireRequestActive : RuntimeM ι R V Unit :=
  .request .isAborted fun (aborted : Bool) =>
    if aborted then .throw (failed .COMPUTER_ACTION_FAILED) else .pure ()

def remainingMs : (deadline : Option ℚ) → RuntimeM ι R V (Option ℤ)
  | none => .pure none
  | some deadline => .request .now fun (now : ℚ) => .pure (some (deadline - now).floor)

def nativeTimeoutMs (deadline : Option ℚ) (params : Members) : RuntimeM ι R V ℚ :=
  (remainingMs deadline).bind fun
    | none => .pure (requestBudget config params)
    | some remaining =>
      if remaining ≤ 0 then .throw (failed .COMPUTER_TIMEOUT)
      else .pure (min (requestBudget config params) remaining)

def waitForRunDelay (milliseconds : ℤ) : RuntimeM ι R V Unit :=
  .request (.delay milliseconds) Program.ofExcept

/-- The checks before an action: the signal and the time that is left. -/
def checkStep (deadline : Option ℚ) : RuntimeM ι R V (Option ℤ) :=
  requireRequestActive.bind fun _ =>
    (remainingMs deadline).bind fun remaining =>
      match remaining with
      | some ms => if ms ≤ 0 then .throw (failed .COMPUTER_TIMEOUT) else .pure (some ms)
      | none => .pure none

def nativeMethodReturnsActionResult : ComputerNativeMethod → Bool
  | .move_mouse | .click | .double_click | .mouse_down | .mouse_up | .drag | .scroll | .type_text
  | .press_key | .release_inputs => true
  | _ => false

variable (checks : RuntimeChecks R)

def checkReply (type : ComputerActionType) (method : ComputerNativeMethod) (reply : R) :
    Except ComputerError R := do
  let reply ← if type = .observe then checks.validateObservationOutput reply else .ok reply
  if nativeMethodReturnsActionResult method then checks.validateActionResult reply else .ok reply

/-- A wait of a program of actions, which ends early when the time is up. -/
def performWait (milliseconds : ℕ) (remaining : Option ℤ) : RuntimeM ι R V Unit :=
  match remaining with
  | some ms =>
    if (milliseconds : ℤ) > ms then
      (waitForRunDelay ms).bind fun _ => requireRequestActive.bind fun _ =>
        .throw (failed .COMPUTER_TIMEOUT)
    else (waitForRunDelay milliseconds).bind fun _ => requireRequestActive
  | none => (waitForRunDelay milliseconds).bind fun _ => requireRequestActive

def performRequest (me : ℕ) (deadline : Option ℚ) (action : PreparedComputerAction)
    (method : ComputerNativeMethod) : RuntimeM ι R V Unit :=
  (nativeTimeoutMs config deadline action.params).bind fun timeoutMs =>
    (native (some me) { method, params := action.params, timeoutMs }).bind fun reply =>
      requireRequestActive.bind fun _ =>
        (orFail (checkReply checks action.type method reply)).bind fun _ => .pure ()

def performAction (me : ℕ) (deadline : Option ℚ) (action : PreparedComputerAction)
    (remaining : Option ℤ) : RuntimeM ι R V Unit :=
  match action.localWaitMs, action.method with
  | some milliseconds, _ => performWait milliseconds remaining
  | none, some method => performRequest config checks me deadline action method
  | none, none => .pure ()

/-- One action of a program: how it ends, and whether a physical action has been begun. -/
def runStep (me : ℕ) (deadline : Option ℚ) (action : PreparedComputerAction) :
    RuntimeM ι R V (Except ComputerFailure Unit × Bool) :=
  .request .isClosing fun (closing : Bool) =>
    if closing then .pure (.error (failed .COMPUTER_UNAVAILABLE), false)
    else (checkStep deadline).attempt.bind fun
      | .error failure => .pure (.error failure, false)
      | .ok remaining =>
        (performAction config checks me deadline action remaining).attempt.bind fun outcome =>
          .pure (outcome, action.physical)

/-- The actions from an index on: how they end, and whether the inputs have to be released. -/
def runActions (me : ℕ) (deadline : Option ℚ) (actionCount : ℕ) :
    List PreparedComputerAction → (index : ℕ) → RunProgress → (needsCleanup : Bool) →
      RuntimeM ι R V (Except ComputerFailure RunProgress × Bool)
  | [], _, progress, needsCleanup => .pure (.ok progress, needsCleanup)
  | action :: rest, index, progress, needsCleanup =>
    (runStep config checks me deadline action).bind fun
      | (.error failure, physical) =>
        .pure (.error (runFailure failure index action.type progress.completedCount actionCount),
          needsCleanup || physical)
      | (.ok (), physical) =>
        runActions me deadline actionCount rest (index + 1) (progress.complete index action.type)
          (needsCleanup || physical)

def ComputerFinalObservation.method : ComputerFinalObservation → Option ComputerNativeMethod
  | .none => Option.none
  | .active_window => some .active_window
  | .observe => some .observe

def observeFinally (me : ℕ) (deadline : Option ℚ) (method : ComputerNativeMethod) :
    RuntimeM ι R V R :=
  (nativeTimeoutMs config deadline []).bind fun timeoutMs =>
    (native (some me) { method, params := [], timeoutMs }).bind fun reply =>
      requireRequestActive.bind fun _ =>
        orFail (if method = .observe then checks.validateObservationOutput reply else .ok reply)

def finalResult (me : ℕ) (deadline : Option ℚ) (actionCount : ℕ)
    (finalObservation : ComputerFinalObservation) (progress : RunProgress) :
    RuntimeM ι R V (ComputerRunResult R) :=
  let result (state : ComputerRunState) (finalObservation : Option R) : ComputerRunResult R :=
    { state, completedCount := progress.completedCount, actionCount, steps := progress.steps
      stepsTruncated := progress.stepsTruncated, finalObservation }
  requireRequestActive.bind fun _ =>
    match finalObservation.method with
    | none => .pure (result .completed none)
    | some method =>
      (observeFinally config checks me deadline method).attempt.bind fun
        | .ok reply => .pure (result .completed (some reply))
        | .error failure => .request .isAborted fun (aborted : Bool) =>
          if aborted then .throw failure else .pure (result .completed_unverified none)

/-- `needsCleanup || options.signal?.aborted`, and the release of the inputs. -/
def releaseAfterRun (me : ℕ) (needsCleanup : Bool) : RuntimeM ι R V Unit :=
  if needsCleanup then releaseInputsBestEffort config me
  else .request .isAborted fun (aborted : Bool) =>
    if aborted then releaseInputsBestEffort config me else .pure ()

def holdCapablePresent (prepared : List PreparedComputerAction) : Bool :=
  prepared.any fun action => action.type = .mouse_down || action.type = .mouse_up

def runOnLane (me : ℕ) (now : ℚ) (checked : CheckedRun) : RuntimeM ι R V (ComputerRunResult R) :=
  let deadline := checked.effectiveTimeoutMs.map fun (ms : ℤ) => now + (ms : ℚ)
  let actionCount := checked.prepared.length
  requireEnabled.bind fun _ =>
    (runActions config checks me deadline actionCount checked.prepared 0 .initial
      (holdCapablePresent checked.prepared)).bind fun
      | (.error failure, needsCleanup) =>
        (releaseAfterRun config me needsCleanup).bind fun _ => .throw failure
      | (.ok progress, needsCleanup) =>
        (finalResult config checks me deadline actionCount checked.finalObservation
          progress).attempt.bind fun outcome =>
            (releaseAfterRun config me needsCleanup).bind fun _ => Program.ofExcept outcome

def run (ownerMode : Bool) (input : ComputerRunInput) : RuntimeM ι R V (ComputerRunResult R) :=
  onPhysicalLane (checkRun config ownerMode input) (runOnLane config checks)

/-! ## Scrolling -/

inductive ScrollDirection where
  | up
  | down
  | left
  | right

inductive ScrollAmount where
  | small
  | page

def scrollDelta (direction : ScrollDirection) (amount : ScrollAmount) : ℤ × ℤ :=
  let magnitude := match amount with
    | .small => SMALL_SCROLL_DELTA
    | .page => PAGE_SCROLL_DELTA
  match direction with
  | .up => (magnitude, 0)
  | .down => (-magnitude, 0)
  | .left => (0, magnitude)
  | .right => (0, -magnitude)

structure ComputerScrollUntilVisibleInput where
  target : ComputerTarget
  within : ComputerTargetScope
  direction : ScrollDirection
  amount : Option ScrollAmount
  maxSteps : Option JsNumber

/-- A checked input: the scope, the target within it, the way to scroll, and how often. -/
structure CheckedScroll where
  within : JSONValue
  scopedTarget : JSONValue
  delta : ℤ × ℤ
  maxSteps : ℕ

/-- `canonicalScrollTarget` and `scopedScrollTarget`. -/
def scopedScrollTarget (target : ComputerTarget) (within : ComputerTargetScope) :
    Except ComputerError ComputerTarget := do
  match ← canonicalTarget target with
  | .role r name exactly none => pure (.role r name exactly (some within))
  | .text text exactly none => pure (.text text exactly (some within))
  | .ocrText text exactly none => pure (.ocrText text exactly (some within))
  | .label label exactly none => pure (.label label exactly (some within))
  | _ => invalid

def checkScroll (input : ComputerScrollUntilVisibleInput) : Except ComputerError CheckedScroll := do
  let within ← canonicalTargetScope input.within
  let scopedTarget ← scopedScrollTarget input.target within
  let maxSteps ← match input.maxSteps with
    | some maxSteps => integerInRange maxSteps 1 MAX_SCROLL_UNTIL_VISIBLE_STEPS
    | none => pure (MAX_SCROLL_UNTIL_VISIBLE_STEPS : ℤ)
  pure { within := within.toJson, scopedTarget := scopedTarget.toJson
         delta := scrollDelta input.direction (input.amount.getD .page)
         maxSteps := maxSteps.toNat }

/-- `resolve_target` with one retry, on the lane. -/
def resolveOnLane (me : ℕ) (target : JSONValue) : RuntimeM ι R V R :=
  (plainNative config (some me) .resolve_target
    [("target", target), ("retryBudget", jsonNumber 1)]).bind fun reply =>
      orFail (checks.validateResolvedTargetView reply)

/-- `observe`, on the lane. -/
def observeOnLane (me : ℕ) : RuntimeM ι R V R :=
  (plainNative config (some me) .observe []).bind fun reply =>
    orFail (checks.validateObservationOutput reply)

/-- Look for the target, and scroll on while it is not found; `left` is how often it may still be
scrolled. -/
def scrollLoop (me : ℕ) (checked : CheckedScroll) :
    (left : ℕ) → (stepsUsed : ℕ) → (changed : Bool) → (digest : Option String) →
      RuntimeM ι R V ComputerScrollUntilVisibleResult
  | left, stepsUsed, changed, digest =>
    requireEnabled.bind fun _ =>
      (resolveOnLane config checks me checked.within).bind fun _ =>
        (resolveOnLane config checks me checked.scopedTarget).attempt.bind fun
          | .ok _ => .pure { state := .target_visible, stepsUsed, changed }
          | .error failure =>
            match failure with
            | .computer error =>
              if error.code ≠ .COMPUTER_TARGET_NOT_FOUND then .throw failure
              else match left, digest with
                | left + 1, some digest =>
                  (plainNative config (some me) .scroll
                    [("vertical", jsonNumber checked.delta.1),
                      ("horizontal", jsonNumber checked.delta.2), ("target", checked.within),
                      ("retryBudget", jsonNumber 1), ("motionMode", .string "instant")]).bind
                    fun reply => (orFail (checks.validateActionResult reply)).bind fun _ =>
                      (observeOnLane config checks me).bind fun observation =>
                        match checks.observationDigest observation with
                        | none => .pure
                          { state := .needs_replan, stepsUsed := stepsUsed + 1, changed }
                        | some next =>
                          if next = digest then .pure
                            { state := .boundary_reached, stepsUsed := stepsUsed + 1, changed }
                          else scrollLoop me checked left (stepsUsed + 1) true (some next)
                | _, _ => .pure { state := .needs_replan, stepsUsed, changed }
            | .other => .throw failure

def scrollUntilVisible (input : ComputerScrollUntilVisibleInput) :
    RuntimeM ι R V ComputerScrollUntilVisibleResult :=
  onPhysicalLane (checkScroll input) fun me _ checked =>
    requireEnabled.bind fun _ =>
      (observeOnLane config checks me).bind fun observation =>
        scrollLoop config checks me checked checked.maxSteps 0 false
          (checks.observationDigest observation)

/-! ## Sessions -/

/-- What follows `work`, however it has ended: the session takes no more calls, the calls it has
taken are waited for, and the inputs are released. -/
def finishProgram (me : ℕ) : RuntimeM ι R V Unit :=
  .request .endSession fun chain =>
    .request (.await chain.1) fun _ =>
      .request (.settle chain.2) fun _ =>
        .request .abortSession fun _ => releaseInputsBestEffort config me

/-- `withExclusiveProgram`. What the work does with its session are operations of their own. -/
def withExclusiveProgram : RuntimeM ι R V V :=
  onPhysicalLane (.ok ()) fun me _ _ =>
    requireEnabled.bind fun _ =>
      .request (.openSession me) fun _ =>
        .request .work fun outcome =>
          (finishProgram config me).bind fun _ => Program.ofExcept outcome

def requireActiveProgram (owner : ι) : RuntimeM ι R V Unit :=
  .request (.sessionAborted owner) fun (aborted : Bool) =>
    if aborted then .throw (failed .COMPUTER_JS_FAILED) else .pure ()

/-- `runSession`; the operation gets the promise of the program on the physical lane. -/
def runSession (owner : ι) (operation : ℕ → RuntimeM ι R V α) : RuntimeM ι R V α :=
  .request (.join owner) fun
    | .error error => .throw (.computer error)
    | .ok entrance => onLane entrance.chain
        ((requireActiveProgram owner).bind fun _ => operation entrance.lane)

def executeProgramAction (owner : ι) (ownerMode : Bool) (action : ComputerAction) (lane : ℕ) :
    RuntimeM ι R V (RuntimeOutput R V) :=
  requireEnabled.bind fun _ => (requireActiveProgram owner).bind fun _ =>
    (orFail (preparedAction action config.maxAutomaticRetriesPerAction)).bind fun prepared =>
      match prepared.localWaitMs, prepared.method with
      | some milliseconds, _ =>
        if ¬ ownerMode ∧ (milliseconds : ℤ) > config.maxActionProgramRuntimeMs then
          .throw (failed .COMPUTER_TIMEOUT)
        else
          (waitForRunDelay milliseconds).bind fun _ => requireEnabled.bind fun _ =>
            (requireActiveProgram owner).bind fun _ => .pure .done
      | none, some method =>
        (requireActiveProgram owner).bind fun _ =>
          (native (some lane) { method, params := prepared.params
                                timeoutMs := requestBudget config prepared.params }).bind
            fun reply => (orFail (checkReply checks prepared.type method reply)).bind fun reply =>
              .pure (.native reply)
      | none, none => .pure .done

/-! ## Reading -/

inductive ReadCall where
  | pointerPosition
  | listApps
  | activeWindow
  | observe
  | screenshot
  | resolve (target : ComputerTarget) (retryBudget : Option JsNumber)
  | resolveMany (targets : List ComputerTarget) (retryBudget : Option JsNumber)
  | exists (target : ComputerTarget) (retryBudget : Option JsNumber)
  /-- `waitForFrontmost`, `waitForText` and `waitUntilChanged`. -/
  | wait (prepared : PreparedComputerAction)

/-- The parameters of `resolve` and `exists`. -/
def resolveParams (target : ComputerTarget) (retryBudget : Option JsNumber) :
    Except ComputerError Members := do
  let budget ← semanticRetryBudget retryBudget config.maxAutomaticRetriesPerAction
  let target ← canonicalTarget target
  pure [("target", target.toJson), ("retryBudget", jsonNumber budget)]

/-- The request of an operation that only reads, and the check of its reply. -/
def ReadCall.request :
    ReadCall → Except ComputerError (NativeRequest × (R → Except ComputerError R))
  | .pointerPosition => .ok (⟨.pointer_position, [], config.requestTimeoutMs⟩, .ok)
  | .listApps => .ok (⟨.list_apps, [], config.requestTimeoutMs⟩, .ok)
  | .activeWindow => .ok (⟨.active_window, [], config.requestTimeoutMs⟩, .ok)
  | .observe => .ok (⟨.observe, [], config.requestTimeoutMs⟩, checks.validateObservationOutput)
  | .screenshot => .ok (⟨.screenshot, [], config.requestTimeoutMs⟩, checks.validateScreenshot)
  | .resolve target retryBudget | .exists target retryBudget => do
    let params ← resolveParams config target retryBudget
    pure (⟨.resolve_target, params, config.requestTimeoutMs⟩, checks.validateResolvedTargetView)
  | .resolveMany targets retryBudget => do
    if targets = [] ∨ targets.length > 100 then invalid
    let budget ← semanticRetryBudget retryBudget config.maxAutomaticRetriesPerAction
    let canonical ← targets.mapM canonicalTarget
    pure (⟨.resolve_targets, [("targets", .array (canonical.map (·.toJson))),
      ("retryBudget", jsonNumber budget)], config.requestTimeoutMs⟩,
      checks.validateResolvedTargetViews targets.length)
  | .wait prepared =>
    match prepared.method with
    | some method =>
      if method = .wait_for_frontmost ∨ method = .wait_for_text ∨ method = .wait_until_changed then
        .ok (⟨method, prepared.params, requestBudget config prepared.params⟩, .ok)
      else invalid
    | none => invalid

/-- An operation that only reads, made by itself or through the session of a program. -/
def ReadCall.perform (lane : Option ℕ) (call : ReadCall) : RuntimeM ι R V (RuntimeOutput R V) :=
  (orFail (call.request config checks)).bind fun checked =>
    match call with
    | .exists _ _ =>
      ((read lane checked.1).bind fun reply => orFail (checked.2 reply)).attempt.bind fun
        | .ok _ => .pure (.exists true)
        | .error (.computer error) =>
          if error.code = .COMPUTER_TARGET_NOT_FOUND then .pure (.exists false)
          else .throw (.computer error)
        | .error .other => .throw .other
    | _ => (read lane checked.1).bind fun reply =>
        (orFail (checked.2 reply)).bind fun reply => .pure (.native reply)

/-! ## Operations -/

inductive SessionCall where
  | execute (action : ComputerAction)
  | read (call : ReadCall)

inductive RuntimeCall (ι : Type) where
  | health
  | read (call : ReadCall)
  /-- `openApp`, `focusApp`, `moveMouse`, `click`, `drag`, `scroll`, `typeText`, `pressKey`,
  `releaseInputs`, `waitForFrontmost`, `waitForText` and `waitUntilChanged`: a single action, which
  is prepared like an action of a program. -/
  | act (action : ComputerAction)
  | run (ownerMode : Bool) (input : ComputerRunInput)
  | scrollUntilVisible (input : ComputerScrollUntilVisibleInput)
  | withExclusiveProgram
  | session (owner : ι) (ownerMode : Bool) (call : SessionCall)
  | cancel (owner : ι)
  | close

def act (action : ComputerAction) : RuntimeM ι R V (RuntimeOutput R V) :=
  (orFail (preparedAction action config.maxAutomaticRetriesPerAction)).bind fun prepared =>
    match prepared.physical, prepared.method with
    | true, some method =>
      (physical { method, params := prepared.params
                  timeoutMs := requestBudget config prepared.params }).bind fun reply =>
        (orFail (checkReply checks prepared.type method reply)).bind fun reply =>
          .pure (.native reply)
    | _, _ => (ReadCall.wait prepared).perform config checks none

def health : RuntimeM ι R V (RuntimeOutput R V) :=
  if config.enabled then
    (plainNative config none .health []).attempt.bind fun
      | .ok reply => .pure (.health (some reply))
      | .error _ => .pure (.health none)
  else .pure (.health none)

/-- `closeInternal`, in its turn on the lane. -/
def closeInternal (me : ℕ) : RuntimeM ι R V Unit :=
  .request .hostRunning fun (running : Bool) =>
    (if running then releaseInputsBestEffort config me else .pure ()).bind fun _ =>
      .request .beginClose fun _ => .request .finishClose Program.ofExcept

def close : RuntimeM ι R V Unit :=
  .request .shut fun
    | some chain => onLane chain (closeInternal config chain.2)
    | none => .request .joinClose Program.ofExcept

def RuntimeCall.program : RuntimeCall ι → RuntimeM ι R V (RuntimeOutput R V)
  | .health => Computer.health config
  | .read call => call.perform config checks none
  | .act action => Computer.act config checks action
  | .run ownerMode input =>
    (Computer.run config checks ownerMode input).bind fun result => .pure (.run result)
  | .scrollUntilVisible input =>
    (Computer.scrollUntilVisible config checks input).bind fun result => .pure (.scroll result)
  | .withExclusiveProgram =>
    (Computer.withExclusiveProgram config).bind fun value => .pure (.work value)
  | .session owner ownerMode (.execute action) =>
    runSession owner (executeProgramAction config checks owner ownerMode action)
  | .session owner _ (.read call) =>
    runSession owner fun lane => call.perform config checks (some lane)
  | .cancel owner => .request (.cancel owner) fun _ => .pure .done
  | .close => (Computer.close config).bind fun _ => .pure .done

abbrev RuntimePool (ι R V : Type) : Type :=
  Pool ι (RuntimeOp ι) (RuntimeOp.Res R V) ComputerFailure (RuntimeOutput R V)

abbrev programs (calls : ι → RuntimeCall ι) : RuntimePool ι R V :=
  fun i => (calls i).program config checks

end Operations

/-! ## An environment for examples -/

def plainConfig : ComputerRuntimeConfig :=
  { enabled := true, requestTimeoutMs := 15000, maxActionProgramActions := 10
    maxActionProgramRuntimeMs := 60000, maxAutomaticRetriesPerAction := 1 }

def plainRuntimeChecks : RuntimeChecks Unit where
  validateObservationOutput := .ok
  validateActionResult := .ok
  validateResolvedTargetView := .ok
  validateResolvedTargetViews _ := .ok
  validateScreenshot := .ok
  observationDigest _ := none

def plainAnswer : Answer Unit Unit :=
  { now := 0, aborted := false, delay := .ok (), reply := .ok (), work := .ok ()
    hostRunning := true, closed := .ok () }

end Computer
