import ChatgptSystem.Computer.ComputerRuntime
import ChatgptSystem.Foundations.Conduct

/-!
# Phases of the runtime's operations

How far an operation of the runtime has come on the lanes, and which steps it may take there.

* `Phase` — where an operation stands; `laneMonitor` — its next steps;
* `Stays` — programs that request from the native host on a lane and never leave it;
* `ends_program` — every operation keeps to the monitor.
-/

open Interleaving

namespace Computer

/-! ## Phases -/

/-- The operations that place a promise on the physical lane: a single action or an operation that
only reads, a program of actions or a scroll, and a JavaScript program. -/
inductive LaneKind where
  | single
  | program
  | exclusive
  deriving DecidableEq

/-- Where an operation stands. Its promise is `me`; a session belongs to the program `owner`, which
holds the physical lane with the promise `lane`. `busy` says that a native request is in
progress. -/
inductive Phase (ι : Type) where
  | arriving (kind : LaneKind)
  | reading
  | waiting (kind : LaneKind) (me : ℕ) (previous : Option ℕ)
  | inside (kind : LaneKind) (me : ℕ) (busy : Bool)
  /-- The JavaScript of a program runs. -/
  | working (me : ℕ)
  /-- A program waits with the promise `drain` for the calls of its session. -/
  | draining (me drain : ℕ) (previous : Option ℕ)
  | drained (me drain : ℕ)
  /-- The session of a program has ended. -/
  | sealed (me : ℕ) (busy : Bool)
  | calling (owner : ι)
  | joined (owner : ι) (lane me : ℕ) (previous : Option ℕ)
  | serving (owner : ι) (lane me : ℕ) (busy : Bool)
  | shutting
  | stopWaiting (me : ℕ) (previous : Option ℕ)
  | stopping (me : ℕ) (busy : Bool)
  | stopped (me : ℕ)
  | left

section Monitor

variable {ι R V : Type} (config : ComputerRuntimeConfig)

namespace Phase

/-- The steps that an operation may take. -/
def Allows : Phase ι → RuntimeOp ι → Prop
  | .arriving _, .enter _ => True
  | .arriving kind, .requireEnabled | .arriving kind, .cancel _ => kind = .single
  | .arriving kind, .begin lane request =>
    kind = .single ∧ lane = none ∧ request.method.isPhysical = false
  | .reading, .finish _ => True
  | .waiting _ _ previous, .await p => p = previous
  | .inside _ _ busy, .requireEnabled | .inside _ _ busy, .isClosing
  | .inside _ _ busy, .isAborted | .inside _ _ busy, .now | .inside _ _ busy, .delay _ =>
    busy = false
  | .inside kind me busy, .begin lane _ => busy = false ∧ kind ≠ .exclusive ∧ lane = some me
  | .inside _ _ busy, .finish _ => busy = true
  | .inside kind me busy, .openSession lane => busy = false ∧ kind = .exclusive ∧ lane = me
  | .inside _ me busy, .settle p => busy = false ∧ p = me
  | .working _, .work | .working _, .endSession => True
  | .draining _ _ previous, .await p => p = previous
  | .drained _ drain, .settle p => p = drain
  | .sealed _ busy, .abortSession => busy = false
  | .sealed me busy, .begin lane request =>
    busy = false ∧ lane = some me ∧ request = releaseRequest config
  | .sealed _ busy, .finish _ => busy = true
  | .sealed me busy, .settle p => busy = false ∧ p = me
  | .calling owner, .join o => o = owner
  | .joined _ _ _ previous, .await p => p = previous
  | .serving owner _ _ busy, .sessionAborted o => busy = false ∧ o = owner
  | .serving _ _ _ busy, .requireEnabled | .serving _ _ _ busy, .isClosing
  | .serving _ _ _ busy, .isAborted | .serving _ _ _ busy, .now
  | .serving _ _ _ busy, .delay _ => busy = false
  | .serving _ lane _ busy, .begin l _ => busy = false ∧ l = some lane
  | .serving _ _ _ busy, .finish _ => busy = true
  | .serving _ _ me busy, .settle p => busy = false ∧ p = me
  | .shutting, .shut | .shutting, .joinClose => True
  | .stopWaiting _ previous, .await p => p = previous
  | .stopping _ busy, .hostRunning | .stopping _ busy, .beginClose => busy = false
  | .stopping me busy, .begin lane _ => busy = false ∧ lane = some me
  | .stopping _ busy, .finish _ => busy = true
  | .stopped _, .finishClose => True
  | .stopped me, .settle p => p = me
  | _, _ => False

def next : Phase ι → (o : RuntimeOp ι) → o.Res R V → Phase ι
  | .arriving kind, .enter _, (result : Except ComputerError Entrance) =>
    match result with
    | .ok ⟨_, some chain⟩ => .waiting kind chain.2 chain.1
    | _ => .left
  | .arriving _, .begin _ _, _ => .reading
  | .reading, .finish _, _ => .left
  | .waiting kind me _, .await _, _ => .inside kind me false
  | .inside kind me _, .begin _ _, _ => .inside kind me true
  | .inside kind me _, .finish _, _ => .inside kind me false
  | .inside _ me _, .openSession _, _ => .working me
  | .inside _ _ _, .settle _, _ => .left
  | .working me, .endSession, (chain : Option ℕ × ℕ) => .draining me chain.2 chain.1
  | .draining me drain _, .await _, _ => .drained me drain
  | .drained me _, .settle _, _ => .sealed me false
  | .sealed me _, .begin _ _, _ => .sealed me true
  | .sealed me _, .finish _, _ => .sealed me false
  | .sealed _ _, .settle _, _ => .left
  | .calling owner, .join _, (result : Except ComputerError SessionEntrance) =>
    match result with
    | .ok entrance => .joined owner entrance.lane entrance.chain.2 entrance.chain.1
    | .error _ => .left
  | .joined owner lane me _, .await _, _ => .serving owner lane me false
  | .serving owner lane me _, .begin _ _, _ => .serving owner lane me true
  | .serving owner lane me _, .finish _, _ => .serving owner lane me false
  | .serving _ _ _ _, .settle _, _ => .left
  | .shutting, .shut, (chain : Option (Option ℕ × ℕ)) =>
    match chain with
    | some chain => .stopWaiting chain.2 chain.1
    | none => .shutting
  | .shutting, .joinClose, _ => .left
  | .stopWaiting me _, .await _, _ => .stopping me false
  | .stopping me _, .begin _ _, _ => .stopping me true
  | .stopping me _, .finish _, _ => .stopping me false
  | .stopping me _, .beginClose, _ => .stopped me
  | .stopped _, .settle _, _ => .left
  | phase, _, _ => phase

end Phase

/-- What `enter` gives: a promise on the lane if and only if the input has been accepted. -/
def laneAnswers : (o : RuntimeOp ι) → o.Res R V → Prop
  | .enter accepted, (result : Except ComputerError Entrance) =>
    ∀ entrance, result = .ok entrance → entrance.chain.isSome = accepted
  | _, _ => True

def laneMonitor : Monitor (RuntimeOp ι) (RuntimeOp.Res R V) (Phase ι) where
  allowed := Phase.Allows config
  answers _ := laneAnswers
  next := Phase.next

/-! ## Programs that stay on a lane -/

def Stays {α : Type} (p : RuntimeM ι R V α) (phase : Phase ι) : Prop :=
  p.Obeys (laneMonitor config) (fun _ t => t = phase) (fun _ t => t = phase) phase

def RuntimeOp.plain : RuntimeOp ι → Prop
  | .requireEnabled | .isClosing | .isAborted | .now | .delay _ => True
  | _ => False

/-- In this phase an operation has its turn: it may request from the native host, under the promise
`lane` on the physical lane. -/
structure Phase.HasTurn (phase : Phase ι) (lane : ℕ) : Prop where
  plain : ∀ o : RuntimeOp ι, o.plain → phase.Allows config o ∧
    ∀ r : o.Res R V, phase.next o r = phase
  native : ∃ busy : Phase ι, ∀ request : NativeRequest,
    phase.Allows config (.begin (some lane) request) ∧
      phase.next (R := R) (V := V) (.begin (some lane) request) () = busy ∧
      busy.Allows config (.finish request) ∧
      ∀ r, busy.next (R := R) (V := V) (.finish request) r = phase

variable {config} {α β : Type} {phase : Phase ι} {lane : ℕ}

variable {me : ℕ} {p : RuntimeM ι R V α}

theorem Phase.hasTurn_inside {kind : LaneKind} (hkind : kind ≠ .exclusive) :
    (Phase.inside kind me false : Phase ι).HasTurn (R := R) (V := V) config me where
  plain o ho := by
    cases o with
    | requireEnabled | isClosing | isAborted | now | delay => exact ⟨rfl, fun _ => rfl⟩
    | _ => exact absurd ho id
  native := ⟨.inside kind me true, fun _ => ⟨⟨rfl, hkind, rfl⟩, rfl, rfl, fun _ => rfl⟩⟩

theorem Phase.hasTurn_serving {owner : ι} :
    (Phase.serving owner lane me false).HasTurn (R := R) (V := V) config lane where
  plain o ho := by
    cases o with
    | requireEnabled | isClosing | isAborted | now | delay => exact ⟨rfl, fun _ => rfl⟩
    | _ => exact absurd ho id
  native := ⟨.serving owner lane me true, fun _ => ⟨⟨rfl, rfl⟩, rfl, rfl, fun _ => rfl⟩⟩

namespace Stays

theorem pure (a : α) : Stays config (.pure a : RuntimeM ι R V α) phase := rfl

theorem throw (e : ComputerFailure) : Stays config (.throw e : RuntimeM ι R V α) phase := rfl

theorem bind {p : RuntimeM ι R V β} {f : β → RuntimeM ι R V α} (hp : Stays config p phase)
    (hf : ∀ b, Stays config (f b) phase) : Stays config (p.bind f) phase :=
  Program.Obeys.bind (hp.mono (fun b _ ht => ht ▸ hf b) fun _ _ => id)

theorem attempt {p : RuntimeM ι R V α} (hp : Stays config p phase) :
    Stays config p.attempt phase :=
  Program.Obeys.attempt hp

theorem ofExcept (outcome : Except ComputerFailure α) :
    Stays config (.ofExcept outcome : RuntimeM ι R V α) phase := by
  cases outcome with
  | ok a => exact pure a
  | error e => exact throw e

theorem orFail (result : Except ComputerError α) :
    Stays config (orFail result : RuntimeM ι R V α) phase := by
  cases result with
  | ok a => exact pure a
  | error e => exact throw _

theorem request {o : RuntimeOp ι} {k : o.Res R V → RuntimeM ι R V α} (ho : phase.Allows config o)
    (hnext : ∀ r : o.Res R V, phase.next o r = phase) (hk : ∀ r, Stays config (k r) phase) :
    Stays config (.request o k) phase := by
  refine ⟨ho, fun r _ => ?_⟩
  rw [show (laneMonitor config).next phase o r = phase from hnext r]
  exact hk r

variable (h : phase.HasTurn (R := R) (V := V) config lane)
include h

theorem plain {o : RuntimeOp ι} {k : o.Res R V → RuntimeM ι R V α} (ho : o.plain)
    (hk : ∀ r, Stays config (k r) phase) : Stays config (.request o k) phase :=
  request (h.plain o ho).1 (h.plain o ho).2 hk

theorem native (request : NativeRequest) :
    Stays config (native (some lane) request : RuntimeM ι R V R) phase := by
  obtain ⟨busy, hbusy⟩ := h.native
  obtain ⟨hbegin, hnext, hfinish, hback⟩ := hbusy request
  refine ⟨hbegin, fun r _ => ?_⟩
  rw [show (laneMonitor config).next phase (.begin (some lane) request) r = busy from hnext]
  refine ⟨hfinish, fun reply _ => ?_⟩
  rw [show (laneMonitor config).next busy (.finish request) reply = phase from hback reply]
  exact ofExcept reply

theorem requireEnabled : Stays config (requireEnabled : RuntimeM ι R V Unit) phase :=
  plain h trivial fun _ => orFail _

theorem read (request : NativeRequest) :
    Stays config (read (some lane) request : RuntimeM ι R V R) phase :=
  bind (requireEnabled h) fun _ => native h request

theorem releaseInputsBestEffort :
    Stays config (releaseInputsBestEffort config lane : RuntimeM ι R V Unit) phase :=
  bind (attempt (native h _)) fun _ => pure ()

theorem requireRequestActive :
    Stays config (requireRequestActive : RuntimeM ι R V Unit) phase :=
  plain h trivial fun (aborted : Bool) => by
    cases aborted with
    | true => exact throw _
    | false => exact pure ()

theorem remainingMs (deadline : Option ℚ) :
    Stays config (remainingMs deadline : RuntimeM ι R V (Option ℤ)) phase := by
  cases deadline with
  | none => exact pure _
  | some deadline => exact plain h trivial fun _ => pure _

theorem nativeTimeoutMs (deadline : Option ℚ) (params : Members) :
    Stays config (nativeTimeoutMs config deadline params : RuntimeM ι R V ℚ) phase :=
  bind (remainingMs h deadline) fun remaining => by
    cases remaining with
    | none => exact pure _
    | some remaining =>
      dsimp only
      split
      · exact throw _
      · exact pure _

theorem waitForRunDelay (milliseconds : ℤ) :
    Stays config (waitForRunDelay milliseconds : RuntimeM ι R V Unit) phase :=
  plain h trivial fun _ => ofExcept _

theorem checkStep (deadline : Option ℚ) :
    Stays config (checkStep deadline : RuntimeM ι R V (Option ℤ)) phase :=
  bind (requireRequestActive h) fun _ => bind (remainingMs h deadline) fun remaining => by
    cases remaining with
    | none => exact pure _
    | some ms =>
      dsimp only
      split
      · exact throw _
      · exact pure _

theorem performWait (milliseconds : ℕ) (remaining : Option ℤ) :
    Stays config (performWait milliseconds remaining : RuntimeM ι R V Unit) phase := by
  have hwait : ∀ ms : ℤ, Stays config ((Computer.waitForRunDelay ms).bind fun _ =>
      Computer.requireRequestActive : RuntimeM ι R V Unit) phase := fun ms =>
    bind (waitForRunDelay h ms) fun _ => requireRequestActive h
  cases remaining with
  | none => exact hwait _
  | some ms =>
    simp only [Computer.performWait]
    split
    · exact bind (waitForRunDelay h ms) fun _ => bind (requireRequestActive h) fun _ => throw _
    · exact hwait _

variable (checks : RuntimeChecks R)

theorem performAction (deadline : Option ℚ) (action : PreparedComputerAction)
    (remaining : Option ℤ) :
    Stays config (performAction config checks lane deadline action remaining : RuntimeM ι R V Unit)
      phase := by
  unfold Computer.performAction
  split
  · exact performWait h _ remaining
  · exact bind (nativeTimeoutMs h deadline _) fun _ => bind (native h _) fun _ =>
      bind (requireRequestActive h) fun _ => bind (orFail _) fun _ => pure ()
  · exact pure ()

theorem runStep (deadline : Option ℚ) (action : PreparedComputerAction) :
    Stays config (runStep config checks lane deadline action : RuntimeM ι R V _) phase := by
  unfold Computer.runStep
  refine plain h trivial fun (closing : Bool) => ?_
  cases closing with
  | true => exact pure _
  | false =>
    refine bind (attempt (checkStep h deadline)) fun outcome => ?_
    cases outcome with
    | error failure => exact pure _
    | ok remaining =>
      exact bind (attempt (performAction h checks deadline action remaining)) fun _ => pure _

theorem runActions (deadline : Option ℚ) (actionCount : ℕ)
    (actions : List PreparedComputerAction) (index : ℕ) (progress : RunProgress)
    (needsCleanup : Bool) :
    Stays config (runActions config checks lane deadline actionCount actions index progress
      needsCleanup : RuntimeM ι R V _) phase := by
  induction actions generalizing index progress needsCleanup with
  | nil => exact pure _
  | cons action actions ih =>
    refine bind (runStep h checks deadline action) fun ended => ?_
    obtain ⟨outcome, physical⟩ := ended
    cases outcome with
    | error failure => exact pure _
    | ok _ => exact ih _ _ _

theorem finalResult (deadline : Option ℚ) (actionCount : ℕ)
    (finalObservation : ComputerFinalObservation) (progress : RunProgress) :
    Stays config (finalResult config checks lane deadline actionCount finalObservation progress :
      RuntimeM ι R V _) phase := by
  refine bind (requireRequestActive h) fun _ => ?_
  split
  · exact pure _
  next method _ =>
    have hobserve : Stays config (observeFinally config checks lane deadline method :
        RuntimeM ι R V R) phase :=
      bind (nativeTimeoutMs h deadline _) fun _ => bind (native h _) fun _ =>
        bind (requireRequestActive h) fun _ => orFail _
    refine bind (attempt hobserve) fun outcome => ?_
    cases outcome with
    | ok reply => exact pure _
    | error failure =>
      refine plain h trivial fun (aborted : Bool) => ?_
      cases aborted with
      | true => exact throw _
      | false => exact pure _

theorem releaseAfterRun (needsCleanup : Bool) :
    Stays config (releaseAfterRun config lane needsCleanup : RuntimeM ι R V Unit) phase := by
  cases needsCleanup with
  | true => exact releaseInputsBestEffort h
  | false =>
    refine plain h trivial fun (aborted : Bool) => ?_
    cases aborted with
    | true => exact releaseInputsBestEffort h
    | false => exact pure ()

theorem runOnLane (now : ℚ) (checked : CheckedRun) :
    Stays config (runOnLane config checks lane now checked : RuntimeM ι R V _) phase := by
  refine bind (requireEnabled h) fun _ => bind (runActions h checks _ _ _ _ _ _) fun ended => ?_
  obtain ⟨outcome, needsCleanup⟩ := ended
  cases outcome with
  | error failure => exact bind (releaseAfterRun h needsCleanup) fun _ => throw _
  | ok progress =>
    exact bind (attempt (finalResult h checks _ _ _ progress)) fun _ =>
      bind (releaseAfterRun h needsCleanup) fun _ => ofExcept _

theorem resolveOnLane (target : JSONValue) :
    Stays config (resolveOnLane config checks lane target : RuntimeM ι R V R) phase :=
  bind (native h _) fun _ => orFail _

theorem observeOnLane : Stays config (observeOnLane config checks lane : RuntimeM ι R V R) phase :=
  bind (native h _) fun _ => orFail _

theorem scrollLoop (checked : CheckedScroll) (left stepsUsed : ℕ) (changed : Bool)
    (digest : Option String) :
    Stays config (scrollLoop config checks lane checked left stepsUsed changed digest :
      RuntimeM ι R V _) phase := by
  induction left generalizing stepsUsed changed digest with
  | zero =>
    unfold Computer.scrollLoop
    refine bind (requireEnabled h) fun _ => bind (resolveOnLane h checks _) fun _ =>
      bind (attempt (resolveOnLane h checks _)) fun outcome => ?_
    cases outcome with
    | ok _ => exact pure _
    | error failure =>
      cases failure with
      | other => exact throw _
      | computer error =>
        dsimp only
        split
        · exact throw _
        · exact pure _
  | succ left ih =>
    unfold Computer.scrollLoop
    refine bind (requireEnabled h) fun _ => bind (resolveOnLane h checks _) fun _ =>
      bind (attempt (resolveOnLane h checks _)) fun outcome => ?_
    cases outcome with
    | ok _ => exact pure _
    | error failure =>
      cases failure with
      | other => exact throw _
      | computer error =>
        dsimp only
        split
        · exact throw _
        · cases digest with
          | none => exact pure _
          | some digest =>
            refine bind (native h _) fun _ => bind (orFail _) fun _ =>
              bind (observeOnLane h checks) fun observation => ?_
            split
            · exact pure _
            · split
              · exact pure _
              · exact ih _ _ _

omit h in
theorem requireActiveProgram {owner : ι} {me : ℕ} :
    Stays config (requireActiveProgram owner : RuntimeM ι R V Unit)
      (.serving owner lane me false) :=
  request ⟨rfl, rfl⟩ (fun _ => rfl) fun (aborted : Bool) => by
    cases aborted with
    | true => exact throw _
    | false => exact pure ()

omit h in
theorem executeProgramAction {owner : ι} {me : ℕ} (ownerMode : Bool) (action : ComputerAction) :
    Stays config (executeProgramAction config checks owner ownerMode action lane :
      RuntimeM ι R V _) (.serving owner lane me false) := by
  have h : (Phase.serving owner lane me false).HasTurn (R := R) (V := V) config lane :=
    Phase.hasTurn_serving
  refine bind (requireEnabled h) fun _ => bind requireActiveProgram fun _ =>
    bind (orFail _) fun prepared => ?_
  split
  · split
    · exact throw _
    · exact bind (waitForRunDelay h _) fun _ => bind (requireEnabled h) fun _ =>
        bind requireActiveProgram fun _ => pure _
  · exact bind requireActiveProgram fun _ => bind (native h _) fun _ => bind (orFail _) fun _ =>
      pure _
  · exact pure _

theorem perform (call : ReadCall) :
    Stays config (call.perform config checks (some lane) : RuntimeM ι R V _) phase := by
  refine bind (orFail _) fun checked => ?_
  split
  · refine bind (attempt (bind (read h _) fun _ => orFail _)) fun outcome => ?_
    cases outcome with
    | ok _ => exact pure _
    | error failure =>
      cases failure with
      | other => exact throw _
      | computer error =>
        dsimp only
        split
        · exact pure _
        · exact throw _
  · exact bind (read h _) fun _ => bind (orFail _) fun _ => pure _

end Stays

/-! ## Operations -/

def Phase.Leaves (config : ComputerRuntimeConfig) (me : ℕ) (phase : Phase ι) : Prop :=
  phase.Allows config (.settle me) ∧ ∀ r, phase.next (R := R) (V := V) (.settle me) r = .left

def Phase.Over : Phase ι → Prop
  | .arriving _ | .calling _ | .shutting | .left => True
  | _ => False

def Phase.start : RuntimeCall ι → Phase ι
  | .run _ _ | .scrollUntilVisible _ => .arriving .program
  | .withExclusiveProgram => .arriving .exclusive
  | .session owner _ _ => .calling owner
  | .close => .shutting
  | .health | .read _ | .act _ | .cancel _ => .arriving .single

def Ends (config : ComputerRuntimeConfig) (p : RuntimeM ι R V α) (phase : Phase ι) : Prop :=
  p.Obeys (laneMonitor config) (fun _ => Phase.Over) (fun _ => Phase.Over) phase

def EndsOn (config : ComputerRuntimeConfig) (me : ℕ) (p : RuntimeM ι R V α) (phase : Phase ι) :
    Prop :=
  p.Obeys (laneMonitor config) (fun _ => Phase.Leaves (R := R) (V := V) config me)
    (fun _ => Phase.Leaves (R := R) (V := V) config me) phase

theorem Stays.ends (h : Stays config p phase) (hover : phase.Over) : Ends config p phase :=
  h.mono (fun _ _ ht => ht ▸ hover) fun _ _ ht => ht ▸ hover

theorem Stays.endsOn (h : Stays config p phase)
    (hleaves : phase.Leaves (R := R) (V := V) config me) : EndsOn config me p phase :=
  h.mono (fun _ _ ht => ht ▸ hleaves) fun _ _ ht => ht ▸ hleaves

theorem Ends.bind {p : RuntimeM ι R V β} {f : β → RuntimeM ι R V α} (hp : Ends config p phase)
    (hf : ∀ b t, Stays config (f b) t) : Ends config (p.bind f) phase :=
  Program.Obeys.bind (hp.mono (fun b t ht => (hf b t).ends ht) fun _ _ => id)

theorem Ends.attempt (hp : Ends config p phase) : Ends config p.attempt phase :=
  Program.Obeys.attempt hp

theorem EndsOn.onLane {chain : Option ℕ × ℕ} {work : RuntimeM ι R V α} {turn : Phase ι}
    (hallows : phase.Allows config (.await chain.1))
    (hturn : ∀ r, phase.next (R := R) (V := V) (.await chain.1) r = turn)
    (hwork : EndsOn config chain.2 work turn) : Ends config (onLane chain work) phase := by
  refine ⟨hallows, fun r _ => ?_⟩
  rw [show (laneMonitor config).next phase (.await chain.1) r = turn from hturn r]
  have hsettle : ∀ (outcome : Except ComputerFailure α) t,
      t.Leaves (R := R) (V := V) config chain.2 →
        Ends config (.request (.settle chain.2) fun _ => .ofExcept outcome :
          RuntimeM ι R V α) t := by
    rintro outcome t ⟨hsettle, hleft⟩
    refine ⟨hsettle, fun r _ => ?_⟩
    rw [show (laneMonitor config).next t (.settle chain.2) r = .left from hleft r]
    exact (Stays.ofExcept outcome).ends trivial
  exact .bind (.attempt (hwork.mono (fun a t ht => hsettle (.ok a) t ht)
    fun e t ht => hsettle (.error e) t ht))

theorem EndsOn.onPhysicalLane {kind : LaneKind} {γ : Type} {checked : Except ComputerError γ}
    {work : ℕ → ℚ → γ → RuntimeM ι R V α}
    (hwork : ∀ me now input, EndsOn config me (work me now input) (.inside kind me false)) :
    Ends config (onPhysicalLane checked work) (.arriving kind) := by
  refine ⟨trivial, fun result hresult => ?_⟩
  cases result with
  | error error => exact trivial
  | ok entrance =>
    obtain ⟨now, chain⟩ := entrance
    have hchain := hresult _ rfl
    cases checked with
    | error error =>
      cases chain with
      | none => exact trivial
      | some chain => cases hchain
    | ok input =>
      cases chain with
      | none => cases hchain
      | some chain => exact EndsOn.onLane rfl (fun _ => rfl) (hwork chain.2 now input)

theorem Phase.leaves_inside {kind : LaneKind} :
    (Phase.inside kind me false : Phase ι).Leaves (R := R) (V := V) config me :=
  ⟨⟨rfl, rfl⟩, fun _ => rfl⟩

/-! ### Reading -/

theorem ReadCall.request_not_physical {checks : RuntimeChecks R} {call : ReadCall}
    {checked : NativeRequest × (R → Except ComputerError R)}
    (h : call.request config checks = .ok checked) : checked.1.method.isPhysical = false := by
  cases call with
  | pointerPosition | listApps | activeWindow | observe | screenshot =>
    cases h
    rfl
  | resolveMany targets retryBudget =>
    obtain ⟨-, h⟩ := unless_invalid h
    obtain ⟨budget, -, h⟩ := Except.bind_eq_ok h
    obtain ⟨canonical, -, h⟩ := Except.bind_eq_ok h
    cases h
    rfl
  | wait prepared =>
    simp only [ReadCall.request] at h
    split at h
    next method _ =>
      split at h
      next hmethod =>
        cases h
        rcases hmethod with rfl | rfl | rfl <;> rfl
      next => cases h
    next => cases h
  | _ target retryBudget =>
    obtain ⟨params, -, h⟩ := Except.bind_eq_ok h
    cases h
    rfl

theorem ends_native {request : NativeRequest} (hphysical : request.method.isPhysical = false) :
    Ends config (native none request : RuntimeM ι R V R) (.arriving .single) :=
  ⟨⟨rfl, rfl, hphysical⟩, fun _ _ => ⟨trivial, fun reply _ => (Stays.ofExcept reply).ends trivial⟩⟩

theorem ends_read {request : NativeRequest} (hphysical : request.method.isPhysical = false) :
    Ends config (read none request : RuntimeM ι R V R) (.arriving .single) := by
  refine ⟨rfl, fun standing _ => ?_⟩
  cases standing with
  | error error => exact trivial
  | ok _ => exact ends_native hphysical

theorem ends_perform (checks : RuntimeChecks R) (call : ReadCall) :
    Ends config (call.perform config checks none : RuntimeM ι R V _) (.arriving .single) := by
  unfold ReadCall.perform
  cases hchecked : call.request config checks with
  | error error => exact trivial
  | ok checked =>
    have hread : Ends config (read none checked.1 : RuntimeM ι R V R) (.arriving .single) :=
      ends_read (ReadCall.request_not_physical hchecked)
    dsimp only [orFail, Program.bind]
    split
    · refine .bind (.attempt (.bind hread fun _ _ => .orFail _)) fun outcome t => ?_
      cases outcome with
      | ok _ => exact .pure _
      | error failure =>
        cases failure with
        | other => exact .throw _
        | computer error =>
          dsimp only
          split
          · exact .pure _
          · exact .throw _
    · exact .bind hread fun _ _ => .bind (.orFail _) fun _ => .pure _

/-! ### The phases of every operation -/

theorem ends_act (checks : RuntimeChecks R) (action : ComputerAction) :
    Ends config (act config checks action : RuntimeM ι R V _) (.arriving .single) := by
  unfold act
  cases preparedAction action config.maxAutomaticRetriesPerAction with
  | error error => exact trivial
  | ok prepared =>
    dsimp only [orFail, Program.bind]
    split
    · refine .bind (EndsOn.onPhysicalLane fun me now request => ?_) fun _ _ =>
        .bind (.orFail _) fun _ => .pure _
      have hturn : (Phase.inside .single me false : Phase ι).HasTurn (R := R) (V := V) config me :=
        Phase.hasTurn_inside nofun
      exact (Stays.bind (.requireEnabled hturn) fun _ => .native hturn _).endsOn
        Phase.leaves_inside
    · exact ends_perform checks _

theorem ends_run (checks : RuntimeChecks R) (ownerMode : Bool) (input : ComputerRunInput) :
    Ends config (run config checks ownerMode input : RuntimeM ι R V _) (.arriving .program) :=
  EndsOn.onPhysicalLane fun me now checked => by
    have hturn : (Phase.inside .program me false : Phase ι).HasTurn (R := R) (V := V) config me :=
      Phase.hasTurn_inside nofun
    exact (Stays.runOnLane hturn checks now checked).endsOn Phase.leaves_inside

theorem ends_scrollUntilVisible (checks : RuntimeChecks R)
    (input : ComputerScrollUntilVisibleInput) :
    Ends config (scrollUntilVisible config checks input : RuntimeM ι R V _) (.arriving .program) :=
  EndsOn.onPhysicalLane fun me _ checked => by
    have hturn : (Phase.inside .program me false : Phase ι).HasTurn (R := R) (V := V) config me :=
      Phase.hasTurn_inside nofun
    exact (Stays.bind (.requireEnabled hturn) fun _ => .bind (.observeOnLane hturn checks) fun _ =>
      .scrollLoop hturn checks checked _ _ _ _).endsOn Phase.leaves_inside

theorem endsOn_release :
    EndsOn config me (releaseInputsBestEffort config me : RuntimeM ι R V Unit)
      (.sealed me false) := by
  refine ⟨⟨rfl, rfl, rfl⟩, fun _ _ => ⟨rfl, fun reply _ => ?_⟩⟩
  cases reply <;> exact ⟨⟨rfl, rfl⟩, fun _ => rfl⟩

theorem ends_withExclusiveProgram :
    Ends config (withExclusiveProgram config : RuntimeM ι R V V) (.arriving .exclusive) := by
  refine EndsOn.onPhysicalLane fun me now _ => ⟨rfl, fun standing _ => ?_⟩
  cases standing with
  | error error => exact Phase.leaves_inside
  | ok _ =>
    refine ⟨⟨rfl, rfl, rfl⟩, fun _ _ => ⟨trivial, fun outcome _ => ⟨trivial, fun chain _ =>
      ⟨rfl, fun _ _ => ⟨rfl, fun _ _ => ⟨rfl, fun _ _ => ?_⟩⟩⟩⟩⟩⟩
    exact Program.Obeys.bind (endsOn_release.mono
      (fun _ t ht => (Stays.ofExcept outcome).endsOn ht) fun _ _ => id)

theorem ends_runSession (owner : ι) (operation : ℕ → RuntimeM ι R V α)
    (hoperation : ∀ lane me, Stays config (operation lane) (.serving owner lane me false)) :
    Ends config (runSession owner operation) (.calling owner) := by
  refine ⟨rfl, fun result _ => ?_⟩
  cases result with
  | error error => exact trivial
  | ok entrance =>
    exact EndsOn.onLane rfl (fun _ => rfl)
      ((Stays.bind .requireActiveProgram fun _ => hoperation _ _).endsOn ⟨⟨rfl, rfl⟩, fun _ => rfl⟩)

theorem ends_close : Ends config (close config : RuntimeM ι R V Unit) .shutting := by
  refine ⟨trivial, fun chain _ => ?_⟩
  cases chain with
  | none => exact ⟨trivial, fun outcome _ => (Stays.ofExcept outcome).ends trivial⟩
  | some chain =>
    have hrest : EndsOn config chain.2 (.request .beginClose fun _ =>
        .request .finishClose Program.ofExcept : RuntimeM ι R V Unit) (.stopping chain.2 false) :=
      ⟨rfl, fun _ _ => ⟨trivial, fun outcome _ =>
        (Stays.ofExcept outcome).endsOn ⟨rfl, fun _ => rfl⟩⟩⟩
    refine EndsOn.onLane rfl (fun _ => rfl) ⟨rfl, fun (running : Bool) _ => ?_⟩
    cases running with
    | false => exact hrest
    | true =>
      refine ⟨⟨rfl, rfl⟩, fun _ _ => ⟨rfl, fun reply _ => ?_⟩⟩
      cases reply <;> exact hrest

theorem ends_program (checks : RuntimeChecks R) (call : RuntimeCall ι) :
    Ends config (call.program config checks : RuntimeM ι R V _) (Phase.start call) := by
  cases call with
  | health =>
    show Ends config (health config) _
    unfold health
    split
    · refine .bind (.attempt (ends_native rfl)) fun outcome _ => ?_
      cases outcome with
      | ok reply => exact .pure _
      | error _ => exact .pure _
    · exact trivial
  | read call => exact ends_perform checks call
  | act action => exact ends_act checks action
  | run ownerMode input => exact .bind (ends_run checks ownerMode input) fun _ _ => .pure _
  | scrollUntilVisible input =>
    exact .bind (ends_scrollUntilVisible checks input) fun _ _ => .pure _
  | withExclusiveProgram => exact .bind ends_withExclusiveProgram fun _ _ => .pure _
  | session owner ownerMode call =>
    cases call with
    | execute action =>
      exact ends_runSession owner _ fun _ _ => .executeProgramAction checks ownerMode action
    | read call => exact ends_runSession owner _ fun _ _ => .perform Phase.hasTurn_serving checks call
  | cancel owner => exact ⟨rfl, fun _ _ => trivial⟩
  | close => exact .bind ends_close fun _ _ => .pure _

end Monitor

end Computer
