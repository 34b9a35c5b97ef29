import ChatgptSystem.Native.HeldInputs
import ChatgptSystem.Native.TakeoverSafety

/-!
# Interrupted actions

An action that runs alone and is interrupted posts at most the event that is its next operation,
and after that only events that release something. It ends by throwing, unless it makes no
safety check any more: then it posts nothing more either.

* `InputSafetyCoordinator.Interrupted` — a takeover or an emergency stop is recorded, or the
  monitor is lost during an action;
* `LossLasts` — while nothing is recorded, a lost monitor does not come back;
* `Stopping` — what the action may do from the interruption on;
* `interrupted_action_stops` — every run keeps to it.
-/

open Interleaving

namespace InputControl

variable {ι D : Type} [DecidableEq ι] [DoubleArithmetic D]

/-- The coordinator makes the next safety check of an action fail. -/
def InputSafetyCoordinator.Interrupted (coordinator : InputSafetyCoordinator D) : Prop :=
  coordinator.interruption.isSome = true ∨
    coordinator.active = true ∧ coordinator.monitorAvailable = false

/-- The monitor does not become available before an interruption is recorded. -/
def LossLasts (c : InputConfiguration ι D) (i : ι) : Prop :=
  (∃ k, c.1 i = .request (.markMonitor true) k) → c.2.coordinator.interruption.isSome = true

/-! ## The coordinator -/

namespace InputSafetyCoordinator

variable {coordinator : InputSafetyCoordinator D}

theorem monitorAvailable_observe (input : ObservedPhysicalInput D) :
    (coordinator.observe input).monitorAvailable = coordinator.monitorAvailable := by
  unfold observe
  repeat' split
  all_goals rfl

omit [DoubleArithmetic D] in
theorem monitorAvailable_trigger :
    coordinator.triggerEmergencyStop.monitorAvailable = coordinator.monitorAvailable := by
  unfold triggerEmergencyStop
  split <;> rfl

theorem Interrupted.observe (h : coordinator.Interrupted) (input : ObservedPhysicalInput D) :
    (coordinator.observe input).Interrupted := by
  rcases h with hsome | ⟨hactive, hlost⟩
  · exact .inl (interruption_observe_of_isSome hsome ▸ hsome)
  · exact .inr ⟨(active_observe input).trans hactive,
      (monitorAvailable_observe input).trans hlost⟩

omit [DoubleArithmetic D] in
theorem Interrupted.trigger (h : coordinator.Interrupted) :
    coordinator.triggerEmergencyStop.Interrupted := by
  rcases h with hsome | ⟨hactive, hlost⟩
  · exact .inl (isSome_interruption_trigger (.inr hsome))
  · exact .inr ⟨active_trigger.trans hactive, monitorAvailable_trigger.trans hlost⟩

omit [DoubleArithmetic D] in
theorem Interrupted.check (h : coordinator.Interrupted) :
    ∃ error, coordinator.checkForInterruption = .error error := by
  rcases h with hsome | ⟨hactive, hlost⟩
  · exact check_of_isSome hsome
  · exact ⟨.unavailable, by simp [checkForInterruption, hactive, hlost]⟩

end InputSafetyCoordinator

structure InterruptedNow (m : Machine ι D) : Prop where
  active : m.coordinator.active = true
  interrupted : m.coordinator.Interrupted

variable {choice : InputChoice D} {i : ι} {o : InputOp D} {r : o.Res}

theorem InterruptedNow.act {m acted : Machine ι D} (h : InterruptedNow m)
    (hact : o.act choice i m = some (r, acted)) (hbegin : ∀ pointer, o ≠ .beginAction pointer)
    (hend : o ≠ .endAction)
    (hlasts : o = .markMonitor true → m.coordinator.interruption.isSome = true) :
    InterruptedNow acted := by
  obtain ⟨hactive, hinterrupted⟩ := h
  have hframe := framed_of_act hact
  cases o with
  | beginAction pointer => exact absurd rfl (hbegin pointer)
  | endAction => exact absurd rfl hend
  | updateExpectedPointer point =>
    obtain ⟨rfl, rfl⟩ := Prod.mk.inj (Option.some.inj hact)
    have hupdate : m.coordinator.updateExpectedPointer point =
        { m.coordinator with expectedPointer := some point } := if_pos hactive
    exact ⟨hupdate ▸ hactive, hupdate ▸ hinterrupted⟩
  | observe input =>
    obtain ⟨rfl, rfl⟩ := Prod.mk.inj (Option.some.inj hact)
    exact ⟨(InputSafetyCoordinator.active_observe input).trans hactive, hinterrupted.observe input⟩
  | triggerEmergencyStop =>
    obtain ⟨rfl, rfl⟩ := Prod.mk.inj (Option.some.inj hact)
    exact ⟨InputSafetyCoordinator.active_trigger.trans hactive, hinterrupted.trigger⟩
  | markMonitor available =>
    obtain ⟨rfl, rfl⟩ := Prod.mk.inj (Option.some.inj hact)
    refine ⟨hactive, ?_⟩
    cases available with
    | true => exact .inl (hlasts rfl)
    | false => exact .inr ⟨hactive, rfl⟩
  | _ =>
    have hsame := hframe.coordinator nofun
    exact ⟨hsame ▸ hactive, hsame ▸ hinterrupted⟩

/-! ## The action that is alone -/

def InputOp.IsOccurrence : InputOp D → Prop
  | .observe _ | .triggerEmergencyStop | .markMonitor _ => True
  | _ => False

omit [DecidableEq ι] [DoubleArithmetic D] in
theorem issues_inputPrograms [DoubleArithmetic D] {calls : ι → InputCall D}
    (halone : ∀ j, j ≠ i → ∃ event, calls j = .occurrence event) (j : ι) :
    (inputPrograms calls j).Issues fun o => j ≠ i → o.IsOccurrence := by
  by_cases hij : j = i
  · exact .of_forall (fun _ hne => absurd hij hne) _
  · obtain ⟨event, hevent⟩ := halone j hij
    rw [inputPrograms, hevent]
    exact .request (fun _ => by cases event <;> trivial) fun _ => .pure _

/-- Only the call `i` is an action, and the coordinator is active for it only. -/
structure Alone (c : InputConfiguration ι D) (i : ι) : Prop where
  issues : ∀ j, (c.1 j).Issues fun o => j ≠ i → o.IsOccurrence
  active : c.2.coordinator.active = true → c.2.phase i = .begun ∨ c.2.phase i = .released

theorem InputOp.IsOccurrence.act {j : ι} {m acted : Machine ι D} (h : o.IsOccurrence)
    (hact : o.act choice j m = some (r, acted)) :
    acted.coordinator.active = m.coordinator.active ∧ acted.log = m.log ∧
      acted.checks = m.checks ∧ acted.phase = m.phase := by
  cases o with
  | observe input =>
    obtain ⟨rfl, rfl⟩ := Prod.mk.inj (Option.some.inj hact)
    exact ⟨InputSafetyCoordinator.active_observe input, rfl, rfl, rfl⟩
  | triggerEmergencyStop =>
    obtain ⟨rfl, rfl⟩ := Prod.mk.inj (Option.some.inj hact)
    exact ⟨InputSafetyCoordinator.active_trigger, rfl, rfl, rfl⟩
  | markMonitor available =>
    obtain ⟨rfl, rfl⟩ := Prod.mk.inj (Option.some.inj hact)
    exact ⟨rfl, rfl, rfl, rfl⟩
  | _ => cases h

theorem active_of_act {m acted : Machine ι D} {s : Conduct} (hs : s.phase = m.phase i)
    (hallowed : s.allowed o) (hact : o.act choice i m = some (r, acted))
    (h : m.coordinator.active = true → m.phase i = .begun ∨ m.phase i = .released)
    (hactive : acted.coordinator.active = true) :
    (m.phase i).next o r = .begun ∨ (m.phase i).next o r = .released := by
  have hframe := framed_of_act hact
  cases o with
  | acquire =>
    have hphase : m.phase i = .outside := hs.symm.trans hallowed
    rw [hframe.coordinator nofun] at hactive
    rw [hphase] at h
    exact absurd (h hactive) (by simp)
  | resume =>
    have hphase : m.phase i = .waiting := hs.symm.trans hallowed
    rw [hframe.coordinator nofun] at hactive
    rw [hphase] at h
    exact absurd (h hactive) (by simp)
  | release =>
    rw [hframe.coordinator nofun] at hactive
    rcases h hactive with hbegun | hreleased
    · exact .inr (if_pos hbegun)
    · have hlane := hallowed.1
      rw [hs, hreleased] at hlane
      exact absurd hlane (not_hasLane nofun nofun)
  | beginAction pointer => exact .inl rfl
  | endAction =>
    obtain ⟨rfl, rfl⟩ := Prod.mk.inj (Option.some.inj hact)
    cases hactive
  | updateExpectedPointer point => exact .inl (hs.symm.trans hallowed)
  | observe input =>
    obtain ⟨rfl, rfl⟩ := Prod.mk.inj (Option.some.inj hact)
    exact h ((InputSafetyCoordinator.active_observe input).symm.trans hactive)
  | triggerEmergencyStop =>
    obtain ⟨rfl, rfl⟩ := Prod.mk.inj (Option.some.inj hact)
    exact h (InputSafetyCoordinator.active_trigger.symm.trans hactive)
  | markMonitor available =>
    obtain ⟨rfl, rfl⟩ := Prod.mk.inj (Option.some.inj hact)
    exact h hactive
  | _ =>
    rw [hframe.coordinator nofun] at hactive
    exact h hactive

theorem Alone.step {c c' : InputConfiguration ι D} {s : ι → Conduct} {j : ι} (h : Alone c i)
    (hs : RunInvariant c s) (hstep : Pool.Step inputExec j c c') : Alone c' i := by
  refine ⟨hstep.issues _ h.issues, ?_⟩
  obtain ⟨o, k, r, choice, acted, hpool, hallowed, hact, rfl, -⟩ := hs.inversion hstep
  dsimp only
  intro hactive
  by_cases hij : i = j
  · subst hij
    rw [Function.update_self]
    exact active_of_act (hs.phase i) hallowed hact h.active hactive
  · have hoccurs : o.IsOccurrence := by
      have hissues := h.issues j
      rw [hpool] at hissues
      cases hissues with
      | request ho => exact ho fun heq => hij heq.symm
    rw [Function.update_of_ne hij]
    exact h.active ((hoccurs.act hact).1.symm.trans hactive)

/-! ## From the interruption on -/

/-- The action has posted nothing and made no safety check. -/
structure Quiet (start m : Machine ι D) (i : ι) : Prop where
  log : m.log = start.log
  checks : m.checks i = start.checks i

/-- The action has posted at most the event that was its next operation at the interruption, and
after it releases only. -/
def Posted (start c : InputConfiguration ι D) (i : ι) : Prop :=
  ∃ late releases, c.2.log = start.2.log ++ late ++ releases ∧
    (∀ event ∈ releases, event.isRelease = true) ∧
    (late = [] ∨ ∃ event k, start.1 i = .request (.emit event) k ∧ late = [event])

/-- How far the action has come since the interruption. -/
inductive Course (start c : InputConfiguration ι D) (i : ι) (s : Conduct) : Prop where
  | unmoved (h : c.1 i = start.1 i) (quiet : Quiet start.2 c.2 i)
  | quiet (h : s.standing ≠ .passed) (quiet : Quiet start.2 c.2 i)
  | posted (h : s.standing = .owing ∨ s.standing = .stopped) (posted : Posted start c i)

structure Stopping (start c : InputConfiguration ι D) (i : ι) (s : Conduct) : Prop where
  interrupted : c.2.phase i ≠ .ended → InterruptedNow c.2
  phase : c.2.phase i = .begun ∨ c.2.phase i = .released ∨ c.2.phase i = .ended
  course : Course start c i s

section Course

variable {start c : InputConfiguration ι D} {s : Conduct}

section

omit [DecidableEq ι] [DoubleArithmetic D]

theorem Quiet.posted (h : Quiet start.2 c.2 i) : Posted start c i :=
  ⟨[], [], by simpa using h.log, nofun, .inl rfl⟩

theorem Course.toPosted (h : Course start c i s) : Posted start c i := by
  cases h with
  | unmoved _ quiet => exact quiet.posted
  | quiet _ quiet => exact quiet.posted
  | posted _ posted => exact posted

end

variable {c' : InputConfiguration ι D}

section

omit [DecidableEq ι] [DoubleArithmetic D]

theorem Posted.release {event : InputEvent D} (h : Posted start c i)
    (hrelease : event.isRelease = true) (hlog : c'.2.log = c.2.log ++ [event]) :
    Posted start c' i := by
  obtain ⟨late, releases, hold, hreleases, hlate⟩ := h
  refine ⟨late, releases ++ [event], ?_, fun e he => ?_, hlate⟩
  · rw [hlog, hold, List.append_assoc _ releases]
  · rcases List.mem_append.mp he with hbefore | hnew
    · exact hreleases e hbefore
    · rwa [List.mem_singleton.mp hnew]

theorem Course.of_still {s' : Conduct} (h : Course start c i s) (hlog : c'.2.log = c.2.log)
    (hchecks : c'.2.checks i = c.2.checks i) (hpassed : s'.standing ≠ .passed)
    (hkept : s.standing = .owing ∨ s.standing = .stopped → s'.standing = s.standing) :
    Course start c' i s' := by
  cases h with
  | unmoved _ quiet => exact .quiet hpassed ⟨hlog.trans quiet.log, hchecks.trans quiet.checks⟩
  | quiet _ quiet => exact .quiet hpassed ⟨hlog.trans quiet.log, hchecks.trans quiet.checks⟩
  | posted hs posted =>
    refine .posted (hkept hs ▸ hs) ?_
    obtain ⟨late, releases, hold, hrest⟩ := posted
    exact ⟨late, releases, hlog.trans hold, hrest⟩

theorem Course.emit {s' : Conduct} {event : InputEvent D}
    {k : Except InputError Unit → InputM D (ComputerActionResult D)} (h : Course start c i s)
    (hnext : c.1 i = .request (.emit event) k)
    (hallowed : event.isRelease = true ∨ s.standing = .passed)
    (hlog : c'.2.log = c.2.log ++ [event]) (hs' : s'.standing = .owing ∨ s'.standing = .stopped) :
    Course start c' i s' := by
  refine .posted hs' ?_
  cases h with
  | unmoved hsame quiet =>
    refine ⟨[event], [], ?_, nofun, .inr ⟨event, k, hsame ▸ hnext, rfl⟩⟩
    rw [hlog, quiet.log, List.append_nil]
  | quiet hs quiet =>
    exact quiet.posted.release (hallowed.resolve_right hs) hlog
  | posted hs posted =>
    refine posted.release (hallowed.resolve_right ?_) hlog
    rcases hs with hs | hs <;> rw [hs] <;> exact nofun

end

end Course

section

variable {c start : InputConfiguration ι D} {s : Conduct} (h : Stopping start c i s)
  (hphase : s.phase = c.2.phase i)

include h hphase

theorem Stopping.own {k : o.Res → InputM D (ComputerActionResult D)} {acted : Machine ι D}
    {c' : InputConfiguration ι D} (hnext : c.1 i = .request o k) (hallowed : s.allowed o)
    (hact : o.act choice i c.2 = some (r, acted)) (hlog : c'.2.log = acted.log)
    (hchecks : c'.2.checks = acted.checks) : Course start c' i (s.next o r) := by
  have hframe := framed_of_act hact
  have hstanding : ∀ standing : SafetyStanding,
      (if standing = .passed then SafetyStanding.clear else standing) ≠ .passed := by
    intro standing
    split <;> simp_all
  have hstill : (s.next o r).standing = (if s.standing = .passed then .clear else s.standing) →
      acted.log = c.2.log → acted.checks = c.2.checks → Course start c' i (s.next o r) := by
    intro hnow hlog' hchecks'
    refine h.course.of_still (hlog.trans hlog') (congrFun (hchecks.trans hchecks') i)
      (hnow ▸ hstanding _) fun hs => ?_
    rw [hnow]
    rcases hs with hs | hs <;> rw [hs] <;> rfl
  cases o with
  | checkForInterruption =>
    have hbegun : c.2.phase i = .begun := hphase.symm.trans hallowed.1
    obtain ⟨error, herror⟩ := (h.interrupted (by rw [hbegun]; nofun)).interrupted.check
    obtain ⟨hr, -⟩ := Prod.mk.inj (Option.some.inj hact)
    rw [herror] at hr
    subst hr
    refine .posted (.inr rfl) ?_
    obtain ⟨late, releases, hold, hrest⟩ := h.course.toPosted
    exact ⟨late, releases, (hlog.trans (hframe.log nofun)).trans hold, hrest⟩
  | emit event =>
    obtain ⟨hlane, -, hchecked⟩ := hallowed
    have hbegun : c.2.phase i = .begun := by
      rw [hphase] at hlane
      rcases h.phase with hbegun | hother
      · exact hbegun
      · rcases hother with hother | hother <;> rw [hother] at hlane <;>
          exact absurd hlane (not_hasLane nofun nofun)
    cases choice with
    | completes =>
      obtain ⟨rfl, rfl⟩ := Prod.mk.inj (Option.some.inj hact)
      refine h.course.emit hnext hchecked hlog ?_
      have hnow : (s.next (.emit event : InputOp D) (.ok ())).standing =
          if s.phase = .begun ∧ s.standing ≠ .stopped then .owing else s.standing := rfl
      rw [hnow]
      by_cases hstopped : s.standing = .stopped
      · exact .inr (by simp [hstopped])
      · exact .inl (if_pos ⟨hphase.trans hbegun, hstopped⟩)
    | fails error =>
      obtain ⟨rfl, rfl⟩ := Prod.mk.inj (Option.some.inj hact)
      exact hstill rfl rfl rfl
    | _ => cases hact
  | _ => exact hstill rfl (hframe.log nofun) (hframe.checks nofun)

omit [DecidableEq ι] [DoubleArithmetic D] in
theorem Stopping.next_phase (hallowed : s.allowed o) :
    o = .endAction ∧ (c.2.phase i).next o r = .ended ∨
      o ≠ .endAction ∧ (∀ pointer, o ≠ .beginAction pointer) ∧
        (c.2.phase i = .ended → (c.2.phase i).next o r = .ended) ∧
        ((c.2.phase i).next o r = .begun ∨ (c.2.phase i).next o r = .released ∨
          (c.2.phase i).next o r = .ended) := by
  have hnot : ∀ phase : Phase, s.phase = phase → phase = .begun ∨ phase = .released ∨
      phase = .ended := fun phase hp => hp ▸ hphase ▸ h.phase
  cases o with
  | acquire => exact absurd (hnot _ hallowed) (by simp)
  | resume => exact absurd (hnot _ hallowed) (by simp)
  | beginAction pointer => exact absurd (hnot _ hallowed) (by simp)
  | endAction => exact .inl ⟨rfl, rfl⟩
  | release =>
    have hbegun : c.2.phase i = .begun := by
      have hlane := hallowed.1
      rw [hphase] at hlane
      rcases h.phase with hp | hp
      · exact hp
      · rcases hp with hp | hp <;> rw [hp] at hlane <;>
          exact absurd hlane (not_hasLane nofun nofun)
    refine .inr ⟨nofun, nofun, fun hended => ?_, .inr (.inl (if_pos hbegun))⟩
    rw [hbegun] at hended
    cases hended
  | _ => exact .inr ⟨nofun, nofun, id, h.phase⟩

end

theorem Stopping.step {start c c' : InputConfiguration ι D} {s : ι → Conduct} {j : ι}
    (h : Stopping start c i (s i)) (halone : Alone c i) (hs : RunInvariant c s)
    (hlasts : LossLasts c j) (hstep : Pool.Step inputExec j c c') :
    ∃ s', RunInvariant c' s' ∧ Stopping start c' i (s' i) := by
  obtain ⟨o, k, r, choice, acted, hpool, hallowed, hact, rfl, hs'⟩ := hs.inversion hstep
  refine ⟨_, hs', ?_⟩
  have hmonitor : o = .markMonitor true → c.2.coordinator.interruption.isSome = true := by
    rintro rfl
    exact hlasts ⟨k, hpool⟩
  by_cases hij : i = j
  · subst hij
    have hphase := hs.phase i
    have hnext := h.next_phase hphase hallowed (r := r)
    refine ⟨fun hended => ?_, ?_, ?_⟩
    · simp only [Function.update_self] at hended
      rcases hnext with ⟨-, hend⟩ | ⟨hnotEnd, hnotBegin, hback, -⟩
      · exact absurd hend hended
      · have hnow := (h.interrupted fun hp => hended (hback hp)).act hact hnotBegin hnotEnd hmonitor
        exact ⟨hnow.active, hnow.interrupted⟩
    · simp only [Function.update_self]
      rcases hnext with ⟨-, hend⟩ | ⟨-, -, -, hphases⟩
      · exact .inr (.inr hend)
      · exact hphases
    · rw [Function.update_self]
      exact h.own hphase hpool hallowed hact rfl rfl
  · have hji : j ≠ i := fun heq => hij heq.symm
    have hoccurs : o.IsOccurrence := by
      have hissues := halone.issues j
      rw [hpool] at hissues
      cases hissues with
      | request ho => exact ho hji
    obtain ⟨-, hlog, hchecks, -⟩ := hoccurs.act hact
    have hnotBegin : ∀ pointer, o ≠ .beginAction pointer := by
      rintro pointer rfl
      cases hoccurs
    have hnotEnd : o ≠ .endAction := by
      rintro rfl
      cases hoccurs
    refine ⟨fun hended => ?_, ?_, ?_⟩
    · simp only [Function.update_of_ne hij] at hended
      have hnow := (h.interrupted hended).act hact hnotBegin hnotEnd hmonitor
      exact ⟨hnow.active, hnow.interrupted⟩
    · simp only [Function.update_of_ne hij]
      exact h.phase
    · rw [Function.update_of_ne hij]
      cases h.course with
      | unmoved hsame quiet =>
        exact .unmoved ((Function.update_of_ne hij _ _).trans hsame)
          ⟨hlog.trans quiet.log, (congrFun hchecks i).trans quiet.checks⟩
      | quiet hpassed quiet =>
        exact .quiet hpassed ⟨hlog.trans quiet.log, (congrFun hchecks i).trans quiet.checks⟩
      | posted hstanding posted =>
        obtain ⟨late, releases, hold, hrest⟩ := posted
        exact .posted hstanding ⟨late, releases, hlog.trans hold, hrest⟩

/-! ## Runs -/

theorem alone_of_run {calls : ι → InputCall D} {monitorAvailable : Bool}
    {permit : InputConfiguration ι D → ι → Prop} {c : InputConfiguration ι D}
    (halone : ∀ j, j ≠ i → ∃ event, calls j = .occurrence event)
    (hrun : Pool.Run inputExec permit (inputPrograms calls, .initial monitorAvailable) c) :
    Alone c i := by
  induction hrun with
  | refl => exact ⟨issues_inputPrograms halone, nofun⟩
  | step hbefore _ hstep ih =>
    obtain ⟨s, hs⟩ := runInvariant_of_run hbefore
    exact ih.step hs hstep

/-- From an interruption on, an action that is alone posts at most the event that comes next, and
then releases only, as long as a lost monitor does not come back; it does not return, unless it
posts nothing and makes no safety check any more. -/
theorem interrupted_action_stops {calls : ι → InputCall D} {i : ι} {monitorAvailable : Bool}
    {start c : InputConfiguration ι D}
    (halone : ∀ j, j ≠ i → ∃ event, calls j = .occurrence event)
    (hstart : Pool.Run inputExec (fun _ _ => True)
      (inputPrograms calls, .initial monitorAvailable) start)
    (hnow : InterruptedNow start.2) (hrun : Pool.Run inputExec LossLasts start c) :
    Posted start c i ∧ ∀ result, c.1 i = .pure result →
      c.2.log = start.2.log ∧ c.2.checks i = start.2.checks i := by
  have hstopping : Alone c i ∧ ∃ s, RunInvariant c s ∧ Stopping start c i (s i) := by
    induction hrun with
    | refl =>
      have hfirst := alone_of_run halone hstart
      obtain ⟨s, hs⟩ := runInvariant_of_run hstart
      refine ⟨hfirst, s, hs, fun _ => hnow, ?_, .unmoved rfl ⟨rfl, rfl⟩⟩
      exact (hfirst.active hnow.active).imp_right .inl
    | step _ hlasts hstep ih =>
      obtain ⟨hbefore, s, hs, hcourse⟩ := ih
      exact ⟨hbefore.step hs hstep, hcourse.step hbefore hs hlasts hstep⟩
  obtain ⟨-, s, hs, hcourse⟩ := hstopping
  refine ⟨hcourse.course.toPosted, fun result hresult => ?_⟩
  have hreturned := hs.obeys i
  rw [hresult] at hreturned
  obtain ⟨howing, hstopped⟩ : Returned (s i) := hreturned
  cases hcourse.course with
  | unmoved _ quiet => exact ⟨quiet.log, quiet.checks⟩
  | quiet _ quiet => exact ⟨quiet.log, quiet.checks⟩
  | posted hstanding => exact absurd hstanding (by simp [howing, hstopped])

section Example

/-- The press, up to the safety check before its event; then the emergency stop. -/
def pressMoves : List (Bool × InputChoice ℤ) :=
  [.completes, .points ⟨5, 5⟩, .completes, .points ⟨5, 5⟩, .completes, .completes].map (true, ·) ++
    [(false, .completes)]

def stopMoves : List (Bool × InputChoice ℤ) :=
  [.completes, .completes, .completes, .completes, .completes, .points ⟨5, 5⟩, .completes,
    .completes, .completes, .completes].map (true, ·)

omit [DecidableEq ι] in
theorem interruptedNow_of_check {m : Machine ι ℤ}
    (h : (m.coordinator.active, m.coordinator.interruption.isSome ||
      !m.coordinator.monitorAvailable) = (true, true)) : InterruptedNow m := by
  obtain ⟨hactive, hinterrupted⟩ := Prod.mk.inj h
  refine ⟨hactive, ?_⟩
  rcases Bool.or_eq_true_iff.mp hinterrupted with hsome | hlost
  · exact .inl hsome
  · exact .inr ⟨hactive, by simpa using hlost⟩

def lossLasts (c : InputConfiguration Bool ℤ) (i : Bool) : Bool :=
  match c.1 i with
  | .request (.markMonitor true) _ => c.2.coordinator.interruption.isSome
  | _ => true

theorem lossLasts_of_check (c : InputConfiguration Bool ℤ) (i : Bool)
    (h : lossLasts c i = true) : LossLasts c i := by
  rintro ⟨k, hnext⟩
  rwa [lossLasts, hnext] at h

/-- The emergency stop comes right before the event is posted: the button goes down and up. -/
theorem interrupted_action_stops_press : ∃ start c,
    Pool.Run inputExec (fun _ _ => True) (inputPrograms pressAndStop, .initial true) start ∧
    InterruptedNow start.2 ∧ Pool.Run inputExec LossLasts start c ∧
    c.1 true = .throw .emergencyStop ∧ c.2.log.length = start.2.log.length + 2 ∧
    Posted start c true := by
  have hfinal : ((Pool.schedule InputOp.apply pressMoves
      (inputPrograms pressAndStop, .initial true)).bind fun start =>
        (Pool.scheduleIf lossLasts InputOp.apply stopMoves start).map fun c =>
          ((start.2.coordinator.active, start.2.coordinator.interruption.isSome ||
            !start.2.coordinator.monitorAvailable), start.2.log.length, c.2.log.length,
            (c.1 true).thrown?)) = some ((true, true), 0, 2, some .emergencyStop) := by
    decide +kernel
  obtain ⟨start, hstart, hrest⟩ := Option.bind_eq_some_iff.mp hfinal
  obtain ⟨c, hc, hlast⟩ := Option.map_eq_some_iff.mp hrest
  obtain ⟨hcheck, hbefore, hafter, herror⟩ : _ ∧ _ ∧ _ ∧ _ := by
    simpa only [Prod.mk.injEq] using hlast
  have hnow := interruptedNow_of_check (Prod.mk.injEq _ _ _ _ ▸ hcheck)
  have hrun : Pool.Run inputExec (fun _ _ => True) _ start :=
    Pool.run_of_schedule (fun x _ _ _ _ _ hx => ⟨x, hx⟩) _ (.refl _) hstart
  have hstop : Pool.Run inputExec LossLasts start c := Pool.run_of_scheduleIf lossLasts_of_check
    (fun x _ _ _ _ _ hx => ⟨x, hx⟩) _ (.refl _) hc
  refine ⟨start, c, hrun, hnow, hstop, Program.eq_throw_of_thrown? herror,
    by rw [hafter, hbefore], ?_⟩
  · have halone : ∀ j, j ≠ true → ∃ event, pressAndStop j = .occurrence event := by
      intro j hj
      cases j with
      | true => exact absurd rfl hj
      | false => exact ⟨_, rfl⟩
    exact (interrupted_action_stops halone hrun hnow hstop).1

def scrollAndKey : Bool → InputCall ℤ
  | true => .action (.scroll 1 0 none .instant false)
  | false => .occurrence (.observed
      { kind := .key, location := none, owned := false, emergencyChord := false })

def isEmitting : InputM ℤ (ComputerActionResult ℤ) → Bool
  | .request (.emit _) _ => true
  | _ => false

def pressAndMonitor : Option Bool → InputCall ℤ
  | none => .action (.mouseDown .left)
  | some available => .occurrence (.monitor available)

/-- An interruption after the last safety check is not noticed, and the action returns; nor is
the loss of the monitor between two safety checks, and the action posts further events. -/
theorem interrupted_action_goes_on :
    (∃ start c, Pool.Run inputExec (fun _ _ => True)
        (inputPrograms scrollAndKey, .initial true) start ∧
      InterruptedNow start.2 ∧ Pool.Run inputExec LossLasts start c ∧
      ∃ result, c.1 true = .pure result) ∧
    (∃ start c, Pool.Run inputExec (fun _ _ => True)
        (inputPrograms pressAndMonitor, .initial true) start ∧
      InterruptedNow start.2 ∧ Pool.Run inputExec (fun _ _ => True) start c ∧
      ¬ Posted start c none) := by
  constructor
  · have hfinal : ((Pool.schedule InputOp.apply
        ([.completes, .points ⟨5, 5⟩, .completes, .completes, .completes, .completes,
          .completes].map (true, ·) ++ [(false, .completes)])
        (inputPrograms scrollAndKey, .initial true)).bind fun start =>
          (Pool.scheduleIf lossLasts InputOp.apply
            ([.points ⟨5, 5⟩, .completes, .completes].map (true, ·)) start).map fun c =>
            ((start.2.coordinator.active, start.2.coordinator.interruption.isSome ||
              !start.2.coordinator.monitorAvailable), (c.1 true).outcome?.map Except.isOk)) =
        some ((true, true), some true) := by
      decide +kernel
    obtain ⟨start, hstart, hrest⟩ := Option.bind_eq_some_iff.mp hfinal
    obtain ⟨c, hc, hlast⟩ := Option.map_eq_some_iff.mp hrest
    obtain ⟨hcheck, hok⟩ := Prod.mk.inj hlast
    refine ⟨start, c, Pool.run_of_schedule (fun x _ _ _ _ _ hx => ⟨x, hx⟩) _ (.refl _) hstart,
      interruptedNow_of_check hcheck, Pool.run_of_scheduleIf lossLasts_of_check
        (fun x _ _ _ _ _ hx => ⟨x, hx⟩) _ (.refl _) hc, ?_⟩
    cases hend : c.1 true with
    | pure result => exact ⟨result, rfl⟩
    | throw error => rw [hend] at hok; cases hok
    | request o k => rw [hend] at hok; cases hok
  · have hfinal : ((Pool.schedule InputOp.apply
        ([.completes, .points ⟨5, 5⟩, .completes].map (none, ·) ++ [(some false, .completes)])
        (inputPrograms pressAndMonitor, .initial true)).bind fun start =>
          (Pool.schedule InputOp.apply ((some true, .completes) ::
            [.points ⟨5, 5⟩, .completes, .completes, .completes].map (none, ·)) start).map fun c =>
            ((start.2.coordinator.active, start.2.coordinator.interruption.isSome ||
              !start.2.coordinator.monitorAvailable), isEmitting (start.1 none), start.2.log.length, c.2.log.map InputEvent.isRelease)) =
        some ((true, true), false, 0, [false]) := by
      decide +kernel
    obtain ⟨start, hstart, hrest⟩ := Option.bind_eq_some_iff.mp hfinal
    obtain ⟨c, hc, hlast⟩ := Option.map_eq_some_iff.mp hrest
    obtain ⟨hcheck, hnext, hbefore, hafter⟩ : _ ∧ _ ∧ _ ∧ _ := by
      simpa only [Prod.mk.injEq] using hlast
    refine ⟨start, c, Pool.run_of_schedule (fun x _ _ _ _ _ hx => ⟨x, hx⟩) _ (.refl _) hstart,
      interruptedNow_of_check (Prod.mk.injEq _ _ _ _ ▸ hcheck),
      Pool.run_of_schedule (fun x _ _ _ _ _ hx => ⟨x, hx⟩) _ (.refl _) hc, ?_⟩
    rintro ⟨late, releases, hlog, hreleases, rfl | ⟨event, k, hemit, -⟩⟩
    · rw [List.length_eq_zero_iff.mp hbefore, List.append_nil, List.nil_append] at hlog
      rw [hlog] at hafter
      obtain ⟨event, hevent, hnot⟩ := List.mem_map.mp
        (hafter ▸ List.mem_singleton_self false : false ∈ releases.map InputEvent.isRelease)
      rw [hreleases event hevent] at hnot
      cases hnot
    · rw [hemit] at hnext
      cases hnext

end Example

end InputControl
