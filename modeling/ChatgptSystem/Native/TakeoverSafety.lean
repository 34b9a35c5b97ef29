import ChatgptSystem.Native.InputRun
import Mathlib.Data.Fintype.Option

/-!
# Takeover across queued actions

An action releases the lane before it ends its safety action. The next action may take the lane
and begin in between; the end of the first one then deactivates the coordinator for the second
one, and a takeover by the user is not noticed any more.

* `TakeoverSeen` — for the action that has the lane and has begun, the coordinator is active, and
  what the user has done since is seen by its next safety check;
* `BeginsAlone` — no action begins while another one has released the lane and not ended;
* `takeoverSeen_of_run` — under that condition nothing is lost.
-/

open Interleaving

namespace InputControl

variable {ι D : Type} [DecidableEq ι] [DoubleArithmetic D]

/-- The coordinator is active for the action that has the lane and has begun, and a takeover or an
emergency stop that has happened since then makes the next safety check fail. -/
def TakeoverSeen (m : Machine ι D) : Prop :=
  ∀ i, m.phase i = .begun → m.coordinator.active = true ∧
    (m.takenOver i = true → ∃ error, m.coordinator.checkForInterruption = .error error)

/-- If the next operation of the call begins its safety action, then every action that has
released the lane has ended its own. -/
def BeginsAlone (c : InputConfiguration ι D) (i : ι) : Prop :=
  ∀ expectedPointer k, c.1 i = .request (.beginAction expectedPointer) k →
    ∀ j, c.2.phase j ≠ .released

/-! ## The coordinator -/

namespace InputSafetyCoordinator

variable {coordinator : InputSafetyCoordinator D}

theorem active_observe (input : ObservedPhysicalInput D) :
    (coordinator.observe input).active = coordinator.active := by
  unfold observe
  repeat' split
  all_goals rfl

theorem expectedPointer_observe (input : ObservedPhysicalInput D) :
    (coordinator.observe input).expectedPointer = coordinator.expectedPointer := by
  unfold observe
  repeat' split
  all_goals rfl

theorem interruption_observe_of_isSome {input : ObservedPhysicalInput D}
    (h : coordinator.interruption.isSome = true) :
    (coordinator.observe input).interruption = coordinator.interruption := by
  have hnone : coordinator.interruption.isNone = false := by
    rw [← Option.not_isSome, h]
    rfl
  simp [observe, hnone]

theorem isSome_interruption_observe {input : ObservedPhysicalInput D}
    (hactive : coordinator.active = true)
    (h : isTakeover coordinator.expectedPointer input = true) :
    (coordinator.observe input).interruption.isSome = true := by
  by_cases hsome : coordinator.interruption.isSome = true
  · rwa [interruption_observe_of_isSome hsome]
  · have hnone : coordinator.interruption.isNone = true := by
      rwa [← Option.not_isSome, Bool.not_eq_true', ← Bool.not_eq_true]
    simp only [isTakeover, Bool.and_eq_true, Bool.not_eq_true', Bool.or_eq_true,
      decide_eq_true_eq] at h
    obtain ⟨howned, hinput⟩ := h
    simp only [observe, hactive, hnone, howned, Bool.and_self, Bool.not_true, Bool.false_eq_true,
      if_false]
    split
    · rfl
    next hchord =>
      cases hkind : input.kind with
      | pointerMoved =>
        rcases hinput with (hc | hk) | hstrays
        · exact absurd hc hchord
        · exact absurd hkind hk
        · simp [hstrays]
      | _ => rfl

section

omit [DoubleArithmetic D]

theorem isSome_interruption_trigger
    (h : coordinator.active = true ∨ coordinator.interruption.isSome = true) :
    coordinator.triggerEmergencyStop.interruption.isSome = true := by
  unfold triggerEmergencyStop
  split
  · rfl
  next hnot =>
    rcases h with hactive | hsome
    · rw [hactive, Bool.true_and, ← Option.not_isSome, Bool.not_eq_true', Bool.not_eq_false] at hnot
      exact hnot
    · exact hsome

theorem active_trigger : coordinator.triggerEmergencyStop.active = coordinator.active := by
  unfold triggerEmergencyStop
  split <;> rfl

theorem expectedPointer_trigger :
    coordinator.triggerEmergencyStop.expectedPointer = coordinator.expectedPointer := by
  unfold triggerEmergencyStop
  split <;> rfl

theorem check_of_isSome (h : coordinator.interruption.isSome = true) :
    ∃ error, coordinator.checkForInterruption = .error error := by
  obtain ⟨interruption, hi⟩ := Option.isSome_iff_exists.mp h
  unfold checkForInterruption
  split
  · exact ⟨_, rfl⟩
  · exact ⟨interruption.toError, by rw [hi]⟩

end

end InputSafetyCoordinator

/-! ## The invariant -/

structure SetUp (m : Machine ι D) (i : ι) : Prop where
  active : m.coordinator.active = true
  expects : m.coordinator.expectedPointer = m.expects i
  interrupted : m.takenOver i = true → m.coordinator.interruption.isSome = true

structure SafetyInvariant (m : Machine ι D) : Prop where
  setUp : ∀ i, m.phase i = .begun → SetUp m i
  alone : ∀ i j, m.phase i = .begun → m.phase j ≠ .released

section

omit [DecidableEq ι] [DoubleArithmetic D]

theorem SafetyInvariant.congr {m m' : Machine ι D} (h : SafetyInvariant m)
    (hbegun : ∀ i, m'.phase i = .begun → m.phase i = .begun)
    (hreleased : ∀ i, m'.phase i = .released → m.phase i = .released)
    (hcoordinator : m'.coordinator = m.coordinator) (hexpects : m'.expects = m.expects)
    (htakenOver : m'.takenOver = m.takenOver) : SafetyInvariant m' := by
  refine ⟨fun i hi => ?_, fun i j hi hj => h.alone i j (hbegun i hi) (hreleased j hj)⟩
  have hold := h.setUp i (hbegun i hi)
  exact ⟨hcoordinator ▸ hold.active, by rw [hcoordinator, hexpects]; exact hold.expects,
    by rw [hcoordinator, htakenOver]; exact hold.interrupted⟩

theorem SafetyInvariant.occurrence {m m' : Machine ι D} (h : SafetyInvariant m)
    (hphase : m'.phase = m.phase) (hsetUp : ∀ i, m.phase i = .begun → SetUp m i → SetUp m' i) :
    SafetyInvariant m' := by
  refine ⟨fun i hi => ?_, fun i j hi => ?_⟩
  · rw [hphase] at hi
    exact hsetUp i hi (h.setUp i hi)
  · rw [hphase] at hi ⊢
    exact h.alone i j hi

end

theorem SafetyInvariant.act {choice : InputChoice D} {i : ι} {o : InputOp D}
    {m acted : Machine ι D} {r : o.Res} {s : Conduct} (h : SafetyInvariant m)
    (hlane : LaneInvariant m.lane m.phase) (hs : s.phase = m.phase i) (hallowed : s.allowed o)
    (hact : o.act choice i m = some (r, acted))
    (hbegins : ∀ expectedPointer, o = .beginAction expectedPointer →
      ∀ j, m.phase j ≠ .released) :
    SafetyInvariant
      { acted with phase := Function.update m.phase i ((m.phase i).next o r) } := by
  have hframe := framed_of_act hact
  have hsole : (m.phase i).hasLane → ∀ j, j ≠ i → m.phase j ≠ .begun := by
    intro hi j hij hj
    exact hij (hlane.exclusive j i (.inl (.inr hj)) (.inl hi))
  -- the phases that an operation does not lead to
  have hphases : ∀ phase, (m.phase i).next o r ≠ phase → ∀ j,
      Function.update m.phase i ((m.phase i).next o r) j = phase → m.phase j = phase := by
    intro phase hne j hj
    by_cases hij : j = i
    · subst hij
      rw [Function.update_self] at hj
      exact absurd hj hne
    · rwa [Function.update_of_ne hij] at hj
  have hquiet : (m.phase i).next o r = m.phase i → ∀ m' : Machine ι D,
      m'.phase = Function.update m.phase i ((m.phase i).next o r) → m'.phase = m.phase := by
    intro hsame m' hm'
    rw [hm', hsame, Function.update_eq_self]
  cases o with
  | acquire =>
    have hnext : ∀ phase : Phase, phase = .begun ∨ phase = .released →
        (m.phase i).next (.acquire : InputOp D) r ≠ phase := by
      rintro phase (rfl | rfl) <;> cases r <;> exact nofun
    exact h.congr (hphases _ (hnext _ (.inl rfl))) (hphases _ (hnext _ (.inr rfl)))
      (hframe.coordinator nofun) (hframe.expects nofun) (hframe.takenOver nofun)
  | resume =>
    exact h.congr (hphases _ nofun) (hphases _ nofun) (hframe.coordinator nofun)
      (hframe.expects nofun) (hframe.takenOver nofun)
  | release =>
    have hlaneOf : (m.phase i).hasLane := hs ▸ hallowed.1
    have hnone : ∀ j, Function.update m.phase i ((m.phase i).next (.release : InputOp D) r) j ≠
        .begun := by
      intro j hj
      by_cases hij : j = i
      · subst hij
        rw [Function.update_self] at hj
        revert hj
        show (if _ then _ else _ : Phase) ≠ _
        split <;> exact nofun
      · rw [Function.update_of_ne hij] at hj
        exact hsole hlaneOf j hij hj
    exact ⟨fun j hj => absurd hj (hnone j), fun j k hj => absurd hj (hnone j)⟩
  | beginAction expectedPointer =>
    have hlaneOf : (m.phase i).hasLane := .inl (hs.symm.trans hallowed)
    obtain ⟨rfl, rfl⟩ := Prod.mk.inj (Option.some.inj hact)
    refine ⟨fun j hj => ?_, fun j k _ hk => ?_⟩
    · by_cases hij : j = i
      · subst hij
        exact ⟨rfl, by simp [InputSafetyCoordinator.beginAction], by simp⟩
      · exact absurd ((Function.update_of_ne hij _ _).symm.trans hj) (hsole hlaneOf j hij)
    · exact hbegins _ rfl k (hphases .released nofun k hk)
  | updateExpectedPointer point =>
    have hbegun : m.phase i = .begun := hs.symm.trans hallowed
    obtain ⟨rfl, rfl⟩ := Prod.mk.inj (Option.some.inj hact)
    refine h.occurrence (hquiet rfl _ rfl) fun j hj hold => ?_
    have hij : j = i := by
      by_contra hij
      exact hsole (.inr hbegun) j hij hj
    subst hij
    have hactive := hold.active
    refine ⟨?_, ?_, ?_⟩ <;>
      simp only [InputSafetyCoordinator.updateExpectedPointer, hactive, if_true,
        Function.update_self]
    exact hold.interrupted
  | endAction =>
    have hreleased : m.phase i = .released := hs.symm.trans hallowed
    have hnone : ∀ j, Function.update m.phase i ((m.phase i).next (.endAction : InputOp D) r) j ≠
        .begun := fun j hj => h.alone j i (hphases .begun nofun j hj) hreleased
    exact ⟨fun j hj => absurd hj (hnone j), fun j k hj => absurd hj (hnone j)⟩
  | observe input =>
    obtain ⟨rfl, rfl⟩ := Prod.mk.inj (Option.some.inj hact)
    refine h.occurrence (hquiet rfl _ rfl) fun j hj hold => ?_
    refine ⟨(InputSafetyCoordinator.active_observe input).trans hold.active,
      (InputSafetyCoordinator.expectedPointer_observe input).trans hold.expects, fun htaken => ?_⟩
    rcases Bool.or_eq_true_iff.mp htaken with hbefore | hnow
    · have hsome := hold.interrupted hbefore
      exact (InputSafetyCoordinator.interruption_observe_of_isSome hsome).symm ▸ hsome
    · obtain ⟨-, htakeover⟩ := Bool.and_eq_true_iff.mp hnow
      exact InputSafetyCoordinator.isSome_interruption_observe hold.active
        (hold.expects.symm ▸ htakeover)
  | triggerEmergencyStop =>
    obtain ⟨rfl, rfl⟩ := Prod.mk.inj (Option.some.inj hact)
    refine h.occurrence (hquiet rfl _ rfl) fun j hj hold => ?_
    exact ⟨InputSafetyCoordinator.active_trigger.trans hold.active,
      InputSafetyCoordinator.expectedPointer_trigger.trans hold.expects,
      fun _ => InputSafetyCoordinator.isSome_interruption_trigger (.inl hold.active)⟩
  | markMonitor available =>
    obtain ⟨rfl, rfl⟩ := Prod.mk.inj (Option.some.inj hact)
    exact h.occurrence (hquiet rfl _ rfl) fun j hj hold =>
      ⟨hold.active, hold.expects, hold.interrupted⟩
  | _ =>
    have hsame : ∀ j, Function.update m.phase i (m.phase i) j = m.phase j := fun j => by
      rw [Function.update_eq_self]
    exact h.congr (fun j hj => (hsame j).symm.trans hj) (fun j hj => (hsame j).symm.trans hj)
      (hframe.coordinator nofun) (hframe.expects nofun) (hframe.takenOver nofun)

/-! ## Runs -/

/-- In every run in which actions begin only when all those that have released the lane have
ended, a takeover or an emergency stop is seen by the action it happens to. -/
theorem takeoverSeen_of_run {calls : ι → InputCall D} {monitorAvailable : Bool}
    {c : InputConfiguration ι D}
    (hrun : Pool.Run inputExec BeginsAlone (inputPrograms calls, .initial monitorAvailable) c) :
    TakeoverSeen c.2 := by
  have hboth : (∃ s, RunInvariant c s) ∧ SafetyInvariant c.2 := by
    induction hrun with
    | refl => exact ⟨⟨_, .initial calls monitorAvailable⟩, ⟨nofun, nofun⟩⟩
    | @step mid last i _ hpermit hstep ih =>
      obtain ⟨⟨s, hs⟩, hsafe⟩ := ih
      obtain ⟨o, k, r, choice, acted, hpool, hallowed, hact, rfl, hs'⟩ := hs.inversion hstep
      refine ⟨⟨_, hs'⟩, hsafe.act hs.lane (hs.phase i) hallowed hact ?_⟩
      rintro expectedPointer rfl
      exact hpermit expectedPointer k hpool
  intro i hi
  have hsetUp := hboth.2.setUp i hi
  exact ⟨hsetUp.active, fun htaken =>
    InputSafetyCoordinator.check_of_isSome (hsetUp.interrupted htaken)⟩

section Example

/-- A scroll by nothing, a pressed button, and a key that the user hits. -/
def scrollPressAndKey : Option Bool → InputCall ℤ
  | some true => .action (.scroll 0 0 none .instant false)
  | some false => .action (.mouseDown .left)
  | none => .occurrence (.observed
      { kind := .key, location := none, owned := false, emergencyChord := false })

def scrollMoves : List (Option Bool × InputChoice ℤ) :=
  [.completes, .points ⟨5, 5⟩, .completes, .completes, .points ⟨5, 5⟩].map (some true, ·)

def beginMoves : List (Option Bool × InputChoice ℤ) :=
  [.completes, .points ⟨5, 5⟩, .completes].map (some false, ·)

def beginsAlone (c : InputConfiguration (Option Bool) ℤ) (i : Option Bool) : Bool :=
  match c.1 i with
  | .request (.beginAction _) _ => decide (∀ j, c.2.phase j ≠ .released)
  | _ => true

theorem beginsAlone_of_check (c : InputConfiguration (Option Bool) ℤ) (i : Option Bool)
    (h : beginsAlone c i = true) : BeginsAlone c i := by
  intro expectedPointer k hnext
  rw [beginsAlone, hnext] at h
  exact of_decide_eq_true h

/-- The scroll ends before the press begins; the key is a takeover, and it is seen. -/
theorem takeoverSeen_of_run_scroll : ∃ c,
    Pool.Run inputExec BeginsAlone (inputPrograms scrollPressAndKey, .initial true) c ∧
    c.2.phase (some false) = .begun ∧ c.2.takenOver (some false) = true ∧ TakeoverSeen c.2 := by
  have hfinal : (Pool.scheduleIf beginsAlone InputOp.apply
      (scrollMoves ++ [(some false, .completes), (some true, .completes), (some true, .completes)] ++
        beginMoves ++ [(none, .completes)])
      (inputPrograms scrollPressAndKey, .initial true)).map (fun c =>
        (c.2.phase (some false), c.2.takenOver (some false))) = some (.begun, true) := by
    decide +kernel
  obtain ⟨c, hc, hlast⟩ := Option.map_eq_some_iff.mp hfinal
  obtain ⟨hbegun, htaken⟩ := Prod.mk.inj hlast
  have hrun : Pool.Run inputExec BeginsAlone _ c := Pool.run_of_scheduleIf
    beginsAlone_of_check (fun x _ _ _ _ _ hx => ⟨x, hx⟩) _ (.refl _) hc
  exact ⟨c, hrun, hbegun, htaken, takeoverSeen_of_run hrun⟩

/-- The press begins before the scroll, which has released the lane, ends its safety action. -/
theorem takeover_lost_after_release : ∃ c,
    Pool.Run inputExec (fun _ _ => True) (inputPrograms scrollPressAndKey, .initial true) c ∧
    c.2.phase (some false) = .begun ∧ c.2.takenOver (some false) = true ∧
    c.2.coordinator.checkForInterruption = .ok () ∧ ¬ TakeoverSeen c.2 := by
  have hfinal : (Pool.schedule InputOp.apply
      (scrollMoves ++ [(some false, .completes), (some true, .completes)] ++ beginMoves ++
        [(some true, .completes), (none, .completes)])
      (inputPrograms scrollPressAndKey, .initial true)).map (fun c =>
        (c.2.phase (some false), c.2.takenOver (some false),
          decide (c.2.coordinator.checkForInterruption = .ok ()), c.2.coordinator.active)) =
      some (.begun, true, true, false) := by
    decide +kernel
  obtain ⟨c, hc, hlast⟩ := Option.map_eq_some_iff.mp hfinal
  obtain ⟨hbegun, htaken, hcheck, hinactive⟩ : _ ∧ _ ∧ _ ∧ _ := by
    simpa only [Prod.mk.injEq] using hlast
  refine ⟨c, Pool.run_of_schedule (fun x _ _ _ _ _ hx => ⟨x, hx⟩) _ (.refl _) hc, hbegun, htaken,
    of_decide_eq_true hcheck, fun hseen => ?_⟩
  rw [(hseen _ hbegun).1] at hinactive
  cases hinactive

end Example

end InputControl
