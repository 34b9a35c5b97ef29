import ChatgptSystem.Native.InputRun

/-!
# No input is left held

While the lane is free, the held inputs are exactly those whose last event has pressed them. An
action that fails releases everything that is held before it gives the lane back, provided that
the events that release something can be posted and the pointer can be read.

* `Releasable` — what the system grants the action; `releasableExec` — the steps under it;
* `ReleaseView`, `releaseMonitor` — what the action knows about the held inputs from its own
  snapshot on;
* `no_input_left_held` — both properties.
-/

open Interleaving

namespace InputControl

variable {ι D : Type} [DecidableEq ι] [DoubleArithmetic D]

/-- Events that release something can be posted, and the pointer can be read. -/
def Releasable : (o : InputOp D) → o.Res → Prop
  | .emit event, outcome => event.isRelease = true → outcome = .ok ()
  | .currentPointerPosition, outcome => ∃ point, outcome = .ok point ∧ point.isFinite = true
  | _, _ => True

/-- The steps of the calls when the system grants this to the call `i`. -/
def releasableExec (i call : ι) : Exec (InputOp D) InputOp.Res (Machine ι D) :=
  fun o m r m' => inputExec call o m r m' ∧ (call = i → Releasable o r)

/-! ## What a failing action knows -/

structure ReleaseView where
  acquired : Bool
  /-- The held inputs, from the last snapshot on. -/
  view : Option HeldInputState
  /-- The held inputs when the lane was released. -/
  atRelease : Option HeldInputState

def ReleaseView.next (v : ReleaseView) : (o : InputOp D) → o.Res → ReleaseView
  | .acquire, _ => { v with acquired := true, view := none }
  | .resume, _ => { v with view := none }
  | .snapshot, held => { v with view := some held }
  | .insert input, _ => { v with view := v.view.map fun held => held.insert input }
  | .remove input, _ => { v with view := v.view.map fun held => held.remove input }
  | .release, _ => { v with atRelease := v.view }
  | _, _ => v

/-- A snapshot agrees with what the action knows already. -/
def ReleaseView.answers (v : ReleaseView) : (o : InputOp D) → o.Res → Prop
  | .snapshot, held => HeldInputState.KeyCodesPlain held ∧
    ∀ known, v.view = some known → held = known
  | o, r => Releasable o r

def releaseMonitor : Monitor (InputOp D) InputOp.Res ReleaseView where
  allowed _ _ := True
  answers := ReleaseView.answers
  next := ReleaseView.next

/-- The view of the action, which has not released the lane yet. -/
def Knows (held : HeldInputState) (v : ReleaseView) : Prop := v.view = some held

def NoError (_ : InputError) (_ : ReleaseView) : Prop := False

section Release

variable {α : Type} {held : HeldInputState} {v : ReleaseView} {event : InputEvent D}
  {input : HeldInput} {firstError : Option InputError}

theorem obeys_lift (h : event.edge = some (input, false)) (hv : Knows held v) :
    ((emit event).bind fun _ => remove input).Obeys releaseMonitor
      (fun _ => Knows (held.remove input)) NoError v := by
  refine ⟨trivial, fun r hr => ?_⟩
  obtain rfl : r = .ok () := hr (by rw [InputEvent.isRelease, h]; rfl)
  refine ⟨trivial, fun _ _ => ?_⟩
  show v.view.map _ = _
  rw [hv]
  rfl

theorem obeys_attempting {p : InputM D Unit} {Q : ReleaseView → Prop}
    (h : p.Obeys releaseMonitor (fun _ => Q) NoError v) :
    (attempting firstError p).Obeys releaseMonitor (fun error w => error = firstError ∧ Q w)
      NoError v :=
  .bind (.attempt (h.mono (fun _ _ hw => ⟨rfl, hw⟩) fun _ _ => False.elim))

theorem obeys_releaseKeys (activeModifiers : List ComputerKeyModifier) :
    ∀ (keyCodes : List ℕ) {held : HeldInputState} {v : ReleaseView},
      (∀ keyCode ∈ keyCodes, KeyMapping.modifier? keyCode = none) → Knows held v →
      (releaseKeys activeModifiers keyCodes firstError : InputM D _).Obeys releaseMonitor
        (fun error => fun w => error = firstError ∧
          Knows { held with keyCodes := held.keyCodes.filter (· ∉ keyCodes) } w) NoError v
  | [], held, v, _, hv => ⟨rfl, by simpa [Knows] using hv⟩
  | keyCode :: keyCodes, held, v, hplain, hv => by
    refine .bind ((obeys_attempting (obeys_lift (edge_keyCode
      (hplain keyCode List.mem_cons_self) false activeModifiers) hv)).mono ?_ fun _ _ h => h)
    rintro error w ⟨herror, hw⟩
    rw [herror]
    refine (obeys_releaseKeys activeModifiers keyCodes (fun code hcode =>
      hplain code (List.mem_cons_of_mem _ hcode)) hw).mono (fun error w hw => ?_) fun _ _ h => h
    simpa [HeldInputState.remove, List.filter_filter, Bool.and_comm] using hw

theorem obeys_releaseModifiers :
    ∀ (order : List ComputerKeyModifier) {held : HeldInputState} {v : ReleaseView},
      Knows held v →
      (releaseModifiers order held.modifiers firstError : InputM D _).Obeys releaseMonitor
        (fun error => fun w => error = firstError ∧
          Knows { held with modifiers := held.modifiers.filter (· ∉ order) } w) NoError v
  | [], held, v, hv => ⟨rfl, by simpa [Knows] using hv⟩
  | modifier :: order, held, v, hv => by
    rw [releaseModifiers]
    split
    · refine .bind (.attempt ((obeys_lift (edge_modifier modifier false _) hv).mono ?_
        fun _ _ => False.elim))
      intro _ w hw
      refine (obeys_releaseModifiers order hw).mono (fun error w hw => ?_) fun _ _ h => h
      simpa [HeldInputState.remove, List.filter_filter, Bool.and_comm] using hw
    next habsent =>
      refine (obeys_releaseModifiers order hv).mono (fun error w hw => ?_) fun _ _ h => h
      have hsame : held.modifiers.filter (fun m => m ∉ modifier :: order) =
          held.modifiers.filter (fun m => m ∉ order) := by
        refine List.filter_congr fun m hm => ?_
        have hne : m ≠ modifier := fun heq => habsent (heq ▸ hm)
        simp [hne]
      rwa [hsame]

theorem obeys_releaseMouseButtons (buttons : List ComputerMouseButton) (point : ComputerPoint D) :
    ∀ (order : List ComputerMouseButton) {held : HeldInputState} {v : ReleaseView},
      Knows held v →
      (releaseMouseButtons buttons point order firstError).Obeys releaseMonitor
        (fun error => fun w => error = firstError ∧
          Knows { held with mouseButtons :=
            held.mouseButtons.filter fun b => ¬ (b ∈ order ∧ b ∈ buttons) } w) NoError v
  | [], held, v, hv => ⟨rfl, by simpa [Knows] using hv⟩
  | button :: order, held, v, hv => by
    rw [releaseMouseButtons]
    split
    next hpresent =>
      refine .bind ((obeys_attempting (obeys_lift rfl hv)).mono ?_ fun _ _ h => h)
      rintro error w ⟨herror, hw⟩
      rw [herror]
      refine (obeys_releaseMouseButtons buttons point order hw).mono (fun error w hw => ?_)
        fun _ _ h => h
      have hsame : (held.mouseButtons.filter fun b => ¬ (b ∈ button :: order ∧ b ∈ buttons)) =
          (held.remove (.mouseButton button)).mouseButtons.filter fun b =>
            ¬ (b ∈ order ∧ b ∈ buttons) := by
        rw [HeldInputState.remove, List.filter_filter]
        refine List.filter_congr fun b hb => ?_
        by_cases heq : b = button
        · subst heq
          simp [hpresent]
        · simp [heq]
      rw [hsame]
      exact hw
    next habsent =>
      refine (obeys_releaseMouseButtons buttons point order hv).mono (fun error w hw => ?_)
        fun _ _ h => h
      have hsame : (held.mouseButtons.filter fun b => ¬ (b ∈ button :: order ∧ b ∈ buttons)) =
          held.mouseButtons.filter fun b => ¬ (b ∈ order ∧ b ∈ buttons) := by
        refine List.filter_congr fun b hb => ?_
        by_cases heq : b = button
        · subst heq
          simp [habsent]
        · simp [heq]
      rwa [hsame]

theorem obeys_snapshot {f : HeldInputState → InputM D α} {Q : α → ReleaseView → Prop}
    {E : InputError → ReleaseView → Prop}
    (h : ∀ held w, held.KeyCodesPlain → (∀ known, v.view = some known → held = known) →
      Knows held w → (f held).Obeys releaseMonitor Q E w) :
    (snapshot.bind f).Obeys releaseMonitor Q E v :=
  ⟨trivial, fun r hr => h r _ hr.1 hr.2 rfl⟩

theorem obeys_releaseAllInputsWithinLane (v : ReleaseView) :
    (releaseAllInputsWithinLane : InputM D Unit).Obeys releaseMonitor
      (fun _ w => ∃ held, Knows held w ∧ held.isEmpty = true) NoError v := by
  unfold releaseAllInputsWithinLane
  refine obeys_snapshot fun first w₁ hplain _ hw₁ => .bind ?_
  have hsorted : ∀ keyCode ∈ first.keyCodes.insertionSort (· ≤ ·),
      KeyMapping.modifier? keyCode = none :=
    fun keyCode hcode => hplain keyCode ((List.mem_insertionSort _).mp hcode)
  refine (obeys_releaseKeys first.modifiers _ hsorted hw₁).mono ?_ fun _ _ h => h
  rintro keyError w₂ ⟨rfl, hw₂⟩
  refine .bind ((obeys_releaseModifiers KeyMapping.modifierReleaseOrder hw₂).mono ?_ fun _ _ h => h)
  rintro modifierError w₃ ⟨rfl, hw₃⟩
  refine obeys_snapshot fun second w₄ _ hknown hw₄ => ?_
  have hsecond := hknown _ hw₃
  have hkeys : second.keyCodes = [] := by
    rw [hsecond]
    exact List.filter_eq_nil_iff.mpr fun keyCode hcode =>
      by simpa using (List.mem_insertionSort (· ≤ ·)).mpr hcode
  have hmodifiers : second.modifiers = [] := by
    rw [hsecond]
    exact List.filter_eq_nil_iff.mpr fun modifier _ => by
      simpa using KeyMapping.mem_modifierReleaseOrder modifier
  split
  next hnone =>
    exact ⟨second, hw₄, by simp [HeldInputState.isEmpty, hkeys, hmodifiers, hnone]⟩
  next =>
    refine .bind (.bind (.attempt ⟨trivial, fun r hr => ?_⟩))
    obtain ⟨point, rfl, hfinite⟩ := hr
    have hfound : (if point.isFinite then Program.pure point else Program.throw .unavailable :
        InputM D (ComputerPoint D)) = .pure point := if_pos hfinite
    show Program.Obeys _ _ _ (if _ then _ else _) _
    rw [hfound]
    refine (obeys_releaseMouseButtons second.mouseButtons point mouseReleaseOrder hw₄).mono ?_
      fun _ _ h => h
    rintro error w₅ ⟨rfl, hw₅⟩
    refine ⟨_, hw₅, ?_⟩
    have hbuttons : ∀ button, button ∈ mouseReleaseOrder := fun button => by
      cases button <;> decide
    simp [HeldInputState.isEmpty, hkeys, hmodifiers, hbuttons]

end Release

/-! ## Whole calls -/

/-- An action that fails after it has taken the lane has released it with nothing held. -/
def ReleasedEmpty (_ : InputError) (v : ReleaseView) : Prop :=
  v.acquired = true → ∃ held, v.atRelease = some held ∧ held.isEmpty = true

section Calls

theorem obeys_acquireLane_release {α : Type} {rest : InputM D α} {Q : α → ReleaseView → Prop}
    {E : InputError → ReleaseView → Prop} {v : ReleaseView}
    (h : ∀ w, rest.Obeys releaseMonitor Q E w) :
    (acquireLane.bind fun _ => rest).Obeys releaseMonitor Q E v := by
  refine ⟨trivial, fun got _ => ?_⟩
  cases got with
  | true => exact h _
  | false => exact ⟨trivial, fun _ _ => h _⟩

theorem obeys_withinLane_release (body : InputM D (ComputerActionResult D)) (v : ReleaseView) :
    (withinLane body).Obeys releaseMonitor (fun _ _ => True) ReleasedEmpty v := by
  refine obeys_acquireLane_release fun v => .bind (.attempt
    ((Program.Obeys.trivial (fun _ _ => trivial) _ v).mono (fun pointer w _ => ?_)
      fun error w _ => ?_))
  all_goals
    refine ⟨trivial, fun _ _ => .tryFinally (.tryCatch (.bind
      ((Program.Obeys.trivial (fun _ _ => trivial) body _).mono (fun result x _ => ?_)
        fun error x _ => ?_)))⟩
    · exact ⟨trivial, fun _ _ => ⟨trivial, fun _ _ => trivial⟩⟩
    · -- the body has failed
      refine .bind (.attempt ((obeys_releaseAllInputsWithinLane x).mono ?_ fun _ _ => False.elim))
      rintro _ y ⟨held, hheld, hempty⟩
      exact ⟨trivial, fun _ _ => ⟨trivial, fun _ _ _ => ⟨held, hheld, hempty⟩⟩⟩

theorem obeys_releaseAllInputs_release (v : ReleaseView) :
    (releaseAllInputs : InputM D (ComputerActionResult D)).Obeys releaseMonitor
      (fun _ _ => True) ReleasedEmpty v := by
  refine obeys_acquireLane_release fun w => .tryCatch (.bind
    ((obeys_releaseAllInputsWithinLane w).mono ?_ fun _ _ => False.elim))
  rintro _ x -
  exact ⟨trivial, fun _ _ => trivial⟩

def ReleaseView.initial : ReleaseView := { acquired := false, view := none, atRelease := none }

theorem InputCall.obeys_release (call : InputCall D) :
    call.program.Obeys releaseMonitor (fun _ _ => True) ReleasedEmpty .initial := by
  have hthrow : ∀ error, (Program.throw error : InputM D (ComputerActionResult D)).Obeys
      releaseMonitor (fun _ _ => True) ReleasedEmpty .initial := fun _ h => nomatch h
  cases call with
  | occurrence event => exact ⟨trivial, fun _ _ => trivial⟩
  | action action =>
    cases action with
    | scroll vertical horizontal point mode contextGuard =>
      show Program.Obeys _ _ _ (if _ then _ else _) _
      split
      · exact hthrow _
      · exact obeys_withinLane_release _ _
    | pressKey name modifiers =>
      show Program.Obeys _ _ _ (pressKey name modifiers) _
      unfold pressKey
      split
      · exact hthrow _
      · exact obeys_withinLane_release _ _
    | releaseAllInputs => exact obeys_releaseAllInputs_release _
    | _ => exact obeys_withinLane_release _ _

end Calls

/-! ## Runs -/

/-- What the action knows is what the shared state says. -/
structure ViewInvariant (c : InputConfiguration ι D) (i : ι) (v : ReleaseView) : Prop where
  obeys : (c.1 i).Obeys releaseMonitor (fun _ _ => True) ReleasedEmpty v
  acquired : c.2.phase i ≠ .outside → v.acquired = true
  view : ∀ held, v.view = some held → (c.2.phase i).hasLane → c.2.heldInputs = held
  atRelease : ∀ held, v.atRelease = some held → c.2.heldAtRelease i = some held

variable {s : ι → Conduct}

theorem ViewInvariant.act {choice : InputChoice D} {i : ι} {o : InputOp D} {m acted : Machine ι D}
    {r : o.Res} {v : ReleaseView} (hphase : (s i).phase = m.phase i) (hallowed : (s i).allowed o)
    (hact : o.act choice i m = some (r, acted))
    (hview : ∀ held, v.view = some held → (m.phase i).hasLane → m.heldInputs = held) :
    (∀ held, (v.next o r).view = some held → ((m.phase i).next o r).hasLane →
      acted.heldInputs = held) ∧
    ((∀ held, v.atRelease = some held → m.heldAtRelease i = some held) →
      ∀ held, (v.next o r).atRelease = some held → acted.heldAtRelease i = some held) := by
  have hframe := framed_of_act hact
  have hlane : (s i).phase.hasLane → (m.phase i).hasLane := fun h => hphase ▸ h
  cases o with
  | acquire => exact ⟨nofun, fun h => (hframe.heldAtRelease nofun).symm ▸ h⟩
  | resume => exact ⟨nofun, fun h => (hframe.heldAtRelease nofun).symm ▸ h⟩
  | snapshot =>
    obtain ⟨rfl, rfl⟩ := Prod.mk.inj (Option.some.inj hact)
    exact ⟨fun held hknown _ => Option.some.inj hknown, id⟩
  | insert input =>
    obtain ⟨rfl, rfl⟩ := Prod.mk.inj (Option.some.inj hact)
    refine ⟨fun held hknown hnext => ?_, id⟩
    obtain ⟨before, hbefore, rfl⟩ := Option.map_eq_some_iff.mp hknown
    exact congrArg (HeldInputState.insert · input) (hview before hbefore hnext)
  | remove input =>
    obtain ⟨rfl, rfl⟩ := Prod.mk.inj (Option.some.inj hact)
    refine ⟨fun held hknown hnext => ?_, id⟩
    obtain ⟨before, hbefore, rfl⟩ := Option.map_eq_some_iff.mp hknown
    exact congrArg (HeldInputState.remove · input) (hview before hbefore hnext)
  | release =>
    obtain ⟨rfl, rfl⟩ := Prod.mk.inj (Option.some.inj hact)
    refine ⟨fun held hknown _ => hview held hknown (hlane hallowed.1), fun _ held hknown => ?_⟩
    exact (Function.update_self ..).trans
      (congrArg some (hview held hknown (hlane hallowed.1)))
  | beginAction expectedPointer =>
    refine ⟨fun held hknown _ => ?_, fun h => (hframe.heldAtRelease nofun).symm ▸ h⟩
    exact (hframe.heldInputs nofun nofun).trans (hview held hknown (hlane (.inl hallowed)))
  | endAction => exact ⟨fun _ _ hnext => absurd hnext (not_hasLane nofun nofun),
      fun h => (hframe.heldAtRelease nofun).symm ▸ h⟩
  | _ =>
    exact ⟨fun held hknown hnext => (hframe.heldInputs nofun nofun).trans (hview held hknown hnext),
      fun h => (hframe.heldAtRelease nofun).symm ▸ h⟩

theorem act_other {choice : InputChoice D} {i j : ι} {o : InputOp D} {m acted : Machine ι D}
    {r : o.Res} (hij : i ≠ j) (hheld : HeldInvariant s m) (hallowed : (s j).allowed o)
    (hact : o.act choice j m = some (r, acted)) :
    (¬ (s j).phase.hasLane → acted.heldInputs = m.heldInputs) ∧
      acted.heldAtRelease i = m.heldAtRelease i := by
  have hframe := framed_of_act hact
  cases o with
  | release =>
    obtain ⟨rfl, rfl⟩ := Prod.mk.inj (Option.some.inj hact)
    exact ⟨fun _ => rfl, Function.update_of_ne hij ..⟩
  | insert input =>
    refine ⟨fun hj => absurd (hheld.pending j ?_) hj, congrFun (hframe.heldAtRelease nofun) i⟩
    rw [show (s j).pending = _ from hallowed]
    exact nofun
  | remove input =>
    refine ⟨fun hj => absurd (hheld.pending j ?_) hj, congrFun (hframe.heldAtRelease nofun) i⟩
    rw [show (s j).pending = _ from hallowed]
    exact nofun
  | _ =>
    exact ⟨fun _ => hframe.heldInputs nofun nofun, congrFun (hframe.heldAtRelease nofun) i⟩

theorem ViewInvariant.step {c c' : InputConfiguration ι D} {i j : ι} {v : ReleaseView}
    (h : ViewInvariant c i v) (hrun : RunInvariant c s)
    (hstep : Pool.Step (releasableExec i) j c c') : ∃ w, ViewInvariant c' i w := by
  cases hstep with
  | @intro pool m o k r m' hpool hexec =>
    obtain ⟨choice, acted, hact, rfl⟩ := inputExec_iff.mp hexec.1
    have hallowed : (s j).allowed o := by
      have hobeys := hrun.obeys j
      rw [show (pool, m).1 j = _ from hpool] at hobeys
      exact hobeys.1
    by_cases hji : j = i
    · subst hji
      have hobeys := h.obeys
      rw [show (pool, m).1 j = _ from hpool] at hobeys
      have hanswers : v.answers o r := by
        have hreleasable := hexec.2 rfl
        cases o with
        | snapshot =>
          obtain ⟨rfl, rfl⟩ := Prod.mk.inj (Option.some.inj hact)
          exact ⟨hrun.held.plain, fun known hknown => h.view known hknown
            (hrun.phase j ▸ hallowed.1)⟩
        | _ => exact hreleasable
      obtain ⟨hview, hrelease⟩ := ViewInvariant.act (hrun.phase j) hallowed hact h.view
      refine ⟨v.next o r, ?_, fun hphase => ?_, fun held hknown hlane => ?_,
        hrelease h.atRelease⟩
      · have hnext := hobeys.2 r hanswers
        rwa [← Function.update_self (f := pool) j (k r)] at hnext
      · simp only [Function.update_self] at hphase
        have hacquired := h.acquired
        cases o with
        | acquire => rfl
        | resume => exact hacquired (by rw [← hrun.phase, show (s j).phase = _ from hallowed]; nofun)
        | release => exact hacquired (by
            rw [← hrun.phase]
            rcases hallowed.1 with hholding | hbegun
            · rw [hholding]; nofun
            · rw [hbegun]; nofun)
        | beginAction expectedPointer =>
          exact hacquired (by rw [← hrun.phase, show (s j).phase = _ from hallowed]; nofun)
        | endAction =>
          exact hacquired (by rw [← hrun.phase, show (s j).phase = _ from hallowed]; nofun)
        | _ => exact hacquired hphase
      · simp only [Function.update_self] at hlane
        exact hview held hknown hlane
    · have hij : i ≠ j := fun heq => hji heq.symm
      obtain ⟨hheld, hrelease⟩ := act_other hij hrun.held hallowed hact
      refine ⟨v, ?_, fun hphase => h.acquired ?_, fun held hknown hlane => ?_,
        fun held hknown => ?_⟩
      · simpa [hij] using h.obeys
      · simpa [hij] using hphase
      · simp only [Function.update_of_ne hij] at hlane
        refine (hheld fun hj => hij ?_).trans (h.view held hknown hlane)
        rw [hrun.phase] at hj
        exact hrun.lane.exclusive i j (.inl hlane) (.inl hj)
      · exact hrelease.trans (h.atRelease held hknown)

/-- While the lane is free, the held inputs are those whose last event has pressed them; and an
action that fails after it has taken the lane has released it with nothing held, if the events
that release something can be posted and the pointer can be read. -/
theorem no_input_left_held (calls : ι → InputCall D) (monitorAvailable : Bool) :
    (∀ c, Pool.Run inputExec (fun _ _ => True)
        (inputPrograms calls, .initial monitorAvailable) c → c.2.lane.busy = false →
      ∀ input, c.2.heldInputs.Holds input ↔ lastDown c.2.log input) ∧
    (∀ i c, Pool.Run (releasableExec i) (fun _ _ => True)
        (inputPrograms calls, .initial monitorAvailable) c →
      ∀ error, c.1 i = .throw error → c.2.phase i ≠ .outside →
      ∃ held, c.2.heldAtRelease i = some held ∧ held.isEmpty = true) := by
  constructor
  · intro c hrun hfree
    obtain ⟨s, hs⟩ := runInvariant_of_run hrun
    refine hs.held.free fun i hi => ?_
    rw [hs.phase] at hi
    exact (hs.lane.free hfree).2 i (.inl hi)
  · intro i c hrun error herror hacquired
    have hboth : (∃ s, RunInvariant c s) ∧ ∃ v, ViewInvariant c i v := by
      clear herror hacquired
      induction hrun with
      | refl =>
        exact ⟨⟨_, .initial calls monitorAvailable⟩, .initial, (calls i).obeys_release,
          fun h => absurd rfl h, nofun, nofun⟩
      | step _ _ hstep ih =>
        obtain ⟨⟨s, hs⟩, v, hv⟩ := ih
        exact ⟨hs.step (fun _ _ _ _ _ hx => hx.1) hstep, hv.step hs hstep⟩
    obtain ⟨-, v, hv⟩ := hboth
    have hempty := hv.obeys
    rw [herror] at hempty
    obtain ⟨held, hrelease, hheld⟩ := hempty (hv.acquired hacquired)
    exact ⟨held, hv.atRelease held hrelease, hheld⟩

section Example

def pressAndStop : Bool → InputCall ℤ
  | true => .action (.mouseDown .left)
  | false => .occurrence .emergencyStop

/-- Every operation completes, and the pointer is where the schedule says. -/
def applyReleasable : Option (ComputerPoint ℤ) → Bool → (o : InputOp ℤ) → Machine Bool ℤ →
    Option (o.Res × Machine Bool ℤ)
  | none, i, o, m => o.apply .completes i m
  | some point, i, o, m => o.apply (.points point) i m

theorem releasableExec_of_applyReleasable (position : Option (ComputerPoint ℤ)) (i : Bool)
    (o : InputOp ℤ) (m : Machine Bool ℤ) (r : o.Res) (m' : Machine Bool ℤ)
    (h : applyReleasable position i o m = some (r, m')) : releasableExec true i o m r m' := by
  cases position with
  | none =>
    refine ⟨⟨_, h⟩, fun _ => ?_⟩
    cases o with
    | emit event =>
      obtain ⟨rfl, -⟩ := Prod.mk.inj (Option.some.inj h)
      exact fun _ => rfl
    | currentPointerPosition => cases h
    | _ => trivial
  | some point =>
    refine ⟨⟨_, h⟩, fun _ => ?_⟩
    cases o with
    | emit event => cases h
    | currentPointerPosition =>
      obtain ⟨rfl, -⟩ := Prod.mk.inj (Option.some.inj h)
      exact ⟨point, rfl, rfl⟩
    | _ => trivial

/-- The button is down when the emergency stop comes, and it is released again. -/
theorem no_input_left_held_press : ∃ c,
    Pool.Run (releasableExec true) (fun _ _ => True)
      (inputPrograms pressAndStop, .initial true) c ∧
    c.1 true = .throw .emergencyStop ∧ c.2.lane.busy = false ∧ c.2.log.length = 2 ∧
    (∃ held, c.2.heldAtRelease true = some held ∧ held.isEmpty = true) ∧
    ∀ input, c.2.heldInputs.Holds input ↔ lastDown c.2.log input := by
  have hfinal : (Pool.schedule applyReleasable
      [(true, none), (true, some ⟨5, 5⟩), (true, none), (true, some ⟨5, 5⟩), (true, none),
        (true, none), (true, none), (true, none), (false, none), (true, none), (true, none),
        (true, none), (true, some ⟨5, 5⟩), (true, none), (true, none), (true, none), (true, none)]
      (inputPrograms pressAndStop, .initial true)).map (fun c =>
        ((c.1 true).thrown?, c.2.phase true, c.2.lane.busy, c.2.log.length)) =
      some (some .emergencyStop, .ended, false, 2) := by
    decide +kernel
  obtain ⟨c, hc, hlast⟩ := Option.map_eq_some_iff.mp hfinal
  obtain ⟨herror, hphase, hfree, hlog⟩ : _ ∧ _ ∧ _ ∧ _ := by
    simpa only [Prod.mk.injEq] using hlast
  have hrun : Pool.Run (releasableExec true) (fun _ _ => True) _ c := Pool.run_of_schedule
    releasableExec_of_applyReleasable _ (.refl _) hc
  have hthrow : c.1 true = .throw .emergencyStop := Program.eq_throw_of_thrown? herror
  have hplain : Pool.Run inputExec (fun _ _ => True) _ c := Pool.run_of_schedule
    (fun x i o m r m' hx => (releasableExec_of_applyReleasable x i o m r m' hx).1) _ (.refl _) hc
  refine ⟨c, hrun, hthrow, hfree, hlog, ?_, ?_⟩
  · exact (no_input_left_held pressAndStop true).2 true c hrun _ hthrow (by rw [hphase]; nofun)
  · exact (no_input_left_held pressAndStop true).1 c hplain hfree

end Example

end InputControl
