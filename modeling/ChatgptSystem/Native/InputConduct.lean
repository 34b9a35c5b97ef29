import ChatgptSystem.Foundations.Conduct
import ChatgptSystem.Native.InputController

/-!
# The conduct of the actions

What every action keeps to, whatever the system answers: it does its work between taking and
releasing the lane; every event but a release is posted right after a safety check that has
passed, and another check follows; every event that presses or releases something is entered in
the held inputs before anything else is posted.

* `Conduct` — the state that the rules depend on; `inputMonitor` — the rules;
* `Sound` — the rule for the bodies of the actions;
* `InputCall.obeys` — every call keeps to the rules.
-/

open Interleaving

namespace InputControl

inductive SafetyStanding where
  | clear
  /-- Its last operation was a safety check, and it has passed. -/
  | passed
  /-- It has posted an event of its safety action since its last safety check. -/
  | owing
  /-- A safety check has failed. -/
  | stopped
  deriving DecidableEq

structure Conduct where
  phase : Phase
  standing : SafetyStanding
  /-- The input that has been pressed or released and is still to be entered. -/
  pending : Option (HeldInput × Bool)

variable {D : Type}

def SafetyStanding.next (phase : Phase) (standing : SafetyStanding) :
    (o : InputOp D) → o.Res → SafetyStanding
  | .checkForInterruption, .ok () => .passed
  | .checkForInterruption, .error _ => .stopped
  | .emit _, .ok () => if phase = .begun ∧ standing ≠ .stopped then .owing else standing
  | _, _ => if standing = .passed then .clear else standing

def nextPending (pending : Option (HeldInput × Bool)) :
    (o : InputOp D) → o.Res → Option (HeldInput × Bool)
  | .emit event, .ok () => event.edge
  | .insert _, _ => none
  | .remove _, _ => none
  | _, _ => pending

def Conduct.next (s : Conduct) (o : InputOp D) (r : o.Res) : Conduct :=
  { phase := s.phase.next o r
    standing := s.standing.next s.phase o r
    pending := nextPending s.pending o r }

def Phase.hasLane (phase : Phase) : Prop := phase = .holding ∨ phase = .begun

def Conduct.allowed (s : Conduct) : InputOp D → Prop
  | .acquire => s.phase = .outside
  | .resume => s.phase = .waiting
  | .beginAction _ => s.phase = .holding
  | .release => s.phase.hasLane ∧ s.pending = none
  | .endAction => s.phase = .released
  | .checkForInterruption => s.phase = .begun ∧ s.standing ≠ .stopped
  | .updateExpectedPointer _ => s.phase = .begun
  | .emit event =>
    s.phase.hasLane ∧ s.pending = none ∧ (event.isRelease = true ∨ s.standing = .passed)
  | .snapshot => s.phase.hasLane ∧ s.pending = none
  | .insert input => s.pending = some (input, true)
  | .remove input => s.pending = some (input, false)
  | .observe _ | .triggerEmergencyStop | .markMonitor _ => s.phase = .outside
  | _ => True

def HeldInputState.KeyCodesPlain (state : HeldInputState) : Prop :=
  ∀ keyCode ∈ state.keyCodes, KeyMapping.modifier? keyCode = none

def answers : (o : InputOp D) → o.Res → Prop
  | .snapshot, held => HeldInputState.KeyCodesPlain held
  | _, _ => True

def inputMonitor : Monitor (InputOp D) InputOp.Res Conduct where
  allowed := Conduct.allowed
  answers _ := answers
  next := Conduct.next

/-! ## Rules for single operations -/

/-- Inside the body of an action, between two of its parts. -/
inductive Steady : Conduct → Prop where
  | clear : Steady ⟨.begun, .clear, none⟩
  | passed : Steady ⟨.begun, .passed, none⟩

inductive Broken : Conduct → Prop where
  | mk (standing : SafetyStanding) : Broken ⟨.begun, standing, none⟩

/-- A part of an action's body keeps to the rules and owes no check in the end. -/
structure Sound {α : Type} (p : InputM D α) : Prop where
  obeys : ∀ {s}, Steady s → p.Obeys inputMonitor (fun _ => Steady) (fun _ => Broken) s

section Rules

variable {α β : Type} {Q : α → Conduct → Prop} {rest : InputM D α} {standing : SafetyStanding}

theorem Steady.broken {s : Conduct} (h : Steady s) : Broken s := by
  cases h <;> exact .mk _

theorem Sound.pure (a : α) : Sound (.pure a : InputM D α) :=
  ⟨fun hs => hs⟩

theorem Sound.throw (error : InputError) : Sound (.throw error : InputM D α) :=
  ⟨fun hs => hs.broken⟩

theorem Sound.bind {p : InputM D β} {f : β → InputM D α} (hp : Sound p) (hf : ∀ b, Sound (f b)) :
    Sound (p.bind f) :=
  ⟨fun hs => .bind ((hp.obeys hs).mono (fun b _ ht => (hf b).obeys ht) fun _ _ ht => ht)⟩

theorem Sound.ofExcept (outcome : Except InputError α) : Sound (orThrow outcome : InputM D α) := by
  cases outcome with
  | ok a => exact Sound.pure a
  | error error => exact Sound.throw error

theorem Sound.ite {c : Prop} [Decidable c] {p q : InputM D α} (hp : Sound p) (hq : Sound q) :
    Sound (if c then p else q) := by
  split
  · exact hp
  · exact hq

theorem Sound.ask {o : InputOp D} {k : o.Res → InputM D α} (hallowed : ∀ s, Steady s → s.allowed o)
    (hnext : ∀ s r, Steady s → Steady (s.next o r)) (hk : ∀ r, Sound (k r)) :
    Sound (.request o k) :=
  ⟨fun hs => ⟨hallowed _ hs, fun r _ => (hk r).obeys (hnext _ r hs)⟩⟩

theorem obeys_check (hs : standing ≠ .stopped)
    (h : rest.Obeys inputMonitor Q (fun _ => Broken) ⟨.begun, .passed, none⟩) :
    (checkSafety.bind fun _ => rest).Obeys inputMonitor Q (fun _ => Broken)
      ⟨.begun, standing, none⟩ := by
  refine ⟨⟨rfl, hs⟩, fun r _ => ?_⟩
  cases r with
  | ok => exact h
  | error error => exact Broken.mk _

variable {event : InputEvent D} {input : HeldInput}

theorem obeys_emit (h : rest.Obeys inputMonitor Q (fun _ => Broken) ⟨.begun, .owing, event.edge⟩) :
    ((emit event).bind fun _ => rest).Obeys inputMonitor Q (fun _ => Broken)
      ⟨.begun, .passed, none⟩ := by
  refine ⟨⟨.inr rfl, rfl, .inr rfl⟩, fun r _ => ?_⟩
  cases r with
  | ok => exact h
  | error error => exact Broken.mk _

theorem obeys_insert (h : rest.Obeys inputMonitor Q (fun _ => Broken) ⟨.begun, .owing, none⟩) :
    ((insert input).bind fun _ => rest).Obeys inputMonitor Q (fun _ => Broken)
      ⟨.begun, .owing, some (input, true)⟩ :=
  ⟨rfl, fun _ _ => h⟩

theorem obeys_remove (h : rest.Obeys inputMonitor Q (fun _ => Broken) ⟨.begun, .owing, none⟩) :
    ((remove input).bind fun _ => rest).Obeys inputMonitor Q (fun _ => Broken)
      ⟨.begun, .owing, some (input, false)⟩ :=
  ⟨rfl, fun _ _ => h⟩

theorem obeys_checkSafety (hs : standing ≠ .stopped) :
    (checkSafety : InputM D Unit).Obeys inputMonitor (fun _ => Steady) (fun _ => Broken)
      ⟨.begun, standing, none⟩ := by
  refine ⟨⟨rfl, hs⟩, fun r _ => ?_⟩
  cases r with
  | ok => exact Steady.passed
  | error error => exact Broken.mk _

theorem sound_checkSafety : Sound (checkSafety : InputM D Unit) := by
  refine ⟨fun hs => ?_⟩
  cases hs <;> exact obeys_checkSafety nofun

theorem edge_modifier (modifier : ComputerKeyModifier) (down : Bool)
    (modifiers : List ComputerKeyModifier) :
    (InputEvent.key (KeyMapping.modifierKeyCode modifier) down modifiers : InputEvent D).edge =
      some (.modifier modifier, down) := by
  rw [InputEvent.edge, HeldInput.ofKeyCode, KeyMapping.modifier?_modifierKeyCode]

theorem edge_keyCode {keyCode : ℕ} (h : KeyMapping.modifier? keyCode = none) (down : Bool)
    (modifiers : List ComputerKeyModifier) :
    (InputEvent.key keyCode down modifiers : InputEvent D).edge =
      some (.keyCode keyCode, down) := by
  rw [InputEvent.edge, HeldInput.ofKeyCode, h]

theorem sound_edge {entry : InputM D Unit}
    (h : (entry.bind fun _ => checkSafety).Obeys inputMonitor (fun _ => Steady) (fun _ => Broken)
      ⟨.begun, .owing, event.edge⟩) :
    Sound (checkSafety.bind fun _ => (emit event).bind fun _ => entry.bind fun _ =>
      checkSafety) := by
  refine ⟨fun hs => ?_⟩
  cases hs <;> exact obeys_check nofun (obeys_emit h)

theorem sound_press (h : event.edge = some (input, true)) :
    Sound (checkSafety.bind fun _ => (emit event).bind fun _ => (insert input).bind fun _ =>
      checkSafety : InputM D Unit) :=
  sound_edge (h ▸ obeys_insert (obeys_checkSafety nofun))

theorem sound_lift (h : event.edge = some (input, false)) :
    Sound (checkSafety.bind fun _ => (emit event).bind fun _ => (remove input).bind fun _ =>
      checkSafety : InputM D Unit) :=
  sound_edge (h ▸ obeys_remove (obeys_checkSafety nofun))

theorem Sound.andThen {entry : InputM D Unit}
    (h : Sound (checkSafety.bind fun _ => (emit event).bind fun _ => entry.bind fun _ =>
      checkSafety)) (hrest : Sound rest) :
    Sound (checkSafety.bind fun _ => (emit event).bind fun _ => entry.bind fun _ =>
      checkSafety.bind fun _ => rest) := by
  have hbind := h.bind fun _ => hrest
  simpa only [Program.bind_assoc] using hbind

theorem sound_checkCancellation : Sound (checkCancellation : InputM D Unit) := by
  refine .ask (fun _ _ => trivial) (fun s r hs => ?_) fun r => ?_
  · cases hs <;> exact Steady.clear
  · cases r with
    | false => exact Sound.pure ()
    | true => exact Sound.throw _

theorem sound_sleep (nanoseconds : ℕ) : Sound (sleep nanoseconds : InputM D Unit) := by
  refine .ask (fun _ _ => trivial) (fun s r hs => ?_) fun r => .ofExcept r
  cases hs <;> exact Steady.clear

theorem sound_verifyContext (contextGuard : Bool) :
    Sound (verifyContext contextGuard : InputM D Unit) := by
  unfold verifyContext
  refine .ite (sound_checkSafety.bind fun _ => ?_) (.pure ())
  refine Sound.bind (.ask (fun _ _ => trivial) (fun s r hs => ?_) fun r => .ofExcept r)
    fun _ => sound_checkSafety
  cases hs <;> exact Steady.clear

theorem sound_verifyFocus : Sound (verifyFocus : InputM D Unit) := by
  refine sound_checkSafety.bind fun _ => ?_
  refine Sound.bind (.ask (fun _ _ => trivial) (fun s r hs => ?_) fun r => .ofExcept r)
    fun _ => sound_checkSafety
  cases hs <;> exact Steady.clear

theorem sound_emitActionEvent (h : event.edge = none) (expectedPointer : Option (ComputerPoint D)) :
    Sound (emitActionEvent event expectedPointer) := by
  have hafter : ∀ {rest : InputM D Unit}, rest.Obeys inputMonitor (fun _ => Steady)
      (fun _ => Broken) ⟨.begun, .owing, none⟩ →
      Sound (checkSafety.bind fun _ => (emit event).bind fun _ => rest) := by
    refine fun hrest => ⟨fun hs => ?_⟩
    cases hs <;> exact obeys_check nofun (obeys_emit (by rw [h]; exact hrest))
  cases expectedPointer with
  | none => exact hafter (obeys_checkSafety nofun)
  | some point =>
    refine hafter ?_
    exact And.intro rfl fun _ _ => obeys_checkSafety nofun

theorem sound_emitMouseDown (button : ComputerMouseButton) (point : ComputerPoint D)
    (clickCount : ℕ) : Sound (emitMouseDownWithinLane button point clickCount) :=
  sound_checkCancellation.bind fun _ => sound_press rfl

theorem sound_emitMouseUp (button : ComputerMouseButton) (point : ComputerPoint D)
    (clickCount : ℕ) : Sound (emitMouseUpWithinLane button point clickCount) :=
  sound_lift rfl

theorem sound_followSamples (dragButton : Option ComputerMouseButton) (contextGuard : Bool) :
    ∀ (samples : List (PointerTrajectorySample D)) (previousOffset : ℕ),
      Sound (followSamples dragButton contextGuard previousOffset samples)
  | [], _ => Sound.pure ()
  | sample :: samples, previousOffset => by
    have hrest : Sound (checkCancellation.bind fun _ => (verifyContext contextGuard).bind fun _ =>
        (emitActionEvent (.mouseMove sample.point dragButton) (some sample.point)).bind fun _ =>
          followSamples dragButton contextGuard sample.offsetNanoseconds samples) :=
      sound_checkCancellation.bind fun _ => (sound_verifyContext contextGuard).bind fun _ =>
        (sound_emitActionEvent rfl _).bind fun _ =>
          sound_followSamples dragButton contextGuard samples _
    exact sound_checkCancellation.bind fun _ => .ite
      (sound_checkSafety.bind fun _ => (sound_sleep _).bind fun _ =>
        sound_checkSafety.bind fun _ => hrest) hrest

theorem sound_typeChunks : ∀ chunks : List (List Char), Sound (typeChunks chunks : InputM D Unit)
  | [] => Sound.pure ()
  | _ :: chunks =>
    sound_checkCancellation.bind fun _ => sound_verifyFocus.bind fun _ =>
      (sound_emitActionEvent rfl none).bind fun _ => sound_typeChunks chunks

theorem sound_pressModifiers (modifiers : List ComputerKeyModifier) :
    ∀ order activeModifiers : List ComputerKeyModifier,
      Sound (pressModifiers modifiers order activeModifiers : InputM D _)
  | [], _ => Sound.pure _
  | modifier :: order, _ =>
    .ite (sound_checkCancellation.bind fun _ => sound_verifyFocus.bind fun _ =>
      (sound_press (edge_modifier modifier true _)).andThen
        (sound_pressModifiers modifiers order _)) (sound_pressModifiers modifiers order _)

theorem sound_liftModifiers (modifiers : List ComputerKeyModifier) :
    ∀ order activeModifiers : List ComputerKeyModifier,
      Sound (liftModifiers modifiers order activeModifiers : InputM D Unit)
  | [], _ => Sound.pure _
  | modifier :: order, _ =>
    .ite (sound_checkCancellation.bind fun _ => sound_verifyFocus.bind fun _ =>
      (sound_lift (edge_modifier modifier false _)).andThen
        (sound_liftModifiers modifiers order _)) (sound_liftModifiers modifiers order _)

theorem sound_click (target : ComputerPoint D) (button : ComputerMouseButton)
    (clickCount : ℕ) (contextGuard : Bool) {rest : InputM D (ComputerActionResult D)}
    (hrest : Sound rest) :
    Sound ((emitMouseDownWithinLane button target clickCount).bind fun _ =>
      (verifyContext contextGuard).bind fun _ =>
        (emitMouseUpWithinLane button target clickCount).bind fun _ => rest) :=
  (sound_emitMouseDown _ _ _).bind fun _ => (sound_verifyContext _).bind fun _ =>
    (sound_emitMouseUp _ _ _).bind fun _ => hrest

end Rules

/-! ## The bodies of the actions -/

section Bodies

variable [DoubleArithmetic D]

theorem sound_pointerPosition : Sound (pointerPosition : InputM D (ComputerPoint D)) := by
  refine .ask (fun _ _ => trivial) (fun s r hs => ?_) fun r => ?_
  · cases hs <;> exact Steady.clear
  · cases r with
    | error error => exact Sound.throw error
    | ok point => exact .ite (.pure point) (.throw _)

theorem sound_validate (target : ComputerPoint D) : Sound (validate target) := by
  refine .ite (.throw _) (.ask (fun _ _ => trivial) (fun s r hs => ?_) fun r => ?_)
  · cases hs <;> exact Steady.clear
  · cases r with
    | error error => exact Sound.throw error
    | ok displays => exact .ite (.pure ()) (.throw _)

theorem sound_verifyPointerNear (target : ComputerPoint D) : Sound (verifyPointerNear target) :=
  sound_pointerPosition.bind fun _ => .ite (.pure ()) (.throw _)

theorem sound_settle (target : ComputerPoint D) : ∀ checks, Sound (settle target checks)
  | 0 => Sound.throw _
  | checks + 1 =>
    sound_checkCancellation.bind fun _ => sound_checkSafety.bind fun _ =>
      sound_pointerPosition.bind fun _ => .ite (.pure ()) (.ite (.throw _)
        ((sound_sleep _).bind fun _ => sound_settle target checks))

theorem sound_moveMouse (target : ComputerPoint D) (mode : PointerMotionMode)
    (dragButton : Option ComputerMouseButton) (contextGuard : Bool) :
    Sound (moveMouseWithinLane target mode dragButton contextGuard) :=
  sound_checkCancellation.bind fun _ => (sound_validate target).bind fun _ =>
    sound_pointerPosition.bind fun _ => (Sound.ofExcept _).bind fun _ =>
      (sound_followSamples dragButton contextGuard _ _).bind fun _ =>
        (sound_settle target 20).bind fun _ => .pure _

end Bodies

/-! ## Releasing all inputs -/

/-- The action has the lane and owes no entry; outside of a safety action it owes no check. -/
structure Loose (phase : Phase) (s : Conduct) : Prop where
  at_phase : s.phase = phase
  entered : s.pending = none
  unchecked : phase = .holding → s.standing = .clear

theorem Loose.next {phase : Phase} {s : Conduct} {o : InputOp D} {r : o.Res} (hs : Loose phase s)
    (hstanding : s.standing = .clear → s.standing.next s.phase o r = .clear)
    (hphase : s.phase.next o r = s.phase) (hpending : nextPending s.pending o r = s.pending) :
    Loose phase (s.next o r) :=
  ⟨hphase.trans hs.at_phase, hpending.trans hs.entered,
    fun hholding => hstanding (hs.unchecked hholding)⟩

/-- A part of the release of all inputs; it may run whatever the safety checks have said. -/
structure Releasing {α : Type} (p : InputM D α) : Prop where
  obeys : ∀ {phase s}, phase.hasLane → Loose phase s →
    p.Obeys inputMonitor (fun _ => Loose phase) (fun _ => Loose phase) s

section Releasing

variable {α β : Type}

theorem Releasing.pure (a : α) : Releasing (.pure a : InputM D α) := ⟨fun _ hs => hs⟩

theorem Releasing.throw (error : InputError) : Releasing (.throw error : InputM D α) :=
  ⟨fun _ hs => hs⟩

theorem Releasing.bind {p : InputM D β} {f : β → InputM D α} (hp : Releasing p)
    (hf : ∀ b, Releasing (f b)) : Releasing (p.bind f) :=
  ⟨fun hphase hs => .bind ((hp.obeys hphase hs).mono (fun b _ ht => (hf b).obeys hphase ht)
    fun _ _ ht => ht)⟩

theorem Releasing.attempt {p : InputM D α} (hp : Releasing p) : Releasing p.attempt :=
  ⟨fun hphase hs => .attempt (hp.obeys hphase hs)⟩

theorem Releasing.ite {c : Prop} [Decidable c] {p q : InputM D α} (hp : Releasing p)
    (hq : Releasing q) : Releasing (if c then p else q) := by
  split
  · exact hp
  · exact hq

theorem releasing_lift {event : InputEvent D} {input : HeldInput}
    (h : event.edge = some (input, false)) :
    Releasing ((emit event).bind fun _ => remove input) := by
  refine ⟨fun {phase s} hphase hs => ?_⟩
  obtain ⟨rfl, hpending, hstanding⟩ := hs
  have hrelease : event.isRelease = true := by rw [InputEvent.isRelease, h]; rfl
  refine ⟨⟨hphase, hpending, .inl hrelease⟩, fun r _ => ?_⟩
  cases r with
  | ok posted =>
    cases posted
    refine And.intro h fun _ _ => ⟨rfl, rfl, fun hholding => ?_⟩
    have hposted : s.standing.next s.phase (.emit event : InputOp D) (.ok ()) = .clear := by
      simp [SafetyStanding.next, hholding, hstanding hholding]
    have hremoved : ∀ {standing : SafetyStanding} (phase : Phase), standing = .clear →
        standing.next phase (.remove input : InputOp D) () = .clear := by
      rintro _ phase rfl
      rfl
    exact hremoved s.phase hposted
  | error error =>
    refine ⟨rfl, hpending, fun hholding => ?_⟩
    show s.standing.next s.phase (.emit event : InputOp D) (.error error) = _
    rw [hstanding hholding]
    rfl

theorem releasing_attempting {p : InputM D Unit} (hp : Releasing p)
    (firstError : Option InputError) : Releasing (attempting firstError p) := by
  refine hp.attempt.bind fun outcome => ?_
  cases outcome with
  | ok => exact .pure _
  | error error => exact .pure _

theorem releasing_keys (activeModifiers : List ComputerKeyModifier) :
    ∀ (keyCodes : List ℕ) (firstError : Option InputError),
      (∀ keyCode ∈ keyCodes, KeyMapping.modifier? keyCode = none) →
      Releasing (releaseKeys activeModifiers keyCodes firstError : InputM D _)
  | [], _, _ => .pure _
  | keyCode :: keyCodes, _, h =>
    (releasing_attempting (releasing_lift
      (edge_keyCode (h keyCode List.mem_cons_self) false activeModifiers)) _).bind fun _ =>
        releasing_keys activeModifiers keyCodes _ fun code hcode =>
          h code (List.mem_cons_of_mem _ hcode)

theorem releasing_modifiers :
    ∀ (order activeModifiers : List ComputerKeyModifier) (firstError : Option InputError),
      Releasing (releaseModifiers order activeModifiers firstError : InputM D _)
  | [], _, _ => .pure _
  | modifier :: order, activeModifiers, firstError => by
    refine .ite ((releasing_lift (edge_modifier modifier false _)).attempt.bind fun outcome => ?_)
      (releasing_modifiers order _ _)
    cases outcome with
    | ok => exact releasing_modifiers order _ _
    | error error => exact releasing_modifiers order _ _

theorem releasing_mouseButtons (held : List ComputerMouseButton) (point : ComputerPoint D) :
    ∀ (order : List ComputerMouseButton) (firstError : Option InputError),
      Releasing (releaseMouseButtons held point order firstError)
  | [], _ => .pure _
  | _ :: order, _ =>
    .ite ((releasing_attempting (releasing_lift rfl) _).bind fun _ =>
      releasing_mouseButtons held point order _) (releasing_mouseButtons held point order _)

theorem releasing_snapshot {f : HeldInputState → InputM D α}
    (h : ∀ held : HeldInputState, held.KeyCodesPlain → Releasing (f held)) :
    Releasing (snapshot.bind f) := by
  refine ⟨fun {phase s} hphase hs => ⟨⟨hs.at_phase ▸ hphase, hs.entered⟩, fun r hr => ?_⟩⟩
  exact (h r hr).obeys hphase (hs.next (fun h => by simp [SafetyStanding.next, h]) rfl rfl)

variable [DoubleArithmetic D]

theorem releasing_pointerPosition : Releasing (pointerPosition : InputM D (ComputerPoint D)) := by
  refine ⟨fun {phase s} _ hs => ⟨trivial, fun r _ => ?_⟩⟩
  have hnext : Loose phase (s.next (.currentPointerPosition : InputOp D) r) :=
    hs.next (fun h => by simp [SafetyStanding.next, h]) rfl rfl
  cases r with
  | error error => exact hnext
  | ok point =>
    show Program.Obeys _ _ _ (if _ then _ else _) _
    split
    · exact hnext
    · exact hnext

theorem releasing_releaseAllInputs : Releasing (releaseAllInputsWithinLane : InputM D Unit) := by
  unfold releaseAllInputsWithinLane
  refine releasing_snapshot fun first hfirst => ?_
  have hkeys : ∀ keyCode ∈ first.keyCodes.insertionSort (· ≤ ·),
      KeyMapping.modifier? keyCode = none :=
    fun keyCode hcode => hfirst keyCode ((List.mem_insertionSort _).mp hcode)
  refine (releasing_keys _ _ _ hkeys).bind fun keyError => ?_
  refine (releasing_modifiers _ _ _).bind fun modifierError => ?_
  refine releasing_snapshot fun second _ => ?_
  refine .ite ?_ (Releasing.bind (releasing_pointerPosition.attempt.bind fun outcome => ?_)
    fun firstError => ?_)
  · cases modifierError with
    | none => exact .pure _
    | some error => exact .throw _
  · cases outcome with
    | ok point => exact releasing_mouseButtons _ _ _ _
    | error error => exact .pure _
  · cases firstError with
    | none => exact .pure _
    | some error => exact .throw _

end Releasing

/-! ## Whole calls -/

section Calls

/-- A call that has returned has seen the outcome of its last safety check. -/
def Returned (s : Conduct) : Prop := s.standing ≠ .owing ∧ s.standing ≠ .stopped

def Failed (_ : Conduct) : Prop := True

def Conduct.initial : Conduct := { phase := .outside, standing := .clear, pending := none }

theorem obeys_acquireLane {α : Type} {rest : InputM D α} {Q : α → Conduct → Prop}
    {E : InputError → Conduct → Prop}
    (h : rest.Obeys inputMonitor Q E ⟨.holding, .clear, none⟩) :
    (acquireLane.bind fun _ => rest).Obeys inputMonitor Q E .initial := by
  refine ⟨rfl, fun got _ => ?_⟩
  cases got with
  | true => exact h
  | false => exact ⟨rfl, fun _ _ => h⟩

theorem obeys_endAction {s : Conduct} {Q : Unit → Conduct → Prop}
    {E : InputError → Conduct → Prop} (hs : s.phase = .released)
    (h : Q () (s.next (.endAction : InputOp D) ())) :
    (Program.request .endAction fun _ => .pure () : InputM D Unit).Obeys inputMonitor Q E s :=
  ⟨hs, fun _ _ => h⟩

theorem sound_pressKey {keyCode : ℕ} (h : KeyMapping.modifier? keyCode = none)
    (modifiers : List ComputerKeyModifier) :
    Sound (checkCancellation.bind fun _ => verifyFocus.bind fun _ => snapshot.bind fun held =>
      (pressModifiers modifiers KeyMapping.modifierDownOrder held.modifiers).bind fun active =>
      checkCancellation.bind fun _ => verifyFocus.bind fun _ =>
      checkSafety.bind fun _ => (emit (.key keyCode true active)).bind fun _ =>
      (insert (.keyCode keyCode)).bind fun _ => checkSafety.bind fun _ =>
      checkCancellation.bind fun _ => verifyFocus.bind fun _ =>
      checkSafety.bind fun _ => (emit (.key keyCode false active)).bind fun _ =>
      (remove (.keyCode keyCode)).bind fun _ => checkSafety.bind fun _ =>
      (liftModifiers modifiers KeyMapping.modifierReleaseOrder active).bind fun _ =>
      .pure (completed none) : InputM D (ComputerActionResult D)) := by
  refine sound_checkCancellation.bind fun _ => sound_verifyFocus.bind fun _ => ?_
  refine .ask (fun s hs => ?_) (fun s r hs => ?_) fun held => ?_
  · cases hs <;> exact ⟨.inr rfl, rfl⟩
  · cases hs <;> exact Steady.clear
  refine (sound_pressModifiers _ _ _).bind fun active => ?_
  refine sound_checkCancellation.bind fun _ => sound_verifyFocus.bind fun _ => ?_
  refine (sound_press (edge_keyCode h true active)).andThen ?_
  refine sound_checkCancellation.bind fun _ => sound_verifyFocus.bind fun _ => ?_
  refine (sound_lift (edge_keyCode h false active)).andThen ?_
  exact (sound_liftModifiers _ _ _).bind fun _ => .pure _

variable [DoubleArithmetic D]

theorem obeys_withinLane {body : InputM D (ComputerActionResult D)} (hbody : Sound body) :
    (withinLane body).Obeys inputMonitor (fun _ => Returned) (fun _ => Failed) .initial := by
  refine obeys_acquireLane (.bind (.attempt ?_))
  have hbegin : ∀ pointer : Except InputError (ComputerPoint D), (Program.request
      (.beginAction pointer.toOption) fun () =>
        ((body.bind fun result => releaseLane.bind fun () => .pure result).tryCatch fun error =>
          releaseAllInputsWithinLane.attempt.bind fun _ =>
            releaseLane.bind fun () => .throw error).tryFinally
        (.request .endAction fun _ => .pure ())).Obeys inputMonitor (fun _ => Returned)
        (fun _ => Failed) ⟨.holding, .clear, none⟩ := by
    refine fun pointer => ⟨rfl, fun _ _ => .tryFinally (.tryCatch (.bind ?_))⟩
    refine (hbody.obeys .clear).mono (fun result t ht => ?_) fun error t ht => ?_
    · -- the body has returned and gives the lane back
      cases ht with
      | clear => exact ⟨⟨.inr rfl, rfl⟩, fun _ _ => obeys_endAction rfl ⟨nofun, nofun⟩⟩
      | passed => exact ⟨⟨.inr rfl, rfl⟩, fun _ _ => obeys_endAction rfl ⟨nofun, nofun⟩⟩
    · -- the body has failed
      obtain ⟨standing⟩ := ht
      refine .bind (.attempt ((releasing_releaseAllInputs.obeys (.inr rfl)
        ⟨rfl, rfl, nofun⟩).mono ?_ ?_))
      · rintro _ ⟨phase, later, pending⟩ ⟨rfl, rfl, -⟩
        exact ⟨⟨.inr rfl, rfl⟩, fun _ _ => obeys_endAction rfl trivial⟩
      · rintro _ ⟨phase, later, pending⟩ ⟨rfl, rfl, -⟩
        exact ⟨⟨.inr rfl, rfl⟩, fun _ _ => obeys_endAction rfl trivial⟩
  refine ⟨trivial, fun r _ => ?_⟩
  cases r with
  | error error => exact hbegin (.error error)
  | ok point =>
    show Program.Obeys _ _ _ (if _ then _ else _) _
    split
    · exact hbegin (.ok point)
    · exact hbegin (.error .unavailable)

theorem obeys_releaseAllInputs : (releaseAllInputs : InputM D (ComputerActionResult D)).Obeys
    inputMonitor (fun _ => Returned) (fun _ => Failed) .initial := by
  refine obeys_acquireLane (.tryCatch (.bind ?_))
  refine (releasing_releaseAllInputs.obeys (.inl rfl) ⟨rfl, rfl, fun _ => rfl⟩).mono ?_ ?_
  · rintro _ ⟨phase, standing, pending⟩ ⟨rfl, rfl, hstanding⟩
    obtain rfl := hstanding rfl
    exact ⟨⟨.inl rfl, rfl⟩, fun _ _ => ⟨nofun, nofun⟩⟩
  · rintro _ ⟨phase, standing, pending⟩ ⟨rfl, rfl, -⟩
    exact ⟨⟨.inl rfl, rfl⟩, fun _ _ => trivial⟩

theorem sound_scroll (vertical horizontal : ℤ) (contextGuard : Bool) :
    Sound (checkCancellation.bind fun _ =>
      (if vertical ≠ 0 ∨ horizontal ≠ 0 then
        (verifyContext contextGuard).bind fun _ =>
          (emitActionEvent (.scroll vertical horizontal) none).bind fun _ =>
            pointerPosition.bind fun current => .pure (completed (some current))
      else pointerPosition.bind fun current => .pure (completed (some current)) :
        InputM D (ComputerActionResult D))) :=
  sound_checkCancellation.bind fun _ => .ite
    ((sound_verifyContext _).bind fun _ => (sound_emitActionEvent rfl none).bind fun _ =>
      sound_pointerPosition.bind fun _ => .pure _)
    (sound_pointerPosition.bind fun _ => .pure _)

theorem InputCall.obeys (call : InputCall D) :
    call.program.Obeys inputMonitor (fun _ => Returned) (fun _ => Failed) .initial := by
  cases call with
  | occurrence event =>
    cases event <;> exact ⟨rfl, fun _ _ => ⟨nofun, nofun⟩⟩
  | action action =>
    cases action with
    | moveMouse target mode contextGuard => exact obeys_withinLane (sound_moveMouse _ _ _ _)
    | click target button mode contextGuard =>
      exact obeys_withinLane ((sound_moveMouse _ _ _ _).bind fun _ =>
        (sound_verifyPointerNear _).bind fun _ => (sound_verifyContext _).bind fun _ =>
          sound_click _ _ _ _ (.pure _))
    | doubleClick target button mode contextGuard =>
      exact obeys_withinLane ((sound_moveMouse _ _ _ _).bind fun _ =>
        (sound_verifyPointerNear _).bind fun _ => (sound_verifyContext _).bind fun _ =>
          sound_click _ _ _ _ (sound_checkSafety.bind fun _ => (sound_sleep _).bind fun _ =>
            sound_checkSafety.bind fun _ => sound_checkCancellation.bind fun _ =>
              (sound_verifyContext _).bind fun _ => sound_click _ _ _ _ (.pure _)))
    | mouseDown button =>
      exact obeys_withinLane (sound_pointerPosition.bind fun _ =>
        (sound_emitMouseDown _ _ _).bind fun _ => .pure _)
    | mouseUp button =>
      exact obeys_withinLane (sound_pointerPosition.bind fun _ =>
        (sound_emitMouseUp _ _ _).bind fun _ => .pure _)
    | drag start target button mode contextGuard =>
      exact obeys_withinLane ((sound_moveMouse _ _ _ _).bind fun _ =>
        (sound_verifyPointerNear _).bind fun _ => (sound_verifyContext _).bind fun _ =>
          (sound_emitMouseDown _ _ _).bind fun _ => (sound_moveMouse _ _ _ _).bind fun _ =>
            (sound_verifyContext _).bind fun _ => (sound_emitMouseUp _ _ _).bind fun _ => .pure _)
    | scroll vertical horizontal point mode contextGuard =>
      show Program.Obeys _ _ _ (if _ then _ else _) _
      split
      · exact trivial
      · cases point with
        | none => exact obeys_withinLane (sound_scroll _ _ _)
        | some point =>
          exact obeys_withinLane ((sound_moveMouse _ _ _ _).bind fun _ => sound_scroll _ _ _)
    | pressKey name modifiers =>
      show Program.Obeys _ _ _ (pressKey name modifiers) _
      unfold pressKey
      split
      · exact trivial
      next keyCode hcode =>
        exact obeys_withinLane (sound_pressKey (KeyMapping.modifier?_of_keyCode hcode) modifiers)
    | typeText text =>
      exact obeys_withinLane (sound_checkCancellation.bind fun _ => sound_verifyFocus.bind fun _ =>
        (sound_typeChunks _).bind fun _ => .pure _)
    | releaseAllInputs => exact obeys_releaseAllInputs

end Calls

end InputControl
