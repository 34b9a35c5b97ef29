import ChatgptSystem.Native.InputConduct

/-!
# Runs of the input controller

What holds in every state that any number of actions and events reach together.

* `LaneInvariant` — the lane has at most one owner, and none when it is free;
* `HeldInvariant` — the held inputs are those whose last event is a press, but for an event that
  its action has not entered yet;
* `RunInvariant.step`, `runInvariant_of_run` — the step lemma and the run lemma.
-/

open Interleaving

namespace InputControl

variable {ι D : Type} [DecidableEq ι] [DoubleArithmetic D]

/-! ## What an operation leaves alone -/

def InputOp.ActsOnCoordinator : InputOp D → Prop
  | .beginAction _ | .updateExpectedPointer _ | .endAction | .observe _ | .triggerEmergencyStop
  | .markMonitor _ => True
  | _ => False

structure Framed (o : InputOp D) (m acted : Machine ι D) : Prop where
  lane : o ≠ .acquire → o ≠ .resume → o ≠ .release → acted.lane = m.lane
  heldInputs : (∀ input, o ≠ .insert input) → (∀ input, o ≠ .remove input) →
    acted.heldInputs = m.heldInputs
  log : (∀ event, o ≠ .emit event) → acted.log = m.log
  coordinator : ¬ o.ActsOnCoordinator → acted.coordinator = m.coordinator
  expects : ¬ o.ActsOnCoordinator → acted.expects = m.expects
  takenOver : ¬ o.ActsOnCoordinator → acted.takenOver = m.takenOver
  checks : o ≠ .checkForInterruption → acted.checks = m.checks
  heldAtRelease : o ≠ .release → acted.heldAtRelease = m.heldAtRelease

theorem framed_of_act {choice : InputChoice D} {call : ι} {o : InputOp D} {m acted : Machine ι D}
    {r : o.Res} (h : o.act choice call m = some (r, acted)) : Framed o m acted := by
  cases o
  case emit => cases choice <;> cases h <;> constructor <;> intros <;> first | rfl | grind
  case currentPointerPosition => cases choice <;> cases h <;> constructor <;> intros <;> rfl
  case activeDisplayBounds => cases choice <;> cases h <;> constructor <;> intros <;> rfl
  case sleep => cases choice <;> cases h <;> constructor <;> intros <;> rfl
  case isCancelled => cases choice <;> cases h <;> constructor <;> intros <;> rfl
  case verifyExpectedContext => cases choice <;> cases h <;> constructor <;> intros <;> rfl
  case verifyExpectedFrontmost => cases choice <;> cases h <;> constructor <;> intros <;> rfl
  case resume =>
    obtain ⟨-, h⟩ := Option.ite_none_right_eq_some.mp h
    cases h
    constructor <;> intros <;> first | rfl | contradiction
  all_goals
    cases h
    constructor <;> intros <;> first | rfl | contradiction | grind [InputOp.ActsOnCoordinator]

/-! ## The lane -/

/-- The lane is the call's: it has it, or the lane has been handed over to it. -/
def Owns (lane : PhysicalActionLane ι) (phase : ι → Phase) (i : ι) : Prop :=
  (phase i).hasLane ∨ lane.resumed i = true

structure LaneInvariant (lane : PhysicalActionLane ι) (phase : ι → Phase) : Prop where
  exclusive : ∀ i j, Owns lane phase i → Owns lane phase j → i = j
  free : lane.busy = false → lane.waiters = [] ∧ ∀ i, ¬ Owns lane phase i
  waiting : ∀ i ∈ lane.waiters, phase i = .waiting ∧ lane.resumed i = false
  nodup : lane.waiters.Nodup
  resumed : ∀ i, lane.resumed i = true → phase i = .waiting

section Lane

variable {lane : PhysicalActionLane ι} {phase : ι → Phase} {i : ι}

omit [DecidableEq ι] in
theorem LaneInvariant.congr {phase' : ι → Phase} (h : LaneInvariant lane phase)
    (hlane : ∀ j, (phase' j).hasLane ↔ (phase j).hasLane)
    (hwaiting : ∀ j, phase j = .waiting → phase' j = .waiting) : LaneInvariant lane phase' := by
  have howns : ∀ j, Owns lane phase' j → Owns lane phase j := fun j hj =>
    hj.imp (hlane j).mp id
  exact
    { exclusive := fun i j hi hj => h.exclusive i j (howns i hi) (howns j hj)
      free := fun hfree => ⟨(h.free hfree).1, fun j hj => (h.free hfree).2 j (howns j hj)⟩
      waiting := fun j hj => ⟨hwaiting j (h.waiting j hj).1, (h.waiting j hj).2⟩
      nodup := h.nodup
      resumed := fun j hj => hwaiting j (h.resumed j hj) }

theorem LaneInvariant.congr_update {next : Phase} (h : LaneInvariant lane phase)
    (hlane : next.hasLane ↔ (phase i).hasLane) (hwaiting : phase i = .waiting → next = .waiting) :
    LaneInvariant lane (Function.update phase i next) := by
  refine h.congr ?_ ?_
  · exact (Function.forall_update_iff phase fun j p => p.hasLane ↔ (phase j).hasLane).mpr
      ⟨hlane, fun _ _ => Iff.rfl⟩
  · exact (Function.forall_update_iff phase fun j p => phase j = .waiting → p = .waiting).mpr
      ⟨hwaiting, fun _ _ => id⟩

omit [DecidableEq ι] in
theorem not_hasLane {p : Phase} (h : p ≠ .holding) (h' : p ≠ .begun) : ¬ p.hasLane := by
  rintro (rfl | rfl)
  · exact h rfl
  · exact h' rfl

theorem LaneInvariant.acquire (h : LaneInvariant lane phase) (hi : phase i = .outside) :
    LaneInvariant (lane.acquire i).2
      (Function.update phase i (cond (lane.acquire i).1 .holding .waiting)) := by
  have hresumed : lane.resumed i = false := by
    cases hr : lane.resumed i with
    | false => rfl
    | true => exact absurd (h.resumed i hr) (by rw [hi]; nofun)
  unfold PhysicalActionLane.acquire
  cases hbusy : lane.busy with
  | false =>
    obtain ⟨hwaiters, hnone⟩ := h.free hbusy
    have howns : ∀ j, Owns { lane with busy := true } (Function.update phase i .holding) j →
        j = i := by
      intro j hj
      by_contra hij
      rw [Owns, Function.update_of_ne hij] at hj
      exact hnone j hj
    refine ⟨fun j k hj hk => (howns j hj).trans (howns k hk).symm, nofun, ?_, h.nodup, ?_⟩
    · intro j hj
      rw [show lane.waiters = [] from hwaiters] at hj
      cases hj
    · intro j hj
      exact absurd (.inr hj) (hnone j)
  | true =>
    have howns : ∀ j, Owns { lane with waiters := lane.waiters ++ [i] }
        (Function.update phase i .waiting) j → Owns lane phase j :=
      (Function.forall_update_iff phase fun j p => p.hasLane ∨ lane.resumed j = true →
        Owns lane phase j).mpr
        ⟨fun h => h.elim (absurd · (not_hasLane nofun nofun)) .inr, fun _ _ => id⟩
    have hnotin : i ∉ lane.waiters := fun hmem => by
      have hwaiting := (h.waiting i hmem).1
      rw [hi] at hwaiting
      cases hwaiting
    refine ⟨fun j k hj hk => h.exclusive j k (howns j hj) (howns k hk), ?_, ?_, ?_, ?_⟩
    · intro hfree
      replace hfree : true = false := hfree
      cases hfree
    · intro j hj
      rcases List.mem_append.mp hj with hold | hnew
      · have hij : j ≠ i := fun heq => hnotin (heq ▸ hold)
        rw [Function.update_of_ne hij]
        exact h.waiting j hold
      · obtain rfl := List.mem_singleton.mp hnew
        exact ⟨Function.update_self .., hresumed⟩
    · exact List.nodup_append.mpr ⟨h.nodup, List.nodup_singleton i, fun a ha b hb => by
        rintro rfl
        exact hnotin (List.mem_singleton.mp hb ▸ ha)⟩
    · intro j hj
      replace hj : lane.resumed j = true := hj
      have hij : j ≠ i := by
        rintro rfl
        rw [hresumed] at hj
        cases hj
      rw [Function.update_of_ne hij]
      exact h.resumed j hj

theorem LaneInvariant.resume (h : LaneInvariant lane phase) (hi : lane.resumed i = true) :
    LaneInvariant { lane with resumed := Function.update lane.resumed i false }
      (Function.update phase i .holding) := by
  have howns : ∀ j, Owns { lane with resumed := Function.update lane.resumed i false }
      (Function.update phase i .holding) j → Owns lane phase j := by
    intro j hj
    by_cases hij : j = i
    · subst hij
      exact .inr hi
    · simpa only [Owns, Function.update_of_ne hij] using hj
  have hother : ∀ j, lane.waiters ≠ [] → j ∈ lane.waiters → j ≠ i := by
    rintro j - hj rfl
    exact absurd hi (by simp [(h.waiting j hj).2])
  refine ⟨fun j k hj hk => h.exclusive j k (howns j hj) (howns k hk), fun hfree => ?_,
    fun j hj => ?_, h.nodup, fun j hj => ?_⟩
  · exact absurd (.inr hi) ((h.free hfree).2 i)
  · have hij := hother j (List.ne_nil_of_mem hj) hj
    simpa only [Function.update_of_ne hij] using h.waiting j hj
  · by_cases hij : j = i
    · subst hij
      simp at hj
    · simp only [Function.update_of_ne hij] at hj ⊢
      exact h.resumed j hj

theorem LaneInvariant.release {next : Phase} (h : LaneInvariant lane phase)
    (hi : (phase i).hasLane) (hnext : ¬ next.hasLane) :
    LaneInvariant lane.release (Function.update phase i next) := by
  have hresumed : ∀ j, lane.resumed j = false := by
    intro j
    cases hr : lane.resumed j with
    | false => rfl
    | true =>
      obtain rfl := h.exclusive i j (.inl hi) (.inr hr)
      rw [h.resumed i hr] at hi
      exact absurd hi (not_hasLane nofun nofun)
  have hnone : ∀ j, ¬ (Function.update phase i next j).hasLane :=
    (Function.forall_update_iff phase fun _ p => ¬ p.hasLane).mpr
      ⟨hnext, fun j hij hj => hij (h.exclusive j i (.inl hj) (.inl hi))⟩
  have hwaiting : ∀ j, phase j = .waiting → Function.update phase i next j = .waiting := by
    intro j hj
    have hij : j ≠ i := by
      rintro rfl
      rw [hj] at hi
      exact absurd hi (not_hasLane nofun nofun)
    rwa [Function.update_of_ne hij]
  unfold PhysicalActionLane.release
  split
  next hwaiters =>
    have howns : ∀ j, ¬ Owns { lane with busy := false } (Function.update phase i next) j := by
      rintro j (hj | hj)
      · exact hnone j hj
      · exact absurd hj (by simp [hresumed j])
    refine ⟨fun j k hj => absurd hj (howns j), fun _ => ⟨hwaiters, howns⟩, fun j hj => ?_,
      h.nodup, fun j hj => absurd hj (by simp [hresumed j])⟩
    rw [show lane.waiters = [] from hwaiters] at hj
    cases hj
  next first rest hwaiters =>
    have howns : ∀ j, Owns { lane with
        waiters := rest, resumed := Function.update lane.resumed first true }
        (Function.update phase i next) j → j = first := by
      rintro j (hj | hj)
      · exact absurd hj (hnone j)
      · by_contra hij
        simp [hij, hresumed j] at hj
    have hnodup := h.nodup
    rw [hwaiters, List.nodup_cons] at hnodup
    have hfirst := h.waiting first (by rw [hwaiters]; exact List.mem_cons_self)
    refine ⟨fun j k hj hk => (howns j hj).trans (howns k hk).symm, fun hfree => ?_,
      fun j hj => ?_, hnodup.2, fun j hj => ?_⟩
    · exact absurd (.inl hi) ((h.free hfree).2 i)
    · have hij : j ≠ first := fun heq => hnodup.1 (heq ▸ hj)
      have hold := h.waiting j (by rw [hwaiters]; exact List.mem_cons_of_mem _ hj)
      exact ⟨hwaiting j hold.1, by simpa only [Function.update_of_ne hij] using hold.2⟩
    · obtain rfl := howns j (.inr hj)
      exact hwaiting j hfirst.1

theorem LaneInvariant.act {choice : InputChoice D} {o : InputOp D} {m acted : Machine ι D}
    {r : o.Res} {s : Conduct} (h : LaneInvariant m.lane m.phase) (hs : s.phase = m.phase i)
    (hallowed : s.allowed o) (hact : o.act choice i m = some (r, acted)) :
    LaneInvariant acted.lane (Function.update m.phase i ((m.phase i).next o r)) := by
  have hframe := framed_of_act hact
  cases o with
  | acquire =>
    obtain ⟨rfl, rfl⟩ := Prod.mk.inj (Option.some.inj hact)
    exact h.acquire (hs.symm.trans hallowed)
  | resume =>
    obtain ⟨hresumed, hact⟩ := Option.ite_none_right_eq_some.mp hact
    obtain ⟨rfl, rfl⟩ := Prod.mk.inj (Option.some.inj hact)
    exact h.resume hresumed
  | release =>
    obtain ⟨rfl, rfl⟩ := Prod.mk.inj (Option.some.inj hact)
    refine h.release (hs ▸ hallowed.1) ?_
    show ¬ (if _ then _ else _ : Phase).hasLane
    split <;> exact not_hasLane nofun nofun
  | beginAction expectedPointer =>
    rw [hframe.lane nofun nofun nofun]
    have hphase : m.phase i = .holding := hs.symm.trans hallowed
    exact h.congr_update (iff_of_true (.inr rfl) (.inl hphase)) fun hw => by
      rw [hphase] at hw
      cases hw
  | endAction =>
    rw [hframe.lane nofun nofun nofun]
    have hphase : m.phase i = .released := hs.symm.trans hallowed
    refine h.congr_update (iff_of_false (not_hasLane nofun nofun) ?_) fun hw => ?_
    · rw [hphase]
      exact not_hasLane nofun nofun
    · rw [hphase] at hw
      cases hw
  | _ =>
    rw [hframe.lane nofun nofun nofun]
    exact h.congr_update Iff.rfl id

end Lane

/-! ## The held inputs -/

def lastDown (log : List (InputEvent D)) (input : HeldInput) : Prop :=
  ((log.filterMap InputEvent.edge).filter fun edge => edge.1 = input).getLast?.map Prod.snd =
    some true

/-- The held inputs are those whose last event has pressed them. -/
def Consistent (log : List (InputEvent D)) (held : HeldInputState) : Prop :=
  ∀ input, held.Holds input ↔ lastDown log input

section Held

omit [DoubleArithmetic D]

variable {log : List (InputEvent D)} {held : HeldInputState} {event : InputEvent D}
  {input : HeldInput} {down : Bool}

theorem lastDown_append_of_edge (h : event.edge = some (input, down)) (other : HeldInput) :
    lastDown (log ++ [event]) other ↔ if other = input then down = true else lastDown log other := by
  rw [lastDown, lastDown, List.filterMap_append, List.filter_append]
  have hlast : [event].filterMap InputEvent.edge = [(input, down)] := by simp [h]
  rw [hlast]
  by_cases hother : other = input
  · subst hother
    simp
  · have hne : ¬ input = other := fun heq => hother heq.symm
    simp [hother, hne]

theorem lastDown_append_of_none (h : event.edge = none) (other : HeldInput) :
    lastDown (log ++ [event]) other ↔ lastDown log other := by
  rw [lastDown, lastDown, List.filterMap_append]
  simp [h]

theorem Consistent.insert (h : Consistent log held) (hedge : event.edge = some (input, true)) :
    Consistent (log ++ [event]) (held.insert input) := by
  intro other
  rw [HeldInputState.holds_insert, lastDown_append_of_edge hedge, h other]
  by_cases hother : other = input <;> simp [hother]

theorem Consistent.remove (h : Consistent log held) (hedge : event.edge = some (input, false)) :
    Consistent (log ++ [event]) (held.remove input) := by
  intro other
  rw [HeldInputState.holds_remove, lastDown_append_of_edge hedge, h other]
  by_cases hother : other = input <;> simp [hother]

theorem Consistent.append_of_none (h : Consistent log held) (hedge : event.edge = none) :
    Consistent (log ++ [event]) held :=
  fun other => (h other).trans (lastDown_append_of_none hedge other).symm

/-- The held inputs follow the log, but for an event of `pending` that is still to be entered. -/
def Follows (log : List (InputEvent D)) (held : HeldInputState) :
    Option (HeldInput × Bool) → Prop
  | none => Consistent log held
  | some edge => ∃ before event, log = before ++ [event] ∧ event.edge = some edge ∧
      Consistent before held

theorem Follows.emit (h : Follows log held none) (event : InputEvent D) :
    Follows (log ++ [event]) held event.edge := by
  cases hedge : event.edge with
  | none => exact h.append_of_none hedge
  | some edge => exact ⟨log, event, rfl, hedge, h⟩

theorem Follows.insert (h : Follows log held (some (input, true))) :
    Follows log (held.insert input) none := by
  obtain ⟨before, event, rfl, hedge, hbefore⟩ := h
  exact hbefore.insert hedge

theorem Follows.remove (h : Follows log held (some (input, false))) :
    Follows log (held.remove input) none := by
  obtain ⟨before, event, rfl, hedge, hbefore⟩ := h
  exact hbefore.remove hedge

end Held

structure HeldInvariant (s : ι → Conduct) (m : Machine ι D) : Prop where
  plain : m.heldInputs.KeyCodesPlain
  pending : ∀ i, (s i).pending ≠ none → (s i).phase.hasLane
  follows : ∀ i, (s i).phase.hasLane → Follows m.log m.heldInputs (s i).pending
  free : (∀ i, ¬ (s i).phase.hasLane) → Consistent m.log m.heldInputs

section HeldStep

variable {choice : InputChoice D} {i : ι} {o : InputOp D} {m acted : Machine ι D} {r : o.Res}
  {s : ι → Conduct}

omit [DecidableEq ι] [DoubleArithmetic D] in
theorem HeldInvariant.pending_eq_none (h : HeldInvariant s m) {j : ι}
    (hj : ¬ (s j).phase.hasLane) : (s j).pending = none := by
  by_contra hpending
  exact hj (h.pending j hpending)

omit [DoubleArithmetic D] in
theorem modifier?_of_edge {event : InputEvent D} {keyCode : ℕ} {down : Bool}
    (h : event.edge = some (.keyCode keyCode, down)) : KeyMapping.modifier? keyCode = none := by
  cases event with
  | key code down' modifiers =>
    rw [InputEvent.edge, HeldInput.ofKeyCode, Option.some.injEq, Prod.mk.injEq] at h
    obtain ⟨hcode, -⟩ := h
    split at hcode
    · cases hcode
    next hnone =>
      obtain rfl := HeldInput.keyCode.inj hcode
      exact hnone
  | mouseButton => cases h
  | mouseMove => cases h
  | scroll => cases h
  | unicode => cases h

variable {m' : Machine ι D}

section

omit [DoubleArithmetic D]

theorem HeldInvariant.of_owner {next : Conduct} (h : HeldInvariant s m)
    (hexclusive : ∀ j, j ≠ i → ¬ (s j).phase.hasLane) (hlane : next.phase.hasLane)
    (hplain : m'.heldInputs.KeyCodesPlain) (hfollows : Follows m'.log m'.heldInputs next.pending) :
    HeldInvariant (Function.update s i next) m' := by
  refine ⟨hplain, ?_, ?_, fun hnone => absurd hlane (by simpa using hnone i)⟩
  · exact (Function.forall_update_iff s fun _ c => c.pending ≠ none → c.phase.hasLane).mpr
      ⟨fun _ => hlane, fun j _ => h.pending j⟩
  · exact (Function.forall_update_iff s fun _ c =>
      c.phase.hasLane → Follows m'.log m'.heldInputs c.pending).mpr
      ⟨fun _ => hfollows, fun j hij hj => absurd hj (hexclusive j hij)⟩

theorem HeldInvariant.of_stranger {next : Conduct} (h : HeldInvariant s m)
    (hi : ¬ (s i).phase.hasLane) (hlane : ¬ next.phase.hasLane) (hpending : next.pending = none)
    (hlog : m'.log = m.log) (hheld : m'.heldInputs = m.heldInputs) :
    HeldInvariant (Function.update s i next) m' := by
  refine ⟨hheld ▸ h.plain, ?_, ?_, fun hnone => ?_⟩
  · exact (Function.forall_update_iff s fun _ c => c.pending ≠ none → c.phase.hasLane).mpr
      ⟨absurd hpending, fun j _ => h.pending j⟩
  · rw [hlog, hheld]
    exact (Function.forall_update_iff s fun _ c =>
      c.phase.hasLane → Follows m.log m.heldInputs c.pending).mpr
      ⟨fun hj => absurd hj hlane, fun j _ => h.follows j⟩
  · obtain ⟨-, hothers⟩ := (Function.forall_update_iff s fun _ c => ¬ c.phase.hasLane).mp hnone
    rw [hlog, hheld]
    refine h.free fun j hj => ?_
    by_cases hij : j = i
    · exact hi (hij ▸ hj)
    · exact hothers j hij hj

theorem HeldInvariant.of_release {next : Conduct} (h : HeldInvariant s m)
    (hexclusive : ∀ j, j ≠ i → ¬ (s j).phase.hasLane) (hi : (s i).phase.hasLane)
    (hsettled : (s i).pending = none) (hlane : ¬ next.phase.hasLane)
    (hpending : next.pending = none) (hlog : m'.log = m.log)
    (hheld : m'.heldInputs = m.heldInputs) : HeldInvariant (Function.update s i next) m' := by
  have hnone : ∀ j, ¬ (Function.update s i next j).phase.hasLane :=
    (Function.forall_update_iff s fun _ c => ¬ c.phase.hasLane).mpr ⟨hlane, hexclusive⟩
  refine ⟨hheld ▸ h.plain, ?_, fun j hj => absurd hj (hnone j), fun _ => ?_⟩
  · exact (Function.forall_update_iff s fun _ c => c.pending ≠ none → c.phase.hasLane).mpr
      ⟨absurd hpending, fun j hij => absurd (h.pending_eq_none (hexclusive j hij))⟩
  · have hfollows := h.follows i hi
    rw [hsettled] at hfollows
    rw [hlog, hheld]
    exact hfollows

end

theorem HeldInvariant.act (h : HeldInvariant s m) (hlane : LaneInvariant m.lane m.phase)
    (hs : ∀ j, (s j).phase = m.phase j) (hallowed : (s i).allowed o)
    (hact : o.act choice i m = some (r, acted)) :
    HeldInvariant (Function.update s i ((s i).next o r))
      { acted with phase := Function.update m.phase i ((m.phase i).next o r) } := by
  have hframe := framed_of_act hact
  have hexclusive : (s i).phase.hasLane → ∀ j, j ≠ i → ¬ (s j).phase.hasLane := by
    intro hi j hij hj
    rw [hs] at hi hj
    exact hij (hlane.exclusive j i (.inl hj) (.inl hi))
  -- an operation that leaves the phase, the log and the held inputs alone
  have hquiet : (s i).phase.next o r = (s i).phase → nextPending (s i).pending o r = (s i).pending →
      acted.log = m.log → acted.heldInputs = m.heldInputs →
      HeldInvariant (Function.update s i ((s i).next o r))
        { acted with phase := Function.update m.phase i ((m.phase i).next o r) } := by
    intro hphase hpending hlog hheld
    by_cases hi : (s i).phase.hasLane
    · refine h.of_owner (hexclusive hi) ?_ (hheld ▸ h.plain) ?_
      · show ((s i).phase.next o r).hasLane
        rwa [hphase]
      · show Follows acted.log acted.heldInputs (nextPending (s i).pending o r)
        rw [hpending, hlog, hheld]
        exact h.follows i hi
    · refine h.of_stranger hi ?_ (hpending.trans (h.pending_eq_none hi)) hlog hheld
      show ¬ ((s i).phase.next o r).hasLane
      rwa [hphase]
  cases o with
  | acquire =>
    have hi : (s i).phase = .outside := hallowed
    have hout : ¬ (s i).phase.hasLane := by
      rw [hi]
      exact not_hasLane nofun nofun
    have hsettled := h.pending_eq_none hout
    have hlog := hframe.log nofun
    have hheld := hframe.heldInputs nofun nofun
    have hgot : r = !m.lane.busy := by
      have hfirst : (m.lane.acquire i).1 = !m.lane.busy := by
        unfold PhysicalActionLane.acquire
        cases m.lane.busy <;> rfl
      exact (Prod.mk.inj (Option.some.inj hact)).1.symm.trans hfirst
    cases hbusy : m.lane.busy with
    | true =>
      rw [hbusy] at hgot
      subst hgot
      exact h.of_stranger hout (not_hasLane nofun nofun) hsettled hlog hheld
    | false =>
      rw [hbusy] at hgot
      subst hgot
      have hnone : ∀ j, ¬ (s j).phase.hasLane := by
        intro j hj
        rw [hs] at hj
        exact (hlane.free hbusy).2 j (.inl hj)
      refine h.of_owner (fun j _ => hnone j) (.inl rfl) (hheld ▸ h.plain) ?_
      show Follows acted.log acted.heldInputs (s i).pending
      rw [hsettled, hlog, hheld]
      exact h.free hnone
  | resume =>
    obtain ⟨hresumed, hact⟩ := Option.ite_none_right_eq_some.mp hact
    obtain ⟨rfl, rfl⟩ := Prod.mk.inj (Option.some.inj hact)
    have hnone : ∀ j, ¬ (s j).phase.hasLane := by
      intro j hj
      rw [hs] at hj
      obtain rfl := hlane.exclusive j i (.inl hj) (.inr hresumed)
      rw [hlane.resumed j hresumed] at hj
      exact absurd hj (not_hasLane nofun nofun)
    refine h.of_owner (fun j _ => hnone j) (.inl rfl) h.plain ?_
    show Follows m.log m.heldInputs (s i).pending
    rw [h.pending_eq_none (hnone i)]
    exact h.free hnone
  | release =>
    refine h.of_release (hexclusive hallowed.1) hallowed.1 hallowed.2 ?_ hallowed.2
      (hframe.log nofun) (hframe.heldInputs nofun nofun)
    show ¬ (if _ then _ else _ : Phase).hasLane
    split <;> exact not_hasLane nofun nofun
  | beginAction expectedPointer =>
    have hi : (s i).phase.hasLane := .inl hallowed
    refine h.of_owner (hexclusive hi) (.inr rfl) ?_ ?_
    · exact (hframe.heldInputs nofun nofun) ▸ h.plain
    · show Follows acted.log acted.heldInputs (s i).pending
      rw [hframe.log nofun, hframe.heldInputs nofun nofun]
      exact h.follows i hi
  | endAction =>
    have hi : ¬ (s i).phase.hasLane := by
      rw [show (s i).phase = .released from hallowed]
      exact not_hasLane nofun nofun
    exact h.of_stranger hi (not_hasLane nofun nofun) (h.pending_eq_none hi) (hframe.log nofun)
      (hframe.heldInputs nofun nofun)
  | emit event =>
    obtain ⟨hi, hsettled, -⟩ := hallowed
    have hfollows := h.follows i hi
    rw [hsettled] at hfollows
    cases choice with
    | completes =>
      obtain ⟨rfl, rfl⟩ := Prod.mk.inj (Option.some.inj hact)
      exact h.of_owner (hexclusive hi) hi h.plain (hfollows.emit event)
    | fails error =>
      obtain ⟨rfl, rfl⟩ := Prod.mk.inj (Option.some.inj hact)
      exact hquiet rfl rfl rfl rfl
    | _ => cases hact
  | insert input =>
    obtain ⟨rfl, rfl⟩ := Prod.mk.inj (Option.some.inj hact)
    have hpending : (s i).pending = some (input, true) := hallowed
    have hi := h.pending i (by simp [hpending])
    have hfollows := h.follows i hi
    rw [hpending] at hfollows
    refine h.of_owner (hexclusive hi) hi ?_ hfollows.insert
    obtain ⟨before, event, -, hedge, -⟩ := hfollows
    intro keyCode hmem
    have hholds : (m.heldInputs.insert input).Holds (.keyCode keyCode) := hmem
    rcases (HeldInputState.holds_insert _ _ _).mp hholds with rfl | hold
    · exact modifier?_of_edge hedge
    · exact h.plain keyCode hold
  | remove input =>
    obtain ⟨rfl, rfl⟩ := Prod.mk.inj (Option.some.inj hact)
    have hpending : (s i).pending = some (input, false) := hallowed
    have hi := h.pending i (by simp [hpending])
    have hfollows := h.follows i hi
    rw [hpending] at hfollows
    refine h.of_owner (hexclusive hi) hi ?_ hfollows.remove
    intro keyCode hmem
    have hholds : (m.heldInputs.remove input).Holds (.keyCode keyCode) := hmem
    exact h.plain keyCode ((HeldInputState.holds_remove _ _ _).mp hholds).2
  | _ => exact hquiet rfl rfl (hframe.log nofun) (hframe.heldInputs nofun nofun)

end HeldStep

/-! ## Runs -/

/-- What holds in every reachable configuration: each call keeps to the rules from its state of
conduct on, and lane and held inputs are in order. -/
structure RunInvariant (c : InputConfiguration ι D) (s : ι → Conduct) : Prop where
  obeys : ∀ i, (c.1 i).Obeys inputMonitor (fun _ => Returned) (fun _ => Failed) (s i)
  phase : ∀ i, (s i).phase = c.2.phase i
  lane : LaneInvariant c.2.lane c.2.phase
  held : HeldInvariant s c.2

omit [DecidableEq ι] in
theorem RunInvariant.initial (calls : ι → InputCall D) (monitorAvailable : Bool) :
    RunInvariant (inputPrograms calls, Machine.initial monitorAvailable)
      (fun _ : ι => Conduct.initial) := by
  have hout : ¬ Phase.outside.hasLane := not_hasLane nofun nofun
  refine ⟨fun i => (calls i).obeys, fun _ => rfl, ?_, ?_⟩
  · refine ⟨fun i j hi => ?_, fun _ => ⟨rfl, fun i hi => ?_⟩, nofun, List.nodup_nil, nofun⟩
    · exact absurd hi (by rintro (h | h); exacts [hout h, nomatch h])
    · exact absurd hi (by rintro (h | h); exacts [hout h, nomatch h])
  · refine ⟨nofun, fun _ h => absurd rfl h, fun _ h => absurd h hout, fun _ input => ?_⟩
    cases input <;> exact iff_of_false List.not_mem_nil nofun

theorem RunInvariant.inversion {c c' : InputConfiguration ι D} {s : ι → Conduct} {i : ι}
    (h : RunInvariant c s) (hstep : Pool.Step inputExec i c c') :
    ∃ (o : InputOp D) (k : o.Res → InputM D (ComputerActionResult D)) (r : o.Res)
      (choice : InputChoice D) (acted : Machine ι D), c.1 i = .request o k ∧
      (s i).allowed o ∧ o.act choice i c.2 = some (r, acted) ∧
      c' = (Function.update c.1 i (k r),
        { acted with phase := Function.update c.2.phase i ((c.2.phase i).next o r) }) ∧
      RunInvariant c' (Function.update s i ((s i).next o r)) := by
  cases hstep with
  | @intro pool m o k r m' hpool hexec =>
    obtain ⟨choice, acted, hact, rfl⟩ := inputExec_iff.mp hexec
    have hobeys := h.obeys i
    rw [show (pool, m).1 i = _ from hpool] at hobeys
    have hallowed : (s i).allowed o := hobeys.1
    have hanswers : answers o r := by
      cases o with
      | snapshot =>
        obtain ⟨rfl, rfl⟩ := Prod.mk.inj (Option.some.inj hact)
        exact h.held.plain
      | _ => trivial
    refine ⟨o, k, r, choice, acted, hpool, hallowed, hact, rfl, ?_, fun j => ?_, ?_, ?_⟩
    · exact Pool.obeys_step h.obeys hpool hanswers
    · by_cases hij : j = i
      · subst hij
        simp only [Function.update_self]
        show (s j).phase.next o r = _
        rw [h.phase]
      · simpa only [Function.update_of_ne hij] using h.phase j
    · show LaneInvariant acted.lane (Function.update m.phase i ((m.phase i).next o r))
      exact h.lane.act (h.phase i) hallowed hact
    · exact h.held.act h.lane h.phase hallowed hact

theorem RunInvariant.step {exec : ι → Exec (InputOp D) InputOp.Res (Machine ι D)}
    (hexec : ∀ i o m r m', exec i o m r m' → inputExec i o m r m')
    {c c' : InputConfiguration ι D} {i : ι} {s : ι → Conduct} (h : RunInvariant c s)
    (hstep : Pool.Step exec i c c') : ∃ s', RunInvariant c' s' := by
  cases hstep with
  | intro hpool hx =>
    obtain ⟨o, k, r, choice, acted, -, -, -, -, h'⟩ := h.inversion (.intro hpool (hexec _ _ _ _ _ hx))
    exact ⟨_, h'⟩

theorem runInvariant_of_run {calls : ι → InputCall D} {monitorAvailable : Bool}
    {permit : InputConfiguration ι D → ι → Prop} {c : InputConfiguration ι D}
    (hrun : Pool.Run inputExec permit (inputPrograms calls, .initial monitorAvailable) c) :
    ∃ s, RunInvariant c s := by
  induction hrun with
  | refl => exact ⟨_, .initial calls monitorAvailable⟩
  | step _ _ hstep ih =>
    obtain ⟨s, hs⟩ := ih
    exact hs.step (fun _ _ _ _ _ h => h) hstep

end InputControl
