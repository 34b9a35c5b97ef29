import ChatgptSystem.Foundations.Bytes
import ChatgptSystem.Foundations.Delimiter
import Mathlib.Data.List.Induction

/-!
# The output of a program's worker

`forwardUntilBoundary` of the runner: what the worker writes is handed on up to a boundary that
nobody else knows. The writes to the destination end in any order with what is read.

* `ForwardState`, `step` — the handlers of the stream and of the writes;
* `IsRun` — a run over chunks that ends with the end of the stream;
* `Phase` — how far a run is;
* `Meets`, `meets_iff` — the boundary is the end of the stream, and when the verdict says so.
-/

open Delimiter

namespace Computer

namespace RunnerOutput

/-! ## The handlers -/

inductive Verdict where
  | resolved
  | rejected
  deriving DecidableEq

/-- The variables of the promise, what has been handed to the destination, and whether a write
failed. -/
structure ForwardState where
  tail : Bytes
  pendingWrites : ℕ
  boundarySeen : Bool
  settled : Option Verdict
  written : Bytes
  failed : Bool
  deriving DecidableEq

def initial : ForwardState :=
  { tail := [], pendingWrites := 0, boundarySeen := false, settled := none, written := []
    failed := false }

def fail (state : ForwardState) : ForwardState :=
  if state.settled.isSome then state else { state with settled := some .rejected }

def maybeResolve (state : ForwardState) : ForwardState :=
  if state.settled.isSome || !state.boundarySeen || state.pendingWrites != 0 then state
  else { state with settled := some .resolved }

/-- `destination.write`, which may throw; a write that throws is not pending. -/
def write (state : ForwardState) (buffer : Bytes) (throws : Bool) : ForwardState :=
  if buffer.isEmpty || state.settled.isSome then state
  else if throws then fail { state with failed := true }
  else { state with
    pendingWrites := state.pendingWrites + 1
    written := state.written ++ buffer }

/-- The handler of `data`. -/
def onData (boundary : Bytes) (state : ForwardState) (chunk : Bytes) (throws : Bool) :
    ForwardState :=
  if state.settled.isSome || state.boundarySeen then state
  else
    let data := state.tail ++ chunk
    match findFirst boundary data with
    | some (before, trailing) =>
      let state := { write state before throws with tail := [], boundarySeen := true }
      if !trailing.isEmpty then fail state else maybeResolve state
    | none =>
      let keep := min (boundary.length - 1) data.length
      let splitAt := data.length - keep
      { write state (data.take splitAt) throws with tail := data.drop splitAt }

def onWritten (state : ForwardState) (error : Bool) : ForwardState :=
  let state := { state with pendingWrites := state.pendingWrites - 1 }
  if error then fail { state with failed := true } else maybeResolve state

/-- The handler of `end`. -/
def onEnd (state : ForwardState) : ForwardState :=
  if !state.boundarySeen then fail state else state

inductive ForwardEvent where
  | data (chunk : Bytes) (throws : Bool)
  | written (error : Bool)
  | ended
  | errored
  deriving DecidableEq

def step (boundary : Bytes) (state : ForwardState) : ForwardEvent → Option ForwardState
  | .data chunk throws => some (onData boundary state chunk throws)
  | .written error => if state.pendingWrites = 0 then none else some (onWritten state error)
  | .ended => some (onEnd state)
  | .errored => some (fail state)

def ForwardEvent.chunk? : ForwardEvent → Option Bytes
  | .data chunk _ => some chunk
  | _ => none

/-- A run over the chunks of a stream that is read without an error: the end of the stream is the
last that is read, and no write is left pending. -/
structure IsRun (boundary : Bytes) (chunks : List Bytes) (events : List ForwardEvent)
    (final : ForwardState) : Prop where
  steps : events.foldlM (step boundary) initial = some final
  ended : ∃ before after, events = before ++ .ended :: after ∧
    before.filterMap ForwardEvent.chunk? = chunks ∧
    (∀ event ∈ before, event ≠ .ended ∧ event ≠ .errored) ∧
    ∀ event ∈ after, ∃ error, event = .written error
  done : final.pendingWrites = 0

/-! ## What is to be -/

def EndsAt (chunks : List Bytes) (part : Bytes) : Prop :=
  ∃ before, before <+: chunks ∧ before ≠ [] ∧ before.flatten = part

def forwarded (boundary stream : Bytes) : Bytes :=
  match findFirst boundary stream with
  | some (before, _) => before
  | none => released boundary stream

/-- The verdict is that the boundary ends the stream and all writes succeeded, whichever it is;
and if no write failed, what has been written only depends on the stream. -/
structure Meets (boundary stream : Bytes) (final : ForwardState) : Prop where
  written : final.failed = false → final.written = forwarded boundary stream
  settled : final.settled ≠ none
  resolved_iff : final.settled = some .resolved ↔
    (∃ before, First boundary stream before []) ∧ final.failed = false

/-! ## How far a run is -/

variable {boundary stream p c before after part : Bytes} {chunks : List Bytes}
  {state : ForwardState}

theorem EndsAt.append (h : EndsAt chunks part) (chunk : Bytes) :
    EndsAt (chunks ++ [chunk]) part := by
  obtain ⟨front, hfront, hne, hpart⟩ := h
  exact ⟨front, hfront.trans (List.prefix_append chunks [chunk]), hne, hpart⟩

theorem endsAt_append_iff {chunk : Bytes} : EndsAt (chunks ++ [chunk]) part ↔
    EndsAt chunks part ∨ chunks.flatten ++ chunk = part := by
  constructor
  · rintro ⟨front, hfront, hne, hpart⟩
    rcases List.prefix_concat_iff.mp hfront with rfl | hfront
    · right
      simpa using hpart
    · exact .inl ⟨front, hfront, hne, hpart⟩
  · rintro (h | h)
    · exact h.append chunk
    · exact ⟨chunks ++ [chunk], List.prefix_rfl, by simp, by simpa using h⟩

theorem first_append (h : First boundary stream before after) (c : Bytes) :
    First boundary (stream ++ c) before (after ++ c) where
  eq := by rw [h.eq, List.append_assoc]
  le before' after' heq := by
    by_contra hlt
    have hinside : before' ++ boundary <+: stream := by
      refine List.prefix_of_prefix_length_le ⟨after', heq.symm⟩ (List.prefix_append stream c) ?_
      have hlength := congrArg List.length h.eq
      simp only [List.length_append] at hlength ⊢
      omega
    obtain ⟨rest, hrest⟩ := hinside
    exact hlt (h.le before' rest hrest.symm)

def NotYet (boundary : Bytes) (chunks : List Bytes) : Prop :=
  chunks = [] ∨ ¬ boundary <:+: chunks.flatten

theorem first_flatten_append_iff (h : NotYet boundary chunks) :
    First boundary (chunks.flatten ++ c) before after ↔
      ∃ rest, before = released boundary chunks.flatten ++ rest ∧
        First boundary (retained boundary chunks.flatten ++ c) rest after := by
  rcases h with rfl | hno
  · simp
  · exact first_append_iff hno

theorem not_infix_flatten_append (h : NotYet boundary chunks)
    (hno : ¬ boundary <:+: retained boundary chunks.flatten ++ c) :
    ¬ boundary <:+: chunks.flatten ++ c := by
  rcases h with rfl | hbefore
  · simpa using hno
  · rwa [infix_append_iff hbefore]

/-- How far a run is that has read some chunks, and whether the stream has ended. -/
inductive Phase (boundary : Bytes) (chunks : List Bytes) (ended : Bool) (state : ForwardState) :
    Prop
  | failed (hfailed : state.failed = true) (hsettled : state.settled = some .rejected)
  | searching (hfailed : state.failed = false) (hno : NotYet boundary chunks)
      (hseen : state.boundarySeen = false)
      (htail : state.tail = retained boundary chunks.flatten)
      (hwritten : state.written = released boundary chunks.flatten)
      (hsettled : state.settled = if ended then some .rejected else none)
  | reached {before after : Bytes} (hfailed : state.failed = false)
      (hfirst : First boundary chunks.flatten before after) (hseen : state.boundarySeen = true)
      (hwritten : state.written = before) (hends : EndsAt chunks (before ++ boundary))
      (hsettled : state.settled = if state.pendingWrites = 0 then some .resolved else none)
  | passed {before after : Bytes} (hfailed : state.failed = false)
      (hfirst : First boundary chunks.flatten before after) (hseen : state.boundarySeen = true)
      (hwritten : state.written = before) (hafter : after ≠ [])
      (hends : ¬ EndsAt chunks (before ++ boundary)) (hsettled : state.settled = some .rejected)

theorem phase_initial : Phase boundary [] false initial :=
  .searching rfl (.inl rfl) rfl (by simp [initial]) (by simp [initial]) rfl

theorem fail_of_settled {verdict : Verdict} (h : state.settled = some verdict) :
    fail state = state := by
  rw [fail, h, Option.isSome_some, if_pos rfl]

theorem fail_of_open (h : state.settled = none) :
    fail state = { state with settled := some .rejected } := by
  rw [fail, h, Option.isSome_none, if_neg Bool.false_ne_true]

theorem maybeResolve_of_settled {verdict : Verdict} (h : state.settled = some verdict) :
    maybeResolve state = state := by
  rw [maybeResolve, h, Option.isSome_some, Bool.true_or, Bool.true_or, if_pos rfl]

theorem maybeResolve_of_unseen (h : state.boundarySeen = false) : maybeResolve state = state := by
  rw [maybeResolve, h, Bool.not_false, Bool.or_true, Bool.true_or, if_pos rfl]

theorem maybeResolve_of_seen (hsettled : state.settled = none)
    (hseen : state.boundarySeen = true) : maybeResolve state =
      { state with settled := if state.pendingWrites = 0 then some .resolved else none } := by
  obtain ⟨tail, pendingWrites, seen, settled, written, failed⟩ := state
  obtain rfl : settled = none := hsettled
  obtain rfl : seen = true := hseen
  by_cases hpending : pendingWrites = 0 <;> simp [maybeResolve, hpending]

theorem write_cases (hsettled : state.settled = none) (hfailed : state.failed = false)
    (buffer : Bytes) (throws : Bool) :
    ((write state buffer throws).failed = true ∧
      (write state buffer throws).settled = some .rejected) ∨
    (write state buffer throws).failed = false ∧ (write state buffer throws).settled = none ∧
      (write state buffer throws).written = state.written ++ buffer ∧
      (write state buffer throws).boundarySeen = state.boundarySeen := by
  rw [write]
  cases buffer with
  | nil => exact .inr ⟨hfailed, hsettled, by simp, rfl⟩
  | cons b buffer =>
    cases throws with
    | true => exact .inl (by simp [hsettled, fail])
    | false => exact .inr (by simp [hsettled, hfailed])

variable {next : ForwardState} {events : List ForwardEvent}

theorem found_phase {chunk : Bytes} (hno : NotYet boundary chunks)
    (hfirst : First boundary (chunks ++ [chunk]).flatten before after)
    (hseen : next.boundarySeen = true)
    (hnext : next.failed = true ∧ next.settled = some .rejected ∨
      next.failed = false ∧ next.settled = none ∧ next.written = before) :
    Phase boundary (chunks ++ [chunk]) false
      (if !after.isEmpty then fail next else maybeResolve next) := by
  have hflatten : (chunks ++ [chunk]).flatten = chunks.flatten ++ chunk := by simp
  rcases hnext with ⟨hfailed, hsettled⟩ | ⟨hfailed, hsettled, hwritten⟩
  · rw [fail_of_settled hsettled, maybeResolve_of_settled hsettled, ite_self]
    exact .failed hfailed hsettled
  · cases after with
    | nil =>
      rw [List.isEmpty_nil, Bool.not_true, if_neg Bool.false_ne_true,
        maybeResolve_of_seen hsettled hseen]
      refine .reached hfailed hfirst hseen hwritten (endsAt_append_iff.mpr (.inr ?_)) rfl
      rw [← hflatten, hfirst.eq, List.append_nil]
    | cons b after =>
      rw [List.isEmpty_cons, Bool.not_false, if_pos rfl, fail_of_open hsettled]
      refine .passed hfailed hfirst hseen hwritten (List.cons_ne_nil b after) ?_ rfl
      rw [endsAt_append_iff, not_or, ← hflatten]
      refine ⟨fun hearly => ?_, fun heq => ?_⟩
      · obtain ⟨front, hfront, hne, hpart⟩ := hearly
        rcases hno with rfl | hno
        · exact hne (List.prefix_nil.mp hfront)
        · obtain ⟨rest, rfl⟩ := hfront
          refine hno ?_
          rw [List.flatten_append, hpart]
          exact ⟨_, rest.flatten, rfl⟩
      · rw [hfirst.eq] at heq
        simp at heq

theorem Phase.data (h : Phase boundary chunks false state) (chunk : Bytes) (throws : Bool) :
    Phase boundary (chunks ++ [chunk]) false (onData boundary state chunk throws) := by
  have hflatten : (chunks ++ [chunk]).flatten = chunks.flatten ++ chunk := by simp
  cases h with
  | failed hfailed hsettled =>
    rw [onData, hsettled]
    exact .failed hfailed hsettled
  | @reached before after hfailed hfirst hseen hwritten hends hsettled =>
    rw [onData, hseen, Bool.or_true, if_pos rfl]
    exact .reached hfailed (hflatten ▸ first_append hfirst chunk) hseen hwritten
      (hends.append chunk) hsettled
  | @passed before after hfailed hfirst hseen hwritten hafter hends hsettled =>
    rw [onData, hseen, Bool.or_true, if_pos rfl]
    refine .passed hfailed (hflatten ▸ first_append hfirst chunk) hseen hwritten
      (by simp [hafter]) ?_ hsettled
    rw [endsAt_append_iff, not_or]
    refine ⟨hends, fun heq => hafter ?_⟩
    have hlength := congrArg List.length heq
    rw [hfirst.eq, List.length_append, List.length_append] at hlength
    exact List.eq_nil_of_length_eq_zero (by omega)
  | searching hfailed hno hseen htail hwritten hsettled =>
    have hopen : state.settled = none := hsettled
    rw [onData, hopen, hseen, Option.isSome_none, Bool.or_self, if_neg Bool.false_ne_true]
    dsimp only
    rw [htail]
    cases hfind : findFirst boundary (retained boundary chunks.flatten ++ chunk) with
    | none =>
      have hnot := findFirst_eq_none_iff.mp hfind
      dsimp only
      generalize hdata : retained boundary chunks.flatten ++ chunk = data at hnot ⊢
      have hsplit : data.length - min (boundary.length - 1) data.length =
          data.length - (boundary.length - 1) := by omega
      rw [hsplit]
      rcases write_cases hopen hfailed (data.take (data.length - (boundary.length - 1))) throws with
        ⟨hfailed', hsettled'⟩ | ⟨hfailed', hsettled', hwritten', hseen'⟩
      · exact .failed hfailed' hsettled'
      · refine .searching hfailed' (.inr ?_) (hseen'.trans hseen) ?_ ?_ hsettled'
        · rw [hflatten]
          exact not_infix_flatten_append hno (hdata ▸ hnot)
        · rw [hflatten, retained_append, hdata]
          rfl
        · rw [hflatten, released_append, hdata, ← hwritten]
          exact hwritten'
    | some parts =>
      obtain ⟨early, trailing⟩ := parts
      have hfirst : First boundary (chunks ++ [chunk]).flatten
          (released boundary chunks.flatten ++ early) trailing := by
        rw [hflatten]
        exact (first_flatten_append_iff hno).mpr ⟨early, rfl, first_of_findFirst hfind⟩
      refine found_phase hno hfirst rfl ?_
      rcases write_cases hopen hfailed early throws with
        ⟨hfailed', hsettled'⟩ | ⟨hfailed', hsettled', hwritten', -⟩
      · exact .inl ⟨hfailed', hsettled'⟩
      · exact .inr ⟨hfailed', hsettled', hwritten'.trans (by rw [hwritten])⟩

theorem failed_phase {ended : Bool} (hfailed : next.failed = true)
    (hsettled : next.settled = none ∨ next.settled = some .rejected) :
    Phase boundary chunks ended (fail next) := by
  rcases hsettled with hsettled | hsettled
  · rw [fail_of_open hsettled]
    exact .failed hfailed rfl
  · rw [fail_of_settled hsettled]
    exact .failed hfailed hsettled

theorem Phase.onWritten {ended : Bool} (h : Phase boundary chunks ended state)
    (hpending : state.pendingWrites ≠ 0) (error : Bool) :
    Phase boundary chunks ended (onWritten state error) := by
  rw [RunnerOutput.onWritten]
  cases error with
  | true =>
    refine failed_phase rfl ?_
    cases h with
    | failed hfailed hsettled => exact .inr hsettled
    | searching hfailed hno hseen htail hwritten hsettled =>
      cases ended with
      | false => exact .inl hsettled
      | true => exact .inr hsettled
    | reached hfailed hfirst hseen hwritten hends hsettled =>
      rw [if_neg hpending] at hsettled
      exact .inl hsettled
    | passed hfailed hfirst hseen hwritten hafter hends hsettled => exact .inr hsettled
  | false =>
    dsimp only
    rw [if_neg Bool.false_ne_true]
    generalize hnext : { state with pendingWrites := state.pendingWrites - 1 } = next
    have hsettled' : next.settled = state.settled := hnext ▸ rfl
    have hseen' : next.boundarySeen = state.boundarySeen := hnext ▸ rfl
    have hwritten' : next.written = state.written := hnext ▸ rfl
    have hfailed' : next.failed = state.failed := hnext ▸ rfl
    have htail' : next.tail = state.tail := hnext ▸ rfl
    cases h with
    | failed hfailed hsettled =>
      rw [maybeResolve_of_settled (hsettled'.trans hsettled)]
      exact .failed (hfailed'.trans hfailed) (hsettled'.trans hsettled)
    | searching hfailed hno hseen htail hwritten hsettled =>
      rw [maybeResolve_of_unseen (hseen'.trans hseen)]
      exact .searching (hfailed'.trans hfailed) hno (hseen'.trans hseen) (htail'.trans htail)
        (hwritten'.trans hwritten) (hsettled'.trans hsettled)
    | reached hfailed hfirst hseen hwritten hends hsettled =>
      rw [if_neg hpending] at hsettled
      rw [maybeResolve_of_seen (hsettled'.trans hsettled) (hseen'.trans hseen)]
      exact .reached (hfailed'.trans hfailed) hfirst (hseen'.trans hseen)
        (hwritten'.trans hwritten) hends rfl
    | passed hfailed hfirst hseen hwritten hafter hends hsettled =>
      rw [maybeResolve_of_settled (hsettled'.trans hsettled)]
      exact .passed (hfailed'.trans hfailed) hfirst (hseen'.trans hseen)
        (hwritten'.trans hwritten) hafter hends (hsettled'.trans hsettled)

theorem Phase.onEnd (h : Phase boundary chunks false state) :
    Phase boundary chunks true (onEnd state) := by
  rw [RunnerOutput.onEnd]
  cases h with
  | failed hfailed hsettled =>
    rw [fail_of_settled hsettled, ite_self]
    exact .failed hfailed hsettled
  | searching hfailed hno hseen htail hwritten hsettled =>
    rw [hseen, Bool.not_false, if_pos rfl, fail_of_open hsettled]
    exact .searching hfailed hno hseen htail hwritten rfl
  | reached hfailed hfirst hseen hwritten hends hsettled =>
    rw [hseen, Bool.not_true, if_neg Bool.false_ne_true]
    exact .reached hfailed hfirst hseen hwritten hends hsettled
  | passed hfailed hfirst hseen hwritten hafter hends hsettled =>
    rw [hseen, Bool.not_true, if_neg Bool.false_ne_true]
    exact .passed hfailed hfirst hseen hwritten hafter hends hsettled

theorem Phase.reading (h : Phase boundary chunks false state)
    (hevents : ∀ event ∈ events, event ≠ .ended ∧ event ≠ .errored)
    (hsteps : events.foldlM (step boundary) state = some next) :
    Phase boundary (chunks ++ events.filterMap ForwardEvent.chunk?) false next := by
  induction events generalizing chunks state with
  | nil =>
    obtain rfl : state = next := Option.some.inj hsteps
    rwa [List.filterMap_nil, List.append_nil]
  | cons event events ih =>
    rw [List.foldlM_cons] at hsteps
    obtain ⟨middle, hstep, hsteps⟩ := Option.bind_eq_some_iff.mp hsteps
    have hrest := fun e he => hevents e (List.mem_cons_of_mem event he)
    cases event with
    | data chunk throws =>
      obtain rfl := Option.some.inj hstep
      have := ih (h.data chunk throws) hrest hsteps
      rwa [List.append_assoc] at this
    | written error =>
      rw [step] at hstep
      split at hstep
      next => cases hstep
      next hpending =>
        obtain rfl := Option.some.inj hstep
        exact ih (h.onWritten hpending error) hrest hsteps
    | ended => exact absurd rfl (hevents .ended List.mem_cons_self).1
    | errored => exact absurd rfl (hevents .errored List.mem_cons_self).2

theorem Phase.writing (h : Phase boundary chunks true state)
    (hevents : ∀ event ∈ events, ∃ error, event = .written error)
    (hsteps : events.foldlM (step boundary) state = some next) :
    Phase boundary chunks true next := by
  induction events generalizing state with
  | nil =>
    obtain rfl : state = next := Option.some.inj hsteps
    exact h
  | cons event events ih =>
    rw [List.foldlM_cons] at hsteps
    obtain ⟨middle, hstep, hsteps⟩ := Option.bind_eq_some_iff.mp hsteps
    obtain ⟨error, rfl⟩ := hevents event List.mem_cons_self
    rw [step] at hstep
    split at hstep
    next => cases hstep
    next hpending =>
      obtain rfl := Option.some.inj hstep
      exact ih (h.onWritten hpending error)
        (fun e he => hevents e (List.mem_cons_of_mem _ he)) hsteps

theorem IsRun.phase {final : ForwardState} (h : IsRun boundary chunks events final) :
    Phase boundary chunks true final := by
  obtain ⟨before, after, rfl, hchunks, hbefore, hafter⟩ := h.ended
  have hsteps := h.steps
  rw [List.foldlM_append] at hsteps
  obtain ⟨middle, hread, hsteps⟩ := Option.bind_eq_some_iff.mp hsteps
  have hphase := phase_initial.reading hbefore hread
  rw [List.nil_append, hchunks] at hphase
  exact hphase.onEnd.writing hafter hsteps

/-! ## The verdict -/

theorem forwarded_of_first (h : First boundary stream before after) :
    forwarded boundary stream = before := by
  rw [forwarded, findFirst_eq_some_iff.mpr h]

theorem forwarded_of_not_infix (hno : ¬ boundary <:+: stream) :
    forwarded boundary stream = released boundary stream := by
  rw [forwarded, findFirst_eq_none_iff.mpr hno]

theorem meets_iff_of_written {final : ForwardState} (hfailed : final.failed = false)
    (hwritten : final.written = forwarded boundary stream) (hsettled : final.settled ≠ none) :
    Meets boundary stream final ↔
      (final.settled = some .resolved ↔ ∃ before, First boundary stream before []) := by
  constructor
  · intro h
    rw [h.resolved_iff, and_iff_left hfailed]
  · exact fun h => ⟨fun _ => hwritten, hsettled, by rw [h, and_iff_left hfailed]⟩

theorem forall_first_iff (h : First boundary stream before after) {P : Bytes → Bytes → Prop} :
    (∀ before' after', First boundary stream before' after' → P before' after') ↔
      P before after := by
  refine ⟨fun hall => hall before after h, fun hP before' after' h' => ?_⟩
  obtain ⟨rfl, rfl⟩ := h.unique h'
  exact hP

theorem exists_first_nil_iff (h : First boundary stream before after) :
    (∃ before', First boundary stream before' []) ↔ after = [] := by
  constructor
  · rintro ⟨before', h'⟩
    exact (h.unique h').2
  · rintro rfl
    exact ⟨before, h⟩

/-- A run does what is to be if a write fails, or the boundary ends the stream exactly where its
end is the end of a chunk. -/
theorem meets_iff {events : List ForwardEvent} {final : ForwardState}
    (h : IsRun boundary chunks events final) :
    Meets boundary chunks.flatten final ↔ final.failed = true ∨
      ∀ before after, First boundary chunks.flatten before after →
        (after = [] ↔ EndsAt chunks (before ++ boundary)) := by
  cases h.phase with
  | failed hfailed hsettled =>
    refine iff_of_true ⟨?_, ?_, ?_⟩ (.inl hfailed)
    · intro hno
      exact absurd hfailed (hno ▸ Bool.false_ne_true)
    · exact hsettled ▸ Option.some_ne_none _
    · rw [hsettled, hfailed]
      simp
  | searching hfailed hno hseen htail hwritten hsettled =>
    rw [hfailed, or_iff_right Bool.false_ne_true]
    rw [if_pos rfl] at hsettled
    rcases hno with rfl | hno
    · -- no chunk is read, so that not even an empty boundary is seen
      cases boundary with
      | nil =>
        have hfirst : First ([] : Bytes) [] [] [] := first_of_prefix List.nil_prefix
        refine iff_of_false (fun hmeets => ?_) (fun hall => ?_)
        · have := hmeets.resolved_iff.mpr ⟨⟨[], hfirst⟩, hfailed⟩
          rw [hsettled] at this
          cases this
        · obtain ⟨front, hfront, hne, -⟩ := (hall [] [] hfirst).mp rfl
          exact hne (List.prefix_nil.mp hfront)
      | cons b boundary =>
        have hno : ¬ b :: boundary <:+: ([] : Bytes) := by simp
        rw [List.flatten_nil] at hwritten ⊢
        rw [meets_iff_of_written hfailed (by rw [hwritten, forwarded_of_not_infix hno])
          (hsettled ▸ Option.some_ne_none _), hsettled]
        refine iff_of_true (iff_of_false nofun ?_) fun _ _ hfirst => absurd hfirst.infix hno
        exact fun ⟨_, hfirst⟩ => hno hfirst.infix
    · rw [meets_iff_of_written hfailed (by rw [hwritten, forwarded_of_not_infix hno])
        (hsettled ▸ Option.some_ne_none _), hsettled]
      refine iff_of_true (iff_of_false nofun ?_) fun _ _ hfirst => absurd hfirst.infix hno
      exact fun ⟨_, hfirst⟩ => hno hfirst.infix
  | @reached before after hfailed hfirst hseen hwritten hends hsettled =>
    rw [h.done, if_pos rfl] at hsettled
    rw [meets_iff_of_written hfailed (by rw [hwritten, forwarded_of_first hfirst])
      (hsettled ▸ Option.some_ne_none _), hfailed, or_iff_right Bool.false_ne_true, hsettled,
      exists_first_nil_iff hfirst, forall_first_iff hfirst, eq_self, true_iff,
      iff_true_right hends]
  | @passed before after hfailed hfirst hseen hwritten hafter hends hsettled =>
    rw [meets_iff_of_written hfailed (by rw [hwritten, forwarded_of_first hfirst])
      (hsettled ▸ Option.some_ne_none _), hfailed, or_iff_right Bool.false_ne_true, hsettled,
      exists_first_nil_iff hfirst, forall_first_iff hfirst]
    exact iff_of_true (iff_of_false nofun hafter) (iff_of_false hafter hends)

/-- A boundary that is split over two chunks, the first of which is handed on before the second
is read. -/
theorem meets_splitBoundary :
    Meets [88, 89] [97, 98, 88, 89]
      { tail := [], pendingWrites := 0, boundarySeen := true, settled := some .resolved
        written := [97, 98], failed := false } := by
  have hrun : IsRun [88, 89] [[97, 98, 88], [89]]
      [.data [97, 98, 88] false, .written false, .data [89] false, .ended]
      { tail := [], pendingWrites := 0, boundarySeen := true, settled := some .resolved
        written := [97, 98], failed := false } :=
    ⟨by decide, ⟨[.data [97, 98, 88] false, .written false, .data [89] false], [], rfl, rfl,
      by decide, by simp⟩, rfl⟩
  refine (meets_iff hrun).mpr (.inr fun before after hfirst => ?_)
  have hfind : findFirst [88, 89] [97, 98, 88, 89] = some (before, after) :=
    findFirst_eq_some_iff.mpr hfirst
  have hparts : findFirst ([88, 89] : Bytes) [97, 98, 88, 89] = some ([97, 98], []) := by decide
  obtain ⟨rfl, rfl⟩ := Prod.mk.inj (Option.some.inj (hparts.symm.trans hfind))
  exact iff_of_true rfl ⟨[[97, 98, 88], [89]], List.prefix_rfl, by decide, rfl⟩

/-- What follows the boundary in a chunk of its own is not noticed, and the promise is resolved;
in the chunk of the boundary it is. -/
theorem not_meets_laterChunk :
    (∃ events final, IsRun [88] [[97, 98, 88], [121]] events final ∧
      final.settled = some .resolved ∧ ¬ Meets [88] [97, 98, 88, 121] final) ∧
    ∃ events final, IsRun [88] [[97, 98, 88, 121]] events final ∧
      final.settled = some .rejected ∧ final.failed = false := by
  have hlater : IsRun [88] [[97, 98, 88], [121]]
      [.data [97, 98, 88] false, .written false, .data [121] false, .ended]
      { tail := [], pendingWrites := 0, boundarySeen := true, settled := some .resolved
        written := [97, 98], failed := false } :=
    ⟨by decide, ⟨[.data [97, 98, 88] false, .written false, .data [121] false], [], rfl, rfl,
      by decide, by simp⟩, rfl⟩
  have hsame : IsRun [88] [[97, 98, 88, 121]]
      [.data [97, 98, 88, 121] false, .written false, .ended]
      { tail := [], pendingWrites := 0, boundarySeen := true, settled := some .rejected
        written := [97, 98], failed := false } :=
    ⟨by decide, ⟨[.data [97, 98, 88, 121] false, .written false], [], rfl, rfl,
      by decide, by simp⟩, rfl⟩
  refine ⟨⟨_, _, hlater, rfl, fun hmeets => ?_⟩, _, _, hsame, rfl, rfl⟩
  obtain ⟨⟨before, hfirst⟩, -⟩ := hmeets.resolved_iff.mp rfl
  have hfind : findFirst [88] [97, 98, 88, 121] = some (before, []) :=
    findFirst_eq_some_iff.mpr hfirst
  revert hfind
  simp [findFirst]

end RunnerOutput

end Computer
