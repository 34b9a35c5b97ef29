import ChatgptSystem.Foundations.Machine
import ChatgptSystem.Core.Text
import Mathlib.Data.Int.Notation
import Mathlib.Order.Basic

/-!
# The supervisor of the native helper

`ComputerNativeSupervisor` of `computer/computer-native-supervisor.ts` starts the helper process for
the first request, replaces it when its client has failed, and ends it. A method that waits is cut
at its `await`s, each continuation an event of its own.

* `HostState` — the helpers there have been, and the start, the terminations and the `close` in
  progress;
* `beginRequest`, `startHost`, `invalidateRecord`, `terminateRecord`, `closeOwnedHost`, … — the
  methods;
* `HostEvent`, `nativeSupervisor` — what may happen, in any order;
* `sole_of_orderly` — one helper at a time and none after `close`, in orderly runs;
  `two_helpers_of_run` shows two others.
-/

namespace Computer

/-! ## The data -/

/-- A helper process with its `HostRecord`. -/
structure HostChild where
  alive : Bool
  /-- The process could not be started; its `error` event is still to come. -/
  spawnFailed : Bool
  /-- The promise `closed` has been resolved by the `close` event. -/
  closed : Bool
  clientClosed : Bool

inductive HostSignal where
  | SIGTERM
  | SIGKILL
  deriving DecidableEq

/-- The promise of `startHost`. -/
inductive StartStage where
  /-- It waits for the `spawn` or `error` event of this child. -/
  | spawning (child : ℕ)
  | settled
  deriving DecidableEq

/-- What a call of `terminateRecord` waits for. -/
inductive TerminationStage where
  /-- The standard input has been ended. -/
  | ended
  | terminated
  | killed
  | done
  deriving DecidableEq

structure HostTermination where
  child : ℕ
  stage : TerminationStage

/-- What `closeOwnedHost` waits for. -/
inductive CloseStage where
  | notCalled
  | start
  | termination (termination : ℕ)
  | settled (terminations : List ℕ)
  | resolved
  deriving DecidableEq

structure ComputerNativeSupervisorOptions where
  enabled : Bool
  requestTimeoutMs : ℕ

structure HostState where
  children : List HostChild
  signals : List (ℕ × HostSignal)
  current : Option ℕ
  startPromise : Option StartStage
  closing : Bool
  terminations : List HostTermination
  /-- The set of terminations that have not been taken out of it. -/
  terminating : List ℕ
  closePromise : CloseStage

/-- What `spawnImpl` does. Node gives the three pipes to every child that runs. -/
inductive SpawnAnswer where
  | throws
  | withoutPipes
  | child
  /-- A child whose `error` event is still to come. -/
  | failingChild

namespace HostState

def initial : HostState :=
  { children := [], signals := [], current := none, startPromise := none, closing := false
    terminations := [], terminating := [], closePromise := .notCalled }

def Alive (s : HostState) (child : ℕ) : Prop :=
  s.children[child]?.any HostChild.alive = true

instance (s : HostState) (child : ℕ) : Decidable (s.Alive child) :=
  inferInstanceAs (Decidable (_ = _))

def hasExited (s : HostState) (child : ℕ) : Bool :=
  s.children[child]?.any fun record => !record.alive

def isClosed (s : HostState) (child : ℕ) : Bool :=
  s.children[child]?.any HostChild.closed

def hasFailed (s : HostState) (child : ℕ) : Bool :=
  s.children[child]?.any HostChild.spawnFailed

def modify (s : HostState) (child : ℕ) (f : HostChild → HostChild) : HostState :=
  { s with children := s.children.modify child f }

def exit (child : ℕ) (s : HostState) : HostState :=
  s.modify child fun record => { record with alive := false }

def kill (s : HostState) (child : ℕ) (signal : HostSignal) : HostState :=
  { s with signals := s.signals ++ [(child, signal)] }

/-! ## Starting a helper -/

/-- Whether `request` accepts the timeout; `none` stands for a number that is not an integer. -/
def acceptsTimeout (options : ComputerNativeSupervisorOptions) (timeoutMs : Option ℤ) : Bool :=
  timeoutMs.any fun ms => 0 < ms && ms ≤ max (options.requestTimeoutMs : ℤ) 61000

def startsHelper (options : ComputerNativeSupervisorOptions) (timeoutMs : Option ℤ)
    (s : HostState) : Bool :=
  options.enabled && !s.closing && acceptsTimeout options timeoutMs && s.current.isNone &&
    s.startPromise.isNone

/-- `startHost`, until it waits for the child. -/
def startHost (answer : SpawnAnswer) (s : HostState) : HostState :=
  let child : HostChild :=
    { alive := true, spawnFailed := false, closed := false, clientClosed := false }
  match answer with
  | .throws => { s with startPromise := some .settled }
  | .withoutPipes =>
    { s with
      children := s.children ++ [{ child with alive := false, spawnFailed := true }]
      startPromise := some .settled }.kill s.children.length .SIGTERM
  | .child =>
    { s with
      children := s.children ++ [child]
      startPromise := some (.spawning s.children.length) }
  | .failingChild =>
    { s with
      children := s.children ++ [{ child with alive := false, spawnFailed := true }]
      startPromise := some (.spawning s.children.length) }

/-- `request`, until it waits for a helper. -/
def beginRequest (options : ComputerNativeSupervisorOptions) (timeoutMs : Option ℤ)
    (answer : SpawnAnswer) (s : HostState) : HostState :=
  if s.startsHelper options timeoutMs then s.startHost answer else s

/-- `startHost`, after the `spawn` event. -/
def hostSpawned (child : ℕ) (s : HostState) : HostState :=
  let s := { s with startPromise := some .settled }
  if s.closing then s.kill child .SIGTERM else { s with current := some child }

/-! ## Ending a helper -/

def addTermination (child : ℕ) (stage : TerminationStage) (s : HostState) : HostState :=
  { s with terminations := s.terminations ++ [{ child, stage }] }

/-- `terminateRecord`, until it waits. -/
def terminateRecord (child : ℕ) (gracefulStdin : Bool) (s : HostState) : HostState :=
  if gracefulStdin then s.addTermination child .ended
  else (s.addTermination child .terminated).kill child .SIGTERM

def startTermination (child : ℕ) (s : HostState) : HostState :=
  { s.terminateRecord child false with terminating := s.terminating ++ [s.terminations.length] }

def closeClient (child : ℕ) (s : HostState) : HostState :=
  s.modify child fun record => { record with clientClosed := true }

def invalidateRecord (child : ℕ) (s : HostState) : HostState :=
  if s.current ≠ some child then s
  else ({ s with current := none }.closeClient child).startTermination child

/-- The listener of the `close` event of a child. -/
def onClose (child : ℕ) (s : HostState) : HostState :=
  let s := s.modify child fun record => { record with closed := true }
  if s.current ≠ some child then s
  else
    let s := { s with current := none }
    if s.closing then s else s.closeClient child

/-- The listener of the `error` event of a child that has been started. -/
def onError (child : ℕ) (s : HostState) : HostState :=
  if s.current = some child ∧ s.closing = false then s.invalidateRecord child else s

def setStage (number : ℕ) (stage : TerminationStage) (s : HostState) : HostState :=
  { s with terminations := s.terminations.modify number fun t => { t with stage } }

/-- `terminateRecord`, after `waitForClose`. -/
def afterWait (number : ℕ) (termination : HostTermination) (closed : Bool) (s : HostState) :
    HostState :=
  match termination.stage with
  | .ended =>
    if closed then s.setStage number .done
    else (s.setStage number .terminated).kill termination.child .SIGTERM
  | .terminated =>
    if closed then s.setStage number .done
    else (s.setStage number .killed).kill termination.child .SIGKILL
  | .killed | .done => s.setStage number .done

/-- `closeOwnedHost`, after its own termination. -/
def closeRest (s : HostState) : HostState :=
  if s.terminating = [] then { s with closePromise := .resolved }
  else { s with closePromise := .settled s.terminating }

/-- `closeOwnedHost`, after the start. -/
def closeCurrent (s : HostState) : HostState :=
  match s.current with
  | none => s.closeRest
  | some child =>
    { ({ s with current := none }.closeClient child).terminateRecord child true with
      closePromise := .termination s.terminations.length }

/-- `close`, until it waits. -/
def close (s : HostState) : HostState :=
  if s.closePromise ≠ .notCalled then s
  else
    let s := { s with closing := true }
    if s.startPromise.isSome then { s with closePromise := .start } else s.closeCurrent

def stageOf (s : HostState) (number : ℕ) : Option TerminationStage :=
  s.terminations[number]?.map HostTermination.stage

end HostState

/-! ## What may happen -/

inductive HostEvent where
  | request (timeoutMs : Option ℤ) (answer : SpawnAnswer)
  /-- The child of the start emits `spawn`. -/
  | spawned
  /-- The child of the start emits `error`. -/
  | spawnError
  /-- `ensureStarted` forgets the promise of the start. -/
  | forgetStart
  /-- The client of a helper has failed. -/
  | fatal (child : ℕ)
  | error (child : ℕ)
  /-- A helper exits, for whatever reason. -/
  | exits (child : ℕ)
  | closes (child : ℕ)
  /-- A termination goes on after `waitForClose`. -/
  | waited (number : ℕ) (closed : Bool)
  | forgetTermination (number : ℕ)
  | close
  /-- `closeOwnedHost` goes on after the start, after its own termination, or after the others. -/
  | closeContinues

open HostState in
/-- What the events do. A helper has exited when the wait after `SIGKILL` is over. -/
def nativeSupervisor (options : ComputerNativeSupervisorOptions) : Machine HostState HostEvent
  | s, .request timeoutMs answer => some (s.beginRequest options timeoutMs answer)
  | s, .spawned =>
    match s.startPromise with
    | some (.spawning child) =>
      if s.hasFailed child then none else some (s.hostSpawned child)
    | _ => none
  | s, .spawnError =>
    match s.startPromise with
    | some (.spawning child) =>
      if s.hasFailed child then
        some { s with startPromise := some .settled }
      else none
    | _ => none
  | s, .forgetStart =>
    if s.startPromise = some .settled then some { s with startPromise := none } else none
  | s, .fatal child => some (s.invalidateRecord child)
  | s, .error child => some (s.onError child)
  | s, .exits child => some (s.exit child)
  | s, .closes child => if s.hasExited child then some (s.onClose child) else none
  | s, .waited number closed =>
    match s.terminations[number]? with
    | some termination =>
      if termination.stage ≠ .done ∧ (closed = true → s.isClosed termination.child = true) ∧
          (termination.stage = .killed → s.hasExited termination.child = true) then
        some (s.afterWait number termination closed)
      else none
    | none => none
  | s, .forgetTermination number =>
    if s.stageOf number = some .done then
      some { s with terminating := s.terminating.filter (· ≠ number) }
    else none
  | s, .close => some s.close
  | s, .closeContinues =>
    match s.closePromise with
    | .start => if s.startPromise.all (· = .settled) then some s.closeCurrent else none
    | .termination number => if s.stageOf number = some .done then some s.closeRest else none
    | .settled numbers =>
      if ∀ number ∈ numbers, s.stageOf number = some .done then
        some { s with closePromise := .resolved }
      else none
    | _ => none

/-! ## One helper at a time -/

/-- What the supervisor relies on: no request starts a helper while one that is being terminated
runs, and no helper comes up once `close` has been called. -/
def OrderlyHost (options : ComputerNativeSupervisorOptions) (s : HostState) : HostEvent → Prop
  | .request timeoutMs _ => s.startsHelper options timeoutMs = true →
      ∀ termination ∈ s.terminations, ¬ s.Alive termination.child
  | .spawned => s.closing = false
  | _ => True

instance (options : ComputerNativeSupervisorOptions) (s : HostState) :
    DecidablePred (OrderlyHost options s)
  | .request _ _ => inferInstanceAs (Decidable (_ → ∀ termination ∈ s.terminations, _))
  | .spawned => inferInstanceAs (Decidable (_ = _))
  | .spawnError | .forgetStart | .fatal _ | .error _ | .exits _ | .closes _ | .waited _ _
  | .forgetTermination _ | .close | .closeContinues => .isTrue trivial

/-- One helper runs at a time, and none once `close` has been resolved. -/
structure Sole (s : HostState) : Prop where
  one : ∀ {j k : ℕ}, s.Alive j → s.Alive k → j = k
  closed : s.closePromise = .resolved → ∀ child, ¬ s.Alive child

/-- Every helper that runs is the current one, or is being started or terminated. -/
structure HostInv (s : HostState) : Prop where
  one : ∀ {j k : ℕ}, s.Alive j → s.Alive k → j = k
  held : ∀ {child : ℕ}, s.Alive child → s.current = some child ∨
    s.startPromise = some (.spawning child) ∨ ∃ (number : ℕ) (stage : TerminationStage),
      s.terminations[number]? = some ⟨child, stage⟩ ∧ stage ≠ .done ∧
        (number ∈ s.terminating ∨ s.closePromise = .termination number)
  done : ∀ {number child : ℕ}, s.terminations[number]? = some ⟨child, .done⟩ →
    s.hasExited child = true
  closed : ∀ {child : ℕ}, s.isClosed child = true → s.hasExited child = true
  failed : ∀ {child : ℕ}, s.hasFailed child = true → s.hasExited child = true
  starting : ∀ {child : ℕ}, s.startPromise = some (.spawning child) → s.current = none
  closing : s.closing = true ↔ s.closePromise ≠ .notCalled
  idle : s.closePromise ≠ .notCalled → s.closePromise ≠ .start →
    s.current = none ∧ ∀ child, s.startPromise ≠ some (.spawning child)
  awaited : ∀ {numbers : List ℕ}, s.closePromise = .settled numbers →
    ∀ number ∈ s.terminating, number ∈ numbers
  resolved : s.closePromise = .resolved → ∀ child, ¬ s.Alive child

section Invariant

open HostState

variable {options : ComputerNativeSupervisorOptions} {s : HostState} {child number : ℕ}

theorem not_alive_of_hasExited (h : s.hasExited child = true) : ¬ s.Alive child := by
  intro halive
  rw [hasExited] at h
  rw [Alive] at halive
  cases hrecord : s.children[child]? with
  | none => rw [hrecord] at h; cases h
  | some record =>
    rw [hrecord] at h halive
    simp only [Option.any_some] at h halive
    rw [halive] at h
    cases h

theorem any_of_modify {f : HostChild → HostChild} {p q : HostChild → Bool} {k : ℕ}
    (hf : child = k → ∀ record, p (f record) = true → q record = true)
    (hp : ∀ record, p record = true → q record = true)
    (h : (s.modify child f).children[k]?.any p = true) : s.children[k]?.any q = true := by
  rw [HostState.modify, List.getElem?_modify] at h
  cases hrecord : s.children[k]? with
  | none => rw [hrecord] at h; split at h <;> cases h
  | some record =>
    rw [hrecord] at h
    split at h
    next heq => exact hf heq record h
    next => exact hp record h

theorem any_modify {f : HostChild → HostChild} {p : HostChild → Bool} {k : ℕ}
    (hf : ∀ record, p record = true → p (f record) = true) (h : s.children[k]?.any p = true) :
    (s.modify child f).children[k]?.any p = true := by
  rw [HostState.modify, List.getElem?_modify]
  cases hrecord : s.children[k]? with
  | none => rw [hrecord] at h; cases h
  | some record =>
    rw [hrecord] at h
    split
    · exact hf record h
    · exact h

theorem any_append {p : HostChild → Bool} {record : HostChild} {k : ℕ} :
    (s.children ++ [record])[k]?.any p = true ↔
      s.children[k]?.any p = true ∨ k = s.children.length ∧ p record = true := by
  rw [List.getElem?_append]
  split
  next hlt => simp [Nat.ne_of_lt hlt]
  next hge =>
    rw [List.getElem?_eq_none (Nat.not_lt.mp hge), List.getElem?_singleton]
    split
    next heq => simp [show k = s.children.length by omega]
    next hne => simp [show k ≠ s.children.length by omega]

namespace HostInv

theorem initial : HostInv .initial where
  one h := by simp [HostState.initial, Alive] at h
  held h := by simp [HostState.initial, Alive] at h
  done h := by simp [HostState.initial] at h
  closed h := by simp [HostState.initial, isClosed] at h
  failed h := by simp [HostState.initial, hasFailed] at h
  starting h := by cases h
  closing := by simp [HostState.initial]
  idle h := absurd rfl h
  awaited h := by cases h
  resolved h := by cases h

section

variable (h : HostInv s)

include h

theorem addChild (hnone : ∀ k, ¬ s.Alive k) (hcurrent : s.current = none)
    (hopen : s.closing = false) {record : HostChild} {stage : StartStage}
    (hclosed : record.closed = false) (hfailed : record.spawnFailed = !record.alive)
    (hstage : record.alive = true → stage = .spawning s.children.length) :
    HostInv { s with children := s.children ++ [record], startPromise := some stage } := by
  have hcall : s.closePromise = .notCalled := by
    by_contra hne
    rw [h.closing.mpr hne] at hopen
    cases hopen
  -- only the new child can run
  have halive : ∀ {k : ℕ}, (s.children ++ [record])[k]?.any HostChild.alive = true →
      k = s.children.length ∧ record.alive = true := fun hk =>
    (any_append.mp hk).resolve_left (hnone _)
  refine ⟨fun hj hk => (halive hj).1.trans (halive hk).1.symm, fun hk => ?_,
    fun hdone => any_append.mpr (.inl (h.done hdone)), fun hk => ?_, fun hk => ?_,
    fun _ => hcurrent, h.closing, fun hne => absurd hcall hne, h.awaited, fun hresolved => ?_⟩
  · obtain ⟨rfl, hrecord⟩ := halive hk
    exact .inr (.inl (congrArg some (hstage hrecord)))
  · rcases any_append.mp hk with hold | ⟨-, hnew⟩
    · exact any_append.mpr (.inl (h.closed hold))
    · rw [hclosed] at hnew
      cases hnew
  · rcases any_append.mp hk with hold | ⟨rfl, hnew⟩
    · exact any_append.mpr (.inl (h.failed hold))
    · exact any_append.mpr (.inr ⟨rfl, hfailed ▸ hnew⟩)
  · rw [hcall] at hresolved
    cases hresolved

theorem settleStart (hstart : ∀ {k : ℕ}, s.startPromise = some (.spawning k) → ¬ s.Alive k)
    (start : Option StartStage) (hsettled : ∀ k, start ≠ some (.spawning k)) :
    HostInv { s with startPromise := start } := by
  refine ⟨h.one, fun hk => ?_, h.done, h.closed, h.failed, fun hspawning => absurd hspawning
    (hsettled _), h.closing, fun hcalled hnext => ⟨(h.idle hcalled hnext).1, hsettled⟩, h.awaited,
    h.resolved⟩
  rcases h.held hk with hcurrent | hspawning | hterminated
  · exact .inl hcurrent
  · exact absurd hk (hstart hspawning)
  · exact .inr (.inr hterminated)

theorem hostSpawned (hstart : s.startPromise = some (.spawning child)) (hopen : s.closing = false) :
    HostInv (s.hostSpawned child) := by
  have hcall : s.closePromise = .notCalled := by
    by_contra hne
    rw [h.closing.mpr hne] at hopen
    cases hopen
  have heq : s.hostSpawned child =
      { s with startPromise := some .settled, current := some child } := if_neg (by simp [hopen])
  rw [heq]
  refine ⟨h.one, fun hk => ?_, h.done, h.closed, h.failed, nofun, h.closing,
    fun hne => absurd hcall hne, h.awaited, h.resolved⟩
  rcases h.held hk with hcurrent | hspawning | hterminated
  · rw [h.starting hstart] at hcurrent
    cases hcurrent
  · cases hstart.symm.trans hspawning
    exact .inl rfl
  · exact .inr (.inr hterminated)

theorem modify {f : HostChild → HostChild}
    (halive : ∀ record, (f record).alive = true → record.alive = true)
    (hclosed : ∀ record, (f record).closed = true → record.closed = true ∨ s.hasExited child = true)
    (hfailed : ∀ record, (f record).spawnFailed = record.spawnFailed) :
    HostInv (s.modify child f) := by
  have hlive : ∀ {k : ℕ}, (s.modify child f).Alive k → s.Alive k := fun hk =>
    any_of_modify (fun _ => halive) (fun _ => id) hk
  have hexited : ∀ {k : ℕ}, s.hasExited k = true → (s.modify child f).hasExited k = true :=
    fun hk => any_modify (fun record hrecord => by
      rw [Bool.not_eq_true'] at hrecord ⊢
      exact Bool.eq_false_iff.mpr fun hlive => by simp [halive record hlive] at hrecord) hk
  refine ⟨fun hj hk => h.one (hlive hj) (hlive hk), fun hk => h.held (hlive hk),
    fun hdone => hexited (h.done hdone), fun {k} hk => hexited ?_, fun hk => hexited (h.failed
      (any_of_modify (fun _ record => by rw [hfailed]; exact id) (fun _ => id) hk)), h.starting,
    h.closing, h.idle, h.awaited, fun hresolved k hk => h.resolved hresolved k (hlive hk)⟩
  by_cases hchild : child = k ∧ s.hasExited k = true
  · exact hchild.2
  · refine h.closed (any_of_modify (fun heq record hrecord => ?_) (fun _ => id) hk)
    exact (hclosed record hrecord).resolve_right fun hex => hchild ⟨heq, heq ▸ hex⟩

theorem exit : HostInv (s.exit child) :=
  h.modify (fun _ halive => by cases halive) (fun _ => .inl) fun _ => rfl

theorem closeClient : HostInv (s.closeClient child) :=
  h.modify (fun _ => id) (fun _ => .inl) fun _ => rfl

theorem dropCurrent (hexited : s.hasExited child = true) (hcurrent : s.current = some child) :
    HostInv { s with current := none } := by
  refine ⟨h.one, fun hk => ?_, h.done, h.closed, h.failed, fun _ => rfl, h.closing,
    fun hcalled hnext => ⟨rfl, (h.idle hcalled hnext).2⟩, h.awaited, h.resolved⟩
  rcases h.held hk with hheld | hheld
  · cases hcurrent.symm.trans hheld
    exact absurd hk (not_alive_of_hasExited hexited)
  · exact .inr hheld

theorem onClose (hexited : s.hasExited child = true) : HostInv (s.onClose child) := by
  have hmark : HostInv (s.modify child fun record => { record with closed := true }) :=
    h.modify (fun _ => id) (fun _ _ => .inr hexited) fun _ => rfl
  have hexited' : (s.modify child fun record => { record with closed := true }).hasExited child =
      true := any_modify (fun _ => id) hexited
  unfold HostState.onClose
  dsimp only
  split
  · exact hmark
  next hcurrent =>
    have hdropped := hmark.dropCurrent hexited' (not_not.mp hcurrent)
    split
    · exact hdropped
    · exact hdropped.closeClient

theorem kill (signal : HostSignal) : HostInv (s.kill child signal) :=
  ⟨h.one, h.held, h.done, h.closed, h.failed, h.starting, h.closing, h.idle, h.awaited, h.resolved⟩

theorem notCalled_or_start (hcurrent : s.current = some child) :
    s.closePromise = .notCalled ∨ s.closePromise = .start := by
  by_contra hne
  rw [not_or] at hne
  rw [(h.idle hne.1 hne.2).1] at hcurrent
  cases hcurrent

end

theorem mem_terminations {stage : TerminationStage} {k : ℕ} {found : TerminationStage}
    (hfound : (s.terminations ++ [⟨child, stage⟩])[number]? = some ⟨k, found⟩) :
    s.terminations[number]? = some ⟨k, found⟩ ∨ k = child ∧ found = stage := by
  rw [List.getElem?_append] at hfound
  split at hfound
  · exact .inl hfound
  · rw [List.getElem?_singleton] at hfound
    split at hfound
    · cases hfound
      exact .inr ⟨rfl, rfl⟩
    · cases hfound

theorem terminate (h : HostInv s) (hcurrent : s.current = some child) (stage : TerminationStage)
    (hstage : stage ≠ .done) {closing : Bool} {terminating : List ℕ} {closePromise : CloseStage}
    (hkept : ∀ n ∈ s.terminating, n ∈ terminating)
    (howner : s.terminations.length ∈ terminating ∨
      closePromise = .termination s.terminations.length)
    (hclosing : closing = true ↔ closePromise ≠ .notCalled)
    (hpromise : closePromise = s.closePromise ∨
      closePromise = .termination s.terminations.length ∧
        ∀ k, s.startPromise ≠ some (.spawning k)) :
    HostInv { s with
      current := none
      terminations := s.terminations ++ [⟨child, stage⟩]
      terminating, closing, closePromise } := by
  have hphase := h.notCalled_or_start hcurrent
  refine ⟨h.one, fun {k} hk => ?_, fun hfound => ?_, h.closed, h.failed, fun _ => rfl, hclosing,
    fun hcalled hnext => ⟨rfl, ?_⟩, fun hsettled => ?_, fun hresolved => ?_⟩
  · rcases h.held hk with hheld | hspawning | ⟨n, found, hfound, hne, hmem⟩
    · cases hcurrent.symm.trans hheld
      exact .inr (.inr ⟨s.terminations.length, stage, by simp, hstage, howner⟩)
    · exact .inr (.inl hspawning)
    · refine .inr (.inr ⟨n, found, ?_, hne, .inl (hkept n (hmem.resolve_right fun hown => ?_))⟩)
      · rw [List.getElem?_append_left (List.getElem?_eq_some_iff.mp hfound).1, hfound]
      · rcases hphase with hphase | hphase <;> rw [hown] at hphase <;> cases hphase
  · rcases mem_terminations hfound with hold | ⟨-, hdone⟩
    · exact h.done hold
    · exact absurd hdone.symm hstage
  · rcases hpromise with hsame | ⟨-, hstart⟩
    · rw [hsame] at hcalled hnext
      exact absurd (hphase.resolve_left hcalled) hnext
    · exact hstart
  · rcases hpromise with hsame | ⟨hown, -⟩
    · rw [hsame] at hsettled
      rcases hphase with hphase | hphase <;> rw [hphase] at hsettled <;> cases hsettled
    · rw [hown] at hsettled
      cases hsettled
  · rcases hpromise with hsame | ⟨hown, -⟩
    · rw [hsame] at hresolved
      rcases hphase with hphase | hphase <;> rw [hphase] at hresolved <;> cases hresolved
    · rw [hown] at hresolved
      cases hresolved

theorem invalidateRecord (h : HostInv s) : HostInv (s.invalidateRecord child) := by
  unfold HostState.invalidateRecord
  split
  · exact h
  next hcurrent =>
    have hclient : HostInv (s.closeClient child) := h.closeClient
    have hterminated : HostInv { s.closeClient child with
        current := none
        terminations := s.terminations ++ [⟨child, .terminated⟩]
        terminating := s.terminating ++ [s.terminations.length] } :=
      hclient.terminate (not_not.mp hcurrent) .terminated nofun (fun _ => List.mem_append_left _)
        (.inl (List.mem_append_right _ (List.mem_singleton_self _))) h.closing (.inl rfl)
    exact hterminated.kill _

theorem onError (h : HostInv s) : HostInv (s.onError child) := by
  unfold HostState.onError
  split
  · exact h.invalidateRecord
  · exact h

theorem setStage (h : HostInv s) {termination : HostTermination}
    (hfound : s.terminations[number]? = some termination) (stage : TerminationStage)
    (hexited : stage = .done → s.hasExited termination.child = true) :
    HostInv (s.setStage number stage) := by
  have hget : ∀ n, (s.setStage number stage).terminations[n]? =
      if number = n then s.terminations[n]?.map fun t => { t with stage } else s.terminations[n]? := by
    intro n
    simp only [HostState.setStage, List.getElem?_modify]
    split <;> simp
  refine ⟨h.one, fun {k} hk => ?_, fun {n k} hdone => ?_, h.closed, h.failed, h.starting, h.closing,
    h.idle, h.awaited, h.resolved⟩
  · rcases h.held hk with hcurrent | hspawning | ⟨n, found, hold, hne, hmem⟩
    · exact .inl hcurrent
    · exact .inr (.inl hspawning)
    · by_cases hn : number = n
      · subst hn
        cases hfound.symm.trans hold
        refine .inr (.inr ⟨number, stage, by rw [hget, if_pos rfl, hold]; rfl, fun hdone => ?_, hmem⟩)
        exact not_alive_of_hasExited (hexited hdone) hk
      · exact .inr (.inr ⟨n, found, by rw [hget, if_neg hn, hold], hne, hmem⟩)
  · rw [hget] at hdone
    split at hdone
    next heq =>
      subst heq
      rw [hfound] at hdone
      cases hdone
      exact hexited rfl
    next => exact h.done hdone

theorem afterWait (h : HostInv s) {termination : HostTermination}
    (hfound : s.terminations[number]? = some termination) {closed : Bool}
    (hne : termination.stage ≠ .done)
    (hclosed : closed = true → s.isClosed termination.child = true)
    (hkilled : termination.stage = .killed → s.hasExited termination.child = true) :
    HostInv (s.afterWait number termination closed) := by
  have hover : closed = true → HostInv (s.setStage number .done) := fun hc =>
    h.setStage hfound .done fun _ => h.closed (hclosed hc)
  unfold HostState.afterWait
  split
  · split
    next hc => exact hover hc
    next => exact (h.setStage hfound .terminated nofun).kill _
  · split
    next hc => exact hover hc
    next => exact (h.setStage hfound .killed nofun).kill _
  next hstage => exact h.setStage hfound .done fun _ => hkilled hstage
  next hstage => exact absurd hstage hne

theorem forgetTermination (h : HostInv s) (hdone : s.stageOf number = some .done) :
    HostInv { s with terminating := s.terminating.filter (· ≠ number) } := by
  refine ⟨h.one, fun {k} hk => ?_, h.done, h.closed, h.failed, h.starting, h.closing, h.idle,
    fun hsettled n hn => h.awaited hsettled n (List.mem_filter.mp hn).1, h.resolved⟩
  rcases h.held hk with hcurrent | hspawning | ⟨n, found, hold, hne, hmem⟩
  · exact .inl hcurrent
  · exact .inr (.inl hspawning)
  · refine .inr (.inr ⟨n, found, hold, hne, hmem.imp_left fun hmem => List.mem_filter.mpr ⟨hmem, ?_⟩⟩)
    rw [decide_eq_true_iff]
    rintro rfl
    rw [stageOf, hold, Option.map_some, Option.some.injEq] at hdone
    exact hne hdone

/-! ### Closing -/

theorem closeRest (h : HostInv s) (hcurrent : s.current = none)
    (hstart : ∀ k, s.startPromise ≠ some (.spawning k))
    (hown : ∀ n, s.closePromise = .termination n → s.stageOf n = some .done) :
    HostInv { s.closeRest with closing := true } := by
  have hheld : ∀ {k : ℕ}, s.Alive k → ∃ (n : ℕ) (stage : TerminationStage),
      s.terminations[n]? = some ⟨k, stage⟩ ∧ stage ≠ .done ∧ n ∈ s.terminating := by
    intro k hk
    rcases h.held hk with hheld | hspawning | ⟨n, stage, hfound, hne, hmem⟩
    · rw [hcurrent] at hheld
      cases hheld
    · exact absurd hspawning (hstart k)
    · refine ⟨n, stage, hfound, hne, hmem.resolve_right fun hpromise => hne ?_⟩
      have hdone := hown n hpromise
      rwa [stageOf, hfound, Option.map_some, Option.some.injEq] at hdone
  unfold HostState.closeRest
  split
  next hempty =>
    have hnone : ∀ k, ¬ s.Alive k := fun k hk => by
      obtain ⟨n, -, -, -, hmem⟩ := hheld hk
      rw [hempty] at hmem
      cases hmem
    exact ⟨h.one, fun {k} hk => absurd hk (hnone k), h.done, h.closed, h.failed,
      fun hspawning => absurd hspawning (hstart _), iff_of_true rfl nofun,
      fun _ _ => ⟨hcurrent, hstart⟩, nofun, fun _ => hnone⟩
  next =>
    refine ⟨h.one, fun {k} hk => ?_, h.done, h.closed, h.failed,
      fun hspawning => absurd hspawning (hstart _), iff_of_true rfl nofun,
      fun _ _ => ⟨hcurrent, hstart⟩, fun hsettled n hn => ?_, nofun⟩
    · obtain ⟨n, stage, hfound, hne, hmem⟩ := hheld hk
      exact .inr (.inr ⟨n, stage, hfound, hne, .inl hmem⟩)
    · cases hsettled
      exact hn

theorem closeCurrent (h : HostInv s) (hphase : s.closePromise = .notCalled ∨ s.closePromise = .start)
    (hstart : ∀ k, s.startPromise ≠ some (.spawning k)) :
    HostInv { s.closeCurrent with closing := true } := by
  unfold HostState.closeCurrent
  split
  next hcurrent =>
    refine h.closeRest hcurrent hstart fun n hpromise => ?_
    rcases hphase with hphase | hphase <;> rw [hphase] at hpromise <;> cases hpromise
  next child hcurrent =>
    have hclient : HostInv (s.closeClient child) := h.closeClient
    have hterminated : HostInv { s.closeClient child with
        current := none
        terminations := s.terminations ++ [⟨child, .ended⟩]
        closing := true
        closePromise := .termination s.terminations.length } :=
      hclient.terminate hcurrent .ended nofun (fun _ => id) (.inr rfl)
        (iff_of_true rfl nofun) (.inr ⟨rfl, hstart⟩)
    exact hterminated

theorem closeCurrent_closing (s : HostState) :
    ({ s with closing := true } : HostState).closeCurrent = { s.closeCurrent with closing := true } := by
  unfold HostState.closeCurrent
  dsimp only
  split
  · unfold HostState.closeRest
    dsimp only
    split <;> rfl
  · rfl

theorem close (h : HostInv s) : HostInv s.close := by
  unfold HostState.close
  split
  · exact h
  next hcalled =>
    have hphase := not_not.mp hcalled
    dsimp only
    split
    · refine ⟨h.one, fun {k} hk => ?_, h.done, h.closed, h.failed, h.starting,
        iff_of_true rfl nofun, fun _ hne => absurd rfl hne, nofun, nofun⟩
      rcases h.held hk with hheld | hspawning | ⟨n, stage, hfound, hne, hmem⟩
      · exact .inl hheld
      · exact .inr (.inl hspawning)
      · refine .inr (.inr ⟨n, stage, hfound, hne, .inl (hmem.resolve_right fun hpromise => ?_)⟩)
        rw [hphase] at hpromise
        cases hpromise
    next hnone =>
      have hstart : ∀ k, s.startPromise ≠ some (.spawning k) := fun k hspawning => by
        rw [show ({ s with closing := true } : HostState).startPromise = _ from hspawning] at hnone
        exact hnone rfl
      rw [closeCurrent_closing]
      exact h.closeCurrent (.inl hphase) hstart

theorem closeContinues (h : HostInv s) {t : HostState}
    (hstep : nativeSupervisor options s .closeContinues = some t) : HostInv t := by
  simp only [nativeSupervisor] at hstep
  split at hstep
  next hpromise =>
    split at hstep
    next hsettled =>
      obtain rfl := Option.some.inj hstep
      have hclosing : s = { s with closing := true } := by
        rw [← h.closing.mpr (by simp [hpromise])]
      rw [hclosing, closeCurrent_closing]
      refine h.closeCurrent (.inr hpromise) fun k hspawning => ?_
      rw [hspawning] at hsettled
      simp at hsettled
    next => cases hstep
  next n hpromise =>
    split at hstep
    next hdone =>
      obtain rfl := Option.some.inj hstep
      obtain ⟨hcurrent, hstart⟩ := h.idle (by simp [hpromise]) (by simp [hpromise])
      have hrest := h.closeRest hcurrent hstart fun m hm => by
        cases hpromise.symm.trans hm
        exact hdone
      have hclosing : s.closeRest = { s.closeRest with closing := true } := by
        have := h.closing.mpr (by simp [hpromise])
        unfold HostState.closeRest
        split
        · rw [← this]
        · rw [← this]
      rwa [hclosing]
    next => cases hstep
  next numbers hpromise =>
    split at hstep
    next hdone =>
      obtain rfl := Option.some.inj hstep
      obtain ⟨hcurrent, hstart⟩ := h.idle (by simp [hpromise]) (by simp [hpromise])
      have hnone : ∀ k, ¬ s.Alive k := fun k hk => by
        rcases h.held hk with hheld | hspawning | ⟨n, stage, hfound, hne, hmem⟩
        · rw [hcurrent] at hheld
          cases hheld
        · exact hstart k hspawning
        · rcases hmem with hmem | hown
          · have := hdone n (h.awaited hpromise n hmem)
            rw [stageOf, hfound, Option.map_some, Option.some.injEq] at this
            exact hne this
          · rw [hpromise] at hown
            cases hown
      exact ⟨h.one, fun {k} hk => absurd hk (hnone k), h.done, h.closed, h.failed, h.starting,
        iff_of_true (h.closing.mpr (by simp [hpromise])) nofun, fun _ _ => ⟨hcurrent, hstart⟩, nofun,
        fun _ => hnone⟩
    next => cases hstep
  next => cases hstep

theorem beginRequest (h : HostInv s) {timeoutMs : Option ℤ} (answer : SpawnAnswer)
    (horderly : s.startsHelper options timeoutMs = true →
      ∀ termination ∈ s.terminations, ¬ s.Alive termination.child) :
    HostInv (s.beginRequest options timeoutMs answer) := by
  unfold HostState.beginRequest
  split
  next hstarts =>
    have hguards := hstarts
    simp only [startsHelper, Bool.and_eq_true, Bool.not_eq_true', Option.isNone_iff_eq_none] at hguards
    obtain ⟨⟨⟨⟨-, hopen⟩, -⟩, hcurrent⟩, hstart⟩ := hguards
    have hnone : ∀ k, ¬ s.Alive k := fun k hk => by
      rcases h.held hk with hheld | hspawning | ⟨n, stage, hfound, -, -⟩
      · rw [hcurrent] at hheld
        cases hheld
      · rw [hstart] at hspawning
        cases hspawning
      · exact horderly hstarts _ (List.mem_of_getElem? hfound) hk
    cases answer with
    | throws =>
      refine h.settleStart (fun hspawning => ?_) (some .settled) nofun
      rw [hstart] at hspawning
      cases hspawning
    | withoutPipes => exact (h.addChild hnone hcurrent hopen rfl rfl (by exact nofun)).kill _
    | child => exact h.addChild hnone hcurrent hopen rfl rfl fun _ => rfl
    | failingChild => exact h.addChild hnone hcurrent hopen rfl rfl nofun
  next => exact h

theorem step (h : HostInv s) {event : HostEvent} (horderly : OrderlyHost options s event)
    {t : HostState} (hstep : nativeSupervisor options s event = some t) : HostInv t := by
  cases event with
  | request timeoutMs answer =>
    obtain rfl := Option.some.inj hstep
    exact h.beginRequest answer horderly
  | spawned =>
    simp only [nativeSupervisor] at hstep
    split at hstep
    next child hspawning =>
      split at hstep
      next => cases hstep
      next =>
        obtain rfl := Option.some.inj hstep
        exact h.hostSpawned hspawning horderly
    next => cases hstep
  | spawnError =>
    simp only [nativeSupervisor] at hstep
    split at hstep
    next child hspawning =>
      split at hstep
      next hfailed =>
        obtain rfl := Option.some.inj hstep
        refine h.settleStart (fun hfound => ?_) (some .settled) nofun
        cases hspawning.symm.trans hfound
        exact not_alive_of_hasExited (h.failed hfailed)
      next => cases hstep
    next => cases hstep
  | forgetStart =>
    simp only [nativeSupervisor] at hstep
    split at hstep
    next hsettled =>
      obtain rfl := Option.some.inj hstep
      refine h.settleStart (fun hfound => ?_) none nofun
      cases hsettled.symm.trans hfound
    next => cases hstep
  | fatal child =>
    obtain rfl := Option.some.inj hstep
    exact h.invalidateRecord
  | error child =>
    obtain rfl := Option.some.inj hstep
    exact h.onError
  | exits child =>
    obtain rfl := Option.some.inj hstep
    exact h.exit
  | closes child =>
    simp only [nativeSupervisor] at hstep
    split at hstep
    next hexited =>
      obtain rfl := Option.some.inj hstep
      exact h.onClose hexited
    next => cases hstep
  | waited number closed =>
    simp only [nativeSupervisor] at hstep
    split at hstep
    next termination hfound =>
      split at hstep
      next hguard =>
        obtain rfl := Option.some.inj hstep
        exact h.afterWait hfound hguard.1 hguard.2.1 hguard.2.2
      next => cases hstep
    next => cases hstep
  | forgetTermination number =>
    simp only [nativeSupervisor] at hstep
    split at hstep
    next hdone =>
      obtain rfl := Option.some.inj hstep
      exact h.forgetTermination hdone
    next => cases hstep
  | close =>
    obtain rfl := Option.some.inj hstep
    exact h.close
  | closeContinues => exact h.closeContinues hstep

end HostInv

theorem hostInv_of_run (hrun : Machine.Run (nativeSupervisor options) (OrderlyHost options) .initial s) :
    HostInv s :=
  hrun.invariant (fun _ _ _ hinv horderly hstep => hinv.step horderly hstep) .initial

/-- No helper is spawned or comes back, and the supervisor does not reopen. -/
structure SpawnsNothing (s t : HostState) : Prop where
  length : t.children.length = s.children.length
  alive : ∀ {child : ℕ}, t.Alive child → s.Alive child
  closing : s.closing = true → t.closing = true

namespace SpawnsNothing

variable {t u : HostState}

theorem refl (s : HostState) : SpawnsNothing s s :=
  ⟨rfl, id, id⟩

theorem trans (h : SpawnsNothing s t) (h' : SpawnsNothing t u) : SpawnsNothing s u :=
  ⟨h'.length.trans h.length, fun hk => h.alive (h'.alive hk),
    fun hclosing => h'.closing (h.closing hclosing)⟩

theorem modify {f : HostChild → HostChild} (hf : ∀ record, (f record).alive = true →
    record.alive = true) : SpawnsNothing s (s.modify child f) :=
  ⟨List.length_modify .., fun hk => any_of_modify (fun _ => hf) (fun _ => id) hk, id⟩

theorem closeClient : SpawnsNothing s (s.closeClient child) :=
  modify fun _ => id

theorem invalidateRecord : SpawnsNothing s (s.invalidateRecord child) := by
  unfold HostState.invalidateRecord
  split
  · exact .refl s
  · exact ⟨closeClient.length, closeClient.alive, id⟩

theorem onClose : SpawnsNothing s (s.onClose child) := by
  have hmark : SpawnsNothing s (s.modify child fun record => { record with closed := true }) :=
    modify fun _ => id
  have hdropped : SpawnsNothing s { s.modify child fun record =>
      { record with closed := true } with current := none } := ⟨hmark.length, hmark.alive, id⟩
  unfold HostState.onClose
  dsimp only
  split
  · exact hmark
  · split
    · exact hdropped
    · exact hdropped.trans closeClient

theorem afterWait {termination : HostTermination} {closed : Bool} :
    SpawnsNothing s (s.afterWait number termination closed) := by
  unfold HostState.afterWait
  split
  · split <;> exact ⟨rfl, id, id⟩
  · split <;> exact ⟨rfl, id, id⟩
  · exact ⟨rfl, id, id⟩
  · exact ⟨rfl, id, id⟩

theorem closeRest : SpawnsNothing s s.closeRest := by
  unfold HostState.closeRest
  split <;> exact ⟨rfl, id, id⟩

theorem closeCurrent : SpawnsNothing s s.closeCurrent := by
  unfold HostState.closeCurrent
  split
  · exact closeRest
  · exact ⟨closeClient.length, closeClient.alive, id⟩

theorem close : SpawnsNothing s s.close := by
  unfold HostState.close
  split
  · exact .refl s
  · dsimp only
    split
    · exact ⟨rfl, id, fun _ => rfl⟩
    · have hclosing : SpawnsNothing s { s with closing := true } := ⟨rfl, id, fun _ => rfl⟩
      exact hclosing.trans closeCurrent

theorem step (hclosing : s.closing = true) {event : HostEvent}
    (hstep : nativeSupervisor options s event = some t) : SpawnsNothing s t := by
  cases event with
  | request timeoutMs answer =>
    obtain rfl := Option.some.inj hstep
    have hnot : s.startsHelper options timeoutMs = false := by simp [startsHelper, hclosing]
    rw [HostState.beginRequest, if_neg (by simp [hnot])]
    exact .refl s
  | spawned =>
    simp only [nativeSupervisor] at hstep
    split at hstep
    · split at hstep
      · cases hstep
      · obtain rfl := Option.some.inj hstep
        unfold HostState.hostSpawned
        dsimp only
        split <;> exact ⟨rfl, id, id⟩
    · cases hstep
  | spawnError =>
    simp only [nativeSupervisor] at hstep
    split at hstep
    · split at hstep
      · obtain rfl := Option.some.inj hstep
        exact ⟨rfl, id, id⟩
      · cases hstep
    · cases hstep
  | forgetStart =>
    simp only [nativeSupervisor] at hstep
    split at hstep
    · obtain rfl := Option.some.inj hstep
      exact ⟨rfl, id, id⟩
    · cases hstep
  | fatal child =>
    obtain rfl := Option.some.inj hstep
    exact invalidateRecord
  | error child =>
    obtain rfl := Option.some.inj hstep
    unfold HostState.onError
    split
    · exact invalidateRecord
    · exact .refl s
  | exits child =>
    obtain rfl := Option.some.inj hstep
    exact modify fun _ halive => by cases halive
  | closes child =>
    simp only [nativeSupervisor] at hstep
    split at hstep
    · obtain rfl := Option.some.inj hstep
      exact onClose
    · cases hstep
  | waited number closed =>
    simp only [nativeSupervisor] at hstep
    split at hstep
    · split at hstep
      · obtain rfl := Option.some.inj hstep
        exact afterWait
      · cases hstep
    · cases hstep
  | forgetTermination number =>
    simp only [nativeSupervisor] at hstep
    split at hstep
    · obtain rfl := Option.some.inj hstep
      exact ⟨rfl, id, id⟩
    · cases hstep
  | close =>
    obtain rfl := Option.some.inj hstep
    exact close
  | closeContinues =>
    simp only [nativeSupervisor] at hstep
    split at hstep
    · split at hstep
      · obtain rfl := Option.some.inj hstep
        exact closeCurrent
      · cases hstep
    · split at hstep
      · obtain rfl := Option.some.inj hstep
        exact closeRest
      · cases hstep
    · split at hstep
      · obtain rfl := Option.some.inj hstep
        exact ⟨rfl, id, id⟩
      · cases hstep
    · cases hstep

end SpawnsNothing

/-- In an orderly run one helper runs at a time, and once `close` has been resolved none runs and
none is spawned. -/
theorem sole_of_orderly
    (hrun : Machine.Run (nativeSupervisor options) (OrderlyHost options) .initial s) :
    Sole s ∧ ∀ t, Machine.Run (nativeSupervisor options) (OrderlyHost options) s t →
      s.closePromise = .resolved →
        t.children.length = s.children.length ∧ ∀ child, ¬ t.Alive child := by
  have h := hostInv_of_run hrun
  refine ⟨⟨h.one, h.resolved⟩, fun t hrest hresolved => ?_⟩
  have hclosing : s.closing = true := h.closing.mpr (by simp [hresolved])
  have hnothing : SpawnsNothing s t := by
    induction hrest with
    | refl => exact .refl s
    | step _ _ hstep ih => exact ih.trans (.step (ih.closing hclosing) hstep)
  exact ⟨hnothing.length, fun child hk => h.resolved hresolved child (hnothing.alive hk)⟩

end Invariant

section Example

def plainHost : ComputerNativeSupervisorOptions :=
  { enabled := true, requestTimeoutMs := 10000 }

/-- The first helper fails and ignores `SIGTERM`; the second is ended by `close`. -/
def replacedAndClosed : List HostEvent :=
  [.request (some 10000) .child, .spawned, .forgetStart, .fatal 0, .waited 0 false, .exits 0,
    .waited 0 false, .forgetTermination 0, .request (some 500) .child, .spawned, .forgetStart,
    .close, .request (some 500) .child, .waited 1 false, .exits 1, .closes 1, .waited 1 true,
    .closeContinues]

theorem sole_of_orderly_replacedAndClosed : ∃ s,
    Machine.Run (nativeSupervisor plainHost) (OrderlyHost plainHost) .initial s ∧
      s.signals = [(0, .SIGTERM), (0, .SIGKILL), (1, .SIGTERM)] ∧ s.children.length = 2 ∧
      s.closePromise = .resolved ∧ Sole s := by
  have hfinal : ((Machine.followIf (nativeSupervisor plainHost)
      (fun s e => decide (OrderlyHost plainHost s e)) replacedAndClosed .initial).map fun s =>
        (s.signals, s.children.length, s.closePromise)) =
      some ([(0, .SIGTERM), (0, .SIGKILL), (1, .SIGTERM)], 2, .resolved) := by decide +kernel
  obtain ⟨s, hs, hstate⟩ := Option.map_eq_some_iff.mp hfinal
  simp only [Prod.mk.injEq] at hstate
  obtain ⟨hsignals, hlength, hresolved⟩ := hstate
  have hrun : Machine.Run (nativeSupervisor plainHost) (OrderlyHost plainHost) .initial s :=
    Machine.run_of_followIf (fun _ _ h => of_decide_eq_true h) _ hs
  exact ⟨s, hrun, hsignals, hlength, hresolved, (sole_of_orderly hrun).1⟩

/-- A request while a helper that has failed is being terminated starts a second one; and `close`,
called while a helper is being started, is resolved while it runs. -/
theorem two_helpers_of_run :
    (∃ s, Machine.Run (nativeSupervisor plainHost) (fun _ _ => True) .initial s ∧
      s.Alive 0 ∧ s.Alive 1) ∧
    ∃ s, Machine.Run (nativeSupervisor plainHost) (fun _ _ => True) .initial s ∧
      s.closePromise = .resolved ∧ s.Alive 0 := by
  constructor
  · have hfinal : ((Machine.follow (nativeSupervisor plainHost)
        [.request (some 10000) .child, .spawned, .forgetStart, .fatal 0, .request (some 500) .child,
          .spawned] .initial).map fun s => (decide (s.Alive 0), decide (s.Alive 1))) =
        some (true, true) := by decide +kernel
    obtain ⟨s, hs, hstate⟩ := Option.map_eq_some_iff.mp hfinal
    simp only [Prod.mk.injEq, decide_eq_true_eq] at hstate
    exact ⟨s, Machine.run_of_follow _ hs, hstate⟩
  · have hfinal : ((Machine.follow (nativeSupervisor plainHost)
        [.request (some 10000) .child, .close, .spawned, .closeContinues] .initial).map fun s =>
          (s.closePromise, decide (s.Alive 0))) = some (.resolved, true) := by decide +kernel
    obtain ⟨s, hs, hstate⟩ := Option.map_eq_some_iff.mp hfinal
    simp only [Prod.mk.injEq, decide_eq_true_eq] at hstate
    exact ⟨s, Machine.run_of_follow _ hs, hstate⟩

end Example

end Computer
