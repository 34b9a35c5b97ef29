import ChatgptSystem.Computer.LanePhases

/-!
# The physical lane

What holds of every interleaving of the operations of the computer runtime.

* `Move` — what one step does to the state and to the phase of its operation; `move_of_step` — it
  says all that a step can do;
* `Sound`, `Hosted`, `ClosingLast`, `Recorded` — the promises on the lanes, the sessions, the
  closing of the runtime, and the native requests; each is kept by every move;
* `Laned` — the law of the lane; `laned_run` — it holds in every run.
-/

open Interleaving

namespace Computer

variable {ι R V : Type}

/-! ## Moves -/

inductive Phase.Turn : Phase ι → Option ℕ → Phase ι → Prop where
  | waiting {kind : LaneKind} {me : ℕ} {previous : Option ℕ} :
      Turn (.waiting kind me previous) previous (.inside kind me false)
  | draining {me drain : ℕ} {previous : Option ℕ} :
      Turn (.draining me drain previous) previous (.drained me drain)
  | joined {owner : ι} {lane me : ℕ} {previous : Option ℕ} :
      Turn (.joined owner lane me previous) previous (.serving owner lane me false)
  | stopWaiting {me : ℕ} {previous : Option ℕ} :
      Turn (.stopWaiting me previous) previous (.stopping me false)

/-- An operation begins a native request, under a promise on the physical lane. -/
inductive Phase.Begins (config : ComputerRuntimeConfig) (request : NativeRequest) :
    Phase ι → Option ℕ → Phase ι → Prop where
  | reading (hphysical : request.method.isPhysical = false) :
      Begins config request (.arriving .single) none .reading
  | inside {kind : LaneKind} {me : ℕ} (hkind : kind ≠ .exclusive) :
      Begins config request (.inside kind me false) (some me) (.inside kind me true)
  | sealed {me : ℕ} (hrelease : request = releaseRequest config) :
      Begins config request (.sealed me false) (some me) (.sealed me true)
  | serving {owner : ι} {lane me : ℕ} :
      Begins config request (.serving owner lane me false) (some lane) (.serving owner lane me true)
  | stopping {me : ℕ} :
      Begins config request (.stopping me false) (some me) (.stopping me true)

inductive Phase.Finishes : Phase ι → Phase ι → Prop where
  | reading : Finishes .reading .left
  | inside {kind : LaneKind} {me : ℕ} : Finishes (.inside kind me true) (.inside kind me false)
  | sealed {me : ℕ} : Finishes (.sealed me true) (.sealed me false)
  | serving {owner : ι} {lane me : ℕ} :
      Finishes (.serving owner lane me true) (.serving owner lane me false)
  | stopping {me : ℕ} : Finishes (.stopping me true) (.stopping me false)

inductive Phase.Settles : Phase ι → ℕ → Phase ι → Prop where
  | inside {kind : LaneKind} {me : ℕ} : Settles (.inside kind me false) me .left
  | drained {me drain : ℕ} : Settles (.drained me drain) drain (.sealed me false)
  | sealed {me : ℕ} : Settles (.sealed me false) me .left
  | serving {owner : ι} {lane me : ℕ} : Settles (.serving owner lane me false) me .left
  | stopped {me : ℕ} : Settles (.stopped me) me .left

section Moves

variable [DecidableEq ι]

/-- What a step of the operation `i` does. -/
inductive Move (config : ComputerRuntimeConfig) (s : RuntimeState ι) (i : ι) :
    Phase ι → RuntimeState ι → Phase ι → Prop where
  | stay {phase : Phase ι} (closed : Option (Except ComputerFailure Unit)) :
      Move config s i phase { s with closed } phase
  | away {phase : Phase ι} (hover : phase.Over) : Move config s i phase s .left
  | restrained {phase : Phase ι} {owner : ι} {session : Session} (accepting aborted : Bool)
      (hsession : s.sessions owner = some session)
      (haccepting : accepting = true → session.accepting = true) :
      Move config s i phase
        { s with
          sessions := Function.update s.sessions owner
            (some { lane := session.lane, accepting, aborted }) }
        phase
  | entered {kind : LaneKind} (hclosing : s.closing = none) :
      Move config s i (.arriving kind) { s with chains := s.chains.enqueue i none }
        (.waiting kind s.chains.tickets.length (s.chains.queues none))
  | shut (hclosing : s.closing = none) :
      Move config s i .shutting
        { s with
          chains := s.chains.enqueue i none
          closing := some s.chains.tickets.length }
        (.stopWaiting s.chains.tickets.length (s.chains.queues none))
  | joined {owner : ι} {session : Session} (hsession : s.sessions owner = some session)
      (haccepting : session.accepting = true) :
      Move config s i (.calling owner) { s with chains := s.chains.enqueue i (some owner) }
        (.joined owner session.lane s.chains.tickets.length (s.chains.queues (some owner)))
  | turn {phase phase' : Phase ι} {previous : Option ℕ} (hturn : phase.Turn previous phase')
      (hready : s.chains.Ready previous) : Move config s i phase s phase'
  | begun {phase busy : Phase ι} {lane : Option ℕ} {request : NativeRequest}
      (hbegins : phase.Begins config request lane busy) :
      Move config s i phase
        { s with
          inFlight := Function.update s.inFlight i (some request)
          log := ⟨i, lane, request⟩ :: s.log }
        busy
  | finished {busy phase : Phase ι} (hfinishes : busy.Finishes phase) :
      Move config s i busy { s with inFlight := Function.update s.inFlight i none } phase
  | opened {me : ℕ} :
      Move config s i (.inside .exclusive me false)
        { s with
          sessions := Function.update s.sessions i
            (some { lane := me, accepting := true, aborted := false }) }
        (.working me)
  | drains {me : ℕ} :
      Move config s i (.working me)
        { s with
          chains := s.chains.enqueue i (some i)
          sessions := Function.update s.sessions i
            ((s.sessions i).map fun session => { session with accepting := false }) }
        (.draining me s.chains.tickets.length (s.chains.queues (some i)))
  | settled {phase phase' : Phase ι} {promise : ℕ} (hsettles : phase.Settles promise phase') :
      Move config s i phase { s with chains := s.chains.settle promise } phase'
  | closes {me : ℕ} :
      Move config s i (.stopping me false) { s with nativeClosing := true } (.stopped me)

variable {config : ComputerRuntimeConfig} {s s' : RuntimeState ι} {i : ι} {phase : Phase ι}

theorem move_of_step {o : RuntimeOp ι} {r : o.Res R V} {answer : Answer R V}
    (hallows : phase.Allows config o) (h : o.apply config answer i s = some (r, s')) :
    Move config s i phase s' (phase.next o r) := by
  cases o with
  | requireEnabled | isClosing | isAborted | now | delay | work | hostRunning =>
    cases h
    cases phase <;> exact .stay s.closed
  | sessionAborted owner =>
    obtain ⟨_, -, h⟩ := Option.map_eq_some_iff.mp h
    cases h
    cases phase <;> exact .stay s.closed
  | finishClose =>
    cases h
    cases phase <;> exact .stay (some answer.closed)
  | joinClose =>
    obtain ⟨_, -, h⟩ := Option.map_eq_some_iff.mp h
    cases h
    cases phase with
    | shutting => exact .away trivial
    | _ => exact hallows.elim
  | enter accepted =>
    cases phase with
    | arriving kind =>
      simp only [RuntimeOp.apply] at h
      split at h
      next => cases h; exact .away trivial
      next hstanding =>
        split at h
        · cases h
          refine .entered ?_
          unfold RuntimeState.standing at hstanding
          split at hstanding
          · cases hstanding
          split at hstanding
          next => cases hstanding
          next hopen => simpa using hopen
        · cases h
          exact .away trivial
    | _ => exact hallows.elim
  | await previous =>
    simp only [RuntimeOp.apply] at h
    split at h
    next hready =>
      cases h
      cases phase with
      | waiting kind me p => exact .turn .waiting (hallows ▸ hready)
      | draining me drain p => exact .turn .draining (hallows ▸ hready)
      | joined owner lane me p => exact .turn .joined (hallows ▸ hready)
      | stopWaiting me p => exact .turn .stopWaiting (hallows ▸ hready)
      | _ => exact hallows.elim
    next => cases h
  | begin lane request =>
    cases h
    cases phase with
    | arriving kind =>
      obtain ⟨rfl, rfl, hphysical⟩ := hallows
      exact .begun (.reading hphysical)
    | inside kind me busy =>
      obtain ⟨rfl, hkind, rfl⟩ := hallows
      exact .begun (.inside hkind)
    | sealed me busy =>
      obtain ⟨rfl, rfl, hrelease⟩ := hallows
      exact .begun (.sealed hrelease)
    | serving owner l me busy =>
      obtain ⟨rfl, rfl⟩ := hallows
      exact .begun .serving
    | stopping me busy =>
      obtain ⟨rfl, rfl⟩ := hallows
      exact .begun .stopping
    | _ => exact hallows.elim
  | finish request =>
    cases h
    cases phase with
    | reading => exact .finished .reading
    | inside kind me busy =>
      obtain rfl := hallows
      exact .finished .inside
    | sealed me busy =>
      obtain rfl := hallows
      exact .finished .sealed
    | serving owner l me busy =>
      obtain rfl := hallows
      exact .finished .serving
    | stopping me busy =>
      obtain rfl := hallows
      exact .finished .stopping
    | _ => exact hallows.elim
  | settle me =>
    cases h
    cases phase with
    | inside kind me busy =>
      obtain ⟨rfl, rfl⟩ := hallows
      exact .settled .inside
    | drained me drain =>
      obtain rfl := hallows
      exact .settled .drained
    | sealed me busy =>
      obtain ⟨rfl, rfl⟩ := hallows
      exact .settled .sealed
    | serving owner l me busy =>
      obtain ⟨rfl, rfl⟩ := hallows
      exact .settled .serving
    | stopped me =>
      obtain rfl := hallows
      exact .settled .stopped
    | _ => exact hallows.elim
  | openSession lane =>
    cases h
    cases phase with
    | inside kind me busy =>
      obtain ⟨rfl, rfl, rfl⟩ := hallows
      exact .opened
    | _ => exact hallows.elim
  | endSession =>
    cases h
    cases phase with
    | working me => exact .drains
    | _ => exact hallows.elim
  | abortSession =>
    cases h
    cases phase with
    | sealed me busy =>
      show Move config s i (.sealed me busy) _ (.sealed me busy)
      cases hsession : s.sessions i with
      | none =>
        rw [Option.map_none, ← hsession, Function.update_eq_self]
        exact .stay s.closed
      | some session => exact .restrained session.accepting true hsession id
    | _ => exact hallows.elim
  | cancel owner =>
    obtain ⟨session, hsession, h⟩ := Option.map_eq_some_iff.mp h
    cases h
    cases phase <;> exact .restrained false true hsession nofun
  | join owner =>
    obtain ⟨session, hsession, h⟩ := Option.map_eq_some_iff.mp h
    cases phase with
    | calling o =>
      obtain rfl := hallows
      split at h
      next haccepting =>
        cases h
        exact .joined hsession haccepting
      next =>
        cases h
        exact .away trivial
    | _ => exact hallows.elim
  | shut =>
    cases phase with
    | shutting =>
      simp only [RuntimeOp.apply] at h
      split at h
      next =>
        cases h
        exact .stay s.closed
      next hclosing =>
        cases h
        exact .shut hclosing
    | _ => exact hallows.elim
  | beginClose =>
    cases h
    cases phase with
    | stopping me busy =>
      obtain rfl := hallows
      exact .closes
    | _ => exact hallows.elim

end Moves

/-! ## Promises -/

namespace Phase

def promises : Phase ι → List ℕ
  | .waiting _ me _ | .inside _ me _ | .working me | .sealed me _ | .joined _ _ me _
  | .serving _ _ me _ | .stopWaiting me _ | .stopping me _ | .stopped me => [me]
  | .draining me drain _ | .drained me drain => [me, drain]
  | .arriving _ | .reading | .calling _ | .shutting | .left => []

def Begun : Phase ι → Prop
  | .arriving _ | .reading | .calling _ | .shutting => False
  | _ => True

def origin : Phase ι → Option (Phase ι)
  | .arriving kind | .waiting kind _ _ | .inside kind _ _ => some (.arriving kind)
  | .reading => some (.arriving .single)
  | .working _ | .draining _ _ _ | .drained _ _ | .sealed _ _ => some (.arriving .exclusive)
  | .calling owner | .joined owner _ _ _ | .serving owner _ _ _ => some (.calling owner)
  | .shutting | .stopWaiting _ _ | .stopping _ _ | .stopped _ => some .shutting
  | .left => none

/-- The program whose session a call belongs to, with the promise of the program. -/
def guest : Phase ι → Option (ι × ℕ)
  | .joined owner lane _ _ | .serving owner lane _ _ => some (owner, lane)
  | _ => none

/-- The promise of a program whose session may have calls. -/
def hosting : Phase ι → Option ℕ
  | .working me | .draining me _ _ | .drained me _ => some me
  | _ => none

/-- The promise with which a program waits for its session. -/
def drain : Phase ι → Option ℕ
  | .draining _ drain _ | .drained _ drain => some drain
  | _ => none

/-- The promise of a `close`. -/
def stop : Phase ι → Option ℕ
  | .stopWaiting me _ | .stopping me _ | .stopped me => some me
  | _ => none

end Phase

/-- The promises of the operation `i` are as its phase says. -/
def Stands (s : ChainLock.State ι (Option ι)) (i : ι) : Phase ι → Prop
  | .waiting _ me previous | .stopWaiting me previous =>
    s.tickets[me]? = some ⟨i, none, previous, false⟩
  | .inside _ me _ | .working me | .sealed me _ | .stopping me _ | .stopped me => s.Holds i none me
  | .draining me drain previous =>
    s.Holds i none me ∧ s.tickets[drain]? = some ⟨i, some i, previous, false⟩
  | .drained me drain => s.Holds i none me ∧ s.Holds i (some i) drain
  | .joined owner _ me previous => s.tickets[me]? = some ⟨i, some owner, previous, false⟩
  | .serving owner _ me _ => s.Holds i (some owner) me
  | .arriving _ | .reading | .calling _ | .shutting | .left => True

variable {s : ChainLock.State ι (Option ι)} {phase : Phase ι}

theorem Stands.keeps {s' : ChainLock.State ι (Option ι)} {i : ι} (h : Stands s i phase)
    (hkeeps : s.Keeps i s') : Stands s' i phase := by
  cases phase with
  | waiting | stopWaiting | joined => exact hkeeps.own h rfl
  | inside | working | sealed | stopping | stopped | serving => exact hkeeps.holds h
  | draining => exact ⟨hkeeps.holds h.1, hkeeps.own h.2 rfl⟩
  | drained => exact ⟨hkeeps.holds h.1, hkeeps.holds h.2⟩
  | _ => trivial

theorem Stands.holds_of_hosting {i : ι} {lane : ℕ} (h : Stands s i phase)
    (hhosting : phase.hosting = some lane) : s.Holds i none lane := by
  cases phase <;> cases hhosting
  · exact h
  · exact h.1
  · exact h.1

theorem Stands.of_guest {i : ι} {guest : ι × ℕ} (h : Stands s i phase)
    (hguest : phase.guest = some guest) :
    ∃ n : ℕ, ∃ t : ChainLock.Ticket ι (Option ι), s.tickets[n]? = some t ∧ t.owner = i ∧
      t.key = some guest.1 ∧ t.settled = false := by
  cases phase with
  | joined owner lane me previous =>
    cases hguest
    exact ⟨me, _, h, rfl, rfl, rfl⟩
  | serving owner lane me busy =>
    cases hguest
    obtain ⟨t, ht, hi, hkey, hset, -⟩ := h
    exact ⟨me, t, ht, hi, hkey, hset⟩
  | _ => cases hguest

theorem Stands.of_session_promise {i owner : ι} {n : ℕ} {t : ChainLock.Ticket ι (Option ι)}
    (h : Stands s i phase) (hmem : n ∈ phase.promises) (ht : s.tickets[n]? = some t)
    (hkey : t.key = some owner) :
    (∃ lane, phase.guest = some (owner, lane)) ∨
      owner = i ∧ ∃ lane, phase.hosting = some lane := by
  cases phase with
  | waiting | stopWaiting =>
    obtain rfl := List.mem_singleton.mp hmem
    rw [Option.some.inj (ht.symm.trans h)] at hkey
    cases hkey
  | inside | working | sealed | stopping | stopped =>
    obtain rfl := List.mem_singleton.mp hmem
    rw [h.key_eq ht] at hkey
    cases hkey
  | draining me drain previous =>
    rcases List.mem_cons.mp hmem with rfl | hmem
    · rw [h.1.key_eq ht] at hkey
      cases hkey
    · obtain rfl := List.mem_singleton.mp hmem
      rw [Option.some.inj (ht.symm.trans h.2)] at hkey
      exact .inr ⟨(Option.some.inj hkey).symm, me, rfl⟩
  | drained me drain =>
    rcases List.mem_cons.mp hmem with rfl | hmem
    · rw [h.1.key_eq ht] at hkey
      cases hkey
    · obtain rfl := List.mem_singleton.mp hmem
      rw [h.2.key_eq ht] at hkey
      exact .inr ⟨(Option.some.inj hkey).symm, me, rfl⟩
  | joined o lane me previous =>
    obtain rfl := List.mem_singleton.mp hmem
    rw [Option.some.inj (ht.symm.trans h)] at hkey
    cases hkey
    exact .inl ⟨lane, rfl⟩
  | serving o lane me busy =>
    obtain rfl := List.mem_singleton.mp hmem
    rw [h.key_eq ht] at hkey
    cases hkey
    exact .inl ⟨lane, rfl⟩
  | _ => cases hmem

/-- The promises on the lanes belong to the operations that have placed them. -/
structure Sound (calls : ι → RuntimeCall ι) (s : RuntimeState ι) (phase : ι → Phase ι) : Prop where
  chains : s.chains.Inv
  stands : ∀ i, Stands s.chains i (phase i)
  owned : ∀ {n : ℕ} {t : ChainLock.Ticket ι (Option ι)}, s.chains.tickets[n]? = some t →
    (t.settled = false → n ∈ (phase t.owner).promises) ∧ (phase t.owner).Begun
  origin : ∀ {i : ι} {p : Phase ι}, (phase i).origin = some p → p = Phase.start (calls i)

theorem Sound.initial (calls : ι → RuntimeCall ι) :
    Sound calls .initial fun i => Phase.start (calls i) where
  chains := .empty
  stands i := by cases calls i <;> trivial
  owned ht := by simp [RuntimeState.initial, ChainLock.State.empty] at ht
  origin {i p} h := by
    cases hcall : calls i <;> rw [hcall] at h <;> exact (Option.some.inj h).symm

section Steps

variable [DecidableEq ι] {config : ComputerRuntimeConfig} {calls : ι → RuntimeCall ι}
  {s s' : RuntimeState ι} {i : ι} {phase : ι → Phase ι} {phase' : Phase ι}

variable {before : Phase ι} {owner : ι} {t : ChainLock.Ticket ι (Option ι)}

theorem Move.origin (h : Move config s i before s' phase') {p : Phase ι}
    (hp : phase'.origin = some p) : before.origin = some p := by
  cases h with
  | turn hturn => cases hturn <;> exact hp
  | begun hbegins => cases hbegins <;> exact hp
  | finished hfinishes => cases hfinishes <;> first | exact hp | cases hp
  | settled hsettles => cases hsettles <;> first | exact hp | cases hp
  | away => cases hp
  | _ => exact hp

section

variable (h : Sound calls s phase)

include h

theorem Sound.update (hinv : s'.chains.Inv) (hkeeps : ∀ j, j ≠ i → s.chains.Keeps j s'.chains)
    (hstands : Stands s'.chains i phase')
    (hothers : ∀ {n : ℕ} {t : ChainLock.Ticket ι (Option ι)}, s'.chains.tickets[n]? = some t →
      t.owner ≠ i → s.chains.tickets[n]? = some t)
    (howned : ∀ {n : ℕ} {t : ChainLock.Ticket ι (Option ι)}, s'.chains.tickets[n]? = some t →
      t.owner = i → (t.settled = false → n ∈ phase'.promises) ∧ phase'.Begun)
    (horigin : ∀ {p : Phase ι}, phase'.origin = some p → (phase i).origin = some p) :
    Sound calls s' (Function.update phase i phase') where
  chains := hinv
  stands j := by
    by_cases hj : j = i
    · subst hj
      simpa using hstands
    · simpa [hj] using (h.stands j).keeps (hkeeps j hj)
  owned {n t} ht := by
    by_cases hj : t.owner = i
    · rw [hj, Function.update_self]
      exact howned ht hj
    · rw [Function.update_of_ne hj]
      exact h.owned (hothers ht hj)
  origin {j p} hp := by
    by_cases hj : j = i
    · subst hj
      rw [Function.update_self] at hp
      exact h.origin (horigin hp)
    · rw [Function.update_of_ne hj] at hp
      exact h.origin hp

variable (hmove : Move config s i (phase i) s' phase')

include hmove

theorem Sound.of_chains (hchains : s'.chains = s.chains) (hstands : Stands s.chains i phase')
    (hpromises : phase'.promises = (phase i).promises) (hbegun : (phase i).Begun → phase'.Begun) :
    Sound calls s' (Function.update phase i phase') := by
  refine h.update (hchains ▸ h.chains) (fun j _ => hchains ▸ .refl j _) (hchains ▸ hstands)
    (fun ht _ => hchains ▸ ht) (fun {n t} ht hi => ?_) hmove.origin
  rw [hchains] at ht
  subst hi
  rw [hpromises]
  exact ⟨(h.owned ht).1, hbegun (h.owned ht).2⟩

theorem Sound.enqueue {key : Option ι} (hchains : s'.chains = s.chains.enqueue i key)
    (hstands : Stands (s.chains.enqueue i key) i phase')
    (hpromises : ∀ n, n = s.chains.tickets.length ∨ n ∈ (phase i).promises → n ∈ phase'.promises)
    (hbegun : phase'.Begun) : Sound calls s' (Function.update phase i phase') := by
  refine h.update (hchains ▸ h.chains.enqueue i key) (fun j _ => hchains ▸ .enqueue j i _ key)
    (hchains ▸ hstands) (fun {n t} ht hne => ?_) (fun {n t} ht hi => ⟨fun hset => ?_, hbegun⟩)
    hmove.origin
  · rw [hchains] at ht
    rcases ChainLock.State.getElem?_enqueue ht with hold | ⟨-, rfl⟩
    · exact hold
    · exact absurd rfl hne
  · rw [hchains] at ht
    rcases ChainLock.State.getElem?_enqueue ht with hold | ⟨rfl, -⟩
    · exact hpromises n (.inr (hi ▸ (h.owned hold).1 hset))
    · exact hpromises _ (.inl rfl)

theorem Sound.settle {key : Option ι} {me : ℕ} (hchains : s'.chains = s.chains.settle me)
    (hholds : s.chains.Holds i key me) (hstands : Stands (s.chains.settle me) i phase')
    (hpromises : ∀ n ∈ (phase i).promises, n = me ∨ n ∈ phase'.promises) (hbegun : phase'.Begun) :
    Sound calls s' (Function.update phase i phase') := by
  obtain ⟨mine, hmine, howner, -⟩ := id hholds
  have hback : ∀ {n : ℕ} {t : ChainLock.Ticket ι (Option ι)}, s'.chains.tickets[n]? = some t →
      ∃ u, s.chains.tickets[n]? = some u ∧ t = if me = n then { u with settled := true } else u :=
    fun ht => ChainLock.State.getElem?_settle.mp (hchains ▸ ht)
  refine h.update (hchains ▸ h.chains.settle hholds) (fun j hj => hchains ▸ .settle fun ht => ?_)
    (hchains ▸ hstands) (fun {n t} ht hne => ?_) (fun {n t} ht hi => ⟨fun hset => ?_, hbegun⟩)
    hmove.origin
  · rw [← Option.some.inj (hmine.symm.trans ht), howner]
    exact Ne.symm hj
  · obtain ⟨u, hu, rfl⟩ := hback ht
    split at hne
    next heq =>
      subst heq
      rw [Option.some.inj (hu.symm.trans hmine)] at hne
      exact absurd howner hne
    next heq => rwa [if_neg heq]
  · obtain ⟨u, hu, rfl⟩ := hback ht
    split at hset
    next => cases hset
    next heq =>
      rw [if_neg heq] at hi
      exact (hpromises n (hi ▸ (h.owned hu).1 hset)).resolve_left (Ne.symm heq)

theorem Sound.step : Sound calls s' (Function.update phase i phase') := by
  have hi := h.stands i
  have hmove' := hmove
  generalize hphase : phase i = before at hmove hi
  cases hmove with
  | stay closed | restrained => exact h.of_chains hmove' rfl hi (by rw [hphase]) (hphase ▸ id)
  | away hover =>
    refine h.of_chains hmove' rfl trivial ?_ fun _ => trivial
    rw [hphase]
    cases before with
    | arriving | calling | shutting | left => rfl
    | _ => exact hover.elim
  | entered hclosing | shut hclosing | joined hsession haccepting =>
    refine h.enqueue hmove' rfl (ChainLock.State.getElem?_enqueue_self _ _ _) (fun n hn => ?_) trivial
    rw [hphase] at hn
    rcases hn with rfl | hn
    · exact List.mem_singleton_self _
    · cases hn
  | turn hturn hready =>
    cases hturn with
    | waiting | stopWaiting | joined =>
      exact h.of_chains hmove' rfl ⟨_, hi, rfl, rfl, rfl, hready⟩ (by rw [hphase]; rfl)
        fun _ => trivial
    | draining =>
      exact h.of_chains hmove' rfl ⟨hi.1, _, hi.2, rfl, rfl, rfl, hready⟩ (by rw [hphase]; rfl)
        fun _ => trivial
  | begun hbegins =>
    cases hbegins with
    | reading => exact h.of_chains hmove' rfl trivial (by rw [hphase]; rfl) (hphase ▸ id)
    | _ => exact h.of_chains hmove' rfl hi (by rw [hphase]; rfl) fun _ => trivial
  | finished hfinishes =>
    cases hfinishes with
    | reading => exact h.of_chains hmove' rfl trivial (by rw [hphase]; rfl) fun _ => trivial
    | _ => exact h.of_chains hmove' rfl hi (by rw [hphase]; rfl) fun _ => trivial
  | opened | closes => exact h.of_chains hmove' rfl hi (by rw [hphase]; rfl) fun _ => trivial
  | drains =>
    refine h.enqueue hmove' rfl ⟨hi.enqueue, ChainLock.State.getElem?_enqueue_self _ _ _⟩
      (fun n hn => ?_) trivial
    rw [hphase] at hn
    rcases hn with rfl | hn
    · exact List.mem_cons_of_mem _ (List.mem_singleton_self _)
    · exact List.mem_cons.mpr (.inl (List.mem_singleton.mp hn))
  | settled hsettles =>
    cases hsettles with
    | drained =>
      obtain ⟨hlane, hdrain⟩ := hi
      refine h.settle hmove' rfl hdrain (hlane.settle ?_) (fun n hn => ?_) trivial
      · -- the two promises are on different lanes
        rintro rfl
        obtain ⟨t, ht, -, hkey, -⟩ := hlane
        obtain ⟨u, hu, -, hkey', -⟩ := hdrain
        rw [Option.some.inj (ht.symm.trans hu), hkey'] at hkey
        cases hkey
      · rw [hphase] at hn
        rcases List.mem_cons.mp hn with rfl | hn
        · exact .inr (List.mem_singleton_self _)
        · exact .inl (List.mem_singleton.mp hn)
    | _ =>
      refine h.settle hmove' rfl hi trivial (fun n hn => ?_) trivial
      rw [hphase] at hn
      exact .inl (List.mem_singleton.mp hn)

end

/-! ## Sessions -/

/-- A session takes calls only while the JavaScript of its program runs, and it has calls only while
the program holds the physical lane. -/
structure Hosted (s : RuntimeState ι) (phase : ι → Phase ι) : Prop where
  accepting : ∀ {owner : ι} {session : Session}, s.sessions owner = some session →
    session.accepting = true → phase owner = .working session.lane
  hosts : ∀ {i owner : ι} {lane : ℕ}, (phase i).guest = some (owner, lane) →
    (phase owner).hosting = some lane
  last : ∀ {owner : ι} {drain : ℕ}, (phase owner).drain = some drain →
    ∀ {n : ℕ} {t : ChainLock.Ticket ι (Option ι)}, s.chains.tickets[n]? = some t →
      t.key = some owner → n ≤ drain

omit [DecidableEq ι] in
theorem Hosted.initial (calls : ι → RuntimeCall ι) :
    Hosted .initial fun i => Phase.start (calls i) where
  accepting h := by cases h
  hosts {i _ _} h := by cases hcall : calls i <;> simp [hcall, Phase.start, Phase.guest] at h
  last {i _} h := by cases hcall : calls i <;> simp [hcall, Phase.start, Phase.drain] at h

omit [DecidableEq ι] in
theorem Hosted.no_guest (h : Hosted s phase) (hsound : Sound calls s phase) {me drain lane : ℕ}
    (hphase : phase i = .drained me drain) (j : ι) : (phase j).guest ≠ some (i, lane) := by
  intro hguest
  obtain ⟨n, t, ht, howner, hkey, hset⟩ := (hsound.stands j).of_guest hguest
  have hi := hsound.stands i
  rw [hphase] at hi
  obtain ⟨-, d, hd, hdowner, hdkey, -, hready⟩ := hi
  rcases Nat.lt_or_eq_of_le (h.last (by rw [hphase]; rfl) ht hkey) with hlt | rfl
  · rw [hsound.chains.settled_before hd hready ht (hkey.trans hdkey.symm) hlt] at hset
    cases hset
  · obtain rfl := Option.some.inj (ht.symm.trans hd)
    rw [← howner, hdowner, hphase] at hguest
    cases hguest

section

variable (h : Move config s i before s' phase')

include h

theorem Move.sessions {session : Session} (hsession : s'.sessions owner = some session)
    (haccepting : session.accepting = true) :
    (∃ old, s.sessions owner = some old ∧ old.accepting = true ∧ old.lane = session.lane ∧
        (owner = i → before = .working session.lane → phase' = .working session.lane)) ∨
      owner = i ∧ phase' = .working session.lane := by
  cases h with
  | restrained accepting aborted hold hrestrained =>
    refine .inl ?_
    simp only [Function.update_apply] at hsession
    split at hsession
    next heq =>
      subst heq
      cases hsession
      exact ⟨_, hold, hrestrained haccepting, rfl, fun _ hbefore => hbefore⟩
    next => exact ⟨session, hsession, haccepting, rfl, fun _ hbefore => hbefore⟩
  | opened =>
    simp only [Function.update_apply] at hsession
    split at hsession
    next heq =>
      cases hsession
      exact .inr ⟨heq, rfl⟩
    next => exact .inl ⟨session, hsession, haccepting, rfl, fun _ hbefore => by cases hbefore⟩
  | drains =>
    simp only [Function.update_apply] at hsession
    split at hsession
    next =>
      obtain ⟨old, -, rfl⟩ := Option.map_eq_some_iff.mp hsession
      cases haccepting
    next hne => exact .inl ⟨session, hsession, haccepting, rfl, fun heq => absurd heq hne⟩
  | stay => exact .inl ⟨session, hsession, haccepting, rfl, fun _ hbefore => hbefore⟩
  | away hover =>
    refine .inl ⟨session, hsession, haccepting, rfl, fun _ hbefore => ?_⟩
    subst hbefore
    exact hover.elim
  | turn hturn =>
    refine .inl ⟨session, hsession, haccepting, rfl, fun _ hbefore => ?_⟩
    subst hbefore
    cases hturn
  | begun hbegins =>
    refine .inl ⟨session, hsession, haccepting, rfl, fun _ hbefore => ?_⟩
    subst hbefore
    cases hbegins
  | finished hfinishes =>
    refine .inl ⟨session, hsession, haccepting, rfl, fun _ hbefore => ?_⟩
    subst hbefore
    cases hfinishes
  | settled hsettles =>
    refine .inl ⟨session, hsession, haccepting, rfl, fun _ hbefore => ?_⟩
    subst hbefore
    cases hsettles
  | entered | shut | joined | closes =>
    exact .inl ⟨session, hsession, haccepting, rfl, fun _ hbefore => by cases hbefore⟩

theorem Move.guest {lane : ℕ} (hguest : phase'.guest = some (owner, lane)) :
    before.guest = some (owner, lane) ∨ before = .calling owner ∧
      ∃ session, s.sessions owner = some session ∧ session.accepting = true ∧
        session.lane = lane := by
  cases h with
  | joined hsession haccepting =>
    cases hguest
    exact .inr ⟨rfl, _, hsession, haccepting, rfl⟩
  | turn hturn => cases hturn <;> exact .inl hguest
  | begun hbegins => cases hbegins <;> exact .inl hguest
  | finished hfinishes => cases hfinishes <;> exact .inl hguest
  | settled hsettles => cases hsettles <;> cases hguest
  | stay | restrained => exact .inl hguest
  | _ => cases hguest

theorem Move.hosting {lane : ℕ} (hhosting : before.hosting = some lane) :
    phase'.hosting = some lane ∨ ∃ drain, before = .drained lane drain := by
  cases h with
  | away hover => cases before <;> first | exact hover.elim | cases hhosting
  | turn hturn => cases hturn <;> exact .inl hhosting
  | begun hbegins => cases hbegins <;> cases hhosting
  | finished hfinishes => cases hfinishes <;> cases hhosting
  | settled hsettles =>
    cases hsettles with
    | drained =>
      cases hhosting
      exact .inr ⟨_, rfl⟩
    | _ => cases hhosting
  | stay | restrained | drains => exact .inl hhosting
  | _ => cases hhosting

theorem Move.drain {drain : ℕ} (hdrain : phase'.drain = some drain) :
    before.drain = some drain ∨ drain = s.chains.tickets.length := by
  cases h with
  | turn hturn => cases hturn <;> exact .inl hdrain
  | begun hbegins => cases hbegins <;> cases hdrain
  | finished hfinishes => cases hfinishes <;> cases hdrain
  | settled hsettles => cases hsettles <;> cases hdrain
  | stay | restrained => exact .inl hdrain
  | drains =>
    cases hdrain
    exact .inr rfl
  | _ => cases hdrain

theorem Move.tickets {n : ℕ} (ht : s'.chains.tickets[n]? = some t) :
    (∃ u, s.chains.tickets[n]? = some u ∧ u.key = t.key ∧ u.owner = t.owner ∧
        u.previous = t.previous ∧ (u.settled = true → t.settled = true)) ∨
      n = s.chains.tickets.length ∧
        (t.key = none ∧ s.closing = none ∧ t.owner = i ∧ ¬ before.Begun ∨ (∃ owner session, t.key = some owner ∧
          s.sessions owner = some session ∧ session.accepting = true) ∨
        t.key = some i ∧ ∃ me, before = .working me) := by
  cases h with
  | entered hclosing | shut hclosing =>
    rcases ChainLock.State.getElem?_enqueue ht with hold | ⟨hn, rfl⟩
    · exact .inl ⟨t, hold, rfl, rfl, rfl, id⟩
    · exact .inr ⟨hn, .inl ⟨rfl, hclosing, rfl, id⟩⟩
  | joined hsession haccepting =>
    rcases ChainLock.State.getElem?_enqueue ht with hold | ⟨hn, rfl⟩
    · exact .inl ⟨t, hold, rfl, rfl, rfl, id⟩
    · exact .inr ⟨hn, .inr (.inl ⟨_, _, rfl, hsession, haccepting⟩)⟩
  | drains =>
    rcases ChainLock.State.getElem?_enqueue ht with hold | ⟨hn, rfl⟩
    · exact .inl ⟨t, hold, rfl, rfl, rfl, id⟩
    · exact .inr ⟨hn, .inr (.inr ⟨rfl, _, rfl⟩)⟩
  | settled =>
    obtain ⟨u, hu, rfl⟩ := ChainLock.State.getElem?_settle.mp ht
    refine .inl ⟨u, hu, ?_⟩
    split <;> simp
  | _ => exact .inl ⟨t, ht, rfl, rfl, rfl, id⟩

end

theorem Hosted.step (h : Hosted s phase) (hsound : Sound calls s phase)
    (hmove : Move config s i (phase i) s' phase') :
    Hosted s' (Function.update phase i phase') where
  accepting {owner session} hsession haccepting := by
    rw [Function.update_apply]
    rcases hmove.sessions hsession haccepting with ⟨old, hold, holdAccepting, hlane, hworking⟩ |
      ⟨heq, hphase⟩
    · have howner := hlane ▸ h.accepting hold holdAccepting
      split
      next heq => exact hworking heq (heq ▸ howner)
      next => exact howner
    · rwa [if_pos heq]
  hosts {j owner lane} hguest := by
    -- the program hosted the call before the move
    obtain ⟨hhosting, hno⟩ : (phase owner).hosting = some lane ∧
        ∀ drain, owner = i → phase i ≠ .drained lane drain := by
      by_cases hj : j = i
      · subst hj
        rw [Function.update_self] at hguest
        rcases hmove.guest hguest with hold | ⟨hbefore, session, hsession, haccepting, rfl⟩
        · exact ⟨h.hosts hold, fun drain heq hdrained =>
            h.no_guest hsound hdrained j (heq ▸ hold)⟩
        · refine ⟨by rw [h.accepting hsession haccepting]; rfl, fun drain _ hdrained => ?_⟩
          rw [hbefore] at hdrained
          cases hdrained
      · rw [Function.update_of_ne hj] at hguest
        exact ⟨h.hosts hguest, fun drain heq hdrained =>
          h.no_guest hsound hdrained j (heq ▸ hguest)⟩
    rw [Function.update_apply]
    split
    next heq =>
      rcases hmove.hosting (heq ▸ hhosting) with hstill | ⟨drain, hdrained⟩
      · exact hstill
      · exact absurd hdrained (hno drain heq)
    next => exact hhosting
  last {owner drain} hdrain {n t} ht hkey := by
    rcases hmove.tickets ht with ⟨u, hu, hukey, -⟩ | ⟨rfl, hnew⟩
    · rw [Function.update_apply] at hdrain
      split at hdrain
      next heq =>
        rcases hmove.drain hdrain with hold | rfl
        · exact h.last (heq ▸ hold) hu (hukey.trans hkey)
        · exact Nat.le_of_lt (ChainLock.State.lt_length hu)
      next => exact h.last hdrain hu (hukey.trans hkey)
    · -- a program that ends its session has not been waiting for it
      have hnone : (phase owner).drain ≠ some drain := by
        intro hold
        obtain ⟨me, hworking⟩ : ∃ me, phase owner = .working me := by
          rcases hnew with ⟨hnone, -⟩ | ⟨owner', session, hkey', hsession, haccepting⟩ |
            ⟨hkey', me, hworking⟩
          · rw [hnone] at hkey
            cases hkey
          · obtain rfl := Option.some.inj (hkey.symm.trans hkey')
            exact ⟨_, h.accepting hsession haccepting⟩
          · obtain rfl := Option.some.inj (hkey.symm.trans hkey')
            exact ⟨me, hworking⟩
        rw [hworking] at hold
        cases hold
      rw [Function.update_apply] at hdrain
      split at hdrain
      next heq =>
        rcases hmove.drain hdrain with hold | rfl
        · exact absurd (heq ▸ hold) hnone
        · exact Nat.le_refl _
      next => exact absurd hdrain hnone

/-! ## Closing -/

/-- No promise is placed on the physical lane after that of the `close`, and the native host is
closed when all other promises are settled. -/
structure ClosingLast (calls : ι → RuntimeCall ι) (s : RuntimeState ι) (phase : ι → Phase ι) :
    Prop where
  latest : ∀ {c : ℕ}, s.closing = some c → ∀ {n : ℕ} {t : ChainLock.Ticket ι (Option ι)},
    s.chains.tickets[n]? = some t → t.key = none → n ≤ c
  closer : ∀ {c : ℕ}, s.closing = some c → ∃ t : ChainLock.Ticket ι (Option ι),
    s.chains.tickets[c]? = some t ∧ Phase.start (calls t.owner) = .shutting ∧
      ((phase t.owner).stop = some c ∨ phase t.owner = .left)
  stops : ∀ {i : ι} {c : ℕ}, (phase i).stop = some c → s.closing = some c
  closer_settled : s.nativeClosing = true → ∃ c, s.closing = some c ∧
    ∀ {n : ℕ} {t : ChainLock.Ticket ι (Option ι)}, s.chains.tickets[n]? = some t → n ≠ c →
      t.settled = true

section

omit [DecidableEq ι]

theorem ClosingLast.initial (calls : ι → RuntimeCall ι) :
    ClosingLast calls .initial fun i => Phase.start (calls i) where
  latest h := by cases h
  closer h := by cases h
  stops {i _} h := by cases hcall : calls i <;> simp [hcall, Phase.start, Phase.stop] at h
  closer_settled h := by cases h

theorem ClosingLast.no_host (h : ClosingLast calls s phase) (hsound : Sound calls s phase)
    (hclosing : s.nativeClosing = true) {lane : ℕ} : (phase owner).hosting ≠ some lane := by
  intro hhosting
  obtain ⟨c, hc, hsettled⟩ := h.closer_settled hclosing
  obtain ⟨t, ht, howner, -, hset, -⟩ := (hsound.stands owner).holds_of_hosting hhosting
  by_cases hlane : lane = c
  · subst hlane
    obtain ⟨u, hu, -, hstop⟩ := h.closer hc
    obtain rfl := Option.some.inj (ht.symm.trans hu)
    rw [howner] at hstop
    cases hphase : phase owner <;> simp [hphase, Phase.hosting, Phase.stop] at hhosting hstop
  · rw [hsettled ht hlane] at hset
    cases hset

theorem ClosingLast.settled_of_stopping (h : ClosingLast calls s phase)
    (hsound : Sound calls s phase) (hhosted : Hosted s phase) {me : ℕ} {busy : Bool}
    (hphase : phase i = .stopping me busy) {n : ℕ} (ht : s.chains.tickets[n]? = some t)
    (hne : n ≠ me) : t.settled = true := by
  have hclosing : s.closing = some me := h.stops (by rw [hphase]; rfl)
  have hi := hsound.stands i
  rw [hphase] at hi
  cases hset : t.settled with
  | true => rfl
  | false =>
    exfalso
    cases hkey : t.key with
    | none =>
      obtain ⟨u, hu, -, hukey, -, hready⟩ := hi
      have hlt := Nat.lt_of_le_of_ne (h.latest hclosing ht hkey) hne
      rw [hsound.chains.settled_before hu hready ht (hkey.trans hukey.symm) hlt] at hset
      cases hset
    | some owner =>
      -- who waits on the lane of a session is a call of its program, or the program itself
      obtain ⟨lane, hhosting⟩ : ∃ lane, (phase owner).hosting = some lane := by
        rcases (hsound.stands t.owner).of_session_promise ((hsound.owned ht).1 hset) ht hkey with
          ⟨lane, hguest⟩ | ⟨rfl, hhosting⟩
        · exact ⟨lane, hhosted.hosts hguest⟩
        · exact hhosting
      -- the program holds the physical lane, but that is the one of the `close`
      obtain rfl := hsound.chains.owner_unique hi
        ((hsound.stands owner).holds_of_hosting hhosting)
      rw [hphase] at hhosting
      cases hhosting

end

section

variable (h : Move config s i before s' phase')

include h

theorem Move.stop {c : ℕ} (hstop : before.stop = some c) :
    phase'.stop = some c ∨ phase' = .left := by
  cases h with
  | away => exact .inr rfl
  | turn hturn => cases hturn <;> exact .inl hstop
  | begun hbegins => cases hbegins <;> exact .inl hstop
  | finished hfinishes => cases hfinishes <;> exact .inl hstop
  | settled hsettles => cases hsettles <;> first | exact .inr rfl | cases hstop
  | stay | restrained | closes => exact .inl hstop
  | _ => cases hstop

theorem Move.left (hleft : before = .left) : phase' = .left := by
  subst hleft
  cases h with
  | away | stay | restrained => rfl
  | turn hturn => cases hturn
  | begun hbegins => cases hbegins
  | finished hfinishes => cases hfinishes
  | settled hsettles => cases hsettles

theorem Move.closing :
    s'.closing = s.closing ∧ (∀ {c : ℕ}, phase'.stop = some c → before.stop = some c) ∨
      s.closing = none ∧ s'.closing = some s.chains.tickets.length ∧
        s'.chains = s.chains.enqueue i none ∧ phase'.stop = some s.chains.tickets.length ∧
        before = .shutting := by
  cases h with
  | shut hclosing => exact .inr ⟨hclosing, rfl, rfl, rfl, rfl⟩
  | turn hturn => exact .inl ⟨rfl, by cases hturn <;> exact id⟩
  | begun hbegins => exact .inl ⟨rfl, by cases hbegins <;> exact id⟩
  | finished hfinishes => exact .inl ⟨rfl, by cases hfinishes <;> exact id⟩
  | settled hsettles => exact .inl ⟨rfl, by cases hsettles <;> exact fun h => by cases h⟩
  | stay | restrained | closes => exact .inl ⟨rfl, id⟩
  | away => exact .inl ⟨rfl, fun h => by cases h⟩
  | _ => exact .inl ⟨rfl, id⟩

theorem Move.nativeClosing (hclosing : s'.nativeClosing = true) :
    s.nativeClosing = true ∨ ∃ me, before = .stopping me false ∧ s'.chains = s.chains := by
  cases h with
  | closes => exact .inr ⟨_, rfl, rfl⟩
  | _ => exact .inl hclosing

theorem Move.kept {n : ℕ} (ht : s.chains.tickets[n]? = some t) :
    ∃ u, s'.chains.tickets[n]? = some u ∧ u.owner = t.owner ∧ u.key = t.key ∧
      u.previous = t.previous := by
  cases h with
  | entered | shut | joined | drains =>
    exact ⟨t, ChainLock.State.getElem?_enqueue_of_some ht, rfl, rfl, rfl⟩
  | settled =>
    refine ⟨_, ChainLock.State.getElem?_settle.mpr ⟨t, ht, rfl⟩, ?_⟩
    split <;> simp
  | _ => exact ⟨t, ht, rfl, rfl, rfl⟩

end

theorem ClosingLast.step (h : ClosingLast calls s phase) (hsound : Sound calls s phase)
    (hhosted : Hosted s phase) (hmove : Move config s i (phase i) s' phase') :
    ClosingLast calls s' (Function.update phase i phase') := by
  rcases hmove.closing with ⟨hclosing, hback⟩ | ⟨hnone, hsome, hchains, hstop, hbefore⟩
  · constructor
    · intro c hc n t ht hkey
      rw [hclosing] at hc
      rcases hmove.tickets ht with ⟨u, hu, hukey, -⟩ | ⟨-, hnew⟩
      · exact h.latest hc hu (hukey.trans hkey)
      · rcases hnew with ⟨-, hopen, -⟩ | ⟨_, _, hsession, -⟩ | ⟨hsession, -⟩
        · rw [hopen] at hc
          cases hc
        · rw [hkey] at hsession
          cases hsession
        · rw [hkey] at hsession
          cases hsession
    · intro c hc
      rw [hclosing] at hc
      obtain ⟨t, ht, hstart, hphase⟩ := h.closer hc
      obtain ⟨u, hu, howner, -⟩ := hmove.kept ht
      refine ⟨u, hu, howner ▸ hstart, ?_⟩
      rw [howner, Function.update_apply]
      split
      next heq =>
        rw [heq] at hphase
        rcases hphase with hstop | hleft
        · exact hmove.stop hstop
        · exact .inr (hmove.left hleft)
      next => exact hphase
    · intro j c hstop
      rw [hclosing]
      rw [Function.update_apply] at hstop
      split at hstop
      next => exact h.stops (hback hstop)
      next => exact h.stops hstop
    · intro hnative
      rw [hclosing]
      rcases hmove.nativeClosing hnative with hnative | ⟨me, hbefore, hchains⟩
      · obtain ⟨c, hc, hsettled⟩ := h.closer_settled hnative
        refine ⟨c, hc, fun {n t} ht hne => ?_⟩
        rcases hmove.tickets ht with ⟨u, hu, -, -, -, hset⟩ | ⟨-, hnew⟩
        · exact hset (hsettled hu hne)
        · exfalso
          rcases hnew with ⟨-, hopen, -⟩ | ⟨owner, session, -, hsession, haccepting⟩ |
            ⟨-, me, hworking⟩
          · rw [hopen] at hc
            cases hc
          · exact h.no_host hsound hnative (by rw [hhosted.accepting hsession haccepting]; rfl)
          · exact h.no_host hsound hnative (by rw [hworking]; rfl)
      · refine ⟨me, h.stops (by rw [hbefore]; rfl), fun {n t} ht hne => ?_⟩
        rw [hchains] at ht
        exact h.settled_of_stopping hsound hhosted hbefore ht hne
  · constructor
    · intro c hc n t ht hkey
      obtain rfl := Option.some.inj (hsome.symm.trans hc)
      rcases hmove.tickets ht with ⟨u, hu, -⟩ | ⟨rfl, -⟩
      · exact Nat.le_of_lt (ChainLock.State.lt_length hu)
      · exact Nat.le_refl _
    · intro c hc
      obtain rfl := Option.some.inj (hsome.symm.trans hc)
      rw [hchains]
      exact ⟨_, ChainLock.State.getElem?_enqueue_self _ _ _,
        (hsound.origin (by rw [hbefore]; rfl)).symm, .inl (by simpa using hstop)⟩
    · intro j c hstop'
      rw [Function.update_apply] at hstop'
      split at hstop'
      next => rw [hsome, ← hstop, hstop']
      next =>
        rw [h.stops hstop'] at hnone
        cases hnone
    · intro hnative
      rcases hmove.nativeClosing hnative with hnative | ⟨me, hstopping, -⟩
      · obtain ⟨c, hc, -⟩ := h.closer_settled hnative
        rw [hnone] at hc
        cases hc
      · rw [h.stops (i := i) (by rw [hstopping]; rfl)] at hnone
        cases hnone

/-! ## Native requests -/

def RuntimeCall.session? : RuntimeCall ι → Option ι
  | .session owner _ _ => some owner
  | _ => none

omit [DecidableEq ι] in
theorem start_eq_calling {call : RuntimeCall ι} :
    Phase.start call = .calling owner ↔ call.session? = some owner := by
  cases call <;> simp [Phase.start, RuntimeCall.session?]

def Phase.Sealed : Phase ι → Prop
  | .sealed _ _ | .left => True
  | _ => False

def Phase.Requesting : Phase ι → Prop
  | .inside _ _ busy | .sealed _ busy | .serving _ _ _ busy | .stopping _ busy => busy = true
  | _ => False

/-- The promise on the physical lane under which an operation makes its requests, and whose promise
it is. -/
inductive Phase.On (i : ι) : Phase ι → ι → ℕ → Prop where
  | inside {kind : LaneKind} {me : ℕ} {busy : Bool} : On i (.inside kind me busy) i me
  | sealed {me : ℕ} {busy : Bool} : On i (.sealed me busy) i me
  | serving {owner : ι} {lane me : ℕ} {busy : Bool} : On i (.serving owner lane me busy) owner lane
  | stopping {me : ℕ} {busy : Bool} : On i (.stopping me busy) i me

omit [DecidableEq ι] in
theorem Sound.holds_of_on (h : Sound calls s phase) (hhosted : Hosted s phase) {n : ℕ}
    (hon : (phase i).On i owner n) : s.chains.Holds owner none n := by
  have hi := h.stands i
  generalize hphase : phase i = before at hon hi
  cases hon with
  | inside | sealed | stopping => exact hi
  | serving => exact (h.stands _).holds_of_hosting (hhosted.hosts (i := i) (by rw [hphase]; rfl))

/-- The native requests that have been made, and those in progress. -/
structure Recorded (config : ComputerRuntimeConfig) (calls : ι → RuntimeCall ι)
    (s : RuntimeState ι) (phase : ι → Phase ι) : Prop where
  laned : ∀ {e : LogEntry ι}, e ∈ s.log → ∀ {n : ℕ}, e.lane = some n →
    ∃ t : ChainLock.Ticket ι (Option ι), s.chains.tickets[n]? = some t ∧ t.key = none ∧
      s.chains.Ready t.previous ∧
      (e.member = t.owner ∧ (calls e.member).session? = none ∨
        (calls e.member).session? = some t.owner)
  unlaned : ∀ {e : LogEntry ι}, e ∈ s.log → e.lane = none →
    e.request.method.isPhysical = false ∧ Phase.start (calls e.member) = .arriving .single
  sorted : s.log.Pairwise fun late early =>
    ∀ {n m : ℕ}, late.lane = some n → early.lane = some m → m ≤ n
  released : ∀ {e : LogEntry ι}, e ∈ s.log → Phase.start (calls e.member) = .arriving .exclusive →
    e.request = releaseRequest config ∧ (phase e.member).Sealed
  sealed : s.log.Pairwise fun late early =>
    Phase.start (calls early.member) = .arriving .exclusive →
      (calls late.member).session? ≠ some early.member
  inFlight : ∀ {i : ι} {request : NativeRequest}, s.inFlight i = some request →
    request.method.isPhysical = true → (phase i).Requesting
  once : ∀ {n m : ℕ} {t u : ChainLock.Ticket ι (Option ι)}, s.chains.tickets[n]? = some t →
    s.chains.tickets[m]? = some u → t.key = none → u.key = none → t.owner = u.owner → n = m

omit [DecidableEq ι] in
theorem Recorded.initial (calls : ι → RuntimeCall ι) :
    Recorded config calls .initial fun i => Phase.start (calls i) where
  laned h := by cases h
  unlaned h := by cases h
  sorted := .nil
  released h := by cases h
  sealed := .nil
  inFlight h := by cases h
  once ht := by simp [RuntimeState.initial, ChainLock.State.empty] at ht

section

variable (h : Move config s i before s' phase')

include h

theorem Move.settled_of_settled {p : ℕ} (hp : s.chains.Settled p) : s'.chains.Settled p := by
  cases h with
  | entered | shut | joined | drains => exact (ChainLock.State.Keeps.enqueue i i _ _).settled hp
  | settled =>
    obtain ⟨t, ht, hset⟩ := hp
    exact ⟨_, ChainLock.State.getElem?_settle.mpr ⟨t, ht, rfl⟩, by split <;> simp [hset]⟩
  | _ => exact hp

theorem Move.sealed (hsealed : before.Sealed) : phase'.Sealed := by
  cases h with
  | away => trivial
  | turn hturn => cases hturn <;> exact hsealed.elim
  | begun hbegins =>
    cases hbegins with
    | sealed => trivial
    | _ => exact hsealed.elim
  | finished hfinishes =>
    cases hfinishes with
    | sealed => trivial
    | _ => exact hsealed.elim
  | settled hsettles => cases hsettles <;> trivial
  | stay | restrained => exact hsealed
  | _ => exact hsealed.elim

theorem Move.log :
    s'.log = s.log ∨ ∃ lane request, before.Begins config request lane phase' ∧
      s'.log = ⟨i, lane, request⟩ :: s.log ∧ s'.chains = s.chains := by
  cases h with
  | begun hbegins => exact .inr ⟨_, _, hbegins, rfl, rfl⟩
  | _ => exact .inl rfl

theorem Move.inFlight_of_ne {j : ι} (hj : j ≠ i) : s'.inFlight j = s.inFlight j := by
  cases h with
  | begun | finished => exact Function.update_of_ne hj _ _
  | _ => rfl

theorem Move.inFlight {request : NativeRequest} (hrequest : s'.inFlight i = some request)
    (hphysical : request.method.isPhysical = true)
    (hold : s.inFlight i = some request → before.Requesting) : phase'.Requesting := by
  cases h with
  | stay | restrained => exact hold hrequest
  | away hover =>
    have := hold hrequest
    cases before <;> first | exact this.elim | exact hover.elim
  | begun hbegins =>
    obtain rfl : _ = request := Option.some.inj (by simpa using hrequest)
    cases hbegins with
    | reading hnot =>
      rw [hnot] at hphysical
      cases hphysical
    | _ => rfl
  | finished => simp at hrequest
  | turn hturn => cases hturn <;> exact (hold hrequest).elim
  | settled hsettles => cases hsettles <;> cases hold hrequest
  | _ => cases hold hrequest

end

theorem Recorded.step (h : Recorded config calls s phase) (hsound : Sound calls s phase)
    (hhosted : Hosted s phase) (hmove : Move config s i (phase i) s' phase') :
    Recorded config calls s' (Function.update phase i phase') := by
  -- what has been recorded stays as it is
  have hlaned : ∀ {e : LogEntry ι}, e ∈ s.log → ∀ {n : ℕ}, e.lane = some n →
      ∃ t : ChainLock.Ticket ι (Option ι), s'.chains.tickets[n]? = some t ∧ t.key = none ∧
        s'.chains.Ready t.previous ∧
        (e.member = t.owner ∧ (calls e.member).session? = none ∨
          (calls e.member).session? = some t.owner) := by
    intro e he n hn
    obtain ⟨t, ht, hkey, hready, hmember⟩ := h.laned he hn
    obtain ⟨u, hu, howner, hukey, hprevious⟩ := hmove.kept ht
    exact ⟨u, hu, hukey.trans hkey, fun p hp => hmove.settled_of_settled (hready p (hprevious ▸ hp)),
      howner ▸ hmember⟩
  have hreleased : ∀ {e : LogEntry ι}, e ∈ s.log →
      Phase.start (calls e.member) = .arriving .exclusive →
        e.request = releaseRequest config ∧ (Function.update phase i phase' e.member).Sealed := by
    intro e he hstart
    obtain ⟨hrequest, hsealed⟩ := h.released he hstart
    refine ⟨hrequest, ?_⟩
    rw [Function.update_apply]
    split
    next heq => exact hmove.sealed (heq ▸ hsealed)
    next => exact hsealed
  have hflight : ∀ {j : ι} {request : NativeRequest}, s'.inFlight j = some request →
      request.method.isPhysical = true → (Function.update phase i phase' j).Requesting := by
    intro j request hrequest hphysical
    by_cases hj : j = i
    · subst hj
      rw [Function.update_self]
      exact hmove.inFlight hrequest hphysical fun hold => h.inFlight hold hphysical
    · rw [Function.update_of_ne hj]
      exact h.inFlight (hmove.inFlight_of_ne hj ▸ hrequest) hphysical
  have honce : ∀ {n m : ℕ} {t u : ChainLock.Ticket ι (Option ι)},
      s'.chains.tickets[n]? = some t → s'.chains.tickets[m]? = some u → t.key = none →
        u.key = none → t.owner = u.owner → n = m := by
    -- who places a promise on the physical lane has not placed one before
    have hnew : ∀ {n : ℕ} {t : ChainLock.Ticket ι (Option ι)},
        s'.chains.tickets[n]? = some t → t.key = none →
          (∃ u, s.chains.tickets[n]? = some u ∧ u.key = none ∧ u.owner = t.owner) ∨
            n = s.chains.tickets.length ∧ ∀ {m : ℕ} {u : ChainLock.Ticket ι (Option ι)},
              s.chains.tickets[m]? = some u → u.owner ≠ t.owner := by
      intro n t ht hkey
      rcases hmove.tickets ht with ⟨u, hu, hukey, howner, -⟩ | ⟨hn, hnew⟩
      · exact .inl ⟨u, hu, hukey.trans hkey, howner⟩
      · refine .inr ⟨hn, fun {m u} hu howner => ?_⟩
        rcases hnew with ⟨-, -, hi, hnot⟩ | ⟨_, _, hsession, -⟩ | ⟨hsession, -⟩
        · exact hnot (hi ▸ howner ▸ (hsound.owned hu).2)
        · rw [hkey] at hsession
          cases hsession
        · rw [hkey] at hsession
          cases hsession
    intro n m t u ht hu htkey hukey howner
    rcases hnew ht htkey with ⟨t', ht', htkey', htowner⟩ | ⟨rfl, hnone⟩
    · rcases hnew hu hukey with ⟨u', hu', hukey', huowner⟩ | ⟨rfl, hnone⟩
      · exact h.once ht' hu' htkey' hukey' (by rw [htowner, huowner, howner])
      · exact absurd (htowner.trans howner) (hnone ht')
    · rcases hnew hu hukey with ⟨u', hu', -, huowner⟩ | ⟨rfl, -⟩
      · exact absurd (huowner.trans howner.symm) (hnone hu')
      · rfl
  rcases hmove.log with hlog | ⟨lane, request, hbegins, hlog, hchains⟩
  · exact ⟨fun he => hlaned (hlog ▸ he), fun he => h.unlaned (hlog ▸ he), hlog ▸ h.sorted,
      fun he => hreleased (hlog ▸ he), hlog ▸ h.sealed, hflight, honce⟩
  · -- the new entry is made under the promise that holds the lane
    have hstart : ∀ {p : Phase ι}, (phase i).origin = some p → p = Phase.start (calls i) :=
      hsound.origin
    have hon : ∀ {n : ℕ}, lane = some n → ∃ owner, (phase i).On i owner n ∧
        (i = owner ∧ (calls i).session? = none ∨ (calls i).session? = some owner) := by
      intro n hn
      generalize hphase : phase i = before at hbegins hstart
      cases hbegins with
      | reading => cases hn
      | inside | sealed | stopping =>
        cases hn
        refine ⟨i, by constructor, .inl ⟨rfl, ?_⟩⟩
        cases hsession : (calls i).session? with
        | none => rfl
        | some owner => cases (hstart rfl).trans (start_eq_calling.mpr hsession)
      | serving =>
        cases hn
        exact ⟨_, .serving, .inr (start_eq_calling.mp (hstart rfl).symm)⟩
    have hnot : Phase.start (calls i) = .arriving .exclusive →
        request = releaseRequest config ∧ phase'.Sealed := by
      intro hexclusive
      rw [hexclusive] at hstart
      generalize phase i = before at hbegins hstart
      cases hbegins with
      | sealed hrelease => exact ⟨hrelease, trivial⟩
      | inside hkind => exact absurd (Phase.arriving.inj (hstart rfl)) hkind
      | _ => cases hstart rfl
    have hguest : ∀ {owner : ι}, (calls i).session? = some owner →
        ∃ n, (phase owner).hosting = some n := by
      intro owner hsession
      rw [start_eq_calling.mpr hsession] at hstart
      generalize hphase : phase i = before at hbegins hstart
      cases hbegins with
      | @serving owner' lane me =>
        cases hstart rfl
        exact ⟨lane, hhosted.hosts (i := i) (by rw [hphase]; rfl)⟩
      | _ => cases hstart rfl
    constructor
    · rw [hlog]
      intro e he n hn
      rcases List.mem_cons.mp he with rfl | hold
      · obtain ⟨owner, hlane, hmember⟩ := hon hn
        obtain ⟨t, ht, howner, hkey, -, hready⟩ := hsound.holds_of_on hhosted hlane
        rw [hchains]
        exact ⟨t, ht, hkey, hready, howner ▸ hmember⟩
      · exact hlaned hold hn
    · rw [hlog]
      intro e he hn
      rcases List.mem_cons.mp he with rfl | hold
      · generalize phase i = before at hbegins hstart
        cases hbegins with
        | reading hphysical => exact ⟨hphysical, (hstart rfl).symm⟩
        | _ => cases hn
      · exact h.unlaned hold hn
    · rw [hlog]
      refine List.pairwise_cons.mpr ⟨fun e he n m hn hm => ?_, h.sorted⟩
      -- whose turn has come later has outlived the others
      obtain ⟨owner, hlane, -⟩ := hon hn
      obtain ⟨t, ht, -, hkey, hset, -⟩ := hsound.holds_of_on hhosted hlane
      obtain ⟨u, hu, hukey, hready, -⟩ := h.laned he hm
      by_contra hlt
      rw [hsound.chains.settled_before hu hready ht (hkey.trans hukey.symm) (by omega)] at hset
      cases hset
    · rw [hlog]
      intro e he hexclusive
      rcases List.mem_cons.mp he with rfl | hold
      · rw [Function.update_self]
        exact hnot hexclusive
      · exact hreleased hold hexclusive
    · rw [hlog]
      refine List.pairwise_cons.mpr ⟨fun e he hexclusive hsession => ?_, h.sealed⟩
      obtain ⟨n, hhosting⟩ := hguest hsession
      have hsealed := (h.released he hexclusive).2
      cases hphase : phase e.member <;> rw [hphase] at hhosting hsealed <;>
        first | exact hsealed.elim | cases hhosting
    · exact hflight
    · exact honce

end Steps

/-! ## Runs -/

/-- Every operation is in a phase. -/
structure Phased (config : ComputerRuntimeConfig) (calls : ι → RuntimeCall ι)
    (c : RuntimePool ι R V × RuntimeState ι) (phase : ι → Phase ι) : Prop where
  obeys : ∀ i, Ends config (c.1 i) (phase i)
  sound : Sound calls c.2 phase
  hosted : Hosted c.2 phase
  closing : ClosingLast calls c.2 phase
  recorded : Recorded config calls c.2 phase

section Runs

variable [DecidableEq ι] {config : ComputerRuntimeConfig} {checks : RuntimeChecks R}
  {calls : ι → RuntimeCall ι} {permit : RuntimePool ι R V × RuntimeState ι → ι → Prop}
  {c : RuntimePool ι R V × RuntimeState ι} {phase : ι → Phase ι}

theorem laneAnswers_of_apply {answer : Answer R V} {i : ι} {o : RuntimeOp ι} {s s' : RuntimeState ι}
    {r : o.Res R V} (h : o.apply config answer i s = some (r, s')) : laneAnswers o r := by
  cases o with
  | enter accepted =>
    simp only [RuntimeOp.apply] at h
    split at h
    next =>
      cases h
      exact nofun
    next =>
      split at h
      next haccepted =>
        cases h
        rintro _ ⟨⟩
        exact haccepted.symm
      next haccepted =>
        cases h
        rintro _ ⟨⟩
        simpa using haccepted
  | _ => trivial

theorem phased_run
    (hrun : Pool.Run (runtimeExec config) permit (programs config checks calls, .initial) c) :
    ∃ phase, Phased config calls c phase := by
  induction hrun with
  | refl =>
    exact ⟨fun i => Phase.start (calls i), fun i => ends_program checks (calls i), .initial calls,
      .initial calls, .initial calls, .initial calls⟩
  | @step mid c i _ _ hstep ih =>
    obtain ⟨phase, hobeys, hsound, hhosted, hclosing, hrecorded⟩ := ih
    cases hstep with
    | @intro pool s o k r s' hpool hexec =>
      obtain ⟨answer, happly⟩ := hexec
      have hi := hobeys i
      rw [show (pool, s).1 i = _ from hpool] at hi
      have hmove := move_of_step hi.1 happly
      exact ⟨_, Pool.obeys_step hobeys hpool (laneAnswers_of_apply happly), hsound.step hmove,
        hhosted.step hsound hmove, hclosing.step hsound hhosted hmove,
        hrecorded.step hsound hhosted hmove⟩

def RuntimeCall.isProgram : RuntimeCall ι → Bool
  | .run _ _ | .scrollUntilVisible _ | .withExclusiveProgram => true
  | _ => false

/-- The request is one of the program `p`: its own, or one made through its session. -/
def Belongs (calls : ι → RuntimeCall ι) (p : ι) (e : LogEntry ι) : Prop :=
  e.member = p ∨ (calls e.member).session? = some p

structure Laned (config : ComputerRuntimeConfig) (calls : ι → RuntimeCall ι)
    (c : RuntimePool ι R V × RuntimeState ι) : Prop where
  /-- Two physical requests are never in progress at the same time. -/
  exclusive : ∀ {i j : ι} {request request' : NativeRequest}, c.2.inFlight i = some request →
    c.2.inFlight j = some request' → request.method.isPhysical = true →
      request'.method.isPhysical = true → i = j
  /-- Between two requests of a program there is no physical request of another operation. -/
  undivided : ∀ {p : ι} {after between before : List (LogEntry ι)} {last first : LogEntry ι},
    (calls p).isProgram = true → c.2.log = after ++ last :: (between ++ first :: before) →
      Belongs calls p last → Belongs calls p first →
        ∀ e ∈ between, e.request.method.isPhysical = true → Belongs calls p e
  /-- A JavaScript program itself requests the final release of the inputs only, and after it no
  request is made through its session. -/
  sealed : ∀ {after before : List (LogEntry ι)} {release : LogEntry ι},
    c.2.log = after ++ release :: before → calls release.member = .withExclusiveProgram →
      release.request = releaseRequest config ∧
        ∀ e ∈ after, (calls e.member).session? ≠ some release.member
  /-- When the native host is closed, every operation that has been admitted to a lane, other than
  the `close`, has settled its promise and ended. -/
  closing : c.2.nativeClosing = true → ∀ t ∈ c.2.chains.tickets, calls t.owner ≠ .close →
    t.settled = true ∧ (c.1 t.owner).outcome?.isSome = true

section

omit [DecidableEq ι]

theorem Phase.Requesting.on {p : Phase ι} (h : p.Requesting) (i : ι) :
    ∃ owner n, p.On i owner n ∧
      (owner = i ∧ p.hosting = none ∨ ∃ me, p = .serving owner n me true) := by
  cases p with
  | inside | sealed | stopping => exact ⟨i, _, by constructor, .inl ⟨rfl, rfl⟩⟩
  | serving owner lane me busy =>
    obtain rfl := h
    exact ⟨owner, lane, .serving, .inr ⟨me, rfl⟩⟩
  | _ => exact h.elim

section

variable (h : Phased config calls c phase)

include h

theorem Phased.exclusive {i j : ι} {request request' : NativeRequest}
    (hi : c.2.inFlight i = some request) (hj : c.2.inFlight j = some request')
    (hphysical : request.method.isPhysical = true)
    (hphysical' : request'.method.isPhysical = true) : i = j := by
  obtain ⟨owner, n, hon, hown⟩ := (h.recorded.inFlight hi hphysical).on i
  obtain ⟨owner', n', hon', hown'⟩ := (h.recorded.inFlight hj hphysical').on j
  -- one promise holds the physical lane
  obtain rfl := h.sound.chains.owner_unique (h.sound.holds_of_on h.hosted hon)
    (h.sound.holds_of_on h.hosted hon')
  have hhosts : ∀ {k : ι} {lane me : ℕ}, phase k = .serving owner lane me true →
      (phase owner).hosting = some lane := fun hk => h.hosted.hosts (by rw [hk]; rfl)
  rcases hown with ⟨rfl, hnone⟩ | ⟨me, hserving⟩ <;>
    rcases hown' with ⟨rfl, hnone'⟩ | ⟨me', hserving'⟩
  · rfl
  · rw [hhosts hserving'] at hnone
    cases hnone
  · rw [hhosts hserving] at hnone'
    cases hnone'
  · -- both serve calls of one session, and one promise holds its lane
    have hstands := h.sound.stands i
    have hstands' := h.sound.stands j
    rw [hserving] at hstands
    rw [hserving'] at hstands'
    exact h.sound.chains.owner_unique hstands hstands'

theorem Phased.lane_of_belongs {p : ι} {e : LogEntry ι} (hprogram : (calls p).isProgram = true)
    (he : e ∈ c.2.log) (hbelongs : Belongs calls p e) :
    ∃ n, e.lane = some n ∧ ∃ t : ChainLock.Ticket ι (Option ι),
      c.2.chains.tickets[n]? = some t ∧ t.key = none ∧ t.owner = p := by
  have hsession : (calls p).session? = none := by
    cases hcall : calls p <;> simp [hcall, RuntimeCall.isProgram, RuntimeCall.session?] at hprogram ⊢
  cases hlane : e.lane with
  | none =>
    have hsingle := (h.recorded.unlaned he hlane).2
    rcases hbelongs with rfl | hguest
    · cases hcall : calls e.member <;>
        simp [hcall, RuntimeCall.isProgram, Phase.start] at hprogram hsingle
    · rw [start_eq_calling.mpr hguest] at hsingle
      cases hsingle
  | some n =>
    obtain ⟨t, ht, hkey, -, hmember⟩ := h.recorded.laned he hlane
    refine ⟨n, rfl, t, ht, hkey, ?_⟩
    rcases hbelongs with rfl | hguest
    · rcases hmember with ⟨howner, -⟩ | hguest
      · exact howner.symm
      · rw [hsession] at hguest
        cases hguest
    · rcases hmember with ⟨-, hnone⟩ | hguest'
      · rw [hguest] at hnone
        cases hnone
      · exact Option.some.inj (hguest'.symm.trans hguest)

theorem Phased.undivided {p : ι} {after between before : List (LogEntry ι)}
    {last first : LogEntry ι} (hprogram : (calls p).isProgram = true)
    (hlog : c.2.log = after ++ last :: (between ++ first :: before)) (hlast : Belongs calls p last)
    (hfirst : Belongs calls p first) {e : LogEntry ι} (he : e ∈ between)
    (hphysical : e.request.method.isPhysical = true) : Belongs calls p e := by
  have hmem : ∀ {x : LogEntry ι}, x ∈ last :: (between ++ first :: before) → x ∈ c.2.log :=
    fun hx => hlog ▸ List.mem_append_right after hx
  obtain ⟨n, hn, t, ht, htkey, htowner⟩ :=
    h.lane_of_belongs hprogram (hmem List.mem_cons_self) hlast
  obtain ⟨m, hm, u, hu, hukey, huowner⟩ :=
    h.lane_of_belongs hprogram (hmem (by simp)) hfirst
  obtain rfl := h.recorded.once ht hu htkey hukey (htowner.trans huowner.symm)
  have heLog : e ∈ c.2.log := hmem (by simp [he])
  cases hlane : e.lane with
  | none =>
    rw [(h.recorded.unlaned heLog hlane).1] at hphysical
    cases hphysical
  | some k =>
    -- the promises of the requests grow with time, so this one is that of the program
    have hsorted := h.recorded.sorted
    rw [hlog] at hsorted
    have htail := (List.pairwise_append.mp hsorted).2.1
    have hle : k ≤ n := (List.pairwise_cons.mp htail).1 e (by simp [he]) hn hlane
    have hge : n ≤ k := (List.pairwise_append.mp (List.pairwise_cons.mp htail).2).2.2 e he first
      List.mem_cons_self hlane hm
    obtain rfl := Nat.le_antisymm hle hge
    obtain ⟨v, hv, -, -, hmember⟩ := h.recorded.laned heLog hlane
    obtain rfl := Option.some.inj (hv.symm.trans ht)
    rw [htowner] at hmember
    exact hmember.imp_left And.left

theorem Phased.sealed {after before : List (LogEntry ι)} {release : LogEntry ι}
    (hlog : c.2.log = after ++ release :: before)
    (hcall : calls release.member = .withExclusiveProgram) :
    release.request = releaseRequest config ∧
      ∀ e ∈ after, (calls e.member).session? ≠ some release.member := by
  have hstart : Phase.start (calls release.member) = .arriving .exclusive := by rw [hcall]; rfl
  have hmem : release ∈ c.2.log := by rw [hlog]; simp
  refine ⟨(h.recorded.released hmem hstart).1, fun e he => ?_⟩
  have hsealed := h.recorded.sealed
  rw [hlog] at hsealed
  exact (List.pairwise_append.mp hsealed).2.2 e he release List.mem_cons_self hstart

end

theorem Stands.exists_open {s : ChainLock.State ι (Option ι)} {i : ι} {p : Phase ι}
    (h : Stands s i p) (hbegun : p.Begun) (hleft : p ≠ .left) :
    ∃ n : ℕ, ∃ t : ChainLock.Ticket ι (Option ι), s.tickets[n]? = some t ∧ t.owner = i ∧
      t.settled = false := by
  have hopen : ∀ {key : Option ι} {me : ℕ}, s.Holds i key me →
      ∃ n : ℕ, ∃ t : ChainLock.Ticket ι (Option ι), s.tickets[n]? = some t ∧ t.owner = i ∧
        t.settled = false := fun ⟨t, ht, hi, _, hset, _⟩ => ⟨_, t, ht, hi, hset⟩
  cases p with
  | waiting | stopWaiting | joined => exact ⟨_, _, h, rfl, rfl⟩
  | inside | working | sealed | stopping | stopped | serving => exact hopen h
  | draining | drained => exact hopen h.1
  | left => exact absurd rfl hleft
  | _ => exact hbegun.elim

theorem Phased.settled_of_closing (h : Phased config calls c phase)
    (hclosing : c.2.nativeClosing = true) {t : ChainLock.Ticket ι (Option ι)}
    (ht : t ∈ c.2.chains.tickets) (hcall : calls t.owner ≠ .close) :
    t.settled = true ∧ (c.1 t.owner).outcome?.isSome = true := by
  obtain ⟨k, hk, hsettled⟩ := h.closing.closer_settled hclosing
  obtain ⟨u, hu, hstart, -⟩ := h.closing.closer hk
  -- the promises of other operations than the `close` are settled
  have hother : ∀ {n : ℕ} {v : ChainLock.Ticket ι (Option ι)}, c.2.chains.tickets[n]? = some v →
      v.owner = t.owner → v.settled = true := by
    intro n v hv howner
    refine hsettled hv ?_
    rintro rfl
    obtain rfl := Option.some.inj (hv.symm.trans hu)
    rw [howner] at hstart
    cases hcase : calls t.owner <;> simp [hcase, Phase.start] at hstart hcall
  obtain ⟨n, hn⟩ := List.mem_iff_getElem?.mp ht
  refine ⟨hother hn rfl, ?_⟩
  have hleft : phase t.owner = .left := by
    by_contra hne
    obtain ⟨m, v, hv, howner, hset⟩ :=
      (h.sound.stands t.owner).exists_open (h.sound.owned hn).2 hne
    rw [hother hv howner] at hset
    cases hset
  have hobeys := h.obeys t.owner
  rw [hleft] at hobeys
  cases hp : c.1 t.owner with
  | request o k =>
    rw [hp] at hobeys
    exact hobeys.1.elim
  | _ => rfl

end

/-- Whatever calls of the runtime overlap, the law of the physical lane holds at any time. -/
theorem laned_run
    (hrun : Pool.Run (runtimeExec config) permit (programs config checks calls, .initial) c) :
    Laned config calls c := by
  obtain ⟨phase, h⟩ := phased_run hrun
  exact
    { exclusive := h.exclusive
      undivided := fun hprogram hlog hlast hfirst _ he => h.undivided hprogram hlog hlast hfirst he
      sealed := h.sealed
      closing := fun hclosing _ ht => h.settled_of_closing hclosing ht }

end Runs

section Example

/-- A JavaScript program, a call of its session, a single action, and a `close`. -/
def overlapping : Fin 4 → RuntimeCall (Fin 4)
  | 0 => .withExclusiveProgram
  | 1 => .session 0 true (.execute (.mouse_down none none))
  | 2 => .act .release_inputs
  | 3 => .close

/-- The single action and the `close` are issued while the JavaScript runs, and wait for it. -/
theorem laned_run_overlapping : ∃ c : RuntimePool (Fin 4) Unit Unit × RuntimeState (Fin 4),
    Pool.Run (runtimeExec plainConfig) (fun _ _ => True)
        (programs plainConfig plainRuntimeChecks overlapping, .initial) c ∧
      c.2.log.map (fun e => (e.member, e.request.method)) =
        [(3, .release_inputs), (0, .release_inputs), (1, .mouse_down)] ∧
      c.2.nativeClosing = true ∧ Laned plainConfig overlapping c := by
  have hfinal : (Pool.schedule (fun answer i o => RuntimeOp.apply plainConfig answer i o)
      (([0, 0, 0, 0, 1, 1, 1, 1, 1, 1, 1, 2, 3, 1, 1, 0, 0, 0, 0, 0, 0, 0, 0, 2, 2, 2, 3, 3, 3, 3,
        3] : List (Fin 4)).map fun i => (i, plainAnswer))
      (programs plainConfig plainRuntimeChecks overlapping, .initial)).map
        (fun c => (c.2.log.map fun e => (e.member, e.request.method), c.2.nativeClosing)) =
      some ([(3, .release_inputs), (0, .release_inputs), (1, .mouse_down)], true) := rfl
  obtain ⟨c, hc, hlog⟩ := Option.map_eq_some_iff.mp hfinal
  obtain ⟨hlog, hclosing⟩ := Prod.mk.inj hlog
  have hrun : Pool.Run (runtimeExec plainConfig) (fun _ _ => True)
      (programs plainConfig plainRuntimeChecks overlapping, .initial) c :=
    Pool.run_of_schedule (fun x _ _ _ _ _ hx => ⟨x, hx⟩) _ (.refl _) hc
  exact ⟨c, hrun, hlog, hclosing, laned_run hrun⟩

end Example

end Computer
