import ChatgptSystem.Browser.BrowserService

/-!
# The order of browser operations

* `Inside` — what an operation may still do while its promise is the first one of its chain that
  is not settled; `Orderly` — an operation from its beginning on;
* `Tracks` — how a call belongs to the chains, an invariant of every run (`consistent_run`);
* `Logged` — the calls of the backend on one chain follow the order of the promises (`logged_run`);
* `Teardown` — a `close` that has read the page tails waits for every page operation under way;
* `exists_step` — no call waits for ever;
* `ordered_of_conforming` — the order of the operations, in every run that does not begin a page
  operation during a teardown;
* `close_races_navigation` — one that does.
-/

open Interleaving

namespace Browser

variable {Target R V ι : Type}

/-! ## The shape of the operations -/

inductive Left : BrowserM Target R V → Prop where
  | pure (v) : Left (.pure v)
  | throw (e) : Left (.throw e)

/-- The operation, with the promise `me` on the chain `key`, calls the backend on that chain only
and settles its promise in the end. A `close` first waits for the tails that it has read. -/
inductive Inside (key : Option String) (me : ℕ) :
    Option (List ℕ) → BrowserM Target R V → Prop where
  | call {call k} (hpage : call.page = key) (hclose : call ≠ .close)
      (hk : ∀ reply, Inside key me none (k reply)) :
      Inside key me none (.request (.begin me call) fun _ => .request (.finish me call) k)
  | pageTails {k} (hkey : key = none) (hk : ∀ tails, Inside key me (some tails) (k tails)) :
      Inside key me none (.request .pageTails k)
  | await {tail tails k} (hk : Inside key me (some tails) (k ())) :
      Inside key me (some (tail :: tails)) (.request (.await (some tail)) k)
  | close {k} (hkey : key = none) (hk : ∀ reply, Inside key me none (k reply)) :
      Inside key me (some [])
        (.request (.begin me .close) fun _ => .request (.finish me .close) k)
  | settle {k} (hk : Left (k ())) : Inside key me none (.request (.settle me) k)
  | release {pageId k} (hkey : key = some pageId) (hk : Left (k ())) :
      Inside key me none (.request (.settle me) fun _ => .request (.forget pageId me) k)

inductive Orderly : BrowserM Target R V → Prop where
  | enqueue {key} {k : Option ℕ × ℕ → Unit → BrowserM Target R V}
      (hk : ∀ chain : Option ℕ × ℕ, Inside key chain.2 none (k chain ())) :
      Orderly (.request (.enqueue key) fun chain => .request (.await chain.1) (k chain))

/-- A part of an operation that only calls the backend, on the chain `key`. -/
inductive Body {α : Type} (key : Option String) (me : ℕ) : BrowserM Target R α → Prop where
  | pure (a) : Body key me (.pure a)
  | throw (e) : Body key me (.throw e)
  | call {call k} (hpage : call.page = key) (hclose : call ≠ .close)
      (hk : ∀ reply, Body key me (k reply)) :
      Body key me (.request (.begin me call) fun _ => .request (.finish me call) k)

namespace Body

variable {key : Option String} {me : ℕ} {α β : Type}

theorem bind {p : BrowserM Target R α} {f : α → BrowserM Target R β} (hp : Body key me p)
    (hf : ∀ a, Body key me (f a)) : Body key me (p.bind f) := by
  induction hp with
  | pure a => exact hf a
  | throw e => exact .throw e
  | call hpage hclose _ ih => exact .call hpage hclose ih

theorem ofExcept (outcome : Except BrowserFailure α) :
    Body key me (Program.ofExcept outcome : BrowserM Target R α) := by
  cases outcome with
  | ok a => exact .pure a
  | error e => exact .throw e

theorem orRefuse (outcome : Except BrowserError α) :
    Body key me (orRefuse outcome : BrowserM Target R α) := by
  cases outcome with
  | ok a => exact .pure a
  | error e => exact .throw _

theorem backend {call : BackendCall Target} (hpage : call.page = key) (hclose : call ≠ .close) :
    Body key me (backend me call : BrowserM Target R R) :=
  .call hpage hclose ofExcept

theorem checked (checks : BrowserChecks Target R V) {call : BackendCall Target}
    (hpage : call.page = key) (hclose : call ≠ .close) : Body key me (checked checks me call) :=
  (backend hpage hclose).bind fun _ => orRefuse _

theorem assertUniqueTarget (checks : BrowserChecks Target R V) (pageId : String)
    (target : Target) (looks : ℕ) :
    Body (some pageId) me (assertUniqueTarget checks me pageId target looks) := by
  induction looks with
  | zero => exact .throw _
  | succ looks ih =>
    have hcount : Body (some pageId) me
        (Browser.backend me (.targetCount pageId target) : BrowserM Target R R) :=
      backend rfl (by simp)
    refine hcount.bind fun count => ?_
    split
    · exact .pure ()
    · split
      · exact .throw _
      · exact ih

theorem inside {p : BrowserM Target R α} (hp : Body key me p)
    {f : Except BrowserFailure α → BrowserM Target R V}
    (hf : ∀ outcome, Inside key me none (f outcome)) : Inside key me none (p.attempt.bind f) := by
  induction hp with
  | pure a => exact hf _
  | throw e => exact hf _
  | call hpage hclose _ ih => exact .call hpage hclose ih

end Body

theorem left_settledAs (errorContext : ErrorContext) (outcome : Except BrowserFailure V) :
    Left (settledAs errorContext outcome : BrowserM Target R V) := by
  cases outcome with
  | ok v => exact .pure v
  | error e => exact .throw _

theorem orderly_runShared {body : ℕ → BrowserM Target R V} (h : ∀ me, Body none me (body me)) :
    Orderly (runShared body) :=
  .enqueue fun _ => (h _).inside fun outcome => .settle (left_settledAs _ outcome)

theorem orderly_runOnPage {pageId : String} {errorContext : ErrorContext}
    {body : ℕ → BrowserM Target R V} (h : ∀ me, Body (some pageId) me (body me)) :
    Orderly (runOnPage pageId errorContext body) :=
  .enqueue fun _ => (h _).inside fun outcome => .release rfl (left_settledAs _ outcome)

theorem orderly_close (checks : BrowserChecks Target R V) :
    Orderly (runShared (closeBody checks)) := by
  refine .enqueue fun chain => .pageTails rfl fun tails => ?_
  have hend : ∀ outcome : Except BrowserFailure V, Inside none chain.2 none
      (.request (.settle chain.2) fun _ => settledAs .generic outcome : BrowserM Target R V) :=
    fun outcome => .settle (left_settledAs _ outcome)
  suffices h : Inside none chain.2 (some tails) (((Program.forEach tails fun tail =>
      .request (.await (some tail)) .pure).bind fun _ => checked checks chain.2 .close).attempt.bind
        fun outcome => .request (.settle chain.2) fun _ => settledAs .generic outcome) from h
  induction tails with
  | nil =>
    refine .close rfl fun reply => ?_
    exact (((Body.ofExcept reply).bind fun _ => Body.orRefuse _).inside hend)
  | cons tail tails ih => exact .await ih

theorem orderly_program (checks : BrowserChecks Target R V) (looks : ℕ)
    (method : BrowserMethod Target) : Orderly (method.program checks looks) := by
  have hnavigable : ∀ {key me} (url : Option String) {call : BackendCall Target},
      call.page = key → call ≠ .close → Body key me (withNavigableUrl checks url call me) := by
    intro key me url call hpage hclose
    cases url with
    | none => exact .bind (.pure ()) fun _ => .checked checks hpage hclose
    | some url => exact .bind (.orRefuse _) fun _ => .checked checks hpage hclose
  have hunique : ∀ {me pageId} (target : Target) {call : BackendCall Target},
      call.page = some pageId → call ≠ .close →
      Body (some pageId) me (onUniqueTarget checks looks pageId target call me) := by
    intro me pageId target call hpage hclose
    exact .bind (.assertUniqueTarget checks pageId target looks) fun _ =>
      .checked checks hpage hclose
  cases method with
  | tabs => exact orderly_runShared fun _ => .checked checks rfl (by simp)
  | newTab url => exact orderly_runShared fun _ => hnavigable url rfl (by simp)
  | selectTab pageId => exact orderly_runShared fun _ => .checked checks rfl (by simp)
  | closeTab pageId => exact orderly_runShared fun _ => .checked checks rfl (by simp)
  | navigate pageId url => exact orderly_runOnPage fun _ => hnavigable (some url) rfl (by simp)
  | click pageId target => exact orderly_runOnPage fun _ => hunique target rfl (by simp)
  | fill pageId target text =>
    refine orderly_runOnPage fun me => ?_
    have hmetadata : Body (some pageId) me
        (backend me (.targetMetadata pageId target) : BrowserM Target R R) :=
      .backend rfl (by simp)
    exact .bind (.assertUniqueTarget checks pageId target looks) fun _ => hmetadata.bind fun _ =>
      .bind (.orRefuse _) fun _ => .checked checks rfl (by simp)
  | selectOption pageId target value => exact orderly_runOnPage fun _ => hunique target rfl (by simp)
  | pressKey pageId key =>
    refine orderly_runOnPage fun me => ?_
    have hfocused : Body (some pageId) me
        (backend me (.focusedMetadata pageId) : BrowserM Target R R) := .backend rfl (by simp)
    exact hfocused.bind fun _ => .bind (.orRefuse _) fun _ => .checked checks rfl (by simp)
  | close => exact orderly_close checks
  | _ => exact orderly_runOnPage fun _ => .checked checks rfl (by simp)

/-! ## Programs and chains -/

/-- The promises of the call are settled, but for `me`. -/
def Only (s : BrowserState Target ι) (i : ι) (me : Option ℕ) : Prop :=
  ∀ {t : ℕ} {ticket : ChainLock.Ticket ι (Option String)}, s.chains.tickets[t]? = some ticket →
    ticket.owner = i → ticket.settled = false → some t = me

/-- How the program of a call belongs to its promise, to its call of the backend that is in
progress, and to the tails it waits for. -/
inductive Tracks (s : BrowserState Target ι) (i : ι) : BrowserM Target R V → Prop where
  | idle {p} (hp : Orderly p) (hown : Only s i none) (hprogress : s.inProgress i = none)
      (hclosing : s.closing i = none) : Tracks s i p
  | waiting {key me previous k} (hk : Inside key me none (k ()))
      (hticket : s.chains.tickets[me]? = some ⟨i, key, previous, false⟩)
      (hown : Only s i (some me)) (hprogress : s.inProgress i = none)
      (hclosing : s.closing i = none) : Tracks s i (.request (.await previous) k)
  | inside {key me p} (hp : Inside key me none p) (hholds : s.chains.Holds i key me)
      (hown : Only s i (some me)) (hprogress : s.inProgress i = none)
      (hclosing : s.closing i = none) : Tracks s i p
  | calling {key me call k} (hk : ∀ reply, Inside key me none (k reply))
      (hpage : call.page = key) (hclose : call ≠ .close) (hholds : s.chains.Holds i key me)
      (hown : Only s i (some me)) (hprogress : s.inProgress i = some call)
      (hclosing : s.closing i = none) : Tracks s i (.request (.finish me call) k)
  | tearing {me tails all p} (hp : Inside none me (some tails) p)
      (hholds : s.chains.Holds i none me) (hown : Only s i (some me))
      (hprogress : s.inProgress i = none) (hclosing : s.closing i = some all)
      (hall : ∀ tail ∈ all, tail ∈ tails ∨ s.chains.Settled tail)
      (hplaced : ∀ tail ∈ tails, ∃ ticket, s.chains.tickets[tail]? = some ticket ∧
        ticket.key ≠ none) : Tracks s i p
  | closing {me all k} (hk : ∀ reply, Inside none me none (k reply))
      (hholds : s.chains.Holds i none me) (hown : Only s i (some me))
      (hprogress : s.inProgress i = some .close) (hclosing : s.closing i = some all)
      (hall : ∀ tail ∈ all, s.chains.Settled tail) :
      Tracks s i (.request (.finish me .close) k)
  | releasing {pageId me k} (hsettled : s.chains.Settled me) (hk : Left (k ()))
      (hown : Only s i none) (hprogress : s.inProgress i = none) (hclosing : s.closing i = none) :
      Tracks s i (.request (.forget pageId me) k)
  | left {p} (hp : Left p) (hown : Only s i none) (hprogress : s.inProgress i = none)
      (hclosing : s.closing i = none) : Tracks s i p

/-- What the steps of other calls leave to the call `j`. -/
structure Leaves (j : ι) (s s' : BrowserState Target ι) : Prop where
  keeps : s.chains.Keeps j s'.chains
  placed : ∀ {t : ℕ} {ticket : ChainLock.Ticket ι (Option String)},
    s.chains.tickets[t]? = some ticket →
      ∃ later, s'.chains.tickets[t]? = some later ∧ later.key = ticket.key
  own : ∀ {t : ℕ} {ticket : ChainLock.Ticket ι (Option String)},
    s'.chains.tickets[t]? = some ticket → ticket.owner = j → s.chains.tickets[t]? = some ticket
  inProgress : s'.inProgress j = s.inProgress j
  closing : s'.closing j = s.closing j

section Tracking

variable {s s' : BrowserState Target ι} {i j : ι} {p : BrowserM Target R V}

theorem Only.mono {me : Option ℕ} (h : Only s j me) (hleaves : Leaves j s s') : Only s' j me :=
  fun ht howner hset => h (hleaves.own ht howner) howner hset

theorem Tracks.mono (h : Tracks s j p) (hleaves : Leaves j s s') : Tracks s' j p := by
  have hsettled := fun {tail} => hleaves.keeps.settled (p := tail)
  cases h with
  | idle hp hown hprogress hclosing =>
    exact .idle hp (hown.mono hleaves) (hleaves.inProgress.trans hprogress)
      (hleaves.closing.trans hclosing)
  | waiting hk hticket hown hprogress hclosing =>
    exact .waiting hk (hleaves.keeps.own hticket rfl) (hown.mono hleaves)
      (hleaves.inProgress.trans hprogress) (hleaves.closing.trans hclosing)
  | inside hp hholds hown hprogress hclosing =>
    exact .inside hp (hleaves.keeps.holds hholds) (hown.mono hleaves)
      (hleaves.inProgress.trans hprogress) (hleaves.closing.trans hclosing)
  | calling hk hpage hclose hholds hown hprogress hclosing =>
    exact .calling hk hpage hclose (hleaves.keeps.holds hholds) (hown.mono hleaves)
      (hleaves.inProgress.trans hprogress) (hleaves.closing.trans hclosing)
  | tearing hp hholds hown hprogress hclosing hall hplaced =>
    exact .tearing hp (hleaves.keeps.holds hholds) (hown.mono hleaves)
      (hleaves.inProgress.trans hprogress) (hleaves.closing.trans hclosing)
      (fun tail htail => (hall tail htail).imp_right hsettled)
      fun tail htail => by
        obtain ⟨ticket, hticket, hkey⟩ := hplaced tail htail
        obtain ⟨later, hlater, hlaterkey⟩ := hleaves.placed hticket
        exact ⟨later, hlater, hlaterkey ▸ hkey⟩
  | closing hk hholds hown hprogress hclosing hall =>
    exact .closing hk (hleaves.keeps.holds hholds) (hown.mono hleaves)
      (hleaves.inProgress.trans hprogress) (hleaves.closing.trans hclosing)
      fun tail htail => hsettled (hall tail htail)
  | releasing hset hk hown hprogress hclosing =>
    exact .releasing (hsettled hset) hk (hown.mono hleaves)
      (hleaves.inProgress.trans hprogress) (hleaves.closing.trans hclosing)
  | left hp hown hprogress hclosing =>
    exact .left hp (hown.mono hleaves) (hleaves.inProgress.trans hprogress)
      (hleaves.closing.trans hclosing)

theorem Leaves.of_chains (hchains : s'.chains = s.chains) (hinProgress : s'.inProgress j = s.inProgress j)
    (hclosing : s'.closing j = s.closing j) : Leaves j s s' where
  keeps := hchains ▸ .refl j _
  placed := fun ht => ⟨_, hchains ▸ ht, rfl⟩
  own := fun ht _ => hchains ▸ ht
  inProgress := hinProgress
  closing := hclosing

variable {chains : ChainLock.State ι (Option String)}

theorem mem_pageTailsOf {tail : ℕ} :
    tail ∈ pageTailsOf chains ↔
      ∃ ticket ∈ chains.tickets, ticket.key ≠ none ∧ chains.queues ticket.key = some tail := by
  simp [pageTailsOf, List.mem_filterMap]

theorem placed_of_mem_pageTailsOf (hinv : chains.Inv) {tail : ℕ} (h : tail ∈ pageTailsOf chains) :
    ∃ ticket, chains.tickets[tail]? = some ticket ∧ ticket.key ≠ none := by
  obtain ⟨ticket, -, hkey, hqueue⟩ := mem_pageTailsOf.mp h
  obtain ⟨last, hlast, hlastkey⟩ := hinv.placed hqueue
  exact ⟨last, hlast, hlastkey ▸ hkey⟩

theorem tickets_forget (chains : ChainLock.State ι (Option String)) (key : Option String)
    (me : ℕ) : (chains.forget key me).tickets = chains.tickets := by
  unfold ChainLock.State.forget
  split <;> rfl

theorem Only.settle {me : ℕ} (h : Only s i (some me)) (hchains : chains = s.chains.settle me) :
    Only { s with chains } i none := by
  subst hchains
  intro t ticket ht howner hset
  obtain ⟨u, hu, rfl⟩ := ChainLock.State.getElem?_settle.mp ht
  split at hset
  next => cases hset
  next hne =>
    rw [if_neg hne] at howner
    exact absurd (Option.some.inj (h hu howner hset)).symm hne

theorem Leaves.settle {key : Option String} {me : ℕ} (hholds : s.chains.Holds i key me)
    (hij : i ≠ j) : Leaves j s { s with chains := s.chains.settle me } := by
  obtain ⟨u, hu, howner, -⟩ := hholds
  refine ⟨.settle fun ht => ?_,
    fun ht => ⟨_, ChainLock.State.getElem?_settle.mpr ⟨_, ht, rfl⟩, by split <;> rfl⟩,
    fun {t ticket} ht hj => ?_, rfl, rfl⟩
  · obtain rfl := Option.some.inj (hu.symm.trans ht)
    rwa [howner]
  · obtain ⟨v, hv, rfl⟩ := ChainLock.State.getElem?_settle.mp ht
    split at hj
    next heq =>
      subst heq
      obtain rfl := Option.some.inj (hu.symm.trans hv)
      exact absurd (howner.symm.trans hj) hij
    next hne => rwa [if_neg hne]

variable [DecidableEq ι]

theorem apply_finish {me : ℕ} {call : BackendCall Target} (reply : Except BrowserFailure R)
    (hclose : call ≠ .close) : BrowserOp.apply reply i (.finish me call) s =
      some (reply, { s with inProgress := Function.update s.inProgress i none }) := by
  cases call <;> first | rfl | exact absurd rfl hclose

theorem tracks_step {reply : Except BrowserFailure R} {o : BrowserOp Target}
    {k : o.Res R → BrowserM Target R V} {r : o.Res R} (hinv : s.chains.Inv)
    (h : Tracks s i (.request o k)) (hstep : o.apply reply i s = some (r, s')) :
    s'.chains.Inv ∧ Tracks s' i (k r) ∧ ∀ j, i ≠ j → Leaves j s s' := by
  cases h with
  | idle hp hown hprogress hclosing =>
    cases hp with
    | @enqueue key k hk =>
      obtain ⟨rfl, rfl⟩ := Prod.mk.inj (Option.some.inj hstep)
      have hticket := ChainLock.State.getElem?_enqueue_self s.chains i key
      refine ⟨hinv.enqueue i key, .waiting (hk _) hticket (fun ht howner hset => ?_) hprogress
        hclosing, fun j hij => ⟨.enqueue j i _ key,
          fun ht => ⟨_, ChainLock.State.getElem?_enqueue_of_some ht, rfl⟩,
          fun {t ticket} ht hj => ?_, rfl, rfl⟩⟩
      · rcases ChainLock.State.getElem?_enqueue ht with hold | ⟨rfl, -⟩
        · exact absurd (hown hold howner hset) (by simp)
        · rfl
      · rcases ChainLock.State.getElem?_enqueue ht with hold | ⟨-, rfl⟩
        · exact hold
        · exact absurd hj hij
  | waiting hk hticket hown hprogress hclosing =>
    obtain ⟨hready, heq⟩ := Option.ite_none_right_eq_some.mp hstep
    obtain ⟨-, rfl⟩ := Prod.mk.inj (Option.some.inj heq)
    exact ⟨hinv, .inside hk ⟨_, hticket, rfl, rfl, rfl, hready⟩ hown hprogress hclosing,
      fun j _ => .of_chains rfl rfl rfl⟩
  | inside hp hholds hown hprogress hclosing =>
    cases hp with
    | call hpage hclose hk =>
      obtain ⟨-, rfl⟩ := Prod.mk.inj (Option.some.inj hstep)
      exact ⟨hinv, .calling hk hpage hclose hholds hown (Function.update_self ..) hclosing,
        fun j hij => .of_chains rfl (Function.update_of_ne (Ne.symm hij) ..) rfl⟩
    | pageTails hkey hk =>
      subst hkey
      obtain ⟨rfl, rfl⟩ := Prod.mk.inj (Option.some.inj hstep)
      exact ⟨hinv, .tearing (hk _) hholds hown hprogress (Function.update_self ..)
        (fun _ htail => .inl htail) (fun _ htail => placed_of_mem_pageTailsOf hinv htail),
        fun j hij => .of_chains rfl rfl (Function.update_of_ne (Ne.symm hij) ..)⟩
    | settle hk =>
      obtain ⟨-, rfl⟩ := Prod.mk.inj (Option.some.inj hstep)
      exact ⟨hinv.settle hholds, .left hk (hown.settle rfl) hprogress hclosing,
        fun j hij => .settle hholds hij⟩
    | release hkey hk =>
      obtain ⟨-, rfl⟩ := Prod.mk.inj (Option.some.inj hstep)
      obtain ⟨u, hu, -⟩ := id hholds
      exact ⟨hinv.settle hholds, .releasing (ChainLock.State.settled_settle hu) hk (hown.settle rfl)
        hprogress hclosing, fun j hij => .settle hholds hij⟩
  | calling hk hpage hclose hholds hown hprogress hclosing =>
    rw [apply_finish reply hclose] at hstep
    obtain ⟨rfl, rfl⟩ := Prod.mk.inj (Option.some.inj hstep)
    exact ⟨hinv, .inside (hk _) hholds hown (Function.update_self ..) hclosing, fun j hij =>
      .of_chains rfl (Function.update_of_ne (Ne.symm hij) ..) rfl⟩
  | tearing hp hholds hown hprogress hclosing hall hplaced =>
    cases hp with
    | @await tail tails k hk =>
      obtain ⟨hready, heq⟩ := Option.ite_none_right_eq_some.mp hstep
      obtain ⟨-, rfl⟩ := Prod.mk.inj (Option.some.inj heq)
      refine ⟨hinv, .tearing hk hholds hown hprogress hclosing (fun other hother => ?_)
        fun other hother => hplaced other (List.mem_cons_of_mem _ hother),
        fun j _ => .of_chains rfl rfl rfl⟩
      rcases hall other hother with hmem | hset
      · rcases List.mem_cons.mp hmem with rfl | hmem
        · exact .inr (hready _ rfl)
        · exact .inl hmem
      · exact .inr hset
    | close hkey hk =>
      obtain ⟨-, rfl⟩ := Prod.mk.inj (Option.some.inj hstep)
      refine ⟨hinv, .closing hk hholds hown (Function.update_self ..) hclosing fun tail htail => ?_,
        fun j hij => .of_chains rfl (Function.update_of_ne (Ne.symm hij) ..) rfl⟩
      exact (hall tail htail).resolve_left List.not_mem_nil
  | closing hk hholds hown hprogress hclosing hall =>
    obtain ⟨rfl, rfl⟩ := Prod.mk.inj (Option.some.inj hstep)
    exact ⟨hinv, .inside (hk _) hholds hown (Function.update_self ..) (Function.update_self ..),
      fun j hij => .of_chains rfl (Function.update_of_ne (Ne.symm hij) ..)
        (Function.update_of_ne (Ne.symm hij) ..)⟩
  | @releasing pageId me k hset hk hown hprogress hclosing =>
    obtain ⟨-, rfl⟩ := Prod.mk.inj (Option.some.inj hstep)
    have htickets := tickets_forget s.chains (some pageId) me
    exact ⟨hinv.forget hset, .left hk (fun ht => hown (htickets ▸ ht)) hprogress hclosing,
      fun j _ => ⟨.forget j _ _ _, fun ht => ⟨_, htickets.symm ▸ ht, rfl⟩,
        fun ht _ => htickets ▸ ht, rfl, rfl⟩⟩
  | left hp hown hprogress hclosing => cases hp

end Tracking

/-! ## Runs -/

/-- What is left of the calls of the service, and the state of the service. -/
abbrev Configuration (Target R V ι : Type) : Type :=
  Pool ι (BrowserOp Target) (BrowserOp.Res R) BrowserFailure V × BrowserState Target ι

/-- A call of a method for each `i`. -/
def programs (checks : BrowserChecks Target R V) (looks : ι → ℕ)
    (methods : ι → BrowserMethod Target) :
    Pool ι (BrowserOp Target) (BrowserOp.Res R) BrowserFailure V :=
  fun i => (methods i).program checks (looks i)

/-- Each promise is where the program of its owner has put it. -/
structure Consistent (c : Configuration Target R V ι) : Prop where
  chains : c.2.chains.Inv
  tracks : ∀ i, Tracks c.2 i (c.1 i)

/-- The calls of the backend on one chain are made in the order of the promises, each after the
promises before its own are settled. -/
structure Logged (s : BrowserState Target ι) : Prop where
  sorted : s.log.Pairwise fun late early => late.2.page = early.2.page → early.1 ≤ late.1
  outlived : ∀ e ∈ s.log, e.1 < s.chains.tickets.length ∧
    ∀ {t : ℕ} {ticket : ChainLock.Ticket ι (Option String)}, s.chains.tickets[t]? = some ticket →
      ticket.key = e.2.page → t < e.1 → ticket.settled = true

/-- A `close` that has read the tails waits for every page operation under way. -/
def Teardown (s : BrowserState Target ι) : Prop :=
  ∀ {i : ι} {all : List ℕ}, s.closing i = some all →
    ∀ {t : ℕ} {ticket : ChainLock.Ticket ι (Option String)}, s.chains.tickets[t]? = some ticket →
      ticket.key ≠ none → ticket.settled = false →
      ∃ tail ∈ all, t ≤ tail ∧ ∃ last : ChainLock.Ticket ι (Option String),
        s.chains.tickets[tail]? = some last ∧ last.key = ticket.key

section Runs

variable {checks : BrowserChecks Target R V} {looks : ι → ℕ} {methods : ι → BrowserMethod Target}
  {s s' : BrowserState Target ι} {i : ι} {p : BrowserM Target R V}

theorem consistent_initial : Consistent (programs checks looks methods, .initial) where
  chains := .empty
  tracks i := .idle (orderly_program checks (looks i) (methods i))
    (fun ht => by simp [BrowserState.initial, ChainLock.State.empty] at ht) rfl rfl

variable {call : BackendCall Target} {c c' : Configuration Target R V ι} {o : BrowserOp Target}

theorem Tracks.of_inProgress (h : Tracks s i p) (hcall : s.inProgress i = some call) :
    (∃ me, s.chains.Holds i call.page me) ∧
      (call = .close → ∃ all, s.closing i = some all ∧ ∀ tail ∈ all, s.chains.Settled tail) := by
  cases h with
  | calling hk hpage hclose hholds hown hprogress hclosing =>
    obtain rfl := Option.some.inj (hcall.symm.trans hprogress)
    exact ⟨⟨_, hpage ▸ hholds⟩, fun h => absurd h hclose⟩
  | closing hk hholds hown hprogress hclosing hall =>
    obtain rfl := Option.some.inj (hcall.symm.trans hprogress)
    exact ⟨⟨_, hholds⟩, fun _ => ⟨_, hclosing, hall⟩⟩
  | idle hp hown hprogress hclosing => simp [hprogress] at hcall
  | waiting hk hticket hown hprogress hclosing => simp [hprogress] at hcall
  | inside hp hholds hown hprogress hclosing => simp [hprogress] at hcall
  | tearing hp hholds hown hprogress hclosing hall hplaced => simp [hprogress] at hcall
  | releasing hset hk hown hprogress hclosing => simp [hprogress] at hcall
  | left hp hown hprogress hclosing => simp [hprogress] at hcall

theorem Tracks.of_begin {me : ℕ} {k : Unit → BrowserM Target R V}
    (h : Tracks s i (.request (.begin me call) k)) : s.chains.Holds i call.page me := by
  cases h with
  | idle hp => cases hp
  | inside hp hholds =>
    cases hp with
    | call hpage => exact hpage ▸ hholds
  | tearing hp hholds =>
    cases hp with
    | close => exact hholds
  | left hp => cases hp

theorem Tracks.of_open {t : ℕ} {ticket : ChainLock.Ticket ι (Option String)} (h : Tracks s i p)
    (ht : s.chains.tickets[t]? = some ticket) (howner : ticket.owner = i)
    (hopen : ticket.settled = false) : p.outcome? = none := by
  cases h with
  | idle hp hown => exact absurd (hown ht howner hopen) (by simp)
  | waiting => rfl
  | inside hp => cases hp <;> rfl
  | calling => rfl
  | tearing hp => cases hp <;> rfl
  | closing => rfl
  | releasing => rfl
  | left hp hown => exact absurd (hown ht howner hopen) (by simp)

variable [DecidableEq ι]

theorem consistent_step (h : Consistent c) (hstep : Pool.Step browserExec i c c') :
    Consistent c' := by
  cases hstep with
  | @intro pool s o k r s' hpool hexec =>
    obtain ⟨reply, hexec⟩ := hexec
    have hi := h.tracks i
    rw [show (pool, s).1 i = _ from hpool] at hi
    obtain ⟨hchains, htracks, hothers⟩ := tracks_step h.chains hi hexec
    refine ⟨hchains, fun j => ?_⟩
    by_cases hij : j = i
    · subst hij
      simpa using htracks
    · simpa [hij] using (h.tracks j).mono (hothers j (Ne.symm hij))

theorem consistent_run {permit : Configuration Target R V ι → ι → Prop}
    (hrun : Pool.Run browserExec permit (programs checks looks methods, .initial) c) :
    Consistent c := by
  induction hrun with
  | refl => exact consistent_initial
  | step _ _ hstep ih => exact consistent_step ih hstep

/-! ## The order on one chain -/

/-- What one step leaves of the promises, and what it adds to them, to the log and to the tails
that are waited for. -/
structure Advances (o : BrowserOp Target) (s s' : BrowserState Target ι) : Prop where
  back : ∀ {t : ℕ} {ticket : ChainLock.Ticket ι (Option String)},
    s'.chains.tickets[t]? = some ticket →
      (∃ old, s.chains.tickets[t]? = some old ∧ old.key = ticket.key ∧
        (old.settled = true → ticket.settled = true)) ∨
      t = s.chains.tickets.length ∧ o = .enqueue ticket.key
  forth : ∀ {t : ℕ} {old : ChainLock.Ticket ι (Option String)},
    s.chains.tickets[t]? = some old → ∃ ticket, s'.chains.tickets[t]? = some ticket ∧
      ticket.key = old.key
  log : s'.log = s.log ∨ ∃ me call, o = .begin me call ∧ s'.log = (me, call) :: s.log ∧
    s'.chains = s.chains
  closing : ∀ {j : ι} {all : List ℕ}, s'.closing j = some all → s.closing j = some all ∨
    all = pageTailsOf s.chains ∧ s'.chains = s.chains

omit [DecidableEq ι] in
theorem Advances.of_chains (hchains : s'.chains = s.chains)
    (hlog : s'.log = s.log ∨ ∃ me call, o = .begin me call ∧ s'.log = (me, call) :: s.log)
    (hclosing : ∀ {j : ι} {all : List ℕ}, s'.closing j = some all → s.closing j = some all ∨
      all = pageTailsOf s.chains) : Advances o s s' where
  back ht := .inl ⟨_, hchains ▸ ht, rfl, id⟩
  forth ht := ⟨_, hchains ▸ ht, rfl⟩
  log := hlog.imp_right fun ⟨me, call, ho, hlog⟩ => ⟨me, call, ho, hlog, hchains⟩
  closing hall := (hclosing hall).imp_right fun h => ⟨h, hchains⟩

theorem advances_apply {reply : Except BrowserFailure R} {r : o.Res R}
    (hstep : o.apply reply i s = some (r, s')) : Advances o s s' := by
  cases o with
  | enqueue key =>
    obtain ⟨-, rfl⟩ := Prod.mk.inj (Option.some.inj hstep)
    refine ⟨fun ht => ?_, fun ht => ⟨_, ChainLock.State.getElem?_enqueue_of_some ht, rfl⟩,
      .inl rfl, .inl⟩
    rcases ChainLock.State.getElem?_enqueue ht with hold | ⟨rfl, rfl⟩
    · exact .inl ⟨_, hold, rfl, id⟩
    · exact .inr ⟨rfl, rfl⟩
  | await previous =>
    obtain ⟨-, heq⟩ := Option.ite_none_right_eq_some.mp hstep
    obtain ⟨-, rfl⟩ := Prod.mk.inj (Option.some.inj heq)
    exact .of_chains rfl (.inl rfl) .inl
  | begin me call =>
    obtain ⟨-, rfl⟩ := Prod.mk.inj (Option.some.inj hstep)
    exact .of_chains rfl (.inr ⟨me, call, rfl, rfl⟩) .inl
  | finish me call =>
    obtain ⟨-, rfl⟩ := Prod.mk.inj (Option.some.inj hstep)
    refine .of_chains rfl (.inl rfl) fun {j all} hall => .inl ?_
    cases call with
    | close =>
      by_cases hij : j = i
      · simp [hij] at hall
      · simpa [hij] using hall
    | _ => exact hall
  | pageTails =>
    obtain ⟨-, rfl⟩ := Prod.mk.inj (Option.some.inj hstep)
    refine .of_chains rfl (.inl rfl) fun {j all} hall => ?_
    by_cases hij : j = i
    · right
      simpa [hij, eq_comm] using hall
    · left
      simpa [hij] using hall
  | settle me =>
    obtain ⟨-, rfl⟩ := Prod.mk.inj (Option.some.inj hstep)
    refine ⟨fun ht => ?_, fun ht => ⟨_, ChainLock.State.getElem?_settle.mpr ⟨_, ht, rfl⟩, ?_⟩,
      .inl rfl, .inl⟩
    · obtain ⟨old, hold, rfl⟩ := ChainLock.State.getElem?_settle.mp ht
      refine .inl ⟨old, hold, ?_, fun hset => ?_⟩ <;> split <;> simp [*]
    · split <;> rfl
  | forget pageId me =>
    obtain ⟨-, rfl⟩ := Prod.mk.inj (Option.some.inj hstep)
    have htickets := tickets_forget s.chains (some pageId) me
    exact ⟨fun ht => .inl ⟨_, htickets ▸ ht, rfl, id⟩, fun ht => ⟨_, htickets.symm ▸ ht, rfl⟩,
      .inl rfl, .inl⟩

omit [DecidableEq ι] in
theorem Advances.length_le (h : Advances o s s') :
    s.chains.tickets.length ≤ s'.chains.tickets.length := by
  by_contra hlt
  have hold : s.chains.tickets[s'.chains.tickets.length]? =
      some (s.chains.tickets[s'.chains.tickets.length]) := List.getElem?_eq_getElem (by omega)
  obtain ⟨ticket, hticket, -⟩ := h.forth hold
  exact absurd (ChainLock.State.lt_length hticket) (Nat.lt_irrefl _)

omit [DecidableEq ι] in
theorem Logged.begin {me : ℕ} (hlog : Logged s) (hinv : s.chains.Inv)
    (hholds : s.chains.Holds i call.page me) {later : BrowserState Target ι}
    (hlater : later.log = (me, call) :: s.log) (hchains : later.chains = s.chains) :
    Logged later := by
  obtain ⟨mine, hmine, -, hkey, hopen, hready⟩ := hholds
  constructor
  · rw [hlater]
    refine List.pairwise_cons.mpr ⟨fun early hearly hpage => ?_, hlog.sorted⟩
    -- had the earlier call been made for a later promise, this one would be settled
    by_contra hlt
    have hsettled := (hlog.outlived early hearly).2 hmine (hkey.trans hpage) (by omega)
    rw [hopen] at hsettled
    cases hsettled
  · rw [hlater, hchains]
    rintro e he
    rcases List.mem_cons.mp he with rfl | he
    · exact ⟨ChainLock.State.lt_length hmine, fun hu huk hlt =>
        hinv.settled_before hmine hready hu (huk.trans hkey.symm) hlt⟩
    · exact hlog.outlived e he

theorem logged_step (h : Consistent c) (hlog : Logged c.2) (hstep : Pool.Step browserExec i c c') :
    Logged c'.2 := by
  cases hstep with
  | @intro pool s o k r s' hpool hexec =>
    obtain ⟨reply, hexec⟩ := hexec
    have hadvances := advances_apply hexec
    rcases hadvances.log with hsame | ⟨me, call, rfl, hlater, hchains⟩
    · refine ⟨hsame ▸ hlog.sorted, fun e he => ?_⟩
      rw [hsame] at he
      obtain ⟨hlength, hbefore⟩ := hlog.outlived e he
      refine ⟨Nat.lt_of_lt_of_le hlength hadvances.length_le, fun ht hkey hlt => ?_⟩
      rcases hadvances.back ht with ⟨old, hold, holdkey, hset⟩ | ⟨rfl, -⟩
      · exact hset (hbefore hold (holdkey.trans hkey) hlt)
      · exact absurd hlt (Nat.not_lt_of_ge (Nat.le_of_lt hlength))
    · have hi := h.tracks i
      rw [show (pool, s).1 i = _ from hpool] at hi
      exact hlog.begin h.chains hi.of_begin hlater hchains

theorem logged_run {permit : Configuration Target R V ι → ι → Prop}
    (hrun : Pool.Run browserExec permit (programs checks looks methods, .initial) c) :
    Logged c.2 := by
  induction hrun with
  | refl => exact ⟨.nil, fun e he => by cases he⟩
  | step hrun _ hstep ih => exact logged_step (consistent_run hrun) ih hstep

/-! ## Teardown -/

/-- The step does not issue a page operation while a `close` that has read the page tails has not
closed the backend. -/
def Conforming (c : Configuration Target R V ι) (i : ι) : Prop :=
  ∀ pageId k, c.1 i = .request (.enqueue (some pageId)) k → ∀ j, c.2.closing j = none

theorem teardown_step (h : Consistent c) (hteardown : Teardown c.2) (hconforming : Conforming c i)
    (hstep : Pool.Step browserExec i c c') : Teardown c'.2 := by
  cases hstep with
  | @intro pool s o k r s' hpool hexec =>
    obtain ⟨reply, hexec⟩ := hexec
    have hadvances := advances_apply hexec
    intro j all hclosing t ticket ht hkey hopen
    rcases hadvances.closing hclosing with hbefore | ⟨rfl, hchains⟩
    · rcases hadvances.back ht with ⟨old, hold, holdkey, hset⟩ | ⟨rfl, rfl⟩
      · have holdopen : old.settled = false :=
          Bool.eq_false_iff.mpr fun hsettled => by simp [hset hsettled] at hopen
        obtain ⟨tail, htail, hle, last, hlast, hlastkey⟩ :=
          hteardown hbefore hold (holdkey ▸ hkey) holdopen
        obtain ⟨later, hlater, hlaterkey⟩ := hadvances.forth hlast
        exact ⟨tail, htail, hle, later, hlater, by rw [hlaterkey, hlastkey, holdkey]⟩
      · -- no page operation is issued during the teardown
        obtain ⟨owner, key, previous, settled⟩ := ticket
        obtain ⟨pageId, rfl⟩ := Option.ne_none_iff_exists'.mp hkey
        exact absurd (hbefore.symm.trans (hconforming pageId k hpool j)) (by simp)
    · rw [hchains] at ht ⊢
      cases hqueue : s.chains.queues ticket.key with
      | none =>
        rw [h.chains.none_settled hqueue ht rfl] at hopen
        cases hopen
      | some tail =>
        obtain ⟨last, hlast, hlastkey⟩ := h.chains.placed hqueue
        exact ⟨tail, mem_pageTailsOf.mpr ⟨ticket, List.mem_of_getElem? ht, hkey, hqueue⟩,
          h.chains.last hqueue ht rfl, last, hlast, hlastkey⟩

theorem teardown_run
    (hrun : Pool.Run browserExec Conforming (programs checks looks methods, .initial) c) :
    Teardown c.2 := by
  induction hrun with
  | refl =>
    intro j all hclosing
    cases hclosing
  | step hrun hconforming hstep ih =>
    exact teardown_step (consistent_run hrun) ih hconforming hstep

/-! ## No call waits for ever -/

theorem Tracks.moves_or_waits (hinv : s.chains.Inv) (h : Tracks s i p) (hp : p.outcome? = none) :
    (∃ (o : BrowserOp Target) (k : o.Res R → BrowserM Target R V) (r : o.Res R)
        (later : BrowserState Target ι), p = .request o k ∧ browserExec i o s r later) ∨
      ∃ tail ticket, s.chains.tickets[tail]? = some ticket ∧ ticket.settled = false ∧
        ∀ {t : ℕ} {mine : ChainLock.Ticket ι (Option String)},
          s.chains.tickets[t]? = some mine → mine.owner = i → mine.settled = false →
          mine.key = ticket.key ∧ tail < t ∨ mine.key = none ∧ ticket.key ≠ none := by
  have reply : Except BrowserFailure R := .error .other
  cases h with
  | idle hp' =>
    cases hp' with
    | enqueue => exact .inl ⟨_, _, _, _, rfl, reply, rfl⟩
  | @waiting key me previous k hk hticket hown =>
    by_cases hready : s.chains.Ready previous
    · exact .inl ⟨.await _, _, (), s, rfl, reply, if_pos hready⟩
    · right
      obtain ⟨tail, rfl, hopen⟩ : ∃ tail, previous = some tail ∧ ¬ s.chains.Settled tail := by
        simpa [ChainLock.State.Ready] using hready
      obtain ⟨hlt, ⟨ticket, htail, hkey⟩, -⟩ := hinv.previous_some hticket rfl
      refine ⟨tail, ticket, htail, Bool.eq_false_iff.mpr fun hset => hopen ⟨ticket, htail, hset⟩,
        fun {t mine} ht howner hset => .inl ?_⟩
      obtain rfl := Option.some.inj (hown ht howner hset)
      obtain rfl := Option.some.inj (hticket.symm.trans ht)
      exact ⟨hkey.symm, hlt⟩
  | inside hp' =>
    cases hp' with
    | call => exact .inl ⟨_, _, _, _, rfl, reply, rfl⟩
    | pageTails => exact .inl ⟨_, _, _, _, rfl, reply, rfl⟩
    | settle => exact .inl ⟨_, _, _, _, rfl, reply, rfl⟩
    | release => exact .inl ⟨_, _, _, _, rfl, reply, rfl⟩
  | calling => exact .inl ⟨_, _, _, _, rfl, reply, rfl⟩
  | @tearing me tails all p hp' hholds hown hprogress hclosing hall hplaced =>
    cases hp' with
    | close => exact .inl ⟨_, _, _, _, rfl, reply, rfl⟩
    | @await tail tails k hk =>
      by_cases hready : s.chains.Ready (some tail)
      · exact .inl ⟨.await _, _, (), s, rfl, reply, if_pos hready⟩
      · right
        obtain ⟨ticket, htail, hkey⟩ := hplaced tail List.mem_cons_self
        refine ⟨tail, ticket, htail, Bool.eq_false_iff.mpr fun hset => hready ?_,
          fun {t mine} ht howner hset => .inr ⟨?_, hkey⟩⟩
        · rintro _ ⟨⟩
          exact ⟨ticket, htail, hset⟩
        · obtain ⟨own, hown', -, hownkey, -⟩ := hholds
          obtain rfl := Option.some.inj (hown ht howner hset)
          rwa [Option.some.inj (ht.symm.trans hown')]
  | closing => exact .inl ⟨_, _, _, _, rfl, reply, rfl⟩
  | releasing => exact .inl ⟨_, _, _, _, rfl, reply, rfl⟩
  | left hp' => cases hp' <;> cases hp

theorem step_of_moves {k : o.Res R → BrowserM Target R V} {r : o.Res R}
    {later : BrowserState Target ι} (hpool : c.1 i = .request o k)
    (hexec : browserExec i o c.2 r later) : ∃ j c', Pool.Step browserExec j c c' := by
  obtain ⟨pool, state⟩ := c
  exact ⟨i, _, .intro hpool hexec⟩

theorem exists_step_of_open (h : Consistent c) :
    ∀ (rank : ℕ) {t : ℕ} {ticket : ChainLock.Ticket ι (Option String)},
      c.2.chains.tickets[t]? = some ticket → ticket.settled = false →
      (if ticket.key = none then c.2.chains.tickets.length + t else t) = rank →
      ∃ j c', Pool.Step browserExec j c c' := by
  intro rank
  induction rank using Nat.strongRecOn with
  | ind rank ih =>
    intro t ticket ht hopen hrank
    have howner := h.tracks ticket.owner
    rcases howner.moves_or_waits h.chains (howner.of_open ht rfl hopen) with
      ⟨o, k, r, later, hpool, hexec⟩ | ⟨tail, last, hlast, hlastopen, hwaits⟩
    · exact step_of_moves hpool hexec
    · have hlength := ChainLock.State.lt_length hlast
      refine ih _ ?_ hlast hlastopen rfl
      rcases hwaits ht rfl hopen with ⟨hkey, hlt⟩ | ⟨hkey, hlastkey⟩
      · rw [← hrank, ← hkey]
        split <;> omega
      · rw [← hrank, if_pos hkey, if_neg hlastkey]
        omega

theorem exists_step (h : Consistent c) (hi : (c.1 i).outcome? = none) :
    ∃ j c', Pool.Step browserExec j c c' := by
  rcases (h.tracks i).moves_or_waits h.chains hi with
    ⟨o, k, r, later, hpool, hexec⟩ | ⟨tail, last, hlast, hlastopen, -⟩
  · exact step_of_moves hpool hexec
  · exact exists_step_of_open h _ hlast hlastopen rfl

/-! ## The order of the operations -/

/-- The calls of the backend are in order. Two on one chain do not overlap and are made in the
order in which their operations were called; what an operation ends with, it does not block the
next one; and no call for a page is in progress while the backend is closed. -/
structure Ordered (c : Configuration Target R V ι) : Prop where
  exclusive : ∀ {i j : ι} {first second : BackendCall Target}, c.2.inProgress i = some first →
    c.2.inProgress j = some second → first.page = second.page → i = j
  inOrder : c.2.log.Pairwise fun late early => late.2.page = early.2.page → early.1 ≤ late.1
  ended : ∀ {t : ℕ} {ticket : ChainLock.Ticket ι (Option String)},
    c.2.chains.tickets[t]? = some ticket → (c.1 ticket.owner).outcome?.isSome = true →
    ticket.settled = true
  live : ∀ {i : ι}, (c.1 i).outcome? = none → ∃ j c', Pool.Step browserExec j c c'
  alone : ∀ {i j : ι} {call : BackendCall Target}, c.2.inProgress i = some .close →
    c.2.inProgress j = some call → call.page = none

/-- In every run of any methods, all calls of the backend are in order if no page operation is
issued between the moment a `close` reads the page tails and the end of its teardown. -/
theorem ordered_of_conforming {c : Configuration Target R V ι}
    (hrun : Pool.Run browserExec Conforming (programs checks looks methods, .initial) c) :
    Ordered c := by
  have hconsistent := consistent_run hrun
  refine ⟨fun {i j first second} hfirst hsecond hpage => ?_, (logged_run hrun).sorted,
    fun {t ticket} ht hended => ?_, exists_step hconsistent, fun {i j call} hclose hcall => ?_⟩
  · obtain ⟨⟨me, hi⟩, -⟩ := (hconsistent.tracks i).of_inProgress hfirst
    obtain ⟨⟨you, hj⟩, -⟩ := (hconsistent.tracks j).of_inProgress hsecond
    exact hconsistent.chains.owner_unique hi (hpage ▸ hj)
  · by_contra hopen
    have hnone := (hconsistent.tracks ticket.owner).of_open ht rfl (Bool.eq_false_iff.mpr hopen)
    rw [hnone] at hended
    cases hended
  · by_contra hpage
    obtain ⟨-, hall⟩ := (hconsistent.tracks i).of_inProgress hclose
    obtain ⟨all, hclosing, hsettled⟩ := hall rfl
    obtain ⟨⟨me, ticket, hticket, -, hkey, hopen, -⟩, -⟩ :=
      (hconsistent.tracks j).of_inProgress hcall
    -- the page operation is one of those that `close` has waited for
    obtain ⟨tail, htail, hle, last, hlast, hlastkey⟩ :=
      teardown_run hrun hclosing hticket (hkey ▸ hpage) hopen
    obtain ⟨last', hlast', hset⟩ := hsettled tail htail
    obtain rfl := Option.some.inj (hlast.symm.trans hlast')
    rcases Nat.lt_or_eq_of_le hle with hlt | rfl
    · rw [hconsistent.chains.ordered hlast hticket hlastkey.symm hlt hset] at hopen
      cases hopen
    · rw [Option.some.inj (hticket.symm.trans hlast), hset] at hopen
      cases hopen

end Runs

/-! ## A page operation during the teardown -/

section Example

/-- A service that accepts every address and every reply. -/
def plainChecks : BrowserChecks Unit Unit Unit where
  timeoutMs := 1000
  assertNavigableUrl _ := .ok ()
  assertNotCredentialTarget _ := .ok ()
  matchCount _ := 1
  output _ _ := .ok ()

def closeAndNavigate : Bool → BrowserMethod Unit
  | true => .close
  | false => .navigate "page" "https://example.com"

def closeAndNavigateCalls : Pool Bool (BrowserOp Unit) (BrowserOp.Res Unit) BrowserFailure Unit :=
  programs plainChecks (fun _ => 1) closeAndNavigate

/-- The check that stands for `Conforming`. -/
def conforms (c : Configuration Unit Unit Unit Bool) (i : Bool) : Bool :=
  match c.1 i with
  | .request (.enqueue (some _)) _ =>
    (c.2.closing true).isNone && (c.2.closing false).isNone
  | _ => true

theorem conforming_of_conforms (c : Configuration Unit Unit Unit Bool) (i : Bool)
    (h : conforms c i = true) : Conforming c i := by
  intro pageId k hnext j
  rw [conforms, hnext] at h
  obtain ⟨htrue, hfalse⟩ := Bool.and_eq_true_iff.mp h
  cases j with
  | true => exact Option.isNone_iff_eq_none.mp htrue
  | false => exact Option.isNone_iff_eq_none.mp hfalse

def underWay (c : Configuration Unit Unit Unit Bool) :
    Option (BackendCall Unit) × Option (BackendCall Unit) :=
  (c.2.inProgress true, c.2.inProgress false)

/-- The navigation has ended when the backend is closed, since it has been issued in time. -/
theorem ordered_of_conforming_close : ∃ c : Configuration Unit Unit Unit Bool,
    Pool.Run browserExec Conforming (closeAndNavigateCalls, .initial) c ∧
      underWay c = (some .close, none) ∧ Ordered c := by
  have hfinal : (Pool.scheduleIf conforms (fun reply i o => BrowserOp.apply reply i o)
      ([(false, .ok ()), (true, .ok ()), (false, .ok ()), (true, .ok ()), (false, .ok ()),
        (true, .ok ()), (false, .ok ()), (false, .ok ()), (true, .ok ()), (true, .ok ())])
      (closeAndNavigateCalls, .initial)).map underWay = some (some .close, none) := rfl
  obtain ⟨c, hc, hunder⟩ := Option.map_eq_some_iff.mp hfinal
  have hrun : Pool.Run browserExec Conforming (closeAndNavigateCalls, .initial) c :=
    Pool.run_of_scheduleIf conforming_of_conforms (fun x _ _ _ _ _ hx => ⟨x, hx⟩) _ (.refl _) hc
  exact ⟨c, hrun, hunder, ordered_of_conforming hrun⟩

/-- A navigation that is issued while the backend is closed does not wait for it. -/
theorem close_races_navigation : ∃ c : Configuration Unit Unit Unit Bool,
    Pool.Run browserExec (fun _ _ => True) (closeAndNavigateCalls, .initial) c ∧
      underWay c = (some .close, some (.navigate "page" "https://example.com" 1000)) ∧
      ¬ Ordered c := by
  have hfinal : (Pool.schedule (fun reply i o => BrowserOp.apply reply i o)
      ([(true, .ok ()), (true, .ok ()), (true, .ok ()), (true, .ok ()), (false, .ok ()),
        (false, .ok ()), (false, .ok ())])
      (closeAndNavigateCalls, .initial)).map underWay =
        some (some .close, some (.navigate "page" "https://example.com" 1000)) := rfl
  obtain ⟨c, hc, hunder⟩ := Option.map_eq_some_iff.mp hfinal
  obtain ⟨hclose, hnavigate⟩ := Prod.mk.inj hunder
  refine ⟨c, Pool.run_of_schedule (fun x _ _ _ _ _ hx => ⟨x, hx⟩) _ (.refl _) hc, hunder,
    fun hordered => ?_⟩
  cases hordered.alone hclose hnavigate

end Example

end Browser
