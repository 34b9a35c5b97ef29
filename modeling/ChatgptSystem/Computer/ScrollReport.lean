import ChatgptSystem.Computer.ComputerRuntime
import ChatgptSystem.Foundations.Trace
import Mathlib.Data.List.Chain

/-!
# What a scroll until a target is visible reports

`ComputerRuntime.scrollUntilVisible` looks for a target, scrolls and observes, driven by whatever
the native host answers. What it reports is compared with the requests it has made.

* `ScrollNote`, `scrollNotes` — what matters of a trace of requests and replies;
* `ScrollAllowed` — when a scroll may be asked for, and a bound for the whole trace;
* `HonestScroll` — what a result says of the trace;
* `honest_of_leads` — the operation keeps to both.
-/

open Interleaving

namespace Computer

variable {ι R V : Type}

/-! ## Notes on a trace -/

inductive ScrollNote where
  /-- A scroll has been asked for. -/
  | asked
  | scrolled
  | observed (digest : Option String)
  /-- Whether a target was resolved. -/
  | resolved (params : Members) (succeeded : Bool)

def ScrollNote.isAsked : ScrollNote → Bool
  | .asked => true
  | _ => false

def ScrollNote.isScrolled : ScrollNote → Bool
  | .scrolled => true
  | _ => false

def ScrollNote.digest? : ScrollNote → Option (Option String)
  | .observed digest => some digest
  | _ => none

section Notes

variable (checks : RuntimeChecks R)

def acceptedBy {α : Type} (check : R → Except ComputerError α) (reply : Except ComputerFailure R) :
    Option α :=
  reply.toOption.bind fun reply => (check reply).toOption

def scrollNote : Event (RuntimeOp ι) (RuntimeOp.Res R V) → Option ScrollNote
  | ⟨.begin _ request, _⟩ => if request.method = .scroll then some .asked else none
  | ⟨.finish request, reply⟩ =>
    match request.method with
    | .scroll => (acceptedBy checks.validateActionResult reply).map fun _ => .scrolled
    | .observe => (acceptedBy checks.validateObservationOutput reply).map fun observation =>
        .observed (checks.observationDigest observation)
    | .resolve_target =>
      some (.resolved request.params (acceptedBy checks.validateResolvedTargetView reply).isSome)
    | _ => none
  | _ => none

def scrollNotes (trace : List (Event (RuntimeOp ι) (RuntimeOp.Res R V))) : List ScrollNote :=
  trace.filterMap (scrollNote checks)

end Notes

def digests (notes : List ScrollNote) : List (Option String) := notes.filterMap ScrollNote.digest?

/-- Two observations that follow each other have different digests. -/
def DigestChanged (notes : List ScrollNote) : Prop :=
  ∃ earlier digest next later, digests notes = earlier ++ some digest :: some next :: later ∧
    digest ≠ next

structure Moving (notes : List ScrollNote) : Prop where
  observed : digests notes ≠ []
  present : ∀ digest ∈ digests notes, digest ≠ none
  changing : (digests notes).IsChain (· ≠ ·)

def operationBound (maxSteps : ℕ) : ℕ := 9 * maxSteps + 11

structure ScrollAllowed (checks : RuntimeChecks R) (maxSteps : ℕ)
    (trace : List (Event (RuntimeOp ι) (RuntimeOp.Res R V))) (o : RuntimeOp ι) : Prop where
  short : trace.length < operationBound maxSteps
  scroll : ∀ lane request, o = .begin lane request → request.method = .scroll →
    (scrollNotes checks trace).countP ScrollNote.isAsked < maxSteps ∧
      Moving (scrollNotes checks trace)

def lookupParams (target : JSONValue) : Members :=
  [("target", target), ("retryBudget", jsonNumber 1)]

/-- What a result says of the trace. -/
structure HonestScroll (checked : CheckedScroll) (result : ComputerScrollUntilVisibleResult)
    (notes : List ScrollNote) : Prop where
  visible : result.state = .target_visible →
    ∃ before, notes = before ++ [.resolved (lookupParams checked.scopedTarget) true]
  boundary : result.state = .boundary_reached →
    ∃ before digest, notes = before ++ [.scrolled, .observed (some digest)] ∧
      (digests before).getLast? = some (some digest)
  stepsUsed : result.stepsUsed = notes.countP ScrollNote.isScrolled
  changed : result.changed = true ↔ DigestChanged notes

/-! ## Facts about notes -/

section Facts

variable {notes : List ScrollNote} {digest next : Option String}

theorem digests_append (notes more : List ScrollNote) :
    digests (notes ++ more) = digests notes ++ digests more :=
  List.filterMap_append

theorem digestChanged_append_iff {more : List ScrollNote} (h : digests more = []) :
    DigestChanged (notes ++ more) ↔ DigestChanged notes := by
  rw [DigestChanged, DigestChanged, digests_append, h, List.append_nil]

theorem digestChanged_observed {earlier : List (Option String)}
    (h : digests notes = earlier ++ [digest]) :
    DigestChanged (notes ++ [.observed next]) ↔
      DigestChanged notes ∨ ∃ a b, digest = some a ∧ next = some b ∧ a ≠ b := by
  have hnew : digests (notes ++ [.observed next]) = earlier ++ [digest, next] := by
    rw [digests_append, h, List.append_assoc]
    rfl
  constructor
  · rintro ⟨before, a, b, after, hsplit, hne⟩
    rw [hnew] at hsplit
    rcases List.eq_nil_or_concat after with rfl | ⟨after, last, rfl⟩
    · obtain ⟨-, hpair⟩ := List.append_inj' hsplit rfl
      obtain ⟨hdigest, hnext⟩ : digest = some a ∧ next = some b := by simpa using hpair
      exact .inr ⟨a, b, hdigest, hnext, hne⟩
    · refine .inl ⟨before, a, b, after, ?_, hne⟩
      have hinit : earlier ++ [digest] ++ [next] =
          (before ++ some a :: some b :: after) ++ [last] := by
        simpa using hsplit
      rw [h]
      exact List.append_inj_left' hinit rfl
  · rintro (⟨before, a, b, after, hsplit, hne⟩ | ⟨a, b, rfl, rfl, hne⟩)
    · refine ⟨before, a, b, after ++ [next], ?_, hne⟩
      rw [digests_append, hsplit]
      simp [digests, ScrollNote.digest?]
    · exact ⟨earlier, a, b, [], hnew, hne⟩

end Facts

/-! ## The requests -/

section Requests

variable {α : Type} {config : ComputerRuntimeConfig} {checks : RuntimeChecks R} {maxSteps n : ℕ}
  {notes : List ScrollNote} {trace : List (Event (RuntimeOp ι) (RuntimeOp.Res R V))}

structure Noted (checks : RuntimeChecks R) (notes : List ScrollNote) (n : ℕ)
    (trace : List (Event (RuntimeOp ι) (RuntimeOp.Res R V))) : Prop where
  notes : scrollNotes checks trace = notes
  length : trace.length = n

theorem Noted.snoc (h : Noted checks notes n trace)
    (event : Event (RuntimeOp ι) (RuntimeOp.Res R V)) :
    Noted checks (notes ++ (scrollNote checks event).toList) (n + 1) (trace ++ [event]) := by
  refine ⟨?_, by rw [List.length_append, h.length, List.length_singleton]⟩
  rw [scrollNotes, List.filterMap_append, ← h.notes]
  cases hnote : scrollNote checks event with
  | none => simp [scrollNotes, hnote]
  | some note => simp [scrollNotes, hnote]

theorem obeys_requireEnabled
    {Q : Unit → List (Event (RuntimeOp ι) (RuntimeOp.Res R V)) → Prop}
    (h : Noted checks notes n trace) (hn : n + 1 < operationBound maxSteps)
    (hQ : ∀ trace, Noted checks notes (n + 1) trace → Q () trace) :
    (requireEnabled : RuntimeM ι R V Unit).Obeys (traceMonitor (ScrollAllowed checks maxSteps)) Q
      (fun _ trace => trace.length < operationBound maxSteps) trace := by
  refine ⟨⟨h.length.trans_lt (by omega), nofun⟩, fun r _ => ?_⟩
  have hsnoc := h.snoc ⟨.requireEnabled, r⟩
  cases r with
  | error error => exact hsnoc.length.trans_lt hn
  | ok _ =>
    rw [show scrollNote checks (⟨.requireEnabled, .ok ()⟩ :
      Event (RuntimeOp ι) (RuntimeOp.Res R V)) = none from rfl] at hsnoc
    rw [Option.toList_none, List.append_nil] at hsnoc
    exact hQ _ hsnoc

variable {Q : R → List (Event (RuntimeOp ι) (RuntimeOp.Res R V)) → Prop}

theorem obeys_native {lane : Option ℕ} {request : NativeRequest}
    {E : ComputerFailure → List (Event (RuntimeOp ι) (RuntimeOp.Res R V)) → Prop}
    (h : Noted checks notes n trace) (hn : n + 1 < operationBound maxSteps)
    (hscroll : request.method = .scroll →
      notes.countP ScrollNote.isAsked < maxSteps ∧ Moving notes)
    (hok : ∀ reply trace, Noted checks
      (notes ++ (if request.method = .scroll then [.asked] else []) ++
        (scrollNote checks (⟨.finish request, .ok reply⟩ :
          Event (RuntimeOp ι) (RuntimeOp.Res R V))).toList) (n + 2) trace → Q reply trace)
    (herror : ∀ failure trace, Noted checks
      (notes ++ (if request.method = .scroll then [.asked] else []) ++
        (scrollNote checks (⟨.finish request, .error failure⟩ :
          Event (RuntimeOp ι) (RuntimeOp.Res R V))).toList) (n + 2) trace → E failure trace) :
    (native lane request : RuntimeM ι R V R).Obeys
      (traceMonitor (ScrollAllowed checks maxSteps)) Q E trace := by
  have hbegun : Noted checks (notes ++ (if request.method = .scroll then [.asked] else [])) (n + 1)
      (trace ++ [(⟨.begin lane request, ()⟩ : Event (RuntimeOp ι) (RuntimeOp.Res R V))]) := by
    have hsnoc := h.snoc (⟨.begin lane request, ()⟩ : Event (RuntimeOp ι) (RuntimeOp.Res R V))
    change Noted checks (notes ++ (if request.method = .scroll then some .asked else none :
      Option ScrollNote).toList) _ _ at hsnoc
    split at hsnoc <;> simpa [*] using hsnoc
  refine ⟨⟨h.length.trans_lt (by omega), ?_⟩, fun _ _ => ⟨⟨hbegun.length.trans_lt hn, nofun⟩,
    fun reply _ => ?_⟩⟩
  · rintro _ _ ⟨⟩ hmethod
    rw [h.notes]
    exact hscroll hmethod
  · cases reply with
    | ok reply => exact hok reply _ (hbegun.snoc _)
    | error failure => exact herror failure _ (hbegun.snoc _)

variable (config)

section

variable {me : ℕ} (h : Noted checks notes n trace)

include h

theorem obeys_resolveOnLane {target : JSONValue}
    {E : ComputerFailure → List (Event (RuntimeOp ι) (RuntimeOp.Res R V)) → Prop}
    (hn : n + 1 < operationBound maxSteps)
    (hok : ∀ reply trace,
      Noted checks (notes ++ [.resolved (lookupParams target) true]) (n + 2) trace → Q reply trace)
    (herror : ∀ failure trace,
      Noted checks (notes ++ [.resolved (lookupParams target) false]) (n + 2) trace →
        E failure trace) :
    (resolveOnLane config checks me target : RuntimeM ι R V R).Obeys
      (traceMonitor (ScrollAllowed checks maxSteps)) Q E trace := by
  refine .bind (obeys_native h hn nofun (fun reply trace htrace => ?_)
    fun failure trace htrace => ?_)
  · cases hcheck : checks.validateResolvedTargetView reply with
    | ok view =>
      exact hok view trace (by simpa [scrollNote, acceptedBy, Except.toOption, lookupParams, hcheck]
        using htrace)
    | error error =>
      exact herror _ trace (by simpa [scrollNote, acceptedBy, Except.toOption, lookupParams, hcheck]
        using htrace)
  · exact herror failure trace
      (by simpa [scrollNote, acceptedBy, Except.toOption, lookupParams] using htrace)

theorem obeys_observeOnLane (hn : n + 2 < operationBound maxSteps)
    (hok : ∀ observation trace,
      Noted checks (notes ++ [.observed (checks.observationDigest observation)]) (n + 2) trace →
        Q observation trace) :
    (observeOnLane config checks me : RuntimeM ι R V R).Obeys
      (traceMonitor (ScrollAllowed checks maxSteps)) Q
      (fun _ trace => trace.length < operationBound maxSteps) trace := by
  refine .bind (obeys_native h (by omega) nofun (fun reply trace htrace => ?_)
    fun _ _ htrace => htrace.length.trans_lt hn)
  cases hcheck : checks.validateObservationOutput reply with
  | ok observation =>
    exact hok observation trace
      (by simpa [scrollNote, acceptedBy, Except.toOption, hcheck] using htrace)
  | error error => exact htrace.length.trans_lt hn

theorem obeys_scroll {params : Members} {rest : RuntimeM ι R V α}
    {Q : α → List (Event (RuntimeOp ι) (RuntimeOp.Res R V)) → Prop}
    (hn : n + 2 < operationBound maxSteps) (hasked : notes.countP ScrollNote.isAsked < maxSteps)
    (hmoving : Moving notes)
    (hrest : ∀ trace, Noted checks (notes ++ [.asked, .scrolled]) (n + 2) trace →
      rest.Obeys (traceMonitor (ScrollAllowed checks maxSteps)) Q
        (fun _ trace => trace.length < operationBound maxSteps) trace) :
    ((plainNative config (some me) .scroll params : RuntimeM ι R V R).bind fun reply =>
      (orFail (checks.validateActionResult reply)).bind fun _ => rest).Obeys
        (traceMonitor (ScrollAllowed checks maxSteps)) Q
        (fun _ trace => trace.length < operationBound maxSteps) trace := by
  refine .bind (obeys_native h (by omega) (fun _ => ⟨hasked, hmoving⟩)
    (fun reply trace htrace => ?_) fun _ _ htrace => htrace.length.trans_lt hn)
  cases hcheck : checks.validateActionResult reply with
  | ok result =>
    refine hrest trace ?_
    simpa [scrollNote, acceptedBy, Except.toOption, hcheck] using htrace
  | error error => exact htrace.length.trans_lt hn

theorem obeys_lookup {within target : JSONValue} {f : Except ComputerFailure R → RuntimeM ι R V α}
    {Q : α → List (Event (RuntimeOp ι) (RuntimeOp.Res R V)) → Prop}
    (hn : n + 5 < operationBound maxSteps)
    (hf : ∀ outcome trace, Noted checks (notes ++ [.resolved (lookupParams within) true] ++
        [.resolved (lookupParams target) outcome.isOk]) (n + 5) trace →
      (f outcome).Obeys (traceMonitor (ScrollAllowed checks maxSteps)) Q
        (fun _ trace => trace.length < operationBound maxSteps) trace) :
    (requireEnabled.bind fun _ => (resolveOnLane config checks me within).bind fun _ =>
      (resolveOnLane config checks me target).attempt.bind f).Obeys
        (traceMonitor (ScrollAllowed checks maxSteps)) Q
        (fun _ trace => trace.length < operationBound maxSteps) trace := by
  refine .bind (obeys_requireEnabled h (by omega) fun trace htrace => ?_)
  refine .bind (obeys_resolveOnLane config htrace (by omega) (fun _ trace htrace => ?_)
    fun _ _ htrace => htrace.length.trans_lt (by omega))
  refine .bind (.attempt (obeys_resolveOnLane config htrace (by omega)
    (fun reply trace htrace => ?_) fun failure trace htrace => ?_))
  · exact hf (.ok reply) trace htrace
  · exact hf (.error failure) trace htrace

end

end Requests

/-! ## The loop -/

section Loop

variable {config : ComputerRuntimeConfig} {checks : RuntimeChecks R} {checked : CheckedScroll}
  {stepsUsed n : ℕ} {changed : Bool} {digest : Option String} {notes : List ScrollNote}

structure AtLoop (stepsUsed : ℕ) (changed : Bool) (digest : Option String)
    (notes : List ScrollNote) : Prop where
  asked : notes.countP ScrollNote.isAsked = stepsUsed
  scrolled : notes.countP ScrollNote.isScrolled = stepsUsed
  last : ∃ earlier, digests notes = earlier ++ [digest]
  moving : digest ≠ none → Moving notes
  changed : changed = true ↔ DigestChanged notes

theorem AtLoop.resolved (h : AtLoop stepsUsed changed digest notes) (params : Members)
    (succeeded : Bool) :
    AtLoop stepsUsed changed digest (notes ++ [.resolved params succeeded]) := by
  have hsame : digests (notes ++ [.resolved params succeeded]) = digests notes := by
    rw [digests_append]
    exact List.append_nil _
  refine ⟨?_, ?_, ?_, fun hdigest => ?_, ?_⟩
  · rw [List.countP_append, h.asked]
    rfl
  · rw [List.countP_append, h.scrolled]
    rfl
  · rw [hsame]
    exact h.last
  · obtain ⟨hobserved, hpresent, hchanging⟩ := h.moving hdigest
    exact ⟨hsame ▸ hobserved, hsame ▸ hpresent, hsame ▸ hchanging⟩
  · exact h.changed.trans (digestChanged_append_iff rfl).symm

def scrolledTo (notes : List ScrollNote) (next : Option String) : List ScrollNote :=
  notes ++ [.asked, .scrolled] ++ [.observed next]

theorem AtLoop.observed (h : AtLoop stepsUsed changed digest notes) (next : Option String) :
    (scrolledTo notes next).countP ScrollNote.isAsked = stepsUsed + 1 ∧
    (scrolledTo notes next).countP ScrollNote.isScrolled = stepsUsed + 1 ∧
    digests (notes ++ [.asked, .scrolled]) = digests notes ∧
    (DigestChanged (scrolledTo notes next) ↔
      changed = true ∨ ∃ a b, digest = some a ∧ next = some b ∧ a ≠ b) := by
  have hsame : digests (notes ++ [.asked, .scrolled]) = digests notes := by
    rw [digests_append]
    exact List.append_nil _
  obtain ⟨earlier, hlast⟩ := h.last
  refine ⟨?_, ?_, hsame, ?_⟩
  · rw [scrolledTo, List.countP_append, List.countP_append, h.asked]
    rfl
  · rw [scrolledTo, List.countP_append, List.countP_append, h.scrolled]
    rfl
  · rw [scrolledTo, digestChanged_observed (hsame.trans hlast), digestChanged_append_iff rfl,
      h.changed]

theorem AtLoop.step {last next : String} (h : AtLoop stepsUsed changed (some last) notes)
    (hne : next ≠ last) :
    AtLoop (stepsUsed + 1) true (some next) (scrolledTo notes (some next)) := by
  obtain ⟨hasked, hscrolled, hsame, hchanged⟩ := h.observed (some next)
  obtain ⟨earlier, hlast⟩ := h.last
  obtain ⟨-, hpresent, hchanging⟩ := h.moving nofun
  have hdigests : digests (scrolledTo notes (some next)) = digests notes ++ [some next] := by
    rw [scrolledTo, digests_append, hsame]
    rfl
  refine ⟨hasked, hscrolled, ⟨_, hdigests⟩, fun _ => ⟨?_, ?_, ?_⟩, ?_⟩
  · rw [hdigests]
    exact List.append_ne_nil_of_right_ne_nil _ (List.cons_ne_nil _ _)
  · rw [hdigests]
    intro digest hdigest
    rcases List.mem_append.mp hdigest with hold | hnew
    · exact hpresent digest hold
    · rw [List.mem_singleton.mp hnew]
      exact nofun
  · rw [hdigests, List.isChain_append]
    refine ⟨hchanging, List.isChain_singleton _, ?_⟩
    intro a ha b hb
    rw [hlast, List.getLast?_concat] at ha
    obtain rfl := Option.some.inj ha
    obtain rfl := Option.some.inj hb
    exact fun heq => hne (Option.some.inj heq).symm
  · exact iff_of_true rfl (hchanged.mpr (.inr ⟨last, next, rfl, rfl, hne.symm⟩))

variable {all : List ScrollNote}

theorem AtLoop.visible
    (h : AtLoop stepsUsed changed digest
      (notes ++ [.resolved (lookupParams checked.scopedTarget) true]))
    (hall : all = notes ++ [.resolved (lookupParams checked.scopedTarget) true]) :
    HonestScroll checked ⟨.target_visible, stepsUsed, changed⟩ all := by
  subst hall
  exact ⟨fun _ => ⟨notes, rfl⟩, nofun, h.scrolled.symm, h.changed⟩

theorem AtLoop.replan (h : AtLoop stepsUsed changed digest notes) (hall : all = notes) :
    HonestScroll checked ⟨.needs_replan, stepsUsed, changed⟩ all := by
  subst hall
  exact ⟨nofun, nofun, h.scrolled.symm, h.changed⟩

theorem AtLoop.lost (h : AtLoop stepsUsed changed digest notes)
    (hall : all = scrolledTo notes none) :
    HonestScroll checked ⟨.needs_replan, stepsUsed + 1, changed⟩ all := by
  subst hall
  obtain ⟨-, hscrolled, -, hchanged⟩ := h.observed none
  refine ⟨nofun, nofun, hscrolled.symm, ?_⟩
  rw [hchanged]
  simp

theorem AtLoop.stuck {last : String} (h : AtLoop stepsUsed changed (some last) notes)
    (hall : all = scrolledTo notes (some last)) :
    HonestScroll checked ⟨.boundary_reached, stepsUsed + 1, changed⟩ all := by
  subst hall
  obtain ⟨-, hscrolled, hsame, hchanged⟩ := h.observed (some last)
  obtain ⟨earlier, hlast⟩ := h.last
  refine ⟨nofun, fun _ => ⟨notes ++ [.asked], last, ?_, ?_⟩, hscrolled.symm, ?_⟩
  · simp [scrolledTo]
  · rw [digests_append, hlast]
    change (earlier ++ [some last] ++ []).getLast? = _
    rw [List.append_nil, List.getLast?_concat]
  · rw [hchanged]
    simp

theorem operationBound_lt {left maxSteps : ℕ} (h : stepsUsed + left = maxSteps) :
    9 * stepsUsed + 5 + 5 < operationBound maxSteps := by
  rw [operationBound]
  omega

theorem obeys_scrollLoop (me : ℕ) (left : ℕ) :
    ∀ {stepsUsed : ℕ} {changed : Bool} {digest : Option String} {notes : List ScrollNote}
      {trace : List (Event (RuntimeOp ι) (RuntimeOp.Res R V))},
      AtLoop stepsUsed changed digest notes → stepsUsed + left = checked.maxSteps →
      Noted checks notes (9 * stepsUsed + 5) trace →
      (scrollLoop config checks me checked left stepsUsed changed digest :
        RuntimeM ι R V ComputerScrollUntilVisibleResult).Obeys
          (traceMonitor (ScrollAllowed checks checked.maxSteps))
          (fun result trace => HonestScroll checked result (scrollNotes checks trace) ∧
            trace.length < operationBound checked.maxSteps)
          (fun _ trace => trace.length < operationBound checked.maxSteps) trace := by
  induction left with
  | zero =>
    intro stepsUsed changed digest notes trace hloop hsteps htrace
    unfold scrollLoop
    refine obeys_lookup config htrace (operationBound_lt hsteps) fun outcome trace htrace => ?_
    have hloop := (hloop.resolved (lookupParams checked.within) true).resolved
      (lookupParams checked.scopedTarget) outcome.isOk
    have hshort := htrace.length.trans_lt (operationBound_lt hsteps)
    cases outcome with
    | ok reply => exact ⟨hloop.visible htrace.notes, hshort⟩
    | error failure =>
      cases failure with
      | computer error =>
        dsimp only
        split
        · exact hshort
        · exact ⟨hloop.replan htrace.notes, hshort⟩
      | other => exact hshort
  | succ left ih =>
    intro stepsUsed changed digest notes trace hloop hsteps htrace
    unfold scrollLoop
    refine obeys_lookup config htrace (operationBound_lt hsteps) fun outcome trace htrace => ?_
    have hloop := (hloop.resolved (lookupParams checked.within) true).resolved
      (lookupParams checked.scopedTarget) outcome.isOk
    have hshort := htrace.length.trans_lt (operationBound_lt hsteps)
    cases outcome with
    | ok reply => exact ⟨hloop.visible htrace.notes, hshort⟩
    | error failure =>
      cases failure with
      | computer error =>
        dsimp only
        split
        · exact hshort
        · cases digest with
          | none => exact ⟨hloop.replan htrace.notes, hshort⟩
          | some last =>
            have hbound : 9 * stepsUsed + 5 + 9 < operationBound checked.maxSteps := by
              rw [operationBound]
              omega
            have hscroll : 9 * stepsUsed + 5 + 5 + 2 < operationBound checked.maxSteps :=
              (by omega : _ ≤ 9 * stepsUsed + 5 + 9).trans_lt hbound
            have hasked : _ < checked.maxSteps := hloop.asked.trans_lt (by omega)
            dsimp only
            refine obeys_scroll config htrace hscroll hasked (hloop.moving nofun)
              fun trace htrace => ?_
            refine .bind (obeys_observeOnLane config htrace hbound
              fun observation trace htrace => ?_)
            have hshort := htrace.length.trans_lt hbound
            cases hnext : checks.observationDigest observation with
            | none =>
              rw [hnext] at htrace
              exact ⟨hloop.lost htrace.notes, hshort⟩
            | some next =>
              rw [hnext] at htrace
              dsimp only
              split
              next heq =>
                subst heq
                exact ⟨hloop.stuck htrace.notes, hshort⟩
              next hne => exact ih (hloop.step hne) (by omega) htrace
      | other => exact hshort

end Loop

/-! ## The operation -/

section Operation

variable (config : ComputerRuntimeConfig) (checks : RuntimeChecks R)

theorem atLoop_observed (digest : Option String) :
    AtLoop 0 false digest [.observed digest] := by
  refine ⟨rfl, rfl, ⟨[], rfl⟩,
    fun hdigest => ⟨List.cons_ne_nil _ _, ?_, List.isChain_singleton _⟩, ?_⟩
  · rintro other hother
    obtain rfl := List.mem_singleton.mp hother
    exact hdigest
  · refine iff_of_false Bool.false_ne_true ?_
    rintro ⟨earlier, a, b, later, hsplit, -⟩
    have hlength := congrArg List.length hsplit
    simp [digests, ScrollNote.digest?] at hlength
    omega

theorem obeys_turn (me : ℕ) (checked : CheckedScroll)
    {trace : List (Event (RuntimeOp ι) (RuntimeOp.Res R V))} (h : Noted checks [] 2 trace) :
    (requireEnabled.bind fun _ => (observeOnLane config checks me).bind fun observation =>
      scrollLoop config checks me checked checked.maxSteps 0 false
        (checks.observationDigest observation) :
      RuntimeM ι R V ComputerScrollUntilVisibleResult).Obeys
        (traceMonitor (ScrollAllowed checks checked.maxSteps))
        (fun result trace => HonestScroll checked result (scrollNotes checks trace) ∧
          trace.length < operationBound checked.maxSteps)
        (fun _ trace => trace.length < operationBound checked.maxSteps) trace := by
  have hshort : 5 < operationBound checked.maxSteps := by
    rw [operationBound]
    omega
  refine .bind (obeys_requireEnabled h (by omega) fun trace htrace => ?_)
  refine .bind (obeys_observeOnLane config htrace hshort fun observation trace htrace => ?_)
  exact obeys_scrollLoop me checked.maxSteps (atLoop_observed _) (Nat.zero_add _) htrace

theorem obeys_scrollUntilVisible (input : ComputerScrollUntilVisibleInput) (checked : CheckedScroll)
    (hchecked : checkScroll input = .ok checked) :
    (scrollUntilVisible config checks input :
      RuntimeM ι R V ComputerScrollUntilVisibleResult).Obeys
        (traceMonitor (ScrollAllowed checks checked.maxSteps))
        (fun result trace => HonestScroll checked result (scrollNotes checks trace))
        (fun _ _ => True) [] := by
  have hstart : Noted checks [] 0 ([] : List (Event (RuntimeOp ι) (RuntimeOp.Res R V))) :=
    ⟨rfl, rfl⟩
  have hshort : 2 < operationBound checked.maxSteps := by
    rw [operationBound]
    omega
  rw [scrollUntilVisible, onPhysicalLane, hchecked]
  refine ⟨⟨by simp; omega, nofun⟩, fun entrance _ => ?_⟩
  cases entrance with
  | error error => trivial
  | ok entrance =>
    have hentered := hstart.snoc
      ⟨.enter (Except.ok checked : Except ComputerError CheckedScroll).isOk, .ok entrance⟩
    dsimp only
    cases hchain : entrance.chain with
    | none => trivial
    | some chain =>
      dsimp only
      refine ⟨⟨hentered.length.trans_lt (by omega), nofun⟩, fun awaited _ => ?_⟩
      have hawaited := hentered.snoc ⟨.await chain.1, awaited⟩
      refine .bind (.attempt ((obeys_turn config checks chain.2 checked hawaited).mono
        (fun result trace htrace => ?_) fun failure trace htrace => ?_))
      · refine ⟨⟨htrace.2, nofun⟩, fun settled _ => ?_⟩
        have hsame : scrollNotes checks (trace ++
            [(⟨.settle chain.2, settled⟩ : Event (RuntimeOp ι) (RuntimeOp.Res R V))]) =
              scrollNotes checks trace := by
          rw [scrollNotes, List.filterMap_append]
          exact List.append_nil _
        change HonestScroll checked result
          (scrollNotes checks (trace ++ [⟨.settle chain.2, settled⟩]))
        rw [hsame]
        exact htrace.1
      · exact ⟨⟨htrace, nofun⟩, fun settled _ => trivial⟩

theorem scroll_of_asked {event : Event (RuntimeOp ι) (RuntimeOp.Res R V)} {note : ScrollNote}
    (hnote : scrollNote checks event = some note) (hasked : note.isAsked = true) :
    ∃ lane request, event.1 = .begin lane request ∧ request.method = .scroll := by
  obtain ⟨o, answer⟩ := event
  cases o with
  | begin lane request =>
    by_cases hmethod : request.method = .scroll
    · exact ⟨lane, request, rfl, hmethod⟩
    · simp [scrollNote, hmethod] at hnote
  | finish request =>
    simp only [scrollNote] at hnote
    split at hnote
    · obtain ⟨_, -, rfl⟩ := Option.map_eq_some_iff.mp hnote
      cases hasked
    · obtain ⟨_, -, rfl⟩ := Option.map_eq_some_iff.mp hnote
      cases hasked
    · obtain rfl := Option.some.inj hnote
      cases hasked
    · cases hnote
  | _ => cases hnote

theorem bounds_of_allowed {maxSteps : ℕ} (trace : List (Event (RuntimeOp ι) (RuntimeOp.Res R V)))
    (h : ∀ before event after, trace = before ++ event :: after →
      ScrollAllowed checks maxSteps before event.1) :
    trace.length ≤ operationBound maxSteps ∧
      (scrollNotes checks trace).countP ScrollNote.isAsked ≤ maxSteps := by
  induction trace using List.reverseRecOn with
  | nil => exact ⟨Nat.zero_le _, Nat.zero_le _⟩
  | append_singleton trace event ih =>
    obtain ⟨-, hasked⟩ := ih fun before earlier after hsplit =>
      h before earlier (after ++ [event]) (by rw [hsplit]; simp)
    obtain ⟨hshort, hscroll⟩ := h trace event [] rfl
    refine ⟨by rw [List.length_append]; exact hshort, ?_⟩
    have hnotes : scrollNotes checks (trace ++ [event]) =
        scrollNotes checks trace ++ (scrollNote checks event).toList :=
      ((Noted.mk rfl rfl).snoc event).notes
    rw [hnotes, List.countP_append]
    cases hnote : scrollNote checks event with
    | none => exact hasked
    | some note =>
      cases hkind : note.isAsked with
      | false => simpa [hkind] using hasked
      | true =>
        obtain ⟨lane, request, hbegin, hmethod⟩ := scroll_of_asked checks hnote hkind
        simpa [hkind] using Nat.succ_le_of_lt (hscroll lane request hbegin hmethod).1

/-- The operation ends after a bounded number of requests, at most `maxSteps` of them scrolls, none
of which comes after an observation without a digest or with the digest of the one before; and what
it returns is what has happened. -/
theorem honest_of_leads (input : ComputerScrollUntilVisibleInput) (checked : CheckedScroll)
    (hchecked : checkScroll input = .ok checked)
    {trace : List (Event (RuntimeOp ι) (RuntimeOp.Res R V))}
    {rest : RuntimeM ι R V ComputerScrollUntilVisibleResult}
    (h : (scrollUntilVisible config checks input).Leads trace rest) :
    trace.length ≤ operationBound checked.maxSteps ∧
      (scrollNotes checks trace).countP ScrollNote.isAsked ≤ checked.maxSteps ∧
      (∀ before lane request answer after,
        trace = before ++ ⟨.begin lane request, answer⟩ :: after → request.method = .scroll →
          Moving (scrollNotes checks before)) ∧
      ∀ result, rest.outcome? = some (.ok result) →
        HonestScroll checked result (scrollNotes checks trace) := by
  obtain ⟨hrest, hallowed⟩ :=
    h.obeys (obeys_scrollUntilVisible config checks input checked hchecked)
  obtain ⟨hlength, hasked⟩ := bounds_of_allowed checks trace hallowed
  refine ⟨hlength, hasked, fun before lane request answer after hsplit hmethod => ?_, ?_⟩
  · exact ((hallowed before _ after hsplit).scroll lane request rfl hmethod).2
  · intro result hresult
    cases rest with
    | pure value =>
      obtain rfl := Except.ok.inj (Option.some.inj hresult)
      exact hrest
    | throw => cases hresult
    | request => cases hresult

end Operation

/-! ## An example -/

/-- Replies in which a container is found, a target within it is not, and nothing moves. -/
def unmovedReply (request : NativeRequest) : String :=
  match request.method, request.params.lookup "target" with
  | .resolve_target, some (.object members) =>
    if (members.lookup "within").isSome then "missing" else "container"
  | _, _ => "unmoved"

def unmovedChecks : RuntimeChecks String where
  validateObservationOutput := .ok
  validateActionResult := .ok
  validateResolvedTargetView reply :=
    if reply = "missing" then .error { code := .COMPUTER_TARGET_NOT_FOUND } else .ok reply
  validateResolvedTargetViews _ := .ok
  validateScreenshot := .ok
  observationDigest := some

def unmovedAnswer : (o : RuntimeOp Unit) → RuntimeOp.Res String Unit o
  | .enter _ => .ok ⟨0, some (none, 0)⟩
  | .await _ => ()
  | .requireEnabled => .ok ()
  | .isClosing => false
  | .isAborted => false
  | .now => (0 : ℚ)
  | .delay _ => .ok ()
  | .begin _ _ => ()
  | .finish request => .ok (unmovedReply request)
  | .settle _ => ()
  | .openSession _ => ()
  | .work => .ok ()
  | .endSession => (none, 0)
  | .abortSession => ()
  | .join _ => .error { code := .COMPUTER_JS_FAILED }
  | .sessionAborted _ => false
  | .cancel _ => ()
  | .shut => none
  | .hostRunning => true
  | .beginClose => ()
  | .finishClose => .ok ()
  | .joinClose => .ok ()

def unmovedInput : ComputerScrollUntilVisibleInput where
  target := .text "Save" none none
  within := .role "AXScrollArea" none none
  direction := .down
  amount := none
  maxSteps := none

def unmovedConfig : ComputerRuntimeConfig := ⟨true, 1000, 1, 1000, 1⟩

def unmovedScroll : RuntimeM Unit String Unit ComputerScrollUntilVisibleResult :=
  scrollUntilVisible unmovedConfig unmovedChecks unmovedInput

/-- After one scroll the digest is the same. -/
theorem honest_of_leads_unmoved : ∃ checked trace rest result,
    checkScroll unmovedInput = .ok checked ∧ unmovedScroll.Leads trace rest ∧
      rest.outcome? = some (.ok result) ∧ result.stepsUsed = 1 ∧
      HonestScroll checked result (scrollNotes unmovedChecks trace) := by
  obtain ⟨trace, rest, hleads, hrest⟩ : ∃ trace rest, unmovedScroll.Leads trace rest ∧
      rest.outcome? = some (.ok ⟨.boundary_reached, 1, false⟩) := by
    unfold unmovedScroll scrollUntilVisible scrollLoop
    exact ⟨_, _, Program.leads_answered unmovedAnswer 20 _, rfl⟩
  have hhonest := honest_of_leads unmovedConfig unmovedChecks unmovedInput _ rfl hleads
  exact ⟨_, trace, rest, _, rfl, hleads, hrest, rfl, hhonest.2.2.2 _ hrest⟩

end Computer
