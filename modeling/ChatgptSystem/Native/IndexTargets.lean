import ChatgptSystem.Foundations.RelyGuarantee
import ChatgptSystem.Native.RecoveryEngine

/-!
# Index targets

An index target that cannot be resolved directly is resolved again by the role and the name that
its element had. A disabled element is rejected in the first attempt, and in the second attempt
the disabled elements are passed over: the only enabled element with the same role and name is
taken for it.

* `Current` — a snapshot is the current one of the frontmost window;
* `Denotes` — a place is the one of an element;
* `NoSubstitute` — no other element can be taken for a disabled one;
* `denotes_iff_noSubstitute` — index targets denote their element exactly then.
-/

open Interleaving

namespace TargetRecovery

open ComputerTargetResolver

variable {T D : Type} [HostText T D] [DecidableEq T] [DoubleArithmetic D]

/-- The snapshot is cached, is the current one of the frontmost window, and shows its elements. -/
structure Current (desktop : Desktop T D) (s : RecoveryState T D)
    (snapshot : CachedComputerObservation T D) : Prop where
  cached : s.cache.observation snapshot.observationId = some snapshot
  current : s.cache.current (contextKey snapshot) = some snapshot
  last : s.lastObservation = some snapshot
  application : snapshot.appIdentity = appIdentity D desktop.application
  window : snapshot.windowIdentity =
    windowIdentity D (appIdentity D desktop.application) desktop.windowTitle
  displays : snapshot.displayTopologyDigest = topologyDigest desktop.displays
  identifier : snapshot.observation.snapshotId = snapshot.observationId
  elements : snapshot.observation.elements = desktop.elements

def Denotes (element : ComputerElementView T D) (resolved : ResolvedComputerTarget T D) : Prop :=
  element.bounds = some resolved.bounds ∧
    resolved.semanticFingerprint = some (semanticFingerprint element)

def sameName (element : ComputerElementView T D) : ComputerElementView T D → Bool :=
  match roleTarget element with
  | .role role name isExact => matchesRole role name isExact
  | _ => fun _ => false

/-- If the element is disabled and there is another attempt, then the only enabled element with
its role and name, where it lies on a display, has its bounds and its fingerprint. -/
def NoSubstitute (desktop : Desktop T D) (element : ComputerElementView T D) (retryBudget : ℤ) :
    Prop :=
  retryBudget ≠ 0 → element.enabled = some false → ∀ other bounds,
    (desktop.elements.filter (sameName element)).filter ComputerElementView.isEnabled = [other] →
    other.bounds = some bounds → isSafe bounds desktop.displays = true →
    element.bounds = some bounds ∧ semanticFingerprint other = semanticFingerprint element

/-! ## The resolver -/

section Resolver

variable {context : ComputerTargetResolutionContext T D} {element : ComputerElementView T D}
  {resolved : ResolvedComputerTarget T D}

omit [DecidableEq T] in
theorem resolvedAXTarget_eq_ok (h : resolvedAXTarget element context = .ok resolved) :
    element.isEnabled = true ∧ isSafe resolved.bounds context.activeDisplays = true ∧
      Denotes element resolved := by
  unfold resolvedAXTarget at h
  cases henabled : element.isEnabled with
  | false => simp [henabled] at h
  | true =>
    cases hbounds : element.bounds with
    | none => simp [henabled, hbounds] at h
    | some bounds =>
      cases hsafe : isSafe bounds context.activeDisplays with
      | false => simp [henabled, hbounds, hsafe] at h
      | true =>
        simp only [henabled, hbounds, hsafe, Bool.not_true, Bool.false_eq_true, if_false] at h
        obtain rfl := Except.ok.inj h
        exact ⟨rfl, hsafe, hbounds, rfl⟩

omit [DecidableEq T] in
theorem resolvedAXTarget_of_safe (context : ComputerTargetResolutionContext T D)
    {bounds : InputControl.ComputerBounds D} (henabled : element.isEnabled = true) (hbounds : element.bounds = some bounds)
    (hsafe : isSafe bounds context.activeDisplays = true) :
    ∃ resolved, resolvedAXTarget element context = .ok resolved ∧ resolved.bounds = bounds ∧
      resolved.semanticFingerprint = some (semanticFingerprint element) := by
  simp [resolvedAXTarget, henabled, hbounds, hsafe]

omit [HostText T D] [DecidableEq T] [DoubleArithmetic D] in
theorem resolveUniqueAXElement_eq_ok {found : ComputerElementView T D → Bool} :
    resolveUniqueAXElement context none found = .ok element ↔
      (context.cached.observation.elements.filter found).filter
        ComputerElementView.isEnabled = [element] := by
  have hmatching : (context.cached.observation.elements.filter fun other =>
      found other && true) = context.cached.observation.elements.filter found :=
    List.filter_congr fun other _ => Bool.and_true _
  unfold resolveUniqueAXElement
  dsimp only
  rw [hmatching]
  generalize (context.cached.observation.elements.filter found).filter
    ComputerElementView.isEnabled = enabled
  match enabled with
  | [] => simp
  | [other] => simp
  | _ :: _ :: _ => simp

omit [DecidableEq T] [DoubleArithmetic D] in
theorem roleTarget_eq (element : ComputerElementView T D) :
    ∃ name, roleTarget element = .role element.role name true ∧
      ∀ text, name = some text → element.title = some text ∨ element.description = some text := by
  unfold roleTarget
  split
  next title htitle =>
    refine ⟨some title, rfl, fun text htext => .inl ?_⟩
    obtain rfl := Option.some.inj htext
    exact Option.eq_some_of_filter_eq_some htitle
  next =>
    split
    next text htext =>
      refine ⟨some text, rfl, fun _ h => .inr ?_⟩
      obtain rfl := Option.some.inj h
      exact Option.eq_some_of_filter_eq_some htext
    next => exact ⟨none, rfl, nofun⟩

omit [DoubleArithmetic D] in
theorem sameName_self {other : ComputerElementView T D} (h : sameName element other = true) :
    sameName element element = true := by
  obtain ⟨name, htarget, hname⟩ := roleTarget_eq element
  rw [sameName, htarget] at h ⊢
  cases name with
  | none => simp [matchesRole]
  | some text =>
    simp only [matchesRole, matchesText, Bool.and_eq_true] at h
    obtain ⟨-, hquery, -⟩ := h
    simp only [matchesRole, matchesText, Bool.and_eq_true, hquery, List.any_eq_true]
    refine ⟨by simp, trivial, text, ?_, by simp [matchesNormalized]⟩
    rcases hname text rfl with htitle | hdescription
    · simp [htitle]
    · simp [hdescription]

theorem resolve_roleTarget :
    ComputerTargetResolver.resolve (roleTarget element) context = .ok resolved ↔
      context.cached.displayTopologyDigest = context.currentDisplayTopologyDigest ∧
      ∃ other, (context.cached.observation.elements.filter (sameName element)).filter
          ComputerElementView.isEnabled = [other] ∧
        resolvedAXTarget other context = .ok resolved := by
  obtain ⟨name, htarget, -⟩ := roleTarget_eq element
  have hsame : sameName element = matchesRole element.role name true := by
    unfold sameName
    rw [htarget]
  rw [htarget, hsame]
  unfold ComputerTargetResolver.resolve
  dsimp only
  split
  next hdiffers => exact ⟨nofun, fun h => absurd h.1 hdiffers⟩
  next hsame =>
    rw [ne_eq, not_not] at hsame
    unfold resolveUniqueAX
    constructor
    · intro h
      cases hunique : resolveUniqueAXElement context none (matchesRole element.role name true) with
      | error error => rw [hunique] at h; cases h
      | ok other =>
        rw [hunique] at h
        exact ⟨hsame, other, resolveUniqueAXElement_eq_ok.mp hunique, h⟩
    · rintro ⟨-, other, hunique, h⟩
      rw [resolveUniqueAXElement_eq_ok.mpr hunique]
      exact h

theorem resolve_index {snapshotId : T} {index : ℤ}
    (helement : elementAt context.cached.observation.elements index = some element)
    (h : ComputerTargetResolver.resolve (.index snapshotId index) context = .ok resolved) :
    Denotes element resolved := by
  unfold ComputerTargetResolver.resolve at h
  dsimp only at h
  split at h
  · cases h
  · unfold indexedElement at h
    split at h
    · rw [helement] at h
      exact (resolvedAXTarget_eq_ok h).2.2
    · cases h

theorem resolve_index_disabled {index : ℤ}
    (hdigest : context.cached.displayTopologyDigest = context.currentDisplayTopologyDigest)
    (hidentifier : context.cached.observation.snapshotId = context.cached.observationId)
    (helement : elementAt context.cached.observation.elements index = some element)
    (hdisabled : element.enabled = some false) :
    ComputerTargetResolver.resolve (.index context.cached.observationId index) context =
      .error .notFound := by
  simp [ComputerTargetResolver.resolve, hdigest, indexedElement, hidentifier, helement, Bind.bind, Except.bind,
    resolvedAXTarget, ComputerElementView.isEnabled, hdisabled]

end Resolver

/-! ## Contexts -/

structure Shows (desktop : Desktop T D) (context : ComputerTargetResolutionContext T D) : Prop where
  elements : context.cached.observation.elements = desktop.elements
  displays : context.activeDisplays = desktop.displays
  digest : context.cached.displayTopologyDigest = context.currentDisplayTopologyDigest

section Contexts

variable {desktop : Desktop T D} {s : RecoveryState T D}

/-- The weakest precondition of a part of the engine, while the desktop does not change. -/
def Ensures {α : Type} (desktop : Desktop T D) (p : RecoveryM T D α)
    (Q : α → RecoveryState T D → Prop) (s : RecoveryState T D) : Prop :=
  p.wp (recoveryExec desktop) (.alone fun _ => True) () Q (fun _ _ => True) s

variable {α : Type} {Q : α → RecoveryState T D → Prop}

section

omit [HostText T D] [DoubleArithmetic D]

theorem Ensures.pure {a : α} (h : Q a s) : Ensures desktop (.pure a) Q s := by
  rintro t rfl -
  exact h

theorem Ensures.throw {error : ComputerRecoveryError} : Ensures desktop (.throw error) Q s :=
  fun _ _ _ => trivial

theorem Ensures.request {o : RecoveryOp T D} {k : o.Res → RecoveryM T D α}
    (h : ∀ choice r s', o.apply desktop choice s = some (r, s') → Ensures desktop (k r) Q s') :
    Ensures desktop (.request o k) Q s := by
  rintro t rfl - r t' ⟨choice, hstep⟩
  exact ⟨trivial, trivial, h choice r t' hstep⟩

theorem Ensures.bind {β : Type} {p : RecoveryM T D β} {f : β → RecoveryM T D α}
    (h : Ensures desktop p (fun b => Ensures desktop (f b) Q) s) : Ensures desktop (p.bind f) Q s :=
  Program.wp_bind trivial h

theorem Ensures.mono {p : RecoveryM T D α} {Q' : α → RecoveryState T D → Prop}
    (h : Ensures desktop p Q s) (hQ : ∀ a t, Q a t → Q' a t) : Ensures desktop p Q' s :=
  Program.wp_mono h (fun a t _ => hQ a t) fun _ _ _ => id

theorem Ensures.anything {β : Type} {p : RecoveryM T D β} {f : Except _ β → RecoveryM T D α}
    (h : ∀ b t, Ensures desktop (f b) Q t) : Ensures desktop (p.attempt.bind f) Q s := by
  refine .bind (Program.wp_attempt (Program.wp_mono (Program.wp_of_issues
    (fun _ _ _ _ _ _ _ => ⟨trivial, trivial⟩) (.of_forall (fun _ => trivial) p)) ?_ ?_))
  · exact fun b t _ _ => h _ t
  · exact fun error t _ _ => h _ t

theorem ensures_activeDisplays :
    Ensures desktop activeDisplays (fun displays t => displays = desktop.displays ∧ t = s) s := by
  refine .request fun choice r s' hstep => ?_
  cases choice with
  | completes =>
    obtain ⟨rfl, rfl⟩ := Prod.mk.inj (Option.some.inj hstep)
    show Ensures desktop (if _ then _ else _) _ _
    split
    · exact .throw
    · exact .pure ⟨rfl, rfl⟩
  | fails error =>
    obtain ⟨rfl, rfl⟩ := Prod.mk.inj (Option.some.inj hstep)
    exact .throw
  | _ => cases hstep

end

omit [DoubleArithmetic D] in
theorem ensures_enrichObservation {observation : ComputerObservation T D}
    {base : ComputerPerceptionSummary T D} :
    Ensures desktop (enrichObservation observation base)
      (fun enriched _ => enriched.elements = observation.elements) s := by
  unfold enrichObservation
  split
  · exact .pure rfl
  · refine .request fun choice r s' _ => ?_
    split
    · refine .anything fun outcome t => ?_
      cases outcome with
      | ok candidates => exact .pure rfl
      | error error => exact .pure rfl
    · exact .pure rfl

theorem ensures_freshContext :
    Ensures desktop freshContext (fun context _ => Shows desktop context) s := by
  refine .request fun _ trusted _ _ => ?_
  split
  · exact .throw
  refine .request fun _ application _ _ => ?_
  split
  · exact .throw
  refine .request fun _ title _ _ => ?_
  split
  · cases ‹AccessibilityReadError› <;> exact .throw
  refine .request fun _ generation _ _ => .bind (ensures_activeDisplays.mono ?_)
  rintro displays t ⟨rfl, rfl⟩
  refine .request fun choice raw t' hstep => ?_
  cases choice with
  | observes snapshotId truncated =>
    obtain ⟨rfl, rfl⟩ := Prod.mk.inj (Option.some.inj hstep)
    refine .bind (ensures_enrichObservation.mono fun enriched u henriched => ?_)
    exact .request fun _ _ _ _ => .pure ⟨henriched, rfl, rfl⟩
  | fails error =>
    obtain ⟨rfl, rfl⟩ := Prod.mk.inj (Option.some.inj hstep)
    cases error <;> exact .throw
  | _ => cases hstep

end Contexts

/-! ## Whole calls -/

section Calls

variable {desktop : Desktop T D} {s : RecoveryState T D} {snapshot : CachedComputerObservation T D}
  {index : ℤ} {element : ComputerElementView T D} {retryBudget : ℤ}

omit [DecidableEq T] [DoubleArithmetic D] in
theorem ocrQuery_roleTarget : ocrQuery (roleTarget element) = none := by
  obtain ⟨name, htarget, -⟩ := roleTarget_eq element
  rw [htarget]
  rfl

variable {context : ComputerTargetResolutionContext T D}

omit [DoubleArithmetic D] in
theorem denotes_of_unique {other : ComputerElementView T D} {resolved : ResolvedComputerTarget T D}
    [DoubleArithmetic D] (hbudget : retryBudget ≠ 0)
    (hsafe : NoSubstitute desktop element retryBudget) (hmem : element ∈ desktop.elements)
    (hunique : (desktop.elements.filter (sameName element)).filter
      ComputerElementView.isEnabled = [other])
    (hdisplays : context.activeDisplays = desktop.displays)
    (hresolved : resolvedAXTarget other context = .ok resolved) : Denotes element resolved := by
  obtain ⟨-, honDisplay, hbounds, hfingerprint⟩ := resolvedAXTarget_eq_ok hresolved
  cases henabled : element.isEnabled with
  | true =>
    have hother : other ∈ (desktop.elements.filter (sameName element)).filter
        ComputerElementView.isEnabled := hunique ▸ List.mem_singleton_self other
    have hname := (List.mem_filter.mp (List.mem_filter.mp hother).1).2
    have helement : element ∈ (desktop.elements.filter (sameName element)).filter
        ComputerElementView.isEnabled :=
      List.mem_filter.mpr ⟨List.mem_filter.mpr ⟨hmem, sameName_self hname⟩, henabled⟩
    rw [hunique] at helement
    obtain rfl := List.mem_singleton.mp helement
    exact ⟨hbounds, hfingerprint⟩
  | false =>
    have hdisabled : element.enabled = some false := by
      simpa [ComputerElementView.isEnabled] using henabled
    obtain ⟨hsame, hprint⟩ := hsafe hbudget hdisabled other resolved.bounds hunique hbounds
      (hdisplays ▸ honDisplay)
    exact ⟨hsame, hprint ▸ hfingerprint⟩

theorem ensures_resolveAgain (hbudget : retryBudget ≠ 0)
    (hsafe : NoSubstitute desktop element retryBudget) (hmem : element ∈ desktop.elements)
    (hshows : Shows desktop context) :
    Ensures desktop (resolveAgain (roleTarget element) retryBudget context)
      (fun resolved _ => Denotes element resolved) s := by
  unfold resolveAgain
  split
  next resolved hresolved =>
    obtain ⟨-, other, hunique, hplace⟩ := resolve_roleTarget.mp hresolved
    rw [hshows.elements] at hunique
    exact .pure (denotes_of_unique hbudget hsafe hmem hunique hshows.displays hplace)
  next =>
    split
    · exact .throw
    · rw [resolveWithOCRIfRelevant, ocrQuery_roleTarget]
      exact .throw

theorem ensures_resolveIn {usedCached : Bool} {snapshotId : T}
    (helement : elementAt desktop.elements index = some element)
    (hsafe : NoSubstitute desktop element retryBudget) (hshows : Shows desktop context) :
    Ensures desktop
      (resolveIn (.index snapshotId index) (roleTarget element) retryBudget usedCached context)
      (fun resolved _ => Denotes element resolved) s := by
  have hmem : element ∈ desktop.elements := List.mem_of_find?_eq_some helement
  unfold resolveIn
  split
  next resolved hresolved =>
    exact .pure (resolve_index (hshows.elements.symm ▸ helement) hresolved)
  next error _ =>
    have hrecognised : (if context.cached.observation.perception.any fun perception =>
        perception.ocrUsed then resolveWithOCRIfRelevant (roleTarget element) context
        else .pure none : RecoveryM T D _) = .pure none := by
      rw [resolveWithOCRIfRelevant, ocrQuery_roleTarget]
      exact ite_self _
    dsimp only
    rw [hrecognised]
    show Ensures desktop (if _ then _ else _) _ _
    split
    · exact .throw
    next hbudget =>
      split
      · exact .bind (ensures_freshContext.mono fun fresh t hfresh =>
          ensures_resolveAgain hbudget hsafe hmem hfresh)
      · exact ensures_resolveAgain hbudget hsafe hmem hshows

theorem ensures_compatibleCachedContext (hcurrent : Current desktop s snapshot) :
    Ensures desktop compatibleCachedContext
      (fun context _ => ∀ found, context = some found → Shows desktop found) s := by
  refine .request fun _ last s' hlast => ?_
  obtain ⟨rfl, rfl⟩ := Prod.mk.inj (Option.some.inj hlast)
  dsimp only
  rw [hcurrent.last]
  refine .request fun _ application s' happlication => ?_
  obtain ⟨rfl, rfl⟩ := Prod.mk.inj (Option.some.inj happlication)
  dsimp only
  rw [if_neg (not_not.mpr hcurrent.application.symm)]
  refine .request fun choice title s' htitle => ?_
  have hpost : ∀ found : ComputerTargetResolutionContext T D, (none : Option _) = some found →
      Shows desktop found := fun _ h => nomatch h
  cases choice with
  | completes =>
    obtain ⟨rfl, rfl⟩ := Prod.mk.inj (Option.some.inj htitle)
    dsimp only
    rw [if_neg (not_not.mpr hcurrent.window.symm)]
    refine .bind (ensures_activeDisplays.mono ?_)
    rintro displays t ⟨rfl, rfl⟩
    rw [if_neg (not_not.mpr hcurrent.displays.symm)]
    refine .request fun _ cached s' hcached => ?_
    obtain ⟨hkey, rfl⟩ := Prod.mk.inj (Option.some.inj hcached)
    have hcontext := hcurrent.current
    rw [contextKey, hcurrent.application, hcurrent.window, hcurrent.displays] at hcontext
    obtain rfl := hkey.symm.trans hcontext
    refine .pure fun found hfound => ?_
    obtain rfl := Option.some.inj hfound
    exact ⟨hcurrent.elements, rfl, hcurrent.displays⟩
  | fails error =>
    obtain ⟨rfl, rfl⟩ := Prod.mk.inj (Option.some.inj htitle)
    cases error with
    | permissionRequired => exact .throw
    | unavailable => exact .pure hpost
  | _ => cases htitle

omit [DoubleArithmetic D] in
theorem isOf_current [DoubleArithmetic D] (hcurrent : Current desktop s snapshot) :
    isOf snapshot (some desktop.application) = true :=
  decide_eq_true hcurrent.application.symm

omit [DecidableEq T] [DoubleArithmetic D] in
theorem semanticRecoveryTarget_index {snapshotId : T}
    (helement : elementAt snapshot.observation.elements index = some element) :
    semanticRecoveryTarget (some snapshot) (.index snapshotId index) = roleTarget element := by
  rw [semanticRecoveryTarget, Option.bind_some, helement]

theorem ensures_resolve (hcurrent : Current desktop s snapshot)
    (helement : elementAt snapshot.observation.elements index = some element)
    (hsafe : NoSubstitute desktop element retryBudget) :
    Ensures desktop (resolve (.index snapshot.observationId index) retryBudget)
      (fun resolved _ => Denotes element resolved) s := by
  unfold resolve
  split
  · exact .throw
  refine .request fun choice trusted s' htrusted => ?_
  have hsame : s' = s := by
    cases choice <;> cases htrusted <;> rfl
  subst hsame
  split
  · exact .throw
  refine .request fun _ prior s'' hprior => ?_
  obtain ⟨rfl, rfl⟩ := Prod.mk.inj (Option.some.inj hprior)
  rw [hcurrent.cached]
  refine .request fun _ application s'' happlication => ?_
  obtain ⟨rfl, rfl⟩ := Prod.mk.inj (Option.some.inj happlication)
  dsimp only
  rw [if_pos (isOf_current hcurrent), semanticRecoveryTarget_index helement]
  have hshown : elementAt desktop.elements index = some element := hcurrent.elements ▸ helement
  refine .bind (.pure (.bind ((ensures_compatibleCachedContext hcurrent).mono
    fun found t hfound => ?_)))
  cases found with
  | some context => exact ensures_resolveIn hshown hsafe (hfound context rfl)
  | none =>
    exact .bind (ensures_freshContext.mono fun fresh u hfresh =>
      ensures_resolveIn hshown hsafe hfresh)

end Calls

/-! ## The second attempt -/

section Run

variable {α : Type} {desktop : Desktop T D} {s : RecoveryState T D}
  {snapshot : CachedComputerObservation T D} {index : ℤ}
  {element other : ComputerElementView T D} {bounds : InputControl.ComputerBounds D}
  {retryBudget : ℤ}

omit [HostText T D] [DoubleArithmetic D] in
theorem windowGeneration_runs (desktop : Desktop T D) (generation identity : T)
    (s : RecoveryState T D) :
    ∃ drawn s', recoveryExec desktop (.windowGeneration identity) s drawn s' := by
  let drawn : RecoveryState T D := { s with
    lastWindowIdentity := some identity
    lastWindowGeneration := some generation }
  cases hlast : s.lastWindowGeneration with
  | none => exact ⟨generation, drawn, .draws generation, by simp [RecoveryOp.apply, hlast, drawn]⟩
  | some last =>
    by_cases hsame : s.lastWindowIdentity = some identity
    · exact ⟨last, s, .completes, by simp [RecoveryOp.apply, hlast, hsame]⟩
    · exact ⟨generation, drawn, .draws generation,
        by simp [RecoveryOp.apply, hlast, hsame, drawn]⟩

omit [HostText T D] [DecidableEq T] [DoubleArithmetic D] in
theorem activeDisplays_bind (rest : List (InputControl.ComputerBounds D) → RecoveryM T D α) :
    activeDisplays.bind rest = .request .activeDisplayBounds fun outcome =>
      match outcome with
      | .ok displays => if displays.isEmpty then .throw .unavailable else rest displays
      | .error error => .throw error := by
  refine congrArg (Program.request _) (funext fun outcome => ?_)
  cases outcome with
  | ok displays =>
    show Program.bind (if _ then _ else _) _ = if _ then _ else _
    split <;> rfl
  | error error => rfl

omit [HostText T D] [DoubleArithmetic D] in
theorem steps_activeDisplays (hdisplays : desktop.displays ≠ [])
    (rest : List (InputControl.ComputerBounds D) → RecoveryM T D α) :
    Program.Steps (recoveryExec desktop) (activeDisplays.bind rest, s)
      (rest desktop.displays, s) := by
  rw [activeDisplays_bind]
  have hread : recoveryExec desktop .activeDisplayBounds s (.ok desktop.displays) s :=
    ⟨.completes, rfl⟩
  refine .head hread ?_
  dsimp only
  rw [if_neg (by simpa using hdisplays)]
  exact .refl _

omit [DoubleArithmetic D] in
theorem steps_enrichObservation (desktop : Desktop T D) (observation : ComputerObservation T D)
    (base : ComputerPerceptionSummary T D) (rest : ComputerObservation T D → RecoveryM T D α) :
    ∃ enriched, enriched.elements = observation.elements ∧
      Program.Steps (recoveryExec desktop) ((enrichObservation observation base).bind rest, s)
        (rest enriched, s) := by
  unfold enrichObservation
  dsimp only
  split
  · exact ⟨observationWithPerception observation base, rfl, .refl _⟩
  · have hrefuses : recoveryExec desktop .screenCaptureAuthorized s false s := ⟨.refuses, rfl⟩
    exact ⟨observationWithPerception observation
      { base with ocrUsed := false, ocrCandidates := [] }, rfl, .head hrefuses (.refl _)⟩

theorem steps_freshContext (hdisplays : desktop.displays ≠ [])
    (rest : ComputerTargetResolutionContext T D → RecoveryM T D α) :
    ∃ context s', Shows desktop context ∧
      Program.Steps (recoveryExec desktop) (freshContext.bind rest, s) (rest context, s') := by
  have htrusted : recoveryExec desktop .accessibilityTrusted s true s := ⟨.completes, rfl⟩
  have hfront : recoveryExec desktop .frontmostApplication s (some desktop.application) s :=
    ⟨.completes, rfl⟩
  have hwindow : recoveryExec desktop (.activeWindow desktop.application) s
      (.ok desktop.windowTitle) s := ⟨.completes, rfl⟩
  obtain ⟨generation, s₁, hgeneration⟩ := windowGeneration_runs desktop
    (HostText.literal D "") (windowIdentity D (appIdentity D desktop.application)
      desktop.windowTitle) s
  let raw : ComputerObservation T D :=
    { snapshotId := HostText.literal D ""
      bundleIdentifier := desktop.application.bundleIdentifier
      windowTitle := desktop.windowTitle
      elements := desktop.elements
      truncated := false
      perception := none }
  have hobserve : recoveryExec desktop (.observe desktop.application) s₁ (.ok raw) s₁ :=
    ⟨.observes (HostText.literal D "") false, rfl⟩
  let contextOf (observation : ComputerObservation T D) : ComputerTargetResolutionContext T D :=
    { cached :=
        { observationId := observation.snapshotId
          appIdentity := appIdentity D desktop.application
          windowIdentity := windowIdentity D (appIdentity D desktop.application) desktop.windowTitle
          windowGeneration := generation
          displayTopologyDigest := topologyDigest desktop.displays
          observation }
      currentDisplayTopologyDigest := topologyDigest desktop.displays
      activeDisplays := desktop.displays }
  obtain ⟨enriched, helements, henrich⟩ := steps_enrichObservation (s := s₁) desktop
    raw (classify raw) fun observation => .request (.store (contextOf observation).cached) fun _ =>
      rest (contextOf observation)
  let stored : RecoveryState T D := { s₁ with
    cache := s₁.cache.store (contextOf enriched).cached
    lastObservation := some (contextOf enriched).cached }
  have hstore : recoveryExec desktop (.store (contextOf enriched).cached) s₁ () stored :=
    ⟨.completes, rfl⟩
  refine ⟨contextOf enriched, stored, ⟨helements, rfl, rfl⟩, ?_⟩
  refine .head htrusted (.head hfront (.head hwindow (.head hgeneration ?_)))
  show Program.Steps _ ((activeDisplays.bind _).bind rest, s₁) _
  rw [Program.bind_assoc]
  refine (steps_activeDisplays hdisplays _).trans (.head hobserve ?_)
  show Program.Steps _ (((enrichObservation raw (classify raw)).bind _).bind rest, s₁) _
  rw [Program.bind_assoc]
  exact henrich.trans (.head hstore (.refl _))

def currentContext (desktop : Desktop T D) (snapshot : CachedComputerObservation T D) :
    ComputerTargetResolutionContext T D :=
  { cached := snapshot
    currentDisplayTopologyDigest := topologyDigest desktop.displays
    activeDisplays := desktop.displays }

theorem steps_compatibleCachedContext (hcurrent : Current desktop s snapshot)
    (hdisplays : desktop.displays ≠ [])
    (rest : Option (ComputerTargetResolutionContext T D) → RecoveryM T D α) :
    Program.Steps (recoveryExec desktop) (compatibleCachedContext.bind rest, s)
      (rest (some (currentContext desktop snapshot)), s) := by
  have hlast : recoveryExec desktop .lastObservation s (some snapshot) s :=
    ⟨.completes, by rw [RecoveryOp.apply, hcurrent.last]⟩
  have hfront : recoveryExec desktop .frontmostApplication s (some desktop.application) s :=
    ⟨.completes, rfl⟩
  have hwindow : recoveryExec desktop (.activeWindow desktop.application) s
      (.ok desktop.windowTitle) s := ⟨.completes, rfl⟩
  have hcached : recoveryExec desktop (.currentObservation
      { appIdentity := appIdentity D desktop.application
        windowIdentity := windowIdentity D (appIdentity D desktop.application) desktop.windowTitle
        windowGeneration := snapshot.windowGeneration
        displayTopologyDigest := topologyDigest desktop.displays }) s (some snapshot) s := by
    have hcontext := hcurrent.current
    rw [contextKey, hcurrent.application, hcurrent.window, hcurrent.displays] at hcontext
    exact ⟨.completes, by rw [RecoveryOp.apply, hcontext]⟩
  refine .head hlast (.head hfront ?_)
  dsimp only
  rw [if_neg (not_not.mpr hcurrent.application.symm)]
  refine .head hwindow ?_
  dsimp only
  rw [if_neg (not_not.mpr hcurrent.window.symm), Program.bind_assoc]
  refine (steps_activeDisplays hdisplays _).trans ?_
  rw [if_neg (not_not.mpr hcurrent.displays.symm)]
  exact .head hcached (.refl _)

theorem steps_resolve (hcurrent : Current desktop s snapshot)
    (helement : elementAt snapshot.observation.elements index = some element)
    (hbudget : 0 ≤ retryBudget ∧ retryBudget ≤ 2) (hnonzero : retryBudget ≠ 0)
    (hdisabled : element.enabled = some false)
    (hunique : (desktop.elements.filter (sameName element)).filter
      ComputerElementView.isEnabled = [other])
    (hbounds : other.bounds = some bounds) (hsafe : isSafe bounds desktop.displays = true) :
    ∃ resolved s', Program.Steps (recoveryExec desktop)
        (resolve (.index snapshot.observationId index) retryBudget, s) (.pure resolved, s') ∧
      resolved.bounds = bounds ∧
      resolved.semanticFingerprint = some (semanticFingerprint other) := by
  have hdisplays : desktop.displays ≠ [] := by
    rintro hnone
    rw [hnone] at hsafe
    simp [isSafe] at hsafe
  have htrusted : recoveryExec desktop .accessibilityTrusted s true s := ⟨.completes, rfl⟩
  have hprior : recoveryExec desktop (.cachedObservation snapshot.observationId) s
      (some snapshot) s := ⟨.completes, by rw [RecoveryOp.apply, hcurrent.cached]⟩
  have hfront : recoveryExec desktop .frontmostApplication s (some desktop.application) s :=
    ⟨.completes, rfl⟩
  have hother : other.isEnabled = true := by
    have hmem : other ∈ (desktop.elements.filter (sameName element)).filter
        ComputerElementView.isEnabled := hunique ▸ List.mem_singleton_self other
    exact (List.mem_filter.mp hmem).2
  -- the first attempt, in the context of the snapshot
  have hfirst : ComputerTargetResolver.resolve (.index snapshot.observationId index)
      (currentContext desktop snapshot) = .error .notFound :=
    resolve_index_disabled hcurrent.displays hcurrent.identifier helement hdisabled
  have hrecognised : (if (currentContext desktop snapshot).cached.observation.perception.any
      fun perception => perception.ocrUsed then
        resolveWithOCRIfRelevant (roleTarget element) (currentContext desktop snapshot)
      else .pure none : RecoveryM T D _) = .pure none := by
    rw [resolveWithOCRIfRelevant, ocrQuery_roleTarget]
    exact ite_self _
  -- the second attempt, in a fresh context
  obtain ⟨context, s', hshows, hfresh⟩ := steps_freshContext (s := s) hdisplays
    (resolveAgain (roleTarget element) retryBudget)
  obtain ⟨resolved, hresolved, hplace⟩ := resolvedAXTarget_of_safe context hother hbounds
     (hshows.displays.symm ▸ hsafe)
  refine ⟨resolved, s', ?_, hplace⟩
  have hsecond : resolveAgain (roleTarget element) retryBudget context = .pure resolved := by
    rw [resolveAgain, resolve_roleTarget.mpr ⟨hshows.digest, other,
      hshows.elements.symm ▸ hunique, hresolved⟩]
  have hcontinue : resolveIn (.index snapshot.observationId index) (roleTarget element) retryBudget
      true (currentContext desktop snapshot) =
        freshContext.bind (resolveAgain (roleTarget element) retryBudget) := by
    rw [resolveIn, hfirst]
    dsimp only
    rw [hrecognised]
    show (if _ then _ else _) = _
    rw [if_neg hnonzero]
    rfl
  rw [resolve, if_neg (not_not.mpr hbudget)]
  refine .head htrusted (.head hprior (.head hfront ?_))
  dsimp only
  rw [if_pos (isOf_current hcurrent), semanticRecoveryTarget_index helement]
  refine (steps_compatibleCachedContext hcurrent hdisplays _).trans ?_
  dsimp only
  rw [hcontinue]
  exact hsecond ▸ hfresh

end Run

/-- An index target of the current snapshot, resolved while nothing changes, never denotes another
element, exactly if no other element can be taken for a disabled one. -/
theorem denotes_iff_noSubstitute {desktop : Desktop T D} {s : RecoveryState T D}
    {snapshot : CachedComputerObservation T D} {index retryBudget : ℤ}
    {element : ComputerElementView T D} (hcurrent : Current desktop s snapshot)
    (helement : elementAt snapshot.observation.elements index = some element)
    (hbudget : 0 ≤ retryBudget ∧ retryBudget ≤ 2) :
    (∀ resolved s', Program.Steps (recoveryExec desktop)
        (resolve (.index snapshot.observationId index) retryBudget, s) (.pure resolved, s') →
      Denotes element resolved) ↔ NoSubstitute desktop element retryBudget := by
  constructor
  · intro hdenotes hnonzero hdisabled other bounds hunique hbounds hsafe
    obtain ⟨resolved, s', hsteps, rfl, hprint⟩ :=
      steps_resolve hcurrent helement hbudget hnonzero hdisabled hunique hbounds hsafe
    obtain ⟨hplace, hsame⟩ := hdenotes resolved s' hsteps
    exact ⟨hplace, Option.some.inj (hprint.symm.trans hsame)⟩
  · intro hsafe resolved s' hsteps
    have hwp := Program.wp_steps hsteps trivial (ensures_resolve hcurrent helement hsafe)
    exact hwp.2 s' rfl trivial

section Example

def saveButton (index : ℤ) (enabled : Bool) : ComputerElementView (List Char) ℤ :=
  { index
    parentIndex := none
    role := ['A', 'X', 'B', 'u', 't', 't', 'o', 'n']
    subrole := none
    title := some ['S', 'a', 'v', 'e']
    description := none
    focused := none
    enabled := some enabled
    selected := none
    bounds := some ⟨10 * index, 0, 5, 5⟩ }

def savingDesktop (elements : List (ComputerElementView (List Char) ℤ)) : Desktop (List Char) ℤ :=
  { application := { name := ['E'], bundleIdentifier := some ['e'] }
    windowTitle := none
    elements
    displays := [⟨0, 0, 100, 100⟩] }

def savingSnapshot (elements : List (ComputerElementView (List Char) ℤ)) :
    CachedComputerObservation (List Char) ℤ :=
  { observationId := ['s']
    appIdentity := ['e']
    windowIdentity := windowIdentity ℤ ['e'] none
    windowGeneration := ['g']
    displayTopologyDigest := topologyDigest (savingDesktop elements).displays
    observation :=
      { snapshotId := ['s']
        bundleIdentifier := some ['e']
        windowTitle := none
        elements
        truncated := false
        perception := none } }

def savingState (elements : List (ComputerElementView (List Char) ℤ)) :
    RecoveryState (List Char) ℤ :=
  { cache := ComputerObservationCache.store
      { capacity := 8
        entriesByObservationId := fun _ => none
        currentObservationIdByContext := fun _ => none
        order := [] } (savingSnapshot elements)
    lastObservation := some (savingSnapshot elements)
    lastWindowIdentity := some (windowIdentity ℤ ['e'] none)
    lastWindowGeneration := some ['g'] }

theorem current_saving (elements : List (ComputerElementView (List Char) ℤ)) :
    Current (savingDesktop elements) (savingState elements) (savingSnapshot elements) := by
  refine ⟨?_, ?_, rfl, rfl, rfl, rfl, rfl, rfl⟩
  · simp [savingState, ComputerObservationCache.observation, ComputerObservationCache.store,
      ComputerObservationCache.trimTo]
  · simp [savingState, ComputerObservationCache.current, ComputerObservationCache.store,
      ComputerObservationCache.trimTo]

def saveButtons : List (ComputerElementView (List Char) ℤ) := [saveButton 0 false, saveButton 1 true]

/-- The enabled button is denoted by its own index. -/
theorem denotes_iff_noSubstitute_enabled :
    elementAt saveButtons 1 = some (saveButton 1 true) ∧ ∀ resolved s',
      Program.Steps (recoveryExec (savingDesktop saveButtons))
        (resolve (.index ['s'] 1) 2, savingState saveButtons) (.pure resolved, s') →
      Denotes (saveButton 1 true) resolved :=
  ⟨rfl, (denotes_iff_noSubstitute (current_saving saveButtons) rfl (by decide)).mpr
    fun _ hdisabled => nomatch hdisabled⟩

/-- The index of the disabled button is resolved to the enabled one. -/
theorem index_denotes_other : Current (savingDesktop saveButtons) (savingState saveButtons)
      (savingSnapshot saveButtons) ∧
    elementAt saveButtons 0 = some (saveButton 0 false) ∧
    ∃ resolved s', Program.Steps (recoveryExec (savingDesktop saveButtons))
        (resolve (.index ['s'] 0) 1, savingState saveButtons) (.pure resolved, s') ∧
      resolved.bounds = ⟨10, 0, 5, 5⟩ ∧ ¬ Denotes (saveButton 0 false) resolved := by
  have hunique : ((savingDesktop saveButtons).elements.filter
      (sameName (saveButton 0 false))).filter ComputerElementView.isEnabled =
        [saveButton 1 true] := rfl
  have hrun : ∃ resolved s', Program.Steps (recoveryExec (savingDesktop saveButtons))
        (resolve (.index ['s'] 0) 1, savingState saveButtons) (.pure resolved, s') ∧
      resolved.bounds = ⟨10, 0, 5, 5⟩ ∧
      resolved.semanticFingerprint = some (semanticFingerprint (saveButton 1 true)) :=
    steps_resolve (current_saving saveButtons) rfl (by decide) (by decide) rfl hunique rfl rfl
  obtain ⟨resolved, s', hsteps, hbounds, -⟩ := hrun
  refine ⟨current_saving saveButtons, rfl, resolved, s', hsteps, hbounds, fun hdenotes => ?_⟩
  have hplace : some (⟨0, 0, 5, 5⟩ : InputControl.ComputerBounds ℤ) = some resolved.bounds :=
    hdenotes.1
  rw [hbounds] at hplace
  simp at hplace

end Example

end TargetRecovery
