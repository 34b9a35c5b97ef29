import ChatgptSystem.Browser.PlaywrightBrowserBackend
import Mathlib.Data.List.Nodup

/-!
# The active page of the browser backend

`selectTab` and `navigate` make a page the active one after they have waited for it, without
looking whether it is still registered. `activeExists_of_run` says that as long as it is, the
active page is one of the registered pages, there is one if any page is registered, and the tables
describe the same pages, however the calls and the closing of pages overlap.

* `ActiveExists` — what holds before `close`;
* `Current` — the condition on a step;
* `Consistent` — the invariant, kept by each operation on the tables;
* `closed_page_active` — a page that closes while `selectTab` brings it to the front.
-/

namespace PlaywrightBrowserBackend

open Browser

variable {Page : Type} {s : BackendState Page} {pageId : PageId} {page : Page}

/-- The active page is registered, and the three tables describe the same pages. -/
structure ActiveExists (s : BackendState Page) : Prop where
  active : s.activePageId = none ∨
    ∃ pageId page, s.activePageId = some pageId ∧ (pageId, page) ∈ s.pagesById
  chosen : s.pagesById ≠ [] → s.activePageId ≠ none
  pages : ∀ pageId page, (pageId, page) ∈ s.pagesById ↔ s.idsByPage page = some pageId
  diagnostics : ∀ pageId, (∃ diagnostics, (pageId, diagnostics) ∈ s.diagnosticsByPageId) ↔
    ∃ page, (pageId, page) ∈ s.pagesById

/-- The page is still registered when `bringToFront` of `selectTab`, or `goto` of `navigate`, is
resolved. -/
def Current (s : BackendState Page) : BackendEvent Page → Prop
  | .resolves i _ =>
    match s.calls i with
    | .bringing pageId | .navigating pageId => pageId ∈ s.pagesById.map Prod.fst
    | _ => True
  | _ => True

/-! ## The invariant -/

structure Consistent (s : BackendState Page) : Prop where
  pages : ∀ pageId page, (pageId, page) ∈ s.pagesById ↔ s.idsByPage page = some pageId
  keys : s.diagnosticsByPageId.map Prod.fst = s.pagesById.map Prod.fst
  nodup : (s.pagesById.map Prod.fst).Nodup
  drawn : ∀ pageId ∈ s.pagesById.map Prod.fst, pageId < s.drawn
  active : ∀ pageId, s.activePageId = some pageId → pageId ∈ s.pagesById.map Prod.fst
  chosen : s.activePageId = none → s.pagesById = []

theorem Consistent.activeExists (h : Consistent s) : ActiveExists s where
  active := by
    cases hactive : s.activePageId with
    | none => exact .inl rfl
    | some pageId =>
      obtain ⟨⟨_, page⟩, hmem, rfl⟩ := List.mem_map.mp (h.active pageId hactive)
      exact .inr ⟨_, page, rfl, hmem⟩
  chosen := fun hne hnone => hne (h.chosen hnone)
  pages := h.pages
  diagnostics := fun pageId => by
    have hkeys : pageId ∈ s.diagnosticsByPageId.map Prod.fst ↔
        pageId ∈ s.pagesById.map Prod.fst := by
      rw [h.keys]
    simpa using hkeys

theorem Consistent.page_unique (h : Consistent s) {page' : Page}
    (hpage : (pageId, page) ∈ s.pagesById) (hpage' : (pageId, page') ∈ s.pagesById) :
    page = page' :=
  congrArg Prod.snd (List.inj_on_of_nodup_map h.nodup hpage hpage' rfl)

theorem mem_of_lookup {α : Type} {entries : List (PageId × α)} {value : α}
    (h : entries.lookup pageId = some value) : (pageId, value) ∈ entries := by
  obtain ⟨before, after, rfl, -⟩ := List.lookup_eq_some_iff.mp h
  exact List.mem_append_right _ List.mem_cons_self

theorem map_fst_deleteKey {α : Type} (entries : List (PageId × α)) :
    (deleteKey pageId entries).map Prod.fst = (entries.map Prod.fst).filter (· ≠ pageId) := by
  rw [deleteKey, List.filter_map]
  rfl

variable {s' : BackendState Page}

theorem Consistent.congr (h : Consistent s) (hpages : s'.pagesById = s.pagesById)
    (hids : s'.idsByPage = s.idsByPage)
    (hdiagnostics : s'.diagnosticsByPageId = s.diagnosticsByPageId)
    (hactive : s'.activePageId = s.activePageId) (hdrawn : s'.drawn = s.drawn) : Consistent s' := by
  refine ⟨?_, ?_, ?_, ?_, ?_, ?_⟩
  · rw [hpages, hids]
    exact h.pages
  · rw [hpages, hdiagnostics]
    exact h.keys
  · rw [hpages]
    exact h.nodup
  · rw [hpages, hdrawn]
    exact h.drawn
  · rw [hpages, hactive]
    exact h.active
  · rw [hpages, hactive]
    exact h.chosen

theorem Consistent.setActive (h : Consistent s) (hmem : pageId ∈ s.pagesById.map Prod.fst) :
    Consistent { s with activePageId := some pageId } where
  pages := h.pages
  keys := h.keys
  nodup := h.nodup
  drawn := h.drawn
  active := fun _ heq => Option.some.inj heq ▸ hmem
  chosen := nofun

theorem consistent_empty (pages : List Page) : Consistent
    { contextPages := pages, isClosed := fun _ => false, listeners := fun _ => []
      pagesById := [], idsByPage := fun _ => none, diagnosticsByPageId := []
      activePageId := none, closed := false, drawn := 0, calls := fun _ => .notCalled } :=
  ⟨by simp, rfl, List.nodup_nil, by simp, by simp, fun _ => rfl⟩

/-- A part of a call between two events: it keeps the invariant, and neither closes the backend nor
changes where the calls stand. -/
structure Tidy (s s' : BackendState Page) : Prop where
  consistent : Consistent s → Consistent s'
  closed : s'.closed = s.closed
  calls : s'.calls = s.calls

theorem Tidy.refl (s : BackendState Page) : Tidy s s := ⟨id, rfl, rfl⟩

theorem Tidy.trans {s'' : BackendState Page} (h : Tidy s s') (h' : Tidy s' s'') : Tidy s s'' :=
  ⟨h'.consistent ∘ h.consistent, h'.closed.trans h.closed, h'.calls.trans h.calls⟩

theorem tidy_beginDiagnosticGeneration (h : beginDiagnosticGeneration pageId s = .ok s') :
    Tidy s s' := by
  unfold beginDiagnosticGeneration at h
  split at h
  · cases h
  · cases h
    have hkeys : ∀ entries : List (PageId × PageDiagnostics), (entries.map fun entry =>
        if entry.1 = pageId then (entry.1, PageDiagnostics.mk (entry.2.generation + 1))
        else entry).map Prod.fst = entries.map Prod.fst := by
      intro entries
      rw [List.map_map]
      refine List.map_congr_left fun entry _ => ?_
      simp only [Function.comp_apply]
      split <;> rfl
    refine ⟨fun h => ⟨h.pages, ?_, h.nodup, h.drawn, h.active, h.chosen⟩, rfl, rfl⟩
    simp only [hkeys, h.keys]

theorem tidy_foldl {α : Type} {f : BackendState Page → α → BackendState Page}
    (hf : ∀ s a, Tidy s (f s a)) (items : List α) (s : BackendState Page) :
    Tidy s (items.foldl f s) := by
  induction items generalizing s with
  | nil => exact .refl s
  | cons a items ih => exact (hf s a).trans (ih _)

/-- The invariant of runs: it is needed before `close` only. -/
structure Sound (s : BackendState Page) : Prop where
  consistent : s.closed = false → Consistent s
  closing : ∀ i, s.calls i = .closingContext → s.closed = true

theorem Sound.of_tidy (h : Sound s) (htidy : Tidy s s') : Sound s' where
  consistent := fun hopen => htidy.consistent (h.consistent (htidy.closed ▸ hopen))
  closing := fun i hi => htidy.closed ▸ h.closing i (htidy.calls ▸ hi)

theorem Sound.put (h : Sound s) {phase : Phase Page} (hphase : phase ≠ .closingContext) (i : ℕ) :
    Sound (s.put i phase) where
  consistent := fun hopen => (h.consistent hopen).congr rfl rfl rfl rfl rfl
  closing := fun j hj => by
    by_cases heq : j = i
    · subst heq
      simp only [BackendState.put, Function.update_self] at hj
      exact absurd hj hphase
    · simp only [BackendState.put, Function.update_of_ne heq] at hj
      exact h.closing j hj

theorem Sound.of_closed (hclosed : s'.closed = true) : Sound s' where
  consistent := fun hopen => absurd (hopen.symm.trans hclosed) Bool.false_ne_true
  closing := fun _ _ => hclosed

variable [DecidableEq Page]

theorem Consistent.register (h : Consistent s) (page : Page) (makeActive : Bool) :
    Consistent (registerPage page makeActive s).2 ∧
      (registerPage page makeActive s).2.idsByPage page =
        some (registerPage page makeActive s).1 := by
  unfold registerPage
  cases hids : s.idsByPage page with
  | some existing =>
    have hmem : existing ∈ s.pagesById.map Prod.fst :=
      List.mem_map.mpr ⟨(existing, page), (h.pages existing page).mpr hids, rfl⟩
    cases makeActive with
    | true => exact ⟨h.setActive hmem, hids⟩
    | false => exact ⟨h, hids⟩
  | none =>
    have hfresh : s.drawn ∉ s.pagesById.map Prod.fst := fun hmem =>
      Nat.lt_irrefl _ (h.drawn _ hmem)
    refine ⟨⟨fun pageId' page' => ?_, ?_, ?_, fun pageId' hmem => ?_, fun pageId' heq => ?_,
      fun hnone => ?_⟩, Function.update_self _ _ _⟩
    · simp only [List.mem_append, List.mem_singleton, Prod.mk.injEq, h.pages]
      by_cases hpage : page' = page
      · subst hpage
        simp [hids, eq_comm]
      · simp [hpage]
    · simp [h.keys]
    · simp only [List.map_append, List.map_singleton]
      exact List.nodup_append.mpr ⟨h.nodup, List.nodup_singleton _,
        fun a ha b hb => by rw [List.mem_singleton.mp hb]; rintro rfl; exact hfresh ha⟩
    · simp only [List.map_append, List.map_singleton, List.mem_append, List.mem_singleton] at hmem ⊢
      rcases hmem with hold | rfl
      · exact Nat.lt_succ_of_lt (h.drawn _ hold)
      · exact Nat.lt_succ_self _
    · simp only [List.map_append, List.map_singleton, List.mem_append, List.mem_singleton]
      simp only at heq
      split at heq
      · exact .inr (Option.some.inj heq).symm
      · exact .inl (h.active _ heq)
    · simp only at hnone
      split at hnone
      · cases hnone
      next hkept => exact absurd (Or.inr hnone) hkept

theorem Consistent.unregister (h : Consistent s) (pageId : PageId) (page : Page) :
    Consistent (unregisterPage pageId page s) := by
  unfold unregisterPage
  split
  · exact h
  next hlookup =>
    have hmem : (pageId, page) ∈ s.pagesById := mem_of_lookup (not_not.mp hlookup)
    have hkeys := @map_fst_deleteKey pageId Page s.pagesById
    refine ⟨fun pageId' page' => ?_, ?_, ?_, fun pageId' hkept => ?_, fun pageId' heq => ?_,
      fun hnone => ?_⟩
    · simp only [deleteKey, List.mem_filter, ne_eq, decide_eq_true_eq, h.pages]
      by_cases hpage : page' = page
      · subst hpage
        have hids := (h.pages _ _).mp hmem
        simp only [Function.update_self, reduceCtorEq, iff_false, not_and, not_not, hids]
        exact fun heq => (Option.some.inj heq).symm
      · simp only [Function.update_of_ne hpage, and_iff_left_iff_imp]
        rintro hids rfl
        exact hpage (h.page_unique ((h.pages _ _).mpr hids) hmem)
    · simp only [map_fst_deleteKey, h.keys]
    · rw [hkeys]
      exact h.nodup.filter _
    · rw [hkeys, List.mem_filter] at hkept
      exact h.drawn _ hkept.1
    · simp only at heq
      rw [hkeys, List.mem_filter]
      split at heq
      · -- the next active page is the first one that is left
        obtain ⟨entry, hhead, rfl⟩ := Option.map_eq_some_iff.mp heq
        have hentry := List.mem_map_of_mem (f := Prod.fst) (List.mem_of_mem_head? hhead)
        rwa [hkeys, List.mem_filter] at hentry
      next hactive =>
        have hne : pageId' ≠ pageId := fun hsame => hactive (hsame ▸ heq)
        exact ⟨h.active _ heq, by simpa using hne⟩
    · simp only at hnone
      split at hnone
      · simpa using hnone
      · rw [h.chosen hnone] at hmem
        cases hmem

theorem tidy_registerPage (page : Page) (makeActive : Bool) (s : BackendState Page) :
    Tidy s (registerPage page makeActive s).2 := by
  refine ⟨fun h => (h.register page makeActive).1, ?_, ?_⟩
  · unfold registerPage
    split
    · cases makeActive <;> rfl
    · rfl
  · unfold registerPage
    split
    · cases makeActive <;> rfl
    · rfl

theorem tidy_unregisterPage (pageId : PageId) (page : Page) (s : BackendState Page) :
    Tidy s (unregisterPage pageId page s) := by
  refine ⟨fun h => h.unregister pageId page, ?_, ?_⟩
  · unfold unregisterPage
    split <;> rfl
  · unfold unregisterPage
    split <;> rfl

theorem tidy_requirePage {outcome : Except BrowserError Page}
    (h : requirePage pageId s = (outcome, s')) : Tidy s s' := by
  unfold requirePage at h
  split at h
  · obtain ⟨-, rfl⟩ := Prod.mk.inj h
    exact .refl s
  · split at h
    · obtain ⟨-, rfl⟩ := Prod.mk.inj h
      exact .refl s
    · split at h
      · obtain ⟨-, rfl⟩ := Prod.mk.inj h
        exact tidy_unregisterPage _ _ s
      · obtain ⟨-, rfl⟩ := Prod.mk.inj h
        exact .refl s

theorem tidy_nextTab (visited : List PageId) (views : List BrowserTabView)
    (entries : List (PageId × Page)) (s : BackendState Page) :
    Tidy s (nextTab visited views entries s).2 ∧
      (nextTab visited views entries s).1 ≠ .closingContext := by
  induction entries generalizing s with
  | nil => exact ⟨.refl s, nofun⟩
  | cons entry entries ih =>
    unfold nextTab
    split
    · exact ih s
    · split
      · obtain ⟨htidy, hphase⟩ := ih (unregisterPage entry.1 entry.2 s)
        exact ⟨(tidy_unregisterPage _ _ s).trans htidy, hphase⟩
      · exact ⟨.refl s, nofun⟩

/-! ## The constructor -/

theorem isSome_of_foldl_registerPage {pages : List Page} (h : Consistent s)
    (hpage : page ∈ pages ∨ (s.idsByPage page).isSome = true) :
    ((pages.foldl (fun s page => (registerPage page false s).2) s).idsByPage page).isSome =
      true := by
  have hkept : ∀ {s : BackendState Page} (other : Page), (s.idsByPage page).isSome = true →
      ((registerPage other false s).2.idsByPage page).isSome = true := by
    intro s other hsome
    unfold registerPage
    split
    · exact hsome
    · by_cases heq : page = other
      · simp [heq]
      · simpa [heq] using hsome
  induction pages generalizing s with
  | nil =>
    rcases hpage with hmem | hsome
    · cases hmem
    · exact hsome
  | cons first rest ih =>
    obtain ⟨hconsistent, hfirst⟩ := h.register first false
    refine ih hconsistent ?_
    rcases hpage with hmem | hsome
    · rcases List.mem_cons.mp hmem with rfl | hrest
      · exact .inr (by rw [hfirst]; rfl)
      · exact .inl hrest
    · exact .inr (hkept first hsome)

theorem consistent_initial (pages : List Page) : Consistent (initial pages) := by
  have hempty := consistent_empty pages
  have hall := (tidy_foldl (fun s page => tidy_registerPage page false s) pages _).consistent hempty
  unfold initial
  cases hlast : pages.getLast? with
  | none => exact hall
  | some page =>
    have hsome := isSome_of_foldl_registerPage hempty (.inl (List.mem_of_getLast? hlast))
    obtain ⟨pageId, hids⟩ := Option.isSome_iff_exists.mp hsome
    simp only [hids]
    exact hall.setActive (List.mem_map.mpr ⟨(pageId, page), (hall.pages pageId page).mpr hids, rfl⟩)

/-! ## One event -/

theorem BackendMethod.tidy_start (method : BackendMethod) (s : BackendState Page) :
    Tidy s (method.start s).2 ∧ (method.start s).1 ≠ .closingContext ∨
      (method.start s).2 = { s with closed := true } := by
  cases method with
  | tabs =>
    simp only [BackendMethod.start]
    split
    · exact .inl ⟨.refl s, nofun⟩
    · have hregister : ∀ (s : BackendState Page) (page : Page),
          Tidy s (if s.isClosed page then s else (registerPage page false s).2) := by
        intro s page
        split
        · exact .refl s
        · exact tidy_registerPage page false s
      obtain ⟨htidy, hphase⟩ := tidy_nextTab [] [] _ (s.contextPages.foldl
        (fun s page => if s.isClosed page then s else (registerPage page false s).2) s)
      exact .inl ⟨(tidy_foldl hregister s.contextPages s).trans htidy, hphase⟩
  | newTab url =>
    simp only [BackendMethod.start]
    split
    · exact .inl ⟨.refl s, nofun⟩
    · exact .inl ⟨.refl s, nofun⟩
  | close =>
    simp only [BackendMethod.start]
    split
    · exact .inl ⟨.refl s, nofun⟩
    · exact .inr rfl
  | navigate pageId =>
    simp only [BackendMethod.start]
    cases hrequire : requirePage pageId s with
    | mk outcome s' =>
      have htidy := tidy_requirePage hrequire
      cases outcome with
      | error error => exact .inl ⟨htidy, nofun⟩
      | ok page =>
        cases hbegin : beginDiagnosticGeneration pageId s' with
        | error error =>
          simp only [hbegin]
          exact .inl ⟨htidy, nofun⟩
        | ok s'' =>
          simp only [hbegin]
          exact .inl ⟨htidy.trans (tidy_beginDiagnosticGeneration hbegin), nofun⟩
  | selectTab pageId | closeTab pageId | act pageId =>
    simp only [BackendMethod.start]
    cases hrequire : requirePage pageId s with
    | mk outcome s' =>
      have htidy := tidy_requirePage hrequire
      cases outcome <;> exact .inl ⟨htidy, nofun⟩

theorem Phase.tidy_resolve {phase phase' : Phase Page} {answer : Answer Page}
    (h : phase.resolve answer s = some (phase', s')) (hclosing : phase ≠ .closingContext)
    (hcurrent : ∀ pageId, phase = .bringing pageId ∨ phase = .navigating pageId →
      pageId ∈ s.pagesById.map Prod.fst) : Tidy s s' ∧ phase' ≠ .closingContext := by
  have hactive : ∀ pageId, pageId ∈ s.pagesById.map Prod.fst →
      Tidy s { s with activePageId := some pageId } :=
    fun pageId hmem => ⟨fun hconsistent => hconsistent.setActive hmem, rfl, rfl⟩
  cases phase with
  | opening url =>
    cases answer with
    | created page =>
      have hregister := tidy_registerPage page true s
      cases url with
      | none =>
        obtain ⟨rfl, rfl⟩ := Prod.mk.inj (Option.some.inj h)
        exact ⟨hregister, nofun⟩
      | some url =>
        simp only [Phase.resolve] at h
        split at h
        next hbegin =>
          obtain ⟨rfl, rfl⟩ := Prod.mk.inj (Option.some.inj h)
          exact ⟨hregister.trans (tidy_beginDiagnosticGeneration hbegin), nofun⟩
        next =>
          obtain ⟨rfl, rfl⟩ := Prod.mk.inj (Option.some.inj h)
          exact ⟨hregister, nofun⟩
    | _ => cases h
  | bringing pageId =>
    cases answer with
    | done =>
      obtain ⟨rfl, rfl⟩ := Prod.mk.inj (Option.some.inj h)
      exact ⟨hactive pageId (hcurrent pageId (.inl rfl)), nofun⟩
    | _ => cases h
  | navigating pageId =>
    cases answer with
    | done =>
      obtain ⟨rfl, rfl⟩ := Prod.mk.inj (Option.some.inj h)
      exact ⟨hactive pageId (hcurrent pageId (.inr rfl)), nofun⟩
    | _ => cases h
  | closingPage pageId page =>
    cases answer with
    | done =>
      obtain ⟨rfl, rfl⟩ := Prod.mk.inj (Option.some.inj h)
      exact ⟨tidy_unregisterPage pageId page s, nofun⟩
    | _ => cases h
  | listing pageId visited views =>
    cases answer with
    | titled title url =>
      obtain ⟨rfl, rfl⟩ := Prod.mk.inj (Option.some.inj h)
      exact tidy_nextTab _ _ _ s
    | _ => cases h
  | closingContext => exact absurd rfl hclosing
  | visiting pageId =>
    cases answer with
    | done =>
      obtain ⟨rfl, rfl⟩ := Prod.mk.inj (Option.some.inj h)
      exact ⟨.refl s, nofun⟩
    | _ => cases h
  | viewing pageId =>
    cases answer with
    | titled title url =>
      obtain ⟨rfl, rfl⟩ := Prod.mk.inj (Option.some.inj h)
      exact ⟨.refl s, nofun⟩
    | _ => cases h
  | acting =>
    cases answer with
    | done =>
      obtain ⟨rfl, rfl⟩ := Prod.mk.inj (Option.some.inj h)
      exact ⟨.refl s, nofun⟩
    | _ => cases h
  | notCalled | returned | failed => cases answer <;> cases h

theorem Sound.step {event : BackendEvent Page} (h : Sound s) (hcurrent : Current s event)
    (hstep : step s event = some s') : Sound s' := by
  cases event with
  | opens page =>
    simp only [PlaywrightBrowserBackend.step] at hstep
    split at hstep
    · cases hstep
    · obtain rfl := Option.some.inj hstep
      have hadded : Tidy s { s with contextPages := s.contextPages ++ [page] } :=
        ⟨fun hconsistent => hconsistent.congr rfl rfl rfl rfl rfl, rfl, rfl⟩
      exact h.of_tidy (hadded.trans (tidy_registerPage page true _))
  | closes page =>
    simp only [PlaywrightBrowserBackend.step] at hstep
    split at hstep
    · cases hstep
    · obtain rfl := Option.some.inj hstep
      have hgone : Tidy s { s with
          isClosed := Function.update s.isClosed page true
          contextPages := s.contextPages.erase page } :=
        ⟨fun hconsistent => hconsistent.congr rfl rfl rfl rfl rfl, rfl, rfl⟩
      exact h.of_tidy (hgone.trans
        (tidy_foldl (fun s pageId => tidy_unregisterPage pageId page s) _ _))
  | call i method =>
    simp only [PlaywrightBrowserBackend.step] at hstep
    split at hstep
    · obtain rfl := Option.some.inj hstep
      rcases method.tidy_start s with ⟨htidy, hphase⟩ | hclosed
      · exact (h.of_tidy htidy).put hphase i
      · refine .of_closed ?_
        simp only [hclosed, BackendState.put]
    · cases hstep
  | resolves i answer =>
    simp only [PlaywrightBrowserBackend.step] at hstep
    split at hstep
    next phase later hresolve =>
      obtain rfl := Option.some.inj hstep
      by_cases hclosing : s.calls i = .closingContext
      · -- the tables are emptied after `close` has been called
        have hclosed := h.closing i hclosing
        rw [hclosing] at hresolve
        cases answer with
        | done =>
          obtain ⟨rfl, rfl⟩ := Prod.mk.inj (Option.some.inj hresolve)
          exact .of_closed hclosed
        | _ => cases hresolve
      · obtain ⟨htidy, hphase⟩ := Phase.tidy_resolve hresolve hclosing fun pageId hwaits => by
          simp only [Current] at hcurrent
          rcases hwaits with hphase | hphase <;> rw [hphase] at hcurrent <;> exact hcurrent
        exact (h.of_tidy htidy).put hphase i
    next => cases hstep
  | rejects i error =>
    simp only [PlaywrightBrowserBackend.step] at hstep
    split at hstep
    · obtain rfl := Option.some.inj hstep
      exact h.put (show Phase.failed error ≠ .closingContext from nofun) i
    · cases hstep

/-- However the calls overlap and whenever pages close: before `close`, the active page is one of
the registered pages, there is one if any page is registered, and the tables describe the same
pages, as long as no call makes a page the active one that has been removed. -/
theorem activeExists_of_run {pages : List Page}
    (h : Machine.Run step Current (initial pages) s) (hopen : s.closed = false) :
    ActiveExists s := by
  have hinitial : Sound (initial pages) := by
    refine ⟨fun _ => consistent_initial pages, fun i hi => ?_⟩
    have hcalls : (initial pages).calls = fun _ => .notCalled := by
      unfold initial
      split
      · exact (tidy_foldl (fun s page => tidy_registerPage page false s) pages _).calls
      · exact (tidy_foldl (fun s page => tidy_registerPage page false s) pages _).calls
    rw [hcalls] at hi
    cases hi
  have hsound : Sound s :=
    h.invariant (fun _ _ _ hs hcurrent hstep => hs.step hcurrent hstep) hinitial
  exact (hsound.consistent hopen).activeExists

section Example

/-- The first of two pages is selected and then closes: the second one is active again. -/
theorem activeExists_of_run_select : ∃ s, Machine.Run step Current (initial [0, 1]) s ∧
    s.activePageId = some 1 ∧ ActiveExists s := by
  let events : List (BackendEvent ℕ) := [.call 0 (.selectTab 0), .resolves 0 .done, .closes 0]
  let selected := ((Machine.follow step (events.take 1) (initial [0, 1])).get rfl)
  let shown := ((Machine.follow step (events.take 2) (initial [0, 1])).get rfl)
  let closed := ((Machine.follow step events (initial [0, 1])).get rfl)
  have hselect : step (initial [0, 1]) (.call 0 (.selectTab 0)) = some selected := rfl
  have hshow : step selected (.resolves 0 .done) = some shown := rfl
  have hclose : step shown (.closes 0) = some closed := rfl
  have hcurrent : Current selected (.resolves 0 .done) := by
    show (0 : ℕ) ∈ [0, 1]
    decide
  have hrun : Machine.Run step Current (initial [0, 1]) closed :=
    (((Machine.Run.refl _).step (by trivial) hselect).step hcurrent hshow).step (by trivial) hclose
  exact ⟨closed, hrun, rfl, activeExists_of_run hrun rfl⟩

/-- The first of two pages closes while `selectTab` brings it to the front: it is the active page
afterwards, and no longer registered. -/
theorem closed_page_active : ∃ s, Machine.Run step (fun _ _ => True) (initial [0, 1]) s ∧
    s.closed = false ∧ s.activePageId = some 0 ∧ s.pagesById = [(1, 1)] ∧ ¬ ActiveExists s := by
  let events : List (BackendEvent ℕ) := [.call 0 (.selectTab 0), .closes 0, .resolves 0 .done]
  refine ⟨(Machine.follow step events (initial [0, 1])).get rfl,
    Machine.run_of_follow events (Option.some_get _).symm, rfl, rfl, rfl, fun h => ?_⟩
  rcases h.active with hnone | ⟨pageId, page, hactive, hmem⟩
  · cases hnone
  · obtain rfl : 0 = pageId := Option.some.inj hactive
    have hin : (0, page) ∈ [(1, 1)] := hmem
    simp at hin

end Example

end PlaywrightBrowserBackend
