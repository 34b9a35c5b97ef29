import ChatgptSystem.Browser.BrowserService
import ChatgptSystem.Foundations.Machine
import Mathlib.Logic.Function.Basic

/-!
# The pages of the browser backend

`PlaywrightBrowserBackend` of `browser/playwright-browser-backend.ts` keeps three tables of the open
pages, by identifier, by page, and of their diagnostics, and the identifier of the active page.
While a call waits for an answer, any other call may go on and any page may close.

* `BackendState` — the tables, the pages of the context, and where each call stands;
* `registerPage`, `unregisterPage`, `requirePage` — the operations on the tables;
* `BackendMethod.start`, `Phase.resolve` — the methods, from one `await` to the next;
* `step` — what each event does.
-/

namespace PlaywrightBrowserBackend

open Browser

/-- The identifiers are random texts of 32 bytes, which do not repeat: the number of such texts
drawn before. -/
abbrev PageId : Type := ℕ

structure PageDiagnostics where
  generation : ℕ
  deriving DecidableEq

structure BrowserTabView where
  pageId : PageId
  title : String
  url : String
  active : Bool
  deriving DecidableEq

inductive Phase (Page : Type) where
  | notCalled
  /-- `newTab` waits for `context.newPage()`. -/
  | opening (url : Option String)
  /-- `newTab` waits for `page.goto(url)`. -/
  | visiting (pageId : PageId)
  /-- `selectTab` waits for `page.bringToFront()`. -/
  | bringing (pageId : PageId)
  /-- `navigate` waits for `page.goto(url)`. -/
  | navigating (pageId : PageId)
  /-- `closeTab` waits for `page.close()`. -/
  | closingPage (pageId : PageId) (page : Page)
  /-- `tabView` waits for `page.title()`. -/
  | viewing (pageId : PageId)
  /-- `tabs` waits for `page.title()`, and has come to the entries `visited`. -/
  | listing (pageId : PageId) (visited : List PageId) (views : List BrowserTabView)
  /-- Another method that looks up a page waits for the page. -/
  | acting
  /-- `close` waits for `context.close()`. -/
  | closingContext
  | returned (views : List BrowserTabView)
  | failed (error : BrowserFailure)

structure BackendState (Page : Type) where
  /-- `context.pages()`. -/
  contextPages : List Page
  /-- `page.isClosed()`. -/
  isClosed : Page → Bool
  /-- The identifiers for which a `close` listener has been added to a page. -/
  listeners : Page → List PageId
  pagesById : List (PageId × Page)
  idsByPage : Page → Option PageId
  diagnosticsByPageId : List (PageId × PageDiagnostics)
  activePageId : Option PageId
  closed : Bool
  /-- How many identifiers have been drawn. -/
  drawn : ℕ
  calls : ℕ → Phase Page

variable {Page : Type} [DecidableEq Page]

/-! ## The tables -/

def registerPage (page : Page) (makeActive : Bool) (s : BackendState Page) :
    PageId × BackendState Page :=
  match s.idsByPage page with
  | some existing =>
    (existing, if makeActive then { s with activePageId := some existing } else s)
  | none =>
    let pageId := s.drawn
    (pageId, { s with
      drawn := s.drawn + 1
      idsByPage := Function.update s.idsByPage page (some pageId)
      pagesById := s.pagesById ++ [(pageId, page)]
      diagnosticsByPageId := s.diagnosticsByPageId ++ [(pageId, { generation := 0 })]
      listeners := Function.update s.listeners page (s.listeners page ++ [pageId])
      activePageId :=
        if makeActive ∨ s.activePageId = none then some pageId else s.activePageId })

/-- The entries of a `Map` after `delete(pageId)`. -/
def deleteKey {α : Type} (pageId : PageId) (entries : List (PageId × α)) : List (PageId × α) :=
  entries.filter fun entry => entry.1 ≠ pageId

def unregisterPage (pageId : PageId) (page : Page) (s : BackendState Page) : BackendState Page :=
  if s.pagesById.lookup pageId ≠ some page then s
  else
    let pagesById := deleteKey pageId s.pagesById
    { s with
      pagesById
      idsByPage := Function.update s.idsByPage page none
      diagnosticsByPageId := deleteKey pageId s.diagnosticsByPageId
      activePageId :=
        if s.activePageId = some pageId then pagesById.head?.map Prod.fst else s.activePageId }

def contextClosed : BrowserError :=
  { code := "BROWSER_UNAVAILABLE", message := "The browser context is closed." }

def pageNotFound : BrowserError :=
  { code := "BROWSER_PAGE_NOT_FOUND", message := "The browser page was not found." }

def requirePage (pageId : PageId) (s : BackendState Page) :
    Except BrowserError Page × BackendState Page :=
  if s.closed then (.error contextClosed, s)
  else match s.pagesById.lookup pageId with
    | none => (.error pageNotFound, s)
    | some page =>
      if s.isClosed page then (.error pageNotFound, unregisterPage pageId page s)
      else (.ok page, s)

def beginDiagnosticGeneration (pageId : PageId) (s : BackendState Page) :
    Except BrowserError (BackendState Page) :=
  match s.diagnosticsByPageId.lookup pageId with
  | none => .error pageNotFound
  | some _ => .ok { s with
      diagnosticsByPageId := s.diagnosticsByPageId.map fun entry =>
        if entry.1 = pageId then (entry.1, { generation := entry.2.generation + 1 }) else entry }

/-- The constructor: the pages of the context are registered, and the last of them is active. -/
def initial (pages : List Page) : BackendState Page :=
  let empty : BackendState Page :=
    { contextPages := pages, isClosed := fun _ => false, listeners := fun _ => []
      pagesById := [], idsByPage := fun _ => none, diagnosticsByPageId := []
      activePageId := none, closed := false, drawn := 0, calls := fun _ => .notCalled }
  let registered := pages.foldl (fun s page => (registerPage page false s).2) empty
  match pages.getLast? with
  | none => registered
  | some page => { registered with activePageId := registered.idsByPage page }

/-! ## The methods -/

inductive BackendMethod where
  | tabs
  | newTab (url : Option String)
  | selectTab (pageId : PageId)
  | closeTab (pageId : PageId)
  | navigate (pageId : PageId)
  | close
  /-- A method that looks up a page and then only talks to it. -/
  | act (pageId : PageId)

def rejected (error : BrowserError) : Phase Page := .failed (.browser error)

/-- The loop of `tabs` over the entries of `pagesById`, up to the next page that is open. -/
def nextTab (visited : List PageId) (views : List BrowserTabView) :
    List (PageId × Page) → BackendState Page → Phase Page × BackendState Page
  | [], s => (.returned views, s)
  | (pageId, page) :: rest, s =>
    if pageId ∈ visited then nextTab visited views rest s
    else if s.isClosed page then nextTab visited views rest (unregisterPage pageId page s)
    else (.listing pageId (visited ++ [pageId]) views, s)

/-- A call, up to its first `await`. -/
def BackendMethod.start : BackendMethod → BackendState Page → Phase Page × BackendState Page
  | .tabs, s =>
    if s.closed then (.returned [], s)
    else
      let registered := s.contextPages.foldl
        (fun s page => if s.isClosed page then s else (registerPage page false s).2) s
      nextTab [] [] registered.pagesById registered
  | .newTab url, s => if s.closed then (rejected contextClosed, s) else (.opening url, s)
  | .selectTab pageId, s =>
    match requirePage pageId s with
    | (.ok _, s) => (.bringing pageId, s)
    | (.error error, s) => (rejected error, s)
  | .closeTab pageId, s =>
    match requirePage pageId s with
    | (.ok page, s) => (.closingPage pageId page, s)
    | (.error error, s) => (rejected error, s)
  | .navigate pageId, s =>
    match requirePage pageId s with
    | (.ok _, s) =>
      match beginDiagnosticGeneration pageId s with
      | .ok s => (.navigating pageId, s)
      | .error error => (rejected error, s)
    | (.error error, s) => (rejected error, s)
  | .close, s =>
    if s.closed then (.returned [], s) else (.closingContext, { s with closed := true })
  | .act pageId, s =>
    match requirePage pageId s with
    | (.ok _, s) => (.acting, s)
    | (.error error, s) => (rejected error, s)

inductive Answer (Page : Type) where
  | done
  /-- `context.newPage()`. -/
  | created (page : Page)
  /-- `page.title()`, and `page.url()` right after it. -/
  | titled (title url : String)

/-- A call from one `await` to the next. -/
def Phase.resolve : Phase Page → Answer Page → BackendState Page →
    Option (Phase Page × BackendState Page)
  | .opening url, .created page, s =>
    let (pageId, s) := registerPage page true s
    match url with
    | none => some (.viewing pageId, s)
    | some _ =>
      match beginDiagnosticGeneration pageId s with
      | .ok s => some (.visiting pageId, s)
      | .error error => some (rejected error, s)
  | .visiting pageId, .done, s => some (.viewing pageId, s)
  | .bringing pageId, .done, s => some (.viewing pageId, { s with activePageId := some pageId })
  | .navigating pageId, .done, s => some (.viewing pageId, { s with activePageId := some pageId })
  | .closingPage pageId page, .done, s => some (.returned [], unregisterPage pageId page s)
  | .viewing pageId, .titled title url, s =>
    some (.returned [⟨pageId, title, url, s.activePageId = some pageId⟩], s)
  | .listing pageId visited views, .titled title url, s =>
    let view : BrowserTabView := ⟨pageId, title, url, s.activePageId = some pageId⟩
    some (nextTab visited (views ++ [view]) s.pagesById s)
  | .acting, .done, s => some (.returned [], s)
  | .closingContext, .done, s =>
    some (.returned [], { s with
      pagesById := [], diagnosticsByPageId := [], activePageId := none })
  | _, _, _ => none

def Phase.isWaiting : Phase Page → Bool
  | .notCalled | .returned _ | .failed _ => false
  | _ => true

/-! ## Events -/

inductive BackendEvent (Page : Type) where
  /-- The context has a new page. -/
  | opens (page : Page)
  | closes (page : Page)
  | call (i : ℕ) (method : BackendMethod)
  | resolves (i : ℕ) (answer : Answer Page)
  | rejects (i : ℕ) (error : BrowserFailure)

def BackendState.put (s : BackendState Page) (i : ℕ) (phase : Phase Page) : BackendState Page :=
  { s with calls := Function.update s.calls i phase }

/-- A page that opens is registered by the listener of the context, and one that closes is removed
by its own listeners. -/
def step : Machine (BackendState Page) (BackendEvent Page)
  | s, .opens page =>
    if page ∈ s.contextPages ∨ s.isClosed page then none
    else some (registerPage page true { s with contextPages := s.contextPages ++ [page] }).2
  | s, .closes page =>
    if s.isClosed page then none
    else
      let closed : BackendState Page :=
        { s with
          isClosed := Function.update s.isClosed page true
          contextPages := s.contextPages.erase page }
      some ((s.listeners page).foldl (fun s pageId => unregisterPage pageId page s) closed)
  | s, .call i method =>
    match s.calls i with
    | .notCalled =>
      let (phase, s) := method.start s
      some (s.put i phase)
    | _ => none
  | s, .resolves i answer =>
    match (s.calls i).resolve answer s with
    | some (phase, s) => some (s.put i phase)
    | none => none
  | s, .rejects i error => if (s.calls i).isWaiting then some (s.put i (.failed error)) else none

end PlaywrightBrowserBackend
