import ChatgptSystem.Foundations.ChainLock
import ChatgptSystem.Foundations.Program
import Mathlib.Data.Int.Notation

/-!
# The browser service

`BrowserService` of `browser/browser-service.ts` puts its operations in order with chains of
promises: one chain for the operations on shared state, and one for each page.

* `BackendCall` — the calls of the backend;
* `BrowserOp` — the atomic steps of the operations, `BrowserOp.apply` — what they do to the chains
  and to the calls that are in progress;
* `runShared`, `runOnPage` — an operation on the shared chain and on the chain of a page;
* `BrowserMethod.program` — the methods of the service.
-/

open Interleaving

namespace Browser

/-! ## Errors -/

structure BrowserError where
  code : String
  message : String
  matchCount : Option ℕ := none
  deriving DecidableEq

inductive BrowserFailure where
  | browser (error : BrowserError)
  /-- An error whose name is `TimeoutError`. -/
  | timeoutError
  | other

inductive ErrorContext where
  | generic
  | navigation

def normalizeBackendError (errorContext : ErrorContext) : BrowserFailure → BrowserError
  | .browser error => error
  | .timeoutError => { code := "BROWSER_TIMEOUT", message := "Browser operation timed out." }
  | .other => match errorContext with
    | .navigation =>
      { code := "BROWSER_NAVIGATION_FAILED", message := "Browser navigation failed." }
    | .generic => { code := "BROWSER_UNAVAILABLE", message := "Browser operation failed." }

/-! ## Calls of the backend -/

inductive BackendCall (Target : Type) where
  | tabs
  | newTab (url : Option String)
  | selectTab (pageId : String)
  | closeTab (pageId : String)
  | navigate (pageId url : String) (timeoutMs : ℤ)
  | targetCount (pageId : String) (target : Target)
  | targetMetadata (pageId : String) (target : Target)
  | focusedMetadata (pageId : String)
  | snapshot (pageId : String)
  | click (pageId : String) (target : Target)
  | fill (pageId : String) (target : Target) (text : String)
  | selectOption (pageId : String) (target : Target) (value : String)
  | pressKey (pageId key : String)
  | waitForText (pageId text : String) (timeoutMs : ℤ)
  | screenshot (pageId : String)
  | consoleErrors (pageId : String)
  | networkErrors (pageId : String)
  | close

/-- The page whose chain the call is made on; `none` for the shared chain. -/
def BackendCall.page {Target : Type} : BackendCall Target → Option String
  | .tabs | .newTab _ | .selectTab _ | .closeTab _ | .close => none
  | .navigate pageId _ _ | .targetCount pageId _ | .targetMetadata pageId _
  | .focusedMetadata pageId | .snapshot pageId | .click pageId _ | .fill pageId _ _
  | .selectOption pageId _ _ | .pressKey pageId _ | .waitForText pageId _ _ | .screenshot pageId
  | .consoleErrors pageId | .networkErrors pageId => some pageId

/-! ## Steps -/

/-- The atomic steps of an operation. The key of a chain is a page, or `none` for the shared chain;
`me` is the promise that the operation has placed on its chain. -/
inductive BrowserOp (Target : Type) where
  /-- Read the promise of the chain, and replace it. -/
  | enqueue (key : Option String)
  /-- Go on when the promise is settled. -/
  | await (previous : Option ℕ)
  | begin (me : ℕ) (call : BackendCall Target)
  | finish (me : ℕ) (call : BackendCall Target)
  /-- `[...this.pageChains.values()]`. -/
  | pageTails
  | settle (me : ℕ)
  /-- Delete the promise from the map of the page chains if it is still there. -/
  | forget (pageId : String) (me : ℕ)

section Steps

variable {Target R : Type}

def BrowserOp.Res (R : Type) : BrowserOp Target → Type
  | .enqueue _ => Option ℕ × ℕ
  | .await _ => Unit
  | .begin _ _ => Unit
  | .finish _ _ => Except BrowserFailure R
  | .pageTails => List ℕ
  | .settle _ => Unit
  | .forget _ _ => Unit

abbrev BrowserM (Target R α : Type) : Type :=
  Program (BrowserOp Target) (BrowserOp.Res R) BrowserFailure α

structure BrowserState (Target ι : Type) where
  chains : ChainLock.State ι (Option String)
  /-- The call of the backend that is in progress. -/
  inProgress : ι → Option (BackendCall Target)
  /-- The tails that a `close` waits for, from when it reads them until the backend is closed. -/
  closing : ι → Option (List ℕ)
  /-- The calls of the backend, the latest first, each with the promise of its operation. -/
  log : List (ℕ × BackendCall Target)

variable {ι : Type}

def BrowserState.initial : BrowserState Target ι :=
  { chains := .empty, inProgress := fun _ => none, closing := fun _ => none, log := [] }

def pageTailsOf (chains : ChainLock.State ι (Option String)) : List ℕ :=
  chains.tickets.filterMap fun ticket => if ticket.key = none then none else chains.queues ticket.key

variable [DecidableEq ι]

/-- What an operation does; `reply` is what the backend answers. -/
def BrowserOp.apply (reply : Except BrowserFailure R) (i : ι) :
    (o : BrowserOp Target) → BrowserState Target ι → Option (o.Res R × BrowserState Target ι)
  | .enqueue key, s =>
    some ((s.chains.queues key, s.chains.tickets.length),
      { s with chains := s.chains.enqueue i key })
  | .await previous, s => if s.chains.Ready previous then some ((), s) else none
  | .begin me call, s =>
    some ((), { s with
      inProgress := Function.update s.inProgress i (some call)
      log := (me, call) :: s.log })
  | .finish _ call, s =>
    some (reply, { s with
      inProgress := Function.update s.inProgress i none
      closing := match call with
        | .close => Function.update s.closing i none
        | _ => s.closing })
  | .pageTails, s =>
    some (pageTailsOf s.chains,
      { s with closing := Function.update s.closing i (some (pageTailsOf s.chains)) })
  | .settle me, s => some ((), { s with chains := s.chains.settle me })
  | .forget pageId me, s => some ((), { s with chains := s.chains.forget (some pageId) me })

def browserExec (i : ι) : Exec (BrowserOp Target) (BrowserOp.Res R) (BrowserState Target ι) :=
  fun o s r later => ∃ reply, o.apply reply i s = some (r, later)

end Steps

/-! ## The chains of operations -/

section Operations

variable {Target R α : Type}

/-- The outcome of an operation, after `catch` has normalized an error. -/
def settledAs (errorContext : ErrorContext) : Except BrowserFailure α → BrowserM Target R α
  | .ok value => .pure value
  | .error error => .throw (.browser (normalizeBackendError errorContext error))

def runShared (body : ℕ → BrowserM Target R α) : BrowserM Target R α :=
  .request (.enqueue none) fun chain =>
    .request (.await chain.1) fun _ =>
      (body chain.2).attempt.bind fun outcome =>
        .request (.settle chain.2) fun _ => settledAs .generic outcome

def runOnPage (pageId : String) (errorContext : ErrorContext) (body : ℕ → BrowserM Target R α) :
    BrowserM Target R α :=
  .request (.enqueue (some pageId)) fun chain =>
    .request (.await chain.1) fun _ =>
      (body chain.2).attempt.bind fun outcome =>
        .request (.settle chain.2) fun _ =>
          .request (.forget pageId chain.2) fun _ => settledAs errorContext outcome

/-- `await this.backend.…`. -/
def backend (me : ℕ) (call : BackendCall Target) : BrowserM Target R R :=
  .request (.begin me call) fun _ => .request (.finish me call) Program.ofExcept

def orRefuse : Except BrowserError α → BrowserM Target R α
  | .ok value => .pure value
  | .error error => .throw (.browser error)

/-! ## The methods -/

/-- The options of the service, and its checks of arguments and replies. -/
structure BrowserChecks (Target R V : Type) where
  timeoutMs : ℤ
  assertNavigableUrl : String → Except BrowserError Unit
  /-- For the metadata of a target, or of the focused element if there is one. -/
  assertNotCredentialTarget : R → Except BrowserError Unit
  matchCount : R → ℕ
  /-- What a reply is turned into, unless it exceeds a limit. -/
  output : BackendCall Target → R → Except BrowserError V

variable {V : Type} (checks : BrowserChecks Target R V)

/-- The target is looked for again, as often as the clock leaves time for it. -/
def assertUniqueTarget (me : ℕ) (pageId : String) (target : Target) :
    (looks : ℕ) → BrowserM Target R Unit
  | 0 => .throw (.browser
      { code := "BROWSER_TARGET_NOT_FOUND", message := "The browser target was not found." })
  | looks + 1 =>
    (backend me (.targetCount pageId target)).bind fun count =>
      if checks.matchCount count = 1 then .pure ()
      else if checks.matchCount count ≠ 0 then .throw (.browser
        { code := "BROWSER_TARGET_AMBIGUOUS"
          message := "The browser target matched more than one element."
          matchCount := some (checks.matchCount count) })
      else assertUniqueTarget me pageId target looks

def checked (me : ℕ) (call : BackendCall Target) : BrowserM Target R V :=
  (backend me call).bind fun reply => orRefuse (checks.output call reply)

end Operations

/-- The methods of the service but `health`, with their arguments. -/
inductive BrowserMethod (Target : Type) where
  | tabs
  | newTab (url : Option String)
  | selectTab (pageId : String)
  | closeTab (pageId : String)
  | navigate (pageId url : String)
  | snapshot (pageId : String)
  | click (pageId : String) (target : Target)
  | fill (pageId : String) (target : Target) (text : String)
  | selectOption (pageId : String) (target : Target) (value : String)
  | pressKey (pageId key : String)
  | waitForText (pageId text : String) (timeoutMs : Option ℤ)
  | screenshot (pageId : String)
  | consoleErrors (pageId : String)
  | networkErrors (pageId : String)
  | close

section Methods

variable {Target R V : Type} (checks : BrowserChecks Target R V) (looks : ℕ)

/-- What `close` does on the shared chain: it waits for the page operations that are under way,
and closes the backend. -/
def closeBody (me : ℕ) : BrowserM Target R V :=
  .request .pageTails fun tails =>
    (Program.forEach tails fun tail => .request (.await (some tail)) .pure).bind fun _ =>
      checked checks me .close

def fillBody (pageId : String) (target : Target) (text : String) (me : ℕ) :
    BrowserM Target R V :=
  (assertUniqueTarget checks me pageId target looks).bind fun _ =>
    (backend me (.targetMetadata pageId target)).bind fun metadata =>
      (orRefuse (checks.assertNotCredentialTarget metadata)).bind fun _ =>
        checked checks me (.fill pageId target text)

def pressKeyBody (pageId key : String) (me : ℕ) : BrowserM Target R V :=
  (backend me (.focusedMetadata pageId)).bind fun focused =>
    (orRefuse (checks.assertNotCredentialTarget focused)).bind fun _ =>
      checked checks me (.pressKey pageId key)

def onUniqueTarget (pageId : String) (target : Target) (call : BackendCall Target) (me : ℕ) :
    BrowserM Target R V :=
  (assertUniqueTarget checks me pageId target looks).bind fun _ => checked checks me call

def withNavigableUrl (url : Option String) (call : BackendCall Target) (me : ℕ) :
    BrowserM Target R V :=
  (match url with
    | some url => orRefuse (checks.assertNavigableUrl url)
    | none => .pure ()).bind fun _ => checked checks me call

def BrowserMethod.program : BrowserMethod Target → BrowserM Target R V
  | .tabs => runShared fun me => checked checks me .tabs
  | .newTab url => runShared (withNavigableUrl checks url (.newTab url))
  | .selectTab pageId => runShared fun me => checked checks me (.selectTab pageId)
  | .closeTab pageId => runShared fun me => checked checks me (.closeTab pageId)
  | .navigate pageId url => runOnPage pageId .navigation
      (withNavigableUrl checks (some url) (.navigate pageId url checks.timeoutMs))
  | .snapshot pageId => runOnPage pageId .generic fun me => checked checks me (.snapshot pageId)
  | .click pageId target => runOnPage pageId .generic
      (onUniqueTarget checks looks pageId target (.click pageId target))
  | .fill pageId target text => runOnPage pageId .generic (fillBody checks looks pageId target text)
  | .selectOption pageId target value => runOnPage pageId .generic
      (onUniqueTarget checks looks pageId target (.selectOption pageId target value))
  | .pressKey pageId key => runOnPage pageId .generic (pressKeyBody checks pageId key)
  | .waitForText pageId text timeoutMs => runOnPage pageId .generic fun me =>
      checked checks me (.waitForText pageId text
        (max 1 (min (timeoutMs.getD checks.timeoutMs) checks.timeoutMs)))
  | .screenshot pageId => runOnPage pageId .generic fun me => checked checks me (.screenshot pageId)
  | .consoleErrors pageId => runOnPage pageId .generic fun me =>
      checked checks me (.consoleErrors pageId)
  | .networkErrors pageId => runOnPage pageId .generic fun me =>
      checked checks me (.networkErrors pageId)
  | .close => runShared (closeBody checks)

end Methods

end Browser
