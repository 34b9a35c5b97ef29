import ChatgptSystem.Core.Text
import ChatgptSystem.Foundations.Machine
import ChatgptSystem.Fs.FsOperations
import Mathlib.Data.List.Nodup
import Mathlib.Data.Int.Order.Basic

/-!
# Authority leases

`AuthorityManager` (`core/authority.ts`): leases for the roots of a project, which expire and are
looked up by the digest of their identifiers.

* `canonicalizeProjectRoots` — the roots that a lease may have;
* `start`, `activeRoots`, `resolve`, `status`, `endAuthority` — the calls;
* `step` — a call at some time; `Live` — a lease that was started, and has neither ended nor expired;
* `scope_correct` — in every run the calls go by the live leases, and none of them covers the home
  directory or the root of the file system itself.
-/

open FileTree

namespace Authority

/-! ## Roots -/

/-- What the calls of a manager find: the file system, the working directory of the process and the
home directory. -/
structure Host where
  tree : Tree Name FileData
  maxLinks : ℕ
  cwd : AbsPath
  homeDirInput : String

def Host.realpath (host : Host) (input : String) : Except Errno AbsPath :=
  FsOp.locate host.maxLinks host.tree true
    (Paths.resolve (if Paths.isAbsolute input then [] else host.cwd) (Paths.parse input))

/-- One round of the loop of `canonicalizeProjectRoots`. -/
def canonicalRoot (host : Host) (home : AbsPath) (requestedRoot : String) : Except AppError AbsPath :=
  match host.realpath requestedRoot with
  | .error _ => .error (.authorityDenied "Project authority root could not be resolved.")
  | .ok canonical =>
    if ¬ host.tree.IsDir canonical then
      .error (.authorityDenied "Project authority roots must be directories.")
    -- the root of the file system has no names
    else if canonical = [] ∨ canonical = home then
      .error (.authorityDenied
        "Project authority may not target the filesystem root or the entire home directory.")
    else .ok canonical

def trimmed (text : String) : String := String.ofList (Text.trim text.toList)

def canonicalizeProjectRoots (host : Host) (requestedRootsInput : List String) :
    Except AppError (List AbsPath) := do
  let home ← (host.realpath host.homeDirInput).mapError .errno
  let requestedRoots := (requestedRootsInput.map trimmed).filter (· ≠ "")
  if requestedRoots = [] then
    throw (.authorityDenied "Project authority requires at least one explicit project root.")
  else
    let canonicalRoots ← requestedRoots.mapM (canonicalRoot host home)
    return canonicalRoots.eraseDups

/-! ## Leases -/

/-- What a lease permits. The dates are milliseconds since the epoch. -/
structure AuthorityContext where
  roots : List AbsPath
  terminalEnabled : Bool
  commands : List String
  createdAt : ℤ
  expiresAt : ℤ

structure StartAuthorityRequest where
  projectRoots : Option (List String)
  requestedTtlSeconds : Option ℤ

structure AuthorityLeaseView where
  leaseId : String
  context : AuthorityContext

structure AuthorityManagerOptions where
  commands : List String
  terminalEnabled : Bool

structure StoredLease where
  context : AuthorityContext
  expiresAtMs : ℤ

/-- The map of the leases, by the digests of their identifiers. -/
structure AuthorityManager where
  leases : List (String × StoredLease)

def PROJECT_MAX_TTL_SECONDS : ℤ := 8 * 60 * 60

namespace AuthorityManager

def get (manager : AuthorityManager) (key : String) : Option StoredLease :=
  (manager.leases.find? (·.1 = key)).map (·.2)

def set (manager : AuthorityManager) (key : String) (stored : StoredLease) : AuthorityManager :=
  if manager.leases.any (·.1 = key) then
    ⟨manager.leases.map fun entry => if entry.1 = key then (key, stored) else entry⟩
  else ⟨manager.leases ++ [(key, stored)]⟩

def delete (manager : AuthorityManager) (key : String) : AuthorityManager :=
  ⟨manager.leases.filter (·.1 ≠ key)⟩

end AuthorityManager

/-- `AuthorityRequiredError`. -/
def authorityRequired : AppError :=
  .other "AUTHORITY_REQUIRED"
    "No authority lease matched the provided authorityLeaseId (unknown or expired)."

/-- `AuthorityExpiredError`. -/
def authorityExpired : AppError := .other "AUTHORITY_EXPIRED" "The authority lease has expired."

section Calls

variable (host : Host) (options : AuthorityManagerOptions) (digestLease : String → String)

def newLease (roots : List AbsPath) (requestedTtlSeconds : Option ℤ) (nowMs : ℤ) : StoredLease :=
  let requestedTtl := requestedTtlSeconds.getD PROJECT_MAX_TTL_SECONDS
  let ttlSeconds := max 1 (min requestedTtl PROJECT_MAX_TTL_SECONDS)
  let expiresAtMs := nowMs + ttlSeconds * 1000
  let terminalEnabled := options.terminalEnabled
  { context :=
      { roots := roots
        terminalEnabled := terminalEnabled
        commands := if terminalEnabled then options.commands.eraseDups else []
        createdAt := nowMs
        expiresAt := expiresAtMs }
    expiresAtMs := expiresAtMs }

/-- `start`, with the identifier that `newLeaseId` draws. -/
def start (request : StartAuthorityRequest) (leaseId : String) (nowMs : ℤ)
    (manager : AuthorityManager) : Except AppError (AuthorityLeaseView × AuthorityManager) := do
  let roots ← canonicalizeProjectRoots host (request.projectRoots.getD [])
  let stored := newLease options roots request.requestedTtlSeconds nowMs
  return (⟨leaseId, stored.context⟩, manager.set (digestLease leaseId) stored)

def activeRoots (nowMs : ℤ) (manager : AuthorityManager) : List AbsPath :=
  ((manager.leases.filter fun entry => ¬ nowMs > entry.2.expiresAtMs).flatMap
    (·.2.context.roots)).eraseDups

def requireLeaseKey (leaseId : String) : Except AppError String :=
  if trimmed leaseId = "" then .error authorityRequired else .ok (digestLease leaseId)

/-- `lookup`; an expired lease is deleted. -/
def lookup (leaseId : String) (nowMs : ℤ) (manager : AuthorityManager) :
    Except AppError StoredLease × AuthorityManager :=
  match requireLeaseKey digestLease leaseId with
  | .error error => (.error error, manager)
  | .ok key =>
    match manager.get key with
    | none => (.error authorityRequired, manager)
    | some stored =>
      if nowMs > stored.expiresAtMs then (.error authorityExpired, manager.delete key)
      else (.ok stored, manager)

def resolve (leaseId : String) (nowMs : ℤ) (manager : AuthorityManager) :
    Except AppError AuthorityContext × AuthorityManager :=
  let (outcome, manager) := lookup digestLease leaseId nowMs manager
  (outcome.map (·.context), manager)

def status (leaseId : String) (nowMs : ℤ) (manager : AuthorityManager) :
    Except AppError AuthorityLeaseView × AuthorityManager :=
  let (outcome, manager) := lookup digestLease leaseId nowMs manager
  (outcome.map (⟨leaseId, ·.context⟩), manager)

theorem resolve_eq (leaseId : String) (nowMs : ℤ) (manager : AuthorityManager) :
    resolve digestLease leaseId nowMs manager =
      ((lookup digestLease leaseId nowMs manager).1.map (·.context),
        (lookup digestLease leaseId nowMs manager).2) := by
  rw [resolve]

theorem status_eq (leaseId : String) (nowMs : ℤ) (manager : AuthorityManager) :
    status digestLease leaseId nowMs manager =
      ((lookup digestLease leaseId nowMs manager).1.map (⟨leaseId, ·.context⟩),
        (lookup digestLease leaseId nowMs manager).2) := by
  rw [status]

/-- `end`. -/
def endAuthority (leaseId : String) (manager : AuthorityManager) :
    Except AppError Unit × AuthorityManager :=
  match requireLeaseKey digestLease leaseId with
  | .error error => (.error error, manager)
  | .ok key =>
    match manager.get key with
    | none => (.error authorityRequired, manager)
    | some _ => (.ok (), manager.delete key)

end Calls

/-! ## Runs -/

inductive Call where
  | start (request : StartAuthorityRequest) (leaseId : String)
  | resolve (leaseId : String)
  | status (leaseId : String)
  | endAuthority (leaseId : String)

structure Event where
  call : Call
  nowMs : ℤ

/-- A manager, with the time of the last call and, as ghosts, the leases that were handed out and the
identifiers of those that were ended. -/
structure State where
  manager : AuthorityManager
  clock : ℤ
  started : List AuthorityLeaseView
  ended : List String

def State.initial (clock : ℤ) : State := ⟨⟨[]⟩, clock, [], []⟩

/-- The digits of `base64url`. -/
def base64url : List Char :=
  "ABCDEFGHIJKLMNOPQRSTUVWXYZabcdefghijklmnopqrstuvwxyz0123456789-_".toList

/-- What `newLeaseId` draws: 32 bytes in `base64url`. -/
def IsLeaseId (leaseId : String) : Prop :=
  leaseId.toList.length = 43 ∧ ∀ c ∈ leaseId.toList, c ∈ base64url

instance (leaseId : String) : Decidable (IsLeaseId leaseId) :=
  inferInstanceAs (Decidable (_ ∧ _))

/-- A call. The clock does not go back, and no identifier is drawn twice. -/
def step (host : Host) (options : AuthorityManagerOptions) (digestLease : String → String) :
    Machine State Event := fun s event =>
  if event.nowMs < s.clock then none
  else
    let later : State := { s with clock := event.nowMs }
    match event.call with
    | .start request leaseId =>
      if ¬ IsLeaseId leaseId ∨ leaseId ∈ s.started.map (·.leaseId) then none
      else match start host options digestLease request leaseId event.nowMs s.manager with
        | .error _ => some later
        | .ok (view, manager) =>
          some { later with manager := manager, started := s.started ++ [view] }
    | .resolve leaseId =>
      some { later with manager := (resolve digestLease leaseId event.nowMs s.manager).2 }
    | .status leaseId =>
      some { later with manager := (status digestLease leaseId event.nowMs s.manager).2 }
    | .endAuthority leaseId =>
      match endAuthority digestLease leaseId s.manager with
      | (.error _, manager) => some { later with manager := manager }
      | (.ok _, manager) => some { later with manager := manager, ended := leaseId :: s.ended }

/-- A lease that was started and has neither been ended nor expired. -/
structure Live (s : State) (nowMs : ℤ) (view : AuthorityLeaseView) : Prop where
  started : view ∈ s.started
  running : view.leaseId ∉ s.ended
  valid : nowMs ≤ view.context.expiresAt

/-! ## What holds between the calls -/

theorem trimmed_ne_empty {leaseId : String} (h : IsLeaseId leaseId) : trimmed leaseId ≠ "" := by
  obtain ⟨hlength, hchars⟩ := h
  have hdigits : ∀ c ∈ base64url, Text.isWhiteSpace c = false := by decide +kernel
  have hsolid : ∀ c ∈ leaseId.toList, Text.isWhiteSpace c = false :=
    fun c hc => hdigits c (hchars c hc)
  rw [trimmed, Text.trim_eq_self hsolid, String.ofList_toList]
  rintro rfl
  simp at hlength

structure Permitted (host : Host) (root : AbsPath) : Prop where
  directory : host.tree.IsDir root
  notRoot : root ≠ []
  notHome : ∀ home, host.realpath host.homeDirInput = .ok home → root ≠ home

theorem permitted_of_canonicalRoot {host : Host} {home root : AbsPath} {requestedRoot : String}
    (hhome : host.realpath host.homeDirInput = .ok home)
    (h : canonicalRoot host home requestedRoot = .ok root) : Permitted host root := by
  unfold canonicalRoot at h
  split at h
  · cases h
  · split at h
    · cases h
    next hdirectory =>
    split at h
    · cases h
    next hallowed =>
    cases h
    rw [not_or] at hallowed
    refine ⟨not_not.mp hdirectory, hallowed.1, fun home' hhome' => ?_⟩
    rw [hhome] at hhome'
    obtain rfl := Except.ok.inj hhome'
    exact hallowed.2

theorem mem_of_mapM_eq_ok {α β : Type} {f : α → Except AppError β} {items : List α} {results : List β}
    (h : items.mapM f = .ok results) {b : β} (hb : b ∈ results) : ∃ a ∈ items, f a = .ok b := by
  induction items generalizing results with
  | nil =>
    cases h
    cases hb
  | cons a items ih =>
    rw [List.mapM_cons] at h
    obtain ⟨first, hfirst, h⟩ := Except.bind_eq_ok h
    obtain ⟨rest, hrest, h⟩ := Except.bind_eq_ok h
    cases h
    rcases List.mem_cons.mp hb with rfl | hb
    · exact ⟨a, List.mem_cons_self, hfirst⟩
    · obtain ⟨a', ha', hresult⟩ := ih hrest hb
      exact ⟨a', List.mem_cons_of_mem _ ha', hresult⟩

theorem permitted_of_canonicalizeProjectRoots {host : Host} {requestedRoots : List String}
    {roots : List AbsPath} (h : canonicalizeProjectRoots host requestedRoots = .ok roots)
    {root : AbsPath} (hroot : root ∈ roots) : Permitted host root := by
  obtain ⟨home, hhome, h⟩ := Except.bind_eq_ok h
  have hhome' : host.realpath host.homeDirInput = .ok home := by
    cases hrealpath : host.realpath host.homeDirInput with
    | error code => rw [hrealpath] at hhome; cases hhome
    | ok home' => rw [hrealpath] at hhome; exact congrArg _ (Except.ok.inj hhome)
  dsimp only at h
  split at h
  · cases h
  obtain ⟨canonicalRoots, hcanonical, h⟩ := Except.bind_eq_ok h
  cases h
  obtain ⟨requestedRoot, -, hresult⟩ := mem_of_mapM_eq_ok hcanonical (List.mem_eraseDups.mp hroot)
  exact permitted_of_canonicalRoot hhome' hresult

/-- What holds between two calls. An expired lease stays in the map until it is looked up. -/
structure Inv (host : Host) (digestLease : String → String) (s : State) : Prop where
  stored : ∀ key stored, (key, stored) ∈ s.manager.leases →
    stored.expiresAtMs = stored.context.expiresAt ∧
      ∃ leaseId, key = digestLease leaseId ∧ ⟨leaseId, stored.context⟩ ∈ s.started ∧
        leaseId ∉ s.ended
  kept : ∀ view ∈ s.started, view.leaseId ∉ s.ended → s.clock ≤ view.context.expiresAt →
    ∃ stored, (digestLease view.leaseId, stored) ∈ s.manager.leases ∧ stored.context = view.context
  keys : (s.manager.leases.map Prod.fst).Nodup
  identifiers : (s.started.map (·.leaseId)).Nodup
  leaseIds : ∀ view ∈ s.started, IsLeaseId view.leaseId
  started : ∀ leaseId ∈ s.ended, leaseId ∈ s.started.map (·.leaseId)
  permitted : ∀ view ∈ s.started, ∀ root ∈ view.context.roots, Permitted host root

section Invariant

variable {host : Host} {options : AuthorityManagerOptions} {digestLease : String → String}
  {s s' : State} {leaseId : String} {nowMs : ℤ}

theorem Inv.initial (clock : ℤ) : Inv host digestLease (.initial clock) where
  stored := nofun
  kept := nofun
  keys := List.nodup_nil
  identifiers := List.nodup_nil
  leaseIds := nofun
  started := nofun
  permitted := nofun

variable {manager : AuthorityManager} {stored : StoredLease}

theorem get_eq_some {key : String} (hkeys : (manager.leases.map Prod.fst).Nodup) :
    manager.get key = some stored ↔ (key, stored) ∈ manager.leases := by
  unfold AuthorityManager.get
  generalize manager.leases = leases at hkeys
  induction leases with
  | nil => simp
  | cons entry leases ih =>
    obtain ⟨key', stored'⟩ := entry
    rw [List.map_cons, List.nodup_cons] at hkeys
    rw [List.mem_cons]
    by_cases hkey : key' = key
    · subst hkey
      rw [List.find?_cons_of_pos (by simp)]
      constructor
      · rintro ⟨⟩
        exact .inl rfl
      · rintro (hhead | htail)
        · cases hhead
          rfl
        · exact absurd (List.mem_map_of_mem htail) hkeys.1
    · rw [List.find?_cons_of_neg (by simpa using hkey), ih hkeys.2]
      constructor
      · exact .inr
      · rintro (hhead | htail)
        · cases hhead
          exact absurd rfl hkey
        · exact htail

theorem Inv.get_eq (h : Inv host digestLease s) (hinjective : Function.Injective digestLease)
    (hget : s.manager.get (digestLease leaseId) = some stored) :
    stored.expiresAtMs = stored.context.expiresAt ∧ ⟨leaseId, stored.context⟩ ∈ s.started ∧
      leaseId ∉ s.ended := by
  obtain ⟨hexpires, leaseId', hkey, hstarted, hrunning⟩ :=
    h.stored _ _ ((get_eq_some h.keys).mp hget)
  obtain rfl := hinjective hkey
  exact ⟨hexpires, hstarted, hrunning⟩

theorem lookup_eq_ok_iff (h : Inv host digestLease s) (hinjective : Function.Injective digestLease)
    (hclock : s.clock ≤ nowMs) {context : AuthorityContext} :
    (∃ stored, (lookup digestLease leaseId nowMs s.manager).1 = .ok stored ∧
      stored.context = context) ↔ Live s nowMs ⟨leaseId, context⟩ := by
  unfold lookup requireLeaseKey
  constructor
  · rintro ⟨stored, hlookup, rfl⟩
    split at hlookup
    · cases hlookup
    next key hkey =>
    split at hkey
    · cases hkey
    cases hkey
    split at hlookup
    · cases hlookup
    next found hget =>
    split at hlookup
    · cases hlookup
    next hvalid =>
    cases hlookup
    obtain ⟨hexpires, hstarted, hrunning⟩ := h.get_eq hinjective hget
    exact ⟨hstarted, hrunning, hexpires ▸ not_lt.mp hvalid⟩
  · rintro ⟨hstarted, hrunning, hvalid⟩
    obtain ⟨stored, hstored, rfl⟩ := h.kept _ hstarted hrunning (hclock.trans hvalid)
    have hexpires := (h.stored _ _ hstored).1
    have hunexpired : ¬ nowMs > stored.expiresAtMs := not_lt.mpr (hexpires ▸ hvalid)
    refine ⟨stored, ?_, rfl⟩
    rw [if_neg (trimmed_ne_empty (h.leaseIds _ hstarted))]
    dsimp only
    rw [(get_eq_some h.keys).mpr hstored]
    dsimp only
    rw [if_neg hunexpired]

/-! ## What the calls keep -/

theorem mem_delete {key key' : String} :
    (key', stored) ∈ (manager.delete key).leases ↔ (key', stored) ∈ manager.leases ∧ key' ≠ key := by
  simp [AuthorityManager.delete]

section

variable (h : Inv host digestLease s)

include h

theorem Inv.shrink (hclock : s.clock ≤ nowMs) (hfewer : manager.leases.Sublist s.manager.leases)
    (hdead : ∀ key stored, (key, stored) ∈ s.manager.leases → (key, stored) ∉ manager.leases →
      stored.context.expiresAt < nowMs) :
    Inv host digestLease { s with manager := manager, clock := nowMs } where
  stored key stored hstored := h.stored key stored (hfewer.subset hstored)
  kept view hview hrunning hvalid := by
    obtain ⟨stored, hstored, hcontext⟩ := h.kept view hview hrunning (hclock.trans hvalid)
    refine ⟨stored, ?_, hcontext⟩
    by_contra hgone
    have hexpired := hdead _ _ hstored hgone
    rw [hcontext] at hexpired
    exact absurd hvalid (not_le.mpr hexpired)
  keys := h.keys.sublist (hfewer.map _)
  identifiers := h.identifiers
  leaseIds := h.leaseIds
  started := h.started
  permitted := h.permitted

theorem Inv.lookup (hclock : s.clock ≤ nowMs) :
    Inv host digestLease
      { s with manager := (lookup digestLease leaseId nowMs s.manager).2, clock := nowMs } := by
  have hsame : Inv host digestLease { s with clock := nowMs } :=
    h.shrink hclock (.refl _) fun _ _ hin hout => absurd hin hout
  unfold Authority.lookup
  split
  · exact hsame
  next key _ =>
  split
  · exact hsame
  next stored hget =>
  split
  next hexpired =>
    refine h.shrink hclock List.filter_sublist fun key' stored' hin hout => ?_
    have hkey : key' = key := by
      by_contra hne
      exact hout (mem_delete.mpr ⟨hin, hne⟩)
    subst hkey
    have hstored : some stored' = some stored := ((get_eq_some h.keys).mpr hin).symm.trans hget
    cases hstored
    rw [← (h.stored _ _ hin).1]
    exact hexpired
  · exact hsame

section

variable (hinjective : Function.Injective digestLease)

include hinjective

theorem Inv.endAuthority (hclock : s.clock ≤ nowMs)
    (hget : s.manager.get (digestLease leaseId) = some stored) :
    Inv host digestLease
      { s with
        manager := s.manager.delete (digestLease leaseId)
        clock := nowMs
        ended := leaseId :: s.ended } where
  stored key stored hstored := by
    obtain ⟨hin, hkey⟩ := mem_delete.mp hstored
    obtain ⟨hexpires, leaseId', rfl, hstarted, hrunning⟩ := h.stored key stored hin
    refine ⟨hexpires, leaseId', rfl, hstarted, ?_⟩
    rw [List.mem_cons, not_or]
    exact ⟨fun heq => hkey (congrArg digestLease heq), hrunning⟩
  kept view hview hrunning hvalid := by
    rw [List.mem_cons, not_or] at hrunning
    obtain ⟨stored, hstored, hcontext⟩ := h.kept view hview hrunning.2 (hclock.trans hvalid)
    exact ⟨stored, mem_delete.mpr ⟨hstored, fun heq => hrunning.1 (hinjective heq)⟩, hcontext⟩
  keys := h.keys.sublist (List.filter_sublist.map _)
  identifiers := h.identifiers
  leaseIds := h.leaseIds
  started leaseId' hended := by
    rcases List.mem_cons.mp hended with rfl | hended
    · exact List.mem_map_of_mem (h.get_eq hinjective hget).2.1
    · exact h.started leaseId' hended
  permitted := h.permitted

theorem Inv.start (hclock : s.clock ≤ nowMs) (hleaseId : IsLeaseId leaseId)
    (hnew : leaseId ∉ s.started.map (·.leaseId)) {request : StartAuthorityRequest}
    {view : AuthorityLeaseView}
    (hstart : start host options digestLease request leaseId nowMs s.manager = .ok (view, manager)) :
    Inv host digestLease
      { s with manager := manager, clock := nowMs, started := s.started ++ [view] } := by
  obtain ⟨roots, hroots, hstart⟩ := Except.bind_eq_ok hstart
  cases hstart
  generalize hlease : newLease options roots request.requestedTtlSeconds nowMs = lease
  have hexpires : lease.expiresAtMs = lease.context.expiresAt := hlease ▸ rfl
  have hcontext : lease.context.roots = roots := hlease ▸ rfl
  have hunused : ∀ entry ∈ s.manager.leases, entry.1 ≠ digestLease leaseId := by
    rintro ⟨key, stored⟩ hentry heq
    obtain ⟨-, leaseId', rfl, hstarted, -⟩ := h.stored key stored hentry
    obtain rfl := hinjective heq
    exact hnew (List.mem_map_of_mem hstarted)
  have hset : s.manager.set (digestLease leaseId) lease =
      ⟨s.manager.leases ++ [(digestLease leaseId, lease)]⟩ := by
    refine if_neg fun hany => ?_
    obtain ⟨entry, hentry, heq⟩ := List.any_eq_true.mp hany
    exact hunused entry hentry (of_decide_eq_true heq)
  rw [hset]
  refine ⟨fun key stored hstored => ?_, fun view hview hrunning hvalid => ?_, ?_, ?_,
    fun view hview => ?_, fun leaseId' hended => ?_, fun view hview root hroot => ?_⟩
  · rcases List.mem_append.mp hstored with hstored | hstored
    · obtain ⟨hexpires, leaseId', hkey, hstarted, hrunning⟩ := h.stored key stored hstored
      exact ⟨hexpires, leaseId', hkey, List.mem_append_left _ hstarted, hrunning⟩
    · obtain ⟨rfl, rfl⟩ := Prod.mk.inj (List.mem_singleton.mp hstored)
      exact ⟨hexpires, leaseId, rfl, List.mem_append_right _ (List.mem_singleton.mpr rfl),
        fun hended => hnew (h.started _ hended)⟩
  · rcases List.mem_append.mp hview with hview | hview
    · obtain ⟨stored, hstored, hcontext⟩ := h.kept view hview hrunning (hclock.trans hvalid)
      exact ⟨stored, List.mem_append_left _ hstored, hcontext⟩
    · obtain rfl := List.mem_singleton.mp hview
      exact ⟨lease, List.mem_append_right _ (List.mem_singleton.mpr rfl), rfl⟩
  · show ((s.manager.leases ++ _).map Prod.fst).Nodup
    rw [List.map_append, List.nodup_append]
    refine ⟨h.keys, List.nodup_singleton _, fun key hkey key' hkey' => ?_⟩
    obtain ⟨entry, hentry, rfl⟩ := List.mem_map.mp hkey
    rw [List.mem_singleton.mp hkey']
    exact hunused entry hentry
  · show ((s.started ++ _).map (·.leaseId)).Nodup
    rw [List.map_append, List.nodup_append]
    refine ⟨h.identifiers, List.nodup_singleton _, fun id hid id' hid' heq => ?_⟩
    rw [List.mem_singleton.mp hid'] at heq
    subst heq
    exact hnew hid
  · rcases List.mem_append.mp hview with hview | hview
    · exact h.leaseIds view hview
    · obtain rfl := List.mem_singleton.mp hview
      exact hleaseId
  · rw [List.map_append]
    exact List.mem_append_left _ (h.started leaseId' hended)
  · rcases List.mem_append.mp hview with hview | hview
    · exact h.permitted view hview root hroot
    · obtain rfl := List.mem_singleton.mp hview
      rw [hcontext] at hroot
      exact permitted_of_canonicalizeProjectRoots hroots hroot

theorem Inv.step {event : Event} (hstep : step host options digestLease s event = some s') :
    Inv host digestLease s' := by
  obtain ⟨call, nowMs⟩ := event
  unfold Authority.step at hstep
  split at hstep
  · cases hstep
  next hclock =>
  replace hclock : s.clock ≤ nowMs := not_lt.mp hclock
  have hsame : Inv host digestLease { s with clock := nowMs } :=
    h.shrink hclock (.refl _) fun _ _ hin hout => absurd hin hout
  cases call with
  | start request leaseId =>
    dsimp only at hstep
    split at hstep
    · cases hstep
    next hfresh =>
    rw [not_or, not_not] at hfresh
    split at hstep
    · cases hstep
      exact hsame
    next view manager hstart =>
      cases hstep
      exact h.start hinjective hclock hfresh.1 hfresh.2 hstart
  | resolve leaseId =>
    obtain rfl := Option.some.inj hstep
    rw [resolve_eq]
    exact h.lookup hclock
  | status leaseId =>
    obtain rfl := Option.some.inj hstep
    rw [status_eq]
    exact h.lookup hclock
  | endAuthority leaseId =>
    dsimp only at hstep
    unfold Authority.endAuthority at hstep
    cases hkey : requireLeaseKey digestLease leaseId with
    | error error =>
      rw [hkey] at hstep
      cases hstep
      exact hsame
    | ok key =>
      rw [hkey] at hstep
      dsimp only at hstep
      have hdigest : key = digestLease leaseId := by
        unfold requireLeaseKey at hkey
        split at hkey <;> cases hkey
        rfl
      subst hdigest
      cases hget : s.manager.get (digestLease leaseId) with
      | none =>
        rw [hget] at hstep
        cases hstep
        exact hsame
      | some stored =>
        rw [hget] at hstep
        cases hstep
        exact h.endAuthority hinjective hclock hget

end

end

theorem Inv.run (hinjective : Function.Injective digestLease) {clock : ℤ}
    (hrun : Machine.Run (Authority.step host options digestLease) (fun _ _ => True) (.initial clock) s) :
    Inv host digestLease s :=
  hrun.invariant (fun _ _ _ h _ hstep => h.step hinjective hstep) (.initial clock)

theorem mem_activeRoots (h : Inv host digestLease s) (hclock : s.clock ≤ nowMs) {root : AbsPath} :
    root ∈ activeRoots nowMs s.manager ↔ ∃ view, Live s nowMs view ∧ root ∈ view.context.roots := by
  unfold activeRoots
  rw [List.mem_eraseDups, List.mem_flatMap]
  constructor
  · rintro ⟨⟨key, stored⟩, hentry, hroot⟩
    obtain ⟨hin, hvalid⟩ := List.mem_filter.mp hentry
    obtain ⟨hexpires, leaseId, rfl, hstarted, hrunning⟩ := h.stored key stored hin
    have hunexpired : nowMs ≤ stored.expiresAtMs := not_lt.mp (of_decide_eq_true hvalid)
    exact ⟨_, ⟨hstarted, hrunning, hexpires ▸ hunexpired⟩, hroot⟩
  · rintro ⟨view, ⟨hstarted, hrunning, hvalid⟩, hroot⟩
    obtain ⟨stored, hstored, hcontext⟩ := h.kept view hstarted hrunning (hclock.trans hvalid)
    have hunexpired : ¬ nowMs > stored.expiresAtMs := by
      rw [(h.stored _ _ hstored).1, hcontext]
      exact not_lt.mpr hvalid
    exact ⟨_, List.mem_filter.mpr ⟨hstored, decide_eq_true hunexpired⟩, hcontext ▸ hroot⟩

/-! ## The scope -/

/-- In every run of calls under a clock that does not go back, `resolve` and `status` accept exactly
the live leases, the active roots are the roots of these, and no active root is the root of the file
system or the home directory. -/
theorem scope_correct (hinjective : Function.Injective digestLease) {clock : ℤ}
    (hrun : Machine.Run (Authority.step host options digestLease) (fun _ _ => True) (.initial clock) s)
    (hnow : s.clock ≤ nowMs) :
    (∀ leaseId context, (resolve digestLease leaseId nowMs s.manager).1 = .ok context ↔
      Live s nowMs ⟨leaseId, context⟩) ∧
    (∀ leaseId view, (status digestLease leaseId nowMs s.manager).1 = .ok view ↔
      view.leaseId = leaseId ∧ Live s nowMs view) ∧
    (∀ root, root ∈ activeRoots nowMs s.manager ↔
      ∃ view, Live s nowMs view ∧ root ∈ view.context.roots) ∧
    ∀ root ∈ activeRoots nowMs s.manager, host.tree.IsDir root ∧ root ≠ [] ∧
      ∀ home, host.realpath host.homeDirInput = .ok home → root ≠ home := by
  have hinv := Inv.run hinjective hrun
  have hmap {α : Type} {outcome : Except AppError StoredLease} {f : StoredLease → α} {a : α} :
      outcome.map f = .ok a ↔ ∃ stored, outcome = .ok stored ∧ f stored = a := by
    cases outcome <;> simp [Except.map]
  refine ⟨fun leaseId context => ?_, fun leaseId view => ?_, fun root => mem_activeRoots hinv hnow,
    fun root hroot => ?_⟩
  · rw [resolve_eq, hmap]
    exact lookup_eq_ok_iff hinv hinjective hnow
  · obtain ⟨leaseId', context⟩ := view
    rw [status_eq, hmap]
    constructor
    · rintro ⟨stored, hlookup, hview⟩
      obtain ⟨rfl, rfl⟩ := AuthorityLeaseView.mk.inj hview
      exact ⟨rfl, (lookup_eq_ok_iff hinv hinjective hnow).mp ⟨stored, hlookup, rfl⟩⟩
    · rintro ⟨rfl, hlive⟩
      obtain ⟨stored, hlookup, rfl⟩ := (lookup_eq_ok_iff hinv hinjective hnow).mpr hlive
      exact ⟨stored, hlookup, rfl⟩
  · obtain ⟨view, hlive, hroot⟩ := (mem_activeRoots hinv hnow).mp hroot
    have hpermitted := hinv.permitted view hlive.started root hroot
    exact ⟨hpermitted.directory, hpermitted.notRoot, hpermitted.notHome⟩

end Invariant

section Example

def exampleName (text : String) (h : IsName text) : Name := ⟨text, h⟩

/-- The directory `/Users/owner/project`. -/
def exampleTree : Tree Name FileData :=
  let path := [exampleName "Users" (by decide), exampleName "owner" (by decide),
    exampleName "project" (by decide)]
  match Tree.mkdirAll 0 .empty [] path with
  | .ok tree => tree
  | .error _ => .empty

def exampleHost : Host := ⟨exampleTree, 0, [], "/Users/owner"⟩

def exampleOptions : AuthorityManagerOptions := ⟨["git"], false⟩

/-- What `newLeaseId` draws in the examples. -/
def exampleLease : String := String.ofList (List.replicate 43 'A')

def startOf (root : String) : Event := ⟨.start ⟨some [root], some 60⟩ exampleLease, 0⟩

/-- A lease for the directory that holds the home directory is accepted. -/
theorem scope_correct_counterexample : ∃ (s : State) (root home : AbsPath),
    Machine.Run (step exampleHost exampleOptions id) (fun _ _ => True) (.initial 0) s ∧
      root ∈ activeRoots 0 s.manager ∧ exampleHost.realpath exampleHost.homeDirInput = .ok home ∧
      Paths.isInside root home = true := by
  have hfinal : (Machine.follow (step exampleHost exampleOptions id) [startOf "/Users"]
      (.initial 0)).map (fun s => activeRoots 0 s.manager) =
      some [[exampleName "Users" (by decide)]] := by
    decide +kernel
  obtain ⟨s, hs, hroots⟩ := Option.map_eq_some_iff.mp hfinal
  refine ⟨s, [exampleName "Users" (by decide)],
    [exampleName "Users" (by decide), exampleName "owner" (by decide)],
    Machine.run_of_follow _ hs, ?_, by decide +kernel, by decide +kernel⟩
  rw [hroots]
  exact List.mem_singleton.mpr rfl

/-- A lease for a project is accepted until it expires. -/
theorem scope_correct_example : ∃ s : State,
    Machine.Run (step exampleHost exampleOptions id) (fun _ _ => True) (.initial 0) s ∧
      activeRoots 0 s.manager ≠ [] ∧
      (∀ nowMs, 0 ≤ nowMs → ∀ context, (resolve id exampleLease nowMs s.manager).1 = .ok context ↔
        Live s nowMs ⟨exampleLease, context⟩) := by
  have hfinal : (Machine.follow (step exampleHost exampleOptions id)
      [startOf "/Users/owner/./project"] (.initial 0)).map (fun s =>
        (s.clock, activeRoots 0 s.manager)) =
      some (0, [[exampleName "Users" (by decide), exampleName "owner" (by decide),
        exampleName "project" (by decide)]]) := by
    decide +kernel
  obtain ⟨s, hs, hstate⟩ := Option.map_eq_some_iff.mp hfinal
  obtain ⟨hclock, hroots⟩ := Prod.mk.inj hstate
  have hrun : Machine.Run (step exampleHost exampleOptions id) (fun _ _ => True) (.initial 0) s :=
    Machine.run_of_follow _ hs
  refine ⟨s, hrun, ?_, fun nowMs hnow context => ?_⟩
  · rw [hroots]
    exact List.cons_ne_nil _ _
  · exact (scope_correct Function.injective_id hrun (hclock ▸ hnow)).1 exampleLease context

end Example

end Authority
