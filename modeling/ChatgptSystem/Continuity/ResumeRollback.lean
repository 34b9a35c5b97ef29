import ChatgptSystem.Continuity.ProjectContinuityService
import ChatgptSystem.Core.Authority
import ChatgptSystem.Foundations.Conduct
import ChatgptSystem.Foundations.Trace

/-!
# A failed resume

`ProjectContinuityService.resume` opens a lease, and then registers it for the project
(`continuity/continuity-resume-registry.ts`). Other calls may come between any two of its steps.

* `ContinuityResumeRegistry`, `register` — the registry;
* `Grants` — the leases and the registered contexts; `OtherCall.run` — what other calls make of
  them;
* `ResumeRun`, `ResumeRun.step` — a resume among other calls;
* `resumeMonitor` — when the resume opens, registers and ends its lease;
* `nothing_granted` — a resume that throws leaves the grants as if it had not been called.
-/

open Interleaving

namespace Continuity

/-! ## The registry -/

/-- The contexts by the digests of their leases, oldest first. -/
structure ContinuityResumeRegistry where
  records : List (String × ContinuityResumeContext)

def MAX_RESUME_CONTEXTS : ℕ := 256

section Calls

variable (options : Authority.AuthorityManagerOptions) (digestLease : String → String)

def leaseDigest (leaseId : String) : Except AppError String :=
  if Authority.trimmed leaseId = "" then
    .error (.projectResumeRequired "An active project_resume context is required for publication.")
  else .ok (digestLease leaseId)

/-- `register`: the oldest contexts make room. -/
def registerContext (leaseId : String) (context : ContinuityResumeContext)
    (registry : ContinuityResumeRegistry) : Except AppError Unit × ContinuityResumeRegistry :=
  match leaseDigest digestLease leaseId with
  | .error error => (.error error, registry)
  | .ok key =>
    let records := registry.records.filter (·.1 ≠ key)
    let records := records.drop (records.length + 1 - MAX_RESUME_CONTEXTS)
    (.ok (), ⟨records ++ [(key, context)]⟩)

/-! ## Other calls -/

structure Grants where
  leases : Authority.AuthorityManager
  contexts : ContinuityResumeRegistry

inductive OtherCall where
  | authority (host : Authority.Host) (call : Authority.Call) (nowMs : ℤ)
  | register (leaseId : String) (context : ContinuityResumeContext)

def OtherCall.draws : OtherCall → Option String
  | .authority _ (.start _ leaseId) _ => some leaseId
  | _ => none

def OtherCall.run (grants : Grants) : OtherCall → Grants
  | .authority host (.start request leaseId) nowMs =>
    match Authority.start host options digestLease request leaseId nowMs grants.leases with
    | .error _ => grants
    | .ok (_, leases) => { grants with leases := leases }
  | .authority _ (.resolve leaseId) nowMs =>
    { grants with leases := (Authority.resolve digestLease leaseId nowMs grants.leases).2 }
  | .authority _ (.status leaseId) nowMs =>
    { grants with leases := (Authority.status digestLease leaseId nowMs grants.leases).2 }
  | .authority _ (.endAuthority leaseId) _ =>
    { grants with leases := (Authority.endAuthority digestLease leaseId grants.leases).2 }
  | .register leaseId context =>
    { grants with contexts := (registerContext digestLease leaseId context grants.contexts).2 }

/-! ## A resume -/

/-- What an operation of the resume meets: the answer of the environment, and what the start of a
lease finds, draws and reads. -/
structure ResumeChoice where
  oracle : (o : ServiceOp) → o.Res
  host : Authority.Host
  leaseId : String
  nowMs : ℤ

variable (pathText : AbsPath → String) (isoDate : ℤ → String)

def serve (choice : ResumeChoice) : (o : ServiceOp) → Grants → o.Res × Grants
  | .ask (.startLease roots requestedTtlSeconds), grants =>
    let request : Authority.StartAuthorityRequest := ⟨some roots, requestedTtlSeconds.map Nat.cast⟩
    match Authority.start choice.host options digestLease request choice.leaseId choice.nowMs
        grants.leases with
    | .error error => (Except.error error, grants)
    | .ok (view, leases) =>
      (Except.ok ⟨view.leaseId, view.context.roots.map pathText, isoDate view.context.expiresAt⟩,
        { grants with leases := leases })
  | .ask (.endLease leaseId), grants =>
    let answer := Authority.endAuthority digestLease leaseId grants.leases
    (answer.1, { grants with leases := answer.2 })
  | .ask (.registerResume leaseId context), grants =>
    let answer := registerContext digestLease leaseId context grants.contexts
    (answer.1, { grants with contexts := answer.2 })
  | o, grants => (choice.oracle o, grants)

def ResumeChoice.draws (choice : ResumeChoice) : ServiceOp → Option String
  | .ask (.startLease _ _) => some choice.leaseId
  | _ => none

/-- A resume among other calls. As ghosts, what the grants would be without the resume, the digests
of the identifiers that were drawn, and the operations of the resume with their answers. -/
structure ResumeRun where
  program : ServiceM ProjectResumeResult
  grants : Grants
  alone : Grants
  drawn : List String
  trace : List (Event ServiceOp ServiceOp.Res)

namespace ResumeRun

def initial (unicode : CharacterDatabase) (input : ProjectResumeInput) (grants : Grants) :
    ResumeRun :=
  ⟨resumeProject unicode input, grants, grants, grants.leases.leases.map Prod.fst, []⟩

inductive Step where
  | proceed (choice : ResumeChoice)
  | other (call : OtherCall)

def Drawable (s : ResumeRun) : Option String → Prop
  | none => True
  | some leaseId => Authority.IsLeaseId leaseId ∧ digestLease leaseId ∉ s.drawn

instance (s : ResumeRun) (leaseId : Option String) : Decidable (s.Drawable digestLease leaseId) :=
  match leaseId with
  | none => inferInstanceAs (Decidable True)
  | some _ => inferInstanceAs (Decidable (_ ∧ _))

def draw (s : ResumeRun) (leaseId : Option String) : List String :=
  leaseId.toList.map digestLease ++ s.drawn

def step : Machine ResumeRun Step := fun s e =>
  match e with
  | .proceed choice =>
    match s.program with
    | .request o rest =>
      if s.Drawable digestLease (choice.draws o) then
        let answer := serve options digestLease pathText isoDate choice o s.grants
        some
          { program := rest answer.1
            grants := answer.2
            alone := s.alone
            drawn := s.draw digestLease (choice.draws o)
            trace := s.trace ++ [⟨o, answer.1⟩] }
      else none
    | _ => none
  | .other call =>
    if s.Drawable digestLease call.draws then
      some
        { s with
          grants := call.run options digestLease s.grants
          alone := call.run options digestLease s.alone
          drawn := s.draw digestLease call.draws }
    else none

end ResumeRun

end Calls

/-! ## Leases of other identifiers -/

section Leases

open Authority

variable {options : AuthorityManagerOptions} {digestLease : String → String}
  {manager : AuthorityManager} {key key' leaseId : String} {stored : StoredLease}

def keys (manager : AuthorityManager) : List String := manager.leases.map Prod.fst

theorem get_eq_none_iff : manager.get key = none ↔ key ∉ keys manager := by
  rw [AuthorityManager.get, Option.map_eq_none_iff, List.find?_eq_none, keys, List.mem_map,
    not_exists]
  exact forall_congr' fun entry => by simp

theorem delete_of_get_eq_none (h : manager.get key = none) : manager.delete key = manager := by
  rw [get_eq_none_iff, keys, List.mem_map, not_exists] at h
  refine congrArg AuthorityManager.mk (List.filter_eq_self.mpr fun entry hentry => ?_)
  exact decide_eq_true fun heq => h entry ⟨hentry, heq⟩

theorem get_delete_self : (manager.delete key).get key = none := by
  simp [AuthorityManager.get, AuthorityManager.delete]

theorem get_delete_of_ne (h : key' ≠ key) : (manager.delete key).get key' = manager.get key' := by
  rw [AuthorityManager.get, AuthorityManager.delete, List.find?_filter, AuthorityManager.get]
  congr 2
  funext entry
  by_cases hkey : entry.1 = key'
  · simp [hkey, h]
  · simp [hkey]

theorem delete_delete : (manager.delete key).delete key' = (manager.delete key').delete key := by
  simp only [AuthorityManager.delete, List.filter_filter, Bool.and_comm]

theorem mem_keys_of_delete (h : key' ∈ keys (manager.delete key)) : key' ∈ keys manager :=
  (List.filter_sublist.map Prod.fst).subset h

theorem set_of_fresh (h : key ∉ keys manager) :
    manager.set key stored = ⟨manager.leases ++ [(key, stored)]⟩ := by
  rw [AuthorityManager.set, if_neg]
  simpa [keys] using h

theorem mem_keys_of_set (h : key' ∈ keys (manager.set key stored)) :
    key' = key ∨ key' ∈ keys manager := by
  rw [AuthorityManager.set] at h
  split at h
  · obtain ⟨entry, hentry, rfl⟩ := List.mem_map.mp h
    obtain ⟨old, hold, rfl⟩ := List.mem_map.mp hentry
    split
    · exact .inl rfl
    · exact .inr (List.mem_map_of_mem hold)
  · rw [keys, List.map_append, List.mem_append] at h
    rcases h with h | h
    · exact .inr h
    · exact .inl (List.mem_singleton.mp h)

theorem delete_set (h : key ∉ keys manager) (hne : key ≠ key') :
    (manager.set key stored).delete key' = (manager.delete key').set key stored := by
  rw [set_of_fresh h, set_of_fresh (mt mem_keys_of_delete h)]
  simp [AuthorityManager.delete, hne]

theorem delete_set_self (h : key ∉ keys manager) :
    (manager.set key stored).delete key = manager := by
  rw [set_of_fresh h]
  refine congrArg AuthorityManager.mk ?_
  rw [List.filter_append, show [(key, stored)].filter (·.1 ≠ key) = [] by simp, List.append_nil]
  exact congrArg AuthorityManager.leases (delete_of_get_eq_none (get_eq_none_iff.mpr h))

def dropIf (p : StoredLease → Bool) (key : String) (manager : AuthorityManager) :
    AuthorityManager :=
  if (manager.get key).any p then manager.delete key else manager

theorem mem_keys_of_dropIf {p : StoredLease → Bool} (h : key' ∈ keys (dropIf p key manager)) :
    key' ∈ keys manager := by
  rw [dropIf] at h
  split at h
  · exact mem_keys_of_delete h
  · exact h

theorem delete_dropIf (p : StoredLease → Bool) :
    (dropIf p key manager).delete key' = dropIf p key (manager.delete key') := by
  by_cases hkey : key = key'
  · subst hkey
    rw [dropIf, dropIf, get_delete_self, Option.any_none, if_neg Bool.false_ne_true]
    split
    · exact delete_of_get_eq_none get_delete_self
    · rfl
  · rw [dropIf, dropIf, get_delete_of_ne hkey]
    split
    · exact delete_delete
    · rfl

theorem lookup_eq_dropIf (digestLease : String → String) (leaseId : String) (nowMs : ℤ) : ∃ p : StoredLease → Bool,
    ∀ manager, (lookup digestLease leaseId nowMs manager).2 =
      dropIf p (digestLease leaseId) manager := by
  by_cases hblank : trimmed leaseId = ""
  · refine ⟨fun _ => false, fun manager => ?_⟩
    rw [lookup, requireLeaseKey, if_pos hblank, dropIf]
    cases manager.get (digestLease leaseId) <;> rfl
  · refine ⟨fun stored => decide (nowMs > stored.expiresAtMs), fun manager => ?_⟩
    rw [lookup, requireLeaseKey, if_neg hblank, dropIf]
    dsimp only
    cases hget : manager.get (digestLease leaseId) with
    | none => rfl
    | some stored => by_cases hexpired : nowMs > stored.expiresAtMs <;> simp [hexpired]

theorem endAuthority_eq_dropIf (digestLease : String → String) (leaseId : String) : ∃ p : StoredLease → Bool,
    ∀ manager, (endAuthority digestLease leaseId manager).2 =
      dropIf p (digestLease leaseId) manager := by
  by_cases hblank : trimmed leaseId = ""
  · refine ⟨fun _ => false, fun manager => ?_⟩
    rw [endAuthority, requireLeaseKey, if_pos hblank, dropIf]
    cases manager.get (digestLease leaseId) <;> rfl
  · refine ⟨fun _ => true, fun manager => ?_⟩
    rw [endAuthority, requireLeaseKey, if_neg hblank, dropIf]
    dsimp only
    cases manager.get (digestLease leaseId) <;> rfl

theorem leases_run (options : AuthorityManagerOptions) (digestLease : String → String)
    (call : OtherCall) :
    (∃ leaseId, call.draws = some leaseId ∧ ∃ stored : Option StoredLease, ∀ grants : Grants,
      (call.run options digestLease grants).leases =
        stored.elim grants.leases (grants.leases.set (digestLease leaseId))) ∨
    call.draws = none ∧ ∃ p key, ∀ grants : Grants,
      (call.run options digestLease grants).leases = dropIf p key grants.leases := by
  cases call with
  | authority host call nowMs =>
    cases call with
    | start request leaseId =>
      refine .inl ⟨leaseId, rfl, ?_⟩
      cases hroots : Authority.canonicalizeProjectRoots host (request.projectRoots.getD []) with
      | error error =>
        refine ⟨none, fun grants => ?_⟩
        simp [OtherCall.run, start, hroots, bind, Except.bind]
      | ok roots =>
        refine ⟨some (newLease options roots request.requestedTtlSeconds nowMs), fun grants => ?_⟩
        simp [OtherCall.run, start, hroots, bind, Except.bind, pure, Except.pure]
    | resolve leaseId =>
      obtain ⟨p, hp⟩ := lookup_eq_dropIf digestLease leaseId nowMs
      exact .inr ⟨rfl, p, _, fun grants => by rw [OtherCall.run, resolve_eq]; exact hp _⟩
    | status leaseId =>
      obtain ⟨p, hp⟩ := lookup_eq_dropIf digestLease leaseId nowMs
      exact .inr ⟨rfl, p, _, fun grants => by rw [OtherCall.run, status_eq]; exact hp _⟩
    | endAuthority leaseId =>
      obtain ⟨p, hp⟩ := endAuthority_eq_dropIf digestLease leaseId
      exact .inr ⟨rfl, p, _, fun grants => by rw [OtherCall.run]; exact hp _⟩
  | register leaseId context =>
    refine .inr ⟨rfl, fun _ => false, "", fun grants => ?_⟩
    rw [dropIf]
    cases grants.leases.get "" <;> rfl

theorem contexts_run (call : OtherCall) {grants grants' : Grants}
    (h : grants.contexts = grants'.contexts) :
    (call.run options digestLease grants).contexts =
      (call.run options digestLease grants').contexts := by
  cases call with
  | authority host call nowMs =>
    cases call with
    | start request leaseId =>
      cases hroots : Authority.canonicalizeProjectRoots host (request.projectRoots.getD []) <;>
        simpa [OtherCall.run, start, hroots, bind, Except.bind, pure, Except.pure] using h
    | resolve leaseId => rw [OtherCall.run, OtherCall.run, h]
    | status leaseId => rw [OtherCall.run, OtherCall.run, h]
    | endAuthority leaseId => rw [OtherCall.run, OtherCall.run, h]
  | register leaseId context => rw [OtherCall.run, OtherCall.run, h]

end Leases

/-! ## The conduct of a resume -/

/-- How far a resume has come. -/
inductive Stage where
  | before
  | leased (leaseId : String)
  | registered
  | ended

/-- A lease is registered at most once, and then it is not ended. -/
def resumeMonitor : Monitor ServiceOp ServiceOp.Res Stage where
  allowed
    | .before, .ask (.startLease _ _) => True
    | .leased leaseId, .ask (.registerResume leaseId' _) => leaseId' = leaseId
    | .leased leaseId, .ask (.endLease leaseId') => leaseId' = leaseId
    | _, .ask (.startLease _ _) | _, .ask (.registerResume _ _) | _, .ask (.endLease _) => False
    | _, _ => True
  answers _ _ _ := True
  next
    | .before, .ask (.startLease _ _), Except.ok lease => .leased lease.leaseId
    | .leased _, .ask (.registerResume _ _), Except.ok () => .registered
    | .leased _, .ask (.endLease _), _ => .ended
    | stage, _, _ => stage

def Stage.Clear : Stage → Prop
  | .before | .ended => True
  | _ => False

abbrev Conducts {α : Type} (p : ServiceM α) (post : Stage → Prop) (fail : Stage → Prop)
    (stage : Stage) : Prop :=
  p.Obeys resumeMonitor (fun _ => post) (fun _ => fail) stage

section Conduct

variable {α β : Type} {stage : Stage} {post fail : Stage → Prop}

theorem conducts_request {o : ServiceOp} {rest : o.Res → ServiceM α}
    (ho : resumeMonitor.allowed stage o) (hnext : ∀ r, resumeMonitor.next stage o r = stage)
    (h : ∀ r, Conducts (rest r) post fail stage) :
    Conducts (.request o rest) post fail stage :=
  ⟨ho, fun r _ => by rw [hnext]; exact h r⟩

theorem conducts_ofStore (p : StoreM α) : Conducts (ofStore p) (· = stage) (· = stage) stage := by
  unfold ofStore
  induction p with
  | pure a => rfl
  | throw e => rfl
  | request o rest ih =>
    refine conducts_request ?_ ?_ ih
    · cases stage <;> trivial
    · intro r
      cases stage <;> rfl

theorem conducts_verifyIdentity {worktreePath registeredAt : String}
    {expected : StoredWorktreeIdentity} {previous : ContinuityPublishedState} :
    Conducts (verifyIdentity worktreePath expected previous registeredAt) (· = .before)
      (· = .before) .before := by
  refine conducts_request trivial (fun _ => rfl) fun r => ?_
  cases r with
  | error errno => rfl
  | ok _ =>
    refine conducts_request trivial (fun _ => rfl) fun r => ?_
    cases r with
    | error error => rfl
    | ok current =>
      dsimp only
      split_ifs
      · rfl
      · rfl
      · refine conducts_request trivial (fun _ => rfl) fun r => ?_
        cases r <;> rfl

/-- The guarded part of `resume`. -/
def resumeBody (project : StoredProject) (inspection : ContinuityInspection)
    (lease : AuthorityLease) : ServiceM ProjectResumeResult :=
  .request (.ask (.packageBuilder project inspection)) fun
    | .error error => throw error
    | .ok packaged => do
      ofStore (updateOperationalState project.id inspection.localState inspection.published
        inspection.identity.canonicalPath)
      let context : ContinuityResumeContext :=
        { projectId := project.id
          aliasName := project.aliasName
          recordVersion := project.currentRecord.recordVersion
          canonicalWorktree := project.worktree.canonicalPath
          repositoryRoot := project.worktree.repositoryRoot
          repositoryIdentity := project.worktree.repositoryIdentity
          expiresAt := lease.expiresAt }
      .request (.ask (.registerResume lease.leaseId context)) fun
        | .error error => throw error
        | .ok () => do
          recordActiveAlias project.aliasName
          pure
            { projectId := project.id
              aliasName := project.aliasName
              recordVersion := project.currentRecord.recordVersion
              authorityLease := lease
              resumePackage := packaged }

def rollback (lease : AuthorityLease) (error : AppError) : ServiceM ProjectResumeResult :=
  .request (.ask (.endLease lease.leaseId)) fun ended =>
    .request (.ask .flushAudit) fun () =>
      match ended with
      | .ok () => throw error
      | .error rollbackError =>
        if rollbackError.code = "AUTHORITY_REQUIRED" then throw error
        else throw (.other "AggregateError"
          "Project resume failed and fresh authority rollback also failed.")

theorem resumeWithLease_eq (project : StoredProject) (inspection : ContinuityInspection)
    (lease : AuthorityLease) : resumeWithLease project inspection lease =
      (resumeBody project inspection lease).tryCatch (rollback lease) := rfl

theorem conducts_resumeBody {project : StoredProject} {inspection : ContinuityInspection}
    {lease : AuthorityLease} : Conducts (resumeBody project inspection lease) (· = .registered)
      (· = .leased lease.leaseId) (.leased lease.leaseId) := by
  refine conducts_request trivial (fun _ => rfl) fun r => ?_
  cases r with
  | error error => rfl
  | ok packaged =>
    refine .bind ((conducts_ofStore _).mono ?_ fun _ _ h => h)
    rintro ⟨⟩ _ rfl
    refine ⟨rfl, fun r _ => ?_⟩
    cases r with
    | error error => rfl
    | ok done => exact conducts_request trivial (fun _ => rfl) fun _ => rfl

theorem conducts_rollback {lease : AuthorityLease} {error : AppError} :
    Conducts (rollback lease error) (· = .registered) Stage.Clear (.leased lease.leaseId) := by
  refine ⟨rfl, fun ended _ => conducts_request trivial (fun _ => rfl) fun _ => ?_⟩
  cases ended with
  | ok done => trivial
  | error rollbackError =>
    dsimp only
    split_ifs <;> trivial

theorem conducts_canonicalizeProjectRoots {roots : List String} :
    Conducts (canonicalizeProjectRoots roots) (· = .before) (· = .before) .before :=
  conducts_request trivial (fun _ => rfl) fun r => by cases r <;> rfl

theorem conducts_resumeProject (unicode : CharacterDatabase) (input : ProjectResumeInput) :
    Conducts (resumeProject unicode input) (· = .registered) Stage.Clear .before := by
  have hclear : ∀ (e : AppError) (stage : Stage), stage = .before → stage.Clear := by
    rintro e _ rfl
    trivial
  refine .bind ((conducts_ofStore _).mono ?_ hclear)
  rintro project _ rfl
  refine .bind (conducts_canonicalizeProjectRoots.mono ?_ hclear)
  rintro roots _ rfl
  split
  · trivial
  · refine .bind (conducts_verifyIdentity.mono ?_ hclear)
    rintro inspection _ rfl
    refine ⟨trivial, fun r _ => ?_⟩
    cases r with
    | error error => trivial
    | ok lease =>
      show Conducts (resumeWithLease project inspection lease) _ _ (.leased lease.leaseId)
      rw [resumeWithLease_eq]
      refine .tryCatch (conducts_resumeBody.mono (fun _ _ h => h) ?_)
      rintro error _ rfl
      exact conducts_rollback

end Conduct

/-! ## What the steps keep -/

section Runs

open Authority

variable {options : AuthorityManagerOptions} {digestLease : String → String}
  {pathText : AbsPath → String} {isoDate : ℤ → String} {grants alone : Grants}
  {drawn : List String} {stage : Stage}

/-- Apart from its own lease, a resume has changed nothing. -/
def Kept (digestLease : String → String) (grants alone : Grants) (drawn : List String) :
    Stage → Prop
  | .before | .ended => grants = alone
  | .leased leaseId =>
    IsLeaseId leaseId ∧ digestLease leaseId ∈ drawn ∧
      grants.leases.delete (digestLease leaseId) = alone.leases ∧ grants.contexts = alone.contexts
  | .registered => True

theorem Kept.other {call : OtherCall} (h : Kept digestLease grants alone drawn stage)
    (hgrants : ∀ key ∈ keys grants.leases, key ∈ drawn)
    (hdraws : ∀ leaseId, call.draws = some leaseId → digestLease leaseId ∉ drawn) :
    Kept digestLease (call.run options digestLease grants) (call.run options digestLease alone)
      (call.draws.toList.map digestLease ++ drawn) stage := by
  cases stage with
  | before => exact congrArg (OtherCall.run options digestLease · call) h
  | ended => exact congrArg (OtherCall.run options digestLease · call) h
  | registered => trivial
  | leased own =>
    obtain ⟨hid, howns, hleases, hcontexts⟩ := h
    refine ⟨hid, List.mem_append_right _ howns, ?_, contexts_run call hcontexts⟩
    rcases leases_run options digestLease call with
      ⟨leaseId, hdraw, stored, hrun⟩ | ⟨-, p, key, hrun⟩
    · rw [hrun, hrun, ← hleases]
      have hfresh := hdraws leaseId hdraw
      cases stored with
      | none => rfl
      | some stored =>
        exact delete_set (mt (hgrants _) hfresh) fun heq => hfresh (heq ▸ howns)
    · rw [hrun, hrun, ← hleases, delete_dropIf]

theorem mem_drawn_other {call : OtherCall} (h : ∀ key ∈ keys grants.leases, key ∈ drawn) :
    ∀ key ∈ keys (call.run options digestLease grants).leases,
      key ∈ call.draws.toList.map digestLease ++ drawn := by
  intro key hkey
  rcases leases_run options digestLease call with
    ⟨leaseId, hdraw, stored, hrun⟩ | ⟨-, p, key', hrun⟩
  · rw [hrun] at hkey
    rw [hdraw]
    cases stored with
    | none => exact List.mem_cons_of_mem _ (h key hkey)
    | some stored =>
      rcases mem_keys_of_set hkey with rfl | hkey
      · exact List.mem_cons_self
      · exact List.mem_cons_of_mem _ (h key hkey)
  · rw [hrun] at hkey
    exact List.mem_append_right _ (h key (mem_keys_of_dropIf hkey))

theorem start_cases (host : Host) (request : StartAuthorityRequest) (leaseId : String) (nowMs : ℤ)
    (manager : AuthorityManager) :
    (∃ error, start host options digestLease request leaseId nowMs manager = .error error) ∨
      ∃ view stored, start host options digestLease request leaseId nowMs manager =
        .ok (view, manager.set (digestLease leaseId) stored) ∧ view.leaseId = leaseId := by
  rw [start]
  cases Authority.canonicalizeProjectRoots host (request.projectRoots.getD []) with
  | error error => exact .inl ⟨error, rfl⟩
  | ok roots => exact .inr ⟨_, _, rfl, rfl⟩

theorem endAuthority_own (digestLease : String → String) {leaseId : String}
    (manager : AuthorityManager) (hid : IsLeaseId leaseId) :
    ((endAuthority digestLease leaseId manager).1 = .ok () ∨
      (endAuthority digestLease leaseId manager).1 = .error authorityRequired) ∧
    (endAuthority digestLease leaseId manager).2 = manager.delete (digestLease leaseId) := by
  rw [endAuthority, requireLeaseKey, if_neg (trimmed_ne_empty hid)]
  dsimp only
  cases hget : manager.get (digestLease leaseId) with
  | none => exact ⟨.inr rfl, (delete_of_get_eq_none hget).symm⟩
  | some stored => exact ⟨.inl rfl, rfl⟩

theorem registerContext_own {leaseId : String} (hid : IsLeaseId leaseId)
    (context : ContinuityResumeContext) (registry : ContinuityResumeRegistry) :
    (registerContext digestLease leaseId context registry).1 = .ok () := by
  rw [registerContext, leaseDigest, if_neg (trimmed_ne_empty hid)]

def LeaseEnded : Event ServiceOp ServiceOp.Res → Prop
  | ⟨.ask (.endLease _), answer⟩ =>
    answer = Except.ok () ∨ answer = Except.error authorityRequired
  | _ => True

theorem Kept.own {o : ServiceOp} (options : AuthorityManagerOptions)
    (pathText : AbsPath → String) (isoDate : ℤ → String) (choice : ResumeChoice)
    (h : Kept digestLease grants alone drawn stage) (ho : resumeMonitor.allowed stage o)
    (hgrants : ∀ key ∈ keys grants.leases, key ∈ drawn)
    (hdraws : ∀ leaseId, choice.draws o = some leaseId →
      IsLeaseId leaseId ∧ digestLease leaseId ∉ drawn) :
    Kept digestLease (serve options digestLease pathText isoDate choice o grants).2 alone
      ((choice.draws o).toList.map digestLease ++ drawn)
      (resumeMonitor.next stage o
        (serve options digestLease pathText isoDate choice o grants).1) ∧
    LeaseEnded ⟨o, (serve options digestLease pathText isoDate choice o grants).1⟩ ∧
    ∀ key ∈ keys (serve options digestLease pathText isoDate choice o grants).2.leases,
      key ∈ (choice.draws o).toList.map digestLease ++ drawn := by
  cases o with
  | store o =>
    refine ⟨?_, trivial, hgrants⟩
    cases stage <;> exact h
  | ask query =>
    cases query with
    | startLease roots requestedTtlSeconds =>
      cases stage with
      | leased | registered | ended => exact ho.elim
      | before =>
        obtain ⟨hid, hfresh⟩ := hdraws choice.leaseId rfl
        obtain rfl : grants = alone := h
        rw [serve]
        rcases start_cases choice.host ⟨some roots, requestedTtlSeconds.map Nat.cast⟩ choice.leaseId
          choice.nowMs grants.leases with ⟨error, hstart⟩ | ⟨view, stored, hstart, hview⟩
        · rw [hstart]
          exact ⟨rfl, trivial, fun key hkey => List.mem_cons_of_mem _ (hgrants key hkey)⟩
        · rw [hstart]
          refine ⟨⟨hview ▸ hid, ?_, ?_, rfl⟩, trivial, fun key hkey => ?_⟩
          · rw [hview]
            exact List.mem_cons_self
          · rw [hview]
            exact delete_set_self (mt (hgrants _) hfresh)
          · rcases mem_keys_of_set hkey with rfl | hkey
            · exact List.mem_cons_self
            · exact List.mem_cons_of_mem _ (hgrants key hkey)
    | endLease leaseId =>
      cases stage with
      | before | registered | ended => exact ho.elim
      | leased own =>
        obtain rfl : leaseId = own := ho
        obtain ⟨hid, -, hleases, hcontexts⟩ := h
        obtain ⟨hanswer, hend⟩ := endAuthority_own digestLease grants.leases hid
        rw [serve]
        refine ⟨?_, hanswer, fun key hkey => hgrants key (mem_keys_of_delete (hend ▸ hkey))⟩
        show ({ grants with leases := _ } : Grants) = alone
        rw [hend, hleases, hcontexts]
    | registerResume leaseId context =>
      cases stage with
      | before | registered | ended => exact ho.elim
      | leased own =>
        obtain rfl : leaseId = own := ho
        rw [serve]
        refine ⟨?_, trivial, hgrants⟩
        dsimp only
        rw [registerContext_own h.1]
        trivial
    | canonicalizeProjectRoots | realpath | inspect | gitDirectory | resolveLease | flushAudit
    | packageBuilder | onActive =>
      refine ⟨?_, trivial, hgrants⟩
      cases stage <;> exact h

structure ResumeRun.Inv (digestLease : String → String) (start : ServiceM ProjectResumeResult)
    (s : ResumeRun) (stage : Stage) : Prop where
  conducts : Conducts s.program (· = .registered) Stage.Clear stage
  kept : Kept digestLease s.grants s.alone s.drawn stage
  drawn : ∀ key ∈ keys s.grants.leases, key ∈ s.drawn
  leads : start.Leads s.trace s.program
  answers : ∀ event ∈ s.trace, LeaseEnded event

theorem ResumeRun.inv_initial (unicode : CharacterDatabase) (input : ProjectResumeInput)
    (grants : Grants) : (ResumeRun.initial unicode input grants).Inv digestLease
      (resumeProject unicode input) .before where
  conducts := conducts_resumeProject unicode input
  kept := rfl
  drawn _ hkey := hkey
  leads := .refl
  answers _ hevent := absurd hevent List.not_mem_nil

theorem ResumeRun.inv_step {start : ServiceM ProjectResumeResult} {s s' : ResumeRun}
    {e : ResumeRun.Step} (h : s.Inv digestLease start stage)
    (hstep : step options digestLease pathText isoDate s e = some s') :
    ∃ stage', s'.Inv digestLease start stage' := by
  obtain ⟨hconducts, hkept, hdrawn, hleads, hanswers⟩ := h
  cases e with
  | proceed choice =>
    simp only [step] at hstep
    split at hstep
    next o rest hprogram =>
      split at hstep
      next hdrawable =>
        obtain rfl := Option.some.inj hstep
        rw [hprogram] at hconducts hleads
        obtain ⟨hkept', hended, hdrawn'⟩ := hkept.own options pathText isoDate choice
          hconducts.1 hdrawn fun leaseId hleaseId => by
            rw [hleaseId] at hdrawable
            exact hdrawable
        refine ⟨_, hconducts.2 _ trivial, hkept', hdrawn', hleads.step _, fun event hevent => ?_⟩
        rcases List.mem_append.mp hevent with hold | hnew
        · exact hanswers event hold
        · exact List.mem_singleton.mp hnew ▸ hended
      next => cases hstep
    next => cases hstep
  | other call =>
    simp only [step] at hstep
    split at hstep
    next hdrawable =>
      obtain rfl := Option.some.inj hstep
      refine ⟨stage, hconducts, hkept.other hdrawn fun leaseId hleaseId => ?_,
        mem_drawn_other hdrawn, hleads, hanswers⟩
      rw [hleaseId] at hdrawable
      exact hdrawable.2
    next => cases hstep

theorem ResumeRun.inv_run {start : ServiceM ProjectResumeResult} {s t : ResumeRun}
    (h : Machine.Run (step options digestLease pathText isoDate) (fun _ _ => True) s t)
    (hs : ∃ stage, s.Inv digestLease start stage) : ∃ stage, t.Inv digestLease start stage := by
  induction h with
  | refl => exact hs
  | step _ _ hstep ih =>
    obtain ⟨stage, ht⟩ := ih
    exact inv_step ht hstep

/-! ## The error -/

/-- Every error of `p` is one of `q`, after some of the steps. -/
def Originates {α : Type} (p q : ServiceM α) : Prop :=
  ∀ trace e, (∀ event ∈ trace, LeaseEnded event) → p.Runs trace (.error e) →
    ∃ trace', trace' <+: trace ∧ q.Runs trace' (.error e)

theorem Originates.refl {α : Type} (p : ServiceM α) : Originates p p :=
  fun trace _ _ h => ⟨trace, List.prefix_rfl, h⟩

theorem Originates.bind {α β : Type} {p : ServiceM β} {f g : β → ServiceM α}
    (h : ∀ b, Originates (f b) (g b)) : Originates (p.bind f) (p.bind g) := by
  intro trace e hanswers hrun
  rcases hrun.of_bind with ⟨e', hp, herror⟩ | ⟨b, before, after, hp, hf, rfl⟩
  · cases herror
    exact ⟨trace, List.prefix_rfl, hp.bind_error⟩
  · obtain ⟨after', hprefix, hg⟩ :=
      h b after e (fun event hevent => hanswers event (List.mem_append_right _ hevent)) hf
    exact ⟨before ++ after', (List.prefix_append_right_inj before).mpr hprefix, hp.bind hg⟩

theorem Originates.request {α : Type} {o : ServiceOp} {f g : o.Res → ServiceM α}
    (h : ∀ r, Originates (f r) (g r)) : Originates (.request o f) (.request o g) :=
  Originates.bind (p := Program.perform o) h

/-- `resume` without its `catch`. -/
def resumeSteps (unicode : CharacterDatabase) (input : ProjectResumeInput) :
    ServiceM ProjectResumeResult := do
  let project ← ofStore (getByAlias unicode input.aliasName)
  let revalidatedRoots ← canonicalizeProjectRoots project.roots
  if !sameCanonicalRootSet revalidatedRoots project.roots then
    throw (.authorityDenied "Stored Project roots no longer resolve to the registered root set.")
  else
    let inspection ← verifyIdentity project.worktree.canonicalPath project.worktree
      project.publishedState project.createdAt
    .request (.ask (.startLease revalidatedRoots input.requestedTtlSeconds)) fun
      | .error error => throw error
      | .ok lease => resumeBody project inspection lease

theorem error_of_rollback {lease : AuthorityLease} {error e : AppError}
    {trace : List (Event ServiceOp ServiceOp.Res)}
    (hanswers : ∀ event ∈ trace, LeaseEnded event)
    (h : (rollback lease error).Runs trace (.error e)) : e = error := by
  obtain ⟨ended, rest, rfl, hflush⟩ := h.of_request
  obtain ⟨_, rest, rfl, hthrow⟩ := hflush.of_request
  rcases hanswers _ List.mem_cons_self with rfl | rfl
  · exact Except.error.inj hthrow.of_throw.2
  · exact Except.error.inj hthrow.of_throw.2

theorem originates_resumeWithLease {project : StoredProject} {inspection : ContinuityInspection}
    {lease : AuthorityLease} : Originates (resumeWithLease project inspection lease)
      (resumeBody project inspection lease) := by
  intro trace e hanswers hrun
  rw [resumeWithLease_eq] at hrun
  obtain ⟨result, before, after, hbody, hrest, rfl⟩ := hrun.of_attempt_bind
  cases result with
  | ok value => cases hrest.of_pure.2
  | error error =>
    obtain rfl := error_of_rollback
      (fun event hevent => hanswers event (List.mem_append_right _ hevent)) hrest
    exact ⟨before, List.prefix_append _ _, hbody⟩

theorem originates_resumeProject (unicode : CharacterDatabase) (input : ProjectResumeInput) :
    Originates (resumeProject unicode input) (resumeSteps unicode input) := by
  refine .bind fun project => .bind fun roots => ?_
  split
  · exact .refl _
  · refine .bind fun inspection => .request fun r => ?_
    cases r with
    | error error => exact .refl _
    | ok lease => exact originates_resumeWithLease

/-! ## The theorem -/

/-- Whatever the steps of a resume answer and whatever other calls come between them: if it throws,
the leases and the registered contexts are what they would be without it, and the error is that of
the step that has failed. -/
theorem nothing_granted {unicode : CharacterDatabase} {input : ProjectResumeInput} {start : Grants}
    {s : ResumeRun} (h : Machine.Run (ResumeRun.step options digestLease pathText isoDate)
      (fun _ _ => True) (.initial unicode input start) s)
    {e : AppError} (hthrown : s.program = .throw e) :
    s.grants = s.alone ∧
      ∃ trace, trace <+: s.trace ∧ (resumeSteps unicode input).Runs trace (.error e) := by
  have hinv := ResumeRun.inv_run h ⟨.before, ResumeRun.inv_initial unicode input start⟩
  obtain ⟨stage, hconducts, hkept, -, hleads, hanswers⟩ := hinv
  rw [hthrown] at hconducts hleads
  refine ⟨?_, originates_resumeProject unicode input s.trace e hanswers
    (hleads.runs_of_outcome rfl)⟩
  cases stage with
  | before => exact hkept
  | ended => exact hkept
  | leased | registered => exact hconducts.elim

end Runs

section Example

def exampleWorktree : StoredWorktreeIdentity :=
  ⟨"/Users/owner/project", "/Users/owner/project", "/Users/owner/project/.git",
    "/Users/owner/project/.git", String.ofList (List.replicate 64 'a'),
    String.ofList (List.replicate 64 'b')⟩

def exampleInspection : ContinuityInspection :=
  let ref : RemoteRefState := ⟨.unverified, none, none, "now", none, none, some .notChecked⟩
  ⟨exampleWorktree, ⟨"now", none, String.ofList (List.replicate 40 'c'), [], [], [], false⟩,
    ⟨true, ref, ref⟩⟩

def exampleRows : ProjectRows where
  project := ⟨"id", "project", "project", ["/Users/owner/project"], 1, "then", "then"⟩
  worktree := ⟨"id", exampleWorktree, exampleInspection.localState, exampleInspection.published,
    "then", "/Users/owner/project"⟩
  record := ⟨"id", 1, ⟨⟨"goal", [], [], .active, "next", none, none, none, none⟩, [], [], []⟩,
    "then"⟩

def exampleCharacters : CharacterDatabase where
  decomposition c := [c]
  combiningClass _ := 0
  primaryComposite _ _ := none
  lowercase c := [c]
  cased _ := false
  caseIgnorable _ := false

def exampleAnswers : (o : ServiceOp) → o.Res
  | .store .isoDate => some "now"
  | .store (.selectByAlias _) => some exampleRows
  | .store (.selectRecord _ _) => none
  | .store (.register _ _ _) => Except.ok ()
  | .store (.rebind _ _) => Except.ok ()
  | .store (.checkpoint _ _) => Except.ok 1
  | .store (.updateState _ _ _ _) => Except.ok 1
  | .ask (.canonicalizeProjectRoots roots) => Except.ok roots
  | .ask (.realpath worktreePath) => Except.ok worktreePath
  | .ask (.inspect _ _) => Except.ok exampleInspection
  | .ask (.gitDirectory _ _) => Except.ok ()
  | .ask (.resolveLease _) => Except.ok []
  | .ask (.startLease _ _) => Except.error (.limit "")
  | .ask (.endLease _) => Except.ok ()
  | .ask .flushAudit => ()
  | .ask (.packageBuilder _ _) => Except.error (.limit "The resume package is too large.")
  | .ask (.registerResume _ _) => Except.ok ()
  | .ask (.onActive _) => Except.ok ()

def exampleStep : ResumeRun.Step :=
  .proceed ⟨exampleAnswers, Authority.exampleHost, Authority.exampleLease, 0⟩

def exampleOther : OtherCall :=
  .authority Authority.exampleHost
    (.start ⟨some ["/Users/owner/project"], none⟩ (String.ofList (List.replicate 43 'B'))) 0

theorem nothing_granted_example : ∃ s : ResumeRun,
    Machine.Run (ResumeRun.step Authority.exampleOptions id (fun _ => "") fun _ => "")
      (fun _ _ => True) (.initial exampleCharacters ⟨"project", none⟩ ⟨⟨[]⟩, ⟨[]⟩⟩) s ∧
    keys s.grants.leases = [String.ofList (List.replicate 43 'B')] ∧ s.grants = s.alone ∧
    ∃ trace, trace <+: s.trace ∧ (resumeSteps exampleCharacters ⟨"project", none⟩).Runs trace
      (.error (.limit "The resume package is too large.")) := by
  have hfinal : (Machine.follow
      (ResumeRun.step Authority.exampleOptions id (fun _ => "") fun _ => "")
      (List.replicate 6 exampleStep ++ .other exampleOther :: List.replicate 3 exampleStep)
      (.initial exampleCharacters ⟨"project", none⟩ ⟨⟨[]⟩, ⟨[]⟩⟩)).map
      (fun s => (keys s.grants.leases, s.program.thrown?)) =
      some ([String.ofList (List.replicate 43 'B')],
        some (.limit "The resume package is too large.")) := by
    decide +kernel
  obtain ⟨s, hs, hstate⟩ := Option.map_eq_some_iff.mp hfinal
  obtain ⟨hkeys, hprogram⟩ := Prod.mk.inj hstate
  have hrun := Machine.run_of_follow _ hs
  obtain ⟨program, grants, alone, drawn, trace⟩ := s
  cases program with
  | throw e =>
    obtain rfl := Option.some.inj hprogram
    exact ⟨_, hrun, hkeys, nothing_granted hrun rfl⟩
  | pure | request => cases hprogram

end Example

end Continuity
