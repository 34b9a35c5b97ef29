import ChatgptSystem.Git.ManagedWorktrees

/-!
# The registry of managed worktrees

`consistent_of_conforming` says when the worktrees and their registry stay together: `create`
that fails leaves no record, and nothing at all unless it asks for recovery; `remove` that fails
leaves both the worktree and its record, or neither.

* `Method`, `Ends`, `InTurn` — calls one after the other, with a condition on how the Git commands
  and the file operations of each are resolved;
* `Conforms`, `Known` — the conditions;
* `Together` — a worktree and its record are both there, or neither is;
* `record_left_behind` — `create` that fails after it has written its record.
-/

open Interleaving

namespace ManagedWorktreeService

variable (service : ManagedWorktreeService)

/-! ## Calls one after the other -/

inductive Method where
  | create (cwdInput branchInput : List Char)
  | status (worktreeId : String)
  | remove (worktreeId : String)

def program : Method → WorktreeM ManagedWorktreeView
  | .create cwdInput branchInput => service.create cwdInput branchInput
  | .status worktreeId => service.status worktreeId
  | .remove worktreeId => service.remove worktreeId

/-- The steps of a call whose commands and operations are resolved as permitted. -/
def worktreeExec (permit : WorktreeOp → WorktreeChoice → Prop) :
    Exec WorktreeOp (fun o => Except AppError o.Val) WorktreeState :=
  fun o s r s' => ∃ choice, permit o choice ∧ o.apply choice s = some (r, s')

/-- The method, running alone, returns or fails with the outcome. -/
def Ends (permit : Method → WorktreeOp → WorktreeChoice → Prop) (method : Method)
    (s : WorktreeState) (outcome : Except AppError ManagedWorktreeView) (s' : WorktreeState) :
    Prop :=
  ∃ p, Program.Steps (worktreeExec (permit method)) (service.program method, s) (p, s') ∧
    p.outcome? = some outcome

/-- Calls one after the other, each of which meets the condition `may` when it begins. -/
inductive InTurn (permit : Method → WorktreeOp → WorktreeChoice → Prop)
    (may : WorktreeState → Method → Prop) (start : WorktreeState) : WorktreeState → Prop where
  | refl : InTurn permit may start start
  | call {s s' : WorktreeState} {method : Method} {outcome : Except AppError ManagedWorktreeView}
      (h : InTurn permit may start s) (hmay : may s method)
      (hends : service.Ends permit method s outcome s') : InTurn permit may start s'

def HasWorktree (world : World) (worktreeId : String) : Prop :=
  isWorktreeId worktreeId = true ∧ ∃ repositoryFingerprint,
    world.worktrees (service.destination repositoryFingerprint worktreeId) = true

/-- The worktree and its record are both there, or neither is. -/
def Together (world : World) (worktreeId : String) : Prop :=
  (world.registry worktreeId).isSome = true ↔ service.HasWorktree world worktreeId

/-- What the Git commands and the file operations do in a call: `worktree add` that does not
succeed has done nothing, the worktree and the branch of a record that could not be written can be
removed, and `rev-parse HEAD` succeeds in the new worktree; `worktree remove` that does not succeed
has done nothing, and the record of a removed worktree can be deleted. -/
def Conforms : Method → WorktreeOp → WorktreeChoice → Prop
  | .create _ _, .worktreeAdd _ _ _, .ends result effect =>
    result.exitCode = 0 ∨ effect = ⟨false, false⟩
  | .create _ _, .worktreeAdd _ _ _, .rejects _ effect => effect = ⟨false, false⟩
  | .create _ _, .worktreeRemove _ _, .rejects _ _ => False
  | .create _ _, .branchDelete _ _, .ends result effect =>
    result.exitCode = 0 ∨ effect.branch = true
  | .create _ _, .branchDelete _ _, .rejects _ effect => effect.branch = true
  | .create _ _, .git _ .revParseHead, .ends result _ =>
    result.exitCode = 0 ∧ isHead (Text.trim result.stdout) = true
  | .create _ _, .git _ .revParseHead, .rejects _ _ => False
  | .remove _, .worktreeRemove _ _, .ends result effect =>
    result.exitCode = 0 ∨ effect.worktree = false
  | .remove _, .worktreeRemove _ _, .rejects _ effect => effect.worktree = false
  | .remove _, .unlinkRecord _, .rejects _ _ => False
  | _, _, _ => True

/-- A worktree to be removed is not one that `create` has left behind without a record. -/
def Known (s : WorktreeState) : Method → Prop
  | .remove worktreeId => service.HasWorktree s.world worktreeId →
      (s.world.registry worktreeId).isSome = true
  | _ => True

/-! ## Rules -/

section Rules

variable {permit : WorktreeOp → WorktreeChoice → Prop} {α β : Type} {s t : WorktreeState}
  {Q : α → WorktreeState → Prop} {E : AppError → WorktreeState → Prop}

/-- Running alone, the program ends in a state that meets `Q`, or fails in one that meets `E`. -/
abbrev Does (permit : WorktreeOp → WorktreeChoice → Prop) (p : WorktreeM α)
    (Q : α → WorktreeState → Prop) (E : AppError → WorktreeState → Prop) (s : WorktreeState) :
    Prop :=
  p.wp (worktreeExec permit) (.alone fun _ => True) () Q E s

theorem does_pure {a : α} (h : Q a s) : Does permit (.pure a) Q E s := by
  rintro t rfl -
  exact h

theorem does_throw {e : AppError} (h : E e s) : Does permit (.throw e) Q E s := by
  rintro t rfl -
  exact h

theorem does_bind {p : WorktreeM β} {f : β → WorktreeM α}
    (h : Does permit p (fun b => Does permit (f b) Q E) E s) : Does permit (p.bind f) Q E s :=
  Program.wp_bind trivial h

theorem does_request {o : WorktreeOp} {k : Except AppError o.Val → WorktreeM α}
    (h : ∀ r t, worktreeExec permit o s r t → Does permit (k r) Q E t) :
    Does permit (.request o k) Q E s := by
  rintro t rfl - r t' hx
  exact ⟨trivial, trivial, h r t' hx⟩

theorem does_ofExcept {outcome : Except AppError α} (hok : ∀ a, outcome = .ok a → Q a s)
    (herror : ∀ e, outcome = .error e → E e s) : Does permit (.ofExcept outcome) Q E s := by
  cases outcome with
  | ok a => exact does_pure (hok a rfl)
  | error e => exact does_throw (herror e rfl)

theorem does_call {o : WorktreeOp} {Q : o.Val → WorktreeState → Prop}
    (hok : ∀ a t, worktreeExec permit o s (.ok a) t → Q a t)
    (herror : ∀ e t, worktreeExec permit o s (.error e) t → E e t) :
    Does permit o.call Q E s := by
  refine does_request fun r t hx => ?_
  cases r with
  | ok a => exact does_pure (hok a t hx)
  | error e => exact does_throw (herror e t hx)

variable {p : WorktreeM α}

theorem does_mono {Q' : α → WorktreeState → Prop} {E' : AppError → WorktreeState → Prop}
    (h : Does permit p Q E s) (hQ : ∀ a t, Q a t → Q' a t) (hE : ∀ e t, E e t → E' e t) :
    Does permit p Q' E' s :=
  Program.wp_mono h (fun a t _ => hQ a t) fun e t _ => hE e t

theorem does_tryCatch {f : AppError → WorktreeM α}
    (h : Does permit p Q (fun e => Does permit (f e) Q E) s) :
    Does permit (p.tryCatch f) Q E s := by
  refine Program.wp_tryCatch trivial (does_mono h (fun a t hQ => ?_) fun _ _ hf => hf)
  rintro t' rfl -
  exact hQ

theorem does_tryFinally {f : WorktreeM Unit}
    (h : Does permit p (fun a => Does permit f (fun _ => Q a) E)
      (fun e => Does permit f (fun _ => E e) E) s) : Does permit (p.tryFinally f) Q E s := by
  refine Program.wp_tryFinally trivial (does_mono h (fun a t hf => ?_) fun e t hf => ?_)
  · refine does_mono hf (fun _ t hQ => ?_) fun _ _ hE => hE
    rintro t' rfl -
    exact hQ
  · refine does_mono hf (fun _ t hE => ?_) fun _ _ hE => hE
    rintro t' rfl -
    exact hE

/-- The commands and operations that change nothing. -/
def IsRead : WorktreeOp → Prop
  | .resolvePath _ | .realpath _ _ | .git _ _ | .isoDate | .mkdir | .syncTemporary _
  | .closeTemporary _ | .readRecord _ | .lstat _ => True
  | _ => False

theorem eq_of_orFails {choice : WorktreeChoice}
    {completed : Option (Except AppError α × WorktreeState)} {r : Except AppError α}
    (h : orFails choice s completed = some (r, t)) :
    completed = some (r, t) ∨ (∃ e, r = .error e) ∧ t = s := by
  unfold orFails at h
  split at h
  · exact .inl h
  · split at h
    · cases h
    · obtain ⟨rfl, rfl⟩ := Prod.mk.inj (Option.some.inj h)
      exact .inr ⟨⟨_, rfl⟩, rfl⟩
  · cases h

theorem eq_of_isRead {o : WorktreeOp} {r : Except AppError o.Val} (ho : IsRead o)
    (h : worktreeExec permit o s r t) : t = s := by
  obtain ⟨choice, -, h⟩ := h
  cases o with
  | resolvePath | realpath | git | isoDate => cases choice <;> cases h <;> rfl
  | mkdir | syncTemporary | closeTemporary =>
    rcases eq_of_orFails h with hdone | ⟨-, rfl⟩
    · exact (Prod.mk.inj (Option.some.inj hdone)).2.symm
    · rfl
  | readRecord worktreeId =>
    rcases eq_of_orFails h with hdone | ⟨-, rfl⟩
    · split at hdone
      · exact (Prod.mk.inj (Option.some.inj hdone)).2.symm
      · exact (Prod.mk.inj (Option.some.inj hdone)).2.symm
    · rfl
  | lstat path =>
    rcases eq_of_orFails h with hdone | ⟨-, rfl⟩
    · split at hdone
      · exact (Prod.mk.inj (Option.some.inj hdone)).2.symm
      · exact (Prod.mk.inj (Option.some.inj hdone)).2.symm
    · rfl
  | _ => exact ho.elim

theorem does_read (hp : p.Issues IsRead) : Does permit p (fun _ t => t = s) (fun _ t => t = s) s :=
  does_mono (Program.wp_of_still (A := (· = s)) (fun _ _ _ _ ho hx => eq_of_isRead ho hx)
    (fun _ => trivial) hp (fun _ _ ht hrely _ => hrely ▸ ht) rfl fun _ _ ht => ht)
    (fun _ _ h => h.2) fun _ _ h => h

end Rules

/-! ## Programs that only read -/

theorem issues_call {o : WorktreeOp} (ho : IsRead o) : o.call.Issues IsRead :=
  .request ho fun r => .ofExcept r

theorem issues_isDirty (worktreePath : String) (untracked : Bool) :
    (isDirty worktreePath untracked).Issues IsRead := by
  refine .bind (issues_call trivial) fun status => ?_
  split
  · exact .throw _
  · exact .pure _

theorem issues_head (worktreePath : String) : (head worktreePath).Issues IsRead := by
  refine .bind (issues_call trivial) fun result => ?_
  split
  · exact .throw _
  · exact .pure _

theorem issues_repository (cwdInput : List Char) :
    (service.repository cwdInput).Issues IsRead := by
  refine .bind (issues_call trivial) fun cwd => .bind (issues_call trivial) fun rootResult => ?_
  split
  · exact .throw _
  · refine .bind (issues_call trivial) fun repositoryRoot => .bind (issues_call trivial)
      fun canonicalRoot => .bind (issues_call trivial) fun commonResult => ?_
    split
    · exact .throw _
    · exact .bind (issues_call trivial) fun commonDir => .pure _

theorem issues_verifyRecord (record : ManagedWorktreeRecord) :
    (service.verifyRecord record).Issues IsRead := by
  refine .bind (.ofExcept _) fun _ => .bind (issues_call trivial) fun _ => ?_
  have hexists : (pathExists record.path).Issues IsRead := by
    refine .request trivial fun r => ?_
    cases r with
    | ok _ => exact .pure _
    | error e =>
      simp only
      split
      · exact .pure _
      · exact .throw _
  have hbranch : ∀ cwd, (currentBranch cwd).Issues IsRead := by
    intro cwd
    refine .bind (issues_call trivial) fun result => ?_
    split
    · exact .throw _
    · exact .ofExcept _
  refine .bind hexists fun found => ?_
  split
  · exact .throw _
  · refine .bind (issues_call trivial) fun commonResult => ?_
    split
    · exact .throw _
    · refine .bind (issues_call trivial) fun commonDir => ?_
      split
      · exact .throw _
      · refine .bind (hbranch _) fun branch => ?_
        split
        · exact .throw _
        · exact .bind (issues_head _) fun _ => .bind (issues_isDirty _ _) fun _ => .pure _

section Reading

variable {permit : WorktreeOp → WorktreeChoice → Prop} {s : WorktreeState} {worktreeId : String}

theorem does_loadRecord :
    Does permit (service.loadRecord worktreeId) (fun record t => t = s ∧
        isWorktreeId worktreeId = true ∧ record.worktreeId = worktreeId ∧
        s.world.registry worktreeId = some (.record record)) (fun _ t => t = s) s := by
  refine does_bind (does_ofExcept (fun name hname => ?_) fun _ _ => rfl)
  simp only [registryPath] at hname
  split at hname
  · cases hname
    refine does_bind (Program.wp_attempt (does_call (fun text t hx => ?_) fun e t hx => ?_))
    · obtain rfl := eq_of_isRead (o := .readRecord worktreeId) trivial hx
      have htext : t.world.registry worktreeId = some text := by
        obtain ⟨choice, -, hx⟩ := hx
        rcases eq_of_orFails hx with hdone | ⟨⟨e, he⟩, -⟩
        · split at hdone
          · cases hdone
          next hfound =>
            cases hdone
            exact hfound
        · cases he
      cases text with
      | malformed => exact does_throw rfl
      | record record =>
        simp only
        split
        · exact does_throw rfl
        · split
          · exact does_throw rfl
          next hvalid =>
            simp only [Bool.or_eq_true, not_or, decide_eq_true_eq, not_not] at hvalid
            exact does_pure ⟨rfl, ‹_›, hvalid.2, htext⟩
    · obtain rfl := eq_of_isRead (o := .readRecord worktreeId) trivial hx
      simp only
      split
      · exact does_throw rfl
      · exact does_throw rfl
  · cases hname

theorem does_status : Does permit (service.status worktreeId) (fun _ t => t = s)
    (fun _ t => t = s) s := by
  refine does_bind (does_mono service.does_loadRecord (fun record t h => ?_) fun _ _ h => h)
  obtain ⟨rfl, -⟩ := h
  refine does_bind (does_mono (does_read (service.issues_verifyRecord record))
    (fun verified t h => ?_) fun _ _ h => h)
  exact does_pure h

end Reading

/-! ## Writing a record -/

section Writing

variable {permit : WorktreeOp → WorktreeChoice → Prop} {s t : WorktreeState}

/-- The world is as it was, and no random text has been forgotten. -/
structure Unchanged (s t : WorktreeState) : Prop where
  world : t.world = s.world
  drawn : s.drawn ⊆ t.drawn

theorem Unchanged.refl (s : WorktreeState) : Unchanged s s := ⟨rfl, fun _ => id⟩

theorem Unchanged.trans {u : WorktreeState} (h : Unchanged s t) (h' : Unchanged t u) :
    Unchanged s u :=
  ⟨h'.world.trans h.world, fun _ hmem => h'.drawn (h.drawn hmem)⟩

/-- Making or writing a temporary file leaves the world as it is, and so does deleting one. -/
def IsTemporary : WorktreeOp → Prop
  | .openTemporary _ | .writeTemporary _ _ | .unlinkTemporary _ => True
  | _ => False

theorem unchanged_of_isTemporary {o : WorktreeOp} {r : Except AppError o.Val}
    (ho : IsTemporary o) (h : worktreeExec permit o s r t) : Unchanged s t := by
  obtain ⟨choice, -, h⟩ := h
  cases o with
  | openTemporary | writeTemporary =>
    rcases eq_of_orFails h with hdone | ⟨-, rfl⟩
    · obtain ⟨-, rfl⟩ := Prod.mk.inj (Option.some.inj hdone)
      exact ⟨rfl, fun _ => id⟩
    · exact .refl _
  | unlinkTemporary temp =>
    rcases eq_of_orFails h with hdone | ⟨-, rfl⟩
    · split at hdone
      · obtain ⟨-, rfl⟩ := Prod.mk.inj (Option.some.inj hdone)
        exact .refl _
      · obtain ⟨-, rfl⟩ := Prod.mk.inj (Option.some.inj hdone)
        exact ⟨rfl, fun _ => id⟩
    · exact .refl _
  | _ => exact ho.elim

theorem drawn_of_randomUUID {text : String}
    (h : worktreeExec permit .randomUUID s (.ok text) t) :
    text ∉ s.drawn ∧ isWorktreeId text = true ∧ t = { s with drawn := text :: s.drawn } := by
  obtain ⟨choice, -, h⟩ := h
  cases choice with
  | answers other =>
    simp only [WorktreeOp.apply] at h
    split at h
    · cases h
    next hfresh =>
      cases h
      rw [not_or, Bool.not_eq_false] at hfresh
      exact ⟨hfresh.1, hfresh.2, rfl⟩
  | _ => cases h

theorem not_error_randomUUID {e : AppError} (h : worktreeExec permit .randomUUID s (.error e) t) :
    False := by
  obtain ⟨choice, -, h⟩ := h
  cases choice with
  | answers other =>
    simp only [WorktreeOp.apply] at h
    split at h <;> cases h
  | _ => cases h

theorem world_of_rename {temp worktreeId : String} {r : Except AppError Unit}
    {text : RegistryText} (htemp : s.temporaries temp = some text)
    (h : worktreeExec permit (.rename temp worktreeId) s r t) :
    t.drawn = s.drawn ∧
      ((r = .ok () ∧ t.world = s.world.setRecord worktreeId (some text)) ∨
        ((∃ e, r = .error e) ∧ t.world = s.world)) := by
  obtain ⟨choice, -, h⟩ := h
  rcases eq_of_orFails h with hdone | ⟨herror, rfl⟩
  · rw [htemp] at hdone
    cases hdone
    exact ⟨rfl, .inl ⟨rfl, rfl⟩⟩
  · exact ⟨rfl, .inr ⟨herror, rfl⟩⟩

theorem does_safeUnlink_temporary (temp : String) :
    Does permit (safeUnlink (.unlinkTemporary temp)) (fun _ => Unchanged s)
      (fun _ => Unchanged s) s := by
  refine does_request fun r t hx => ?_
  have hsame := unchanged_of_isTemporary (o := .unlinkTemporary temp) trivial hx
  cases r with
  | ok _ => exact does_pure hsame
  | error e =>
    simp only
    split
    · exact does_pure hsame
    · exact does_throw hsame

theorem does_writeTemporary (temp : String) (record : ManagedWorktreeRecord) :
    Does permit (Program.tryFinally
        (do
          let _ : Unit ← (WorktreeOp.writeTemporary temp record).call
          let _ : Unit ← (WorktreeOp.syncTemporary temp).call
          return ())
        (WorktreeOp.closeTemporary temp).call)
      (fun _ t => Unchanged s t ∧ t.temporaries temp = some (.record record))
      (fun _ => Unchanged s) s := by
  have hclose : ∀ {Q : WorktreeState → Prop} {E : AppError → WorktreeState → Prop}
      {t : WorktreeState}, Q t → (∀ e, E e t) →
      Does permit (WorktreeOp.closeTemporary temp).call (fun _ => Q) E t := by
    intro Q E t hQ hE
    refine does_mono (does_read (issues_call trivial)) ?_ ?_
    · rintro _ _ rfl
      exact hQ
    · rintro e _ rfl
      exact hE e
  refine does_tryFinally (does_bind (does_call (fun _ t hx => ?_) fun _ t hx => ?_))
  · have hwrite := unchanged_of_isTemporary (o := .writeTemporary temp record) trivial hx
    have htemp : t.temporaries temp = some (.record record) := by
      obtain ⟨choice, -, hx⟩ := hx
      rcases eq_of_orFails hx with hdone | ⟨⟨e, he⟩, -⟩
      · cases hdone
        exact Function.update_self _ _ _
      · cases he
    refine does_bind (does_mono (does_read (issues_call trivial)) ?_ ?_)
    · rintro _ _ rfl
      exact does_pure (hclose ⟨hwrite, htemp⟩ fun _ => hwrite)
    · rintro _ _ rfl
      exact hclose hwrite fun _ => hwrite
  · have hwrite := unchanged_of_isTemporary (o := .writeTemporary temp record) trivial hx
    exact hclose hwrite fun _ => hwrite

theorem does_writeRecord (record : ManagedWorktreeRecord) :
    Does permit (writeRecord record)
      (fun _ t => t.world = s.world.setRecord record.worktreeId (some (.record record)) ∧
        s.drawn ⊆ t.drawn) (fun _ => Unchanged s) s := by
  refine does_bind (does_mono (does_read (issues_call trivial)) ?_ ?_)
  · rintro _ t rfl
    refine does_bind (does_ofExcept (fun name hname => ?_) fun _ _ => .refl t)
    obtain rfl : record.worktreeId = name := by
      simp only [registryPath] at hname
      split at hname
      · exact Except.ok.inj hname
      · cases hname
    refine does_bind (does_call (fun temp drawn hx => ?_)
      fun _ _ hx => (not_error_randomUUID hx).elim)
    obtain ⟨-, -, rfl⟩ := drawn_of_randomUUID hx
    have hdraw : Unchanged t { t with drawn := temp :: t.drawn } :=
      ⟨rfl, fun _ => List.mem_cons_of_mem _⟩
    refine does_bind (does_call (fun _ opened hx => ?_) fun _ _ hx =>
      hdraw.trans (unchanged_of_isTemporary (o := .openTemporary temp) trivial hx))
    have hopen := hdraw.trans (unchanged_of_isTemporary (o := .openTemporary temp) trivial hx)
    refine does_bind (does_mono (does_writeTemporary temp record) (fun _ written h => ?_)
      fun _ _ h => hopen.trans h)
    obtain ⟨hwritten, htemp⟩ := h
    have hsame := hopen.trans hwritten
    refine does_tryCatch (does_call (fun _ u hx => ?_) fun _ u hx => ?_)
    · obtain ⟨hdrawn, ⟨-, hworld⟩ | ⟨⟨_, he⟩, -⟩⟩ := world_of_rename htemp hx
      · exact ⟨by rw [hworld, hsame.world], hdrawn ▸ hsame.drawn⟩
      · cases he
    · obtain ⟨hdrawn, ⟨he, -⟩ | ⟨-, hworld⟩⟩ := world_of_rename htemp hx
      · cases he
      have hfailed : Unchanged t u := hsame.trans ⟨hworld, hdrawn ▸ fun _ => id⟩
      refine does_bind (does_mono (does_safeUnlink_temporary temp) (fun _ v hv => ?_)
        fun _ v hv => hfailed.trans hv)
      exact does_throw (hfailed.trans hv)
  · rintro _ t rfl
    exact .refl t

end Writing

/-! ## Creating a worktree -/

section Creating

variable {cwdInput branchInput branch : List Char} {repositoryRoot : String} {path : AbsPath}
  {world : World} {s t : WorktreeState}

theorem dropBranch_dropWorktree_add
    (hbranch : world.branches (world.repositoryOf repositoryRoot) branch = false)
    (hpath : world.worktrees path = false) :
    ((world.add repositoryRoot branch path ⟨true, true⟩).dropWorktree path).dropBranch
      repositoryRoot branch = world := by
  obtain ⟨worktrees, repositoryOf, branches, registry⟩ := world
  simp only at hbranch hpath
  simp only [World.add, World.dropWorktree, World.dropBranch, if_true, Function.update_idem,
    Function.update_self, World.mk.injEq, and_true, true_and]
  refine ⟨?_, ?_⟩
  · rw [← hpath, Function.update_eq_self]
  · rw [← hbranch, Function.update_eq_self, Function.update_eq_self]

variable {r : Except AppError GitResult}

theorem cases_of_worktreeAdd
    (h : worktreeExec (Conforms (.create cwdInput branchInput))
      (.worktreeAdd repositoryRoot branch path) s r t) :
    (∃ result, r = .ok result ∧ result.exitCode = 0 ∧
      s.world.branches (s.world.repositoryOf repositoryRoot) branch = false ∧
      s.world.worktrees path = false ∧
      t = { s with world := s.world.add repositoryRoot branch path ⟨true, true⟩ }) ∨
    ((∀ result, r = .ok result → result.exitCode ≠ 0) ∧ t = s) := by
  obtain ⟨choice, hconforms, h⟩ := h
  cases choice with
  | ends result effect =>
    simp only [WorktreeOp.apply] at h
    split at h
    next hzero =>
      split at h
      · cases h
      next hfree =>
        cases h
        rw [Bool.or_eq_true, not_or, Bool.not_eq_true, Bool.not_eq_true] at hfree
        exact .inl ⟨result, rfl, hzero, hfree.1, hfree.2, rfl⟩
    next hzero =>
      cases h
      obtain rfl : effect = ⟨false, false⟩ := hconforms.resolve_left hzero
      exact .inr ⟨fun _ heq => Except.ok.inj heq ▸ hzero, rfl⟩
  | rejects error effect =>
    cases h
    obtain rfl : effect = ⟨false, false⟩ := hconforms
    exact .inr ⟨nofun, rfl⟩
  | _ => cases h

theorem cases_of_worktreeRemove {permit : WorktreeOp → WorktreeChoice → Prop}
    (h : worktreeExec permit (.worktreeRemove repositoryRoot path) s r t) :
    (∃ result, r = .ok result ∧ result.exitCode = 0 ∧
        t = { s with world := s.world.dropWorktree path }) ∨
      (∃ result effect, r = .ok result ∧ result.exitCode ≠ 0 ∧
        permit (.worktreeRemove repositoryRoot path) (.ends result effect) ∧
        t = if effect.worktree then { s with world := s.world.dropWorktree path } else s) ∨
      ∃ e effect, r = .error e ∧
        permit (.worktreeRemove repositoryRoot path) (.rejects e effect) ∧
        t = if effect.worktree then { s with world := s.world.dropWorktree path } else s := by
  obtain ⟨choice, hpermit, h⟩ := h
  cases choice with
  | ends result effect =>
    simp only [WorktreeOp.apply] at h
    split at h
    next hzero =>
      split at h
      · cases h
        exact .inl ⟨result, rfl, hzero, rfl⟩
      · cases h
    next hzero =>
      cases h
      exact .inr (.inl ⟨result, effect, rfl, hzero, hpermit, rfl⟩)
  | rejects error effect =>
    cases h
    exact .inr (.inr ⟨error, effect, rfl, hpermit, rfl⟩)
  | _ => cases h

theorem eq_of_branchDelete
    (h : worktreeExec (Conforms (.create cwdInput branchInput))
      (.branchDelete repositoryRoot branch) s r t) :
    t = { s with world := s.world.dropBranch repositoryRoot branch } := by
  obtain ⟨choice, hconforms, h⟩ := h
  cases choice with
  | ends result effect =>
    have hgone : result.exitCode = 0 ∨ effect.branch = true := hconforms
    simp only [WorktreeOp.apply, if_pos hgone] at h
    cases h
    rfl
  | rejects error effect =>
    have hgone : effect.branch = true := hconforms
    simp only [WorktreeOp.apply, if_pos hgone] at h
    cases h
    rfl
  | _ => cases h

/-- What `create` leaves behind when it fails. -/
structure LeftByCreate (s : WorktreeState) (e : AppError) (t : WorktreeState) : Prop where
  registry : t.world.registry = s.world.registry
  restored : (∃ message, e = .recoveryRequired message) ∨ t.world = s.world
  worktrees : ∀ path, t.world.worktrees path = s.world.worktrees path ∨
    ∃ repositoryFingerprint worktreeId, worktreeId ∉ s.drawn ∧ isWorktreeId worktreeId = true ∧
      path = service.destination repositoryFingerprint worktreeId
  drawn : s.drawn ⊆ t.drawn

/-- What `create` has made when it returns. -/
structure MadeByCreate (s t : WorktreeState) : Prop where
  record : ∃ record : ManagedWorktreeRecord, record.worktreeId ∉ s.drawn ∧
    record.worktreeId ∈ t.drawn ∧ isWorktreeId record.worktreeId = true ∧
    record.path = service.destination record.repositoryFingerprint record.worktreeId ∧
    t.world.registry =
      Function.update s.world.registry record.worktreeId (some (.record record)) ∧
    t.world.worktrees = Function.update s.world.worktrees record.path true
  drawn : s.drawn ⊆ t.drawn

theorem leftByCreate_of_unchanged {e : AppError} (h : Unchanged s t) :
    service.LeftByCreate s e t where
  registry := by rw [h.world]
  restored := .inr h.world
  worktrees := fun path => .inl (by rw [h.world])
  drawn := h.drawn

/-- What the rollback leaves of a worktree that has been added to a world. -/
structure RolledBack (world : World) (path : AbsPath) (s : WorktreeState) (e : AppError)
    (t : WorktreeState) : Prop where
  registry : t.world.registry = world.registry
  restored : (∃ message, e = .recoveryRequired message) ∨ t.world = world
  worktrees : ∀ other, other ≠ path → t.world.worktrees other = world.worktrees other
  drawn : s.drawn ⊆ t.drawn

theorem does_rollback {error : AppError}
    (hbranch : world.branches (world.repositoryOf repositoryRoot) branch = false)
    (hpath : world.worktrees path = false)
    (hs : s.world = world.add repositoryRoot branch path ⟨true, true⟩) :
    Does (Conforms (.create cwdInput branchInput)) (rollback repositoryRoot branch path error)
      (fun _ _ => False) (RolledBack world path s) s := by
  have hothers : ∀ other, other ≠ path → s.world.worktrees other = world.worktrees other := by
    intro other hne
    rw [hs]
    simp only [World.add, if_true, Function.update_of_ne hne]
  have hdropped : ∀ other, other ≠ path →
      (s.world.dropWorktree path).worktrees other = world.worktrees other := by
    intro other hne
    simp only [World.dropWorktree, Function.update_of_ne hne, hothers other hne]
  refine does_bind (does_call (fun result removed hx => ?_) fun e removed hx => ?_)
  · rcases cases_of_worktreeRemove hx with ⟨result', heq, hzero, rfl⟩ |
      ⟨result', effect, heq, hzero, -, rfl⟩ | ⟨e, effect, heq, -⟩
    · obtain rfl := Except.ok.inj heq
      rw [if_neg (not_not.mpr hzero)]
      have hworld := dropBranch_dropWorktree_add hbranch hpath
      rw [← hs] at hworld
      have hrestored : ∀ e, RolledBack world path s e { s with
          world := (s.world.dropWorktree path).dropBranch repositoryRoot branch } := fun e =>
        ⟨by simp only [hworld], .inr hworld, fun other _ => by simp only [hworld], fun _ => id⟩
      refine does_bind (does_call (fun _ deleted hx => ?_) fun e deleted hx => ?_)
      · rw [eq_of_branchDelete hx]
        exact does_throw (hrestored _)
      · rw [eq_of_branchDelete hx]
        exact hrestored e
    · obtain rfl := Except.ok.inj heq
      rw [if_pos hzero]
      have hregistry : s.world.registry = world.registry := by
        rw [hs]
        rfl
      refine does_throw ⟨?_, .inl ⟨_, rfl⟩, fun other hne => ?_, ?_⟩
      · split <;> exact hregistry
      · split
        · exact hdropped other hne
        · exact hothers other hne
      · split <;> exact fun _ => id
    · cases heq
  · rcases cases_of_worktreeRemove hx with ⟨result', heq, -⟩ | ⟨result', effect, heq, -⟩ |
      ⟨e, effect, -, hconforms, -⟩
    · cases heq
    · cases heq
    · exact hconforms.elim

theorem does_head_create {worktreePath : String} :
    Does (Conforms (.create cwdInput branchInput)) (head worktreePath) (fun _ t => t = s)
      (fun _ _ => False) s := by
  refine does_bind (does_call (fun result t hx => ?_) fun e t hx => ?_)
  · obtain rfl := eq_of_isRead (o := .git worktreePath .revParseHead) trivial hx
    obtain ⟨choice, hconforms, hx⟩ := hx
    cases choice with
    | ends result' effect =>
      obtain ⟨hzero, hhead⟩ : result'.exitCode = 0 ∧ isHead (Text.trim result'.stdout) = true :=
        hconforms
      cases hx
      rw [if_neg (by simp [hzero, hhead])]
      exact does_pure rfl
    | rejects error effect => exact hconforms.elim
    | _ => cases hx
  · obtain ⟨choice, hconforms, hx⟩ := hx
    cases choice with
    | rejects error effect => exact hconforms.elim
    | _ => cases hx

theorem does_addWorktree (repository : Repository) (branch : List Char) :
    Does (Conforms (.create cwdInput branchInput)) (service.addWorktree repository branch)
      (fun _ => service.MadeByCreate s) (service.LeftByCreate s) s := by
  refine does_bind (does_call (fun worktreeId t hx => ?_)
    fun _ _ hx => (not_error_randomUUID hx).elim)
  obtain ⟨hfresh, hid, rfl⟩ := drawn_of_randomUUID hx
  have hdraw : Unchanged s { s with drawn := worktreeId :: s.drawn } :=
    ⟨rfl, fun _ => List.mem_cons_of_mem _⟩
  refine does_bind (does_mono (does_read (issues_call trivial)) ?_ ?_)
  swap
  · rintro e _ rfl
    exact service.leftByCreate_of_unchanged hdraw
  rintro _ _ rfl
  refine does_bind (does_call (fun result added hx => ?_) fun e added hx => ?_)
  swap
  · rcases cases_of_worktreeAdd hx with ⟨result, heq, -⟩ | ⟨-, rfl⟩
    · cases heq
    · exact service.leftByCreate_of_unchanged hdraw
  rcases cases_of_worktreeAdd hx with ⟨result', heq, hzero, hbranch, hpath, rfl⟩ | ⟨hfailed, rfl⟩
  swap
  · rw [if_pos (hfailed result rfl)]
    exact does_throw (service.leftByCreate_of_unchanged hdraw)
  obtain rfl := Except.ok.inj heq
  rw [if_neg (not_not.mpr hzero)]
  refine does_bind (does_call (fun createdAt t hx => ?_) fun e t hx => ?_)
  swap
  · obtain ⟨choice, -, hx⟩ := hx
    cases choice <;> cases hx
  obtain rfl := eq_of_isRead (o := .isoDate) trivial hx
  let record : ManagedWorktreeRecord :=
    { version := REGISTRY_VERSION, worktreeId, repositoryRoot := repository.repositoryRoot
      commonDir := repository.commonDir
      repositoryFingerprint := repository.repositoryFingerprint
      path := service.destination repository.repositoryFingerprint worktreeId, branch, createdAt }
  refine does_bind (does_tryCatch (does_mono (does_writeRecord record)
    (fun _ written hwritten => ?_) fun error failed hfailed => ?_))
  · obtain ⟨hworld, hdrawn⟩ := hwritten
    refine does_bind (does_mono does_head_create (fun head u hu => ?_) fun _ _ h => h.elim)
    obtain rfl := hu
    refine does_pure ⟨⟨record, hfresh, hdrawn List.mem_cons_self, hid, rfl, ?_, ?_⟩,
      fun _ hmem => hdrawn (List.mem_cons_of_mem _ hmem)⟩
    · rw [hworld]
      rfl
    · rw [hworld]
      rfl
  · refine does_mono (does_rollback hbranch hpath hfailed.world) (fun _ _ h => h.elim)
      fun e t h => ⟨h.registry, h.restored, fun path => ?_,
        fun _ hmem => h.drawn (hfailed.drawn (List.mem_cons_of_mem _ hmem))⟩
    by_cases hpath : path = service.destination repository.repositoryFingerprint worktreeId
    · exact .inr ⟨_, _, hfresh, hid, hpath⟩
    · exact .inl (h.worktrees path hpath)

theorem does_create : Does (Conforms (.create cwdInput branchInput))
    (service.create cwdInput branchInput) (fun _ => service.MadeByCreate s)
    (service.LeftByCreate s) s := by
  have hsame : ∀ e : AppError, service.LeftByCreate s e s := fun e =>
    service.leftByCreate_of_unchanged (.refl s)
  refine does_bind (does_ofExcept (fun branch _ => ?_) fun e _ => hsame e)
  refine does_bind (does_mono (does_read (service.issues_repository cwdInput)) ?_ ?_)
  swap
  · rintro e _ rfl
    exact hsame e
  rintro repository _ rfl
  refine does_bind (does_mono (does_read (issues_isDirty _ _)) ?_ ?_)
  swap
  · rintro e _ rfl
    exact hsame e
  rintro dirty _ rfl
  split
  · exact does_throw (hsame _)
  refine does_bind (does_mono (does_read (issues_call trivial)) ?_ ?_)
  swap
  · rintro e _ rfl
    exact hsame e
  rintro branchExists _ rfl
  split
  · exact does_throw (hsame _)
  split
  · exact does_throw (hsame _)
  · exact service.does_addWorktree repository branch

end Creating

/-! ## Removing a worktree -/

section Removing

variable {worktreeId : String} {s t : WorktreeState}

/-- What `remove` has removed when it returns. -/
structure Removed (worktreeId : String) (s t : WorktreeState) : Prop where
  record : ∃ record, s.world.registry worktreeId = some (.record record) ∧
    t.world.registry = Function.update s.world.registry worktreeId none ∧
    t.world.worktrees = Function.update s.world.worktrees record.path false
  drawn : t.drawn = s.drawn

theorem does_unlinkRecord :
    Does (Conforms (.remove worktreeId)) (safeUnlink (.unlinkRecord worktreeId))
      (fun _ t => t.drawn = s.drawn ∧ t.world.worktrees = s.world.worktrees ∧
        t.world.registry = Function.update s.world.registry worktreeId none)
      (fun _ _ => False) s := by
  refine does_request fun r t hx => ?_
  obtain ⟨choice, hconforms, hx⟩ := hx
  cases choice with
  | completes =>
    simp only [WorktreeOp.apply, orFails] at hx
    split at hx
    next hnone =>
      -- a record that is not there needs no removal
      cases hx
      refine does_pure ⟨rfl, rfl, ?_⟩
      rw [← hnone, Function.update_eq_self]
    next =>
      cases hx
      exact does_pure ⟨rfl, rfl, rfl⟩
  | rejects error effect => exact hconforms.elim
  | _ => cases hx

theorem does_remove : Does (Conforms (.remove worktreeId)) (service.remove worktreeId)
    (fun _ => Removed worktreeId s) (fun _ t => t = s) s := by
  refine does_bind (does_mono service.does_loadRecord (fun record t h => ?_) fun _ _ h => h)
  obtain ⟨rfl, hid, rfl, hrecord⟩ := h
  refine does_bind (does_mono (does_read (service.issues_verifyRecord record)) ?_
    fun _ _ h => h)
  rintro verified _ rfl
  split
  · exact does_throw rfl
  refine does_bind (does_call (fun result removed hx => ?_) fun e removed hx => ?_)
  · rcases cases_of_worktreeRemove hx with ⟨result', heq, hzero, rfl⟩ |
      ⟨result', effect, heq, hzero, hconforms, rfl⟩ | ⟨e, effect, heq, -⟩
    · obtain rfl := Except.ok.inj heq
      rw [if_neg (not_not.mpr hzero)]
      refine does_bind (does_ofExcept (fun name hname => ?_) fun e he => ?_)
      · obtain rfl : record.worktreeId = name := by
          rw [registryPath, if_pos hid] at hname
          exact Except.ok.inj hname
        refine does_bind (does_mono does_unlinkRecord (fun _ u hu => ?_) fun _ _ h => h.elim)
        obtain ⟨hdrawn, hworktrees, hregistry⟩ := hu
        exact does_pure ⟨⟨record, hrecord, hregistry, hworktrees⟩, hdrawn⟩
      · rw [registryPath, if_pos hid] at he
        cases he
    · obtain rfl := Except.ok.inj heq
      have hkept : effect.worktree = false := hconforms.resolve_left hzero
      rw [if_pos hzero, hkept]
      exact does_throw rfl
    · cases heq
  · rcases cases_of_worktreeRemove hx with ⟨result', heq, -⟩ | ⟨result', effect, heq, -⟩ |
      ⟨e, effect, -, hconforms, rfl⟩
    · cases heq
    · cases heq
    · have hkept : effect.worktree = false := hconforms
      rw [hkept]
      rfl

end Removing

/-! ## Records and their worktrees -/

section Pairs

variable {s t : WorktreeState} {worktreeId worktreeId' : String}

theorem resolve_append (base : AbsPath) (suffix suffix' : List (FileTree.Comp Name)) :
    Paths.resolve base (suffix ++ suffix') = Paths.resolve (Paths.resolve base suffix) suffix' :=
  List.foldl_append

theorem getLast?_destination (hid : isWorktreeId worktreeId = true)
    (repositoryFingerprint : String) :
    ((service.destination repositoryFingerprint worktreeId).getLast?.map Name.text) =
      some worktreeId := by
  obtain ⟨hlength, hall⟩ := Bool.and_eq_true_iff.mp hid
  have hlength' : worktreeId.toList.length = 36 := (of_decide_eq_true hlength).trans (by decide)
  have hslash : '/' ∉ worktreeId.toList := by
    intro hmem
    obtain ⟨i, hi, heq⟩ := List.mem_iff_getElem.mp hmem
    have hplace : i < uuidPlaces.length := by rw [hlength'] at hi; exact hi
    have hzip : i < (worktreeId.toList.zip uuidPlaces).length := by
      rw [List.length_zip]
      exact lt_min hi hplace
    have hfits := List.all_eq_true.mp hall _ (List.getElem_mem hzip)
    rw [List.getElem_zip, heq] at hfits
    have hnone : ∀ place ∈ uuidPlaces, fitsPlace '/' place = false := by decide
    exact Bool.false_ne_true ((hnone _ (List.getElem_mem hplace)).symm.trans hfits)
  have hname : IsName worktreeId := by
    refine ⟨?_, ?_, ?_, hslash⟩
    · rintro rfl
      simp at hlength'
    · rintro rfl
      simp at hlength'
    · rintro rfl
      simp at hlength'
  have hparse : Paths.parse worktreeId = [.name ⟨worktreeId, hname⟩] := by
    rw [Paths.parse, Paths.segments_name hslash, List.map_singleton, Paths.component]
    simp only [String.ofList_toList, hname, dif_pos]
  rw [destination, resolve_append, hparse]
  simp [Paths.resolve]

theorem destination_ne (hid : isWorktreeId worktreeId = true)
    (hid' : isWorktreeId worktreeId' = true) (hne : worktreeId ≠ worktreeId')
    (repositoryFingerprint repositoryFingerprint' : String) :
    service.destination repositoryFingerprint worktreeId ≠
      service.destination repositoryFingerprint' worktreeId' := by
  intro heq
  have hlast := service.getLast?_destination hid repositoryFingerprint
  rw [heq, service.getLast?_destination hid'] at hlast
  exact hne (Option.some.inj hlast).symm

def Paired (s : WorktreeState) : Prop :=
  ∀ worktreeId text, s.world.registry worktreeId = some text →
    isWorktreeId worktreeId = true ∧ worktreeId ∈ s.drawn ∧ ∃ record : ManagedWorktreeRecord,
      text = .record record ∧ record.worktreeId = worktreeId ∧
      record.path = service.destination record.repositoryFingerprint worktreeId ∧
      s.world.worktrees record.path = true

theorem Paired.together (h : service.Paired s)
    (hknown : service.HasWorktree s.world worktreeId →
      (s.world.registry worktreeId).isSome = true) : service.Together s.world worktreeId := by
  refine ⟨fun hrecord => ?_, hknown⟩
  obtain ⟨text, htext⟩ := Option.isSome_iff_exists.mp hrecord
  obtain ⟨hid, -, record, -, -, hpath, hworktree⟩ := h worktreeId text htext
  exact ⟨hid, record.repositoryFingerprint, hpath ▸ hworktree⟩

theorem Paired.leftByCreate {e : AppError} (h : service.Paired s)
    (hleft : service.LeftByCreate s e t) : service.Paired t := by
  intro worktreeId text htext
  rw [hleft.registry] at htext
  obtain ⟨hid, hdrawn, record, htext, hrecord, hpath, hworktree⟩ := h worktreeId text htext
  refine ⟨hid, hleft.drawn hdrawn, record, htext, hrecord, hpath, ?_⟩
  rcases hleft.worktrees record.path with hsame | ⟨fp, fresh, hfresh, hvalid, heq⟩
  · rw [hsame, hworktree]
  · have hne : worktreeId ≠ fresh := fun hsame => hfresh (hsame ▸ hdrawn)
    exact absurd (hpath.symm.trans heq) (service.destination_ne hid hvalid hne _ _)

theorem Paired.madeByCreate (h : service.Paired s) (hmade : service.MadeByCreate s t) :
    service.Paired t := by
  obtain ⟨new, hfresh, hdrawn, hvalid, hnew, hregistry, hworktrees⟩ := hmade.record
  intro worktreeId text htext
  rw [hregistry] at htext
  rw [hworktrees]
  by_cases heq : worktreeId = new.worktreeId
  · subst heq
    rw [Function.update_self] at htext
    exact ⟨hvalid, hdrawn, new, (Option.some.inj htext).symm, rfl, hnew,
      Function.update_self _ _ _⟩
  · rw [Function.update_of_ne heq] at htext
    obtain ⟨hid, hold, record, htext, hrecord, hpath, hworktree⟩ := h worktreeId text htext
    have hne : record.path ≠ new.path := by
      rw [hpath, hnew]
      exact service.destination_ne hid hvalid heq _ _
    exact ⟨hid, hmade.drawn hold, record, htext, hrecord, hpath, by
      rw [Function.update_of_ne hne, hworktree]⟩

theorem Paired.removed (h : service.Paired s) (hremoved : Removed worktreeId s t) :
    service.Paired t := by
  obtain ⟨old, hold, hregistry, hworktrees⟩ := hremoved.record
  obtain ⟨hvalid, -, _, hsame, -, hpath, -⟩ := h worktreeId _ hold
  obtain rfl := RegistryText.record.inj hsame
  intro other text htext
  rw [hregistry] at htext
  rw [hworktrees, hremoved.drawn]
  by_cases heq : other = worktreeId
  · subst heq
    rw [Function.update_self] at htext
    cases htext
  · rw [Function.update_of_ne heq] at htext
    obtain ⟨hid, hdrawn, record, htext, hrecord, hpath', hworktree⟩ := h other text htext
    have hne : record.path ≠ old.path := by
      rw [hpath, hpath']
      exact service.destination_ne hid hvalid heq _ _
    exact ⟨hid, hdrawn, record, htext, hrecord, hpath', by
      rw [Function.update_of_ne hne, hworktree]⟩

end Pairs

/-! ## Runs -/

section Runs

variable {start s s' : WorktreeState}

theorem outcome_of_ends {permit : WorktreeOp → WorktreeChoice → Prop}
    {p q : WorktreeM ManagedWorktreeView} {Q : ManagedWorktreeView → WorktreeState → Prop}
    {E : AppError → WorktreeState → Prop} (h : Does permit p Q E s)
    (hsteps : Program.Steps (worktreeExec permit) (p, s) (q, s')) :
    (∀ view, q.outcome? = some (.ok view) → Q view s') ∧
      ∀ e, q.outcome? = some (.error e) → E e s' := by
  obtain ⟨-, hq⟩ := Program.wp_steps hsteps trivial h
  cases q with
  | pure view =>
    have hdone : Q view s' := hq s' rfl trivial
    exact ⟨fun _ heq => Except.ok.inj (Option.some.inj heq) ▸ hdone, nofun⟩
  | throw e =>
    have hdone : E e s' := hq s' rfl trivial
    exact ⟨nofun, fun _ heq => Except.error.inj (Option.some.inj heq) ▸ hdone⟩
  | request o k => exact ⟨nofun, nofun⟩

theorem Paired.step {method : Method} {outcome : Except AppError ManagedWorktreeView}
    (h : service.Paired s) (hends : service.Ends Conforms method s outcome s') :
    service.Paired s' := by
  obtain ⟨q, hsteps, hq⟩ := hends
  cases method with
  | create cwdInput branchInput =>
    obtain ⟨hok, herror⟩ := outcome_of_ends service.does_create hsteps
    cases outcome with
    | ok view => exact h.madeByCreate service (hok view hq)
    | error e => exact h.leftByCreate service (herror e hq)
  | status worktreeId =>
    obtain ⟨hok, herror⟩ := outcome_of_ends service.does_status hsteps
    cases outcome with
    | ok view => exact hok view hq ▸ h
    | error e => exact herror e hq ▸ h
  | remove worktreeId =>
    obtain ⟨hok, herror⟩ := outcome_of_ends service.does_remove hsteps
    cases outcome with
    | ok view => exact h.removed service (hok view hq)
    | error e => exact herror e hq ▸ h

theorem paired_of_inTurn (hstart : ∀ worktreeId, start.world.registry worktreeId = none)
    (h : service.InTurn Conforms service.Known start s) : service.Paired s := by
  induction h with
  | refl =>
    intro worktreeId text htext
    rw [hstart] at htext
    cases htext
  | call _ _ hends ih => exact ih.step service hends

/-- From an empty registry on, whatever calls are made one after the other and however their Git
commands and file operations fail within the conditions: a `create` that fails leaves the registry
as it is, and all worktrees and branches unless it asks for recovery; a `remove` that fails leaves
both the worktree and its record, or neither. -/
theorem consistent_of_conforming (hstart : ∀ worktreeId, start.world.registry worktreeId = none)
    (h : service.InTurn Conforms service.Known start s) :
    (∀ cwdInput branchInput e s',
        service.Ends Conforms (.create cwdInput branchInput) s (.error e) s' →
        s'.world.registry = s.world.registry ∧
          ((∃ message, e = .recoveryRequired message) ∨ s'.world = s.world)) ∧
      ∀ worktreeId e s', service.Known s (.remove worktreeId) →
        service.Ends Conforms (.remove worktreeId) s (.error e) s' →
        service.Together s'.world worktreeId := by
  have hpaired := service.paired_of_inTurn hstart h
  refine ⟨fun cwdInput branchInput e s' hends => ?_, fun worktreeId e s' hknown hends => ?_⟩
  · obtain ⟨q, hsteps, hq⟩ := hends
    have hleft := (outcome_of_ends service.does_create hsteps).2 e hq
    exact ⟨hleft.registry, hleft.restored⟩
  · obtain ⟨q, hsteps, hq⟩ := hends
    obtain rfl := (outcome_of_ends service.does_remove hsteps).2 e hq
    exact hpaired.together service hknown

end Runs

/-! ## A record that is left behind -/

section Example

def exampleService : ManagedWorktreeService where
  managedRoot := []
  digest := fun _ => String.ofList (List.replicate 64 'a')
  byteLength := fun _ => 0

def emptyState : WorktreeState where
  world :=
    { worktrees := fun _ => false, repositoryOf := id, branches := fun _ _ => false
      registry := fun _ => none }
  temporaries := fun _ => none
  drawn := []

def quiet : PartialEffect := ⟨false, false⟩

def createChoices : List WorktreeChoice :=
  [.answers "/repo", .ends ⟨0, "/repo\n".toList⟩ quiet, .answers "/repo", .answers "/repo",
   .ends ⟨0, ".git\n".toList⟩ quiet, .answers "/repo/.git", .ends ⟨0, []⟩ quiet,
   .ends ⟨1, []⟩ quiet, .answers "11111111-1111-4111-8111-111111111111", .completes,
   .ends ⟨0, []⟩ quiet, .answers "2026-01-01T00:00:00.000Z", .completes,
   .answers "22222222-2222-4222-8222-222222222222", .completes, .completes, .completes,
   .completes, .completes]

/-- A check for the conditions on the commands of `create`. -/
def gentle : WorktreeOp → WorktreeChoice → Bool
  | .git _ .revParseHead, .ends result _ =>
    result.exitCode = 0 && isHead (Text.trim result.stdout)
  | .branchDelete _ _, .ends result _ => result.exitCode = 0
  | _, .ends result effect => result.exitCode = 0 || effect = quiet
  | _, .rejects _ _ => false
  | _, _ => true

theorem conforms_of_gentle {method : Method} {o : WorktreeOp} {choice : WorktreeChoice}
    (h : gentle o choice = true) : Conforms method o choice := by
  unfold Conforms
  split
  · rcases Bool.or_eq_true_iff.mp h with hzero | hquiet
    · exact .inl (of_decide_eq_true hzero)
    · exact .inr (of_decide_eq_true hquiet)
  · cases h
  · cases h
  · exact .inl (by simpa [gentle] using h)
  · cases h
  · simpa [gentle] using h
  · cases h
  · rcases Bool.or_eq_true_iff.mp h with hzero | hquiet
    · exact .inl (of_decide_eq_true hzero)
    · exact .inr (by rw [of_decide_eq_true hquiet]; rfl)
  · cases h
  · cases h
  · trivial

def followGently (choices : List WorktreeChoice) (p : WorktreeM ManagedWorktreeView) :
    Option (WorktreeM ManagedWorktreeView × WorktreeState) :=
  Program.follow (fun choice o s => if gentle o choice then o.apply choice s else none) choices
    (p, emptyState)

def created : Option (WorktreeM ManagedWorktreeView × WorktreeState) :=
  followGently (createChoices ++ [.ends ⟨0, List.replicate 40 'a'⟩ quiet])
    (exampleService.create ".".toList "feature".toList)

/-- The record of a worktree that has been created is in the registry, and a `create` or `remove`
that fails after it keeps to its promise. -/
theorem consistent_of_conforming_create : ∃ s view,
    exampleService.Ends Conforms (.create ".".toList "feature".toList) emptyState (.ok view) s ∧
      (s.world.registry view.worktreeId).isSome = true ∧
      ∀ e s', exampleService.Known s (.remove view.worktreeId) →
        exampleService.Ends Conforms (.remove view.worktreeId) s (.error e) s' →
        exampleService.Together s'.world view.worktreeId := by
  have hcheck : (created.any fun c => (c.1.outcome?.bind Except.toOption).any fun view =>
      (c.2.world.registry view.worktreeId).isSome) = true := by decide +kernel
  obtain ⟨⟨p, s⟩, hcreated, hcheck⟩ := (Option.any_eq_true _ _).mp hcheck
  obtain ⟨view, hoption, hcheck⟩ := (Option.any_eq_true _ _).mp hcheck
  obtain ⟨outcome, hview, hok⟩ := Option.bind_eq_some_iff.mp hoption
  cases outcome with
  | ok result =>
    obtain rfl := Option.some.inj hok
    have hends : exampleService.Ends Conforms (.create ".".toList "feature".toList) emptyState
        (.ok result) s := by
      refine ⟨p, Program.steps_of_follow (fun choice o s r s' h => ?_) _ (.refl _) hcreated, hview⟩
      split at h
      next hgentle => exact ⟨choice, conforms_of_gentle hgentle, h⟩
      next => cases h
    have hturn : exampleService.InTurn Conforms exampleService.Known emptyState s :=
      .call .refl (by trivial) hends
    exact ⟨s, result, hends, hcheck, fun e s' hknown hfailed =>
      (exampleService.consistent_of_conforming (fun _ => rfl) hturn).2 _ e s' hknown hfailed⟩
  | error => cases hok

/-- `rev-parse HEAD` fails in the new worktree: `create` throws, and its record stays in the
registry under an identifier that nobody has been told. -/
theorem record_left_behind : ∃ s,
    exampleService.Ends (fun _ _ _ => True) (.create ".".toList "feature".toList) emptyState
        (.error (.recoveryRequired "Managed worktree HEAD could not be verified.")) s ∧
      emptyState.world.registry "11111111-1111-4111-8111-111111111111" = none ∧
      (s.world.registry "11111111-1111-4111-8111-111111111111").isSome = true := by
  have hcheck : ((Program.follow (fun choice o s => WorktreeOp.apply choice o s)
      (createChoices ++ [.ends ⟨128, []⟩ quiet])
      (exampleService.create ".".toList "feature".toList, emptyState)).any fun c =>
        c.1.thrown? = some (.recoveryRequired "Managed worktree HEAD could not be verified.") &&
        (c.2.world.registry "11111111-1111-4111-8111-111111111111").isSome) = true := by
    decide +kernel
  obtain ⟨⟨p, s⟩, hfollow, hcheck⟩ := (Option.any_eq_true _ _).mp hcheck
  obtain ⟨hthrown, hrecord⟩ := Bool.and_eq_true_iff.mp hcheck
  obtain rfl := Program.eq_throw_of_thrown? (of_decide_eq_true hthrown)
  have hsteps : Program.Steps (worktreeExec fun _ _ => True)
      (exampleService.create ".".toList "feature".toList, emptyState) (.throw _, s) :=
    Program.steps_of_follow (fun choice o s r s' h => ⟨choice, trivial, h⟩) _ (.refl _) hfollow
  exact ⟨s, ⟨_, hsteps, rfl⟩, rfl, hrecord⟩

end Example

end ManagedWorktreeService
