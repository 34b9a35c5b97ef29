import ChatgptSystem.Foundations.Conduct
import ChatgptSystem.Fs.FsService

/-!
# What a call writes of what it has read

The content an operation writes, given the content that its reads of files return. Nothing is said
about the state of the file system: every other result of an operation is possible.

* `contentMonitor` — a call whose reads return one content and that writes what a predicate allows;
* `issues_resolve`, `issues_exists` — the parts of a call that only ask for paths;
* `obeys_locked`, `obeys_atomicWrite` — the rules of the parts that all calls share.
-/

open Interleaving

/-- The operations that ask for a path. -/
def FsOp.IsQuery : FsOp → Prop
  | .lstat _ | .realpath _ => True
  | _ => False

/-- Reads of files return the content `current`, and only contents that are `written` are written. -/
def contentMonitor (current : Bytes) (written : Bytes → Prop) : Monitor FsOp FsOp.Res Unit where
  allowed _ o := match o with
    | .writeFile _ content => written content
    | _ => True
  answers _ o r := match o, r with
    | .readFile _, .ok content => content = current
    | _, _ => True
  next _ _ _ := ()

section Queries

variable {D α β : Type} {p : FsM α} {current : Bytes} {written : Bytes → Prop}
  {Q : β → Unit → Prop} {E : AppError → Unit → Prop} {f : α → FsM β}

theorem issues_throwing {ok : FsOp → Prop} (r : Except Errno α) : (Fs.throwing r).Issues ok := by
  cases r with
  | ok a => exact .pure a
  | error e => exact .throw _

theorem issues_canonicalizePath (path : AbsPath) : (canonicalizePath path).Issues FsOp.IsQuery := by
  have hclimb : ∀ rev, (climb rev).Issues FsOp.IsQuery := by
    intro rev
    induction rev with
    | nil =>
      refine .tryCatch (.request trivial fun r => .bind (issues_throwing r) fun _ => .pure _)
        fun e => ?_
      split
      · exact .throw _
      · exact .throw _
    | cons n up ih =>
      refine .tryCatch (.request trivial fun r => .bind (issues_throwing r) fun _ => .pure _)
        fun e => ?_
      split
      · exact .throw _
      · exact ih
  exact .bind (hclimb _) fun _ => .bind (.request trivial issues_throwing) fun _ => .pure _

theorem issues_resolve (policy : PathPolicy) (input : String) :
    (policy.resolve input).Issues FsOp.IsQuery := by
  have hinside : ∀ key candidate roots,
      (PathPolicy.insideSome key candidate roots).Issues FsOp.IsQuery := by
    intro key candidate roots
    induction roots with
    | nil => exact .throw _
    | cons root rest ih =>
      refine .bind (issues_canonicalizePath root) fun _ => ?_
      split
      · exact .pure _
      · exact ih
  unfold PathPolicy.resolve
  split
  · exact .throw _
  dsimp only
  split
  · refine .bind (issues_canonicalizePath _) fun _ => .bind (issues_canonicalizePath _) fun _ => ?_
    split
    · exact .throw _
    · exact .pure _
  · exact .bind (issues_canonicalizePath _) fun _ => hinside _ _ _

theorem issues_exists (path : AbsPath) :
    (FileSystemService.exists path).Issues FsOp.IsQuery := by
  refine .tryCatch (.request trivial fun r => .bind (issues_throwing r) fun _ => .pure _) fun e => ?_
  split
  · exact .pure _
  · exact .throw _

theorem obeys_query (hp : p.Issues FsOp.IsQuery) :
    p.Obeys (contentMonitor current written) (fun _ _ => True) (fun _ _ => True) () := by
  induction hp with
  | pure a => exact trivial
  | throw e => exact trivial
  | @request o k ho hk ih =>
    cases o <;> first | exact ho.elim | exact ⟨trivial, fun r _ => ih r⟩

theorem obeys_query_bind (hp : p.Issues FsOp.IsQuery)
    (hf : ∀ a, (f a).Obeys (contentMonitor current written) Q E ()) (hE : ∀ e, E e ()) :
    (p.bind f).Obeys (contentMonitor current written) Q E () :=
  .bind ((obeys_query hp).mono (fun a _ _ => hf a) fun e _ _ => hE e)

theorem obeys_of_yields (hp : p.Issues FsOp.IsQuery) {a : α} (hyields : p.Yields a)
    (h : (p.bind f).Obeys (contentMonitor current written) Q E ()) :
    (f a).Obeys (contentMonitor current written) Q E () := by
  induction hyields with
  | pure a => exact h
  | @request o k a r _ ih =>
    cases hp with
    | request ho hk =>
      refine ih (hk r) (h.2 r ?_)
      cases o <;> first | exact ho.elim | trivial

theorem obeys_request {o : FsOp} {k : o.Res → FsM β}
    (hallowed : (contentMonitor current written).allowed () o)
    (hk : ∀ r, (k r).Obeys (contentMonitor current written) Q E ()) :
    (Program.request o k).Obeys (contentMonitor current written) Q E () :=
  ⟨hallowed, fun r _ => hk r⟩

end Queries

section Shared

variable {D α : Type} {current : Bytes} {written : Bytes → Prop} {Q : α → Unit → Prop}
  {operation : FsM α}

theorem obeys_locked (path : AbsPath)
    (h : operation.Obeys (contentMonitor current written) Q (fun _ _ => True) ()) :
    (withPathLock path operation).Obeys (contentMonitor current written) Q (fun _ _ => True) () := by
  refine obeys_query_bind (issues_canonicalizePath path) (fun key => ?_) fun _ => trivial
  refine obeys_request trivial fun r => obeys_request trivial fun _ => ?_
  refine .bind (.attempt (h.mono (fun a _ ha => ?_) fun e _ _ => ?_))
  · exact obeys_request trivial fun _ => obeys_request trivial fun _ => ha
  · exact obeys_request trivial fun _ => obeys_request trivial fun _ => trivial

theorem obeys_of_locked {path key : AbsPath} (hyields : (canonicalizePath path).Yields key)
    (h : (withPathLock path operation).Obeys (contentMonitor current written) Q
      (fun _ _ => True) ()) :
    operation.Obeys (contentMonitor current written) Q (fun _ _ => True) () := by
  have hlocked := obeys_of_yields (issues_canonicalizePath path) hyields h
  have hattempt := (hlocked.2 (none, 0) trivial).2 () trivial
  clear h hlocked
  dsimp only at hattempt
  induction operation with
  | pure a => exact (hattempt.2 () trivial).2 () trivial
  | throw e => trivial
  | request o k ih => exact ⟨hattempt.1, fun r hr => ih r (hattempt.2 r hr)⟩

theorem obeys_throwing {E : AppError → Unit → Prop} {r : Except Errno α} (hok : ∀ a, Q a ())
    (herror : ∀ e, E e ()) :
    (Fs.throwing r).Obeys (contentMonitor current written) Q E () := by
  cases r with
  | ok a => exact hok a
  | error e => exact herror _

theorem obeys_atomicWrite (service : FileSystemService D) (uuid : NamePart) (path : AbsPath)
    {buffer : Bytes} (mode : Option ℕ) (hbuffer : written buffer) :
    (service.atomicWrite uuid path buffer mode).Obeys (contentMonitor current written)
      (fun _ _ => True) (fun _ _ => True) () := by
  refine .bind (obeys_request trivial fun r => obeys_throwing (fun _ => ?_) fun _ => trivial)
  refine .bind (obeys_request trivial fun r => obeys_throwing (fun _ => ?_) fun _ => trivial)
  refine .bind (obeys_request hbuffer fun r => obeys_throwing (fun _ => ?_) fun _ => trivial)
  refine .tryCatch (obeys_request trivial fun r => obeys_throwing (fun _ => trivial) fun e => ?_)
  refine .bind (.tryCatch (obeys_request trivial fun r => obeys_throwing (fun _ => ?_) fun _ => ?_))
  · trivial
  · trivial

end Shared
