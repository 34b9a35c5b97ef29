import ChatgptSystem.Fs.PatchSetService

/-!
# File operations with faults

The file operations of the patch-set service on a disk of regular files, where any of them may fail,
and the rules for its programs.

* `Files`, `Files.Does` — the files of a disk, and what an operation does to them;
* `Keeps` — a program keeps an invariant, however it ends;
* `keeps_forEach`, `keeps_safeUnlink`, … — the rules of the loops and the parts.
-/

open Function Interleaving

/-- The contents of the regular files of a disk on which every directory exists. -/
abbrev Files : Type := AbsPath → Option Bytes

/-- An operation on a file fails if there is none, or for another reason if there are faults. -/
def Files.Fails (faults : Prop) (s : Files) (path : AbsPath) (e : Errno) : Prop :=
  e = .ENOENT ∧ s path = none ∨ faults ∧ e ≠ .ENOENT

/-- What a file operation may do. There are no links, and what is no file may be a directory. A write
that fails may have written anything. The locks do not touch the files. -/
def Files.Does (faults : Prop) : (o : FsOp) → Files → o.Res → Files → Prop
  | .readFile path, s, .ok content, t => s path = some content ∧ t = s
  | .lstat path, s, .ok info, t => ((∃ content mode, s path = some content ∧
      info = .file content.length mode) ∨ s path = none ∧ info = .directory) ∧ t = s
  | .realpath path, s, .ok canonical, t => canonical = path ∧ t = s
  | .readFile path, s, .error e, t | .lstat path, s, .error e, t
  | .realpath path, s, .error e, t | .unlink path, s, .error e, t
  | .rename path _, s, .error e, t | .rm path, s, .error e, t => s.Fails faults path e ∧ t = s
  | .mkdir _, s, .ok (), t => t = s
  | .mkdir _, s, .error _, t => faults ∧ t = s
  | .openWx path _, s, .ok (), t => s path = none ∧ t = update s path (some [])
  | .openWx path _, s, .error e, t => (e = .EEXIST ∧ s path ≠ none ∨ faults) ∧ t = s
  | .writeFile path content, s, .ok (), t => t = update s path (some content)
  | .writeFile path _, s, .error _, t => faults ∧ ∃ written, t = update s path (some written)
  | .rename source destination, s, .ok (), t => ∃ content, s source = some content ∧
      t = update (update s source none) destination (some content)
  | .unlink path, s, .ok (), t | .rm path, s, .ok (), t =>
    s path ≠ none ∧ t = update s path none
  | .enqueue _, s, _, t | .await _, s, _, t | .settle _, s, _, t | .forget _ _, s, _, t => t = s

/-- What an operation does when nothing goes wrong. -/
def Files.act : (o : FsOp) → Files → o.Res × Files
  | .readFile path, s => ((s path).elim (.error .ENOENT) .ok, s)
  | .lstat path, s => ((s path).elim (.error .ENOENT) fun content => .ok (.file content.length 0), s)
  | .realpath path, s => (.ok path, s)
  | .mkdir _, s => (.ok (), s)
  | .openWx path _, s =>
    if s path = none then (.ok (), update s path (some [])) else (.error .EEXIST, s)
  | .writeFile path content, s => (.ok (), update s path (some content))
  | .rename source destination, s => (s source).elim (.error .ENOENT, s) fun content =>
    (.ok (), update (update s source none) destination (some content))
  | .unlink path, s | .rm path, s =>
    if s path = none then (.error .ENOENT, s) else (.ok (), update s path none)
  | .enqueue _, s => ((none, 0), s)
  | .await _, s | .settle _, s | .forget _ _, s => ((), s)

theorem Files.does_act {faults : Prop} (o : FsOp) (s : Files) :
    Files.Does faults o s (s.act o).1 (s.act o).2 := by
  have hfails : ∀ {path}, s path = none → s.Fails faults path .ENOENT := fun h => .inl ⟨rfl, h⟩
  cases o <;> simp only [act]
  case readFile path =>
    cases h : s path with
    | none => exact ⟨hfails h, rfl⟩
    | some content => exact ⟨h, rfl⟩
  case lstat path =>
    cases h : s path with
    | none => exact ⟨hfails h, rfl⟩
    | some content => exact ⟨.inl ⟨content, 0, h, rfl⟩, rfl⟩
  case realpath => exact ⟨rfl, rfl⟩
  case rename source _ =>
    cases h : s source with
    | none => exact ⟨hfails h, rfl⟩
    | some content => exact ⟨content, h, rfl⟩
  case unlink | rm =>
    split
    next h => exact ⟨hfails h, rfl⟩
    next h => exact ⟨h, rfl⟩
  case openWx =>
    split
    next h => exact ⟨h, rfl⟩
    next h => exact ⟨.inl ⟨rfl, h⟩, rfl⟩
  all_goals rfl

/-- No program is blocked. -/
theorem Files.exists_steps {faults : Prop} {α : Type} (p : FsM α) (s : Files) :
    ∃ c t, Program.Steps (Files.Does faults) (p, s) (c, t) ∧ c.outcome?.isSome = true := by
  induction p generalizing s with
  | pure a => exact ⟨_, s, .refl _, rfl⟩
  | throw e => exact ⟨_, s, .refl _, rfl⟩
  | request o k ih =>
    obtain ⟨c, u, hsteps, hc⟩ := ih (s.act o).1 (s.act o).2
    exact ⟨c, u, .head (Files.does_act o s) hsteps, hc⟩

/-! ## Rules -/

variable {faults : Prop} {inv : Files → Prop} {α β : Type} {s : Files} {Q : α → Files → Prop}
  {E : AppError → Files → Prop}

/-- Running alone from a state that meets the invariant, the program keeps it, ends in a state
that meets `Q`, or fails in one that meets `E`. -/
def Keeps (faults : Prop) (inv : Files → Prop) (p : FsM α) (Q : α → Files → Prop)
    (E : AppError → Files → Prop) (s : Files) : Prop :=
  inv s → p.wp (Files.Does faults) (.alone inv) () Q E s

theorem keeps_pure {a : α} (h : Q a s) : Keeps faults inv (.pure a) Q E s := by
  rintro - t rfl -
  exact h

theorem keeps_throw {e : AppError} (h : E e s) : Keeps faults inv (.throw e) Q E s := by
  rintro - t rfl -
  exact h

theorem keeps_request {o : FsOp} {k : o.Res → FsM α}
    (h : ∀ r t, Files.Does faults o s r t → inv s → inv t ∧ Keeps faults inv (k r) Q E t) :
    Keeps faults inv (.request o k) Q E s := by
  rintro hs t rfl - r t' hx
  obtain ⟨ht, hk⟩ := h r t' hx hs
  exact ⟨ht, trivial, hk ht⟩

theorem keeps_bind {p : FsM β} {f : β → FsM α}
    (h : Keeps faults inv p (fun b => Keeps faults inv (f b) Q E) E s) :
    Keeps faults inv (p.bind f) Q E s := fun hs =>
  Program.wp_bind hs (Program.wp_mono (h hs) (fun _ _ ht hk => hk ht) fun _ _ _ he => he)

theorem keeps_mono {R : α → Files → Prop} {E' : AppError → Files → Prop} {p : FsM α}
    (h : Keeps faults inv p R E' s) (hQ : ∀ a t, R a t → Q a t) (hE : ∀ e t, E' e t → E e t) :
    Keeps faults inv p Q E s := fun hs =>
  Program.wp_mono (h hs) (fun a t _ => hQ a t) fun e t _ => hE e t

/-- One program after another. -/
theorem keeps_then {p : FsM β} {f : β → FsM α} {R : β → Files → Prop}
    (hp : Keeps faults inv p R E s) (hf : ∀ b t, R b t → Keeps faults inv (f b) Q E t) :
    Keeps faults inv (p.bind f) Q E s :=
  keeps_bind (keeps_mono hp hf fun _ _ he => he)

theorem keeps_tryCatch {p : FsM α} {f : AppError → FsM α}
    (h : Keeps faults inv p Q (fun e => Keeps faults inv (f e) Q E) s) :
    Keeps faults inv (p.tryCatch f) Q E s := by
  refine fun hs => Program.wp_tryCatch hs (Program.wp_mono (h hs) (fun a t _ hQ => ?_)
    fun _ _ ht hk => hk ht)
  rintro t' rfl -
  exact hQ

/-- A loop over items, of which `Done` says what a round has done for one and no other undoes. -/
theorem keeps_forEach {xs : List β} {body : β → FsM Unit} {Q : Unit → Files → Prop}
    (I : Files → Prop) (Done : β → Files → Prop) (hI : I s)
    (hstep : ∀ x ∈ xs, ∀ t, I t → Keeps faults inv (body x)
      (fun _ u => I u ∧ Done x u ∧ ∀ y ∈ xs, Done y t → Done y u) E t)
    (hdone : ∀ t, I t → (∀ x ∈ xs, Done x t) → Q () t) :
    Keeps faults inv (Program.forEach xs body) Q E s := by
  refine fun hs => Program.wp_forEach (fun rest t => rest ⊆ xs ∧ I t ∧ ∀ y ∈ xs, y ∈ rest ∨ Done y t)
    hs ⟨fun _ => id, hI, fun _ => .inl⟩ ?_ ?_
  · rintro x rest t ht ⟨hsub, hI, hleft⟩
    refine Program.wp_mono (hstep x (hsub List.mem_cons_self) t hI ht) ?_ fun _ _ _ h => h
    rintro _ u - ⟨hI, hx, hothers⟩
    refine ⟨fun _ h => hsub (List.mem_cons_of_mem _ h), hI, fun y hy => ?_⟩
    rcases hleft y hy with hmem | hdone
    · rcases List.mem_cons.mp hmem with rfl | hrest
      · exact .inr hx
      · exact .inl hrest
    · exact .inr (hothers y hy hdone)
  · rintro t t' ⟨-, hI, hleft⟩ rfl -
    exact hdone t hI fun y hy => (hleft y hy).resolve_left List.not_mem_nil

variable {service : PatchSetService} {path : AbsPath} {content : Bytes}

theorem keeps_safeUnlink {Q : Unit → Files → Prop} (ht : inv (update s path none))
    (hQ : Q () (update s path none)) (hE : faults → ∀ e, E e s) :
    Keeps faults inv (PatchSetService.safeUnlink path) Q E s := by
  refine keeps_tryCatch (keeps_request fun r t hx hs => ?_)
  cases r with
  | ok _ =>
    obtain ⟨-, rfl⟩ := hx
    exact ⟨ht, keeps_pure hQ⟩
  | error e =>
    obtain ⟨⟨rfl, hmissing⟩ | ⟨hf, hother⟩, rfl⟩ := hx
    · -- there is nothing to remove
      refine ⟨hs, keeps_throw ?_⟩
      rw [← hmissing, update_eq_self] at hQ
      exact keeps_pure hQ
    · refine ⟨hs, keeps_throw ?_⟩
      rw [if_pos (by simpa using hother)]
      exact keeps_throw (hE hf _)

theorem keeps_readRegularNoFollow {Q : Bytes × ℕ → Files → Prop} (h : s path = some content)
    (hQ : content.length ≤ service.maxReadBytes → ∀ mode, Q (content, mode) s)
    (hE : faults ∨ service.maxReadBytes < content.length → ∀ e, e ≠ .errno .ENOENT → E e s) :
    Keeps faults inv (service.readRegularNoFollow path) Q E s := by
  have hfails : ∀ {e}, s.Fails faults path e → E (.errno e) s := by
    rintro e (⟨-, hmissing⟩ | ⟨hf, hother⟩)
    · cases h.symm.trans hmissing
    · exact hE (.inl hf) _ (by simpa using hother)
  refine keeps_bind (keeps_request fun r t hx hs => ?_)
  cases r with
  | error e =>
    obtain ⟨he, rfl⟩ := hx
    exact ⟨hs, keeps_throw (hfails he)⟩
  | ok info =>
    obtain ⟨⟨read, mode, hread, rfl⟩ | ⟨hmissing, -⟩, rfl⟩ := hx
    rotate_left
    · cases h.symm.trans hmissing
    obtain rfl := Option.some.inj (h.symm.trans hread)
    refine ⟨hs, keeps_pure ?_⟩
    rw [if_neg (by simp), if_neg (by simp [Stats.isFile])]
    by_cases hlength : content.length > service.maxReadBytes
    · rw [Stats.size, if_pos hlength]
      exact keeps_throw (hE (.inr hlength) _ nofun)
    rw [Stats.size, if_neg hlength]
    refine keeps_bind (keeps_request fun r u hx hs => ?_)
    cases r with
    | error e =>
      obtain ⟨he, rfl⟩ := hx
      exact ⟨hs, keeps_throw (hfails he)⟩
    | ok read =>
      obtain ⟨hread, rfl⟩ := hx
      obtain rfl := Option.some.inj (h.symm.trans hread)
      exact ⟨hs, keeps_pure (keeps_pure (hQ (Nat.not_lt.mp hlength) _))⟩

theorem keeps_targetHash {Q : Option String → Files → Prop} (h : s path = some content)
    (hQ : Q (some (service.sha256 content)) s)
    (hE : faults ∨ service.maxReadBytes < content.length → ∀ e, E e s) :
    Keeps faults inv (service.targetHash path) Q E s := by
  refine keeps_tryCatch (keeps_bind (keeps_readRegularNoFollow h (fun _ _ => keeps_pure hQ) ?_))
  intro hf e hother
  rw [if_neg hother]
  exact keeps_throw (hE hf e)

theorem keeps_exists {Q : Bool → Files → Prop} (hyes : Q true s)
    (hno : s path = none → Q false s) (hE : faults → ∀ e, E e s) :
    Keeps faults inv (FileSystemService.exists path) Q E s := by
  refine keeps_tryCatch (keeps_bind (keeps_request fun r t hx hs => ?_))
  cases r with
  | ok info =>
    obtain ⟨-, rfl⟩ := hx
    exact ⟨hs, keeps_pure (keeps_pure hyes)⟩
  | error e =>
    obtain ⟨⟨rfl, h⟩ | ⟨hf, hother⟩, rfl⟩ := hx
    · exact ⟨hs, keeps_throw (keeps_pure (hno h))⟩
    · refine ⟨hs, keeps_throw ?_⟩
      rw [if_neg (by simpa using hother)]
      exact keeps_throw (hE hf _)

theorem keeps_openWx {mode : ℕ} {Q : Unit → Files → Prop} (ht : inv (update s path (some [])))
    (hQ : Q () (update s path (some []))) (hE : ∀ e, E e s) :
    Keeps faults inv (Fs.openWx path mode) Q E s := by
  refine keeps_request fun r t hx hs => ?_
  cases r with
  | ok _ =>
    obtain ⟨-, rfl⟩ := hx
    exact ⟨ht, keeps_pure hQ⟩
  | error e =>
    obtain ⟨-, rfl⟩ := hx
    exact ⟨hs, keeps_throw (hE _)⟩

theorem keeps_writeFile {Q : Unit → Files → Prop} (ht : ∀ written, inv (update s path (some written)))
    (hQ : Q () (update s path (some content)))
    (hE : ∀ e written, E e (update s path (some written))) :
    Keeps faults inv (Fs.writeFile path content) Q E s := by
  refine keeps_request fun r t hx _ => ?_
  cases r with
  | ok _ =>
    obtain rfl := hx
    exact ⟨ht _, keeps_pure hQ⟩
  | error e =>
    obtain ⟨-, written, rfl⟩ := hx
    exact ⟨ht written, keeps_throw (hE _ _)⟩

theorem keeps_rename {source destination : AbsPath} {Q : Unit → Files → Prop}
    (hQ : ∀ content t, s source = some content →
      t = update (update s source none) destination (some content) → inv t ∧ Q () t)
    (hE : faults ∨ s source = none → ∀ e, E e s) :
    Keeps faults inv (Fs.rename source destination) Q E s := by
  refine keeps_request fun r t hx hs => ?_
  cases r with
  | ok _ =>
    obtain ⟨content, h, rfl⟩ := hx
    exact ⟨(hQ content _ h rfl).1, keeps_pure (hQ content _ h rfl).2⟩
  | error e =>
    obtain ⟨h, rfl⟩ := hx
    exact ⟨hs, keeps_throw (hE (h.symm.imp (·.1) (·.2)) _)⟩
