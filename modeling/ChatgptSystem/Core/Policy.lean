import ChatgptSystem.Core.Text
import ChatgptSystem.Foundations.RelyGuarantee
import ChatgptSystem.Fs.FsOperations

/-!
# The path policy

`canonicalizePath` and `PathPolicy.resolve` of `core/policy.ts`, as programs of file-system
operations, and path confinement: in a tree that does not change meanwhile, an accepted path
denotes a location inside the location of an allowed root.

* `canonicalizePath`, `PathPolicy.resolve` — the functions of the source;
* `wp_canonicalizePath` — the canonical form of a path is the location it denotes;
* `PathPolicy.resolve_confined` — path confinement.
-/

open FileTree Interleaving

/-- The errors after which `nearestExistingAncestor` looks one directory up. -/
def isMissing : AppError → Bool
  | .errno .ENOENT | .errno .ENOTDIR => true
  | _ => false

/-- The loop of `nearestExistingAncestor`, on the names of `current` from the last one. -/
def climb : List Name → FsM AbsPath
  | [] => Program.tryCatch (do let _ ← Fs.lstat []; pure []) fun error =>
      if !isMissing error then throw error
      else throw (.policy "Could not find an existing ancestor for path.")
  | n :: up => Program.tryCatch (do let _ ← Fs.lstat (n :: up).reverse; pure (n :: up).reverse)
      fun error => if !isMissing error then throw error else climb up

def nearestExistingAncestor (candidate : AbsPath) : FsM AbsPath := climb candidate.reverse

def canonicalizePath (candidate : AbsPath) : FsM AbsPath := do
  let ancestor ← nearestExistingAncestor candidate
  let realAncestor ← Fs.realpath ancestor
  let suffix := Paths.relative ancestor candidate
  pure (if suffix = [] then realAncestor else Paths.resolve realAncestor suffix)

/-- The allowed roots: normalised absolute paths, at least one. -/
structure PathPolicy where
  roots : List AbsPath
  roots_ne_nil : roots ≠ []

namespace PathPolicy

def candidate (policy : PathPolicy) (input : String) : AbsPath :=
  if Paths.isAbsolute input then Paths.resolve [] (Paths.parse input)
  else Paths.resolve (policy.roots.head policy.roots_ne_nil) (Paths.parse input)

/-- The loop over the roots for a candidate that is lexically outside all of them. -/
def insideSome (canonicalCandidate candidate : AbsPath) : List AbsPath → FsM AbsPath
  | [] => throw (.policy "Path is outside all allowed roots. To work in another project folder, call session_authority_start with projectRoots set to that folder (or project_resume for a registered project); its roots are then allowed for later calls in this session.")
  | root :: rest => do
    let canonicalRoot ← canonicalizePath root
    if Paths.isInside canonicalRoot canonicalCandidate then pure candidate
    else insideSome canonicalCandidate candidate rest

def resolve (policy : PathPolicy) (input : String) : FsM AbsPath :=
  if (Text.trim input.toList).isEmpty then throw (.policy "Path must not be empty.")
  else
    let candidate := policy.candidate input
    match policy.roots.find? (Paths.isInside · candidate) with
    | some lexicalRoot => do
      let canonicalRoot ← canonicalizePath lexicalRoot
      let canonicalCandidate ← canonicalizePath candidate
      if !Paths.isInside canonicalRoot canonicalCandidate then
        throw (.policy "Path escapes an allowed root through a symlink.")
      else pure candidate
    | none => do
      let canonicalCandidate ← canonicalizePath candidate
      insideSome canonicalCandidate candidate policy.roots

/-- `display`: the path below the first root that contains it. -/
def display (policy : PathPolicy) (candidate : AbsPath) : List Char :=
  match policy.roots.find? (Paths.isInside · candidate) with
  | none => Paths.text candidate
  | some root =>
    let relative := Paths.relative root candidate
    if relative = [] then ['.'] else Paths.render relative

end PathPolicy

/-! ## Canonical forms -/

section Still

variable {ι : Type} {maxLinks : ℕ} {i : ι} {s : FsState ι} {α : Type}
  {Q : α → FsState ι → Prop} {E : AppError → FsState ι → Prop}

def still (s : FsState ι) : Protocol Unit (FsState ι) := .alone (· = s)

theorem wp_still_pure {a : α} (h : Q a s) :
    (Program.pure a : FsM α).wp (.ofFn (FsOp.apply maxLinks i)) (still s) () Q E s := by
  rintro t rfl -
  exact h

theorem wp_still_throw {e : AppError} (h : E e s) :
    (Program.throw e : FsM α).wp (.ofFn (FsOp.apply maxLinks i)) (still s) () Q E s := by
  rintro t rfl -
  exact h

theorem wp_still_request {o : FsOp} {k : o.Res → FsM α} {r : o.Res}
    (hread : FsOp.apply maxLinks i o s = some (r, s))
    (h : (k r).wp (.ofFn (FsOp.apply maxLinks i)) (still s) () Q E s) :
    (Program.request o k).wp (.ofFn (FsOp.apply maxLinks i)) (still s) () Q E s := by
  rintro t rfl - r' t' hx
  obtain ⟨rfl, rfl⟩ : r = r' ∧ s = t' := by
    simpa [Exec.ofFn, hread] using hx
  exact ⟨rfl, trivial, h⟩

theorem wp_still_throwing {r : Except Errno α} (hok : ∀ a, r = .ok a → Q a s)
    (herror : ∀ e, r = .error e → E (.errno e) s) :
    (Fs.throwing r).wp (.ofFn (FsOp.apply maxLinks i)) (still s) () Q E s := by
  cases r with
  | ok a => exact wp_still_pure (hok a rfl)
  | error e => exact wp_still_throw (herror e rfl)

/-- `anc` is the nearest existing ancestor of `path`: it exists, and unless it is `path` itself
the next name below it was not found. -/
def NearestAncestor (maxLinks : ℕ) (t : Tree Name FileData) (path anc : AbsPath) : Prop :=
  ∃ rest, path = anc ++ rest ∧ ∀ n below, rest = n :: below →
    ∃ e, FsOp.lstatTree maxLinks t (anc ++ [n]) = .error e ∧ (e = .ENOENT ∨ e = .ENOTDIR)

theorem missing_cases {e : Errno} (h : isMissing (.errno e) = true) :
    e = .ENOENT ∨ e = .ENOTDIR := by
  cases e <;> simp_all [isMissing]

theorem wp_climb (rev rest : List Name)
    (hrest : ∀ n below, rest = n :: below → ∃ e,
      FsOp.lstatTree maxLinks s.tree (rev.reverse ++ [n]) = .error e ∧
        (e = .ENOENT ∨ e = .ENOTDIR)) :
    (climb rev).wp (.ofFn (FsOp.apply maxLinks i)) (still s) ()
      (fun anc _ => NearestAncestor maxLinks s.tree (rev.reverse ++ rest) anc)
      (fun _ _ => True) s := by
  induction rev generalizing rest with
  | nil =>
    refine Program.wp_tryCatch rfl (Program.wp_bind rfl (wp_still_request rfl
      (wp_still_throwing ?_ ?_)))
    · intro _ _
      refine wp_still_pure ?_
      rintro t rfl -
      exact ⟨rest, by simp, by simpa using hrest⟩
    · intro e _
      show Program.wp _ _ _ _ _ (if _ then _ else _) s
      split
      · exact wp_still_throw trivial
      · exact wp_still_throw trivial
  | cons n up ih =>
    refine Program.wp_tryCatch rfl (Program.wp_bind rfl (wp_still_request rfl
      (wp_still_throwing ?_ ?_)))
    · intro _ _
      refine wp_still_pure ?_
      rintro t rfl -
      exact ⟨rest, by simp, hrest⟩
    · intro e he
      show Program.wp _ _ _ _ _ (if _ then _ else _) s
      split
      · exact wp_still_throw trivial
      next hmissing =>
        have hcases := missing_cases (by simpa using hmissing)
        have hup := ih (n :: rest) (by
          rintro m below ⟨rfl, rfl⟩
          exact ⟨e, by simpa using he, hcases⟩)
        simpa using hup

theorem denotes_of_nearestAncestor {t : Tree Name FileData} {path anc real : AbsPath}
    (hanc : NearestAncestor maxLinks t path anc)
    (hreal : FsOp.locate maxLinks t true anc = .ok real) :
    t.Denotes [] (path.map .name)
      (if Paths.relative anc path = [] then real
        else Paths.resolve real (Paths.relative anc path)) := by
  obtain ⟨rest, rfl, hrest⟩ := hanc
  obtain ⟨hdenotes, hresolved⟩ := FsOp.denotes_of_locate hreal
  rw [Paths.relative_append, Paths.resolve_names]
  cases rest with
  | nil => simpa using hdenotes
  | cons n below =>
    obtain ⟨e, hlstat, he⟩ := hrest n below rfl
    have hwalk := FsOp.walk_of_lstat_error hlstat he
    rw [List.map_append] at hwalk
    have hmissing := Tree.node_eq_none_of_walk t.root_dir hdenotes hresolved hwalk
    rw [if_neg (by simp), List.map_append]
    exact hdenotes.append (fun v hv => by rw [hmissing] at hv; cases hv) below

theorem wp_canonicalizePath (path : AbsPath) :
    (canonicalizePath path).wp (.ofFn (FsOp.apply maxLinks i)) (still s) ()
      (fun key _ => s.tree.Denotes [] (path.map .name) key) (fun _ _ => True) s := by
  have hclimb : (climb path.reverse).wp (.ofFn (FsOp.apply maxLinks i)) (still s) () _ _ s :=
    wp_climb path.reverse [] fun _ _ h => by cases h
  rw [List.reverse_reverse, List.append_nil] at hclimb
  refine Program.wp_bind rfl (Program.wp_mono hclimb ?_ fun _ _ _ _ => trivial)
  rintro anc t rfl hanc
  refine Program.wp_bind rfl (wp_still_request rfl (wp_still_throwing ?_ fun _ _ => trivial))
  intro real hreal
  exact wp_still_pure (denotes_of_nearestAncestor hanc hreal)

end Still

/-! ## Path confinement -/

section Confinement

variable {ι : Type} {maxLinks : ℕ} {i : ι} {s : FsState ι}

def Confined (t : Tree Name FileData) (roots : List AbsPath) (path : AbsPath) : Prop :=
  ∃ loc, t.Denotes [] (path.map .name) loc ∧ ∃ root ∈ roots, ∃ rootLoc,
    t.Denotes [] (root.map .name) rootLoc ∧ rootLoc <+: loc

theorem wp_insideSome {candidate canonicalCandidate : AbsPath} {all : List AbsPath} (roots : List AbsPath)
    (hroots : ∀ root ∈ roots, root ∈ all) :
    (PathPolicy.insideSome canonicalCandidate candidate roots).wp
      (.ofFn (FsOp.apply maxLinks i)) (still s) ()
      (fun path _ => path = candidate ∧ ∃ root ∈ all, ∃ rootLoc,
        s.tree.Denotes [] (root.map .name) rootLoc ∧ rootLoc <+: canonicalCandidate)
      (fun _ _ => True) s := by
  induction roots with
  | nil => exact wp_still_throw trivial
  | cons root rest ih =>
    refine Program.wp_bind rfl (Program.wp_mono (wp_canonicalizePath root) ?_
      fun _ _ _ _ => trivial)
    rintro canonicalRoot t rfl hroot
    split
    next hinside =>
      refine wp_still_pure ⟨rfl, root, ?_, canonicalRoot, hroot, ?_⟩
      · exact hroots root List.mem_cons_self
      · exact Paths.isInside_iff.mp hinside
    next => exact ih fun r hr => hroots r (List.mem_cons_of_mem root hr)

def PathPolicy.Accepted (policy : PathPolicy) (t : Tree Name FileData) (input : String) : Prop :=
  (Text.trim input.toList).isEmpty = false ∧
    ∃ loc, t.Denotes [] ((policy.candidate input).map .name) loc ∧
      match policy.roots.find? (Paths.isInside · (policy.candidate input)) with
      | some root => ∃ rootLoc, t.Denotes [] (root.map .name) rootLoc ∧ rootLoc <+: loc
      | none => ∃ root ∈ policy.roots, ∃ rootLoc,
          t.Denotes [] (root.map .name) rootLoc ∧ rootLoc <+: loc

theorem PathPolicy.Accepted.confined {policy : PathPolicy} {t : Tree Name FileData}
    {input : String} (h : policy.Accepted t input) :
    Confined t policy.roots (policy.candidate input) := by
  obtain ⟨-, loc, hloc, hroot⟩ := h
  split at hroot
  next root hfind => exact ⟨loc, hloc, root, List.mem_of_find?_eq_some hfind, hroot⟩
  next => exact ⟨loc, hloc, hroot⟩

theorem PathPolicy.wp_resolve (policy : PathPolicy) (input : String) :
    (policy.resolve input).wp (.ofFn (FsOp.apply maxLinks i)) (still s) ()
      (fun path _ => path = policy.candidate input ∧ policy.Accepted s.tree input)
      (fun _ _ => True) s := by
  unfold PathPolicy.resolve
  split
  · exact wp_still_throw trivial
  next hempty =>
  have hempty' : (Text.trim input.toList).isEmpty = false := by simpa using hempty
  dsimp only
  split
  next lexicalRoot hfind =>
    refine Program.wp_bind rfl (Program.wp_mono (wp_canonicalizePath lexicalRoot) ?_
      fun _ _ _ _ => trivial)
    rintro canonicalRoot t rfl hroot
    refine Program.wp_bind rfl (Program.wp_mono (wp_canonicalizePath _) ?_
      fun _ _ _ _ => trivial)
    rintro canonicalCandidate t rfl hcand
    split
    · exact wp_still_throw trivial
    next hinside =>
      have hprefix := Paths.isInside_iff.mp (by simpa using hinside)
      refine wp_still_pure ⟨rfl, hempty', canonicalCandidate, hcand, ?_⟩
      rw [hfind]
      exact ⟨canonicalRoot, hroot, hprefix⟩
  next hfind =>
    refine Program.wp_bind rfl (Program.wp_mono (wp_canonicalizePath _) ?_
      fun _ _ _ _ => trivial)
    rintro canonicalCandidate t rfl hcand
    refine Program.wp_mono (wp_insideSome policy.roots fun _ h => h) ?_
      fun _ _ _ _ => trivial
    rintro path t rfl ⟨rfl, hinside⟩
    refine ⟨rfl, hempty', canonicalCandidate, hcand, ?_⟩
    rw [hfind]
    exact hinside

/-- Path confinement: whatever links the tree holds, an accepted input returns a path that
denotes, or would denote once created, a location inside the location of an allowed root. -/
theorem PathPolicy.resolve_confined (policy : PathPolicy) (input : String) {s' : FsState ι}
    {path : AbsPath}
    (haccept : (policy.resolve input).run (FsOp.apply maxLinks i) s = some (.ok path, s')) :
    ∃ loc, s.tree.Denotes [] (path.map .name) loc ∧ ∃ root ∈ policy.roots, ∃ rootLoc,
      s.tree.Denotes [] (root.map .name) rootLoc ∧ rootLoc <+: loc :=
  have hspec := (Program.wp_run rfl (PathPolicy.wp_resolve policy input) haccept).2.1 path rfl
  hspec.1 ▸ hspec.2.confined

namespace PathPolicy

def nameR : Name := ⟨"r", by decide⟩
def nameD : Name := ⟨"d", by decide⟩
def nameL : Name := ⟨"l", by decide⟩
def nameNew : Name := ⟨"new", by decide⟩

/-- The directories `/r` and `/r/d`, and the link `/r/l` to the second. -/
def linkedTree : Tree Name FileData :=
  ((Tree.empty.insert [] nameR .dir (by decide) (by decide)).insert [nameR] nameD .dir
    (by decide) (by decide)).insert [nameR] nameL (.symlink ⟨true, [.name nameR, .name nameD]⟩)
      (by decide) (by decide)

/-- A new file below a link is confined by the root the link leads back into. -/
theorem resolve_confined_linked :
    ∃ loc, linkedTree.Denotes [] ([nameR, nameL, nameNew].map .name) loc ∧
      ∃ root ∈ [[nameR]], ∃ rootLoc, linkedTree.Denotes [] (root.map .name) rootLoc ∧
        rootLoc <+: loc := by
  have haccept : (resolve ⟨[[nameR]], by decide⟩ "l/new").run (FsOp.apply 40 ())
      ⟨linkedTree, .empty⟩ = some (.ok [nameR, nameL, nameNew], ⟨linkedTree, .empty⟩) := rfl
  exact resolve_confined ⟨[[nameR]], by decide⟩ "l/new" haccept

end PathPolicy

end Confinement
