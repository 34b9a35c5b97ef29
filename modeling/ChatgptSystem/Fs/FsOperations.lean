import ChatgptSystem.Core.Errors
import ChatgptSystem.Core.Paths
import ChatgptSystem.Foundations.Bytes
import ChatgptSystem.Foundations.ChainLock
import ChatgptSystem.Foundations.FileTreeChanges
import ChatgptSystem.Foundations.Program

/-!
# File-system operations

The calls of `node:fs/promises` that the path policy and the file services await, on a tree of
directories, files and symbolic links, together with the promise map of `core/path-lock.ts`.
Each operation is atomic; services are programs of these operations (`FsM`).
-/

open FileTree Interleaving

structure FileData where
  content : Bytes
  mode : ℕ
  deriving DecidableEq

/-- The file system of one process and its promise map, with callers in `ι`. -/
structure FsState (ι : Type) where
  tree : Tree Name FileData
  locks : ChainLock.State ι AbsPath

/-- What `lstat` reports. -/
inductive Stats where
  | file (size mode : ℕ)
  | directory
  | symlink
  deriving DecidableEq

namespace Stats

def isFile : Stats → Bool
  | .file _ _ => true
  | _ => false

def isDirectory : Stats → Bool
  | .directory => true
  | _ => false

/-- `info.size`; only the size of a file is ever read. -/
def size : Stats → ℕ
  | .file size _ => size
  | _ => 0

/-- `info.mode & 0o777`; only the mode of a file is ever read. -/
def mode : Stats → ℕ
  | .file _ mode => mode
  | _ => 0

end Stats

/-- The awaited operations. -/
inductive FsOp where
  | lstat (path : AbsPath)
  | realpath (path : AbsPath)
  | readFile (path : AbsPath)
  /-- `mkdir(path, { recursive: true })`. -/
  | mkdir (path : AbsPath)
  /-- `open(path, "wx", mode)`. -/
  | openWx (path : AbsPath) (mode : ℕ)
  /-- `handle.writeFile(content)` on the file opened at `path`; `handle.sync()` and
  `handle.close()` change nothing that is modelled. -/
  | writeFile (path : AbsPath) (content : Bytes)
  | rename (source destination : AbsPath)
  | unlink (path : AbsPath)
  /-- `rm(path, { recursive: true, force: false })`. -/
  | rm (path : AbsPath)
  /-- `queues.get(key)` and `queues.set(key, settled)`, with no `await` between them. -/
  | enqueue (key : AbsPath)
  /-- `previous.then(…)`. -/
  | await (previous : Option ℕ)
  /-- The promise of the caller settles. -/
  | settle (me : ℕ)
  /-- `if (queues.get(key) === settled) queues.delete(key)`. -/
  | forget (key : AbsPath) (me : ℕ)

def FsOp.Res : FsOp → Type
  | .lstat _ => Except Errno Stats
  | .realpath _ => Except Errno AbsPath
  | .readFile _ => Except Errno Bytes
  | .enqueue _ => Option ℕ × ℕ
  | .await _ | .settle _ | .forget _ _ => Unit
  | _ => Except Errno Unit

abbrev FsM (α : Type) : Type := Program FsOp FsOp.Res AppError α

namespace FsOp

/-! ## The operations on the tree -/

def errnoOf : Tree.PathError → Errno
  | .missing => .ENOENT
  | .notDirectory => .ENOTDIR
  | .tooManyLinks => .ELOOP
  | .alreadyExists => .EEXIST

section Kernel

variable (maxLinks : ℕ) (t : Tree Name FileData)

/-- Resolve a path. A path with a NUL character is refused before the file system sees it. -/
def locate (followLast : Bool) (path : AbsPath) : Except Errno AbsPath :=
  if path.any Name.hasNul then .error .ERR_INVALID_ARG_VALUE
  else (t.walk followLast maxLinks [] (path.map .name)).mapError errnoOf

/-- Resolve the directory in which the last name of a path is an entry. -/
def locateParent (path : AbsPath) : Except Errno (AbsPath × Name) :=
  match path.getLast? with
  | none => .error .EEXIST
  | some n =>
    if n.hasNul then .error .ERR_INVALID_ARG_VALUE
    else (locate maxLinks t true path.dropLast).map (·, n)

def statsOf : Node Name FileData → Stats
  | .dir => .directory
  | .file data => .file data.content.length data.mode
  | .symlink _ => .symlink

def lstatTree (path : AbsPath) : Except Errno Stats :=
  (locate maxLinks t false path).bind fun loc =>
    match t.node loc with
    | none => .error .ENOENT
    | some v => .ok (statsOf v)

def readTree (path : AbsPath) : Except Errno Bytes :=
  (locate maxLinks t true path).bind fun loc =>
    match t.node loc with
    | some (.file data) => .ok data.content
    | _ => .error .EISDIR

def mkdirTree (path : AbsPath) : Except Errno Unit × Tree Name FileData :=
  if path.any Name.hasNul then (.error .ERR_INVALID_ARG_VALUE, t)
  else match t.mkdirAll maxLinks [] path with
    | .ok t' => (.ok (), t')
    | .error e => (.error (errnoOf e), t)

/-- Create an empty file; `wx` fails if the entry exists, a link included. -/
def openTree (path : AbsPath) (mode : ℕ) : Except Errno Unit × Tree Name FileData :=
  match locateParent maxLinks t path with
  | .error e => (.error e, t)
  | .ok (d, n) =>
    if hd : t.IsDir d then
      if hnew : t.node (d ++ [n]) = none then
        (.ok (), t.insert d n (.file ⟨[], mode⟩) hd (by simp [Tree.IsDir, hnew]))
      else (.error .EEXIST, t)
    else (.error .ENOTDIR, t)

/-- Write to the file that was created at `path`. -/
def writeTree (path : AbsPath) (content : Bytes) : Except Errno Unit × Tree Name FileData :=
  match locateParent maxLinks t path with
  | .error e => (.error e, t)
  | .ok (d, n) =>
    if hd : t.IsDir d then
      match hfile : t.node (d ++ [n]) with
      | some (.file data) =>
        (.ok (), t.insert d n (.file ⟨content, data.mode⟩) hd (by simp [Tree.IsDir, hfile]))
      | _ => (.error .EBADF, t)
    else (.error .ENOTDIR, t)

/-- Move an entry. A file or link at the destination is replaced by a file; no directory is
ever replaced (an empty one would be, but no service renames onto a directory). -/
def renameTree (source destination : AbsPath) : Except Errno Unit × Tree Name FileData :=
  match locate maxLinks t false source, locateParent maxLinks t destination with
  | .error e, _ => (.error e, t)
  | _, .error e => (.error e, t)
  | .ok src, .ok (d, n) =>
    if src = d ++ [n] then (.ok (), t)
    else if hsrc : src = [] then (.error .EBUSY, t)
    else if hinto : src <+: d ++ [n] then (.error .EINVAL, t)
    else if hd : t.IsDir d then
      if t.IsDir (d ++ [n]) then (.error (if t.IsDir src then .ENOTEMPTY else .EISDIR), t)
      else if t.IsDir src ∧ t.node (d ++ [n]) ≠ none then (.error .ENOTDIR, t)
      else (.ok (), t.rename src d n hd hsrc hinto)
    else (.error .ENOTDIR, t)

def unlinkTree (path : AbsPath) : Except Errno Unit × Tree Name FileData :=
  match locate maxLinks t false path with
  | .error e => (.error e, t)
  | .ok loc =>
    if t.IsDir loc then (.error .EISDIR, t)
    else if hloc : loc = [] then (.error .EISDIR, t)
    else (.ok (), t.erase loc hloc)

/-- Remove an entry with everything below it. Of the root directory only the content goes. -/
def rmTree (path : AbsPath) : Except Errno Unit × Tree Name FileData :=
  match locate maxLinks t false path with
  | .error e => (.error e, t)
  | .ok loc => if hloc : loc = [] then (.error .EBUSY, .empty) else (.ok (), t.erase loc hloc)

end Kernel

/-! ## One operation of a caller -/

section Apply

variable {ι : Type} (maxLinks : ℕ) (i : ι)

def changed {α : Type} (s : FsState ι) (change : α × Tree Name FileData) :
    Option (α × FsState ι) :=
  some (change.1, { s with tree := change.2 })

/-- Perform one operation for the caller `i`; an `await` is blocked while the promise it waits
for is pending. -/
def apply : (o : FsOp) → FsState ι → Option (o.Res × FsState ι)
  | .lstat path, s => some (lstatTree maxLinks s.tree path, s)
  | .realpath path, s => some (locate maxLinks s.tree true path, s)
  | .readFile path, s => some (readTree maxLinks s.tree path, s)
  | .mkdir path, s => changed s (mkdirTree maxLinks s.tree path)
  | .openWx path mode, s => changed s (openTree maxLinks s.tree path mode)
  | .writeFile path content, s => changed s (writeTree maxLinks s.tree path content)
  | .rename source destination, s => changed s (renameTree maxLinks s.tree source destination)
  | .unlink path, s => changed s (unlinkTree maxLinks s.tree path)
  | .rm path, s => changed s (rmTree maxLinks s.tree path)
  | .enqueue key, s =>
    some ((s.locks.queues key, s.locks.tickets.length),
      { s with locks := s.locks.enqueue i key })
  | .await previous, s => if s.locks.Ready previous then some ((), s) else none
  | .settle me, s => some ((), { s with locks := s.locks.settle me })
  | .forget key me, s => some ((), { s with locks := s.locks.forget key me })

end Apply

end FsOp

/-! ## What the operations do -/

namespace FsOp

variable {maxLinks : ℕ} {t : Tree Name FileData}

theorem errnoOf_injective : Function.Injective errnoOf := by
  intro a b h
  cases a <;> cases b <;> first | rfl | cases h

theorem walk_of_locate {followLast : Bool} {path loc : AbsPath}
    (h : locate maxLinks t followLast path = .ok loc) :
    t.walk followLast maxLinks [] (path.map .name) = .ok loc := by
  unfold locate at h
  split at h
  · cases h
  · cases hw : t.walk followLast maxLinks [] (path.map .name) with
    | ok l => rw [hw] at h; exact congrArg _ (Except.ok.inj h)
    | error e => rw [hw] at h; cases h

theorem denotes_of_locate {path loc : AbsPath} (h : locate maxLinks t true path = .ok loc) :
    t.Denotes [] (path.map .name) loc ∧ t.Resolved loc :=
  Tree.denotes_of_walk t.root_dir (walk_of_locate h)

theorem walk_of_lstat_error {path : AbsPath} {e : Errno}
    (h : lstatTree maxLinks t path = .error e) (he : e = .ENOENT ∨ e = .ENOTDIR) :
    t.walk false maxLinks [] (path.map .name) = .error .missing ∨
      t.walk false maxLinks [] (path.map .name) = .error .notDirectory := by
  unfold lstatTree locate at h
  split at h
  · obtain rfl : Errno.ERR_INVALID_ARG_VALUE = e := Except.error.inj h
    rcases he with he | he <;> cases he
  · cases hw : t.walk false maxLinks [] (path.map .name) with
    | error e' =>
      rw [hw] at h
      obtain rfl : errnoOf e' = e := Except.error.inj h
      rcases he with he | he
      · have hmissing : errnoOf e' = errnoOf .missing := he
        rw [errnoOf_injective hmissing]
        exact .inl rfl
      · have hnotDirectory : errnoOf e' = errnoOf .notDirectory := he
        rw [errnoOf_injective hnotDirectory]
        exact .inr rfl
    | ok loc =>
      -- a walk that ends has ended at an entry
      rw [hw] at h
      have hnode := Tree.node_ne_none_of_walk t.root_dir hw
      obtain ⟨v, hv⟩ := Option.ne_none_iff_exists'.mp hnode
      simp [Except.mapError, Except.bind, hv] at h

theorem locateParent_spec {path d : AbsPath} {n : Name}
    (h : locateParent maxLinks t path = .ok (d, n)) :
    path = path.dropLast ++ [n] ∧ t.Denotes [] (path.dropLast.map .name) d ∧ t.Resolved d := by
  unfold locateParent at h
  rcases List.eq_nil_or_concat path with rfl | ⟨parent, m, rfl⟩
  · cases h
  · rw [List.concat_eq_append] at h ⊢
    rw [List.getLast?_concat, List.dropLast_concat] at h
    rw [List.dropLast_concat]
    split at h
    next => cases h
    next a ha =>
      obtain rfl : m = a := Option.some.inj ha
      split at h
      next => cases h
      next =>
        cases hloc : locate maxLinks t true parent with
        | error e => simp [hloc, Except.map] at h
        | ok loc =>
          obtain ⟨rfl, rfl⟩ : loc = d ∧ m = n := by simpa [hloc, Except.map] using h
          exact ⟨rfl, denotes_of_locate hloc⟩

section

variable {d parent : AbsPath} (hden : t.Denotes [] (parent.map .name) d)

include hden

theorem locateParent_child {d' : AbsPath} {n m : Name}
    (h : locateParent maxLinks t (parent ++ [n]) = .ok (d', m)) : d' = d ∧ m = n := by
  obtain ⟨heq, hden', -⟩ := locateParent_spec h
  rw [List.dropLast_concat] at heq hden'
  exact ⟨hden'.unique hden, (List.singleton_injective (List.append_cancel_left heq)).symm⟩

theorem locate_child {loc : AbsPath} {n : Name} (hres : t.Resolved d)
    (h : locate maxLinks t false (parent ++ [n]) = .ok loc) : t.IsDir d ∧ loc = d ++ [n] := by
  have hwalk := walk_of_locate h
  rw [List.map_append] at hwalk
  rcases Tree.walk_append t.root_dir hden hres (List.cons_ne_nil (Comp.name n) []) maxLinks with
    hloop | ⟨hdir, links', hstep⟩ | ⟨-, hfile⟩
  · rw [List.map_singleton, hloop] at hwalk
    cases hwalk
  · rw [List.map_singleton, hstep, Tree.walk_name] at hwalk
    split at hwalk
    · cases hwalk
    · exact ⟨hdir, (Except.ok.inj hwalk).symm⟩
  · rw [List.map_singleton, hfile] at hwalk
    cases hwalk

theorem node_of_lstat_missing {n : Name} {e : Errno} (hres : t.Resolved d)
    (h : lstatTree maxLinks t (parent ++ [n]) = .error e) (he : e = .ENOENT ∨ e = .ENOTDIR) :
    t.node (d ++ [n]) = none := by
  have hwalk := walk_of_lstat_error h he
  rw [List.map_append] at hwalk
  exact Tree.node_eq_none_of_walk t.root_dir hden hres hwalk

end

theorem lstat_ok {path : AbsPath} {info : Stats} (h : lstatTree maxLinks t path = .ok info) :
    ∃ loc v, locate maxLinks t false path = .ok loc ∧ t.node loc = some v ∧ info = statsOf v := by
  unfold lstatTree at h
  cases hloc : locate maxLinks t false path with
  | error e => simp [hloc, Except.bind] at h
  | ok loc =>
    cases hnode : t.node loc with
    | none => simp [hloc, Except.bind, hnode] at h
    | some v =>
      have hinfo : statsOf v = info := by simpa [hloc, Except.bind, hnode] using h
      exact ⟨loc, v, rfl, hnode, hinfo.symm⟩

theorem isFile_statsOf {v : Node Name FileData} (h : (statsOf v).isFile = true) :
    ∃ data, v = .file data := by
  cases v with
  | file data => exact ⟨data, rfl⟩
  | dir => cases h
  | symlink target => cases h

variable (maxLinks t) in
theorem mkdirTree_spec (path : AbsPath) :
    t.Extends (mkdirTree maxLinks t path).2 ∧
      ((mkdirTree maxLinks t path).1 = .ok () → ∃ d,
        (mkdirTree maxLinks t path).2.Denotes [] (path.map .name) d ∧
          (mkdirTree maxLinks t path).2.IsDir d ∧
          ((mkdirTree maxLinks t path).2 = t ∨ t.node d = none)) := by
  unfold mkdirTree
  split
  · exact ⟨.refl t, fun h => by cases h⟩
  · split
    next t' h => exact ⟨Tree.extends_mkdirAll h, fun _ => Tree.mkdirAll_spec t.root_dir h⟩
    next => exact ⟨.refl t, fun h => by cases h⟩

variable (maxLinks t) in
theorem openTree_spec (path : AbsPath) (mode : ℕ) :
    (∃ e, openTree maxLinks t path mode = (.error e, t)) ∨
      ∃ (d : AbsPath) (n : Name) (hd : t.IsDir d) (hnew : t.node (d ++ [n]) = none),
        locateParent maxLinks t path = .ok (d, n) ∧ openTree maxLinks t path mode =
          (.ok (), t.insert d n (.file ⟨[], mode⟩) hd (by simp [Tree.IsDir, hnew])) := by
  unfold openTree
  split
  next e _ => exact .inl ⟨e, rfl⟩
  next d n hparent =>
    split
    next hd =>
      split
      next hnew => exact .inr ⟨d, n, hd, hnew, hparent, rfl⟩
      next => exact .inl ⟨_, rfl⟩
    next => exact .inl ⟨_, rfl⟩

variable (maxLinks t) in
theorem writeTree_spec (path : AbsPath) (content : Bytes) :
    (∃ e, writeTree maxLinks t path content = (.error e, t)) ∨
      ∃ (d : AbsPath) (n : Name) (data : FileData) (hd : t.IsDir d)
        (hfile : t.node (d ++ [n]) = some (.file data)),
        locateParent maxLinks t path = .ok (d, n) ∧ writeTree maxLinks t path content =
          (.ok (), t.insert d n (.file ⟨content, data.mode⟩) hd
            (by simp [Tree.IsDir, hfile])) := by
  unfold writeTree
  split
  next e _ => exact .inl ⟨e, rfl⟩
  next d n hparent =>
    split
    next hd =>
      split
      next data hfile => exact .inr ⟨d, n, data, hd, hfile, hparent, rfl⟩
      next => exact .inl ⟨_, rfl⟩
    next => exact .inl ⟨_, rfl⟩

variable (maxLinks t) in
theorem renameTree_spec (source destination : AbsPath) :
    (∃ e, renameTree maxLinks t source destination = (.error e, t)) ∨
      ∃ (src d : AbsPath) (n : Name), locate maxLinks t false source = .ok src ∧
        locateParent maxLinks t destination = .ok (d, n) ∧
        ((src = d ++ [n] ∧ renameTree maxLinks t source destination = (.ok (), t)) ∨
          ∃ (hd : t.IsDir d) (hsrc : src ≠ []) (hinto : ¬ src <+: d ++ [n]),
            ¬ t.IsDir (d ++ [n]) ∧ (t.IsDir src → t.node (d ++ [n]) = none) ∧
            renameTree maxLinks t source destination =
              (.ok (), t.rename src d n hd hsrc hinto)) := by
  unfold renameTree
  split
  next => exact .inl ⟨_, rfl⟩
  next => exact .inl ⟨_, rfl⟩
  next src d n hsource hparent =>
    split
    next heq => exact .inr ⟨src, d, n, hsource, hparent, .inl ⟨heq, rfl⟩⟩
    split
    next => exact .inl ⟨_, rfl⟩
    next hsrc =>
    split
    next => exact .inl ⟨_, rfl⟩
    next hinto =>
    split
    next hd =>
      split
      next => exact .inl ⟨_, rfl⟩
      next hleaf =>
      split
      next => exact .inl ⟨_, rfl⟩
      next hover =>
        refine .inr ⟨src, d, n, hsource, hparent, .inr ⟨hd, hsrc, hinto, hleaf, ?_, rfl⟩⟩
        intro hdir
        by_contra hne
        exact hover ⟨hdir, hne⟩
    next => exact .inl ⟨_, rfl⟩

theorem renameTree_of_error {source destination : AbsPath} {e : Errno}
    (h : (renameTree maxLinks t source destination).1 = .error e) :
    (renameTree maxLinks t source destination).2 = t := by
  rcases renameTree_spec maxLinks t source destination with
    ⟨_, heq⟩ | ⟨src, d, n, -, -, ⟨-, heq⟩ | ⟨_, _, _, -, -, heq⟩⟩ <;> rw [heq] at h ⊢
  cases h

variable (maxLinks t) in
theorem unlinkTree_spec (path : AbsPath) :
    (∃ e, unlinkTree maxLinks t path = (.error e, t)) ∨
      ∃ (loc : AbsPath) (hloc : loc ≠ []), locate maxLinks t false path = .ok loc ∧
        ¬ t.IsDir loc ∧ unlinkTree maxLinks t path = (.ok (), t.erase loc hloc) := by
  unfold unlinkTree
  split
  next e _ => exact .inl ⟨e, rfl⟩
  next loc hlocate =>
    split
    next => exact .inl ⟨_, rfl⟩
    next hdir =>
      split
      next => exact .inl ⟨_, rfl⟩
      next hloc => exact .inr ⟨loc, hloc, hlocate, hdir, rfl⟩

variable (maxLinks t) in
theorem rmTree_spec (path : AbsPath) :
    (∃ e, rmTree maxLinks t path = (.error e, t)) ∨ locate maxLinks t false path = .ok [] ∨
      ∃ (loc : AbsPath) (hloc : loc ≠ []), locate maxLinks t false path = .ok loc ∧
        rmTree maxLinks t path = (.ok (), t.erase loc hloc) := by
  unfold rmTree
  split
  next e _ => exact .inl ⟨e, rfl⟩
  next loc hlocate =>
    split
    next hloc => exact .inr (.inl (hloc ▸ hlocate))
    next hloc => exact .inr (.inr ⟨loc, hloc, hlocate, rfl⟩)

/-! ## Operations on an entry of a directory -/

/-- The path is located at the directory `d`. -/
structure DirAt (maxLinks : ℕ) (t : Tree Name FileData) (parent d : AbsPath) : Prop where
  located : locate maxLinks t true parent = .ok d
  isDir : t.IsDir d

namespace DirAt

variable {parent d : AbsPath} {n : Name}

section

variable (h : DirAt maxLinks t parent d)

include h

theorem hasNul_parent : parent.any Name.hasNul = false := by
  by_contra hnul
  have hlocated := h.located
  rw [locate, if_pos (by simpa using hnul)] at hlocated
  cases hlocated

theorem mono {t' : Tree Name FileData} (hkeep : t.KeepsSkeleton t') :
    DirAt maxLinks t' parent d where
  located := by
    have hwalk := Tree.walk_mono_dir hkeep h.isDir (walk_of_locate h.located)
    rw [locate, if_neg (by simp [h.hasNul_parent]), hwalk]
    rfl
  isDir := hkeep.isDir h.isDir

theorem lstatTree_dir : ∃ info, lstatTree maxLinks t parent = .ok info := by
  obtain ⟨loc, hwalk⟩ := Tree.walk_nofollow (walk_of_locate h.located)
  obtain ⟨v, hv⟩ := Option.ne_none_iff_exists'.mp (Tree.node_ne_none_of_walk t.root_dir hwalk)
  refine ⟨statsOf v, ?_⟩
  rw [lstatTree, locate, if_neg (by simp [h.hasNul_parent]), hwalk]
  simp [Except.mapError, Except.bind, hv]

variable (hn : n.hasNul = false)

include hn

theorem locateParent_entry : locateParent maxLinks t (parent ++ [n]) = .ok (d, n) := by
  simp [locateParent, hn, h.located, Except.map]

theorem locate_of_walk {followLast : Bool}
    (hwalk : ∀ links, t.walk followLast links d [.name n] =
      if t.node (d ++ [n]) = none then .error .missing else .ok (d ++ [n])) :
    locate maxLinks t followLast (parent ++ [n]) =
      if t.node (d ++ [n]) = none then .error .ENOENT else .ok (d ++ [n]) := by
  obtain ⟨links, hlinks⟩ := Tree.walk_append_ok
    (walk_of_locate h.located) h.isDir (List.cons_ne_nil (Comp.name n) [])
  have hnul : (parent ++ [n]).any Name.hasNul = false := by
    simpa [hn] using h.hasNul_parent
  rw [locate, hnul, if_neg Bool.false_ne_true, List.map_append, List.map_singleton, hlinks, hwalk]
  split <;> rfl

theorem locate_entry :
    locate maxLinks t false (parent ++ [n]) =
      if t.node (d ++ [n]) = none then .error .ENOENT else .ok (d ++ [n]) :=
  h.locate_of_walk hn fun links => Tree.walk_name links d n

theorem locate_file (hleaf : ∀ v, t.node (d ++ [n]) = some v → ∃ data, v = .file data) :
    locate maxLinks t true (parent ++ [n]) =
      if t.node (d ++ [n]) = none then .error .ENOENT else .ok (d ++ [n]) :=
  h.locate_of_walk hn fun links => Tree.walk_name_file links hleaf

theorem lstatTree_entry :
    lstatTree maxLinks t (parent ++ [n]) =
      match t.node (d ++ [n]) with
      | none => .error .ENOENT
      | some v => .ok (statsOf v) := by
  rw [lstatTree, h.locate_entry hn]
  cases hnode : t.node (d ++ [n]) with
  | none => simp [Except.bind]
  | some v => simp [Except.bind, hnode]

end

variable {data : FileData}

section

variable (h : DirAt maxLinks t parent d)

include h

theorem readTree_file (hn : n.hasNul = false) (hfile : t.node (d ++ [n]) = some (.file data)) :
    readTree maxLinks t (parent ++ [n]) = .ok data.content := by
  have hlocate := h.locate_file hn (fun v hv => ⟨data, by simpa [hfile] using hv.symm⟩)
  rw [readTree, hlocate, if_neg (by simp [hfile])]
  simp [Except.bind, hfile]

theorem mkdirTree_parent : mkdirTree maxLinks t parent = (.ok (), t) := by
  rw [mkdirTree, h.hasNul_parent, if_neg Bool.false_ne_true,
    Tree.mkdirAll_of_walk t.root_dir (walk_of_locate h.located) h.isDir]

theorem openTree_entry (hn : n.hasNul = false) (mode : ℕ) (hnew : t.node (d ++ [n]) = none) :
    openTree maxLinks t (parent ++ [n]) mode =
      (.ok (), t.insert d n (.file ⟨[], mode⟩) h.isDir (by simp [Tree.IsDir, hnew])) := by
  simp only [openTree, h.locateParent_entry hn, dif_pos h.isDir, dif_pos hnew]

theorem writeTree_entry (hn : n.hasNul = false) (content : Bytes)
    (hfile : t.node (d ++ [n]) = some (.file data)) :
    writeTree maxLinks t (parent ++ [n]) content =
      (.ok (), t.insert d n (.file ⟨content, data.mode⟩) h.isDir
        (by simp [Tree.IsDir, hfile])) := by
  simp only [writeTree, h.locateParent_entry hn, dif_pos h.isDir]
  split
  next data' hfile' =>
    obtain rfl : data = data' := by simpa [hfile] using hfile'
    rfl
  next hother => exact absurd hfile (hother data)

theorem unlinkTree_entry (hn : n.hasNul = false) (hfile : t.node (d ++ [n]) = some (.file data)) :
    unlinkTree maxLinks t (parent ++ [n]) = (.ok (), t.erase (d ++ [n]) (by simp)) := by
  have hlocate := h.locate_entry hn
  rw [if_neg (by simp [hfile])] at hlocate
  simp [unlinkTree, hlocate, Tree.IsDir, hfile]

theorem renameTree_entry {parent' d' : AbsPath} {m : Name} (hn : n.hasNul = false)
    (h' : DirAt maxLinks t parent' d') (hm : m.hasNul = false)
    (hfile : t.node (d ++ [n]) = some (.file data)) (hne : d ++ [n] ≠ d' ++ [m])
    (hdst : ¬ t.IsDir (d' ++ [m])) :
    ∃ hinto, renameTree maxLinks t (parent ++ [n]) (parent' ++ [m]) =
      (.ok (), t.rename (d ++ [n]) d' m h'.isDir (by simp) hinto) := by
  have hsource := h.locate_entry hn
  rw [if_neg (by simp [hfile])] at hsource
  have hnotDir : ¬ t.IsDir (d ++ [n]) := by simp [Tree.IsDir, hfile]
  have hinto : ¬ d ++ [n] <+: d' ++ [m] := by
    intro hp
    rcases List.prefix_concat_iff.mp hp with heq | ⟨rest, hrest⟩
    · exact hne heq
    · -- the destination's directory is not below a file
      cases rest with
      | nil => exact hnotDir (by simpa [← hrest] using h'.isDir)
      | cons a rest =>
        have hdir := h'.isDir
        rw [← hrest] at hdir
        exact hnotDir (Tree.isDir_of_append (List.cons_ne_nil a rest) (by rw [hdir]; simp))
  refine ⟨hinto, ?_⟩
  simp only [renameTree, hsource, h'.locateParent_entry hm]
  rw [if_neg hne, dif_neg (by simp), dif_neg hinto, dif_pos h'.isDir, if_neg hdst,
    if_neg fun hdir => hnotDir hdir.1]

end

end DirAt

end FsOp

/-! ## The operations as calls that throw -/

namespace Fs

def throwing {α : Type} : Except Errno α → FsM α
  | .ok a => .pure a
  | .error e => .throw (.errno e)

def lstat (path : AbsPath) : FsM Stats := .request (.lstat path) throwing

def realpath (path : AbsPath) : FsM AbsPath := .request (.realpath path) throwing

def readFile (path : AbsPath) : FsM Bytes := .request (.readFile path) throwing

def mkdir (path : AbsPath) : FsM Unit := .request (.mkdir path) throwing

def openWx (path : AbsPath) (mode : ℕ) : FsM Unit :=
  .request (.openWx path mode) throwing

def writeFile (path : AbsPath) (content : Bytes) : FsM Unit :=
  .request (.writeFile path content) throwing

def rename (source destination : AbsPath) : FsM Unit :=
  .request (.rename source destination) throwing

def unlink (path : AbsPath) : FsM Unit := .request (.unlink path) throwing

def rm (path : AbsPath) : FsM Unit := .request (.rm path) throwing

end Fs
