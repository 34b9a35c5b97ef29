import ChatgptSystem.Fs.FsService
import Mathlib.Algebra.GroupWithZero.Nat

/-!
# Survival of the allowed roots

Which operations of the file-system service keep the allowed roots. The route of a root are the
entries its resolution looks up: the directories above it, the links on the way, the root itself.

* `Spares` — the call neither moves nor removes an entry on the route of an existing root;
* `roots_survive` — in every sequence of calls that spare the roots, every root that is a
  directory stays one;
* `move_loses_root` — a move that is accepted although it renames a root.
-/

open FileTree Interleaving

namespace RootSurvival

def DirectoryAt (t : Tree Name FileData) (path : AbsPath) : Prop :=
  ∃ loc, t.Denotes [] (path.map .name) loc ∧ t.IsDir loc

/-- The entries that are looked up to resolve a root that is a directory. -/
def OnRoute (roots : List AbsPath) (t : Tree Name FileData) (e : AbsPath) : Prop :=
  e = [] ∨ ∃ root ∈ roots, DirectoryAt t root ∧ t.Visits [] (root.map .name) e

/-- The entry a path names, the last link not followed, is on no route. -/
def NamesNoRoute (maxLinks : ℕ) (roots : List AbsPath) (t : Tree Name FileData)
    (path : AbsPath) : Prop :=
  ∀ loc, FsOp.locate maxLinks t false path = .ok loc → ¬ OnRoute roots t loc

/-- The call neither moves nor removes an entry on the route of an existing root, unless it is
refused anyway: because a path is not confined, the destination of a move exists, or a removal
is not recursive or names a root literally. -/
def Spares {D : Type} (maxLinks : ℕ) (policy : PathPolicy) (t : Tree Name FileData) :
    FsCall D → Prop
  | .move sourceInput destinationInput _ =>
    Confined t policy.roots (policy.candidate sourceInput) →
    Confined t policy.roots (policy.candidate destinationInput) →
    FsOp.lstatTree maxLinks t (policy.candidate destinationInput) = .error .ENOENT →
    NamesNoRoute maxLinks policy.roots t (policy.candidate sourceInput)
  | .remove input _ recursive =>
    Confined t policy.roots (policy.candidate input) → recursive = true →
    policy.candidate input ∉ policy.roots →
    NamesNoRoute maxLinks policy.roots t (policy.candidate input)
  | _ => True

/-- The routes of `t₀` are the same in `t`. -/
def Pinned (roots : List AbsPath) (t₀ t : Tree Name FileData) : Prop :=
  ∀ e, OnRoute roots t₀ e → t.node e = t₀.node e

/-! ## Routes -/

section Routes

variable {roots : List AbsPath} {t₀ t t' : Tree Name FileData}

theorem OnRoute.node {e : AbsPath} (h : OnRoute roots t₀ e) :
    t₀.IsDir e ∨ ∃ target, t₀.node e = some (.symlink target) := by
  rcases h with rfl | ⟨root, -, ⟨loc, hden, hdir⟩, hv⟩
  · exact .inl t₀.root_dir
  · exact hv.node hden hdir

theorem OnRoute.of_prefix {e a : AbsPath} (h : OnRoute roots t₀ e) (ha : a <+: e) :
    OnRoute roots t₀ a := by
  rcases h with rfl | ⟨root, hroot, hdir, hv⟩
  · exact .inl (List.prefix_nil.mp ha)
  · rcases hv.of_prefix ha with hnil | hva
    · exact .inl (List.prefix_nil.mp hnil)
    · exact .inr ⟨root, hroot, hdir, hva⟩

section

variable (h : Pinned roots t₀ t)

include h

theorem Pinned.directoryAt {root : AbsPath} (hroot : root ∈ roots) (hdir : DirectoryAt t₀ root) :
    DirectoryAt t root := by
  obtain ⟨loc, hden, hloc⟩ := hdir
  have hroute : ∀ e, t₀.Visits [] (root.map .name) e → OnRoute roots t₀ e :=
    fun e he => .inr ⟨root, hroot, ⟨loc, hden, hloc⟩, he⟩
  refine ⟨loc, hden.congr fun e he => h e (hroute e he), ?_⟩
  have hon : OnRoute roots t₀ loc := by
    rcases hden.visits hloc with hnil | hv
    · exact .inl (List.prefix_nil.mp hnil)
    · exact hroute loc hv
  exact (h loc hon).trans hloc

theorem Pinned.not_onRoute {e : AbsPath} (hleaf : ∀ v, t.node e = some v → ∃ data, v = .file data) :
    ¬ OnRoute roots t₀ e := by
  intro hon
  rcases hon.node with hdir | ⟨target, hlink⟩
  · obtain ⟨data, hdata⟩ := hleaf _ ((h e hon).trans hdir)
    cases hdata
  · obtain ⟨data, hdata⟩ := hleaf _ ((h e hon).trans hlink)
    cases hdata

theorem Pinned.keepsSkeleton (hkeep : t.KeepsSkeleton t') : Pinned roots t₀ t' := by
  intro e hon
  rw [← h e hon]
  rcases hon.node with hdir | ⟨target, hlink⟩
  · have hdir' : t.IsDir e := (h e hon).trans hdir
    exact (hkeep.isDir hdir').trans hdir'.symm
  · have hlink' := (h e hon).trans hlink
    rw [hlink']
    exact hkeep e _ hlink' fun _ hc => nomatch hc

theorem Pinned.erase {l : AbsPath} (hl : l ≠ []) (hoff : ¬ OnRoute roots t₀ l) :
    Pinned roots t₀ (t.erase l hl) := by
  intro e hon
  rw [Tree.erase_node, if_neg fun hp => hoff (hon.of_prefix hp)]
  exact h e hon

theorem Pinned.rename {src d : AbsPath} {n : Name} (hd : t.IsDir d) (hsrc : src ≠ [])
    (hinto : ¬ src <+: d ++ [n]) (hoff : ¬ OnRoute roots t₀ src)
    (hoff' : ¬ OnRoute roots t₀ (d ++ [n])) : Pinned roots t₀ (t.rename src d n hd hsrc hinto) := by
  intro e hon
  rw [Tree.rename_node, if_neg fun hp => hoff' (hon.of_prefix hp),
    if_neg fun hp => hoff (hon.of_prefix hp)]
  exact h e hon

end

end Routes

/-! ## The operations keep the routes -/

section Operations

variable {ι : Type} {maxLinks : ℕ} {i : ι} {roots : List AbsPath} {t₀ : Tree Name FileData}
  {s : FsState ι} {α : Type} {Q : α → FsState ι → Prop} {E : AppError → FsState ι → Prop}

/-- The routes of `t₀` stay the same. -/
def pinned (roots : List AbsPath) (t₀ : Tree Name FileData) : Protocol Unit (FsState ι) :=
  .alone fun s => Pinned roots t₀ s.tree

theorem wp_pure {a : α} (h : Q a s) :
    (Program.pure a : FsM α).wp (.ofFn (FsOp.apply maxLinks i)) (pinned roots t₀) () Q E s := by
  rintro t rfl -
  exact h

theorem wp_throw {e : AppError} (h : E e s) :
    (Program.throw e : FsM α).wp (.ofFn (FsOp.apply maxLinks i)) (pinned roots t₀) () Q E s := by
  rintro t rfl -
  exact h

theorem wp_operation {o : FsOp} {k : o.Res → FsM α} {r : o.Res} {s' : FsState ι}
    (happly : FsOp.apply maxLinks i o s = some (r, s')) (hpinned : Pinned roots t₀ s'.tree)
    (h : (k r).wp (.ofFn (FsOp.apply maxLinks i)) (pinned roots t₀) () Q E s') :
    (Program.request o k).wp (.ofFn (FsOp.apply maxLinks i)) (pinned roots t₀) () Q E s := by
  rintro t rfl - r' t' hx
  obtain ⟨rfl, rfl⟩ : r = r' ∧ s' = t' := by
    simpa [Exec.ofFn, happly] using hx
  exact ⟨hpinned, trivial, h⟩

theorem wp_throwing {r : Except Errno α} (hok : ∀ a, r = .ok a → Q a s)
    (herror : ∀ e, r = .error e → E (.errno e) s) :
    (Fs.throwing r).wp (.ofFn (FsOp.apply maxLinks i)) (pinned roots t₀) () Q E s := by
  cases r with
  | ok a => exact wp_pure (hok a rfl)
  | error e => exact wp_throw (herror e rfl)

variable {operation : FsM α} {path : AbsPath} {uuid : NamePart}

theorem wp_withCanonicalLock {key : AbsPath} (hs : Pinned roots t₀ s.tree)
    (h : ∀ s' : FsState ι, s'.tree = s.tree → operation.wp (.ofFn (FsOp.apply maxLinks i))
      (pinned roots t₀) () (fun _ _ => True) (fun _ _ => True) s') :
    (withCanonicalLock key operation).wp (.ofFn (FsOp.apply maxLinks i)) (pinned roots t₀) ()
      (fun _ _ => True) (fun _ _ => True) s := by
  refine wp_operation rfl hs ?_
  rintro s' rfl - r t hx
  obtain rfl : _ = t := by
    simp only [Exec.ofFn, FsOp.apply] at hx
    split at hx
    · exact (Prod.mk.inj (Option.some.inj hx)).2
    · cases hx
  refine ⟨hs, trivial, Program.wp_bind hs (Program.wp_attempt (Program.wp_mono (h _ rfl) ?_ ?_))⟩
  · intro a t ht _
    exact wp_operation rfl ht (wp_operation rfl ht (wp_pure trivial))
  · intro e t ht _
    exact wp_operation rfl ht (wp_operation rfl ht (wp_throw trivial))

theorem wp_exists :
    (FileSystemService.exists path).wp (.ofFn (FsOp.apply maxLinks i)) (still s) ()
      (fun found _ => found = false → FsOp.lstatTree maxLinks s.tree path = .error .ENOENT)
      (fun _ _ => True) s := by
  refine Program.wp_tryCatch rfl (Program.wp_bind rfl (wp_still_request rfl
    (wp_still_throwing ?_ ?_)))
  · intro info _
    refine wp_still_pure ?_
    rintro t rfl -
    exact fun h => by cases h
  · intro e he
    show Program.wp _ _ _ _ _ (if _ then _ else _) s
    split
    next heq =>
      obtain rfl : e = .ENOENT := by simpa using heq
      exact wp_still_pure fun _ => he
    next => exact wp_still_throw trivial

def Writable (maxLinks : ℕ) (t : Tree Name FileData) (path : AbsPath) : Prop :=
  FsOp.lstatTree maxLinks t path = .error .ENOENT ∨
    ∃ info, FsOp.lstatTree maxLinks t path = .ok info ∧ info.isFile = true

theorem wp_verifyExpectedHash {D : Type} [DecidableEq D] {service : FileSystemService D}
    {expected : Option D} :
    (service.verifyExpectedHash path expected).wp (.ofFn (FsOp.apply maxLinks i)) (still s) ()
      (fun _ _ => Writable maxLinks s.tree path) (fun _ _ => True) s := by
  refine Program.wp_bind rfl (Program.wp_mono wp_exists ?_ fun _ _ _ _ => trivial)
  rintro found t rfl hfound
  split
  next habsent =>
    split
    next => exact wp_still_throw trivial
    next => exact wp_still_pure (.inl (hfound (by simpa using habsent)))
  next =>
    refine Program.wp_bind rfl (wp_still_request rfl (wp_still_throwing ?_ fun _ _ => trivial))
    intro info hinfo
    split
    next => exact wp_still_throw trivial
    next hfile =>
      refine Program.wp_bind rfl (wp_still_request rfl (wp_still_throwing ?_ fun _ _ => trivial))
      intro current _
      split
      next => exact wp_still_throw trivial
      next =>
        dsimp only
        split
        next => exact wp_still_throw trivial
        next => exact wp_still_pure (.inr ⟨info, hinfo, by simpa using hfile⟩)

theorem wp_read {Q' : α → FsState ι → Prop} {p : FsM α} (hs : Pinned roots t₀ s.tree)
    (h : p.wp (.ofFn (FsOp.apply maxLinks i)) (still s) () Q (fun _ _ => True) s)
    (hQ : ∀ a, Q a s → Q' a s) :
    p.wp (.ofFn (FsOp.apply maxLinks i)) (pinned roots t₀) () Q' (fun _ _ => True) s := by
  refine Program.wp_mono (Program.wp_alone_of_still hs h) ?_ fun _ _ _ _ => trivial
  rintro a t - ⟨rfl, ha⟩
  exact hQ a ha

theorem not_onRoute_of_writable {t t₁ : Tree Name FileData} {parent d : AbsPath} {n : Name}
    (ht : Pinned roots t₀ t) (hw : Writable maxLinks t (parent ++ [n]))
    (hden : t₁.Denotes [] (parent.map .name) d) (hd : t₁.IsDir d)
    (hnew : t₁ = t ∨ t.node d = none) : ¬ OnRoute roots t₀ (d ++ [n]) := by
  rcases hnew with rfl | hnew
  · refine ht.not_onRoute fun v hv => ?_
    rcases hw with hmissing | ⟨info, hinfo, hfile⟩
    · rw [FsOp.node_of_lstat_missing hden (.inl hd) hmissing (.inl rfl)] at hv
      cases hv
    · obtain ⟨loc, v', hloc, hnode, rfl⟩ := FsOp.lstat_ok hinfo
      obtain ⟨-, rfl⟩ := FsOp.locate_child hden (.inl hd) hloc
      obtain rfl : v' = v := Option.some.inj (hnode.symm.trans hv)
      exact FsOp.isFile_statsOf hfile
  · -- the directory is new, so `t` had no entry in it
    refine ht.not_onRoute fun v hv => ?_
    have hdir : t.IsDir d := t.parent_dir d n (by rw [hv]; simp)
    rw [hdir] at hnew
    cases hnew

section

variable {n : Name} {t : Tree Name FileData} {data : FileData} {d parent : AbsPath}
  (ht : Pinned roots t₀ t) (hden : t.Denotes [] (parent.map .name) d) (hd : t.IsDir d)
  (htemp : t.node (d ++ [n]) = some (.file data))

include ht hden hd htemp

variable (maxLinks) in
theorem pinned_renameTemp
    (hpath : ∀ m, path = path.dropLast ++ [m] → path.dropLast = parent →
      ¬ OnRoute roots t₀ (d ++ [m])) (hparent : path.dropLast = parent) :
    Pinned roots t₀ (FsOp.renameTree maxLinks t (parent ++ [n]) path).2 := by
  rcases FsOp.renameTree_spec maxLinks t (parent ++ [n]) path with
    ⟨e, h⟩ | ⟨src, d', m, hsrc, hdst, ⟨-, h⟩ | ⟨hd', hne, hinto, -, -, h⟩⟩ <;> rw [h]
  · exact ht
  · exact ht
  · obtain ⟨hpath', hden', -⟩ := FsOp.locateParent_spec hdst
    rw [hparent] at hden'
    obtain rfl := hden'.unique hden
    obtain ⟨-, rfl⟩ := FsOp.locate_child hden (.inl hd) hsrc
    refine ht.rename hd' hne hinto (ht.not_onRoute fun v hv => ⟨data, ?_⟩)
      (hpath m hpath' hparent)
    exact Option.some.inj (hv.symm.trans htemp)

theorem pinned_unlinkTemp : Pinned roots t₀ (FsOp.unlinkTree maxLinks t (parent ++ [n])).2 := by
  rcases FsOp.unlinkTree_spec maxLinks t (parent ++ [n]) with ⟨e, h⟩ | ⟨loc, hloc, hlocate, -, h⟩ <;>
    rw [h]
  · exact ht
  · obtain ⟨-, rfl⟩ := FsOp.locate_child hden (.inl hd) hlocate
    refine ht.erase hloc (ht.not_onRoute fun v hv => ⟨data, ?_⟩)
    exact Option.some.inj (hv.symm.trans htemp)

end

theorem wp_replaceTemp {d : AbsPath} {n : Name} {data : FileData} {buffer : Bytes}
    (hs : Pinned roots t₀ s.tree) (hden : s.tree.Denotes [] (path.dropLast.map .name) d)
    (hd : s.tree.IsDir d) (htemp : s.tree.node (d ++ [n]) = some (.file data))
    (hpath : ∀ m, path = path.dropLast ++ [m] → ¬ OnRoute roots t₀ (d ++ [m])) :
    ((Fs.writeFile (path.dropLast ++ [n]) buffer).bind fun _ =>
      Program.tryCatch (Fs.rename (path.dropLast ++ [n]) path) fun error => do
        Program.tryCatch (Fs.unlink (path.dropLast ++ [n])) fun _ => pure ()
        throw error).wp (.ofFn (FsOp.apply maxLinks i))
      (pinned roots t₀) () (fun _ _ => True) (fun _ _ => True) s := by
  rcases FsOp.writeTree_spec maxLinks s.tree (path.dropLast ++ [n]) buffer with
    ⟨e, hwrite⟩ | ⟨d', n', data', hd', hfile, hparent, hwrite⟩
  · exact Program.wp_bind hs (wp_operation (congrArg (FsOp.changed _) hwrite) hs (wp_throw trivial))
  obtain ⟨rfl, rfl⟩ := FsOp.locateParent_child hden hparent
  have hkeep := Tree.keepsSkeleton_insert (.file ⟨buffer, data'.mode⟩) hd'
    (by simp [Tree.IsDir, hfile]) fun w hw => ⟨data', Option.some.inj (hw.symm.trans hfile)⟩
  have hs' := hs.keepsSkeleton hkeep
  have hden' := hden.mono hd hkeep
  have hd'' := hkeep.isDir hd
  refine Program.wp_bind hs (wp_operation (congrArg (FsOp.changed _) hwrite) hs' (wp_pure ?_))
  refine Program.wp_tryCatch hs' ?_
  have htemp' : (Tree.insert s.tree d' n' (.file ⟨buffer, data'.mode⟩) hd'
      (by simp [Tree.IsDir, hfile])).node (d' ++ [n']) = some (.file ⟨buffer, data'.mode⟩) := by
    rw [Tree.insert_node, Function.update_self]
  have hrenamed := pinned_renameTemp maxLinks hs' hden' hd'' htemp' (fun m hm _ => hpath m hm) rfl
  refine wp_operation rfl hrenamed (wp_throwing ?_ ?_)
  · rintro _ - t rfl -
    trivial
  · -- the rename has failed: the temporary file is removed
    intro e he
    have hsame := FsOp.renameTree_of_error he
    refine Program.wp_bind hrenamed
      (Program.wp_tryCatch hrenamed (wp_operation rfl ?_ (wp_throwing ?_ ?_)))
    · show Pinned roots t₀ (FsOp.unlinkTree maxLinks (FsOp.renameTree maxLinks _ _ path).2 _).2
      rw [hsame]
      exact pinned_unlinkTemp hs' hden' hd'' htemp'
    · rintro _ - t rfl -
      exact wp_throw trivial
    · intro _ _
      exact wp_pure (wp_throw trivial)

theorem wp_atomicWrite {D : Type} {service : FileSystemService D} {buffer : Bytes} {mode : Option ℕ}
    (hs : Pinned roots t₀ s.tree) (hw : Writable maxLinks s.tree path) :
    (service.atomicWrite uuid path buffer mode).wp (.ofFn (FsOp.apply maxLinks i))
      (pinned roots t₀) () (fun _ _ => True) (fun _ _ => True) s := by
  obtain ⟨hext, hmkdir⟩ := FsOp.mkdirTree_spec maxLinks s.tree (Paths.dirname path)
  have hs₁ := hs.keepsSkeleton hext.keepsSkeleton
  refine Program.wp_bind hs (wp_operation rfl hs₁ (wp_throwing ?_ fun _ _ => trivial))
  intro _ hok
  obtain ⟨d, hden, hd, hnew⟩ := hmkdir hok
  have hpath : ∀ m, path = path.dropLast ++ [m] → ¬ OnRoute roots t₀ (d ++ [m]) :=
    fun m hm => not_onRoute_of_writable hs (hm ▸ hw) hden hd hnew
  generalize (FsOp.mkdirTree maxLinks s.tree (Paths.dirname path)).2 = t₁ at *
  rcases FsOp.openTree_spec maxLinks t₁ (path.dropLast ++ [tempName path service.pid uuid])
      (mode.getD 0o600) with ⟨e, hopen⟩ | ⟨d', n', hd', hnone, hparent, hopen⟩
  · refine Program.wp_bind hs₁ (wp_operation (congrArg (FsOp.changed _) hopen) hs₁ ?_)
    exact wp_throw trivial
  obtain ⟨rfl, rfl⟩ := FsOp.locateParent_child hden hparent
  have hkeep := (Tree.extends_insert (.file ⟨[], mode.getD 0o600⟩) hd' hnone).keepsSkeleton
  have hs₂ := hs₁.keepsSkeleton hkeep
  refine Program.wp_bind hs₁ (wp_operation (congrArg (FsOp.changed _) hopen) hs₂ (wp_pure ?_))
  exact wp_replaceTemp hs₂ (hden.mono hd hkeep) (hkeep.isDir hd)
    (by rw [Tree.insert_node, Function.update_self]) hpath

/-! ## The service keeps the routes -/

variable {D : Type} [DecidableEq D] {service : FileSystemService D}

section

variable (hs : Pinned roots t₀ s.tree)

include hs

theorem wp_withPathLock
    (h : ∀ s' : FsState ι, s'.tree = s.tree → operation.wp (.ofFn (FsOp.apply maxLinks i))
      (pinned roots t₀) () (fun _ _ => True) (fun _ _ => True) s') :
    (withPathLock path operation).wp (.ofFn (FsOp.apply maxLinks i)) (pinned roots t₀) ()
      (fun _ _ => True) (fun _ _ => True) s :=
  Program.wp_bind hs (wp_read hs (wp_canonicalizePath path) fun _ _ =>
    wp_withCanonicalLock hs h)

theorem wp_editLocked {oldString newString : List Char} {replaceAll : Bool} {expected : Option D} :
    (service.editLocked uuid path oldString newString replaceAll expected).wp
      (.ofFn (FsOp.apply maxLinks i)) (pinned roots t₀) () (fun _ _ => True) (fun _ _ => True)
      s := by
  refine Program.wp_bind hs (wp_read hs wp_exists fun found _ => ?_)
  split
  next => exact wp_throw trivial
  refine Program.wp_bind hs (wp_operation rfl hs (wp_throwing ?_ fun _ _ => trivial))
  intro info hinfo
  split
  next => exact wp_throw trivial
  next hfile =>
  have hw : Writable maxLinks s.tree path := .inr ⟨info, hinfo, by simpa using hfile⟩
  split
  next => exact wp_throw trivial
  refine Program.wp_bind hs (wp_operation rfl hs (wp_throwing ?_ fun _ _ => trivial))
  intro current _
  dsimp only
  split
  next => exact wp_throw trivial
  split
  next => exact wp_throw trivial
  split
  next => exact wp_throw trivial
  split
  next => exact wp_throw trivial
  next => exact Program.wp_bind hs (Program.wp_mono (wp_atomicWrite hs hw)
    (fun _ _ _ _ => wp_pure trivial) fun _ _ _ _ => trivial)

theorem wp_writeLocked {buffer : Bytes} {expected : Option D} :
    (service.writeLocked uuid path buffer expected).wp (.ofFn (FsOp.apply maxLinks i))
      (pinned roots t₀) () (fun _ _ => True) (fun _ _ => True) s := by
  refine Program.wp_bind hs (wp_read hs wp_verifyExpectedHash fun current hw => ?_)
  exact Program.wp_bind hs (Program.wp_mono (wp_atomicWrite hs hw)
    (fun _ _ _ _ => wp_pure trivial) fun _ _ _ _ => trivial)

theorem wp_patchLocked {patch : List Char} {normalized : ℕ} {expected : D} :
    (service.patchLocked uuid path patch normalized expected).wp
      (.ofFn (FsOp.apply maxLinks i)) (pinned roots t₀) () (fun _ _ => True) (fun _ _ => True)
      s := by
  refine Program.wp_bind hs (wp_read hs wp_verifyExpectedHash fun _ hw => ?_)
  refine Program.wp_bind hs (wp_operation rfl hs (wp_throwing ?_ fun _ _ => trivial))
  intro source _
  split
  next => exact wp_throw trivial
  next => exact wp_throw trivial
  next =>
  dsimp only
  split
  next => exact wp_throw trivial
  refine Program.wp_bind hs (wp_operation rfl hs (wp_throwing ?_ fun _ _ => trivial))
  intro info _
  exact Program.wp_bind hs (Program.wp_mono (wp_atomicWrite hs hw)
    (fun _ _ _ _ => wp_pure trivial) fun _ _ _ _ => trivial)

theorem wp_verifySource {source : AbsPath} {info : Stats} {expected : Option D} :
    (service.verifySource source info expected).wp (.ofFn (FsOp.apply maxLinks i))
      (pinned roots t₀) () (fun _ t => t = s) (fun _ _ => True) s := by
  unfold FileSystemService.verifySource
  split
  next =>
    exact Program.wp_bind hs (wp_read hs wp_verifyExpectedHash fun _ _ => wp_pure rfl)
  next => exact wp_pure rfl

theorem wp_moveLocked {source destination : AbsPath} {expected : Option D}
    (hoff : FsOp.lstatTree maxLinks s.tree destination = .error .ENOENT →
      ∀ loc, FsOp.locate maxLinks s.tree false source = .ok loc → ¬ OnRoute roots t₀ loc) :
    (service.moveLocked source destination expected).wp (.ofFn (FsOp.apply maxLinks i))
      (pinned roots t₀) () (fun _ _ => True) (fun _ _ => True) s := by
  refine Program.wp_bind hs (wp_operation rfl hs (wp_throwing ?_ fun _ _ => trivial))
  intro info hinfo
  obtain ⟨src, v, hsrc, -, -⟩ := FsOp.lstat_ok hinfo
  refine Program.wp_bind hs (Program.wp_mono (wp_verifySource hs) ?_ fun _ _ _ _ => trivial)
  rintro _ t - rfl
  refine Program.wp_bind hs (wp_read hs wp_exists fun found hfound => ?_)
  split
  next => exact wp_throw trivial
  next hnew =>
  have hmissing := hfound (by simpa using hnew)
  have hw : Writable maxLinks t.tree destination := .inl hmissing
  obtain ⟨hext, hmkdir⟩ := FsOp.mkdirTree_spec maxLinks t.tree (Paths.dirname destination)
  have hs₁ := hs.keepsSkeleton hext.keepsSkeleton
  refine Program.wp_bind hs (wp_operation rfl hs₁ (wp_throwing ?_ fun _ _ => trivial))
  intro _ hok
  obtain ⟨d, hden, hd, hcreated⟩ := hmkdir hok
  refine Program.wp_bind hs₁ (wp_operation rfl ?_ (wp_throwing (fun _ _ => wp_pure trivial)
    fun _ _ => trivial))
  show Pinned roots t₀ (FsOp.renameTree maxLinks _ source destination).2
  rcases FsOp.renameTree_spec maxLinks (FsOp.mkdirTree maxLinks t.tree
      (Paths.dirname destination)).2 source destination with
    ⟨e, h⟩ | ⟨src', d', n, hsrc', hdst, ⟨-, h⟩ | ⟨hd', hne, hinto, -, -, h⟩⟩ <;> rw [h]
  · exact hs₁
  · exact hs₁
  · -- the source is where it was, and nothing was at the destination
    have hwalk := Tree.walk_mono_extends hext (FsOp.walk_of_locate hsrc)
    rw [FsOp.walk_of_locate hsrc'] at hwalk
    obtain rfl : src' = src := Except.ok.inj hwalk
    obtain ⟨hpath, hden', -⟩ := FsOp.locateParent_spec hdst
    obtain rfl := hden'.unique hden
    exact hs₁.rename hd' hne hinto (hoff hmissing src' hsrc)
      (not_onRoute_of_writable hs (hpath ▸ hw) hden hd hcreated)

theorem wp_removeLocked {expected : Option D} {recursive : Bool}
    (hoff : recursive = true → path ∉ service.policy.roots →
      ∀ loc, FsOp.locate maxLinks s.tree false path = .ok loc → ¬ OnRoute roots t₀ loc) :
    (service.removeLocked path expected recursive).wp (.ofFn (FsOp.apply maxLinks i))
      (pinned roots t₀) () (fun _ _ => True) (fun _ _ => True) s := by
  unfold FileSystemService.removeLocked
  split
  next => exact wp_throw trivial
  next hroot =>
  refine Program.wp_bind hs (wp_operation rfl hs (wp_throwing ?_ fun _ _ => trivial))
  intro info hinfo
  obtain ⟨target, v, htarget, hnode, rfl⟩ := FsOp.lstat_ok hinfo
  split
  next hfile =>
    refine Program.wp_bind hs (wp_read hs wp_verifyExpectedHash fun _ _ => ?_)
    refine Program.wp_bind hs (wp_operation rfl ?_ (wp_throwing (fun _ _ => wp_pure trivial)
      fun _ _ => trivial))
    show Pinned roots t₀ (FsOp.unlinkTree maxLinks s.tree path).2
    rcases FsOp.unlinkTree_spec maxLinks s.tree path with ⟨e, h⟩ | ⟨loc, hloc, hlocate, -, h⟩ <;>
      rw [h]
    · exact hs
    · -- a file is on no route
      obtain rfl : target = loc := Except.ok.inj (htarget.symm.trans hlocate)
      obtain ⟨data, rfl⟩ := FsOp.isFile_statsOf hfile
      refine hs.erase hloc (hs.not_onRoute fun w hw => ⟨data, ?_⟩)
      exact Option.some.inj (hw.symm.trans hnode)
  split
  next =>
    split
    next => exact wp_throw trivial
    next hrecursive =>
    have hoff' := hoff (by simpa using hrecursive) hroot
    refine Program.wp_bind hs (wp_operation rfl ?_ (wp_throwing (fun _ _ => wp_pure trivial)
      fun _ _ => trivial))
    show Pinned roots t₀ (FsOp.rmTree maxLinks s.tree path).2
    rcases FsOp.rmTree_spec maxLinks s.tree path with
      ⟨e, h⟩ | hempty | ⟨loc, hloc, hlocate, h⟩
    · rw [h]
      exact hs
    · exact absurd (.inl rfl) (hoff' [] hempty)
    · rw [h]
      exact hs.erase hloc (hoff' loc hlocate)
  next => exact wp_throw trivial

end

theorem wp_canonicalizeAll (paths : List AbsPath) :
    (canonicalizeAll paths).wp (.ofFn (FsOp.apply maxLinks i)) (still s) () (fun _ _ => True)
      (fun _ _ => True) s := by
  induction paths with
  | nil => exact wp_still_pure trivial
  | cons path rest ih =>
    refine Program.wp_bind rfl (Program.wp_mono (wp_canonicalizePath path) ?_
      fun _ _ _ _ => trivial)
    rintro key t rfl -
    refine Program.wp_bind rfl (Program.wp_mono ih ?_ fun _ _ _ _ => trivial)
    rintro keys t rfl -
    exact wp_still_pure trivial

theorem wp_acquire (keys : List AbsPath) (hs : Pinned roots t₀ s.tree)
    (h : ∀ s' : FsState ι, s'.tree = s.tree → operation.wp (.ofFn (FsOp.apply maxLinks i))
      (pinned roots t₀) () (fun _ _ => True) (fun _ _ => True) s') :
    (acquire operation keys).wp (.ofFn (FsOp.apply maxLinks i)) (pinned roots t₀) ()
      (fun _ _ => True) (fun _ _ => True) s := by
  induction keys generalizing s with
  | nil => exact h s rfl
  | cons key keys ih =>
    refine wp_withCanonicalLock hs fun s' hs' => ?_
    exact ih (hs' ▸ hs) fun s'' hs'' => h s'' (hs''.trans hs')

theorem wp_program (call : FsCall D) (hspares : Spares maxLinks service.policy s.tree call) :
    (call.program service).wp (.ofFn (FsOp.apply maxLinks i))
      (pinned service.policy.roots s.tree) () (fun _ _ => True) (fun _ _ => True) s := by
  have hs : Pinned service.policy.roots s.tree s.tree := fun _ _ => rfl
  have hlocked : ∀ {s' : FsState ι}, s'.tree = s.tree →
      Pinned service.policy.roots s.tree s'.tree := fun hs' => hs' ▸ hs
  cases call with
  | edit uuid input oldString newString replaceAll expected =>
    show Program.wp _ _ _ _ _ (if _ then _ else _) s
    split
    next => exact wp_throw trivial
    split
    next => exact wp_throw trivial
    refine Program.wp_bind hs (wp_read hs (PathPolicy.wp_resolve _ input) fun path _ => ?_)
    exact wp_withPathLock hs fun s' hs' => wp_editLocked (hlocked hs')
  | write uuid input buffer expected =>
    refine Program.wp_bind hs (wp_read hs (PathPolicy.wp_resolve _ input) fun path _ => ?_)
    split
    next => exact wp_throw trivial
    next => exact wp_withPathLock hs fun s' hs' => wp_writeLocked (hlocked hs')
  | patch uuid input patchText expected =>
    refine Program.wp_bind hs (wp_read hs (PathPolicy.wp_resolve _ input) fun path _ => ?_)
    dsimp only
    split
    next => exact wp_throw trivial
    next => exact wp_withPathLock hs fun s' hs' => wp_patchLocked (hlocked hs')
  | move sourceInput destinationInput expected =>
    refine Program.wp_bind hs (wp_read hs (PathPolicy.wp_resolve _ sourceInput) ?_)
    rintro source ⟨rfl, hsource⟩
    refine Program.wp_bind hs (wp_read hs (PathPolicy.wp_resolve _ destinationInput) ?_)
    rintro destination ⟨rfl, hdestination⟩
    refine Program.wp_bind hs (wp_read hs (wp_canonicalizeAll _) fun keys _ => ?_)
    refine wp_acquire _ hs fun s' hs' => wp_moveLocked (hlocked hs') ?_
    rw [hs']
    exact hspares hsource.confined hdestination.confined
  | remove input expected recursive =>
    refine Program.wp_bind hs (wp_read hs (PathPolicy.wp_resolve _ input) ?_)
    rintro path ⟨rfl, hpath⟩
    refine wp_withPathLock hs fun s' hs' => wp_removeLocked (hlocked hs') ?_
    rw [hs']
    exact hspares hpath.confined
  | makeDirectory input =>
    refine Program.wp_bind hs (wp_read hs (PathPolicy.wp_resolve _ input) fun path _ => ?_)
    obtain ⟨hext, -⟩ := FsOp.mkdirTree_spec maxLinks s.tree path
    exact Program.wp_bind hs (wp_operation rfl (hs.keepsSkeleton hext.keepsSkeleton)
      (wp_throwing (fun _ _ => wp_pure trivial) fun _ _ => trivial))

end Operations

/-! ## Sequences of calls -/

section Sequences

variable {D : Type} [DecidableEq D]

/-- `s'` is reached from `s` by calls that run one after the other, each of which is allowed in
the state it starts from. A call may succeed or fail. -/
inductive Sequence (service : FileSystemService D) (maxLinks : ℕ)
    (allowed : FsState Unit → FsCall D → Prop) : FsState Unit → FsState Unit → Prop where
  | nil (s) : Sequence service maxLinks allowed s s
  | call {s s' s'' out} (call : FsCall D) : Sequence service maxLinks allowed s s' →
      allowed s' call →
      (call.program service).run (FsOp.apply maxLinks ()) s' = some (out, s'') →
      Sequence service maxLinks allowed s s''

variable {service : FileSystemService D} {maxLinks : ℕ} {s s' : FsState Unit}

theorem directoryAt_of_call {call : FsCall D}
    (hspares : Spares maxLinks service.policy s.tree call) {out}
    (hrun : (call.program service).run (FsOp.apply maxLinks ()) s = some (out, s'))
    {root : AbsPath} (hroot : root ∈ service.policy.roots) (hdir : DirectoryAt s.tree root) :
    DirectoryAt s'.tree root := by
  have hpinned := (Program.wp_run (fun _ _ => rfl) (wp_program call hspares) hrun).1
  exact Pinned.directoryAt hpinned hroot hdir

/-- In every sequence of calls that spare the roots, every root that is a directory stays one. -/
theorem roots_survive
    (hrun : Sequence service maxLinks (fun s call => Spares maxLinks service.policy s.tree call)
      s s')
    {root : AbsPath} (hroot : root ∈ service.policy.roots) (hdir : DirectoryAt s.tree root) :
    DirectoryAt s'.tree root := by
  induction hrun with
  | nil => exact hdir
  | call call _ hspares hcall ih => exact directoryAt_of_call hspares hcall hroot ih

open PathPolicy

theorem pid_slash_free : '/' ∉ "7".toList := by decide

theorem pid_nul_free : '\x00' ∉ "7".toList := by decide

/-- A service on the tree of `linkedTree`, with the roots `/r` and `/r/d`. -/
def nestedService : FileSystemService Bytes where
  policy := ⟨[[nameR], [nameR, nameD]], by decide⟩
  maxReadBytes := 1024
  maxWriteBytes := 1024
  sha256 := id
  patchTools := ⟨fun text => (text, 0), fun _ => .ok (), fun _ _ => .ok none⟩
  pid := ⟨"7", pid_slash_free, pid_nul_free⟩

theorem directoryAt_linkedTree : DirectoryAt linkedTree [nameR, nameD] :=
  ⟨[nameR, nameD], .enter rfl (.enter rfl (.nil _)), rfl⟩

/-- The root `/r/d` survives the creation of the directory `/r/new`. -/
theorem roots_survive_makeDirectory :
    ∃ s', Sequence nestedService 40
        (fun s call => Spares 40 nestedService.policy s.tree call) ⟨linkedTree, .empty⟩ s' ∧
      s'.tree.node [nameR, nameNew] = some .dir ∧ DirectoryAt s'.tree [nameR, nameD] := by
  let call : FsCall Bytes := .makeDirectory "new"
  have hspares : Spares 40 nestedService.policy linkedTree call := trivial
  have hrun : Sequence nestedService 40
      (fun s call => Spares 40 nestedService.policy s.tree call) ⟨linkedTree, .empty⟩ _ :=
    .call call (.nil ⟨linkedTree, .empty⟩) hspares rfl
  exact ⟨_, hrun, rfl, roots_survive hrun (by decide) directoryAt_linkedTree⟩

/-- A root inside another root is renamed by a move the service accepts. -/
theorem move_loses_root :
    ∃ s', ((FsCall.move "/r/d" "/r/new" none).program nestedService).run (FsOp.apply 40 ())
        ⟨linkedTree, .empty⟩ = some (.ok (.moved ['d'] ['n', 'e', 'w']), s') ∧
      [nameR, nameD] ∈ nestedService.policy.roots ∧
      DirectoryAt linkedTree [nameR, nameD] ∧ ¬ DirectoryAt s'.tree [nameR, nameD] := by
  have hmoved : (((FsCall.move "/r/d" "/r/new" none).program nestedService).run
      (FsOp.apply 40 ()) ⟨linkedTree, .empty⟩).map
        (fun r => (r.1, r.2.tree.node [nameR], r.2.tree.node [nameR, nameD])) =
      some (.ok (.moved ['d'] ['n', 'e', 'w']), some .dir, none) := by decide +kernel
  obtain ⟨⟨out, s'⟩, hrun, heq⟩ := Option.map_eq_some_iff.mp hmoved
  simp only [Prod.mk.injEq] at heq
  obtain ⟨rfl, hr, hgone⟩ := heq
  refine ⟨s', hrun, by decide, directoryAt_linkedTree, ?_⟩
  -- the path now stops at the missing entry
  rintro ⟨loc, hden, hdir⟩
  have hstop : s'.tree.Denotes [nameR] ([nameD].map .name) [nameR, nameD] :=
    @Tree.Denotes.stop _ _ s'.tree [nameR] nameD [] fun v hv => by
      rw [List.singleton_append, hgone] at hv
      cases hv
  obtain rfl := hden.unique (.enter hr hstop)
  rw [Tree.IsDir, hgone] at hdir
  cases hdir

end Sequences

end RootSurvival
