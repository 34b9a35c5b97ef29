import Mathlib.Data.List.Infix
import Mathlib.Logic.Function.Basic

/-!
# File trees with symbolic links

A tree of directories, files and symbolic links, the walk a kernel performs to resolve a path
in it, and what a path denotes when links are followed without a limit.

* `Tree` — a tree whose entries all lie in directories;
* `Tree.walk` — the kernel's path walk, with a bound on the links it follows;
* `Tree.Denotes` — the location a path denotes, or would denote once its missing end is
  created; it is unique (`Tree.Denotes.unique`) and the walk finds it (`Tree.denotes_of_walk`);
* `Tree.Visits` — the entries a resolution looks up; what a path denotes depends on these only
  (`Tree.Denotes.congr`).
-/

namespace FileTree

/-- A component of a path. -/
inductive Comp (N : Type) where
  | here
  | parent
  | name (n : N)
  deriving DecidableEq

/-- The target of a symbolic link. -/
structure Target (N : Type) where
  absolute : Bool
  comps : List (Comp N)
  deriving DecidableEq

/-- The directory a link target found in `cur` is resolved from. -/
def Target.base {N : Type} (target : Target N) (cur : List N) : List N :=
  if target.absolute then [] else cur

/-- An entry of the tree. -/
inductive Node (N C : Type) where
  | dir
  | file (content : C)
  | symlink (target : Target N)
  deriving DecidableEq

/-- A tree of entries at locations, the lists of names from its root. Every entry lies in a
directory. -/
structure Tree (N C : Type) where
  node : List N → Option (Node N C)
  root_dir : node [] = some .dir
  parent_dir : ∀ d n, node (d ++ [n]) ≠ none → node d = some .dir

namespace Tree

variable {N C : Type}

def empty [DecidableEq N] : Tree N C where
  node := fun l => if l = [] then some .dir else none
  root_dir := if_pos rfl
  parent_dir := fun d n h => by simp at h

/-- The location is a directory. -/
def IsDir (t : Tree N C) (l : List N) : Prop := t.node l = some .dir

instance (t : Tree N C) (l : List N) : Decidable (t.IsDir l) :=
  match h : t.node l with
  | some .dir => isTrue h
  | some (.file _) => isFalse fun hd => by simp [IsDir, h] at hd
  | some (.symlink _) => isFalse fun hd => by simp [IsDir, h] at hd
  | none => isFalse fun hd => by simp [IsDir, h] at hd

section

variable {t t' : Tree N C} {followLast : Bool} {loc cur : List N} {comps : List (Comp N)}
  {links : ℕ}

theorem isDir_of_append {d rest : List N} (hrest : rest ≠ []) (h : t.node (d ++ rest) ≠ none) :
    t.IsDir d := by
  induction rest using List.reverseRecOn with
  | nil => exact absurd rfl hrest
  | append_singleton init n ih =>
    rw [← List.append_assoc] at h
    have hparent : t.node (d ++ init) = some .dir := t.parent_dir _ n h
    cases init with
    | nil => simpa [IsDir] using hparent
    | cons m init => exact ih (by simp) (by simp [hparent])

theorem node_append_eq_none {d rest : List N} (hrest : rest ≠ []) (h : ¬ t.IsDir d) :
    t.node (d ++ rest) = none := by
  by_contra hne
  exact h (isDir_of_append hrest hne)

theorem isDir_dropLast {l : List N} (h : t.IsDir l) : t.IsDir l.dropLast := by
  rcases List.eq_nil_or_concat l with rfl | ⟨d, n, rfl⟩
  · exact h
  · rw [List.concat_eq_append, List.dropLast_concat]
    rw [List.concat_eq_append] at h
    exact t.parent_dir d n (by rw [h]; simp)

/-- Every entry of `t` is an entry of `t'`. -/
def Extends (t t' : Tree N C) : Prop :=
  ∀ e v, t.node e = some v → t'.node e = some v

theorem Extends.refl (t : Tree N C) : t.Extends t := fun _ _ h => h

theorem Extends.trans {t'' : Tree N C} (h : t.Extends t') (h' : t'.Extends t'') :
    t.Extends t'' := fun e v hv => h' e v (h e v hv)

/-- Every directory and every link of `t` is one of `t'`. -/
def KeepsSkeleton (t t' : Tree N C) : Prop :=
  ∀ e v, t.node e = some v → (∀ c, v ≠ .file c) → t'.node e = some v

theorem KeepsSkeleton.refl (t : Tree N C) : t.KeepsSkeleton t := fun _ _ h _ => h

theorem KeepsSkeleton.trans {t'' : Tree N C} (h : t.KeepsSkeleton t') (h' : t'.KeepsSkeleton t'') :
    t.KeepsSkeleton t'' :=
  fun e v hv hc => h' e v (h e v hv hc) hc

theorem Extends.keepsSkeleton (h : t.Extends t') : t.KeepsSkeleton t' :=
  fun e v hv _ => h e v hv

theorem KeepsSkeleton.isDir (h : t.KeepsSkeleton t') {l : List N} (hl : t.IsDir l) : t'.IsDir l :=
  h l .dir hl fun _ hc => nomatch hc

/-! ## The path walk -/

/-- Why an operation on a path fails. -/
inductive PathError where
  | missing
  | notDirectory
  | tooManyLinks
  | alreadyExists
  deriving DecidableEq

/-- Walk from the directory `cur`. A link is handed to `onLink` with the components that are
still to be resolved; the last component is followed only if `followLast`. -/
def walkFrom (t : Tree N C) (followLast : Bool)
    (onLink : List N → List (Comp N) → Except PathError (List N)) :
    List N → List (Comp N) → Except PathError (List N)
  | cur, [] => .ok cur
  | cur, .here :: rest => walkFrom t followLast onLink cur rest
  | cur, .parent :: rest => walkFrom t followLast onLink cur.dropLast rest
  | cur, .name n :: rest =>
    match t.node (cur ++ [n]) with
    | none => .error .missing
    | some .dir => walkFrom t followLast onLink (cur ++ [n]) rest
    | some (.file _) => if rest.isEmpty then .ok (cur ++ [n]) else .error .notDirectory
    | some (.symlink target) =>
      if rest.isEmpty && !followLast then .ok (cur ++ [n])
      else onLink (target.base cur) (target.comps ++ rest)

/-- Walk a path, following at most `links` links. -/
def walk (t : Tree N C) (followLast : Bool) : ℕ → List N → List (Comp N) →
    Except PathError (List N)
  | 0 => walkFrom t followLast fun _ _ => .error .tooManyLinks
  | links + 1 => walkFrom t followLast (walk t followLast links)

def onLink (t : Tree N C) (followLast : Bool) : ℕ → List N → List (Comp N) →
    Except PathError (List N)
  | 0 => fun _ _ => .error .tooManyLinks
  | links + 1 => walk t followLast links

theorem walk_eq (t : Tree N C) (followLast : Bool) (links : ℕ) :
    walk t followLast links = walkFrom t followLast (onLink t followLast links) := by
  cases links <;> rfl

variable {onLink onLink' : List N → List (Comp N) → Except PathError (List N)}

theorem walkFrom_mono (hkeep : t.KeepsSkeleton t')
    (hloc : ∀ c, t.node loc = some (.file c) → ∃ c', t'.node loc = some (.file c'))
    (hlink : ∀ {cur comps}, onLink cur comps = .ok loc → onLink' cur comps = .ok loc)
    (h : t.walkFrom followLast onLink cur comps = .ok loc) :
    t'.walkFrom followLast onLink' cur comps = .ok loc := by
  induction comps generalizing cur with
  | nil => exact h
  | cons c rest ih =>
    cases c with
    | here => exact ih h
    | parent => exact ih h
    | name n =>
      rw [walkFrom] at h ⊢
      cases hnode : t.node (cur ++ [n]) with
      | none => rw [hnode] at h; cases h
      | some v =>
        rw [hnode] at h
        cases v with
        | dir =>
          rw [hkeep _ _ hnode fun _ hc => nomatch hc]
          exact ih h
        | file c =>
          dsimp only at h
          split at h
          next hrest =>
            obtain rfl := Except.ok.inj h
            obtain ⟨c', hc'⟩ := hloc c hnode
            rw [hc']
            exact if_pos hrest
          next => cases h
        | symlink target =>
          rw [hkeep _ _ hnode fun _ hc => nomatch hc]
          dsimp only at h ⊢
          split at h
          next hlast => rw [if_pos hlast]; exact h
          next hlast => rw [if_neg hlast]; exact hlink h

theorem walk_mono (hkeep : t.KeepsSkeleton t')
    (hloc : ∀ c, t.node loc = some (.file c) → ∃ c', t'.node loc = some (.file c'))
    (h : t.walk followLast links cur comps = .ok loc) :
    t'.walk followLast links cur comps = .ok loc := by
  induction links generalizing cur comps with
  | zero =>
    rw [walk_eq] at h ⊢
    exact walkFrom_mono hkeep hloc id h
  | succ links ih =>
    rw [walk_eq] at h ⊢
    exact walkFrom_mono hkeep hloc ih h

theorem walk_mono_dir (hkeep : t.KeepsSkeleton t') (hdir : t.IsDir loc)
    (h : t.walk followLast links cur comps = .ok loc) :
    t'.walk followLast links cur comps = .ok loc :=
  walk_mono hkeep (fun c hc => by rw [hdir] at hc; cases hc) h

theorem walk_mono_extends (hext : t.Extends t') (h : t.walk followLast links cur comps = .ok loc) :
    t'.walk followLast links cur comps = .ok loc :=
  walk_mono hext.keepsSkeleton (fun c hc => ⟨c, hext _ _ hc⟩) h

end

/-- `Denotes t cur comps loc`: the path `comps`, resolved from the directory `cur`, denotes
`loc`. The end of the path may be missing, or lie below a file; it is then taken literally. -/
inductive Denotes (t : Tree N C) : List N → List (Comp N) → List N → Prop where
  | nil (cur) : Denotes t cur [] cur
  | here {cur rest loc} : Denotes t cur rest loc → Denotes t cur (.here :: rest) loc
  | parent {cur rest loc} : Denotes t cur.dropLast rest loc →
      Denotes t cur (.parent :: rest) loc
  | enter {cur n rest loc} : t.node (cur ++ [n]) = some .dir →
      Denotes t (cur ++ [n]) rest loc → Denotes t cur (.name n :: rest) loc
  | follow {cur n target rest loc} : t.node (cur ++ [n]) = some (.symlink target) →
      Denotes t (target.base cur) (target.comps ++ rest) loc →
      Denotes t cur (.name n :: rest) loc
  | stop {cur n} {rest : List N} :
      (∀ v, t.node (cur ++ [n]) = some v → ∃ c, v = .file c) →
      Denotes t cur (.name n :: rest.map .name) (cur ++ n :: rest)

variable {t t' : Tree N C} {followLast : Bool} {links : ℕ} {loc cur : List N}
  {comps : List (Comp N)} {onLink : List N → List (Comp N) → Except PathError (List N)}

/-- A path denotes at most one location. -/
theorem Denotes.unique {loc' : List N} (h : t.Denotes cur comps loc)
    (h' : t.Denotes cur comps loc') : loc = loc' := by
  induction h with
  | nil => cases h'; rfl
  | here _ ih => cases h' with | here h' => exact ih h'
  | parent _ ih => cases h' with | parent h' => exact ih h'
  | enter hnode _ ih =>
    cases h' with
    | enter _ h' => exact ih h'
    | follow hlink _ => rw [hnode] at hlink; cases hlink
    | stop hstop => obtain ⟨c, hc⟩ := hstop _ hnode; cases hc
  | follow hnode _ ih =>
    cases h' with
    | enter hdir _ => rw [hnode] at hdir; cases hdir
    | follow hlink h' =>
      rw [hnode] at hlink
      cases hlink
      exact ih h'
    | stop hstop => obtain ⟨c, hc⟩ := hstop _ hnode; cases hc
  | @stop cur n rest hstop =>
    generalize hcomps : rest.map Comp.name = comps at h'
    cases h' with
    | enter hdir _ => obtain ⟨c, hc⟩ := hstop _ hdir; cases hc
    | follow hlink _ => obtain ⟨c, hc⟩ := hstop _ hlink; cases hc
    | stop _ =>
      have hinj : Function.Injective (Comp.name (N := N)) := fun a b hab => Comp.name.inj hab
      rw [hinj.list_map hcomps]

/-- The location holds an entry that is not a link. -/
def Resolved (t : Tree N C) (loc : List N) : Prop :=
  t.IsDir loc ∨ ∃ c, t.node loc = some (.file c)

theorem Resolved.ne_none (h : t.Resolved loc) : t.node loc ≠ none := by
  rcases h with h | ⟨c, h⟩ <;> rw [h] <;> simp

theorem isDir_base (h : t.IsDir cur) (target : Target N) : t.IsDir (target.base cur) := by
  unfold Target.base
  split
  · exact t.root_dir
  · exact h

theorem denotes_of_walkFrom
    (hlink : ∀ {cur comps loc}, t.IsDir cur → onLink cur comps = .ok loc →
      t.Denotes cur comps loc ∧ t.Resolved loc) (hcur : t.IsDir cur)
    (h : t.walkFrom true onLink cur comps = .ok loc) :
    t.Denotes cur comps loc ∧ t.Resolved loc := by
  induction comps generalizing cur with
  | nil =>
    obtain rfl := Except.ok.inj h
    exact ⟨.nil _, .inl hcur⟩
  | cons c rest ih =>
    cases c with
    | here => exact (ih hcur h).imp_left .here
    | parent => exact (ih (isDir_dropLast hcur) h).imp_left .parent
    | name n =>
      rw [walkFrom] at h
      split at h
      next => cases h
      next hnode => exact (ih hnode h).imp_left (.enter hnode)
      next c hnode =>
        split at h
        next hrest =>
          obtain rfl := Except.ok.inj h
          obtain rfl := List.isEmpty_iff.mp hrest
          refine ⟨@Denotes.stop _ _ t cur n [] fun v hv => ⟨c, ?_⟩, .inr ⟨c, hnode⟩⟩
          exact Option.some.inj (hv.symm.trans hnode)
        next => cases h
      next target hnode =>
        simp only [Bool.not_true, Bool.and_false, Bool.false_eq_true, if_false] at h
        exact (hlink (isDir_base hcur target) h).imp_left (.follow hnode)

/-- A walk that follows all links ends at the entry the path denotes. -/
theorem denotes_of_walk (hcur : t.IsDir cur) (h : t.walk true links cur comps = .ok loc) :
    t.Denotes cur comps loc ∧ t.Resolved loc := by
  induction links generalizing cur comps loc with
  | zero =>
    rw [walk_eq] at h
    exact denotes_of_walkFrom (fun _ h => by cases h) hcur h
  | succ links ih =>
    rw [walk_eq] at h
    exact denotes_of_walkFrom ih hcur h

theorem node_ne_none_of_walkFrom
    (hlink : ∀ {cur comps loc}, t.IsDir cur → onLink cur comps = .ok loc → t.node loc ≠ none)
    (hcur : t.IsDir cur) (h : t.walkFrom followLast onLink cur comps = .ok loc) :
    t.node loc ≠ none := by
  induction comps generalizing cur with
  | nil =>
    obtain rfl := Except.ok.inj h
    rw [hcur]
    simp
  | cons c rest ih =>
    cases c with
    | here => exact ih hcur h
    | parent => exact ih (isDir_dropLast hcur) h
    | name n =>
      rw [walkFrom] at h
      split at h
      next => cases h
      next hnode => exact ih hnode h
      next c hnode =>
        split at h
        next =>
          obtain rfl := Except.ok.inj h
          rw [hnode]
          simp
        next => cases h
      next target hnode =>
        split at h
        next =>
          obtain rfl := Except.ok.inj h
          rw [hnode]
          simp
        next => exact hlink (isDir_base hcur target) h

theorem node_ne_none_of_walk (hcur : t.IsDir cur)
    (h : t.walk followLast links cur comps = .ok loc) : t.node loc ≠ none := by
  induction links generalizing cur comps loc with
  | zero =>
    rw [walk_eq] at h
    exact node_ne_none_of_walkFrom (fun _ h => by cases h) hcur h
  | succ links ih =>
    rw [walk_eq] at h
    exact node_ne_none_of_walkFrom ih hcur h

theorem not_isDir_of_stop {n : N} {rest : List N}
    (hstop : ∀ v, t.node (cur ++ [n]) = some v → ∃ c, v = .file c) :
    ¬ t.IsDir (cur ++ n :: rest) := by
  intro hdir
  have hhead : t.IsDir (cur ++ [n]) := by
    cases rest with
    | nil => exact hdir
    | cons m rest =>
      refine isDir_of_append (List.cons_ne_nil m rest) ?_
      rw [List.append_assoc]
      exact Resolved.ne_none (.inl hdir)
  obtain ⟨c, hc⟩ := hstop _ hhead
  cases hc

theorem walk_append (hcur : t.IsDir cur) (h : t.Denotes cur comps loc) (hloc : t.Resolved loc)
    {rest : List (Comp N)} (hrest : rest ≠ []) (links : ℕ) :
    t.walk followLast links cur (comps ++ rest) = .error .tooManyLinks ∨
      (t.IsDir loc ∧ ∃ links', t.walk followLast links cur (comps ++ rest) =
        t.walk followLast links' loc rest) ∨
      (¬ t.IsDir loc ∧ t.walk followLast links cur (comps ++ rest) = .error .notDirectory) := by
  induction h generalizing links with
  | nil cur => exact .inr (.inl ⟨hcur, links, rfl⟩)
  | here _ ih => simpa [walk_eq, walkFrom] using ih hcur hloc links
  | parent _ ih => simpa [walk_eq, walkFrom] using ih (isDir_dropLast hcur) hloc links
  | enter hnode _ ih => simpa [walk_eq, walkFrom, hnode] using ih hnode hloc links
  | @follow cur n target rest' loc hnode _ ih =>
    have hne : (rest' ++ rest).isEmpty = false := by
      cases rest' <;> cases rest <;> simp_all
    cases links with
    | zero => exact .inl (by simp [walk, walkFrom, hnode, hne])
    | succ links =>
      have hwalk : t.walk followLast (links + 1) cur (.name n :: rest' ++ rest) =
          t.walk followLast links (target.base cur) (target.comps ++ rest' ++ rest) := by
        simp [walk, walkFrom, hnode, hne]
      rw [hwalk]
      exact ih (isDir_base hcur target) hloc links
  | @stop cur n rest' hstop =>
    -- the location exists, so the path ends at the file it names
    have hrest' : rest' = [] := by
      by_contra hne
      have happ : t.node ((cur ++ [n]) ++ rest') ≠ none := by
        simpa using hloc.ne_none
      obtain ⟨c, hc⟩ := hstop _ (isDir_of_append hne happ)
      cases hc
    subst hrest'
    obtain ⟨c, hfile⟩ : ∃ c, t.node (cur ++ [n]) = some (.file c) := by
      rcases hloc with hdir | hfile
      · obtain ⟨c, hc⟩ := hstop _ hdir
        cases hc
      · exact hfile
    refine .inr (.inr ⟨by simp [IsDir, hfile], ?_⟩)
    simp [walk_eq, walkFrom, hfile, hrest]

theorem walk_links_succ (h : t.walk true links cur comps = .ok loc) :
    t.walk true (links + 1) cur comps = .ok loc := by
  induction links generalizing cur comps with
  | zero => exact walkFrom_mono (.refl t) (fun c hc => ⟨c, hc⟩) (fun h => by cases h) h
  | succ links ih => exact walkFrom_mono (.refl t) (fun c hc => ⟨c, hc⟩) ih h

theorem walkFrom_split
    (hlink : ∀ {cur front rest}, t.IsDir cur → onLink cur (front ++ rest) = .ok loc →
      ∃ mid, onLink cur front = .ok mid ∧ t.IsDir mid ∧ t.walkFrom true onLink mid rest = .ok loc)
    {front rest : List (Comp N)} (hcur : t.IsDir cur) (hloc : t.IsDir loc)
    (h : t.walkFrom true onLink cur (front ++ rest) = .ok loc) :
    ∃ mid, t.walkFrom true onLink cur front = .ok mid ∧ t.IsDir mid ∧
      t.walkFrom true onLink mid rest = .ok loc := by
  induction front generalizing cur with
  | nil => exact ⟨cur, rfl, hcur, h⟩
  | cons c front ih =>
    cases c with
    | here => exact ih hcur h
    | parent => exact ih (isDir_dropLast hcur) h
    | name n =>
      rw [List.cons_append, walkFrom] at h
      rw [walkFrom]
      split at h
      next => cases h
      next hnode => exact ih hnode h
      next hnode =>
        split at h
        next =>
          obtain rfl := Except.ok.inj h
          rw [IsDir, hnode] at hloc
          cases hloc
        next => cases h
      next target hnode =>
        simp only [Bool.not_true, Bool.and_false, Bool.false_eq_true, if_false] at h
        rw [← List.append_assoc] at h
        simpa using hlink (isDir_base hcur target) h

theorem walk_split {front rest : List (Comp N)} (hcur : t.IsDir cur) (hloc : t.IsDir loc)
    (h : t.walk true links cur (front ++ rest) = .ok loc) :
    ∃ mid, t.walk true links cur front = .ok mid ∧ t.IsDir mid ∧
      t.walk true links mid rest = .ok loc := by
  induction links generalizing cur front rest with
  | zero => exact walkFrom_split (fun _ h => by cases h) hcur hloc h
  | succ links ih =>
    refine walkFrom_split (fun hcur h => ?_) hcur hloc h
    obtain ⟨mid, hmid, hdir, hrest⟩ := ih hcur h
    exact ⟨mid, hmid, hdir, walk_links_succ hrest⟩

theorem walkFrom_append {rest : List (Comp N)} {ends : Set (Except PathError (List N))}
    (hrest : rest ≠ []) (hloc : t.IsDir loc)
    (hlink : ∀ cur comps, onLink cur comps = .ok loc → onLink' cur (comps ++ rest) ∈ ends)
    (hend : t.walkFrom followLast onLink' loc rest ∈ ends)
    (h : t.walkFrom true onLink cur comps = .ok loc) :
    t.walkFrom followLast onLink' cur (comps ++ rest) ∈ ends := by
  induction comps generalizing cur with
  | nil =>
    obtain rfl := Except.ok.inj h
    exact hend
  | cons c front ih =>
    cases c with
    | here => exact ih h
    | parent => exact ih h
    | name n =>
      rw [walkFrom] at h
      rw [List.cons_append, walkFrom]
      split at h
      next => cases h
      next => exact ih h
      next hnode =>
        split at h
        next =>
          obtain rfl := Except.ok.inj h
          rw [IsDir, hnode] at hloc
          cases hloc
        next => cases h
      next target _ =>
        simp only [Bool.not_true, Bool.and_false, Bool.false_eq_true, if_false] at h
        have hne : (front ++ rest).isEmpty = false := by
          cases front <;> cases rest <;> simp_all
        rw [hne, Bool.false_and, if_neg Bool.false_ne_true, ← List.append_assoc]
        exact hlink _ _ h

theorem walk_append_ok (h : t.walk true links cur comps = .ok loc) (hloc : t.IsDir loc)
    {rest : List (Comp N)} (hrest : rest ≠ []) :
    ∃ links', t.walk followLast links cur (comps ++ rest) = t.walk followLast links' loc rest := by
  suffices t.walk followLast links cur (comps ++ rest) ∈
      {out | ∃ links', out = t.walk followLast links' loc rest} from this
  induction links generalizing cur comps with
  | zero =>
    refine walkFrom_append hrest hloc (fun _ _ h => by cases h) ?_ h
    exact ⟨0, rfl⟩
  | succ links ih =>
    refine walkFrom_append hrest hloc (fun _ _ h => ih h) ?_ h
    exact ⟨links + 1, rfl⟩

theorem walkFrom_nofollow
    (hlink : ∀ {cur comps loc}, onLink cur comps = .ok loc → ∃ loc', onLink' cur comps = .ok loc')
    (h : t.walkFrom true onLink cur comps = .ok loc) :
    ∃ loc', t.walkFrom false onLink' cur comps = .ok loc' := by
  induction comps generalizing cur with
  | nil => exact ⟨cur, rfl⟩
  | cons c rest ih =>
    cases c with
    | here => exact ih h
    | parent => exact ih h
    | name n =>
      rw [walkFrom] at h ⊢
      split at h
      next => cases h
      next => exact ih h
      next =>
        split at h
        next hrest => exact ⟨_, if_pos hrest⟩
        next => cases h
      next target _ =>
        simp only [Bool.not_true, Bool.and_false, Bool.false_eq_true, if_false] at h
        obtain ⟨loc', hloc'⟩ := hlink h
        split
        · exact ⟨_, rfl⟩
        · exact ⟨loc', hloc'⟩

theorem walk_nofollow (h : t.walk true links cur comps = .ok loc) :
    ∃ loc', t.walk false links cur comps = .ok loc' := by
  induction links generalizing cur comps loc with
  | zero => exact walkFrom_nofollow (fun h => by cases h) h
  | succ links ih => exact walkFrom_nofollow ih h

theorem walk_name (links : ℕ) (d : List N) (n : N) :
    t.walk false links d [.name n] =
      if t.node (d ++ [n]) = none then .error .missing else .ok (d ++ [n]) := by
  rw [walk_eq, walkFrom]
  cases hnode : t.node (d ++ [n]) with
  | none => rfl
  | some v => cases v <;> simp [walkFrom]

theorem walk_name_file (links : ℕ) {d : List N} {n : N}
    (hleaf : ∀ v, t.node (d ++ [n]) = some v → ∃ c, v = .file c) :
    t.walk true links d [.name n] =
      if t.node (d ++ [n]) = none then .error .missing else .ok (d ++ [n]) := by
  rw [walk_eq, walkFrom]
  cases hnode : t.node (d ++ [n]) with
  | none => rfl
  | some v =>
    obtain ⟨c, rfl⟩ := hleaf v hnode
    rfl

theorem node_eq_none_of_walk {n : N} (hcur : t.IsDir cur) (h : t.Denotes cur comps loc)
    (hloc : t.Resolved loc)
    (hwalk : t.walk false links cur (comps ++ [.name n]) = .error .missing ∨
      t.walk false links cur (comps ++ [.name n]) = .error .notDirectory) :
    t.node (loc ++ [n]) = none := by
  rcases walk_append hcur h hloc (List.cons_ne_nil (Comp.name n) []) links with
    hloop | ⟨-, links', hstep⟩ | ⟨hdir, -⟩
  · rw [hloop] at hwalk
    simp at hwalk
  · rw [hstep, walk_name] at hwalk
    by_contra hne
    simp [hne] at hwalk
  · exact node_append_eq_none (List.cons_ne_nil n []) hdir

theorem Denotes.append {n : N} (h : t.Denotes cur comps loc)
    (hstop : ∀ v, t.node (loc ++ [n]) = some v → ∃ c, v = .file c) (rest : List N) :
    t.Denotes cur (comps ++ (n :: rest).map .name) (loc ++ n :: rest) := by
  induction h with
  | nil cur => exact .stop hstop
  | here _ ih => exact .here (ih hstop)
  | parent _ ih => exact .parent (ih hstop)
  | enter hdir _ ih => exact .enter hdir (ih hstop)
  | follow hlink _ ih =>
    have htail := ih hstop
    rw [List.append_assoc] at htail
    exact .follow hlink htail
  | @stop cur m rest' hstop' =>
    have hall : t.Denotes cur (.name m :: (rest' ++ n :: rest).map .name)
        (cur ++ m :: (rest' ++ n :: rest)) := .stop hstop'
    simpa using hall

theorem Denotes.trans {comps' : List (Comp N)} {mid : List N} (h : t.Denotes cur comps mid)
    (hmid : t.IsDir mid) (h' : t.Denotes mid comps' loc) : t.Denotes cur (comps ++ comps') loc := by
  induction h with
  | nil => exact h'
  | here _ ih => exact .here (ih hmid h')
  | parent _ ih => exact .parent (ih hmid h')
  | enter hdir _ ih => exact .enter hdir (ih hmid h')
  | follow hlink _ ih =>
    have htail := ih hmid h'
    rw [List.append_assoc] at htail
    exact .follow hlink htail
  | stop hstop => exact absurd hmid (not_isDir_of_stop hstop)

/-! ## The entries a resolution looks up -/

/-- `Visits t cur comps e`: resolving `comps` from `cur` looks up the entry `e`. -/
inductive Visits (t : Tree N C) : List N → List (Comp N) → List N → Prop where
  | lookup {cur n rest} : Visits t cur (.name n :: rest) (cur ++ [n])
  | here {cur rest e} : Visits t cur rest e → Visits t cur (.here :: rest) e
  | parent {cur rest e} : Visits t cur.dropLast rest e → Visits t cur (.parent :: rest) e
  | enter {cur n rest e} : t.node (cur ++ [n]) = some .dir → Visits t (cur ++ [n]) rest e →
      Visits t cur (.name n :: rest) e
  | follow {cur n target rest e} : t.node (cur ++ [n]) = some (.symlink target) →
      Visits t (target.base cur) (target.comps ++ rest) e → Visits t cur (.name n :: rest) e

/-- What a path denotes depends only on the entries its resolution looks up. -/
theorem Denotes.congr (h : t.Denotes cur comps loc)
    (heq : ∀ e, t.Visits cur comps e → t'.node e = t.node e) : t'.Denotes cur comps loc := by
  induction h with
  | nil cur => exact .nil cur
  | here _ ih => exact .here (ih fun e he => heq e (.here he))
  | parent _ ih => exact .parent (ih fun e he => heq e (.parent he))
  | enter hnode _ ih =>
    exact .enter ((heq _ .lookup).trans hnode) (ih fun e he => heq e (.enter hnode he))
  | follow hnode _ ih =>
    exact .follow ((heq _ .lookup).trans hnode) (ih fun e he => heq e (.follow hnode he))
  | stop hstop => exact .stop fun v hv => hstop v ((heq _ .lookup).symm.trans hv)

theorem Visits.of_prefix {e a : List N} (h : t.Visits cur comps e) (ha : a <+: e) :
    a <+: cur ∨ t.Visits cur comps a := by
  induction h with
  | @lookup cur n rest =>
    rcases List.prefix_concat_iff.mp ha with rfl | ha
    · exact .inr .lookup
    · exact .inl ha
  | here _ ih => exact (ih ha).imp_right .here
  | parent _ ih =>
    exact (ih ha).imp (fun hp => hp.trans (List.dropLast_prefix _)) .parent
  | @enter cur n rest e hnode _ ih =>
    rcases ih ha with hp | hv
    · rcases List.prefix_concat_iff.mp hp with rfl | hp
      · exact .inr .lookup
      · exact .inl hp
    · exact .inr (.enter hnode hv)
  | @follow cur n target rest e hnode _ ih =>
    refine (ih ha).imp (fun hp => hp.trans ?_) (.follow hnode)
    unfold Target.base
    split
    · exact List.nil_prefix
    · exact List.prefix_rfl

theorem Visits.node {e : List N} (hv : t.Visits cur comps e) (h : t.Denotes cur comps loc)
    (hloc : t.IsDir loc) : t.IsDir e ∨ ∃ target, t.node e = some (.symlink target) := by
  induction h with
  | nil => cases hv
  | here _ ih => cases hv with | here hv => exact ih hv hloc
  | parent _ ih => cases hv with | parent hv => exact ih hv hloc
  | enter hnode _ ih =>
    cases hv with
    | lookup => exact .inl hnode
    | enter _ hv => exact ih hv hloc
    | follow hlink _ => rw [hnode] at hlink; cases hlink
  | follow hnode _ ih =>
    cases hv with
    | lookup => exact .inr ⟨_, hnode⟩
    | enter hdir _ => rw [hnode] at hdir; cases hdir
    | follow hlink hv =>
      rw [hnode] at hlink
      cases hlink
      exact ih hv hloc
  | stop hstop => exact absurd hloc (not_isDir_of_stop hstop)

theorem Denotes.visits (h : t.Denotes cur comps loc) (hloc : t.IsDir loc) :
    loc <+: cur ∨ t.Visits cur comps loc := by
  induction h with
  | nil cur => exact .inl List.prefix_rfl
  | here _ ih => exact (ih hloc).imp_right .here
  | parent _ ih => exact (ih hloc).imp (fun hp => hp.trans (List.dropLast_prefix _)) .parent
  | @enter cur n rest loc hnode _ ih =>
    rcases ih hloc with hp | hv
    · rcases List.prefix_concat_iff.mp hp with rfl | hp
      · exact .inr .lookup
      · exact .inl hp
    · exact .inr (.enter hnode hv)
  | @follow cur n target rest loc hnode _ ih =>
    refine (ih hloc).imp (fun hp => hp.trans ?_) (.follow hnode)
    unfold Target.base
    split
    · exact List.nil_prefix
    · exact List.prefix_rfl
  | stop hstop => exact absurd hloc (not_isDir_of_stop hstop)

theorem Denotes.mono (h : t.Denotes cur comps loc) (hloc : t.IsDir loc)
    (hkeep : t.KeepsSkeleton t') : t'.Denotes cur comps loc := by
  refine h.congr fun e he => ?_
  rcases he.node h hloc with hdir | ⟨target, hlink⟩
  · exact (hkeep.isDir hdir).trans hdir.symm
  · rw [hlink]
    exact hkeep e _ hlink fun _ hc => nomatch hc

end Tree

end FileTree
