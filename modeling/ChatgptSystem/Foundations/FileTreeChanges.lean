import ChatgptSystem.Foundations.FileTree

/-!
# Changes of a file tree

The operations that change a tree keep it a tree, since the result carries its invariant.

* `Tree.insert`, `Tree.erase`, `Tree.rename` — put, remove or move an entry, with everything
  below it;
* `Tree.mkdirAll` — create the missing directories of a path (`Tree.mkdirAll_spec`,
  `Tree.mkdirAll_of_walk`);
* `Tree.erase_leaf`, `Tree.rename_leaf` — for a file, only the entries it leaves and enters
  change.
-/

namespace FileTree

namespace Tree

variable {N C : Type} [DecidableEq N]

/-- Put an entry into the directory `d`, in place of one that is no directory. -/
def insert (t : Tree N C) (d : List N) (n : N) (v : Node N C) (hd : t.IsDir d)
    (hleaf : ¬ t.IsDir (d ++ [n])) : Tree N C where
  node := Function.update t.node (d ++ [n]) (some v)
  root_dir := by simpa using t.root_dir
  parent_dir := by
    intro d' n' hnode
    have hd' : t.IsDir d' := by
      by_cases h : d' ++ [n'] = d ++ [n]
      · obtain ⟨rfl, -⟩ := List.append_inj' h rfl
        exact hd
      · rw [Function.update_of_ne h] at hnode
        exact t.parent_dir d' n' hnode
    have hne : d' ≠ d ++ [n] := fun h => hleaf (h ▸ hd')
    rw [Function.update_of_ne hne]
    exact hd'

@[simp] theorem insert_node (t : Tree N C) {d : List N} {n : N} {v : Node N C} (hd hleaf) :
    (t.insert d n v hd hleaf).node = Function.update t.node (d ++ [n]) (some v) := rfl

/-- Remove an entry and everything below it. -/
def erase (t : Tree N C) (l : List N) (hl : l ≠ []) : Tree N C where
  node := fun e => if l <+: e then none else t.node e
  root_dir := by
    rw [if_neg fun h => hl (List.prefix_nil.mp h)]
    exact t.root_dir
  parent_dir := by
    intro d n hnode
    by_cases hdn : l <+: d ++ [n]
    · simp [hdn] at hnode
    · rw [if_neg hdn] at hnode
      rw [if_neg fun h => hdn (h.trans (List.prefix_append d [n]))]
      exact t.parent_dir d n hnode

@[simp] theorem erase_node (t : Tree N C) {l : List N} (hl) (e : List N) :
    (t.erase l hl).node e = if l <+: e then none else t.node e := rfl

/-- Move an entry with everything below it to the name `n` of the directory `d`. -/
def rename (t : Tree N C) (src d : List N) (n : N) (hd : t.IsDir d) (hsrc : src ≠ [])
    (hinto : ¬ src <+: d ++ [n]) : Tree N C where
  node := fun e =>
    if d ++ [n] <+: e then t.node (src ++ e.drop (d ++ [n]).length)
    else if src <+: e then none else t.node e
  root_dir := by
    rw [if_neg (by simp), if_neg fun h => hsrc (List.prefix_nil.mp h)]
    exact t.root_dir
  parent_dir := by
    intro d' n' hnode
    by_cases hdst : d ++ [n] <+: d' ++ [n']
    · rw [if_pos hdst] at hnode
      rcases List.prefix_concat_iff.mp hdst with heq | hpre
      · obtain ⟨rfl, -⟩ := List.append_inj' heq rfl
        rw [if_neg fun h => absurd h.length_le (by simp),
          if_neg fun h => hinto (h.trans (List.prefix_append d [n]))]
        exact hd
      · rw [if_pos hpre]
        rw [List.drop_append_of_le_length hpre.length_le, ← List.append_assoc] at hnode
        exact t.parent_dir _ n' hnode
    · rw [if_neg hdst] at hnode
      rw [if_neg fun h => hdst (h.trans (List.prefix_append d' [n']))]
      by_cases hsrc' : src <+: d' ++ [n']
      · simp [hsrc'] at hnode
      · rw [if_neg hsrc'] at hnode
        rw [if_neg fun h => hsrc' (h.trans (List.prefix_append d' [n']))]
        exact t.parent_dir d' n' hnode

@[simp] theorem rename_node (t : Tree N C) {src d : List N} {n : N} (hd hsrc hinto)
    (e : List N) : (t.rename src d n hd hsrc hinto).node e =
      if d ++ [n] <+: e then t.node (src ++ e.drop (d ++ [n]).length)
      else if src <+: e then none else t.node e := rfl

/-- Create the directories of a path that are missing below `cur`. -/
def mkdirAll (links : ℕ) : Tree N C → List N → List N → Except PathError (Tree N C)
  | t, _, [] => .ok t
  | t, cur, n :: rest =>
    match hnode : t.node (cur ++ [n]) with
    | none =>
      if hcur : t.IsDir cur then
        mkdirAll links (t.insert cur n .dir hcur (by simp [IsDir, hnode])) (cur ++ [n]) rest
      else .error .missing
    | some .dir => mkdirAll links t (cur ++ [n]) rest
    | some (.file _) => .error (if rest.isEmpty then .alreadyExists else .notDirectory)
    | some (.symlink target) =>
      match t.walk true links (target.base cur) target.comps with
      | .error e => .error e
      | .ok loc =>
        if t.IsDir loc then mkdirAll links t loc rest
        else .error (if rest.isEmpty then .alreadyExists else .notDirectory)

variable {t : Tree N C} {links : ℕ}

theorem extends_insert {d : List N} {n : N} (v : Node N C) (hd : t.IsDir d)
    (hnew : t.node (d ++ [n]) = none) : t.Extends (t.insert d n v hd (by simp [IsDir, hnew])) := by
  intro e w hw
  have hne : e ≠ d ++ [n] := by
    rintro rfl
    rw [hnew] at hw
    cases hw
  rw [insert_node, Function.update_of_ne hne]
  exact hw

theorem keepsSkeleton_insert {d : List N} {n : N} (v : Node N C) (hd : t.IsDir d)
    (hleaf : ¬ t.IsDir (d ++ [n])) (hfile : ∀ w, t.node (d ++ [n]) = some w → ∃ c, w = .file c) :
    t.KeepsSkeleton (t.insert d n v hd hleaf) := by
  intro e w hw hc
  have hne : e ≠ d ++ [n] := by
    rintro rfl
    obtain ⟨c, rfl⟩ := hfile w hw
    exact hc c rfl
  rw [insert_node, Function.update_of_ne hne]
  exact hw

theorem extends_mkdirAll {t' : Tree N C} {cur rest : List N}
    (h : mkdirAll links t cur rest = .ok t') : t.Extends t' := by
  induction rest generalizing t cur with
  | nil =>
    obtain rfl := Except.ok.inj h
    exact .refl t
  | cons n rest ih =>
    rw [mkdirAll] at h
    split at h
    next hnode =>
      split at h
      next hcur => exact (extends_insert .dir hcur hnode).trans (ih h)
      next => cases h
    next => exact ih h
    next => cases h
    next =>
      split at h
      next => cases h
      next =>
        split at h
        next => exact ih h
        next => cases h

theorem mkdirAll_fresh {t' : Tree N C} {cur rest : List N} (hcur : t.IsDir cur)
    (hfresh : ∀ l, l ≠ [] → t.node (cur ++ l) = none) (h : mkdirAll links t cur rest = .ok t') :
    t'.Denotes cur (rest.map .name) (cur ++ rest) ∧ t'.IsDir (cur ++ rest) := by
  induction rest generalizing t cur with
  | nil =>
    obtain rfl := Except.ok.inj h
    rw [List.append_nil]
    exact ⟨.nil cur, hcur⟩
  | cons n rest ih =>
    have hnone : t.node (cur ++ [n]) = none := hfresh [n] (List.cons_ne_nil n [])
    rw [mkdirAll] at h
    split at h
    next hnode =>
      rw [dif_pos hcur] at h
      have hext := extends_mkdirAll h
      obtain ⟨hden, hdir⟩ := ih (by simp [IsDir]) (fun l hl => by
        have hne : cur ++ [n] ++ l ≠ cur ++ [n] := by simpa using hl
        rw [insert_node, Function.update_of_ne hne, List.append_assoc]
        exact hfresh _ (List.cons_ne_nil n l)) h
      rw [List.append_assoc] at hden hdir
      exact ⟨.enter (hext _ _ (by simp)) hden, hdir⟩
    next hnode => rw [hnone] at hnode; cases hnode
    next hnode => rw [hnone] at hnode; cases hnode
    next hnode => rw [hnone] at hnode; cases hnode

/-- After its missing directories are created a path denotes a directory. If anything had to be
created, that directory is new. -/
theorem mkdirAll_spec {t' : Tree N C} {cur rest : List N} (hcur : t.IsDir cur)
    (h : mkdirAll links t cur rest = .ok t') :
    ∃ d, t'.Denotes cur (rest.map .name) d ∧ t'.IsDir d ∧ (t' = t ∨ t.node d = none) := by
  induction rest generalizing cur with
  | nil =>
    obtain rfl := Except.ok.inj h
    exact ⟨cur, .nil cur, hcur, .inl rfl⟩
  | cons n rest ih =>
    have hext := extends_mkdirAll h
    rw [mkdirAll] at h
    split at h
    next hnode =>
      rw [dif_pos hcur] at h
      have hbelow : ∀ l, t.node (cur ++ [n] ++ l) = none := by
        intro l
        cases l with
        | nil => rw [List.append_nil]; exact hnode
        | cons m l =>
          refine node_append_eq_none (List.cons_ne_nil m l) ?_
          simp [IsDir, hnode]
      obtain ⟨hden, hdir⟩ := mkdirAll_fresh (by simp [IsDir]) (fun l hl => by
        have hne : cur ++ [n] ++ l ≠ cur ++ [n] := by simpa using hl
        rw [insert_node, Function.update_of_ne hne]
        exact hbelow l) h
      exact ⟨_, .enter (extends_mkdirAll h _ _ (by simp)) hden, hdir, .inr (hbelow rest)⟩
    next hnode =>
      obtain ⟨d, hden, hdir, hnew⟩ := ih hnode h
      exact ⟨d, .enter (hext _ _ hnode) hden, hdir, hnew⟩
    next => cases h
    next target hnode =>
      split at h
      next => cases h
      next loc hwalk =>
        split at h
        next hloc =>
          obtain ⟨d, hden, hdir, hnew⟩ := ih hloc h
          obtain ⟨htarget, -⟩ := denotes_of_walk (isDir_base hcur target) hwalk
          have hfollow :=
            (htarget.mono hloc hext.keepsSkeleton).trans (hext _ _ hloc) hden
          exact ⟨d, .follow (hext _ _ hnode) hfollow, hdir, hnew⟩
        next => cases h

/-- A path that leads to a directory needs no directories created. -/
theorem mkdirAll_of_walk {cur rest loc : List N} (hcur : t.IsDir cur)
    (h : t.walk true links cur (rest.map .name) = .ok loc) (hloc : t.IsDir loc) :
    mkdirAll links t cur rest = .ok t := by
  induction rest generalizing cur with
  | nil => rfl
  | cons n rest ih =>
    rw [List.map_cons] at h
    rw [mkdirAll]
    split
    next hnode => rw [walk_eq, walkFrom, hnode] at h; cases h
    next hnode =>
      rw [walk_eq, walkFrom, hnode] at h
      rw [← walk_eq] at h
      exact ih hnode h
    next hnode =>
      rw [walk_eq, walkFrom, hnode] at h
      dsimp only at h
      split at h
      next =>
        obtain rfl := Except.ok.inj h
        rw [IsDir, hnode] at hloc
        cases hloc
      next => cases h
    next target hnode =>
      have hfollow : t.walk true links (target.base cur) (target.comps ++ rest.map .name) =
          .ok loc := by
        rw [walk_eq, walkFrom, hnode] at h
        simp only [Bool.not_true, Bool.and_false, Bool.false_eq_true, if_false] at h
        cases links with
        | zero => cases h
        | succ links => exact walk_links_succ h
      obtain ⟨mid, hmid, hdir, hrest⟩ := walk_split (isDir_base hcur target) hloc hfollow
      rw [hmid]
      dsimp only
      rw [if_pos hdir]
      exact ih hdir hrest

/-- Removing a file. -/
theorem erase_leaf {l : List N} (hl : l ≠ []) (hleaf : ¬ t.IsDir l) :
    (t.erase l hl).node = Function.update t.node l none := by
  funext e
  rw [erase_node]
  by_cases he : e = l
  · subst he
    rw [if_pos List.prefix_rfl, Function.update_self]
  · rw [Function.update_of_ne he]
    split
    next hp =>
      obtain ⟨rest, rfl⟩ := hp
      exact (node_append_eq_none (by simpa using he) hleaf).symm
    next => rfl

/-- Moving a file. -/
theorem rename_leaf {src d : List N} {n : N} (hd hsrc hinto) (hleaf : ¬ t.IsDir src)
    (hdst : ¬ t.IsDir (d ++ [n])) (hexists : t.node src ≠ none) :
    (t.rename src d n hd hsrc hinto).node =
      Function.update (Function.update t.node src none) (d ++ [n]) (t.node src) := by
  funext e
  rw [rename_node]
  by_cases hed : e = d ++ [n]
  · subst hed
    rw [if_pos List.prefix_rfl, Function.update_self, List.drop_length, List.append_nil]
  · rw [Function.update_of_ne hed]
    by_cases hes : e = src
    · subst hes
      -- the destination is not above the source, for it is no directory
      rw [Function.update_self, if_pos List.prefix_rfl, if_neg]
      rintro ⟨rest, rfl⟩
      exact hdst (isDir_of_append (by simpa using hed) hexists)
    · rw [Function.update_of_ne hes]
      split
      next hp =>
        obtain ⟨rest, rfl⟩ := hp
        have hrest : rest ≠ [] := by simpa using hed
        rw [List.drop_left, node_append_eq_none hrest hleaf, node_append_eq_none hrest hdst]
      next =>
        split
        next hp =>
          obtain ⟨rest, rfl⟩ := hp
          exact (node_append_eq_none (by simpa using hes) hleaf).symm
        next => rfl

end Tree

end FileTree
