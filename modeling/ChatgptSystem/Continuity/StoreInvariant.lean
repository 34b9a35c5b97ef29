import ChatgptSystem.Continuity.ContinuityStore
import Mathlib.Data.List.Nodup
import Mathlib.Data.List.Range

/-!
# The invariant of the continuity store

Every interleaving of `register`, `rebind`, `checkpoint` and `updateOperationalState` keeps the
tables well formed and the stored records as they are.

* `Tables.Wf` — one worktree for each project, unique keys and paths, and the versions of a
  project are `1` to its current one;
* `registerTransaction_eq_ok`, `rebindTransaction_eq_ok`, `checkpointTransaction_eq_ok` — what a
  transaction that goes through has found and done;
* `Database.Inv` — the ghost record of checkpoints matches the versions as well;
* `storeProtocol` — what the calls rely on, and the rule for each method;
* `invariant_of_run` — the invariant over all runs.
-/

open Interleaving

namespace Continuity

/-! ## What the transactions do -/

variable {tables tables' : Tables} {input : RegisterProjectRecord} {timestamp aliasKey : String}
  {version : ℕ}

theorem insertProject_eq_ok {row : ProjectRow} (h : insertProject row tables = .ok tables') :
    (∀ p ∈ tables.projects, p.id ≠ row.id) ∧ (∀ p ∈ tables.projects, p.aliasKey ≠ row.aliasKey) ∧
      tables' = { tables with projects := tables.projects ++ [row] } := by
  unfold insertProject at h
  split at h
  · cases h
  next hid =>
    split at h
    · cases h
    next hkey => exact ⟨by simpa using hid, by simpa using hkey, (Except.ok.inj h).symm⟩

theorem insertWorktree_eq_ok {row : WorktreeRow} (h : insertWorktree row tables = .ok tables') :
    (∀ w ∈ tables.worktrees, w.worktree.canonicalPath ≠ row.worktree.canonicalPath) ∧
      tables' = { tables with worktrees := tables.worktrees ++ [row] } := by
  unfold insertWorktree at h
  split at h
  · cases h
  split at h
  · cases h
  next hpath =>
    split at h
    · cases h
    · exact ⟨by simpa using hpath, (Except.ok.inj h).symm⟩

theorem insertRecord_eq_ok {row : RecordRow} (h : insertRecord row tables = .ok tables') :
    tables' = { tables with records := tables.records ++ [row] } := by
  unfold insertRecord at h
  split at h
  · cases h
  split at h
  · cases h
  · exact (Except.ok.inj h).symm

theorem registerTransaction_eq_ok
    (h : registerTransaction input aliasKey timestamp tables = .ok tables') :
    (∀ p ∈ tables.projects, p.id ≠ input.id) ∧
    (∀ p ∈ tables.projects, p.aliasKey ≠ aliasKey) ∧
    (∀ w ∈ tables.worktrees, w.worktree.canonicalPath ≠ input.worktree.canonicalPath) ∧
    tables' =
      { projects := tables.projects ++
          [⟨input.id, input.aliasName, aliasKey, input.roots, 1, timestamp, timestamp⟩]
        worktrees := tables.worktrees ++
          [⟨input.id, input.worktree, input.localState, input.publishedState,
            input.localState.checkedAt, input.inspectedPath⟩]
        records := tables.records ++ [⟨input.id, 1, input.semantic, timestamp⟩] } := by
  obtain ⟨tables₁, hproject, h⟩ := Except.bind_eq_ok h
  obtain ⟨tables₂, hworktree, hrecord⟩ := Except.bind_eq_ok h
  obtain ⟨hid, hkey, rfl⟩ := insertProject_eq_ok hproject
  obtain ⟨hpath, rfl⟩ := insertWorktree_eq_ok hworktree
  exact ⟨hid, hkey, hpath, insertRecord_eq_ok hrecord⟩

theorem rebindTransaction_eq_ok {input : RebindProjectRecord}
    (h : rebindTransaction input timestamp tables = .ok tables') :
    currentRecordVersion? input.projectId tables = some input.expectedRecordVersion ∧
    (input.projectId ∈ tables.worktrees.map (·.projectId) →
      ∀ w ∈ tables.worktrees, w.projectId ≠ input.projectId →
        w.worktree.canonicalPath ≠ input.worktree.canonicalPath) ∧
    tables' = updateWorktree input.projectId
      (fun row => { row with
        worktree := input.worktree
        localState := input.localState
        publishedState := input.publishedState
        checkedAt := input.localState.checkedAt
        inspectedPath := input.inspectedPath })
      (updateProject input.projectId
        (fun row => { row with
          roots := input.roots
          createdAt := timestamp
          updatedAt := timestamp }) tables) := by
  unfold rebindTransaction at h
  split at h
  · cases h
  next current hcurrent =>
    split at h
    · cases h
    next hversion =>
      obtain rfl := not_ne_iff.mp hversion
      simp only [updateWorktreePath] at h
      split at h
      · cases h
      next hpath =>
        refine ⟨hcurrent, ?_, (Except.ok.inj h).symm⟩
        intro hrow w hw hother hsame
        refine hpath ⟨?_, ?_⟩
        · simpa [updateProject, List.mem_map] using hrow
        · simp only [updateProject, List.any_eq_true, decide_eq_true_eq]
          exact ⟨w, hw, hother, hsame⟩

theorem checkpointTransaction_eq_ok {input : CheckpointProjectRecord}
    (h : checkpointTransaction input timestamp tables = .ok (version, tables')) :
    currentRecordVersion? input.projectId tables = some input.expectedRecordVersion ∧
    version = input.expectedRecordVersion + 1 ∧
    tables' = updateProject input.projectId
      (fun row => { row with
        currentRecordVersion := input.expectedRecordVersion + 1
        updatedAt := timestamp })
      (updateWorktree input.projectId
        (fun row => { row with
          localState := input.localState
          publishedState := input.publishedState
          checkedAt := input.localState.checkedAt
          inspectedPath := input.inspectedPath })
        { tables with
          records := tables.records ++
            [⟨input.projectId, input.expectedRecordVersion + 1, input.semantic, timestamp⟩] }) := by
  unfold checkpointTransaction at h
  split at h
  · cases h
  next current hcurrent =>
    split at h
    · cases h
    next hversion =>
      obtain rfl := not_ne_iff.mp hversion
      obtain ⟨tables₁, hrecord, h⟩ := Except.bind_eq_ok h
      obtain rfl := insertRecord_eq_ok hrecord
      obtain ⟨rfl, rfl⟩ := Prod.mk.inj (Except.ok.inj h)
      exact ⟨hcurrent, rfl, rfl⟩

/-! ## Well-formed tables -/

/-- The versions of the records of a project, in the order they were stored in. -/
def Tables.versions (tables : Tables) (projectId : String) : List ℕ :=
  (tables.records.filter (·.projectId = projectId)).map (·.version)

structure Tables.Wf (tables : Tables) : Prop where
  /-- The projects and their worktrees are the same rows of one list of ids. -/
  worktreeIds : tables.worktrees.map (·.projectId) = tables.projects.map (·.id)
  ids : (tables.projects.map (·.id)).Nodup
  aliasKeys : (tables.projects.map (·.aliasKey)).Nodup
  paths : (tables.worktrees.map (·.worktree.canonicalPath)).Nodup
  owned : ∀ r ∈ tables.records, r.projectId ∈ tables.projects.map (·.id)
  current : ∀ p ∈ tables.projects, 1 ≤ p.currentRecordVersion
  versions : ∀ p ∈ tables.projects,
    tables.versions p.id = List.range' 1 p.currentRecordVersion

theorem Tables.wf_empty : Tables.empty.Wf where
  worktreeIds := rfl
  ids := List.nodup_nil
  aliasKeys := List.nodup_nil
  paths := List.nodup_nil
  owned := fun _ h => absurd h List.not_mem_nil
  current := fun _ h => absurd h List.not_mem_nil
  versions := fun _ h => absurd h List.not_mem_nil

section Update

variable {id : String}

theorem updateProject_map {β : Type} {g : ProjectRow → β} {change : ProjectRow → ProjectRow}
    (h : ∀ row, g (change row) = g row) :
    (updateProject id change tables).projects.map g = tables.projects.map g := by
  simp only [updateProject, List.map_map]
  refine List.map_congr_left fun row _ => ?_
  show g (if row.id = id then change row else row) = g row
  split
  · exact h row
  · rfl

theorem updateWorktree_map {β : Type} {g : WorktreeRow → β}
    {change : WorktreeRow → WorktreeRow} (h : ∀ row, g (change row) = g row) :
    (updateWorktree id change tables).worktrees.map g = tables.worktrees.map g := by
  simp only [updateWorktree, List.map_map]
  refine List.map_congr_left fun row _ => ?_
  show g (if row.projectId = id then change row else row) = g row
  split
  · exact h row
  · rfl

theorem updateWorktree_eq_self {change : WorktreeRow → WorktreeRow}
    (h : ∀ row ∈ tables.worktrees, row.projectId ≠ id) :
    updateWorktree id change tables = tables := by
  have hrows : (tables.worktrees.map fun row => if row.projectId = id then change row else row) =
      tables.worktrees := by
    conv_rhs => rw [← List.map_id tables.worktrees]
    exact List.map_congr_left fun row hrow => if_neg (h row hrow)
  rw [updateWorktree, hrows]

theorem mem_updateProject {change : ProjectRow → ProjectRow} {p : ProjectRow}
    (hp : p ∈ (updateProject id change tables).projects) :
    ∃ q ∈ tables.projects, (q.id = id ∧ p = change q) ∨ (q.id ≠ id ∧ p = q) := by
  obtain ⟨q, hq, rfl⟩ := List.mem_map.mp hp
  refine ⟨q, hq, ?_⟩
  split
  next hid => exact .inl ⟨hid, rfl⟩
  next hid => exact .inr ⟨hid, rfl⟩

end Update

theorem currentRecordVersion?_eq_some {id : String}
    (h : currentRecordVersion? id tables = some version) :
    ∃ p ∈ tables.projects, p.id = id ∧ p.currentRecordVersion = version := by
  obtain ⟨p, hfind, rfl⟩ := Option.map_eq_some_iff.mp h
  exact ⟨p, List.mem_of_find?_eq_some hfind, by simpa using List.find?_some hfind, rfl⟩

theorem Tables.Wf.project_unique (h : tables.Wf) {p q : ProjectRow} (hp : p ∈ tables.projects)
    (hq : q ∈ tables.projects) (hid : p.id = q.id) : p = q :=
  List.inj_on_of_nodup_map h.ids hp hq hid

theorem Tables.Wf.worktree_count (h : tables.Wf) {id : String}
    (hid : id ∈ tables.projects.map (·.id)) :
    (tables.worktrees.filter (·.projectId = id)).length = 1 := by
  have hcount := List.count_eq_one_of_mem h.ids hid
  rw [← h.worktreeIds, List.count, List.countP_map, List.countP_eq_length_filter] at hcount
  rw [← hcount]
  congr 1

theorem Tables.Wf.register (hwf : tables.Wf)
    (h : registerTransaction input aliasKey timestamp tables = .ok tables') : tables'.Wf := by
  obtain ⟨hid, hkey, hpath, rfl⟩ := registerTransaction_eq_ok h
  have hnew : input.id ∉ tables.projects.map (·.id) := by
    simpa [List.mem_map] using hid
  refine ⟨?_, ?_, ?_, ?_, ?_, ?_, ?_⟩
  · simp [hwf.worktreeIds]
  · rw [List.map_append, List.nodup_append]
    exact ⟨hwf.ids, by simp, by simpa using hid⟩
  · rw [List.map_append, List.nodup_append]
    exact ⟨hwf.aliasKeys, by simp, by simpa using hkey⟩
  · rw [List.map_append, List.nodup_append]
    exact ⟨hwf.paths, by simp, by simpa using hpath⟩
  · intro r hr
    simp only [List.mem_append, List.mem_singleton] at hr
    rw [List.map_append, List.mem_append]
    obtain hr | rfl := hr
    · exact .inl (hwf.owned r hr)
    · exact .inr (by simp)
  · intro p hp
    simp only [List.mem_append, List.mem_singleton] at hp
    obtain hp | rfl := hp
    · exact hwf.current p hp
    · exact le_rfl
  · intro p hp
    simp only [List.mem_append, List.mem_singleton] at hp
    obtain hp | rfl := hp
    · have hne : input.id ≠ p.id := (hid p hp).symm
      simpa [Tables.versions, hne] using hwf.versions p hp
    · -- no record carries the new id yet
      have hnone : tables.records.filter (·.projectId = input.id) = [] := by
        rw [List.filter_eq_nil_iff]
        intro r hr hsame
        exact hnew (of_decide_eq_true hsame ▸ hwf.owned r hr)
      simp [Tables.versions, hnone]

theorem nodup_paths_update {worktrees : List WorktreeRow} {projectId path : String}
    {change : WorktreeRow → WorktreeRow}
    (hids : (worktrees.map (·.projectId)).Nodup)
    (hpaths : (worktrees.map (·.worktree.canonicalPath)).Nodup)
    (hchange : ∀ w, (change w).worktree.canonicalPath = path)
    (hfree : ∀ w ∈ worktrees, w.projectId ≠ projectId → w.worktree.canonicalPath ≠ path) :
    ((worktrees.map fun w => if w.projectId = projectId then change w else w).map
      (·.worktree.canonicalPath)).Nodup := by
  induction worktrees with
  | nil => exact List.nodup_nil
  | cons w rest ih =>
    simp only [List.map_cons, List.nodup_cons] at hids hpaths ⊢
    refine ⟨?_, ih hids.2 hpaths.2 fun v hv => hfree v (List.mem_cons_of_mem _ hv)⟩
    intro hmem
    simp only [List.map_map, List.mem_map, Function.comp_apply] at hmem
    obtain ⟨v, hv, hsame⟩ := hmem
    have hdistinct : v.projectId ≠ w.projectId := fun he => hids.1 (he ▸ List.mem_map_of_mem hv)
    split at hsame
    next hvid =>
      split at hsame
      next hwid => exact hdistinct (hvid.trans hwid.symm)
      next hwid =>
        rw [hchange] at hsame
        exact hfree w List.mem_cons_self hwid hsame.symm
    next hvid =>
      split at hsame
      next hwid =>
        rw [hchange] at hsame
        exact hfree v (List.mem_cons_of_mem _ hv) hvid hsame
      next => exact hpaths.1 (hsame ▸ List.mem_map_of_mem hv)

theorem Tables.Wf.rebind (hwf : tables.Wf) {input : RebindProjectRecord}
    (h : rebindTransaction input timestamp tables = .ok tables') : tables'.Wf := by
  obtain ⟨hcurrent, hpath, rfl⟩ := rebindTransaction_eq_ok h
  obtain ⟨p, hp, hpid, -⟩ := currentRecordVersion?_eq_some hcurrent
  have hrow : input.projectId ∈ tables.worktrees.map (·.projectId) := by
    rw [hwf.worktreeIds, ← hpid]
    exact List.mem_map_of_mem hp
  have hids : (updateProject input.projectId (fun row => { row with
      roots := input.roots, createdAt := timestamp, updatedAt := timestamp })
      tables).projects.map (·.id) = tables.projects.map (·.id) :=
    updateProject_map fun _ => rfl
  refine ⟨?_, ?_, ?_, ?_, ?_, ?_, ?_⟩
  · rw [updateWorktree_map]
    · exact hwf.worktreeIds.trans hids.symm
    · exact fun _ => rfl
  · exact hids ▸ hwf.ids
  · show ((updateProject _ _ tables).projects.map (·.aliasKey)).Nodup
    rw [updateProject_map]
    · exact hwf.aliasKeys
    · exact fun _ => rfl
  · exact nodup_paths_update (hwf.worktreeIds ▸ hwf.ids) hwf.paths (fun _ => rfl) (hpath hrow)
  · exact hids ▸ hwf.owned
  · intro q hq
    obtain ⟨r, hr, ⟨-, rfl⟩ | ⟨-, rfl⟩⟩ := mem_updateProject hq
    · exact hwf.current r hr
    · exact hwf.current _ hr
  · intro q hq
    obtain ⟨r, hr, ⟨-, rfl⟩ | ⟨-, rfl⟩⟩ := mem_updateProject hq
    · exact hwf.versions r hr
    · exact hwf.versions _ hr

theorem Tables.Wf.checkpoint (hwf : tables.Wf) {input : CheckpointProjectRecord}
    (h : checkpointTransaction input timestamp tables = .ok (version, tables')) : tables'.Wf := by
  obtain ⟨hcurrent, -, rfl⟩ := checkpointTransaction_eq_ok h
  obtain ⟨p, hp, hpid, hpversion⟩ := currentRecordVersion?_eq_some hcurrent
  refine ⟨?_, ?_, ?_, ?_, ?_, ?_, ?_⟩
  · rw [updateProject_map]
    · show (updateWorktree _ _ _).worktrees.map (·.projectId) = tables.projects.map (·.id)
      rw [updateWorktree_map]
      · exact hwf.worktreeIds
      · exact fun _ => rfl
    · exact fun _ => rfl
  · rw [updateProject_map]
    · exact hwf.ids
    · exact fun _ => rfl
  · rw [updateProject_map]
    · exact hwf.aliasKeys
    · exact fun _ => rfl
  · show ((updateWorktree _ _ _).worktrees.map (·.worktree.canonicalPath)).Nodup
    rw [updateWorktree_map]
    · exact hwf.paths
    · exact fun _ => rfl
  · intro r hr
    rw [updateProject_map]
    · obtain hr | hr := List.mem_append.mp hr
      · exact hwf.owned r hr
      · obtain rfl := List.mem_singleton.mp hr
        exact hpid ▸ List.mem_map_of_mem hp
    · exact fun _ => rfl
  · intro q hq
    obtain ⟨r, hr, ⟨-, rfl⟩ | ⟨-, rfl⟩⟩ := mem_updateProject hq
    · exact Nat.le_add_left 1 _
    · exact hwf.current _ hr
  · intro q hq
    obtain ⟨r, hr, ⟨hrid, rfl⟩ | ⟨hrid, rfl⟩⟩ := mem_updateProject hq
    · -- the project of the checkpoint: its versions so far, and the next one
      obtain rfl : r = p := hwf.project_unique hr hp (hrid.trans hpid.symm)
      have hversions := hwf.versions r hr
      simp only [Tables.versions, updateProject, updateWorktree, List.filter_append,
        List.map_append] at hversions ⊢
      rw [hversions, hpversion, List.range'_concat]
      simp [hrid, Nat.add_comm]
    · have hne : input.projectId ≠ q.id := fun he => hrid he.symm
      have hversions := hwf.versions q hr
      simpa [Tables.versions, updateProject, updateWorktree, hne] using hversions

theorem Tables.Wf.updateState (hwf : tables.Wf) (projectId : String)
    (localState : ContinuityLocalState) (publishedState : ContinuityPublishedState)
    (inspectedPath : String) :
    (updateStateStatement projectId localState publishedState inspectedPath tables).2.Wf where
  worktreeIds := by
    show (updateWorktree _ _ _).worktrees.map (·.projectId) = tables.projects.map (·.id)
    rw [updateWorktree_map]
    · exact hwf.worktreeIds
    · exact fun _ => rfl
  ids := hwf.ids
  aliasKeys := hwf.aliasKeys
  paths := by
    show ((updateWorktree _ _ _).worktrees.map (·.worktree.canonicalPath)).Nodup
    rw [updateWorktree_map]
    · exact hwf.paths
    · exact fun _ => rfl
  owned := hwf.owned
  current := hwf.current
  versions := hwf.versions

/-! ## Versions -/

theorem currentRecordVersion?_updateProject {id id' : String} {change : ProjectRow → ProjectRow}
    (hid : ∀ row, (change row).id = row.id) :
    currentRecordVersion? id (updateProject id' change tables) =
      (tables.projects.find? (·.id = id)).map fun row =>
        (if id = id' then change row else row).currentRecordVersion := by
  have hsame : (fun row : ProjectRow => decide (row.id = id)) ∘
      (fun row => if row.id = id' then change row else row) = fun row => decide (row.id = id) := by
    funext row
    show decide ((if row.id = id' then change row else row).id = id) = decide (row.id = id)
    split
    · rw [hid]
    · rfl
  rw [currentRecordVersion?, updateProject, List.find?_map, hsame, Option.map_map]
  refine Option.map_congr fun row hrow => ?_
  have hrow : row.id = id := by simpa using List.find?_some hrow
  rw [Function.comp_apply, hrow]

theorem currentRecordVersion?_register (id : String)
    (h : registerTransaction input aliasKey timestamp tables = .ok tables') :
    currentRecordVersion? id tables' =
      (currentRecordVersion? id tables).or (if input.id = id then some 1 else none) := by
  obtain ⟨-, -, -, rfl⟩ := registerTransaction_eq_ok h
  simp only [currentRecordVersion?, List.find?_append]
  cases tables.projects.find? (·.id = id) with
  | some p => rfl
  | none =>
    by_cases hid : input.id = id
    · simp [hid]
    · simp [hid]

theorem currentRecordVersion?_rebind {input : RebindProjectRecord} (id : String)
    (h : rebindTransaction input timestamp tables = .ok tables') :
    currentRecordVersion? id tables' = currentRecordVersion? id tables := by
  obtain ⟨-, -, rfl⟩ := rebindTransaction_eq_ok h
  show currentRecordVersion? id (updateProject _ _ tables) = _
  rw [currentRecordVersion?_updateProject]
  · refine Option.map_congr fun row _ => ?_
    split <;> rfl
  · exact fun _ => rfl

theorem currentRecordVersion?_checkpoint {input : CheckpointProjectRecord} (id : String)
    (h : checkpointTransaction input timestamp tables = .ok (version, tables')) :
    currentRecordVersion? id tables' =
      if id = input.projectId then some (input.expectedRecordVersion + 1)
      else currentRecordVersion? id tables := by
  obtain ⟨hcurrent, -, rfl⟩ := checkpointTransaction_eq_ok h
  rw [currentRecordVersion?_updateProject]
  · obtain ⟨p, hfind, -⟩ := Option.map_eq_some_iff.mp hcurrent
    split
    next hid =>
      subst hid
      show Option.map _ (tables.projects.find? _) = _
      rw [hfind]
      rfl
    next => rfl
  · exact fun _ => rfl

/-! ## The database over a run -/

section Run

variable {ι : Type} [DecidableEq ι]

def Commit.checkpointed? (projectId : String) (commit : Commit ι) : Option ℕ :=
  match commit.kind with
  | .checkpointed version => if commit.projectId = projectId then some version else none
  | _ => none

omit [DecidableEq ι] in
theorem Commit.checkpointed?_eq_some {projectId : String} {commit : Commit ι} {version : ℕ} :
    commit.checkpointed? projectId = some version ↔
      commit.kind = .checkpointed version ∧ commit.projectId = projectId := by
  unfold checkpointed?
  split
  next v hv => by_cases hp : commit.projectId = projectId <;> simp [hv, hp]
  next hv =>
    refine iff_of_false (by simp) fun hk => hv version hk.1

inductive StoreCall where
  | register (input : RegisterProjectRecord)
  | rebind (input : RebindProjectRecord)
  | checkpoint (input : CheckpointProjectRecord)
  | updateOperationalState (projectId : String) (localState : ContinuityLocalState)
      (publishedState : ContinuityPublishedState) (inspectedPath : String)

inductive CallResult where
  | project (stored : StoredProject)
  | record (stored : ContinuitySemanticRecord)
  | done

def StoreCall.program (unicode : CharacterDatabase) : StoreCall → StoreM CallResult
  | .register input => (Continuity.register unicode input).bind fun p => .pure (.project p)
  | .rebind input => (Continuity.rebind input).bind fun _ => .pure .done
  | .checkpoint input => (Continuity.checkpoint input).bind fun r => .pure (.record r)
  | .updateOperationalState projectId localState publishedState inspectedPath =>
    (Continuity.updateOperationalState projectId localState publishedState inspectedPath).bind
      fun _ => .pure .done

def Database.new : Database ι := ⟨.empty, [], fun _ => none⟩

structure Database.Inv (calls : ι → StoreCall) (database : Database ι) : Prop where
  wf : database.tables.Wf
  /-- Every version after the first one was stored by one checkpoint, in order. -/
  checkpoints : ∀ id, (database.commits.filterMap (Commit.checkpointed? id)).reverse =
    List.range' 2 ((currentRecordVersion? id database.tables).getD 1 - 1)
  /-- A checkpoint stores the version after the one it expects. -/
  authors : ∀ commit ∈ database.commits, ∀ version, commit.kind = .checkpointed version →
    ∃ input, calls commit.call = .checkpoint input ∧ input.projectId = commit.projectId ∧
      version = input.expectedRecordVersion + 1

structure Database.Extends (database later : Database ι) : Prop where
  records : database.tables.records <+: later.tables.records
  commits : database.commits <:+ later.commits
  versions : ∀ id version, currentRecordVersion? id database.tables = some version →
    ∃ version', currentRecordVersion? id later.tables = some version' ∧ version ≤ version'

def Database.commitsOf (database : Database ι) (call : ι) : List (Commit ι) :=
  database.commits.filter (·.call = call)

omit [DecidableEq ι] in
theorem Database.Extends.refl (database : Database ι) : database.Extends database where
  records := List.prefix_refl _
  commits := List.suffix_refl _
  versions := fun _ version h => ⟨version, h, le_rfl⟩

omit [DecidableEq ι] in
theorem Database.Extends.trans {a b c : Database ι} (hab : a.Extends b) (hbc : b.Extends c) :
    a.Extends c where
  records := hab.records.trans hbc.records
  commits := hab.commits.trans hbc.commits
  versions := fun id version h => by
    obtain ⟨version', h', hle⟩ := hab.versions id version h
    obtain ⟨version'', h'', hle'⟩ := hbc.versions id version' h'
    exact ⟨version'', h'', hle.trans hle'⟩

/-- A call extends the database and records commits of its own only. -/
def storeProtocol (calls : ι → StoreCall) : Protocol ι (Database ι) where
  inv := Database.Inv calls
  rely i d d' := d.Extends d' ∧ d'.commitsOf i = d.commitsOf i
  guar i d d' := d.Extends d' ∧ ∀ j, j ≠ i → d'.commitsOf j = d.commitsOf j
  rely_refl _ d := ⟨.refl d, rfl⟩
  rely_trans := fun _ {_ _ _} h h' => ⟨h.1.trans h'.1, h'.2.trans h.2⟩
  guar_rely := fun hij _ _ h => ⟨h.1, h.2 _ hij.symm⟩

variable {calls : ι → StoreCall} {database : Database ι}

omit [DecidableEq ι] in
theorem Database.Inv.commit (hinv : database.Inv calls) {event : Commit ι} (hwf : tables.Wf)
    (hkind : ∀ version, event.kind ≠ .checkpointed version)
    (hversions : ∀ id, (currentRecordVersion? id tables).getD 1 =
      (currentRecordVersion? id database.tables).getD 1) :
    Database.Inv calls { database with tables, commits := event :: database.commits } where
  wf := hwf
  checkpoints id := by
    have hnone : event.checkpointed? id = none := by
      rw [Option.eq_none_iff_forall_ne_some]
      intro version h
      exact hkind version (Commit.checkpointed?_eq_some.mp h).1
    rw [List.filterMap_cons_none hnone, hversions]
    exact hinv.checkpoints id
  authors commit hmem version hversion := by
    obtain rfl | hmem := List.mem_cons.mp hmem
    · exact absurd hversion (hkind version)
    · exact hinv.authors commit hmem version hversion

omit [DecidableEq ι] in
theorem Database.Inv.checkpoint (hinv : database.Inv calls) {i : ι}
    {input : CheckpointProjectRecord} {timestamp : String} {version : ℕ}
    (hcall : calls i = .checkpoint input)
    (h : checkpointTransaction input timestamp database.tables = .ok (version, tables)) :
    Database.Inv calls
      { database with
        tables
        commits := ⟨i, input.projectId, .checkpointed (input.expectedRecordVersion + 1)⟩ ::
          database.commits } where
  wf := hinv.wf.checkpoint h
  checkpoints id := by
    obtain ⟨hcurrent, -, -⟩ := checkpointTransaction_eq_ok h
    rw [currentRecordVersion?_checkpoint id h]
    split
    next hid =>
      obtain ⟨p, hp, -, hpversion⟩ := currentRecordVersion?_eq_some hcurrent
      have hpos : 1 ≤ input.expectedRecordVersion := hpversion ▸ hinv.wf.current p hp
      have hbefore := hinv.checkpoints id
      rw [hid, hcurrent, Option.getD_some] at hbefore
      rw [List.filterMap_cons_some (b := input.expectedRecordVersion + 1)
        (Commit.checkpointed?_eq_some.mpr ⟨rfl, hid.symm⟩), List.reverse_cons, hid, hbefore,
        Option.getD_some, Nat.add_sub_cancel]
      obtain ⟨n, hn⟩ := Nat.exists_eq_add_of_le' hpos
      rw [hn, Nat.add_sub_cancel, List.range'_concat, Nat.one_mul, Nat.add_comm 2 n]
    next hid =>
      have hnone : Commit.checkpointed? id (⟨i, input.projectId,
          .checkpointed (input.expectedRecordVersion + 1)⟩ : Commit ι) = none := by
        rw [Option.eq_none_iff_forall_ne_some]
        intro v hv
        exact hid (Commit.checkpointed?_eq_some.mp hv).2.symm
      rw [List.filterMap_cons_none hnone]
      exact hinv.checkpoints id
  authors commit hmem v hv := by
    obtain rfl | hmem := List.mem_cons.mp hmem
    · exact ⟨input, hcall, rfl, (CommitKind.checkpointed.inj hv).symm⟩
    · exact hinv.authors commit hmem v hv

theorem storeProtocol_read {i : ι} {later : Database ι} (hinv : database.Inv calls)
    (htables : later.tables = database.tables) (hcommits : later.commits = database.commits) :
    (storeProtocol calls).inv later ∧ (storeProtocol calls).guar i database later := by
  refine ⟨⟨htables ▸ hinv.wf, ?_, ?_⟩, ⟨?_, ?_, ?_⟩, ?_⟩
  · rw [htables, hcommits]
    exact hinv.checkpoints
  · rw [hcommits]
    exact hinv.authors
  · rw [htables]
  · rw [hcommits]
  · rw [htables]
    exact fun _ version h => ⟨version, h, le_rfl⟩
  · intro j _
    rw [Database.commitsOf, hcommits]
    rfl

theorem storeProtocol_commit {i : ι} {projectId : String} {kind : CommitKind}
    (hinv : Database.Inv calls
      { database with tables, commits := ⟨i, projectId, kind⟩ :: database.commits })
    (hrecords : database.tables.records <+: tables.records)
    (hversions : ∀ id version, currentRecordVersion? id database.tables = some version →
      ∃ version', currentRecordVersion? id tables = some version' ∧ version ≤ version') :
    (storeProtocol calls).inv
        { database with tables, commits := ⟨i, projectId, kind⟩ :: database.commits } ∧
      (storeProtocol calls).guar i database
        { database with tables, commits := ⟨i, projectId, kind⟩ :: database.commits } := by
  refine ⟨hinv, ⟨hrecords, List.suffix_cons _ _, hversions⟩, fun j hj => ?_⟩
  exact List.filter_cons_of_neg (by simpa using hj.symm)

theorem storeExec_step {i : ι} {o : StoreOp} {r : o.Res} {later : Database ι}
    (hcall : ∀ input timestamp, o = .checkpoint input timestamp → calls i = .checkpoint input)
    (hinv : database.Inv calls) (h : storeExec i o database r later) :
    (storeProtocol calls).inv later ∧ (storeProtocol calls).guar i database later := by
  cases o with
  | isoDate =>
    obtain rfl := storeExec_isoDate h
    exact storeProtocol_read hinv rfl rfl
  | selectByAlias aliasKey =>
    obtain ⟨-, rfl⟩ := storeExec_selectByAlias h
    exact storeProtocol_read hinv (database.noteRead_tables i) (database.noteRead_commits i)
  | selectRecord projectId version =>
    obtain ⟨-, rfl⟩ := storeExec_selectRecord h
    exact storeProtocol_read hinv rfl rfl
  | register input aliasKey timestamp =>
    obtain ⟨error, -, rfl⟩ | ⟨tables, hresult, -, rfl⟩ := storeExec_register h
    · exact storeProtocol_read hinv rfl rfl
    · have hversion := fun id => currentRecordVersion?_register id hresult
      refine storeProtocol_commit (hinv.commit (hinv.wf.register hresult) (by simp) ?_) ?_ ?_
      · intro id
        rw [hversion]
        cases currentRecordVersion? id database.tables with
        | some version => rfl
        | none => split <;> rfl
      · obtain ⟨-, -, -, rfl⟩ := registerTransaction_eq_ok hresult
        exact List.prefix_append _ _
      · intro id version hcurrent
        refine ⟨version, ?_, le_rfl⟩
        rw [hversion, hcurrent]
        rfl
  | rebind input timestamp =>
    obtain ⟨error, -, rfl⟩ | ⟨tables, hresult, -, rfl⟩ := storeExec_rebind h
    · exact storeProtocol_read hinv rfl rfl
    · have hversion := fun id => currentRecordVersion?_rebind id hresult
      refine storeProtocol_commit (hinv.commit (hinv.wf.rebind hresult) (by simp) ?_) ?_ ?_
      · intro id
        rw [hversion]
      · obtain ⟨-, -, rfl⟩ := rebindTransaction_eq_ok hresult
        exact List.prefix_refl _
      · intro id version hcurrent
        exact ⟨version, (hversion id).trans hcurrent, le_rfl⟩
  | checkpoint input timestamp =>
    obtain ⟨error, -, rfl, -⟩ | ⟨version, tables, hresult, -, rfl⟩ := storeExec_checkpoint h
    · exact storeProtocol_read hinv rfl rfl
    · refine storeProtocol_commit (hinv.checkpoint (hcall input timestamp rfl) hresult) ?_ ?_
      · obtain ⟨-, -, rfl⟩ := checkpointTransaction_eq_ok hresult
        exact List.prefix_append _ _
      · intro id current hcurrent
        rw [currentRecordVersion?_checkpoint id hresult]
        split
        next hid =>
          have hexpected := (checkpointTransaction_eq_ok hresult).1
          rw [← hid, hcurrent] at hexpected
          obtain rfl := Option.some.inj hexpected
          exact ⟨_, rfl, Nat.le_succ _⟩
        next => exact ⟨current, hcurrent, le_rfl⟩
  | updateState projectId localState publishedState inspectedPath =>
    obtain ⟨error, -, rfl⟩ | ⟨-, rfl⟩ := storeExec_updateState h
    · exact storeProtocol_read hinv rfl rfl
    · refine storeProtocol_commit (hinv.commit (hinv.wf.updateState _ _ _ _) (by simp) ?_) ?_ ?_
      · exact fun _ => rfl
      · exact List.prefix_refl _
      · exact fun _ version hcurrent => ⟨version, hcurrent, le_rfl⟩

/-! ## The calls -/

section

omit [DecidableEq ι]

theorem Tables.Wf.record_unique (hwf : tables.Wf) {r r' : RecordRow} (hr : r ∈ tables.records)
    (hr' : r' ∈ tables.records) (hproject : r.projectId = r'.projectId)
    (hversion : r.version = r'.version) : r = r' := by
  obtain ⟨p, hp, hpid⟩ := List.mem_map.mp (hwf.owned r hr)
  have hnodup : (tables.versions p.id).Nodup := by
    rw [hwf.versions p hp]
    exact List.nodup_range'
  refine List.inj_on_of_nodup_map hnodup ?_ ?_ hversion
  · exact List.mem_filter.mpr ⟨hr, by simp [hpid]⟩
  · exact List.mem_filter.mpr ⟨hr', by simp [hpid, hproject]⟩

theorem Tables.Wf.selectRecord (hwf : tables.Wf) {r : RecordRow} (hr : r ∈ tables.records) :
    tables.selectRecord r.projectId r.version = some r := by
  obtain ⟨r', hfind⟩ : ∃ r', tables.selectRecord r.projectId r.version = some r' := by
    rw [← Option.isSome_iff_exists]
    exact List.find?_isSome.mpr ⟨r, hr, by simp⟩
  have hkey : r'.projectId = r.projectId ∧ r'.version = r.version := by
    simpa using List.find?_some hfind
  rw [hfind, hwf.record_unique (List.mem_of_find?_eq_some hfind) hr hkey.1 hkey.2]

theorem parseSemanticRecord_eq_ok {row : RecordRow}
    (hsemantic : continuitySemanticInputSchema row.semantic = true) (hversion : 0 < row.version) :
    ∃ record, parseSemanticRecord row = .ok record := by
  refine ⟨{ row.semantic with recordVersion := row.version, createdAt := row.createdAt }, ?_⟩
  simp [parseSemanticRecord, continuitySemanticRecordSchema, hsemantic, hversion]

end

variable {unicode : CharacterDatabase}

section Issues

variable {ok : StoreOp → Prop}

theorem issues_parse (accepted : Bool) : (parse accepted).Issues ok := by
  unfold parse
  split
  · exact .pure _
  · exact .throw _

theorem issues_timestampNow (h : ok .isoDate) : timestampNow.Issues ok := by
  refine .request h fun r => ?_
  cases r with
  | some timestamp => exact .pure _
  | none => exact .throw _

theorem issues_getByAlias {aliasName : String}
    (h : ok (.selectByAlias (continuityAliasKey unicode aliasName))) :
    (getByAlias unicode aliasName).Issues ok :=
  .request h fun _ => .ofExcept _

theorem issues_register {input : RegisterProjectRecord} (hdate : ok .isoDate)
    (hselect : ∀ aliasKey, ok (.selectByAlias aliasKey))
    (hregister : ∀ input aliasKey timestamp, ok (.register input aliasKey timestamp)) :
    (register unicode input).Issues ok := by
  simp only [register, Program.bind_eq]
  refine .bind (.ofExcept _) fun aliasName => ?_
  refine .bind (issues_parse _) fun _ => .bind (issues_parse _) fun _ => ?_
  refine .bind (issues_parse _) fun _ => .bind (issues_parse _) fun _ => ?_
  refine .bind (issues_parse _) fun _ => .bind (issues_timestampNow hdate) fun _ => ?_
  refine .request (hregister _ _ _) fun result => ?_
  cases result with
  | ok _ => exact issues_getByAlias (hselect _)
  | error error => exact .throw _

theorem issues_rebind {input : RebindProjectRecord} (hdate : ok .isoDate)
    (hrebind : ∀ timestamp, ok (.rebind input timestamp)) : (rebind input).Issues ok := by
  simp only [rebind, Program.bind_eq]
  refine .bind (issues_parse _) fun _ => .bind (issues_parse _) fun _ => ?_
  refine .bind (issues_parse _) fun _ => .bind (issues_parse _) fun _ => ?_
  refine .bind (issues_timestampNow hdate) fun _ => .request (hrebind _) fun result => ?_
  cases result with
  | ok _ => exact .pure _
  | error error => exact .throw _

theorem issues_getRecord {projectId : String} {version : ℕ}
    (h : ok (.selectRecord projectId version)) : (getRecord projectId version).Issues ok := by
  refine .request h fun row => ?_
  cases row with
  | none => exact .throw _
  | some row => exact .ofExcept _

theorem issues_checkpoint {input : CheckpointProjectRecord} (hdate : ok .isoDate)
    (hselect : ∀ projectId version, ok (.selectRecord projectId version))
    (hcheckpoint : ∀ timestamp, ok (.checkpoint input timestamp)) :
    (checkpoint input).Issues ok := by
  simp only [checkpoint, Program.bind_eq]
  refine .bind (issues_parse _) fun _ => .bind (issues_parse _) fun _ => ?_
  refine .bind (issues_parse _) fun _ => .bind (issues_timestampNow hdate) fun _ => ?_
  refine .request (hcheckpoint _) fun result => ?_
  cases result with
  | ok version => exact issues_getRecord (hselect _ _)
  | error error => exact .throw _

theorem issues_updateOperationalState {projectId : String} {localState : ContinuityLocalState}
    {publishedState : ContinuityPublishedState} {inspectedPath : String}
    (h : ok (.updateState projectId localState publishedState inspectedPath)) :
    (updateOperationalState projectId localState publishedState inspectedPath).Issues ok := by
  simp only [updateOperationalState, Program.bind_eq]
  refine .bind (issues_parse _) fun _ => .bind (issues_parse _) fun _ => .request h fun result => ?_
  cases result with
  | ok changes =>
    show (if changes ≠ 1 then Program.throw continuityNotFound else Program.pure ()).Issues ok
    split
    · exact .throw _
    · exact .pure _
  | error error => exact .throw _

end Issues

def StoreCall.Issues (call : StoreCall) (o : StoreOp) : Prop :=
  ∀ input timestamp, o = .checkpoint input timestamp → call = .checkpoint input

omit [DecidableEq ι] in
theorem issues_program (call : StoreCall) : (call.program unicode).Issues call.Issues := by
  have hother : ∀ o : StoreOp, (∀ input timestamp, o ≠ .checkpoint input timestamp) →
      call.Issues o := fun o ho input timestamp h => absurd h (ho input timestamp)
  cases call with
  | register input =>
    refine .bind (issues_register (hother _ ?_) (fun _ => hother _ ?_)
      fun _ _ _ => hother _ ?_) fun _ => .pure _
    all_goals exact fun _ _ => by simp
  | rebind input =>
    refine .bind (issues_rebind (hother _ ?_) fun _ => hother _ ?_) fun _ => .pure _
    all_goals exact fun _ _ => by simp
  | checkpoint input =>
    refine .bind (issues_checkpoint (hother _ ?_) (fun _ _ => hother _ ?_) fun timestamp => ?_)
      fun _ => .pure _
    · exact fun _ _ => by simp
    · exact fun _ _ => by simp
    · rintro other timestamp' h
      rw [(StoreOp.checkpoint.inj h).1]
  | updateOperationalState projectId localState publishedState inspectedPath =>
    refine .bind (issues_updateOperationalState (hother _ ?_)) fun _ => .pure _
    exact fun _ _ => by simp

theorem wp_program (calls : ι → StoreCall) (i : ι) (database : Database ι) :
    ((calls i).program unicode).wp (storeExec i) (storeProtocol calls) i (fun _ _ => True)
      (fun _ _ => True) database :=
  Program.wp_of_issues (fun _ _ _ _ hok hinv hexec => storeExec_step hok hinv hexec)
    (issues_program _)

theorem eq_of_nodup_filterMap {α β : Type} {f : α → Option β} {l : List α}
    (hnodup : (l.filterMap f).Nodup) {a a' : α} {b : β} (ha : a ∈ l) (ha' : a' ∈ l)
    (hf : f a = some b) (hf' : f a' = some b) : a = a' := by
  induction l with
  | nil => exact absurd ha List.not_mem_nil
  | cons x l ih =>
    have himage : ∀ y ∈ l, f y = some b → b ∈ l.filterMap f := fun y hy h =>
      List.mem_filterMap.mpr ⟨y, hy, h⟩
    obtain rfl | hmem := List.mem_cons.mp ha
    · rw [List.filterMap_cons_some hf, List.nodup_cons] at hnodup
      obtain rfl | hmem' := List.mem_cons.mp ha'
      · rfl
      · exact absurd (himage a' hmem' hf') hnodup.1
    · obtain rfl | hmem' := List.mem_cons.mp ha'
      · rw [List.filterMap_cons_some hf', List.nodup_cons] at hnodup
        exact absurd (himage a hmem hf) hnodup.1
      · refine ih ?_ hmem hmem'
        cases hx : f x with
        | none => rwa [List.filterMap_cons_none hx] at hnodup
        | some y =>
          rw [List.filterMap_cons_some hx] at hnodup
          exact (List.nodup_cons.mp hnodup).2

/-! ## Checkpoints -/

/-- What the call has read or written since `start`. -/
structure Since (calls : ι → StoreCall) (i : ι) (start database : Database ι) : Prop where
  extends' : start.Extends database
  silent : database.commitsOf i = start.commitsOf i

theorem Since.rely {i : ι} {start later : Database ι} (h : Since calls i start database)
    (hrely : (storeProtocol calls).rely i database later) : Since calls i start later :=
  ⟨h.extends'.trans hrely.1, hrely.2.trans h.silent⟩

def Refused (calls : ι → StoreCall) (input : CheckpointProjectRecord)
    (start database : Database ι) : Prop :=
  ∃ mid, Database.Inv calls mid ∧ start.Extends mid ∧ mid.Extends database ∧
    currentRecordVersion? input.projectId mid.tables ≠ some input.expectedRecordVersion

omit [DecidableEq ι] in
theorem checkpointTransaction_eq_error {input : CheckpointProjectRecord} {timestamp : String}
    (h : checkpointTransaction input timestamp tables = .error (.app checkpointConflict)) :
    currentRecordVersion? input.projectId tables ≠ some input.expectedRecordVersion := by
  intro hcurrent
  rw [checkpointTransaction, hcurrent] at h
  simp only [ne_eq, not_true_eq_false, if_false, insertRecord, bind, Except.bind] at h
  split at h
  next error herror =>
    split at herror
    · rw [← Except.error.inj herror] at h
      cases h
    · split at herror
      · rw [← Except.error.inj herror] at h
        cases h
      · cases herror
  next => cases h

def Stored (i : ι) (input : CheckpointProjectRecord) (database : Database ι) : Prop :=
  ⟨i, input.projectId, .checkpointed (input.expectedRecordVersion + 1)⟩ ∈ database.commits

/-- A checkpoint that throws has committed nothing; a version conflict is one. -/
def Thrown (calls : ι → StoreCall) (i : ι) (input : CheckpointProjectRecord)
    (start : Database ι) (error : AppError) (database : Database ι) : Prop :=
  Since calls i start database ∧ (error = checkpointConflict → Refused calls input start database)

section Checkpoint

variable {i : ι} {input : CheckpointProjectRecord} {start : Database ι}

theorem wp_parse_checkpoint {accepted : Bool} (hsince : Since calls i start database) :
    (parse accepted).wp (storeExec i) (storeProtocol calls) i
      (fun _ d => accepted = true ∧ Since calls i start d) (Thrown calls i input start)
      database := by
  unfold parse
  split
  next haccepted => exact fun later hrely _ => ⟨haccepted, hsince.rely hrely⟩
  next => exact fun later hrely _ => ⟨hsince.rely hrely, fun h => by cases h⟩

theorem wp_timestampNow_checkpoint (hsince : Since calls i start database) :
    timestampNow.wp (storeExec i) (storeProtocol calls) i (fun _ d => Since calls i start d)
      (Thrown calls i input start) database := by
  intro later hrely hinv r later' hexec
  obtain rfl := storeExec_isoDate hexec
  obtain ⟨hinv', hguar⟩ := storeProtocol_read (i := i) hinv rfl rfl
  refine ⟨hinv', hguar, ?_⟩
  have hlater := hsince.rely hrely
  cases r with
  | some timestamp => exact fun last hrely' _ => hlater.rely hrely'
  | none => exact fun last hrely' _ => ⟨hlater.rely hrely', fun h => by cases h⟩

theorem wp_getRecord (row : RecordRow) (hrow : row ∈ database.tables.records)
    (hsemantic : continuitySemanticInputSchema row.semantic = true) (hversion : 0 < row.version)
    (hstored : Stored i input database) {E : AppError → Database ι → Prop} :
    (getRecord row.projectId row.version).wp (storeExec i) (storeProtocol calls) i
      (fun _ d => Stored i input d) E database := by
  intro later hrely hinv r later' hexec
  obtain ⟨rfl, rfl⟩ := storeExec_selectRecord hexec
  obtain ⟨hinv', hguar⟩ := storeProtocol_read (i := i) hinv rfl rfl
  refine ⟨hinv', hguar, ?_⟩
  rw [hinv.wf.selectRecord (hrely.1.records.subset hrow)]
  obtain ⟨record, hrecord⟩ := parseSemanticRecord_eq_ok hsemantic hversion
  show (Program.ofExcept (parseSemanticRecord row)).wp _ _ _ _ _ _
  rw [hrecord]
  exact fun last hrely' _ => hrely'.1.commits.subset (hrely.1.commits.subset hstored)

theorem wp_checkpoint (hcall : calls i = .checkpoint input) (hinv : database.Inv calls)
    (hsince : Since calls i start database) :
    (checkpoint input).wp (storeExec i) (storeProtocol calls) i (fun _ d => Stored i input d)
      (Thrown calls i input start) database := by
  simp only [checkpoint, Program.bind_eq]
  refine Program.wp_bind hinv (Program.wp_mono (wp_parse_checkpoint hsince) ?_ fun _ _ _ h => h)
  rintro - d hinv ⟨hsemantic, hsince⟩
  refine Program.wp_bind hinv (Program.wp_mono (wp_parse_checkpoint hsince) ?_ fun _ _ _ h => h)
  rintro - d hinv ⟨-, hsince⟩
  refine Program.wp_bind hinv (Program.wp_mono (wp_parse_checkpoint hsince) ?_ fun _ _ _ h => h)
  rintro - d hinv ⟨-, hsince⟩
  refine Program.wp_bind hinv (Program.wp_mono (wp_timestampNow_checkpoint hsince) ?_
    fun _ _ _ h => h)
  intro timestamp d hinv hsince later hrely hinv r later' hexec
  have hlater := hsince.rely hrely
  have hstep := storeExec_step (fun other timestamp' h => by
    rw [hcall, (StoreOp.checkpoint.inj h).1]) hinv hexec
  refine ⟨hstep.1, hstep.2, ?_⟩
  obtain ⟨error, rfl, rfl, herror⟩ | ⟨version, tables, hresult, rfl, rfl⟩ :=
    storeExec_checkpoint hexec
  · rintro last hrely' -
    refine ⟨hlater.rely hrely', fun hconflict => ⟨later', hinv, hlater.extends', hrely'.1, ?_⟩⟩
    obtain ⟨code, rfl⟩ | herror := herror
    · cases code <;> cases hconflict
    · cases error with
      | sqlite code => cases code <;> cases hconflict
      | app error =>
        obtain rfl : error = checkpointConflict := hconflict
        exact checkpointTransaction_eq_error herror
  · obtain ⟨-, rfl, rfl⟩ := checkpointTransaction_eq_ok hresult
    exact wp_getRecord ⟨input.projectId, input.expectedRecordVersion + 1, input.semantic,
      timestamp⟩ (List.mem_append_right _ List.mem_cons_self) hsemantic
      (Nat.succ_pos _) List.mem_cons_self

end Checkpoint

/-! ## All runs -/

def programs (unicode : CharacterDatabase) (calls : ι → StoreCall) :
    Pool ι StoreOp StoreOp.Res AppError CallResult :=
  fun i => (calls i).program unicode

abbrev StoreConfiguration (ι : Type) : Type :=
  Pool ι StoreOp StoreOp.Res AppError CallResult × Database ι

def Returned (c : StoreConfiguration ι) (i : ι) : Prop := ∃ a, c.1 i = .pure a

def Ended (c : StoreConfiguration ι) (i : ι) : Prop := Returned c i ∨ ∃ error, c.1 i = .throw error

def Submitted (calls : ι → StoreCall) (projectId : String) (version : ℕ) (i : ι) : Prop :=
  ∃ input, calls i = .checkpoint input ∧ input.projectId = projectId ∧
    input.expectedRecordVersion = version

/-- A write whose transaction fails, or that finds no row to change. -/
def StoreOp.Failed : (o : StoreOp) → o.Res → Prop
  | .register _ _ _, result => ∃ error, result = .error error
  | .rebind _ _, result => ∃ error, result = .error error
  | .checkpoint _ _, result => ∃ error, result = .error error
  | .updateState _ _ _ _, result =>
    (∃ error, result = .error error) ∨ ∃ changes, result = .ok changes ∧ changes ≠ 1
  | _, _ => False

section Pool

variable {c₀ c : StoreConfiguration ι}

def CheckpointSafe (calls : ι → StoreCall) (start : Database ι) (fresh : ι → Prop)
    (c : StoreConfiguration ι) : Prop :=
  Pool.Safe storeExec (storeProtocol calls)
    (fun i _ d => ∀ input, fresh i → calls i = .checkpoint input → Stored i input d)
    (fun i error d => ∀ input, fresh i → calls i = .checkpoint input →
      Thrown calls i input start error d) c

theorem checkpointSafe_of_fresh (fresh : ι → Prop)
    (hsafe : Pool.Safe storeExec (storeProtocol calls) (fun _ _ _ => True) (fun _ _ _ => True) c)
    (hfresh : ∀ i, fresh i → c.1 i = (calls i).program unicode) :
    CheckpointSafe calls c.2 fresh c := by
  refine ⟨hsafe.1, fun i => ?_⟩
  by_cases hi : fresh i ∧ ∃ input, calls i = .checkpoint input
  · obtain ⟨hi, input, hcall⟩ := hi
    rw [hfresh i hi, hcall]
    refine Program.wp_bind hsafe.1 (Program.wp_mono
      (wp_checkpoint hcall hsafe.1 ⟨.refl c.2, rfl⟩) ?_ ?_)
    · intro record d _ hstored later hrely _ other _ hother
      rw [hcall, StoreCall.checkpoint.injEq] at hother
      exact hother ▸ hrely.1.commits.subset hstored
    · intro error d _ hthrown other _ hother
      rw [hcall, StoreCall.checkpoint.injEq] at hother
      exact hother ▸ hthrown
  · refine Program.wp_mono (hsafe.2 i) ?_ ?_
    · exact fun _ _ _ _ input hfresh hcall => absurd ⟨hfresh, input, hcall⟩ hi
    · exact fun _ _ _ _ input hfresh hcall => absurd ⟨hfresh, input, hcall⟩ hi

theorem safe_of_run
    (hrun : Pool.Run storeExec (fun _ _ => True) (programs unicode calls, .new) c) :
    Pool.Safe storeExec (storeProtocol calls) (fun _ _ _ => True) (fun _ _ _ => True) c :=
  Pool.wp_run (fun _ _ _ _ _ h => h) hrun
    ⟨⟨Tables.wf_empty, fun _ => rfl, fun _ h => absurd h List.not_mem_nil⟩,
      fun i => wp_program calls i _⟩

theorem checkpointSafe_of_run
    (hrun : Pool.Run storeExec (fun _ _ => True) (programs unicode calls, .new) c) :
    CheckpointSafe calls .new (fun _ => True) c :=
  Pool.wp_run (fun _ _ _ _ _ h => h) hrun
    (checkpointSafe_of_fresh (c := (programs unicode calls, .new)) _ (safe_of_run (.refl _))
      fun _ _ => rfl)

theorem extends_of_run
    (hsafe : Pool.Safe storeExec (storeProtocol calls) (fun _ _ _ => True) (fun _ _ _ => True) c₀)
    (hrun : Pool.Run storeExec (fun _ _ => True) c₀ c) : c₀.2.Extends c.2 := by
  induction hrun with
  | refl => exact .refl _
  | @step mid last i hrun _ hstep ih =>
    refine ih.trans ?_
    have hmid := Pool.wp_run (fun _ _ _ _ _ h => h) hrun hsafe
    cases hstep with
    | @intro pool database o k r later hpool hexec =>
      have hwp := hmid.2 i
      rw [show (pool, database).1 i = _ from hpool] at hwp
      obtain ⟨-, hguar, -⟩ :=
        hwp database ((storeProtocol calls).rely_refl i _) hmid.1 r later hexec
      exact hguar.1

variable {projectId : String}

omit [DecidableEq ι] in
theorem Database.Inv.commit_unique (hinv : database.Inv calls) {event event' : Commit ι}
    (hevent : event ∈ database.commits) (hevent' : event' ∈ database.commits)
    (hproject : event'.projectId = event.projectId) (hkind : event.kind = .checkpointed version)
    (hkind' : event'.kind = .checkpointed version) : event = event' := by
  have hnodup : (database.commits.filterMap (Commit.checkpointed? event.projectId)).Nodup := by
    rw [← List.nodup_reverse, hinv.checkpoints]
    exact List.nodup_range'
  exact eq_of_nodup_filterMap hnodup hevent hevent'
    (Commit.checkpointed?_eq_some.mpr ⟨hkind, rfl⟩)
    (Commit.checkpointed?_eq_some.mpr ⟨hkind', hproject⟩)

omit [DecidableEq ι] in
theorem Database.Inv.exists_commit (hinv : database.Inv calls) {current : ℕ} (hpos : 1 ≤ version)
    (hlt : version < current)
    (hcurrent : currentRecordVersion? projectId database.tables = some current) :
    ∃ event ∈ database.commits, event.kind = .checkpointed (version + 1) ∧
      Submitted calls projectId version event.call := by
  have hmem : version + 1 ∈
      (database.commits.filterMap (Commit.checkpointed? projectId)).reverse := by
    rw [hinv.checkpoints, hcurrent, Option.getD_some, List.mem_range'_1]
    omega
  obtain ⟨event, hevent, hkind⟩ := List.mem_filterMap.mp (List.mem_reverse.mp hmem)
  obtain ⟨hkind, hproject⟩ := Commit.checkpointed?_eq_some.mp hkind
  obtain ⟨input, hcall, hid, hversion⟩ := hinv.authors event hevent _ hkind
  exact ⟨event, hevent, hkind, input, hcall, hid.trans hproject,
    (Nat.succ.inj hversion).symm⟩

theorem returned_unique
    (hrun : Pool.Run storeExec (fun _ _ => True) (programs unicode calls, .new) c) {i j : ι}
    (hi : Submitted calls projectId version i) (hj : Submitted calls projectId version j)
    (hri : Returned c i) (hrj : Returned c j) : i = j := by
  have hsafe := checkpointSafe_of_run hrun
  obtain ⟨a, ha⟩ := hri
  obtain ⟨b, hb⟩ := hrj
  obtain ⟨input, hcall, rfl, rfl⟩ := hi
  obtain ⟨input', hcall', hproject, hversion⟩ := hj
  have hstored := hsafe.value ha input trivial hcall
  have hstored' := hsafe.value hb input' trivial hcall'
  have hsame := hsafe.1.commit_unique hstored hstored' hproject rfl (by rw [hversion])
  exact congrArg Commit.call hsame

theorem returned_of_commit
    (hrun : Pool.Run storeExec (fun _ _ => True) (programs unicode calls, .new) c)
    {event : Commit ι} (hevent : event ∈ c.2.commits)
    (hsubmitted : Submitted calls projectId version event.call) (hended : Ended c event.call) :
    Returned c event.call := by
  obtain hreturned | ⟨error, herror⟩ := hended
  · exact hreturned
  · have hsafe := checkpointSafe_of_run hrun
    obtain ⟨input, hcall, -⟩ := hsubmitted
    have hsilent := (hsafe.error herror input trivial hcall).1.silent
    have hmem : event ∈ c.2.commitsOf event.call := List.mem_filter.mpr ⟨hevent, by simp⟩
    rw [hsilent] at hmem
    exact absurd hmem List.not_mem_nil

theorem tables_of_failed (hwf : database.tables.Wf) {i : ι} {o : StoreOp} {r : o.Res}
    {later : Database ι} (hexec : storeExec i o database r later) (hfailed : o.Failed r) :
    later.tables = database.tables := by
  cases o with
  | isoDate => exact hfailed.elim
  | selectByAlias aliasKey => exact hfailed.elim
  | selectRecord projectId version => exact hfailed.elim
  | register input aliasKey timestamp =>
    obtain ⟨error, rfl⟩ := hfailed
    obtain ⟨-, -, rfl⟩ | ⟨tables, -, h, -⟩ := storeExec_register hexec
    · rfl
    · cases h
  | rebind input timestamp =>
    obtain ⟨error, rfl⟩ := hfailed
    obtain ⟨-, -, rfl⟩ | ⟨tables, -, h, -⟩ := storeExec_rebind hexec
    · rfl
    · cases h
  | checkpoint input timestamp =>
    obtain ⟨error, rfl⟩ := hfailed
    obtain ⟨-, -, rfl, -⟩ | ⟨version, tables, -, h, -⟩ := storeExec_checkpoint hexec
    · rfl
    · cases h
  | updateState projectId localState publishedState inspectedPath =>
    obtain ⟨-, -, rfl⟩ | ⟨hr, rfl⟩ := storeExec_updateState hexec
    · rfl
    · obtain ⟨error, rfl⟩ | ⟨changes, rfl, hchanges⟩ := hfailed
      · cases hr
      · -- the ids are distinct, so the statement has found no row
        obtain rfl := Except.ok.inj hr
        have hnone : ∀ row ∈ database.tables.worktrees, row.projectId ≠ projectId := by
          intro row hrow hid
          refine hchanges (hwf.worktree_count ?_)
          rw [← hwf.worktreeIds, ← hid]
          exact List.mem_map_of_mem hrow
        exact updateWorktree_eq_self hnone

/-- Over every interleaving of the store's calls, from an empty database: the versions of a
project are `1` to its current one, stored records stay, of the checkpoints of one project with
one expected version at most one succeeds, and one does if one of them started at that version
and was not stopped by anything but a version conflict; failed writes change nothing, a project
has one worktree, and alias keys and paths are unique. -/
theorem invariant_of_run
    (hrun₀ : Pool.Run storeExec (fun _ _ => True) (programs unicode calls, .new) c₀)
    (hrun : Pool.Run storeExec (fun _ _ => True) c₀ c) :
    (∀ p ∈ c.2.tables.projects,
      c.2.tables.versions p.id = List.range' 1 p.currentRecordVersion) ∧
    c₀.2.tables.records <+: c.2.tables.records ∧
    (∀ projectId version i j, Submitted calls projectId version i →
      Submitted calls projectId version j → Returned c i → Returned c j → i = j) ∧
    (∀ projectId version, currentRecordVersion? projectId c₀.2.tables = some version →
      (∀ i, Submitted calls projectId version i → Ended c i) →
      (∃ i, Submitted calls projectId version i ∧ c₀.1 i = (calls i).program unicode ∧
        (Returned c i ∨ c.1 i = .throw checkpointConflict)) →
      ∃! i, Submitted calls projectId version i ∧ Returned c i) ∧
    (∀ i o r later, storeExec i o c.2 r later → o.Failed r → later.tables = c.2.tables) ∧
    (∀ p ∈ c.2.tables.projects,
      (c.2.tables.worktrees.filter (·.projectId = p.id)).length = 1) ∧
    (c.2.tables.projects.map (·.aliasKey)).Nodup ∧
    (c.2.tables.worktrees.map (·.worktree.canonicalPath)).Nodup := by
  have hstart := safe_of_run hrun₀
  have hall := hrun₀.trans hrun
  have hwf := (safe_of_run hall).1.wf
  have hextends := extends_of_run hstart hrun
  refine ⟨hwf.versions, hextends.records, fun projectId version i j => returned_unique hall, ?_,
    fun i o r later => tables_of_failed hwf, ?_, hwf.aliasKeys, hwf.paths⟩
  · rintro projectId version hcurrent hended ⟨i, hi, hfresh, houtcome⟩
    have hunique : ∀ j, Submitted calls projectId version j → Returned c j →
        ∃! i, Submitted calls projectId version i ∧ Returned c i := fun j hj hr =>
      ⟨j, ⟨hj, hr⟩, fun k hk => returned_unique hall hk.1 hj hk.2 hr⟩
    obtain hreturned | hconflict := houtcome
    · exact hunique i hi hreturned
    · -- when the conflict was found, another checkpoint had moved the version on
      have hsafe := Pool.wp_run (fun _ _ _ _ _ h => h) hrun
        (checkpointSafe_of_fresh (· = i) hstart (by rintro _ rfl; exact hfresh))
      obtain ⟨input, hcall, rfl, rfl⟩ := hi
      obtain ⟨mid, hmid, hbefore, hafter, hne⟩ :=
        (hsafe.error hconflict input rfl hcall).2 rfl
      obtain ⟨current, hmidCurrent, hle⟩ := hbefore.versions _ _ hcurrent
      have hlt : input.expectedRecordVersion < current :=
        lt_of_le_of_ne hle fun h => hne (h ▸ hmidCurrent)
      have hpos : 1 ≤ input.expectedRecordVersion := by
        obtain ⟨p, hp, -, hversion⟩ := currentRecordVersion?_eq_some hcurrent
        exact hversion ▸ hstart.1.wf.current p hp
      obtain ⟨event, hevent, -, hsubmitted⟩ := hmid.exists_commit hpos hlt hmidCurrent
      exact hunique _ hsubmitted (returned_of_commit hall (hafter.commits.subset hevent)
        hsubmitted (hended _ hsubmitted))
  · exact fun p hp => hwf.worktree_count (List.mem_map_of_mem hp)

end Pool

end Run

/-! ## Two checkpoints of one version -/

section Example

/-- The characters an example needs: nothing is decomposed or composed. -/
def plainCharacters : CharacterDatabase where
  decomposition c := [c]
  combiningClass _ := 0
  primaryComposite _ _ := none
  lowercase c := [c.toLower]
  cased c := c.isAlpha
  caseIgnorable _ := false

def hexDigits (n : ℕ) : String := String.ofList (List.replicate n 'a')

def worktreeAt (path : String) : StoredWorktreeIdentity :=
  ⟨path, path, path, path, hexDigits 64, hexDigits 64⟩

def localStateOf (branch : String) : ContinuityLocalState :=
  ⟨"t", some branch, hexDigits 40, [], [], [], false⟩

def unverifiedRef : RemoteRefState := ⟨.unverified, none, none, "t", none, none, none⟩

def unverifiedState : ContinuityPublishedState := ⟨false, unverifiedRef, unverifiedRef⟩

def semanticOf (goal : String) : ContinuitySemanticInput :=
  ⟨⟨goal, [], [], .active, "n", none, none, none, none⟩, [], [], []⟩

def projectAt (path aliasName : String) : RegisterProjectRecord :=
  ⟨"p", aliasName, [path], worktreeAt path, localStateOf "b", unverifiedState, path,
    semanticOf "g"⟩

def checkpointOf (version : ℕ) : CheckpointProjectRecord :=
  ⟨"p", version, semanticOf "h", localStateOf "b", unverifiedState, "/w"⟩

/-- The first call registers a project, the others are checkpoints of one version. -/
def registerAndCheckpoint (version : ℕ) : Fin 3 → StoreCall
  | 0 => .register (projectAt "/w" "A")
  | _ => .checkpoint (checkpointOf version)

theorem storeRun_of_moves {moves : List (Fin 3 × StoreChoice)}
    {c₀ c : StoreConfiguration (Fin 3)} (h : Pool.schedule StoreOp.apply moves c₀ = some c) :
    Pool.Run storeExec (fun _ _ => True) c₀ c :=
  Pool.run_of_schedule (fun x _ _ _ _ _ hx => ⟨x, hx⟩) moves (.refl _) h

/-- Whether a call has been refused for its version, or has returned. -/
def isConflict : StoreM CallResult → Bool
  | .throw error => error = checkpointConflict
  | _ => false

def isReturned : StoreM CallResult → Bool
  | .pure _ => true
  | _ => false

theorem eq_throw_of_isConflict {p : StoreM CallResult} (h : isConflict p = true) :
    p = .throw checkpointConflict := by
  cases p with
  | pure a => cases h
  | throw error => rw [of_decide_eq_true h]
  | request o k => cases h

theorem exists_of_isReturned {p : StoreM CallResult} (h : isReturned p = true) :
    ∃ a, p = .pure a := by
  cases p with
  | pure a => exact ⟨a, rfl⟩
  | throw error => cases h
  | request o k => cases h

theorem submitted_iff {version : ℕ} {i : Fin 3} :
    Submitted (registerAndCheckpoint version) "p" version i ↔ i = 1 ∨ i = 2 := by
  constructor
  · rintro ⟨input, hcall, -⟩
    match i with
    | 0 => cases hcall
    | 1 => exact .inl rfl
    | 2 => exact .inr rfl
  · rintro (rfl | rfl)
    · exact ⟨checkpointOf version, rfl, rfl, rfl⟩
    · exact ⟨checkpointOf version, rfl, rfl, rfl⟩

/-- Registered, then checkpointed twice at once: one of the two checkpoints succeeds. -/
theorem invariant_of_run_registered : ∃ c,
    Pool.Run storeExec (fun _ _ => True)
      (programs plainCharacters (registerAndCheckpoint 1), .new) c ∧
    ∃! i, Submitted (registerAndCheckpoint 1) "p" 1 i ∧ Returned c i := by
  have hregister : (Pool.schedule StoreOp.apply [(0, .date (some "t")), (0, .done), (0, .done)]
      (programs plainCharacters (registerAndCheckpoint 1), Database.new)).map (fun c =>
        currentRecordVersion? "p" c.2.tables) = some (some 1) := by
    decide +kernel
  obtain ⟨c₀, hc₀, hversion⟩ := Option.map_eq_some_iff.mp hregister
  have hfresh : c₀.1 2 = (registerAndCheckpoint 1 2).program plainCharacters :=
    Pool.schedule_of_still _ (by decide) hc₀
  have hcheckpoint : ((Pool.schedule StoreOp.apply
      [(0, .date (some "t")), (0, .done), (0, .done)]
      (programs plainCharacters (registerAndCheckpoint 1), Database.new)).bind
        (Pool.schedule StoreOp.apply [(1, .date (some "t")), (2, .date (some "t")), (1, .done),
          (2, .done), (1, .done)])).map (fun c => (isReturned (c.1 1), isConflict (c.1 2))) =
      some (true, true) := by
    decide +kernel
  rw [hc₀, Option.bind_some] at hcheckpoint
  obtain ⟨c, hc, houtcomes⟩ := Option.map_eq_some_iff.mp hcheckpoint
  obtain ⟨hreturned, hconflict⟩ := Prod.mk.inj houtcomes
  have hrun₀ := storeRun_of_moves hc₀
  refine ⟨c, hrun₀.trans (storeRun_of_moves hc),
    (invariant_of_run hrun₀ (storeRun_of_moves hc)).2.2.2.1 "p" 1 hversion (fun i hi => ?_)
      ⟨2, submitted_iff.mpr (.inr rfl), hfresh, .inr (eq_throw_of_isConflict hconflict)⟩⟩
  obtain rfl | rfl := submitted_iff.mp hi
  · exact .inl (exists_of_isReturned hreturned)
  · exact .inr ⟨_, eq_throw_of_isConflict hconflict⟩

/-- Two checkpoints that expect a version the project has not reached: none of them succeeds. -/
theorem stale_checkpoints_refused : ∃ c,
    Pool.Run storeExec (fun _ _ => True)
      (programs plainCharacters (registerAndCheckpoint 2), .new) c ∧
    (∀ i, Ended c i) ∧ Submitted (registerAndCheckpoint 2) "p" 2 1 ∧
    Submitted (registerAndCheckpoint 2) "p" 2 2 ∧
    ¬ ∃ i, Submitted (registerAndCheckpoint 2) "p" 2 i ∧ Returned c i := by
  have hfinal : (Pool.schedule StoreOp.apply [(0, .date (some "t")), (0, .done), (0, .done),
      (1, .date (some "t")), (2, .date (some "t")), (1, .done), (2, .done)]
      (programs plainCharacters (registerAndCheckpoint 2), Database.new)).map (fun c =>
        (isReturned (c.1 0), isConflict (c.1 1), isConflict (c.1 2))) =
      some (true, true, true) := by
    decide +kernel
  obtain ⟨c, hc, houtcomes⟩ := Option.map_eq_some_iff.mp hfinal
  obtain ⟨h₀, h₁, h₂⟩ : _ ∧ _ ∧ _ := by simpa only [Prod.mk.injEq] using houtcomes
  refine ⟨c, storeRun_of_moves hc, fun i => ?_, submitted_iff.mpr (.inl rfl),
    submitted_iff.mpr (.inr rfl), ?_⟩
  · match i with
    | 0 => exact .inl (exists_of_isReturned h₀)
    | 1 => exact .inr ⟨_, eq_throw_of_isConflict h₁⟩
    | 2 => exact .inr ⟨_, eq_throw_of_isConflict h₂⟩
  · rintro ⟨i, hi, a, ha⟩
    obtain rfl | rfl := submitted_iff.mp hi
    · rw [eq_throw_of_isConflict h₁] at ha
      cases ha
    · rw [eq_throw_of_isConflict h₂] at ha
      cases ha

end Example

end Continuity
