import ChatgptSystem.Continuity.StoreInvariant

/-!
# Registration and the alias key

`register` commits first and then looks the project up by the key of its alias. The lookup applies
the key function once more, to the key. That function trims first, and normalisation and
lower-casing can bring white space to an end of the text or leave it denormalised: then the key of a
key is another text.

* `Admitted` — the schemas accept a registration and no constraint forbids it;
* `Atomic` — `register` throws with the tables unchanged, or returns the project, which every
  spelling of its alias then finds;
* `register_atomic_iff` — exactly when an admitted alias has a key that is its own key.
-/

open Interleaving

namespace Continuity

variable {ι : Type} [DecidableEq ι] {unicode : CharacterDatabase} {call : ι}
  {input : RegisterProjectRecord} {database : Database ι}

def registeredProject (input : RegisterProjectRecord) (name aliasKey timestamp : String) :
    StoredProject :=
  { id := input.id
    aliasName := name
    aliasKey
    roots := input.roots
    worktree := input.worktree
    localState := input.localState
    publishedState := input.publishedState
    currentRecord := { input.semantic with recordVersion := 1, createdAt := timestamp }
    createdAt := timestamp
    updatedAt := timestamp }

/-- `getByAlias` finds a project by a spelling of an alias. -/
def Finds (unicode : CharacterDatabase) (tables : Tables) (spelling : String)
    (project : StoredProject) : Prop :=
  storedProject (tables.selectByAlias (continuityAliasKey unicode spelling)) = .ok project

/-- A registration has committed the project, and every spelling with the key of its alias finds
it, the key as well. -/
def Committed (unicode : CharacterDatabase) (input : RegisterProjectRecord)
    (database : Database ι) (project : StoredProject) (later : Database ι) : Prop :=
  ∃ name timestamp, continuityAliasSchema input.aliasName = .ok name ∧
    registerTransaction { input with aliasName := name } (continuityAliasKey unicode name)
      timestamp database.tables = .ok later.tables ∧
    project = registeredProject input name (continuityAliasKey unicode name) timestamp ∧
    (∀ spelling, continuityAliasKey unicode spelling = continuityAliasKey unicode name →
      Finds unicode later.tables spelling project) ∧
    Finds unicode later.tables (continuityAliasKey unicode name) project

/-- A registration that throws has left the tables unchanged; one that returns has committed
the project it returns. -/
def Atomic (unicode : CharacterDatabase) (call : ι) (input : RegisterProjectRecord)
    (database : Database ι) : Prop :=
  ∀ p later, Program.Steps (storeExec call) (register unicode input, database) (p, later) →
    (∀ error, p = .throw error → later.tables = database.tables) ∧
    ∀ project, p = .pure project → Committed unicode input database project later

/-- The schemas accept the registration under this alias, and its id, key and path are free. -/
structure Admitted (unicode : CharacterDatabase) (input : RegisterProjectRecord) (name : String)
    (tables : Tables) : Prop where
  aliasName : continuityAliasSchema input.aliasName = .ok name
  roots : continuityProjectRootsSchema input.roots = true
  worktree : storedWorktreeIdentitySchema input.worktree = true
  localState : continuityLocalStateSchema input.localState = true
  publishedState : continuityPublishedStateSchema input.publishedState = true
  semantic : continuitySemanticInputSchema input.semantic = true
  id : ∀ p ∈ tables.projects, p.id ≠ input.id
  aliasKey : ∀ p ∈ tables.projects, p.aliasKey ≠ continuityAliasKey unicode name
  path : ∀ w ∈ tables.worktrees, w.worktree.canonicalPath ≠ input.worktree.canonicalPath

/-! ## The lookup after the commit -/

section Lookup

variable {tables tables' : Tables} {name aliasKey timestamp : String}

theorem Tables.Wf.fresh (hwf : tables.Wf) {id : String} (hid : ∀ p ∈ tables.projects, p.id ≠ id) :
    (∀ w ∈ tables.worktrees, w.projectId ≠ id) ∧ ∀ r ∈ tables.records, r.projectId ≠ id := by
  have hnew : id ∉ tables.projects.map (·.id) := by simpa [List.mem_map] using hid
  refine ⟨fun w hw he => hnew ?_, fun r hr he => hnew (he ▸ hwf.owned r hr)⟩
  rw [← hwf.worktreeIds, ← he]
  exact List.mem_map_of_mem hw

theorem selectByAlias_register (hwf : tables.Wf)
    (h : registerTransaction input aliasKey timestamp tables = .ok tables') :
    tables'.selectByAlias aliasKey = some
      ⟨⟨input.id, input.aliasName, aliasKey, input.roots, 1, timestamp, timestamp⟩,
        ⟨input.id, input.worktree, input.localState, input.publishedState,
          input.localState.checkedAt, input.inspectedPath⟩,
        ⟨input.id, 1, input.semantic, timestamp⟩⟩ := by
  obtain ⟨hid, hkey, -, rfl⟩ := registerTransaction_eq_ok h
  obtain ⟨hworktrees, hrecords⟩ := hwf.fresh hid
  have hproject : tables.projects.find? (·.aliasKey = aliasKey) = none :=
    List.find?_eq_none.mpr fun p hp => by simpa using hkey p hp
  have hworktree : tables.worktrees.find? (·.projectId = input.id) = none :=
    List.find?_eq_none.mpr fun w hw => by simpa using hworktrees w hw
  have hrecord : tables.records.find? (fun r =>
      decide (r.projectId = input.id) && decide (r.version = 1)) = none :=
    List.find?_eq_none.mpr fun r hr => by simpa using fun he => absurd he (hrecords r hr)
  simp only [Tables.selectByAlias, List.find?_append, hproject, Option.none_or]
  simp [hworktree, hrecord]

theorem selectByAlias_aliasKey {rows : ProjectRows}
    (h : tables.selectByAlias aliasKey = some rows) : rows.project.aliasKey = aliasKey := by
  simp only [Tables.selectByAlias, bind, Option.bind_eq_some_iff] at h
  obtain ⟨project, hproject, worktree, -, record, -, hrows⟩ := h
  obtain rfl := Option.some.inj hrows
  simpa using List.find?_some hproject

theorem registerTransaction_of_free (input : RegisterProjectRecord) (timestamp : String)
    (hwf : tables.Wf)
    (hid : ∀ p ∈ tables.projects, p.id ≠ input.id)
    (hkey : ∀ p ∈ tables.projects, p.aliasKey ≠ aliasKey)
    (hpath : ∀ w ∈ tables.worktrees,
      w.worktree.canonicalPath ≠ input.worktree.canonicalPath) :
    ∃ tables', registerTransaction input aliasKey timestamp tables = .ok tables' := by
  obtain ⟨hworktrees, hrecords⟩ := hwf.fresh hid
  refine ⟨⟨tables.projects ++
      [⟨input.id, input.aliasName, aliasKey, input.roots, 1, timestamp, timestamp⟩],
    tables.worktrees ++ [⟨input.id, input.worktree, input.localState, input.publishedState,
      input.localState.checkedAt, input.inspectedPath⟩],
    tables.records ++ [⟨input.id, 1, input.semantic, timestamp⟩]⟩, ?_⟩
  rw [registerTransaction, insertProject, if_neg (by simpa using hid),
    if_neg (by simpa using hkey)]
  simp only [bind, Except.bind]
  rw [insertWorktree, if_neg (by simpa using hworktrees), if_neg (by simpa using hpath),
    if_neg (by simp)]
  dsimp only
  rw [insertRecord, if_neg (by simpa using fun r hr he => absurd he (hrecords r hr)),
    if_neg (by simp)]

end Lookup

/-! ## Atomicity -/

theorem storedProject_register {name aliasKey timestamp : String}
    (hroots : continuityProjectRootsSchema input.roots = true)
    (hworktree : storedWorktreeIdentitySchema input.worktree = true)
    (hlocal : continuityLocalStateSchema input.localState = true)
    (hpublished : continuityPublishedStateSchema input.publishedState = true)
    (hsemantic : continuitySemanticInputSchema input.semantic = true) :
    storedProject (some ⟨⟨input.id, name, aliasKey, input.roots, 1, timestamp, timestamp⟩,
      ⟨input.id, input.worktree, input.localState, input.publishedState,
        input.localState.checkedAt, input.inspectedPath⟩,
      ⟨input.id, 1, input.semantic, timestamp⟩⟩) =
      .ok (registeredProject input name aliasKey timestamp) := by
  refine if_pos ?_
  simp [ProjectRows.accepted, ProjectRows.currentRecord, continuitySemanticRecordSchema, hroots,
    hworktree, hlocal, hpublished, hsemantic]

section Alone

def Unchanged (database : Database ι) (_ : AppError) (later : Database ι) : Prop :=
  later.tables = database.tables

theorem wp_parse_alone {accepted : Bool} :
    (parse accepted).wp (storeExec call) (.alone fun _ => True) ()
      (fun _ d => accepted = true ∧ d = database) (Unchanged database) database := by
  unfold parse
  split
  next haccepted => exact fun later hlater _ => ⟨haccepted, hlater.symm⟩
  next =>
    rintro later rfl -
    exact rfl

theorem wp_timestampNow_alone :
    timestampNow.wp (storeExec call) (.alone fun _ => True) () (fun _ d => d = database)
      (Unchanged database) database := by
  rintro _ rfl - r later hexec
  obtain rfl := storeExec_isoDate hexec
  refine ⟨trivial, trivial, ?_⟩
  cases r with
  | some timestamp => exact fun _ hsame _ => hsame.symm
  | none =>
    rintro _ rfl -
    exact rfl

theorem wp_register (call : ι) (hwf : database.tables.Wf)
    (hfixed : ∀ name, Admitted unicode input name database.tables →
      continuityAliasKey unicode (continuityAliasKey unicode name) =
        continuityAliasKey unicode name) :
    (register unicode input).wp (storeExec call) (.alone fun _ => True) ()
      (Committed unicode input database) (Unchanged database) database := by
  simp only [register, Program.bind_eq]
  cases hname : continuityAliasSchema input.aliasName with
  | error error =>
    rintro _ rfl -
    exact rfl
  | ok name =>
    simp only [Program.ofExcept, Program.bind]
    refine Program.wp_bind trivial (Program.wp_mono wp_parse_alone ?_ fun _ _ _ h => h)
    rintro - _ - ⟨hroots, rfl⟩
    refine Program.wp_bind trivial (Program.wp_mono wp_parse_alone ?_ fun _ _ _ h => h)
    rintro - _ - ⟨hworktree, rfl⟩
    refine Program.wp_bind trivial (Program.wp_mono wp_parse_alone ?_ fun _ _ _ h => h)
    rintro - _ - ⟨hlocal, rfl⟩
    refine Program.wp_bind trivial (Program.wp_mono wp_parse_alone ?_ fun _ _ _ h => h)
    rintro - _ - ⟨hpublished, rfl⟩
    refine Program.wp_bind trivial (Program.wp_mono wp_parse_alone ?_ fun _ _ _ h => h)
    rintro - _ - ⟨hsemantic, rfl⟩
    refine Program.wp_bind trivial (Program.wp_mono wp_timestampNow_alone ?_ fun _ _ _ h => h)
    rintro timestamp database - rfl
    rintro _ rfl - r later hexec
    refine ⟨trivial, trivial, ?_⟩
    obtain ⟨error, rfl, rfl⟩ | ⟨tables, hresult, rfl, rfl⟩ := storeExec_register hexec
    · rintro _ rfl -
      exact rfl
    · obtain ⟨hid, hkey, hpath, -⟩ := registerTransaction_eq_ok hresult
      have hsame := hfixed name
        ⟨hname, hroots, hworktree, hlocal, hpublished, hsemantic, hid, hkey, hpath⟩
      have hselect := selectByAlias_register hwf hresult
      have hfinds : ∀ spelling,
          continuityAliasKey unicode spelling = continuityAliasKey unicode name →
          Finds unicode tables spelling
            (registeredProject input name (continuityAliasKey unicode name) timestamp) := by
        intro spelling hspelling
        rw [Finds, hspelling, hselect]
        exact storedProject_register hroots hworktree hlocal hpublished hsemantic
      -- the lookup by the key finds the same rows as the lookup by the alias
      rintro _ rfl - r later hexec
      obtain ⟨rfl, rfl⟩ := storeExec_selectByAlias hexec
      refine ⟨trivial, trivial, ?_⟩
      show (Program.ofExcept (storedProject (tables.selectByAlias _))).wp _ _ _ _ _ _
      rw [show storedProject _ = _ from hfinds _ hsame]
      rintro _ rfl -
      refine ⟨name, timestamp, hname, ?_, rfl, ?_, ?_⟩
      · rw [Database.noteRead_tables]
        exact hresult
      · rw [Database.noteRead_tables]
        exact hfinds
      · rw [Database.noteRead_tables]
        exact hfinds _ hsame

theorem steps_of_admitted (call : ι) {name : String} (hwf : database.tables.Wf)
    (h : Admitted unicode input name database.tables) :
    ∃ later : Database ι, (∃ timestamp, registerTransaction { input with aliasName := name }
        (continuityAliasKey unicode name) timestamp database.tables = .ok later.tables) ∧
      Program.Steps (storeExec call) (register unicode input, database)
        (.ofExcept (storedProject (later.tables.selectByAlias
          (continuityAliasKey unicode (continuityAliasKey unicode name)))), later) := by
  obtain ⟨tables, htables⟩ := registerTransaction_of_free
    { input with aliasName := name } "" hwf h.id h.aliasKey h.path
  have hstart : Program.Steps (storeExec call) (register unicode input, database)
      (register unicode input, database) := .refl _
  nth_rewrite 2 [register] at hstart
  simp only [parse, h.aliasName, h.roots, h.worktree, h.localState, h.publishedState, h.semantic,
    if_true, Program.bind_eq, Program.pure_eq, Program.ofExcept, Program.bind, timestampNow]
    at hstart
  have hdate := hstart.step (r := some "") ⟨.date (some ""), rfl⟩
  let committed : Database ι :=
    { database with tables, commits := ⟨call, input.id, .registered⟩ :: database.commits }
  have hregister := hdate.step (r := .ok ()) (show storeExec call _ _ _ committed from ⟨.done, by
    simp only [StoreOp.apply, htables]
    rfl⟩)
  refine ⟨committed.noteRead call, ⟨"", ?_⟩, ?_⟩
  · rw [Database.noteRead_tables]
    exact htables
  · rw [Database.noteRead_tables]
    exact hregister.step ⟨.done, rfl⟩

end Alone

theorem key_fixed_of_atomic (name : String) (hwf : database.tables.Wf)
    (hatomic : Atomic unicode call input database)
    (hadmitted : Admitted unicode input name database.tables) :
    continuityAliasKey unicode (continuityAliasKey unicode name) =
      continuityAliasKey unicode name := by
  obtain ⟨later, ⟨timestamp, htables⟩, hsteps⟩ := steps_of_admitted call hwf hadmitted
  obtain ⟨hthrow, hreturn⟩ := hatomic _ _ hsteps
  cases hstored : storedProject (later.tables.selectByAlias
      (continuityAliasKey unicode (continuityAliasKey unicode name))) with
  | error error =>
    -- the registration has committed, and throws
    rw [hthrow error (by rw [hstored]; rfl)] at htables
    have hlength := congrArg (·.records.length) (registerTransaction_eq_ok htables).2.2.2
    simp at hlength
  | ok project =>
    obtain ⟨name', timestamp', hname, -, hproject, -⟩ := hreturn project (by rw [hstored]; rfl)
    rw [hadmitted.aliasName] at hname
    obtain rfl := Except.ok.inj hname
    cases hrows : later.tables.selectByAlias
        (continuityAliasKey unicode (continuityAliasKey unicode name)) with
    | none =>
      rw [hrows] at hstored
      cases hstored
    | some rows =>
      rw [hrows] at hstored
      have hrowsKey := selectByAlias_aliasKey hrows
      simp only [storedProject] at hstored
      split at hstored
      · rw [← Except.ok.inj hstored] at hproject
        exact hrowsKey.symm.trans (congrArg StoredProject.aliasKey hproject)
      · cases hstored

/-- `register` is atomic if and only if the alias, unless the registration is refused, has a key
that is its own key. -/
theorem register_atomic_iff (hwf : database.tables.Wf) :
    Atomic unicode call input database ↔ ∀ name, Admitted unicode input name database.tables →
      continuityAliasKey unicode (continuityAliasKey unicode name) =
        continuityAliasKey unicode name := by
  constructor
  · exact fun hatomic name hadmitted => key_fixed_of_atomic name hwf hatomic hadmitted
  · intro hfixed p later hsteps
    have hstart := wp_register call hwf hfixed
    have hend := (Program.wp_steps (c := (register unicode input, database)) hsteps trivial
      hstart).2
    refine ⟨?_, ?_⟩
    · rintro error rfl
      exact hend later rfl trivial
    · rintro project rfl
      exact hend later rfl trivial

/-- A registration under an alias of plain letters. -/
theorem register_atomic_iff_plain :
    Atomic plainCharacters () (projectAt "/w" "A") (Database.new : Database Unit) := by
  refine (register_atomic_iff Tables.wf_empty).mpr fun name hadmitted => ?_
  have hname : continuityAliasSchema "A" = .ok "A" := by
    unfold continuityAliasSchema
    exact if_pos (by decide +kernel)
  obtain rfl := Except.ok.inj (hadmitted.aliasName.symm.trans hname)
  decide +kernel

/-- The character U+00A8, a space with a diaeresis on it, decomposes into the two. -/
def spacingDiaeresis : CharacterDatabase :=
  { plainCharacters with
    decomposition := fun c => if c = '\u00A8' then [' ', '\u0308'] else [c]
    combiningClass := fun c => if c = '\u0308' then 230 else 0 }

/-- The alias U+00A8 has a key that starts with a space, and the key of that key has lost it:
the project is committed, and its registration throws. -/
theorem diaeresis_not_atomic :
    continuityAliasSchema "\u00A8" = .ok "\u00A8" ∧
    ¬ Atomic spacingDiaeresis () (projectAt "/w" "\u00A8") (Database.new : Database Unit) := by
  have hname : continuityAliasSchema "\u00A8" = .ok "\u00A8" := by
    unfold continuityAliasSchema
    exact if_pos (by decide +kernel)
  refine ⟨hname, fun hatomic => ?_⟩
  have hfixed := key_fixed_of_atomic "\u00A8" Tables.wf_empty hatomic
    ⟨hname, by decide +kernel, by decide +kernel, by decide +kernel, by decide +kernel,
      by decide +kernel, by decide, by decide, by decide⟩
  exact absurd hfixed (by decide +kernel)

end Continuity
