import ChatgptSystem.Update.AutoUpdateRun
import Mathlib.Algebra.Order.Ring.Rat
import Mathlib.Data.List.Nodup
import Mathlib.Order.Lattice

/-!
# The retention of releases

`planRetention` and `pruneReleases` of the auto-updater (`scripts/auto-update-runtime.mjs`): after a
deployment the oldest releases are removed, but never the current one and the one before it.

* `planRetention`, `pruneReleases` — the plan, and the removal of what it lists;
* `PlanMeets`, `planRetention_meets` — what a plan keeps and removes;
* `mem_pruneReleases`, `links_pruneReleases` — what a removal leaves, and the links that
  `flipCurrent` has made before;
* `retention` — all of it.
-/

open FileTree

namespace AutoUpdate

/-! ## The plan -/

structure ReleaseEntry where
  name : String
  mtimeMs : ℚ
  deriving DecidableEq

structure RetentionPlan where
  keep : List String
  remove : List String
  deriving DecidableEq

/-- `Set.prototype.add`, for the elements in their order. -/
def setAdd (names : List String) (name : String) : List String :=
  if name ∈ names then names else names ++ [name]

def pinnedReleases (currentSha previousSha : Option String) : List String :=
  ([currentSha, previousSha].filterMap id).foldl setAdd []

def keepNewest (retain : ℤ) : List ReleaseEntry → List String → List String
  | [], keep => keep
  | candidate :: rest, keep =>
    if (keep.length : ℤ) ≥ retain then keep
    else keepNewest retain rest (setAdd keep candidate.name)

/-- A `retain` that is no integer is `none`. -/
def planRetention (entries : List ReleaseEntry) (currentSha previousSha : Option String)
    (retain : Option ℤ) : Except String RetentionPlan :=
  match retain with
  | none => .error "retain en az 2 olmalı."
  | some retain =>
    if retain < 2 then .error "retain en az 2 olmalı."
    else
      let pinned := pinnedReleases currentSha previousSha
      let candidates := (entries.filter fun entry =>
        isReleaseDirName entry.name && !pinned.contains entry.name).mergeSort fun a b =>
          decide (b.mtimeMs ≤ a.mtimeMs)
      let keep := keepNewest retain candidates pinned
      .ok { keep := keep
            remove := (entries.map ReleaseEntry.name).filter fun name =>
              isReleaseDirName name && !keep.contains name }

/-! ## The removal -/

/-- What removes a release: `git worktree remove` or else `rm`, which may stop half way. -/
inductive RemoveAnswer where
  | worktreeRemoved
  | removed
  | failed (error : String) (left : AbsPath → Bool)

structure PruneAnswers where
  /-- The names in the directory of releases, if there is one. -/
  readdir : Except String (Option (List String))
  /-- `none` for what cannot be looked at. -/
  mtimeMs : String → Option ℚ
  remove : String → RemoveAnswer
  removeMarker : String → Option String

/-- `.built-<name>.json` beside the releases. -/
def markerFor (runtimeDir : AbsPath) (name : String) : AbsPath :=
  Paths.resolve runtimeDir
    [Paths.component "releases".toList, Paths.component (".built-" ++ name ++ ".json").toList]

def removeTree (target : AbsPath) (paths : List AbsPath) : List AbsPath :=
  paths.filter fun path => !target.isPrefixOf path

def removeReleases (runtimeDir : AbsPath) (answers : PruneAnswers) :
    List String → List AbsPath → Except String Unit × List AbsPath
  | [], paths => (.ok (), paths)
  | name :: rest, paths =>
    let target := releaseDirFor runtimeDir name
    match answers.remove name with
    | .failed error left =>
      (.error error, paths.filter fun path => !target.isPrefixOf path || left path)
    | .worktreeRemoved | .removed =>
      let paths := removeTree target paths
      match answers.removeMarker name with
      | some error => (.error error, paths)
      | none =>
        removeReleases runtimeDir answers rest
          (paths.filter fun path => path ≠ markerFor runtimeDir name)

/-- The paths there are after `pruneReleases`. -/
def pruneReleases (runtimeDir : AbsPath) (currentSha previousSha : Option String)
    (retain : Option ℤ) (answers : PruneAnswers) (paths : List AbsPath) :
    Except String Unit × List AbsPath :=
  match answers.readdir with
  | .error error => (.error error, paths)
  | .ok none => (.ok (), paths)
  | .ok (some names) =>
    let entries := names.filterMap fun name =>
      if isReleaseDirName name then (answers.mtimeMs name).map (ReleaseEntry.mk name) else none
    match planRetention entries currentSha previousSha retain with
    | .error error => (.error error, paths)
    | .ok plan => removeReleases runtimeDir answers plan.remove paths

/-! ## What a plan keeps -/

structure PlanMeets (entries : List ReleaseEntry) (currentSha previousSha : Option String)
    (retain : ℤ) (plan : RetentionPlan) : Prop where
  pinned : ∀ sha, currentSha = some sha ∨ previousSha = some sha → sha ∉ plan.remove
  partition : ∀ entry ∈ entries, isReleaseDirName entry.name = true →
    Xor (entry.name ∈ plan.keep) (entry.name ∈ plan.remove)
  releases : ∀ name ∈ plan.remove,
    isReleaseDirName name = true ∧ name ∈ entries.map ReleaseEntry.name
  nodup : plan.keep.Nodup
  size : (plan.keep.length : ℤ) ≤ max retain (pinnedReleases currentSha previousSha).length
  newest : ∀ kept ∈ entries, kept.name ∈ plan.keep → currentSha ≠ some kept.name →
    previousSha ≠ some kept.name → ∀ removed ∈ entries, removed.name ∈ plan.remove →
      removed.mtimeMs ≤ kept.mtimeMs

section Plan

variable {names : List String} {name sha : String} {candidates entries : List ReleaseEntry}
  {currentSha previousSha : Option String} {retain : ℤ}

theorem mem_setAdd : sha ∈ setAdd names name ↔ sha ∈ names ∨ sha = name := by
  unfold setAdd
  split
  next h => exact ⟨.inl, fun hsha => hsha.elim id fun heq => heq ▸ h⟩
  next => simp

theorem nodup_setAdd (h : names.Nodup) : (setAdd names name).Nodup := by
  unfold setAdd
  split
  next => exact h
  next hno =>
    refine List.nodup_append.mpr ⟨h, List.nodup_singleton name, fun a ha b hb heq => hno ?_⟩
    rwa [← List.mem_singleton.mp hb, ← heq]

theorem mem_foldl_setAdd {added : List String} :
    sha ∈ added.foldl setAdd names ↔ sha ∈ names ∨ sha ∈ added := by
  induction added generalizing names with
  | nil => simp
  | cons name added ih => rw [List.foldl_cons, ih, mem_setAdd, List.mem_cons, or_assoc]

theorem nodup_foldl_setAdd {added : List String} (h : names.Nodup) :
    (added.foldl setAdd names).Nodup := by
  induction added generalizing names with
  | nil => exact h
  | cons name added ih => exact ih (nodup_setAdd h)

theorem mem_pinnedReleases :
    sha ∈ pinnedReleases currentSha previousSha ↔
      currentSha = some sha ∨ previousSha = some sha := by
  rw [pinnedReleases, mem_foldl_setAdd]
  simp [List.mem_filterMap, eq_comm]

theorem nodup_pinnedReleases : (pinnedReleases currentSha previousSha).Nodup :=
  nodup_foldl_setAdd List.nodup_nil

theorem keepNewest_eq (hnodup : (names ++ candidates.map ReleaseEntry.name).Nodup) :
    keepNewest retain candidates names =
      names ++ (candidates.take (retain - names.length).toNat).map ReleaseEntry.name := by
  induction candidates generalizing names with
  | nil => simp [keepNewest]
  | cons candidate rest ih =>
    rw [keepNewest]
    split
    next hfull =>
      rw [show (retain - names.length).toNat = 0 by omega, List.take_zero, List.map_nil,
        List.append_nil]
    next hroom =>
      have hno : candidate.name ∉ names := by
        intro hmem
        exact (List.nodup_append.mp hnodup).2.2 _ hmem _ List.mem_cons_self rfl
      have hadd : setAdd names candidate.name = names ++ [candidate.name] := if_neg hno
      rw [hadd, ih (by simpa [List.append_assoc] using hnodup), List.length_append,
        List.length_singleton]
      have hcount : (retain - names.length).toNat =
          (retain - ((names.length + 1 : ℕ) : ℤ)).toNat + 1 := by omega
      rw [hcount, List.take_succ_cons, List.map_cons, List.append_assoc, List.singleton_append]

abbrev newestFirst (a b : ReleaseEntry) : Bool := decide (b.mtimeMs ≤ a.mtimeMs)

theorem pairwise_newestFirst (l : List ReleaseEntry) :
    (l.mergeSort newestFirst).Pairwise fun a b => b.mtimeMs ≤ a.mtimeMs := by
  refine (List.pairwise_mergeSort (fun a b c hab hbc => ?_) (fun a b => ?_) l).imp fun {a b} h =>
    of_decide_eq_true h
  · exact decide_eq_true (le_trans (of_decide_eq_true hbc) (of_decide_eq_true hab))
  · rw [Bool.or_eq_true, decide_eq_true_iff, decide_eq_true_iff]
    exact le_total _ _

def candidatesOf (entries : List ReleaseEntry) (currentSha previousSha : Option String) :
    List ReleaseEntry :=
  (entries.filter fun entry => isReleaseDirName entry.name &&
    !(pinnedReleases currentSha previousSha).contains entry.name).mergeSort newestFirst

theorem mem_candidatesOf {entry : ReleaseEntry} :
    entry ∈ candidatesOf entries currentSha previousSha ↔ entry ∈ entries ∧
      isReleaseDirName entry.name = true ∧
        entry.name ∉ pinnedReleases currentSha previousSha := by
  rw [candidatesOf, List.mem_mergeSort, List.mem_filter]
  simp

theorem nodup_pinned_candidates (hnames : (entries.map ReleaseEntry.name).Nodup) :
    (pinnedReleases currentSha previousSha ++
      (candidatesOf entries currentSha previousSha).map ReleaseEntry.name).Nodup := by
  refine List.nodup_append.mpr ⟨nodup_pinnedReleases, ?_, ?_⟩
  · refine ((List.mergeSort_perm _ _).map ReleaseEntry.name).nodup_iff.mpr ?_
    exact hnames.sublist (List.filter_sublist.map _)
  · rintro sha hpinned _ hcandidate rfl
    obtain ⟨entry, hentry, rfl⟩ := List.mem_map.mp hcandidate
    exact (mem_candidatesOf.mp hentry).2.2 hpinned

theorem entry_unique (hnames : (entries.map ReleaseEntry.name).Nodup) {a b : ReleaseEntry}
    (ha : a ∈ entries) (hb : b ∈ entries) (h : a.name = b.name) : a = b :=
  List.inj_on_of_nodup_map hnames ha hb h

/-- The names that a plan keeps: those that are pinned, and of the candidates the first for which
there is room. -/
def keptReleases (entries : List ReleaseEntry) (currentSha previousSha : Option String)
    (retain : ℤ) : List String :=
  let pinned := pinnedReleases currentSha previousSha
  pinned ++ ((candidatesOf entries currentSha previousSha).take
    (retain - pinned.length).toNat).map ReleaseEntry.name

def removedReleases (entries : List ReleaseEntry) (currentSha previousSha : Option String)
    (retain : ℤ) : List String :=
  (entries.map ReleaseEntry.name).filter fun name =>
    isReleaseDirName name && !(keptReleases entries currentSha previousSha retain).contains name

theorem planRetention_eq (hnames : (entries.map ReleaseEntry.name).Nodup)
    (hretain : 2 ≤ retain) : planRetention entries currentSha previousSha (some retain) =
      .ok { keep := keptReleases entries currentSha previousSha retain
            remove := removedReleases entries currentSha previousSha retain } := by
  have hkeep : keepNewest retain (candidatesOf entries currentSha previousSha)
      (pinnedReleases currentSha previousSha) =
        keptReleases entries currentSha previousSha retain :=
    keepNewest_eq (nodup_pinned_candidates hnames)
  rw [planRetention, if_neg (Int.not_lt.mpr hretain), removedReleases, ← hkeep]
  rfl

theorem mem_removedReleases : name ∈ removedReleases entries currentSha previousSha retain ↔
    name ∈ entries.map ReleaseEntry.name ∧ isReleaseDirName name = true ∧
      name ∉ keptReleases entries currentSha previousSha retain := by
  rw [removedReleases, List.mem_filter, Bool.and_eq_true, Bool.not_eq_true', ← Bool.not_eq_true,
    List.contains_iff_mem]

theorem mem_keepNewest (h : sha ∈ names) : sha ∈ keepNewest retain candidates names := by
  induction candidates generalizing names with
  | nil => exact h
  | cons candidate rest ih =>
    rw [keepNewest]
    split
    · exact h
    · exact ih (mem_setAdd.mpr (.inl h))

theorem remove_of_planRetention {retain : Option ℤ} {plan : RetentionPlan}
    (h : planRetention entries currentSha previousSha retain = .ok plan)
    (hname : name ∈ plan.remove) : isReleaseDirName name = true ∧
      ¬ (currentSha = some name ∨ previousSha = some name) := by
  unfold planRetention at h
  split at h
  · cases h
  split at h
  · cases h
  · obtain rfl := Except.ok.inj h
    rw [List.mem_filter, Bool.and_eq_true, Bool.not_eq_true', ← Bool.not_eq_true,
      List.contains_iff_mem] at hname
    exact ⟨hname.2.1, fun hpinned =>
      hname.2.2 (mem_keepNewest (mem_pinnedReleases.mpr hpinned))⟩

theorem nodup_keptReleases (hnames : (entries.map ReleaseEntry.name).Nodup) :
    (keptReleases entries currentSha previousSha retain).Nodup :=
  (nodup_pinned_candidates hnames).sublist
    (((List.take_sublist _ _).map ReleaseEntry.name).append_left _)

theorem length_keptReleases :
    ((keptReleases entries currentSha previousSha retain).length : ℤ) ≤
      max retain (pinnedReleases currentSha previousSha).length := by
  rw [keptReleases, List.length_append, List.length_map, List.length_take]
  omega

theorem le_of_kept_of_removed (hnames : (entries.map ReleaseEntry.name).Nodup)
    {kept removed : ReleaseEntry} (hkept : kept ∈ entries)
    (hin : kept.name ∈ keptReleases entries currentSha previousSha retain)
    (hunpinned : kept.name ∉ pinnedReleases currentSha previousSha)
    (hremoved : removed ∈ entries)
    (hout : removed.name ∈ removedReleases entries currentSha previousSha retain) :
    removed.mtimeMs ≤ kept.mtimeMs := by
  rw [mem_removedReleases] at hout
  obtain ⟨entry, hentry, hsame⟩ := List.mem_map.mp
    ((List.mem_append.mp hin).resolve_left hunpinned)
  have hlisted := (mem_candidatesOf.mp (List.mem_of_mem_take hentry)).1
  obtain rfl := entry_unique hnames hlisted hkept hsame
  have hsorted : (candidatesOf entries currentSha previousSha).Pairwise
      fun a b => b.mtimeMs ≤ a.mtimeMs := pairwise_newestFirst _
  have hcandidate : removed ∈ candidatesOf entries currentSha previousSha :=
    mem_candidatesOf.mpr ⟨hremoved, hout.2.1, fun h => hout.2.2 (List.mem_append_left _ h)⟩
  rw [← List.take_append_drop
    (retain - (pinnedReleases currentSha previousSha).length).toNat
    (candidatesOf entries currentSha previousSha)] at hsorted hcandidate
  refine (List.pairwise_append.mp hsorted).2.2 _ hentry _
    ((List.mem_append.mp hcandidate).resolve_left fun h => hout.2.2 ?_)
  exact List.mem_append_right _ (List.mem_map_of_mem h)

theorem planRetention_meets (hnames : (entries.map ReleaseEntry.name).Nodup)
    (hretain : 2 ≤ retain) : ∃ plan,
      planRetention entries currentSha previousSha (some retain) = .ok plan ∧
        PlanMeets entries currentSha previousSha retain plan := by
  have hplan : planRetention entries currentSha previousSha (some retain) = .ok _ :=
    planRetention_eq hnames hretain
  refine ⟨_, hplan, fun sha hsha hremove => ?_, ?_, ?_, nodup_keptReleases hnames,
    length_keptReleases, ?_⟩
  · exact (remove_of_planRetention hplan hremove).2 hsha
  · intro entry hentry hname
    by_cases hin : entry.name ∈ keptReleases entries currentSha previousSha retain
    · exact .inl ⟨hin, fun h => (mem_removedReleases.mp h).2.2 hin⟩
    · exact .inr ⟨mem_removedReleases.mpr ⟨List.mem_map_of_mem hentry, hname, hin⟩, hin⟩
  · intro name hremove
    rw [mem_removedReleases] at hremove
    exact ⟨hremove.2.1, hremove.1⟩
  · intro kept hkept hin hcurrent hprevious removed hremoved hout
    exact le_of_kept_of_removed hnames hkept hin
      (fun h => (mem_pinnedReleases.mp h).elim hcurrent hprevious) hremoved hout

end Plan

/-! ## What a removal leaves -/

section Removal

variable {runtimeDir path : AbsPath} {name sha : String} {names : List String}
  {answers : PruneAnswers} {paths : List AbsPath} {currentSha previousSha : Option String}
  {retain : Option ℤ}

theorem mem_removeReleases (hpath : path ∈ paths)
    (hout : ∀ name ∈ names, ¬ releaseDirFor runtimeDir name <+: path ∧
      path ≠ markerFor runtimeDir name) :
    path ∈ (removeReleases runtimeDir answers names paths).2 := by
  induction names generalizing paths with
  | nil => exact hpath
  | cons name rest ih =>
    obtain ⟨houtside, hmarker⟩ := hout name List.mem_cons_self
    have hno : (releaseDirFor runtimeDir name).isPrefixOf path = false :=
      Bool.eq_false_iff.mpr fun h => houtside (List.isPrefixOf_iff_prefix.mp h)
    have hstays : path ∈ removeTree (releaseDirFor runtimeDir name) paths :=
      List.mem_filter.mpr ⟨hpath, by rw [hno]; rfl⟩
    have hrest := fun name hname => hout name (List.mem_cons_of_mem _ hname)
    rw [removeReleases]
    dsimp only
    split
    · exact List.mem_filter.mpr ⟨hpath, by rw [hno]; rfl⟩
    all_goals
      split
      · exact hstays
      · exact ih (List.mem_filter.mpr ⟨hstays, decide_eq_true hmarker⟩) hrest

theorem release_inj (hname : isReleaseDirName name = true) (hsha : isReleaseDirName sha = true)
    (h : releaseDirFor runtimeDir name <+: path) (h' : releaseDirFor runtimeDir sha <+: path) :
    name = sha := by
  obtain ⟨first, hfirst⟩ := releaseDirFor_eq runtimeDir hname
  obtain ⟨second, hsecond⟩ := releaseDirFor_eq runtimeDir hsha
  rw [hfirst] at h
  rw [hsecond] at h'
  have hbegins := List.prefix_of_prefix_length_le h h' (by simp)
  have heq := hbegins.eq_of_length (by simp)
  have hlast := List.append_cancel_left heq
  simp only [List.cons.injEq, Name.mk.injEq, and_true] at hlast
  exact hlast.2

theorem not_mem_release {c : Char} (hsha : isReleaseDirName sha = true)
    (hc : (('a' ≤ c && c ≤ 'f') || ('0' ≤ c && c ≤ '9') ||
      (false && 'A' ≤ c && c ≤ 'F')) = false) :
    c ∉ sha.toList := fun hmem => by
  unfold isReleaseDirName Text.matchesHex at hsha
  rw [Bool.and_eq_true, List.all_eq_true] at hsha
  exact absurd (hsha.2 c hmem) (Bool.eq_false_iff.mp hc)

theorem markerFor_eq (runtimeDir : AbsPath) (hname : isReleaseDirName name = true) :
    ∃ releases marker : Name, markerFor runtimeDir name = runtimeDir ++ [releases, marker] ∧
      isReleaseDirName marker.text = false := by
  have hreleases : IsName (String.ofList "releases".toList) := by decide
  have htext : (".built-" ++ name ++ ".json").toList =
      '.' :: 'b' :: ("uilt-".toList ++ name.toList ++ ".json".toList) := by
    simp [String.toList_append]
  have hmarker : IsName (String.ofList (".built-" ++ name ++ ".json").toList) := by
    have hlist : (String.ofList (".built-" ++ name ++ ".json").toList).toList =
        '.' :: 'b' :: ("uilt-".toList ++ name.toList ++ ".json".toList) := by
      rw [String.toList_ofList, htext]
    have hne : ∀ text : String, text.toList.head? ≠ some '.' ∨ text.toList[1]? ≠ some 'b' →
        String.ofList (".built-" ++ name ++ ".json").toList ≠ text := by
      rintro text hdiffers rfl
      rw [hlist] at hdiffers
      simp at hdiffers
    refine ⟨hne _ (by decide), hne _ (by decide), hne _ (by decide), ?_⟩
    rw [hlist]
    have hslash : '/' ∉ name.toList := not_mem_release hname (by decide)
    simp [hslash]
  refine ⟨⟨_, hreleases⟩, ⟨_, hmarker⟩, ?_, Bool.eq_false_iff.mpr fun h => ?_⟩
  · rw [markerFor, Paths.component, dif_pos hreleases, Paths.component, dif_pos hmarker]
    simp only [Paths.resolve, List.foldl_cons, List.foldl_nil, List.append_assoc,
      List.singleton_append]
  · have hdot : '.' ∉ (String.ofList (".built-" ++ name ++ ".json").toList).toList :=
      not_mem_release h (by decide)
    refine hdot ?_
    rw [String.toList_ofList, htext]
    exact List.mem_cons_self

theorem ne_markerFor (hname : isReleaseDirName name = true)
    (hsha : currentShaFromLinkTarget (some path) = some sha) :
    path ≠ markerFor runtimeDir name := by
  rintro rfl
  obtain ⟨releases, marker, heq, hmarker⟩ := markerFor_eq runtimeDir hname
  rw [heq, currentShaFromLinkTarget, Option.bind_some, List.getLast?_append] at hsha
  simp [hmarker] at hsha

theorem not_release_markerFor (hname : isReleaseDirName name = true)
    (hsha : isReleaseDirName sha = true) :
    ¬ releaseDirFor runtimeDir sha <+: markerFor runtimeDir name := by
  obtain ⟨first, hfirst⟩ := releaseDirFor_eq runtimeDir hsha
  obtain ⟨releases, marker, heq, hmarker⟩ := markerFor_eq runtimeDir hname
  intro hbegins
  rw [hfirst, heq] at hbegins
  have hlast := List.append_cancel_left (hbegins.eq_of_length (by simp))
  simp only [List.cons.injEq, and_true] at hlast
  rw [← hlast.2] at hmarker
  exact absurd hsha (Bool.eq_false_iff.mp hmarker)

theorem mem_pruneReleases_of_outside (hpath : path ∈ paths)
    (hmarker : ∀ name, isReleaseDirName name = true → path ≠ markerFor runtimeDir name)
    (houtside : ∀ name, isReleaseDirName name = true → releaseDirFor runtimeDir name <+: path →
      currentSha = some name ∨ previousSha = some name) :
    path ∈ (pruneReleases runtimeDir currentSha previousSha retain answers paths).2 := by
  rw [pruneReleases]
  split
  · exact hpath
  · exact hpath
  · dsimp only
    split
    · exact hpath
    next plan hplan =>
      refine mem_removeReleases hpath fun name hname => ?_
      obtain ⟨hrelease, hunpinned⟩ := remove_of_planRetention hplan hname
      exact ⟨fun hin => hunpinned (houtside name hrelease hin), hmarker name hrelease⟩

theorem mem_pruneReleases (hsha : isReleaseDirName sha = true)
    (hpinned : currentSha = some sha ∨ previousSha = some sha)
    (hin : releaseDirFor runtimeDir sha <+: path) (hpath : path ∈ paths) :
    path ∈ (pruneReleases runtimeDir currentSha previousSha retain answers paths).2 := by
  refine mem_pruneReleases_of_outside hpath (fun name hname heq => ?_) fun name hname hother => ?_
  · exact not_release_markerFor hname hsha (heq ▸ hin)
  · exact release_inj hname hsha hother hin ▸ hpinned

theorem links_flipCurrent {answers : Answers} {s s' : Runtime}
    (h : flipCurrent runtimeDir sha answers s = (.ok previousSha, s')) :
    previousSha = currentShaFromLinkTarget (s.currentRelease runtimeDir) ∧
      s'.current = some (releaseLink runtimeDir sha) ∧
      (s'.previous = some (releaseLink runtimeDir sha) ∨
        s'.previous = s.current ∧ previousSha.isSome = true) := by
  unfold flipCurrent at h
  split at h
  · cases h
  next oldTarget hread =>
    unfold readLinkTarget at hread
    split at hread
    · cases hread
    obtain rfl := Except.ok.inj hread
    dsimp only at h
    split at h
    · cases h
    split at h
    · cases h
    obtain ⟨hsha, rfl⟩ := Prod.mk.inj h
    obtain rfl := Except.ok.inj hsha
    refine ⟨rfl, rfl, ?_⟩
    dsimp only
    split
    next hold => exact .inr ⟨rfl, hold.2⟩
    next => exact .inl rfl

/-- After a deployment and the removal that follows it, both links still denote what they denoted,
unless the old link led into a release from elsewhere. -/
theorem links_pruneReleases {answers : Answers} {prune : PruneAnswers} {s s' : Runtime}
    (hflip : flipCurrent runtimeDir sha answers s = (.ok previousSha, s'))
    (hsha : isReleaseDirName sha = true)
    (hold : ∀ old name, s.currentRelease runtimeDir = some old → isReleaseDirName name = true →
      releaseDirFor runtimeDir name <+: old → currentShaFromLinkTarget (some old) = some name)
    {link : Link} (hlink : s'.current = some link ∨ s'.previous = some link)
    (hpath : link.resolved runtimeDir ∈ paths) :
    link.resolved runtimeDir ∈
      (pruneReleases runtimeDir (some sha) previousSha retain prune paths).2 := by
  obtain ⟨hprevious, hcurrent, hlinks⟩ := links_flipCurrent hflip
  have hnew : link = releaseLink runtimeDir sha → link.resolved runtimeDir ∈
      (pruneReleases runtimeDir (some sha) previousSha retain prune paths).2 := by
    rintro rfl
    refine mem_pruneReleases hsha (.inl rfl) ?_ hpath
    rw [resolved_releaseLink hsha]
  rcases hlink with hlink | hlink
  · exact hnew (Option.some.inj (hlink.symm.trans hcurrent))
  · rcases hlinks with hsame | ⟨hsame, hnamed⟩
    · exact hnew (Option.some.inj (hlink.symm.trans hsame))
    · obtain ⟨old, hbefore⟩ := Option.isSome_iff_exists.mp hnamed
      have hrelease : s.currentRelease runtimeDir = some (link.resolved runtimeDir) := by
        rw [Runtime.currentRelease, ← hsame, hlink, Option.map_some]
      rw [hbefore, hrelease] at hprevious
      refine mem_pruneReleases_of_outside hpath
        (fun name hname => ne_markerFor hname hprevious.symm) fun name hname hin => .inr ?_
      rw [hbefore, hprevious]
      exact hold _ name hrelease hname hin

end Removal

/-- The plan keeps the pinned releases and the newest others, and the removal of what it lists
leaves the pinned releases as they are and both links what they denote. -/
theorem retention (entries : List ReleaseEntry) (currentSha previousSha : Option String)
    (retain : ℤ) (hnames : (entries.map ReleaseEntry.name).Nodup) (hretain : 2 ≤ retain) :
    (∃ plan, planRetention entries currentSha previousSha (some retain) = .ok plan ∧
      PlanMeets entries currentSha previousSha retain plan) ∧
    (∀ runtimeDir answers paths sha path, currentSha = some sha ∨ previousSha = some sha →
      isReleaseDirName sha = true → releaseDirFor runtimeDir sha <+: path → path ∈ paths →
      path ∈ (pruneReleases runtimeDir currentSha previousSha (some retain) answers paths).2) ∧
    ∀ runtimeDir answers prune paths sha (s s' : Runtime), currentSha = some sha →
      isReleaseDirName sha = true →
      flipCurrent runtimeDir sha answers s = (.ok previousSha, s') →
      (∀ old name, s.currentRelease runtimeDir = some old → isReleaseDirName name = true →
        releaseDirFor runtimeDir name <+: old →
          currentShaFromLinkTarget (some old) = some name) →
      ∀ link : Link, s'.current = some link ∨ s'.previous = some link →
        link.resolved runtimeDir ∈ paths → link.resolved runtimeDir ∈
          (pruneReleases runtimeDir currentSha previousSha (some retain) prune paths).2 := by
  refine ⟨planRetention_meets hnames hretain, ?_, ?_⟩
  · intro runtimeDir answers paths sha path hpinned hsha hin hpath
    exact mem_pruneReleases hsha hpinned hin hpath
  · rintro runtimeDir answers prune paths sha s s' rfl hsha hflip hold link hlink hpath
    exact links_pruneReleases hflip hsha hold hlink hpath

/-- Four releases, of which three are to be kept, and something else in the directory. -/
theorem retention_four :
    ∃ plan, planRetention [⟨"c8e069b", 400⟩, ⟨"860bf89", 300⟩, ⟨"2a0a2ec", 100⟩, ⟨"140fd52", 200⟩,
        ⟨"current", 999⟩] (some "c8e069b") (some "860bf89") (some 3) = .ok plan ∧
      PlanMeets [⟨"c8e069b", 400⟩, ⟨"860bf89", 300⟩, ⟨"2a0a2ec", 100⟩, ⟨"140fd52", 200⟩,
        ⟨"current", 999⟩] (some "c8e069b") (some "860bf89") 3 plan :=
  (retention _ _ _ 3 (by decide) (by decide)).1

end AutoUpdate
