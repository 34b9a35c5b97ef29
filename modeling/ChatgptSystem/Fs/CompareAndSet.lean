import ChatgptSystem.Fs.LockOrder
import ChatgptSystem.Fs.LockedFiles

/-!
# Compare-and-set file mutation

Any number of edits, writes, patches, moves and removals run interleaved on regular files of one
tree, under any spelling of their paths through linked directories.

* `Setting.Done`, `Setting.Refused` — what a call has done when it succeeds, and what holds when
  the creation of a file fails;
* `Setting.wp_edit`, `Setting.wp_write`, `Setting.wp_patch`, `Setting.wp_move`,
  `Setting.wp_remove` — the five operations;
* `Setting.compare_and_set` — a call that succeeds has replaced or removed exactly the content it
  expected, with no other change in between; of the calls that create one file exactly one
  succeeds.
-/

open FileTree Interleaving FileHistory

namespace Setting

variable {ι D : Type} {x : Setting ι D} {i : ι}

/-! ## What the calls achieve -/

def programs [DecidableEq D] (x : Setting ι D) : ι → FsM (FsResult D) := fun i =>
  (x.calls i).program x.service

def expectedSha256 (x : Setting ι D) (i : ι) : Option D :=
  match x.calls i with
  | .edit _ _ _ _ _ expected | .write _ _ _ expected | .move _ _ expected
  | .remove _ expected _ => expected
  | .patch _ _ _ expected => some expected
  | .makeDirectory _ => none

/-- The policy accepts the input in the tree the calls start from. -/
def Accepts (x : Setting ι D) (input : String) : Prop :=
  ∃ path s, (x.service.policy.resolve input).run (FsOp.apply x.maxLinks ()) ⟨x.start, .empty⟩ =
    some (.ok path, s)

/-- The call creates the file: a write without a digest that is accepted and within the limit, or
a move, with the right digest, of a file no other call has as a target. -/
def Creates (x : Setting ι D) (i : ι) (k : AbsPath) : Prop :=
  let key := fun input => x.keyOf (x.service.policy.candidate input)
  match x.calls i with
  | .write _ input buffer none =>
    x.Accepts input ∧ buffer.length ≤ x.service.maxWriteBytes ∧ k = key input
  | .move sourceInput destinationInput expected =>
    x.Accepts sourceInput ∧ x.Accepts destinationInput ∧ k = key destinationInput ∧
      (∃ content, contentAt x.start (key sourceInput) = some content ∧
        expected = some (x.service.sha256 content)) ∧
      ∀ j, j ≠ i → key sourceInput ∉ x.keys j
  | _ => False

/-- The file is absent, and all calls that have it as a target create it. -/
structure CreatedOnly (x : Setting ι D) (k : AbsPath) : Prop where
  roots : x.RootsAreDirectories
  absent : x.start.node k = none
  creates : ∀ i, k ∈ x.keys i → x.Creates i k

/-- The call has replaced or removed each of its targets as it is permitted to. -/
def Done (x : Setting ι D) (i : ι) (log : List (FileEvent ι)) : Prop :=
  ∀ k ∈ x.keys i, ∃ v w, x.Permitted i k v w ∧ Replaced i k v w log

/-- A call that was to create a file has failed with a conflict because the file exists. -/
def Refused (x : Setting ι D) (i : ι) (error : AppError) (s : FsState ι × List (FileEvent ι)) :
    Prop :=
  ∀ k, x.CreatedOnly k → k ∈ x.keys i → (∃ message, error = .conflict message) ∧
    s.1.tree.node k ≠ none ∧ ∀ e ∈ s.2, e.caller = i → ¬ e.Mutates k

theorem lasting_done : x.Lasting i fun s => x.Done i s.2 where
  stable s s' hr hi h k hk := by
    obtain ⟨v, w, hpermitted, hreplaced⟩ := h k hk
    exact ⟨v, w, hpermitted, (lasting_replaced i k v w).stable s s' hr hi hreplaced⟩
  locks _ _ h := h

theorem Permitted.key {l : AbsPath} {v w : Option Bytes} (h : x.Permitted i l v w) :
    l ∈ x.keys i := by
  unfold Permitted at h
  unfold keys targets
  split at h <;> simp_all
  rcases h with ⟨h, -⟩ | ⟨h, -⟩ <;> simp [h]

theorem CreatedOnly.neverRemoved (hx : x.RegularFiles) {k : AbsPath} (hk : x.CreatedOnly k)
    (hkey : k ∈ x.keys i) : x.NeverRemoved k := by
  refine fun j => ⟨fun htemp => hx.temp_not_key j i k htemp hkey, fun before hpermitted => ?_⟩
  have hcreates := hk.creates j hpermitted.key
  unfold Creates at hcreates
  unfold Permitted at hpermitted
  split at hcreates
  next hcall =>
    rw [hcall] at hpermitted
    cases hpermitted.2.1
  next hcall =>
    rw [hcall] at hpermitted
    rcases hpermitted with ⟨hsource, -⟩ | ⟨-, -, -, content, hcontent, -⟩
    · -- the source of the move exists
      obtain ⟨-, -, -, ⟨content, hcontent, -⟩, -⟩ := hcreates
      rw [← hsource, contentAt, hk.absent] at hcontent
      cases hcontent
    · cases hcontent
  next => exact hcreates

theorem CreatedOnly.stays (hx : x.RegularFiles) {k : AbsPath} (hk : x.CreatedOnly k)
    (hkey : k ∈ x.keys i) : x.Stable i fun s => s.1.tree.node k ≠ none :=
  fun _ _ hr _ h => hr.remains k (hk.neverRemoved hx hkey) h

theorem lasting_refused (hx : x.RegularFiles) (e : AppError) : x.Lasting i (x.Refused i e) where
  stable s s' hr hi h k hk hkey := by
    obtain ⟨hconflict, hexists, hlog⟩ := h k hk hkey
    obtain ⟨ext, hext, hcaller, -⟩ := hr.log
    refine ⟨hconflict, hk.stays hx hkey s s' hr hi hexists, fun e he => ?_⟩
    rw [hext] at he
    rcases List.mem_append.mp he with he | he
    · exact hlog e he
    · exact fun hi => absurd hi (hcaller e he)
  locks _ _ h := h

theorem refused_of_not {P : Prop} (hP : ∀ k, x.CreatedOnly k → k ∈ x.keys i → P) (hnot : ¬ P)
    (e : AppError) (s : FsState ι × List (FileEvent ι)) : x.Refused i e s :=
  fun k hk hkey => absurd (hP k hk hkey) hnot

theorem Accepts.accepted {input : String} (h : x.Accepts input) :
    x.service.policy.Accepted x.start input := by
  obtain ⟨path, s, hrun⟩ := h
  exact ((Program.wp_run rfl (PathPolicy.wp_resolve x.service.policy input) hrun).2.1 path rfl).2

theorem RegularFiles.single (hx : x.RegularFiles) (i : ι) (input : String)
    (htargets : x.targets i = [x.service.policy.candidate input]) :
    ∃ parent d n, x.service.policy.candidate input = parent ++ [n] ∧ x.IsTarget parent d n ∧
      x.keyOf (parent ++ [n]) = d ++ [n] ∧ x.keys i = [d ++ [n]] := by
  obtain ⟨parent, d, n, hcandidate, ht⟩ := hx.target i (x.service.policy.candidate input)
    (by simp [htargets])
  exact ⟨parent, d, n, hcandidate, ht, ht.keyOf_eq, by
    rw [keys, htargets, hcandidate, List.map_singleton, ht.keyOf_eq]⟩

/-! ## Resolving and locking -/

section Rules

variable {α : Type} {Q : α → FsState ι × List (FileEvent ι) → Prop}
  {E : AppError → FsState ι × List (FileEvent ι) → Prop}
  {s : FsState ι × List (FileEvent ι)} {parent d : AbsPath} {n : Name}

theorem wp_resolve_target (hx : x.RegularFiles) {input : String} {f : AbsPath → FsM α}
    (ht : x.IsTarget parent d n) (hcandidate : x.service.policy.candidate input = parent ++ [n])
    (h : x.Fresh i s)
    (hok : ∀ t, x.Fresh i t → x.Wp i Q E (f (parent ++ [n])) t)
    (hfail : ¬ (x.RootsAreDirectories ∧ x.Accepts input ∧
      x.Stable i fun t => t.1.tree.node (d ++ [n]) ≠ none) → ∀ t e, x.Fresh i t → E e t) :
    x.Wp i Q E ((x.service.policy.resolve input).bind f) s := by
  have hA := (lasting_fresh (i := i) hx).stable
  by_cases hc : x.RootsAreDirectories ∧ x.Accepts input ∧
      x.Stable i fun t => t.1.tree.node (d ++ [n]) ≠ none
  · exact wp_resolve hc.1 hc.2.1.accepted hcandidate ht hc.2.2 hA h fun t _ ha => hok t ha
  · exact wp_resolve_any hA h (fun t _ ha => hcandidate ▸ hok t ha) fun t e _ ha => hfail hc t e ha

theorem wp_withPathLock (hx : x.RegularFiles) {operation : FsM α} (ht : x.IsTarget parent d n)
    (hkey : d ++ [n] ∈ x.keys i) (hQ : ∀ a, x.Lasting i (Q a)) (hE : ∀ e, x.Lasting i (E e))
    (h : x.Fresh i s)
    (hop : ∀ held me t, (d ++ [n], me) ∈ held → Holding i held t ∧ x.Fresh i t →
      x.Wp i (fun a t => Holding i held t ∧ Q a t) (fun e t => Holding i held t ∧ E e t)
        operation t)
    (hfail : ¬ x.Stable i (fun t => t.1.tree.node (d ++ [n]) ≠ none) →
      ∀ t e, x.Fresh i t → E e t) :
    x.Wp i Q E (withPathLock (parent ++ [n]) operation) s := by
  have hA := lasting_fresh (i := i) hx
  refine wp_canonicalizePath ht hA.stable h (fun t hi ha => ?_)
    fun hgone t e _ ha => hfail hgone t e ha
  refine wp_locked [d ++ [n]] (by simpa using hkey) hA hQ hE hi ha
    fun held t hkeys _ ha hheld => ?_
  obtain ⟨me, hme⟩ := hkeys _ (List.mem_singleton_self _)
  exact hop held me t hme ⟨hheld, ha⟩

theorem wp_withPathLock_any [DecidableEq D] (hx : x.RegularFiles) {operation : FsM (FsResult D)}
    (ht : x.IsTarget parent d n) (hkeys : x.keys i = [d ++ [n]]) (h : x.Fresh i s)
    (hop : ∀ held me t, (d ++ [n], me) ∈ held → Holding i held t ∧ x.Fresh i t →
      x.Wp i (fun _ t => Holding i held t ∧ x.Done i t.2) (fun _ t => Holding i held t ∧ True)
        operation t) :
    x.Wp i (fun _ t => x.Done i t.2) (fun _ _ => True) (withPathLock (parent ++ [n]) operation) s :=
  wp_withPathLock hx ht (by simp [hkeys]) (fun _ => lasting_done)
    (fun _ => ⟨fun _ _ _ _ _ => trivial, fun _ _ _ => trivial⟩) h hop fun _ _ _ _ => trivial

theorem wp_throw_locked (hx : x.RegularFiles) {held : List (AbsPath × ℕ)}
    (h : Holding i held s ∧ x.Fresh i s) (e : AppError) :
    x.Wp i (fun (_ : FsResult D) t => Holding i held t ∧ x.Done i t.2)
      (fun _ t => Holding i held t ∧ True) (.throw e) s :=
  wp_throw (inLock_base hx held).stable h fun _ _ h => ⟨h.1, trivial⟩

theorem wp_replaced {held : List (AbsPath × ℕ)} {k : AbsPath} {v w : Option Bytes}
    (hkeys : x.keys i = [k]) (hpermitted : x.Permitted i k v w) (hheld : Holding i held s)
    (hreplaced : Replaced i k v w s.2) (result : α) :
    x.Wp i (fun _ t => Holding i held t ∧ x.Done i t.2) E (.pure result) s := by
  refine wp_pure ((stable_holding held).and (lasting_replaced i _ _ _).stable) ⟨hheld, hreplaced⟩
    fun t _ h => ⟨h.1, fun key hkey => ?_⟩
  obtain rfl : key = k := by simpa [hkeys] using hkey
  exact ⟨_, _, hpermitted, h.2⟩

end Rules

/-! ## The operations -/

section Operations

variable [DecidableEq D] {s : FsState ι × List (FileEvent ι)}

variable {input : String} {expected : Option D}

section

variable (hx : x.RegularFiles)

include hx

theorem wp_edit {uuid : NamePart} {oldString newString : List Char} {replaceAll : Bool}
    (hcall : x.calls i = .edit uuid input oldString newString replaceAll expected)
    (h : x.Fresh i s) :
    x.Wp i (fun _ t => x.Done i t.2) (fun _ _ => True)
      (x.service.edit uuid input oldString newString replaceAll expected) s := by
  obtain ⟨parent, d, n, hcandidate, ht, hkeyOf, hkeys⟩ := hx.single i input
    (by rw [targets, hcall])
  have htemps : x.temps i = [d ++ [tempName (parent ++ [n]) x.service.pid uuid]] := by
    simp [temps, hcall, hcandidate, hkeyOf]
  have hA := (lasting_fresh (i := i) hx).stable
  unfold FileSystemService.edit
  split
  · exact wp_throw hA h fun _ _ _ => trivial
  split
  · exact wp_throw hA h fun _ _ _ => trivial
  refine wp_resolve_target hx ht hcandidate h (fun t h => ?_) fun _ _ _ _ => trivial
  refine wp_withPathLock_any hx ht hkeys h fun held me t hk h => ?_
  have hbase := inLock_base (i := i) hx held
  refine wp_exists ht hbase.stable h (fun t data _ h hnode => ?_) fun t _ h _ => wp_throw_locked hx h _
  refine wp_lstat_locked ht hbase hk ⟨h, hnode⟩ fun t h => ?_
  split
  · exact wp_throw_locked hx h.1 _
  split
  · exact wp_throw_locked hx h.1 _
  refine wp_readFile_locked ht hbase hk h fun t h hseen => ?_
  dsimp only
  split
  · exact wp_throw_locked hx h.1 _
  next hdigest =>
  split
  · exact wp_throw_locked hx h.1 _
  split
  · exact wp_throw_locked hx h.1 _
  split
  · exact wp_throw_locked hx h.1 _
  have hpermitted : ∀ after : Bytes,
      x.Permitted i (d ++ [n]) (some data.content) (some after) := by
    intro after
    simp only [Permitted, hcall, hcandidate, hkeyOf]
    refine ⟨trivial, by simp, data.content, rfl, fun hash hhash => ?_⟩
    simp only [hhash, Option.any_some, decide_eq_true_eq, not_not] at hdigest
    exact hdigest.symm
  refine wp_atomicWrite hx ht (by simp [htemps]) (by simp [hkeys]) hk hbase h.1 hseen
    (hpermitted _) fun t hheld hreplaced => ?_
  exact wp_replaced hkeys (hpermitted _) hheld hreplaced _

theorem wp_write {uuid : NamePart} {buffer : Bytes}
    (hcall : x.calls i = .write uuid input buffer expected) (h : x.Fresh i s) :
    x.Wp i (fun _ t => x.Done i t.2) (x.Refused i)
      (x.service.write uuid input buffer expected) s := by
  obtain ⟨parent, d, n, hcandidate, ht, hkeyOf, hkeys⟩ := hx.single i input
    (by rw [targets, hcall])
  have htemps : x.temps i = [d ++ [tempName (parent ++ [n]) x.service.pid uuid]] := by
    simp [temps, hcall, hcandidate, hkeyOf]
  -- what a write that creates a file brings along
  have hcreates : ∀ k, x.CreatedOnly k → k ∈ x.keys i → expected = none ∧ x.Accepts input ∧
      buffer.length ≤ x.service.maxWriteBytes := by
    intro k hk hkey
    have hc := hk.creates i hkey
    simp only [Creates, hcall] at hc
    split at hc
    next heq =>
      obtain ⟨rfl, rfl, rfl, rfl⟩ := by simpa using heq
      exact ⟨rfl, hc.1, hc.2.1⟩
    next heq => cases heq
    next => exact hc.elim
  have hresolves : ∀ k, x.CreatedOnly k → k ∈ x.keys i → x.RootsAreDirectories ∧
      x.Accepts input ∧ x.Stable i fun t => t.1.tree.node (d ++ [n]) ≠ none := by
    intro k hk hkey
    obtain rfl : k = d ++ [n] := by simpa [hkeys] using hkey
    exact ⟨hk.roots, (hcreates _ hk hkey).2.1, hk.stays hx hkey⟩
  have hA := (lasting_fresh (i := i) hx).stable
  refine wp_resolve_target hx ht hcandidate h (fun t h => ?_)
    fun hnot t e _ => refused_of_not hresolves hnot e t
  split
  next hlimit =>
    refine wp_throw hA h fun t _ _ => refused_of_not hcreates (fun hc => ?_) _ t
    exact absurd hc.2.2 (by omega)
  refine wp_withPathLock hx ht (by simp [hkeys]) (fun _ => lasting_done) (lasting_refused hx) h
    (fun held me t hk h => ?_) fun hnot t e _ => refused_of_not hresolves (fun hr => hnot hr.2.2) e t
  have hbase := inLock_base (i := i) hx held
  have hwrite : ∀ v mode t, Holding i held t ∧ x.Fresh i t → Seen i (d ++ [n]) v t →
      x.Permitted i (d ++ [n]) v (some buffer) → ∀ result : FsResult D,
      x.Wp i (fun _ t => Holding i held t ∧ x.Done i t.2)
        (fun e t => Holding i held t ∧ x.Refused i e t)
        ((x.service.atomicWrite uuid (parent ++ [n]) buffer mode).bind fun _ => .pure result) t := by
    intro v mode t h hseen hpermitted result
    refine wp_atomicWrite hx ht (by simp [htemps]) (by simp [hkeys]) hk hbase h hseen hpermitted
      fun t hheld hreplaced => ?_
    exact wp_replaced hkeys hpermitted hheld hreplaced _
  refine wp_verifyExpectedHash ht hbase hk h (fun t data h hseen hexpected => ?_)
    (fun t h hnone hexpected => ?_) fun t e h hconflict _ => ⟨h.1, fun k hk hkey => ?_⟩
  · refine hwrite _ _ t h.1 hseen ?_ _
    simp [Permitted, hcall, hcandidate, hkeyOf, hexpected]
  · refine hwrite none _ t h ⟨by rw [contentAt, hnone], fun c hc => by cases hc⟩ ?_ _
    simp [Permitted, hcall, hcandidate, hkeyOf, hexpected]
  · obtain ⟨hmessage, hexists⟩ := hconflict (hcreates k hk hkey).1
    obtain rfl : k = d ++ [n] := by simpa [hkeys] using hkey
    exact ⟨hmessage, hexists, fun e he hi => h.2.log e he hi _⟩

theorem wp_patch {uuid : NamePart} {patchText : List Char} {expected : D}
    (hcall : x.calls i = .patch uuid input patchText expected) (h : x.Fresh i s) :
    x.Wp i (fun _ t => x.Done i t.2) (fun _ _ => True)
      (x.service.patch uuid input patchText expected) s := by
  obtain ⟨parent, d, n, hcandidate, ht, hkeyOf, hkeys⟩ := hx.single i input
    (by rw [targets, hcall])
  have htemps : x.temps i = [d ++ [tempName (parent ++ [n]) x.service.pid uuid]] := by
    simp [temps, hcall, hcandidate, hkeyOf]
  have hA := (lasting_fresh (i := i) hx).stable
  refine wp_resolve_target hx ht hcandidate h (fun t h => ?_) fun _ _ _ _ => trivial
  dsimp only
  split
  · exact wp_throw hA h fun _ _ _ => trivial
  refine wp_withPathLock_any hx ht hkeys h fun held me t hk h => ?_
  have hbase := inLock_base (i := i) hx held
  refine wp_verifyExpectedHash ht hbase hk h (fun t data h hseen hexpected => ?_)
    (fun t h hnone hexpected => by cases hexpected) fun t e h _ _ => ⟨h.1, trivial⟩
  have hpermitted : ∀ after : Bytes,
      x.Permitted i (d ++ [n]) (some data.content) (some after) := by
    intro after
    simpa [Permitted, hcall, hcandidate, hkeyOf, eq_comm] using hexpected
  -- the second read finds what was verified
  have hseenIn := hbase.seen hk (some data.content)
  refine wp_readFile_locked ht hseenIn hk ⟨⟨h.1, hseen⟩, h.2⟩ fun t h _ => ?_
  dsimp only
  split
  · exact wp_throw_locked hx h.1.1 _
  · exact wp_throw_locked hx h.1.1 _
  split
  · exact wp_throw_locked hx h.1.1 _
  refine wp_lstat_locked ht hseenIn hk h fun t h => ?_
  refine wp_atomicWrite hx ht (by simp [htemps]) (by simp [hkeys]) hk hbase h.1.1 h.1.2
    (hpermitted _) fun t hheld hreplaced => ?_
  exact wp_replaced hkeys (hpermitted _) hheld hreplaced _

theorem wp_remove {recursive : Bool} (hcall : x.calls i = .remove input expected recursive)
    (h : x.Fresh i s) :
    x.Wp i (fun _ t => x.Done i t.2) (fun _ _ => True)
      (x.service.remove input expected recursive) s := by
  obtain ⟨parent, d, n, hcandidate, ht, hkeyOf, hkeys⟩ := hx.single i input
    (by rw [targets, hcall])
  refine wp_resolve_target hx ht hcandidate h (fun t h => ?_) fun _ _ _ _ => trivial
  refine wp_withPathLock_any hx ht hkeys h fun held me t hk h => ?_
  have hbase := inLock_base (i := i) hx held
  unfold FileSystemService.removeLocked
  split
  · exact wp_throw_locked hx h _
  refine wp_lstat_target ht hbase.stable h (fun t data _ h hnode => ?_) fun t _ h _ => wp_throw_locked hx h _
  rw [if_pos (by rfl)]
  refine wp_verifyExpectedHash ht (hbase.node hk (some (.file data))) hk ⟨h, hnode⟩
    (fun t data h hseen hexpected => ?_) (fun t h hnone _ => ?_) fun t e h _ _ => ⟨h.1.1, trivial⟩
  · have hpermitted : x.Permitted i (d ++ [n]) (some data.content) none := by
      simp [Permitted, hcall, hcandidate, hkeyOf, hexpected]
    have hA := (hbase.node hk (some (.file data))).seen hk (some data.content)
    refine wp_unlink hx ht.dirAt_start.1 ht.hasNul hA.stable ⟨⟨h.1.1, h.2⟩, hseen⟩
      (fun t h => ⟨me, h.1.1.1 _ hk⟩) (fun t h => h.1.2) (.inr hpermitted) fun t tree h => ?_
    have hreplaced : Replaced i (d ++ [n]) (some data.content) none
        (t.2 ++ [.mutate i (d ++ [n]) (some data.content) none]) := ⟨t.2, [], rfl, h.2.2⟩
    refine wp_replaced hkeys hpermitted ?_ hreplaced _
    exact h.1.1.1
  · -- nobody has removed the file `lstat` has found
    rw [h.2] at hnone
    cases hnone

theorem wp_moveLocked {sourceInput destinationInput : String} {parent d parent' d' : AbsPath}
    {n m : Name} {me me' : ℕ} {held : List (AbsPath × ℕ)}
    (hcall : x.calls i = .move sourceInput destinationInput expected)
    (hcandidate : x.service.policy.candidate sourceInput = parent ++ [n])
    (hcandidate' : x.service.policy.candidate destinationInput = parent' ++ [m])
    (ht : x.IsTarget parent d n) (ht' : x.IsTarget parent' d' m)
    (hkeys : x.keys i = [d ++ [n], d' ++ [m]])
    (hcreates : ∀ k, x.CreatedOnly k → k ∈ x.keys i → k = d' ++ [m] ∧
      ∀ t, x.Fresh i t → ∃ content, contentAt t.1.tree (d ++ [n]) = some content ∧
        expected = some (x.service.sha256 content)) (hk : (d ++ [n], me) ∈ held)
    (hk' : (d' ++ [m], me') ∈ held) (h : Holding i held s ∧ x.Fresh i s) :
    x.Wp i (fun _ t => Holding i held t ∧ x.Done i t.2)
      (fun e t => Holding i held t ∧ x.Refused i e t)
      (x.service.moveLocked (parent ++ [n]) (parent' ++ [m]) expected) s := by
  have hbase := inLock_base (i := i) hx held
  have hdirname : Paths.dirname (parent' ++ [m]) = parent' := List.dropLast_concat
  have hexists : ∀ {t : FsState ι × List (FileEvent ι)}, x.Fresh i t →
      t.1.tree.node (d ++ [n]) = none → ∀ e, x.Refused i e t := by
    intro t hfresh hnone e
    refine refused_of_not (fun k hk hkey => (hcreates k hk hkey).2 t hfresh) ?_ e t
    rintro ⟨content, hcontent, -⟩
    rw [contentAt, hnone] at hcontent
    cases hcontent
  refine wp_lstat_target ht hbase.stable h (fun t data _ h hnode => ?_) fun t _ h hnone =>
    wp_throw (hbase.node hk none).stable ⟨h, hnone⟩ fun t _ h => ⟨h.1.1, hexists h.1.2 h.2 _⟩
  unfold FileSystemService.verifySource
  rw [if_pos (by rfl)]
  simp only [Program.bind_eq, Program.bind_assoc]
  refine wp_verifyExpectedHash ht (hbase.node hk (some (.file data))) hk ⟨h, hnode⟩
    (fun t data h hseen hexpected => ?_) (fun t h hnone _ => ?_)
    fun t e h _ hne => ⟨h.1.1, ?_⟩
  · have hA := (hbase.node hk (some (.file data))).seen hk (some data.content)
    have hpermitted : x.Permitted i (d ++ [n]) (some data.content) none := by
      simp [Permitted, hcall, hcandidate, ht.keyOf_eq, hexpected]
    refine wp_exists ht' hA.stable ⟨⟨h.1.1, h.2⟩, hseen⟩ (fun t data' _ h hnode => ?_)
      fun t _ h hnone => ?_
    · refine wp_throw (hA.node hk' (some (.file data'))).stable ⟨h, hnode⟩ fun t _ h =>
        ⟨h.1.1.1.1, fun k hk hkey => ⟨⟨_, rfl⟩, ?_, fun e he hi => h.1.1.1.2.log e he hi _⟩⟩
      rw [(hcreates k hk hkey).1, h.2]
      simp
    · simp only [Bool.false_eq_true, if_false, hdirname]
      have hA' := hA.node hk' none
      refine wp_mkdir ht'.dirAt_start.1 hA'.stable ⟨h, hnone⟩ fun t h => ?_
      have hne : d ++ [n] ≠ d' ++ [m] := by
        intro heq
        have hsource := h.1.1.2
        rw [heq, h.2] at hsource
        cases hsource
      have hpermitted' : x.Permitted i (d' ++ [m]) none (some data.content) := by
        simp [Permitted, hcall, hcandidate, hcandidate', ht.keyOf_eq, ht'.keyOf_eq, hexpected,
          hne.symm]
      refine wp_rename hx ht.dirAt_start.1 ht.hasNul ht'.dirAt_start.1 ht'.hasNul hne ht'.leaf
        hA'.stable h (fun t h l hl => ?_) (fun t h => h.1.1.2) (fun t h => ?_)
        ⟨.inr hpermitted, .inr hpermitted'⟩ fun t locks tree h hlocks => ?_
      · rcases List.mem_pair.mp hl with rfl | rfl
        · exact .inl ⟨me, h.1.1.1.1 _ hk⟩
        · exact .inl ⟨me', h.1.1.1.1 _ hk'⟩
      · rw [contentAt, h.2]
      · have hsource : Replaced i (d ++ [n]) (some data.content) none (t.2 ++
            [.mutate i (d ++ [n]) (some data.content) none,
              .mutate i (d' ++ [m]) none (some data.content)]) := ⟨t.2, _, rfl, h.1.2.2⟩
        have hdestination : Replaced i (d' ++ [m]) none (some data.content) (t.2 ++
            [.mutate i (d ++ [n]) (some data.content) none,
              .mutate i (d' ++ [m]) none (some data.content)]) :=
          ⟨t.2 ++ [.mutate i (d ++ [n]) (some data.content) none], [], by simp,
            fun c hc => by cases hc⟩
        refine wp_pure (((stable_holding held).and (lasting_replaced i _ _ _).stable).and
          (lasting_replaced i _ _ _).stable) ⟨⟨hlocks ▸ h.1.1.1.1, hsource⟩, hdestination⟩
          fun t _ h => ⟨h.1.1, fun k hkey => ?_⟩
        rcases List.mem_pair.mp (hkeys ▸ hkey) with rfl | rfl
        · exact ⟨_, _, hpermitted, h.1.2⟩
        · exact ⟨_, _, hpermitted', h.2⟩
  · rw [h.2] at hnone
    cases hnone
  · refine refused_of_not (fun k hk hkey => (hcreates k hk hkey).2 t h.1.2) ?_ e t
    rintro ⟨content, hcontent, hexpected⟩
    exact hne content hcontent hexpected

theorem wp_move {sourceInput destinationInput : String}
    (hcall : x.calls i = .move sourceInput destinationInput expected) (h : x.Fresh i s) :
    x.Wp i (fun _ t => x.Done i t.2) (x.Refused i)
      (x.service.move sourceInput destinationInput expected) s := by
  have htargets : x.targets i = [x.service.policy.candidate sourceInput,
      x.service.policy.candidate destinationInput] := by rw [targets, hcall]
  obtain ⟨parent, d, n, hcandidate, ht⟩ := hx.target i
    (x.service.policy.candidate sourceInput) (by rw [htargets]; simp)
  obtain ⟨parent', d', m, hcandidate', ht'⟩ := hx.target i
    (x.service.policy.candidate destinationInput) (by rw [htargets]; simp)
  have hkeys : x.keys i = [d ++ [n], d' ++ [m]] := by
    simp [keys, htargets, hcandidate, hcandidate', ht.keyOf_eq, ht'.keyOf_eq]
  -- what a move that creates a file brings along
  have hcreates : ∀ k, x.CreatedOnly k → k ∈ x.keys i → x.Accepts sourceInput ∧
      x.Accepts destinationInput ∧ k = d' ++ [m] ∧
      (∃ content, contentAt x.start (d ++ [n]) = some content ∧
        expected = some (x.service.sha256 content)) ∧ ∀ j, j ≠ i → d ++ [n] ∉ x.keys j := by
    intro k hk hkey
    have hc := hk.creates i hkey
    simpa only [Creates, hcall, hcandidate, hcandidate', ht.keyOf_eq, ht'.keyOf_eq] using hc
  have hsource : ∀ k, x.CreatedOnly k → k ∈ x.keys i → x.RootsAreDirectories ∧
      x.Accepts sourceInput ∧ x.Stable i fun t => t.1.tree.node (d ++ [n]) ≠ none := by
    intro k hk hkey
    obtain ⟨haccepts, -, -, -, hother⟩ := hcreates k hk hkey
    refine ⟨hk.roots, haccepts, fun s s' hr _ hne => ?_⟩
    have hsame := hr.exclusive (d ++ [n]) fun j hj => ⟨hother j hj, fun htemp =>
      hx.temp_not_key j i _ htemp (by simp [hkeys])⟩
    exact fun hnone => hne (hsame.symm.trans hnone)
  have hdestination : ∀ k, x.CreatedOnly k → k ∈ x.keys i → x.RootsAreDirectories ∧
      x.Accepts destinationInput ∧ x.Stable i fun t => t.1.tree.node (d' ++ [m]) ≠ none := by
    intro k hk hkey
    obtain ⟨-, haccepts, rfl, -⟩ := hcreates k hk hkey
    exact ⟨hk.roots, haccepts, hk.stays hx hkey⟩
  have hA := lasting_fresh (i := i) hx
  refine wp_resolve_target hx ht hcandidate h (fun t h => ?_)
    fun hnot t e _ => refused_of_not hsource hnot e t
  refine wp_resolve_target hx ht' hcandidate' h (fun t h => ?_)
    fun hnot t e _ => refused_of_not hdestination hnot e t
  simp only [withPathLocks, canonicalizeAll, Program.bind_eq, Program.bind_assoc]
  refine wp_canonicalizePath ht hA.stable h (fun t _ h => ?_)
    fun hnot t e _ _ => refused_of_not hsource (fun hr => hnot hr.2.2) e t
  refine wp_canonicalizePath ht' hA.stable h (fun t hi h => ?_)
    fun hnot t e _ _ => refused_of_not hdestination (fun hr => hnot hr.2.2) e t
  refine wp_locked _ (fun k hk => ?_) hA (fun _ => lasting_done) (lasting_refused hx) hi h
    fun held t hheld _ h hholding => ?_
  · rw [hkeys]
    exact mem_sortedKeys.mp hk
  obtain ⟨me, hk⟩ := hheld (d ++ [n]) (mem_sortedKeys.mpr (by simp))
  obtain ⟨me', hk'⟩ := hheld (d' ++ [m]) (mem_sortedKeys.mpr (by simp))
  refine wp_moveLocked hx hcall hcandidate hcandidate' ht ht' hkeys (fun k hcreated hkey => ?_)
    hk hk' ⟨hholding, h⟩
  obtain ⟨-, -, hkd, ⟨content, hcontent, hexpected⟩, hother⟩ := hcreates k hcreated hkey
  refine ⟨hkd, fun t hfresh => ⟨content, ?_, hexpected⟩⟩
  rw [contentAt, hfresh.own _ (by simp [hkeys]) hother]
  exact hcontent

theorem wp_program (h : x.Fresh i s) :
    x.Wp i (fun _ t => x.Done i t.2) (x.Refused i) (x.programs i) s := by
  have hother : (∀ k, ¬ x.Creates i k) → ∀ p : FsM (FsResult D),
      x.Wp i (fun _ t => x.Done i t.2) (fun _ _ => True) p s →
      x.Wp i (fun _ t => x.Done i t.2) (x.Refused i) p s := by
    intro hnot p hp
    refine Program.wp_mono hp (fun _ _ _ h => h) fun e t _ _ => ?_
    exact refused_of_not (fun k hk hkey => hnot k (hk.creates i hkey)) (fun h => h) e t
  unfold programs
  cases hcall : x.calls i with
  | edit uuid input oldString newString replaceAll expected =>
    exact hother (fun k hk => by simp [Creates, hcall] at hk) _ (wp_edit hx hcall h)
  | write uuid input buffer expected => exact wp_write hx hcall h
  | patch uuid input patchText expected =>
    exact hother (fun k hk => by simp [Creates, hcall] at hk) _ (wp_patch hx hcall h)
  | move sourceInput destinationInput expected => exact wp_move hx hcall h
  | remove input expected recursive =>
    exact hother (fun k hk => by simp [Creates, hcall] at hk) _ (wp_remove hx hcall h)
  | makeDirectory input => exact absurd hcall (hx.no_makeDirectory i input)

end

end Operations

/-! ## Runs -/

section Run

variable [DecidableEq ι] [DecidableEq D]

def initial (x : Setting ι D) :
    Pool ι FsOp FsOp.Res AppError (FsResult D) × (FsState ι × List (FileEvent ι)) :=
  (x.programs, (⟨x.start, .empty⟩, []))

/-- The configurations that interleaved calls can reach. -/
def Reaches (x : Setting ι D)
    (c : Pool ι FsOp FsOp.Res AppError (FsResult D) × (FsState ι × List (FileEvent ι))) : Prop :=
  Pool.Run (fun i => exec x.maxLinks i) (fun _ _ => True) x.initial c

variable {c : Pool ι FsOp FsOp.Res AppError (FsResult D) × (FsState ι × List (FileEvent ι))}

theorem safe_of_reaches (hx : x.RegularFiles) (h : x.Reaches c) :
    Pool.Safe (fun i => exec x.maxLinks i) x.protocol (fun i _ t => x.Done i t.2) x.Refused c := by
  refine Pool.wp_run (fun _ _ _ _ _ hstep => hstep) h ⟨⟨.empty, fun ht => ?_, .refl _, .refl _,
    fun k => rfl, by simp [initial]⟩, fun i => wp_program hx ⟨hx.temp_absent i, ?_, fun _ _ _ => rfl⟩⟩
  · simp [initial, ChainLock.State.empty] at ht
  · simp [initial]

variable {log : List (FileEvent ι)}

omit [DecidableEq ι] [DecidableEq D] in
theorem Done.expected {hash : D} (h : x.Done i log) (hexpected : x.expectedSha256 i = some hash)
    (hnot : ∀ input, x.calls i ≠ .makeDirectory input) :
    ∃ k ∈ x.keys i, ∃ content after, x.Permitted i k (some content) after ∧
      x.service.sha256 content = hash ∧ Replaced i k (some content) after log := by
  -- the target that is verified
  obtain ⟨k, hk, hverified⟩ : ∃ k ∈ x.keys i, ∀ v w, x.Permitted i k v w →
      ∃ content, v = some content ∧ x.service.sha256 content = hash := by
    unfold Permitted keys targets
    unfold expectedSha256 at hexpected
    cases hcall : x.calls i with
    | edit uuid input oldString newString replaceAll expected =>
      rw [hcall] at hexpected
      refine ⟨_, List.mem_singleton_self _, fun v w hp => ?_⟩
      obtain ⟨-, -, content, rfl, hdigest⟩ := hp
      exact ⟨content, rfl, hdigest hash hexpected⟩
    | write uuid input buffer expected =>
      rw [hcall] at hexpected
      obtain rfl : expected = some hash := hexpected
      refine ⟨_, List.mem_singleton_self _, fun v w hp => ?_⟩
      exact hp.2.2
    | patch uuid input patchText expected =>
      rw [hcall] at hexpected
      obtain rfl : expected = hash := Option.some.inj hexpected
      refine ⟨_, List.mem_singleton_self _, fun v w hp => ?_⟩
      exact hp.2.2
    | move sourceInput destinationInput expected =>
      rw [hcall] at hexpected
      obtain rfl : expected = some hash := hexpected
      refine ⟨_, List.mem_cons_self, fun v w hp => ?_⟩
      rcases hp with ⟨-, -, content, rfl, hdigest⟩ | ⟨-, hne, -⟩
      · exact ⟨content, rfl, (Option.some.inj hdigest).symm⟩
      · exact absurd rfl hne
    | remove input expected recursive =>
      rw [hcall] at hexpected
      obtain rfl : expected = some hash := hexpected
      refine ⟨_, List.mem_singleton_self _, fun v w hp => ?_⟩
      obtain ⟨-, -, content, rfl, hdigest⟩ := hp
      exact ⟨content, rfl, (Option.some.inj hdigest).symm⟩
    | makeDirectory input => exact absurd hcall (hnot input)
  obtain ⟨v, w, hpermitted, hreplaced⟩ := h k hk
  obtain ⟨content, rfl, hdigest⟩ := hverified v w hpermitted
  exact ⟨k, hk, content, w, hpermitted, hdigest, hreplaced⟩

omit [DecidableEq ι] [DecidableEq D] in
theorem CreatedOnly.mutate (hx : x.RegularFiles) {k : AbsPath} (hk : x.CreatedOnly k)
    (hkey : k ∈ x.keys i) (hallowed : ∀ e ∈ log, x.Allowed e) {j : ι} {v w : Option Bytes}
    (he : .mutate j k v w ∈ log) :
    x.Permitted j k v w ∧ v = none ∧ ∃ content, w = some content := by
  have hpermitted : x.Permitted j k v w := by
    rcases hallowed _ he with htemp | hpermitted
    · exact absurd hkey (hx.temp_not_key j i k htemp)
    · exact hpermitted
  refine ⟨hpermitted, ?_⟩
  have hcreates := hk.creates j hpermitted.key
  unfold Creates at hcreates
  unfold Permitted at hpermitted
  split at hcreates
  next hcall =>
    rw [hcall] at hpermitted
    exact ⟨hpermitted.2.2, _, hpermitted.2.1⟩
  next hcall =>
    rw [hcall] at hpermitted
    rcases hpermitted with ⟨hsource, -⟩ | ⟨-, -, hnone, content, hcontent, -⟩
    · obtain ⟨-, -, -, ⟨content, hcontent, -⟩, -⟩ := hcreates
      rw [← hsource, contentAt, hk.absent] at hcontent
      cases hcontent
    · exact ⟨hnone, content, hcontent⟩
  next => exact hcreates.elim

omit [DecidableEq ι] in
theorem replays_created {k : AbsPath} {content : Bytes} {w : Option Bytes}
    (hcreated : ∀ j v w, FileEvent.mutate j k v w ∈ log → v = none)
    (h : Replays k (some content) log w) : w = some content ∧ ∀ e ∈ log, ¬ e.Mutates k := by
  induction log with
  | nil => exact ⟨h.symm, by simp⟩
  | cons e rest ih =>
    have hrest := ih fun j v w he => hcreated j v w (List.mem_cons_of_mem e he)
    cases e with
    | read j path c =>
      obtain ⟨hw, hnot⟩ := hrest h
      refine ⟨hw, fun e he => ?_⟩
      rcases List.mem_cons.mp he with rfl | he
      · exact id
      · exact hnot e he
    | mutate j path before after =>
      unfold Replays at h
      split at h
      next hpath =>
        subst hpath
        have hbefore := hcreated j before after List.mem_cons_self
        cases hbefore.symm.trans h.1.symm
      next hpath =>
        obtain ⟨hw, hnot⟩ := hrest h
        refine ⟨hw, fun e he => ?_⟩
        rcases List.mem_cons.mp he with rfl | he
        · exact hpath
        · exact hnot e he

omit [DecidableEq ι] in
theorem replays_absent {k : AbsPath} {w : Option Bytes}
    (hcreated : ∀ j v w, FileEvent.mutate j k v w ∈ log → v = none ∧ ∃ content, w = some content)
    (h : Replays k none log w) :
    (w = none ∧ ∀ e ∈ log, ¬ e.Mutates k) ∨ ∃ i content, w = some content ∧
      .mutate i k none w ∈ log ∧ ∀ e ∈ log, e.Mutates k → e = .mutate i k none w := by
  induction log with
  | nil => exact .inl ⟨h.symm, by simp⟩
  | cons e rest ih =>
    have hcreated' := fun j v w he => hcreated j v w (List.mem_cons_of_mem e he)
    -- an event that leaves the file alone
    have hskip : ¬ e.Mutates k → Replays k none rest w → (w = none ∧ ∀ e' ∈ e :: rest,
        ¬ e'.Mutates k) ∨ ∃ i content, w = some content ∧ .mutate i k none w ∈ e :: rest ∧
          ∀ e' ∈ e :: rest, e'.Mutates k → e' = .mutate i k none w := by
      intro hnot hrest
      rcases ih hcreated' hrest with ⟨hw, hnone⟩ | ⟨i, content, hw, hmem, honly⟩
      · refine .inl ⟨hw, fun e' he => ?_⟩
        rcases List.mem_cons.mp he with rfl | he
        · exact hnot
        · exact hnone e' he
      · refine .inr ⟨i, content, hw, List.mem_cons_of_mem e hmem, fun e' he hm => ?_⟩
        rcases List.mem_cons.mp he with rfl | he
        · exact absurd hm hnot
        · exact honly e' he hm
    cases e with
    | read j path c => exact hskip id h
    | mutate j path before after =>
      unfold Replays at h
      split at h
      next hpath =>
        subst hpath
        obtain ⟨rfl, content, rfl⟩ := hcreated j before after List.mem_cons_self
        obtain ⟨rfl, hnot⟩ := replays_created (fun j v w he => (hcreated' j v w he).1) h.2
        refine .inr ⟨j, content, rfl, List.mem_cons_self, fun e he hm => ?_⟩
        rcases List.mem_cons.mp he with rfl | he
        · rfl
        · exact absurd hm (hnot e he)
      next hpath => exact hskip hpath h

/-- Compare and set. In every interleaving, a call that carries a digest and succeeds has replaced
or removed a content of that digest, which it had read and which nobody had changed in between;
calls never block each other for good; and of the calls that create one file, once they have
finished, one has succeeded, all others have failed with a conflict, and the file has the content
of that one. -/
theorem compare_and_set (x : Setting ι D) (hx : x.RegularFiles)
    {c : Pool ι FsOp FsOp.Res AppError (FsResult D) × (FsState ι × List (FileEvent ι))}
    (hrun : x.Reaches c) :
    (∀ i hash result, x.expectedSha256 i = some hash → c.1 i = .pure result →
      ∃ k ∈ x.keys i, ∃ front mid post content after,
        c.2.2 = front ++ .read i k content :: mid ++ .mutate i k (some content) after :: post ∧
        x.service.sha256 content = hash ∧ x.Permitted i k (some content) after ∧
        ∀ e ∈ mid, ¬ e.Mutates k) ∧
    ((∀ i c', ¬ Pool.Step (fun i => exec x.maxLinks i) i c c') →
      ∀ i, (c.1 i).outcome? ≠ none) ∧
    ∀ k, x.CreatedOnly k → (∃ i, k ∈ x.keys i) →
      (∀ i, k ∈ x.keys i → (c.1 i).outcome? ≠ none) →
      ∃ winner content, k ∈ x.keys winner ∧ (∃ result, c.1 winner = .pure result) ∧
        x.Permitted winner k none (some content) ∧ contentAt c.2.1.tree k = some content ∧
        ∀ i, i ≠ winner → k ∈ x.keys i → ∃ message, c.1 i = .throw (.conflict message) := by
  have hsafe := safe_of_reaches hx hrun
  refine ⟨fun i hash result hexpected hresult => ?_, fun hstuck => ?_,
    fun k hk ⟨i₀, hi₀⟩ hfinished => ?_⟩
  · obtain ⟨k, hkey, content, after, hpermitted, hdigest, pre, post, hlog, hseen⟩ :=
      (hsafe.value hresult).expected hexpected (hx.no_makeDirectory i)
    obtain ⟨front, mid, rfl, hmid⟩ := hseen content rfl
    exact ⟨k, hkey, front, mid, post, content, after, hlog, hdigest, hpermitted, hmid⟩
  · exact LockOrder.finished_of_stuck
      (LockOrder.consistent_run (fun i => LockOrder.orderly_program _) hrun) hstuck
  -- a call on the file has succeeded, and has created it, or has been refused
  have houtcome : ∀ i, k ∈ x.keys i → (∃ result, c.1 i = .pure result ∧
        ∃ e ∈ c.2.2, e.caller = i ∧ e.Mutates k) ∨
      ((∃ message, c.1 i = .throw (.conflict message)) ∧ c.2.1.tree.node k ≠ none ∧
        ∀ e ∈ c.2.2, e.caller = i → ¬ e.Mutates k) := by
    intro i hi
    cases hp : c.1 i with
    | pure result =>
      obtain ⟨v, w, -, pre, post, hlog, -⟩ := hsafe.value hp k hi
      exact .inl ⟨result, rfl, .mutate i k v w, by simp [hlog], rfl, rfl⟩
    | throw e =>
      obtain ⟨⟨message, rfl⟩, hexists, hnot⟩ := hsafe.error hp k hk hi
      exact .inr ⟨⟨message, rfl⟩, hexists, hnot⟩
    | request o f => exact absurd (by rw [hp]; rfl) (hfinished i hi)
  have hmutate := fun j v w (he : FileEvent.mutate j k v w ∈ c.2.2) =>
    hk.mutate hx hi₀ hsafe.1.allowed he
  have hhistory := hsafe.1.history k
  have habsent : contentAt x.start k = none := by rw [contentAt, hk.absent]
  rw [habsent] at hhistory
  rcases replays_absent (fun j v w he => (hmutate j v w he).2) hhistory with
    ⟨hnone, hnot⟩ | ⟨winner, content, hcontent, hmem, honly⟩
  · -- nobody has created the file, so nobody can have been refused
    exfalso
    rcases houtcome i₀ hi₀ with ⟨-, -, e, he, -, hm⟩ | ⟨-, hexists, -⟩
    · exact hnot e he hm
    · obtain ⟨parent, d, n, hpath, ht⟩ : ∃ parent d n, k = d ++ [n] ∧ x.IsTarget parent d n := by
        obtain ⟨path, hpath, rfl⟩ := List.mem_map.mp hi₀
        obtain ⟨parent, d, n, rfl, ht⟩ := hx.target i₀ path hpath
        exact ⟨parent, d, n, ht.keyOf_eq, ht⟩
      subst hpath
      rcases ht.file_or_none hsafe.1 with ⟨data, hnode⟩ | hnode
      · rw [contentAt, hnode] at hnone
        cases hnone
      · exact hexists hnode
  · rw [hcontent] at hmem honly
    obtain ⟨hpermitted, -⟩ := hmutate _ _ _ hmem
    have hwinner : ∃ result, c.1 winner = .pure result := by
      rcases houtcome winner hpermitted.key with ⟨result, hresult, -⟩ | ⟨-, -, hnot⟩
      · exact ⟨result, hresult⟩
      · exact absurd rfl (hnot _ hmem rfl)
    refine ⟨winner, content, hpermitted.key, hwinner, hpermitted, hcontent, fun i hne hi => ?_⟩
    rcases houtcome i hi with ⟨-, -, e, he, hcaller, hm⟩ | ⟨hconflict, -⟩
    · obtain rfl := honly e he hm
      exact absurd hcaller.symm hne
    · exact hconflict

end Run

/-! ## Two writes of one new file -/

open PathPolicy in
/-- Two calls write the new file `/r/d/new`, one of them through the link `/r/l`. -/
def racing : Setting Bool Bytes where
  service :=
    { policy := ⟨[[nameR]], by decide⟩
      maxReadBytes := 1024
      maxWriteBytes := 1024
      sha256 := id
      patchTools := ⟨fun text => (text, 0), fun _ => .ok (), fun _ _ => .ok none⟩
      pid := ⟨"7", by decide, by decide⟩ }
  maxLinks := 40
  start := linkedTree
  calls
    | true => .write ⟨"a", by decide, by decide⟩ "d/new" [1] none
    | false => .write ⟨"b", by decide, by decide⟩ "l/new" [2] none

/-- Both calls ask for the lock, then one of them runs to its end, then the other. -/
def racingSchedule : List (Bool × Unit) :=
  (List.replicate 9 [(true, ()), (false, ())]).flatten ++
    List.replicate 8 (true, ()) ++ List.replicate 6 (false, ())

def racingStep (_ : Unit) (i : Bool) (o : FsOp) (s : FsState Bool × List (FileEvent Bool)) :
    Option (o.Res × (FsState Bool × List (FileEvent Bool))) :=
  (FsOp.apply racing.maxLinks i o s.1).map fun rs =>
    (rs.1, (rs.2, s.2 ++ events racing.maxLinks i s.1.tree rs.2.tree o rs.1))

section Racing

open PathPolicy

def racingKey : AbsPath := [nameR, nameD, nameNew]

theorem racing_regularFiles : racing.RegularFiles where
  target := by
    rintro (_ | _) path hpath
    · obtain rfl : path = [nameR, nameL] ++ [nameNew] := List.mem_singleton.mp hpath
      exact ⟨_, [nameR, nameD], _, rfl, rfl, rfl, fun v hv => by cases hv⟩
    · obtain rfl : path = [nameR, nameD] ++ [nameNew] := List.mem_singleton.mp hpath
      exact ⟨_, [nameR, nameD], _, rfl, rfl, rfl, fun v hv => by cases hv⟩
  no_makeDirectory := by rintro (_ | _) input h <;> cases h
  temp_absent := by decide +kernel
  temp_not_key := by decide +kernel
  temp_unique := by decide +kernel

theorem racing_createdOnly : racing.CreatedOnly racingKey where
  roots := by
    rintro root hroot
    obtain rfl : root = [nameR] := List.mem_singleton.mp hroot
    exact ⟨[nameR], rfl, rfl⟩
  absent := rfl
  creates := by
    rintro (_ | _) -
    · exact ⟨⟨_, _, rfl⟩, by decide, rfl⟩
    · exact ⟨⟨_, _, rfl⟩, by decide, rfl⟩

/-- One of the two calls creates the file, and the other one is refused. -/
theorem compare_and_set_racing : ∃ c, racing.Reaches c ∧ ∃ winner content,
    (∃ result, c.1 winner = .pure result) ∧ contentAt c.2.1.tree racingKey = some content ∧
      ∀ i, i ≠ winner → ∃ message, c.1 i = .throw (.conflict message) := by
  have hfinished : (Pool.schedule racingStep racingSchedule racing.initial).map (fun c =>
      ((c.1 true).outcome?.isSome, (c.1 false).outcome?.isSome)) = some (true, true) := by
    decide +kernel
  obtain ⟨c, hc, heq⟩ := Option.map_eq_some_iff.mp hfinished
  have hrun : racing.Reaches c := by
    refine Pool.run_of_schedule (fun _ i o s r s' h => ?_) racingSchedule (.refl _) hc
    obtain ⟨⟨r', st⟩, happly, hout⟩ := Option.map_eq_some_iff.mp h
    obtain ⟨rfl, rfl⟩ := Prod.mk.inj hout
    exact ⟨happly, rfl⟩
  have hkey : ∀ i, racingKey ∈ racing.keys i := by decide +kernel
  obtain ⟨winner, content, -, hresult, -, hcontent, hothers⟩ :=
    (compare_and_set racing racing_regularFiles hrun).2.2 racingKey racing_createdOnly
      ⟨true, hkey true⟩ (by
        rintro (_ | _) - hnone
        · rw [hnone] at heq
          simp at heq
        · rw [hnone] at heq
          simp at heq)
  exact ⟨c, hrun, winner, content, hresult, hcontent, fun i hi => hothers i hi (hkey i)⟩

end Racing

end Setting
