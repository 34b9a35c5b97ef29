import ChatgptSystem.Fs.FileHistory

/-!
# Rules for file operations under interference

What one call of the file-system service may rely on while other calls run: one rule for each
operation that only reads, with an assertion `A` that the other calls keep.

* `Setting.Wp`, `Setting.Stable` — the weakest precondition of one call, and the assertions the
  other calls keep;
* `Setting.wp_operation`, `Setting.wp_query` — the rules of a single operation;
* `Setting.IsTarget.dirAt` — the directory of a target is found in every state;
* `Setting.wp_lstat_target`, `Setting.wp_realpath_target`, `Setting.wp_readFile_target`,
  `Setting.wp_exists` — what the operations tell about a target.
-/

open FileTree Interleaving FileHistory

namespace Setting

variable {ι D : Type} {x : Setting ι D} {i : ι} {α β : Type}
  {Q : α → FsState ι × List (FileEvent ι) → Prop}
  {E : AppError → FsState ι × List (FileEvent ι) → Prop}
  {s : FsState ι × List (FileEvent ι)} {A : FsState ι × List (FileEvent ι) → Prop}

/-- The weakest precondition of a program the call `i` runs. -/
def Wp (x : Setting ι D) (i : ι) (Q : α → FsState ι × List (FileEvent ι) → Prop)
    (E : AppError → FsState ι × List (FileEvent ι) → Prop) (p : FsM α)
    (s : FsState ι × List (FileEvent ι)) : Prop :=
  p.wp (exec x.maxLinks i) x.protocol i Q E s

def Stable (x : Setting ι D) (i : ι) (A : FsState ι × List (FileEvent ι) → Prop) : Prop :=
  ∀ s s', x.Rely i s s' → x.Inv s' → A s → A s'

theorem Stable.and {B : FsState ι × List (FileEvent ι) → Prop} (hA : x.Stable i A)
    (hB : x.Stable i B) : x.Stable i fun s => A s ∧ B s :=
  fun s s' hr hi h => ⟨hA s s' hr hi h.1, hB s s' hr hi h.2⟩

/-! ## Rules for operations -/

theorem wp_pure {a : α} (hA : x.Stable i A) (h : A s) (hQ : ∀ t, x.Inv t → A t → Q a t) :
    x.Wp i Q E (.pure a) s :=
  fun t hr hi => hQ t hi (hA s t hr hi h)

theorem wp_throw {e : AppError} (hA : x.Stable i A) (h : A s)
    (hE : ∀ t, x.Inv t → A t → E e t) : x.Wp i Q E (.throw e) s :=
  fun t hr hi => hE t hi (hA s t hr hi h)

theorem wp_operation {o : FsOp} {k : o.Res → FsM α} (hA : x.Stable i A) (h : A s)
    (hstep : ∀ t, x.Inv t → A t → ∀ r t', exec x.maxLinks i o t r t' →
      (x.Inv t' ∧ ∀ j, i ≠ j → x.Rely j t t') ∧ x.Wp i Q E (k r) t') :
    x.Wp i Q E (.request o k) s := by
  intro t hr hi r t' hx
  obtain ⟨⟨hi', hg⟩, hk⟩ := hstep t hi (hA s t hr hi h) r t' hx
  exact ⟨hi', hg, hk⟩

theorem wp_query {o : FsOp} {k : o.Res → FsM α} {f : Tree Name FileData → o.Res}
    (happly : ∀ s : FsState ι, FsOp.apply x.maxLinks i o s = some (f s.tree, s))
    (hevents : ∀ t t' : Tree Name FileData, ∀ r, events x.maxLinks i t t' o r = [])
    (hA : x.Stable i A) (h : A s)
    (hk : ∀ t, x.Inv t → A t → x.Wp i Q E (k (f t.1.tree)) t) :
    x.Wp i Q E (.request o k) s := by
  refine wp_operation hA h fun t hi ha r t' hx => ?_
  obtain ⟨happly', hlog⟩ := hx
  rw [happly t.1] at happly'
  obtain ⟨rfl, hstate⟩ : f t.1.tree = r ∧ t.1 = t'.1 := by simpa using happly'
  rw [hevents, List.append_nil] at hlog
  obtain rfl : t = t' := Prod.ext hstate hlog.symm
  exact ⟨⟨hi, fun j _ => .refl x j t⟩, hk t hi ha⟩

theorem wp_lstat {path : AbsPath} {f : Stats → FsM α} (hA : x.Stable i A) (h : A s)
    (hok : ∀ t info, x.Inv t → A t → FsOp.lstatTree x.maxLinks t.1.tree path = .ok info →
      x.Wp i Q E (f info) t)
    (herror : ∀ t e, x.Inv t → A t → FsOp.lstatTree x.maxLinks t.1.tree path = .error e →
      x.Wp i Q E (.throw (.errno e)) t) :
    x.Wp i Q E ((Fs.lstat path).bind f) s := by
  refine wp_query (f := fun t => FsOp.lstatTree x.maxLinks t path) (fun _ => rfl)
    (fun _ _ _ => rfl) hA h fun t hi ha => ?_
  cases hr : FsOp.lstatTree x.maxLinks t.1.tree path with
  | ok info => exact hok t info hi ha hr
  | error e => exact herror t e hi ha hr

theorem wp_realpath {path : AbsPath} {f : AbsPath → FsM α} (hA : x.Stable i A) (h : A s)
    (hok : ∀ t loc, x.Inv t → A t → FsOp.locate x.maxLinks t.1.tree true path = .ok loc →
      x.Wp i Q E (f loc) t)
    (herror : ∀ t e, x.Inv t → A t → FsOp.locate x.maxLinks t.1.tree true path = .error e →
      x.Wp i Q E (.throw (.errno e)) t) :
    x.Wp i Q E ((Fs.realpath path).bind f) s := by
  refine wp_query (f := fun t => FsOp.locate x.maxLinks t true path) (fun _ => rfl)
    (fun _ _ _ => rfl) hA h fun t hi ha => ?_
  cases hr : FsOp.locate x.maxLinks t.1.tree true path with
  | ok loc => exact hok t loc hi ha hr
  | error e => exact herror t e hi ha hr

theorem wp_readFile {path : AbsPath} {f : Bytes → FsM α} (hA : x.Stable i A) (h : A s)
    (hok : ∀ t loc content, x.Inv t → A t →
      FsOp.locate x.maxLinks t.1.tree true path = .ok loc →
      contentAt t.1.tree loc = some content →
      x.Wp i Q E (f content) (t.1, t.2 ++ [.read i loc content]))
    (herror : ∀ t e, x.Inv t → A t → FsOp.readTree x.maxLinks t.1.tree path = .error e →
      x.Wp i Q E (.throw (.errno e)) t) :
    x.Wp i Q E ((Fs.readFile path).bind f) s := by
  refine wp_operation hA h fun t hi ha r t' hx => ?_
  obtain ⟨happly, hlog⟩ := hx
  obtain ⟨rfl, hstate⟩ : FsOp.readTree x.maxLinks t.1.tree path = r ∧ t.1 = t'.1 :=
    Prod.mk.inj (Option.some.inj happly)
  cases hread : FsOp.readTree x.maxLinks t.1.tree path with
  | error e =>
    rw [hread] at hlog
    obtain rfl : t = t' := Prod.ext hstate (by simpa [events, succeeded] using hlog.symm)
    exact ⟨⟨hi, fun j _ => .refl x j t⟩, herror t e hi ha hread⟩
  | ok content =>
    rw [hread] at hlog
    have hcontent : ∃ loc, FsOp.locate x.maxLinks t.1.tree true path = .ok loc ∧
        contentAt t.1.tree loc = some content := by
      unfold FsOp.readTree at hread
      cases hloc : FsOp.locate x.maxLinks t.1.tree true path with
      | error e => simp [hloc, Except.bind] at hread
      | ok loc =>
        refine ⟨loc, rfl, ?_⟩
        simp only [hloc, Except.bind] at hread
        split at hread
        next data hnode =>
          obtain rfl := Except.ok.inj hread
          simp [contentAt, hnode]
        next => cases hread
    obtain ⟨loc, hloc, hcontent⟩ := hcontent
    have hlog' : t'.2 = t.2 ++ [.read i loc content] := by
      simpa [events, hloc, Except.toOption] using hlog
    obtain rfl : t' = (t.1, t.2 ++ [.read i loc content]) := Prod.ext hstate.symm hlog'
    refine ⟨step_read hi rfl rfl ?_, hok t loc content hi ha hloc hcontent⟩
    rintro e he
    exact ⟨loc, content, List.mem_singleton.mp he⟩

/-! ## Targets -/

namespace IsTarget

variable {parent d : AbsPath} {n : Name}

section

variable (ht : x.IsTarget parent d n)

include ht

theorem dirAt_start : FsOp.DirAt x.maxLinks x.start parent d ∧ n.hasNul = false := by
  have hlocated := ht.located
  simp only [FsOp.locateParent, List.getLast?_concat, List.dropLast_concat] at hlocated
  split at hlocated
  next => cases hlocated
  next hn =>
    refine ⟨⟨?_, ht.isDir⟩, by simpa using hn⟩
    cases hloc : FsOp.locate x.maxLinks x.start true parent with
    | error e => simp [hloc, Except.map] at hlocated
    | ok loc =>
      obtain rfl : loc = d := by simpa [hloc, Except.map] using hlocated
      rfl

theorem hasNul : n.hasNul = false := ht.dirAt_start.2

theorem dirAt (hi : x.Inv s) :
    FsOp.DirAt x.maxLinks s.1.tree parent d := ht.dirAt_start.1.mono hi.keeps

theorem keyOf_eq : x.keyOf (parent ++ [n]) = d ++ [n] := by
  rw [keyOf, ht.located]

theorem file_or_none (hi : x.Inv s) :
    (∃ data, s.1.tree.node (d ++ [n]) = some (.file data)) ∨
      s.1.tree.node (d ++ [n]) = none := by
  cases hnode : s.1.tree.node (d ++ [n]) with
  | none => exact .inr rfl
  | some v =>
    obtain ⟨data, rfl⟩ := hi.leaf ht.leaf v hnode
    exact .inl ⟨data, rfl⟩

end

end IsTarget

section Target

variable {parent d : AbsPath} {n : Name} (ht : x.IsTarget parent d n)
include ht

theorem wp_lstat_target {f : Stats → FsM α} (hA : x.Stable i A) (h : A s)
    (hfile : ∀ t data, x.Inv t → A t → t.1.tree.node (d ++ [n]) = some (.file data) →
      x.Wp i Q E (f (FsOp.statsOf (.file data))) t)
    (hnone : ∀ t, x.Inv t → A t → t.1.tree.node (d ++ [n]) = none →
      x.Wp i Q E (.throw (.errno .ENOENT)) t) :
    x.Wp i Q E ((Fs.lstat (parent ++ [n])).bind f) s := by
  refine wp_lstat hA h (fun t info hi ha hok => ?_) fun t e hi ha herror => ?_
  · rw [(ht.dirAt hi).lstatTree_entry ht.hasNul] at hok
    rcases ht.file_or_none hi with ⟨data, hnode⟩ | hnode <;> rw [hnode] at hok
    · obtain rfl := Except.ok.inj hok
      exact hfile t data hi ha hnode
    · cases hok
  · rw [(ht.dirAt hi).lstatTree_entry ht.hasNul] at herror
    rcases ht.file_or_none hi with ⟨data, hnode⟩ | hnode <;> rw [hnode] at herror
    · cases herror
    · obtain rfl := Except.error.inj herror
      exact hnone t hi ha hnode

theorem wp_realpath_target {f : AbsPath → FsM α} (hA : x.Stable i A) (h : A s)
    (hfile : ∀ t, x.Inv t → A t → x.Wp i Q E (f (d ++ [n])) t)
    (hnone : ∀ t, x.Inv t → A t → t.1.tree.node (d ++ [n]) = none →
      x.Wp i Q E (.throw (.errno .ENOENT)) t) :
    x.Wp i Q E ((Fs.realpath (parent ++ [n])).bind f) s := by
  refine wp_realpath hA h (fun t loc hi ha hok => ?_) fun t e hi ha herror => ?_
  · rw [(ht.dirAt hi).locate_file ht.hasNul (hi.leaf ht.leaf)] at hok
    split at hok
    next => cases hok
    next =>
      obtain rfl := Except.ok.inj hok
      exact hfile t hi ha
  · rw [(ht.dirAt hi).locate_file ht.hasNul (hi.leaf ht.leaf)] at herror
    split at herror
    next hnode =>
      obtain rfl := Except.error.inj herror
      exact hnone t hi ha hnode
    next => cases herror

theorem wp_readFile_target {f : Bytes → FsM α} (hA : x.Stable i A) (h : A s)
    (hfile : ∀ t content, x.Inv t → A t → contentAt t.1.tree (d ++ [n]) = some content →
      x.Wp i Q E (f content) (t.1, t.2 ++ [.read i (d ++ [n]) content]))
    (hnone : ∀ t e, x.Inv t → A t → t.1.tree.node (d ++ [n]) = none →
      x.Wp i Q E (.throw (.errno e)) t) :
    x.Wp i Q E ((Fs.readFile (parent ++ [n])).bind f) s := by
  refine wp_readFile hA h (fun t loc content hi ha hloc hcontent => ?_)
    fun t e hi ha herror => ?_
  · rw [(ht.dirAt hi).locate_file ht.hasNul (hi.leaf ht.leaf)] at hloc
    split at hloc
    next => cases hloc
    next =>
      obtain rfl := Except.ok.inj hloc
      exact hfile t content hi ha hcontent
  · rcases ht.file_or_none hi with ⟨data, hnode⟩ | hnode
    · rw [(ht.dirAt hi).readTree_file ht.hasNul hnode] at herror
      cases herror
    · exact hnone t e hi ha hnode

theorem wp_exists {f : Bool → FsM α} (hA : x.Stable i A) (h : A s)
    (hfile : ∀ t data, x.Inv t → A t → t.1.tree.node (d ++ [n]) = some (.file data) →
      x.Wp i Q E (f true) t)
    (hnone : ∀ t, x.Inv t → A t → t.1.tree.node (d ++ [n]) = none → x.Wp i Q E (f false) t) :
    x.Wp i Q E ((FileSystemService.exists (parent ++ [n])).bind f) s := by
  refine wp_query (f := fun t => FsOp.lstatTree x.maxLinks t (parent ++ [n])) (fun _ => rfl)
    (fun _ _ _ => rfl) hA h fun t hi ha => ?_
  rw [(ht.dirAt hi).lstatTree_entry ht.hasNul]
  rcases ht.file_or_none hi with ⟨data, hnode⟩ | hnode
  · rw [hnode]
    exact hfile t data hi ha hnode
  · rw [hnode]
    exact hnone t hi ha hnode

end Target

end Setting
