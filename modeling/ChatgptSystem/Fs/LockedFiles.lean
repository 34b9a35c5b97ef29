import ChatgptSystem.Fs.LockRules

/-!
# Files under a lock

What a call knows about a file whose lock it holds, and the rules of the operations that change
such a file.

* `Setting.Seen`, `Setting.Replaced` — the content a call has read and that nobody has changed
  since, and the change it has made of such a content;
* `Setting.InLock` — the assertions of a call inside its locks that has changed nothing yet;
* `Setting.wp_verifyExpectedHash` — a verified file has the expected content until the call
  changes it;
* `Setting.wp_rename`, `Setting.wp_unlink`, `Setting.wp_atomicWrite` — the file is replaced or
  removed in one step.
-/

open FileTree Interleaving FileHistory

namespace Setting

variable {ι D : Type} {x : Setting ι D} {i : ι} {α β : Type}
  {Q : α → FsState ι × List (FileEvent ι) → Prop}
  {E : AppError → FsState ι × List (FileEvent ι) → Prop}
  {s : FsState ι × List (FileEvent ι)} {A : FsState ι × List (FileEvent ι) → Prop}
  {k : AbsPath} {me : ℕ} {held : List (AbsPath × ℕ)}

/-! ## What a call knows -/

/-- The call has changed nothing yet: its temporary file does not exist, and a target no other
call has is as it was at the start. -/
structure Fresh (x : Setting ι D) (i : ι) (s : FsState ι × List (FileEvent ι)) : Prop where
  temps : ∀ l ∈ x.temps i, s.1.tree.node l = none
  log : ∀ e ∈ s.2, e.caller = i → ∀ l, ¬ e.Mutates l
  own : ∀ l ∈ x.keys i, (∀ j, j ≠ i → l ∉ x.keys j) → s.1.tree.node l = x.start.node l

/-- A content the call has read has not been changed since. -/
def SeenIn (i : ι) (k : AbsPath) (v : Option Bytes) (log : List (FileEvent ι)) : Prop :=
  ∀ c, v = some c → ∃ front mid, log = front ++ .read i k c :: mid ∧ ∀ e ∈ mid, ¬ e.Mutates k

/-- The file has a content the call has read, or it is absent. -/
def Seen (i : ι) (k : AbsPath) (v : Option Bytes) (s : FsState ι × List (FileEvent ι)) : Prop :=
  contentAt s.1.tree k = v ∧ SeenIn i k v s.2

/-- The call has changed the content `v`, which it had seen, to `w`. -/
def Replaced (i : ι) (k : AbsPath) (v w : Option Bytes) (log : List (FileEvent ι)) : Prop :=
  ∃ pre post, log = pre ++ .mutate i k v w :: post ∧ SeenIn i k v pre

variable {v : Option Bytes} {f : Except Errno Unit → FsM α}

theorem SeenIn.append {log ext : List (FileEvent ι)} (h : SeenIn i k v log)
    (hext : ∀ e ∈ ext, ¬ e.Mutates k) : SeenIn i k v (log ++ ext) := by
  intro c hc
  obtain ⟨front, mid, rfl, hmid⟩ := h c hc
  refine ⟨front, mid ++ ext, by simp, fun e he => ?_⟩
  exact (List.mem_append.mp he).elim (hmid e) (hext e)

theorem Seen.rely {s s' : FsState ι × List (FileEvent ι)} (h : Seen i k v s)
    (hholds : s.1.locks.Holds i k me) (hr : x.Rely i s s') : Seen i k v s' := by
  refine ⟨?_, ?_⟩
  · rw [← h.1, contentAt, contentAt, hr.held k me hholds]
  · obtain ⟨ext, hlog, -, hext⟩ := hr.log
    rw [hlog]
    exact h.2.append (hext k me hholds)

theorem Seen.update {v' w' : Option Bytes} {l : AbsPath} {w : Option (Node Name FileData)}
    {locks : ChainLock.State ι AbsPath} {tree : Tree Name FileData} (h : Seen i k v s) (hne : k ≠ l)
    (htree : tree.node = Function.update s.1.tree.node l w) :
    Seen i k v (⟨tree, locks⟩, s.2 ++ [.mutate i l v' w']) := by
  refine ⟨?_, h.2.append fun e he => ?_⟩
  · rw [← h.1, contentAt, contentAt, htree, Function.update_of_ne hne]
  · obtain rfl := List.mem_singleton.mp he
    exact hne.symm

theorem Replaced.append {w : Option Bytes} {log : List (FileEvent ι)} (h : Replaced i k v w log)
    (ext : List (FileEvent ι)) : Replaced i k v w (log ++ ext) := by
  obtain ⟨pre, post, rfl, hseen⟩ := h
  exact ⟨pre, post ++ ext, by simp, hseen⟩

theorem lasting_replaced (i : ι) (k : AbsPath) (v w : Option Bytes) :
    x.Lasting i fun s => Replaced i k v w s.2 where
  stable := by
    intro s s' hr _ h
    obtain ⟨ext, hlog, -⟩ := hr.log
    rw [hlog]
    exact h.append ext
  locks _ _ h := h

theorem Rely.node_temp (hx : x.RegularFiles) {s s' : FsState ι × List (FileEvent ι)}
    (hr : x.Rely i s s') {l : AbsPath} (hl : l ∈ x.temps i) :
    s'.1.tree.node l = s.1.tree.node l :=
  hr.exclusive l fun j hj => ⟨hx.temp_not_key i j l hl, hx.temp_unique i j hj.symm l hl⟩

theorem lasting_fresh (hx : x.RegularFiles) : x.Lasting i (x.Fresh i) where
  stable := by
    intro s s' hr _ h
    obtain ⟨ext, hlog, hcaller, -⟩ := hr.log
    refine ⟨fun l hl => (hr.node_temp hx hl).trans (h.temps l hl), fun e he => ?_,
      fun l hl hother => ?_⟩
    · rw [hlog] at he
      rcases List.mem_append.mp he with he | he
      · exact h.log e he
      · exact fun hi => absurd hi (hcaller e he)
    · refine (hr.exclusive l fun j hj => ⟨hother j hj, fun htemp => ?_⟩).trans (h.own l hl hother)
      exact hx.temp_not_key j i l htemp hl
  locks _ _ h := ⟨h.temps, h.log, h.own⟩

/-- An assertion of a call inside its locks that has changed nothing yet. -/
structure InLock (x : Setting ι D) (i : ι) (held : List (AbsPath × ℕ))
    (A : FsState ι × List (FileEvent ι) → Prop) : Prop where
  stable : x.Stable i A
  holding : ∀ s, A s → Holding i held s
  fresh : ∀ s, A s → x.Fresh i s
  reads : ∀ s l c, A s → A (s.1, s.2 ++ [.read i l c])

theorem inLock_base (hx : x.RegularFiles) (held : List (AbsPath × ℕ)) :
    x.InLock i held fun s => Holding i held s ∧ x.Fresh i s where
  stable := (stable_holding held).and (lasting_fresh hx).stable
  holding _ h := h.1
  fresh _ h := h.2
  reads s l c h := by
    refine ⟨h.1, h.2.temps, fun e he => ?_, h.2.own⟩
    rcases List.mem_append.mp he with he | he
    · exact h.2.log e he
    · obtain rfl := List.mem_singleton.mp he
      exact fun _ _ hm => hm

namespace InLock

theorem holds (hA : x.InLock i held A) (hk : (k, me) ∈ held) {s : FsState ι × List (FileEvent ι)}
    (h : A s) : s.1.locks.Holds i k me := hA.holding s h _ hk

theorem node (hA : x.InLock i held A) (hk : (k, me) ∈ held) (v : Option (Node Name FileData)) :
    x.InLock i held fun s => A s ∧ s.1.tree.node k = v where
  stable s s' hr hi h :=
    ⟨hA.stable s s' hr hi h.1, (hr.held k me (hA.holds hk h.1)).trans h.2⟩
  holding s h := hA.holding s h.1
  fresh s h := hA.fresh s h.1
  reads s l c h := ⟨hA.reads s l c h.1, h.2⟩

theorem seen (hA : x.InLock i held A) (hk : (k, me) ∈ held) (v : Option Bytes) :
    x.InLock i held fun s => A s ∧ Seen i k v s where
  stable s s' hr hi h := ⟨hA.stable s s' hr hi h.1, h.2.rely (hA.holds hk h.1) hr⟩
  holding s h := hA.holding s h.1
  fresh s h := hA.fresh s h.1
  reads s l c h := by
    refine ⟨hA.reads s l c h.1, h.2.1, h.2.2.append fun e he => ?_⟩
    obtain rfl := List.mem_singleton.mp he
    exact id

end InLock

/-! ## Verifying a file -/

section Verify

variable {parent d : AbsPath} {n : Name} (ht : x.IsTarget parent d n)
include ht

section

variable {data : FileData} (hA : x.InLock i held A) (hk : (d ++ [n], me) ∈ held)
  (h : A s ∧ s.1.tree.node (d ++ [n]) = some (.file data))

include hA hk h

theorem wp_readFile_locked {f : Bytes → FsM α}
    (hread : ∀ t, A t ∧ t.1.tree.node (d ++ [n]) = some (.file data) →
      Seen i (d ++ [n]) (some data.content) t → x.Wp i Q E (f data.content) t) :
    x.Wp i Q E ((Fs.readFile (parent ++ [n])).bind f) s := by
  have hA' := hA.node hk (some (.file data))
  refine wp_readFile_target ht hA'.stable h (fun t content hi ha hcontent => ?_)
    fun t e hi ha hnone => ?_
  · obtain rfl : data.content = content := by simpa [contentAt, ha.2] using hcontent
    refine hread _ (hA'.reads t _ _ ha) ⟨hcontent, fun c hc => ⟨t.2, [], ?_, by simp⟩⟩
    obtain rfl := Option.some.inj hc
    rfl
  · rw [ha.2] at hnone
    cases hnone

theorem wp_lstat_locked {f : Stats → FsM α}
    (hfile : ∀ t, A t ∧ t.1.tree.node (d ++ [n]) = some (.file data) →
      x.Wp i Q E (f (FsOp.statsOf (.file data))) t) :
    x.Wp i Q E ((Fs.lstat (parent ++ [n])).bind f) s := by
  refine wp_lstat_target ht (hA.node hk (some (.file data))).stable h
    (fun t data' _ ha hnode => ?_) fun t _ ha hnone => ?_
  · obtain rfl : data = data' := by simpa [ha.2] using hnode
    exact hfile t ha
  · rw [ha.2] at hnone
    cases hnone

end

variable [DecidableEq D]

/-- A verified file has a content with the expected digest, or there is no file and none was
expected. -/
theorem wp_verifyExpectedHash {expected : Option D} {f : Verified → FsM α}
    (hA : x.InLock i held A) (hk : (d ++ [n], me) ∈ held) (h : A s)
    (hverified : ∀ t data, A t ∧ t.1.tree.node (d ++ [n]) = some (.file data) →
      Seen i (d ++ [n]) (some data.content) t → expected = some (x.service.sha256 data.content) →
      x.Wp i Q E (f ⟨true, some data.mode⟩) t)
    (habsent : ∀ t, A t → t.1.tree.node (d ++ [n]) = none → expected = none →
      x.Wp i Q E (f ⟨false, none⟩) t)
    (hfail : ∀ t e, A t →
      (expected = none → (∃ message, e = .conflict message) ∧ t.1.tree.node (d ++ [n]) ≠ none) →
      (∀ content, contentAt t.1.tree (d ++ [n]) = some content →
        expected ≠ some (x.service.sha256 content)) → E e t) :
    x.Wp i Q E ((x.service.verifyExpectedHash (parent ++ [n]) expected).bind f) s := by
  simp only [FileSystemService.verifyExpectedHash, Program.bind_eq, Program.bind_assoc]
  refine wp_exists ht hA.stable h (fun t data _ ha hnode => ?_) fun t _ ha hnone => ?_
  · simp only [Bool.not_true, Bool.false_eq_true, if_false, Program.bind_assoc]
    refine wp_lstat_locked ht hA hk ⟨ha, hnode⟩ fun t ha => ?_
    simp only [FsOp.statsOf, Stats.isFile, Bool.not_true, Bool.false_eq_true, if_false,
      Program.bind_assoc]
    refine wp_readFile_locked ht hA hk ha fun t ha hseen => ?_
    have hA' := hA.node hk (some (.file data))
    have hcontent : ∀ (t : FsState ι × List (FileEvent ι)) (content : Bytes),
        t.1.tree.node (d ++ [n]) = some (.file data) →
        contentAt t.1.tree (d ++ [n]) = some content → data.content = content := by
      intro t content hnode hcontent
      simpa [contentAt, hnode] using hcontent
    cases expected with
    | none =>
      exact wp_throw hA'.stable ha fun t _ ha => hfail t _ ha.1
        (fun _ => ⟨⟨_, rfl⟩, by rw [ha.2]; simp⟩) fun _ _ => by simp
    | some hash =>
      dsimp only
      split
      next hne =>
        refine wp_throw hA'.stable ha fun t _ ha => hfail t _ ha.1 (fun h => by cases h)
          fun content hc heq => ?_
        obtain rfl := hcontent t content ha.2 hc
        exact hne (Option.some.inj heq).symm
      next heq => exact hverified t data ha hseen (by simpa [eq_comm] using heq)
  · have hA' := hA.node hk none
    simp only [Bool.not_false, if_true]
    split
    next hsome =>
      refine wp_throw hA'.stable ⟨ha, hnone⟩ fun t _ ha => hfail t _ ha.1 (fun h => ?_)
        fun content hc => ?_
      · rw [h] at hsome
        cases hsome
      · simp [contentAt, ha.2] at hc
    next hsome => exact habsent t ha hnone (by simpa using hsome)

end Verify

/-! ## Changing a file -/

theorem wp_change (hx : x.RegularFiles) {o : FsOp} {f : o.Res → FsM α} (L : List AbsPath)
    (hA : x.Stable i A) (h : A s) (hL : L.Nodup)
    (howner : ∀ t, A t → ∀ l ∈ L, (∃ me, t.1.locks.Holds i l me) ∨ l ∈ x.temps i)
    (hstep : ∀ t, x.Inv t → A t → ∃ r tree',
      FsOp.apply x.maxLinks i o t.1 = some (r, { t.1 with tree := tree' }) ∧
      events x.maxLinks i t.1.tree tree' o r = changes i t.1.tree tree' L ∧
      (∀ l, l ∉ L → tree'.node l = t.1.tree.node l) ∧
      (∀ l ∈ L, Leaf t.1.tree l ∧ Leaf tree' l) ∧
      (∀ l ∈ L, x.Allowed (.mutate i l (contentAt t.1.tree l) (contentAt tree' l))) ∧
      x.Wp i Q E (f r) ({ t.1 with tree := tree' }, t.2 ++ changes i t.1.tree tree' L)) :
    x.Wp i Q E (.request o f) s := by
  refine wp_operation hA h fun t hi ha r t' hexec => ?_
  obtain ⟨r', tree', happly, hevents, hout, hleaf, hallowed, hf⟩ := hstep t hi ha
  obtain ⟨happly', hlog⟩ := hexec
  rw [happly] at happly'
  obtain ⟨rfl, hstate⟩ := Prod.mk.inj (Option.some.inj happly')
  obtain rfl : t' = ({ t.1 with tree := tree' }, t.2 ++ changes i t.1.tree tree' L) :=
    Prod.ext hstate.symm (by rw [hlog, ← hstate, hevents])
  exact ⟨step_files hx hi rfl rfl hL hout hleaf (howner t ha) hallowed, hf⟩

theorem wp_mkdir {parent d : AbsPath} (hd : FsOp.DirAt x.maxLinks x.start parent d)
    (hA : x.Stable i A) (h : A s) (hf : ∀ t, A t → x.Wp i Q E (f (.ok ())) t) :
    x.Wp i Q E (.request (.mkdir parent) f) s := by
  refine wp_operation hA h fun t hi ha r t' hexec => ?_
  obtain ⟨happly, hlog⟩ := hexec
  have hmkdir := (hd.mono hi.keeps).mkdirTree_parent
  change some ((FsOp.mkdirTree x.maxLinks t.1.tree parent).1, { t.1 with tree :=
    (FsOp.mkdirTree x.maxLinks t.1.tree parent).2 }) = some (r, t'.1) at happly
  rw [hmkdir] at happly
  obtain ⟨rfl, hstate⟩ := Prod.mk.inj (Option.some.inj happly)
  obtain rfl : t = t' := Prod.ext hstate (by simpa [events, succeeded] using hlog.symm)
  exact ⟨⟨hi, fun j _ => .refl x j t⟩, hf t ha⟩

section

variable {n : Name} {d parent : AbsPath} {data : FileData} (hx : x.RegularFiles)
  (hd : FsOp.DirAt x.maxLinks x.start parent d) (hn : n.hasNul = false)

include hx hd hn

theorem wp_rename {parent' d' : AbsPath} {m : Name} (hd' : FsOp.DirAt x.maxLinks x.start parent' d')
    (hm : m.hasNul = false) (hne : d ++ [n] ≠ d' ++ [m]) {w : Option Bytes}
    (hleaf : Leaf x.start (d' ++ [m])) (hA : x.Stable i A) (h : A s)
    (howner : ∀ t, A t → ∀ l ∈ [d ++ [n], d' ++ [m]],
      (∃ me, t.1.locks.Holds i l me) ∨ l ∈ x.temps i)
    (hsource : ∀ t, A t → t.1.tree.node (d ++ [n]) = some (.file data))
    (hdestination : ∀ t, A t → contentAt t.1.tree (d' ++ [m]) = w)
    (hallowed : x.Allowed (.mutate i (d ++ [n]) (some data.content) none) ∧
      x.Allowed (.mutate i (d' ++ [m]) w (some data.content)))
    (hf : ∀ t locks tree, A t → t.1.locks = locks → x.Wp i Q E (f (.ok ())) (⟨tree, locks⟩,
      t.2 ++ [.mutate i (d ++ [n]) (some data.content) none,
        .mutate i (d' ++ [m]) w (some data.content)])) :
    x.Wp i Q E (.request (.rename (parent ++ [n]) (parent' ++ [m])) f) s := by
  refine wp_change hx [d ++ [n], d' ++ [m]] hA h (by simpa using hne) howner fun t hi ha => ?_
  have hdt := hd.mono hi.keeps
  have hdt' := hd'.mono hi.keeps
  have hsrc := hsource t ha
  have hleaft := hi.leaf hleaf
  have hnotDir : ¬ t.1.tree.IsDir (d' ++ [m]) := by
    intro hdir
    obtain ⟨_, hfile⟩ := hleaft _ hdir
    cases hfile
  obtain ⟨hinto, hrename⟩ := hdt.renameTree_entry hn hdt' hm hsrc hne hnotDir
  have hnode := Tree.rename_leaf hdt'.isDir (by simp) hinto
    (by simp [Tree.IsDir, hsrc]) hnotDir (by simp [hsrc])
  generalize htree : t.1.tree.rename (d ++ [n]) d' m hdt'.isDir (by simp) hinto = tree' at *
  have hsrc' : tree'.node (d ++ [n]) = none := by simp [hnode, hne]
  have hdst' : tree'.node (d' ++ [m]) = some (.file data) := by simp [hnode, hsrc]
  have hchanges : changes i t.1.tree tree' [d ++ [n], d' ++ [m]] =
      [.mutate i (d ++ [n]) (some data.content) none,
        .mutate i (d' ++ [m]) w (some data.content)] := by
    have hdst := hdestination t ha
    simp [changes, contentAt, hsrc, hsrc', hdst'] at hdst ⊢
    exact hdst
  have hlocate := hdt.locate_entry hn
  rw [if_neg (by simp [hsrc])] at hlocate
  refine ⟨.ok (), tree', ?_, ?_, fun l hl => ?_, ?_, ?_, ?_⟩
  · show FsOp.changed t.1 (FsOp.renameTree _ _ _ _) = _
    rw [hrename]
    rfl
  · refine events_eq_changes rfl ?_
    rw [touched, touched.entry, hlocate, hdt'.locateParent_entry hm]
    rfl
  · have hl' : l ≠ d ++ [n] ∧ l ≠ d' ++ [m] := by simpa using hl
    simp [hnode, hl'.1, hl'.2]
  · simp [Leaf, hsrc, hsrc', hdst']
    exact fun v hv => hleaft v hv
  · intro l hl
    rcases List.mem_pair.mp hl with rfl | rfl
    · rw [contentAt, contentAt, hsrc, hsrc']
      exact hallowed.1
    · rw [hdestination t ha, contentAt, hdst']
      exact hallowed.2
  · rw [hchanges]
    exact hf t _ tree' ha rfl

theorem wp_unlink (hA : x.Stable i A) (h : A s)
    (howner : ∀ t, A t → ∃ me, t.1.locks.Holds i (d ++ [n]) me)
    (hfile : ∀ t, A t → t.1.tree.node (d ++ [n]) = some (.file data))
    (hallowed : x.Allowed (.mutate i (d ++ [n]) (some data.content) none))
    (hf : ∀ t tree, A t → x.Wp i Q E (f (.ok ())) (⟨tree, t.1.locks⟩,
      t.2 ++ [.mutate i (d ++ [n]) (some data.content) none])) :
    x.Wp i Q E (.request (.unlink (parent ++ [n])) f) s := by
  refine wp_change hx [d ++ [n]] hA h (by simp) (fun t ha l hl => ?_) fun t hi ha => ?_
  · obtain rfl := List.mem_singleton.mp hl
    exact .inl (howner t ha)
  have hdt := hd.mono hi.keeps
  have hnode := hfile t ha
  have hunlink := hdt.unlinkTree_entry hn hnode
  have herase := Tree.erase_leaf (l := d ++ [n]) (by simp) (show ¬ t.1.tree.IsDir _ by
    simp [Tree.IsDir, hnode])
  generalize t.1.tree.erase (d ++ [n]) (by simp) = tree' at *
  have hnode' : tree'.node (d ++ [n]) = none := by simp [herase]
  have hlocate := hdt.locate_entry hn
  rw [if_neg (by simp [hnode])] at hlocate
  refine ⟨.ok (), tree', ?_, ?_, fun l hl => ?_, fun l hl => ?_, fun l hl => ?_, ?_⟩
  · show FsOp.changed t.1 (FsOp.unlinkTree _ _ _) = _
    rw [hunlink]
    rfl
  · refine events_eq_changes rfl ?_
    rw [touched, hlocate]
    rfl
  · rw [herase, Function.update_of_ne (by simpa using hl)]
  · obtain rfl := List.mem_singleton.mp hl
    exact ⟨fun v hv => ⟨data, by simpa [hnode] using hv.symm⟩,
      fun v hv => by simp [hnode'] at hv⟩
  · obtain rfl := List.mem_singleton.mp hl
    rw [contentAt, contentAt, hnode, hnode']
    exact hallowed
  · simpa [changes, contentAt, hnode, hnode'] using hf t tree' ha

end

theorem wp_temp (hx : x.RegularFiles) {o : FsOp} {f : o.Res → FsM α} {d : AbsPath} {n : Name}
    (data : FileData) (r : o.Res) (htemp : d ++ [n] ∈ x.temps i) (hA : x.Stable i A) (h : A s)
    (hsucceeded : succeeded o r = true)
    (hstep : ∀ t, x.Inv t → A t → ∃ hd hleaf, FsOp.apply x.maxLinks i o t.1 =
        some (r, { t.1 with tree := t.1.tree.insert d n (.file data) hd hleaf }) ∧
      touched x.maxLinks t.1.tree o = [d ++ [n]] ∧ Leaf t.1.tree (d ++ [n]))
    (hf : ∀ t tree v w, A t → tree.node = Function.update t.1.tree.node (d ++ [n])
        (some (.file data)) → x.Wp i Q E (f r) (⟨tree, t.1.locks⟩,
      t.2 ++ [.mutate i (d ++ [n]) v w])) :
    x.Wp i Q E (.request o f) s := by
  refine wp_change hx [d ++ [n]] hA h (by simp) (fun t ha l hl => ?_) fun t hi ha => ?_
  · obtain rfl := List.mem_singleton.mp hl
    exact .inr htemp
  obtain ⟨hd, hleaf, happly, htouched, hleaf'⟩ := hstep t hi ha
  refine ⟨r, _, happly, events_eq_changes hsucceeded htouched, fun l hl => ?_, fun l hl => ?_,
    fun l hl => ?_, hf t _ _ _ ha rfl⟩
  · rw [Tree.insert_node, Function.update_of_ne (by simpa using hl)]
  · obtain rfl := List.mem_singleton.mp hl
    exact ⟨hleaf', fun v hv => ⟨data, by simpa [eq_comm] using hv⟩⟩
  · obtain rfl := List.mem_singleton.mp hl
    exact .inl htemp

theorem wp_atomicWrite (hx : x.RegularFiles) {parent d : AbsPath} {n : Name}
    (ht : x.IsTarget parent d n) {uuid : NamePart} {buffer : Bytes} {mode : Option ℕ}
    {f : Unit → FsM α} (htemp : d ++ [tempName (parent ++ [n]) x.service.pid uuid] ∈ x.temps i)
    (hkey : d ++ [n] ∈ x.keys i) (hk : (d ++ [n], me) ∈ held) (hA : x.InLock i held A) (h : A s)
    (hseen : Seen i (d ++ [n]) v s) (hpermitted : x.Permitted i (d ++ [n]) v (some buffer))
    (hf : ∀ t, Holding i held t → Replaced i (d ++ [n]) v (some buffer) t.2 → x.Wp i Q E (f ()) t) :
    x.Wp i Q E ((x.service.atomicWrite uuid (parent ++ [n]) buffer mode).bind f) s := by
  have hdirname : Paths.dirname (parent ++ [n]) = parent := List.dropLast_concat
  have hroot := ht.dirAt_start.1
  have hn := ht.hasNul
  have hm : (tempName (parent ++ [n]) x.service.pid uuid).hasNul = false :=
    hasNul_tempName hn _ _
  generalize hname : tempName (parent ++ [n]) x.service.pid uuid = m at *
  have hne : d ++ [n] ≠ d ++ [m] := fun heq => hx.temp_not_key i i _ htemp (heq ▸ hkey)
  -- while the temporary file is written, it is the only file that changes
  let W := fun (w : Option (Node Name FileData)) (s : FsState ι × List (FileEvent ι)) =>
    Holding i held s ∧ Seen i (d ++ [n]) v s ∧ s.1.tree.node (d ++ [m]) = w
  have hW : ∀ w, x.Stable i (W w) := fun w s s' hr hi h =>
    ⟨stable_holding held s s' hr hi h.1, h.2.1.rely (h.1 _ hk) hr,
      (hr.node_temp hx htemp).trans h.2.2⟩
  have hupdate : ∀ {t : FsState ι × List (FileEvent ι)} {tree data},
      (∃ w, W w t) → tree.node = Function.update t.1.tree.node (d ++ [m]) (some (.file data)) →
      ∀ w w', W (some (.file data)) (⟨tree, t.1.locks⟩,
        t.2 ++ [.mutate i (d ++ [m]) w w']) := by
    rintro t tree data ⟨_, h⟩ htree w w'
    exact ⟨h.1, h.2.1.update hne htree, by rw [htree, Function.update_self]⟩
  simp only [FileSystemService.atomicWrite, Program.bind_eq, Program.bind_assoc, hdirname, hname]
  refine wp_mkdir hroot (hA.seen hk v).stable ⟨h, hseen⟩ fun t ha => ?_
  have hnone : W none t := ⟨hA.holding t ha.1, ha.2, (hA.fresh t ha.1).temps _ htemp⟩
  refine wp_temp hx ⟨[], mode.getD 0o600⟩ (.ok ()) htemp (hW none) hnone rfl
    (fun t hi h => ?_) fun t tree w w' h htree => ?_
  · have hdt := hroot.mono hi.keeps
    refine ⟨hdt.isDir, by simp [Tree.IsDir, h.2.2], ?_, ?_, fun v hv => by simp [h.2.2] at hv⟩
    · show FsOp.changed t.1 (FsOp.openTree _ _ _ _) = _
      rw [hdt.openTree_entry hm _ h.2.2]
      rfl
    · rw [touched, touched.entry, hdt.locateParent_entry hm]
      rfl
  have hempty := hupdate ⟨_, h⟩ htree w w'
  refine wp_temp hx ⟨buffer, mode.getD 0o600⟩ (.ok ()) htemp (hW _) hempty rfl
    (fun t hi h => ?_) fun t tree w w' h htree => ?_
  · have hdt := hroot.mono hi.keeps
    refine ⟨hdt.isDir, by simp [Tree.IsDir, h.2.2], ?_, ?_,
      fun v hv => ⟨_, by simpa [h.2.2] using hv.symm⟩⟩
    · show FsOp.changed t.1 (FsOp.writeTree _ _ _ _) = _
      rw [hdt.writeTree_entry hm _ h.2.2]
      rfl
    · rw [touched, touched.entry, hdt.locateParent_entry hm]
      rfl
  have hwritten := hupdate ⟨_, h⟩ htree w w'
  refine wp_rename hx hroot hm hroot hn hne.symm ht.leaf (hW _) hwritten (fun t h l hl => ?_)
    (fun t h => h.2.2) (fun t h => h.2.1.1) ⟨.inl htemp, .inr hpermitted⟩
    fun t locks tree h hlocks => ?_
  · rcases List.mem_pair.mp hl with rfl | rfl
    · exact .inr htemp
    · exact .inl ⟨me, h.1 _ hk⟩
  · refine hf _ (hlocks ▸ h.1) ⟨t.2 ++ [.mutate i (d ++ [m]) (some buffer) none], [], by simp,
      h.2.1.2.append fun e he => ?_⟩
    obtain rfl := List.mem_singleton.mp he
    exact hne.symm

end Setting
