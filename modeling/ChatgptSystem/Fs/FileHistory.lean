import ChatgptSystem.Fs.FsService

/-!
# Histories of concurrent file operations

Any number of calls run interleaved on one tree. A log records each read of a file and each change
of one, with the content before and after.

* `FileHistory.exec` — the operations of one call, extended by what they log;
* `Setting`, `Setting.RegularFiles` — the calls, and the assumption that their targets are
  regular files or absent, in directories that exist;
* `Setting.Permitted` — the changes a call is allowed to make, with the digest it expects;
* `Setting.Inv`, `Setting.Rely` — the invariant, and what the other calls may do in between;
* `Setting.step_files` — a step that changes only files the call has locked, as it is permitted
  to, keeps the invariant and is tolerated by the others.
-/

open FileTree Interleaving

inductive FileEvent (ι : Type) where
  | read (caller : ι) (path : AbsPath) (content : Bytes)
  | mutate (caller : ι) (path : AbsPath) (before after : Option Bytes)

namespace FileEvent

variable {ι : Type}

def caller : FileEvent ι → ι
  | .read i _ _ | .mutate i _ _ _ => i

def Mutates (k : AbsPath) : FileEvent ι → Prop
  | .read _ _ _ => False
  | .mutate _ path _ _ => path = k

end FileEvent

namespace FileHistory

def contentAt (t : Tree Name FileData) (l : AbsPath) : Option Bytes :=
  match t.node l with
  | some (.file data) => some data.content
  | _ => none

def Leaf (t : Tree Name FileData) (l : AbsPath) : Prop :=
  ∀ v, t.node l = some v → ∃ data, v = .file data

/-- The entries an operation changes if it succeeds. -/
def touched (maxLinks : ℕ) (t : Tree Name FileData) : FsOp → List AbsPath
  | .openWx path _ | .writeFile path _ => entry path
  | .rename source destination => (FsOp.locate maxLinks t false source).toOption.toList ++
      entry destination
  | .unlink path | .rm path => (FsOp.locate maxLinks t false path).toOption.toList
  | _ => []
where
  entry (path : AbsPath) : List AbsPath :=
    ((FsOp.locateParent maxLinks t path).map fun dn => dn.1 ++ [dn.2]).toOption.toList

def succeeded : (o : FsOp) → o.Res → Bool
  | .openWx _ _, r | .writeFile _ _, r | .rename _ _, r | .unlink _, r | .rm _, r => r.isOk
  | _, _ => false

variable {ι : Type}

def events (maxLinks : ℕ) (i : ι) (t t' : Tree Name FileData) :
    (o : FsOp) → o.Res → List (FileEvent ι)
  | .readFile path, .ok content =>
    (FsOp.locate maxLinks t true path).toOption.toList.map fun l => .read i l content
  | o, r =>
    if succeeded o r then
      (touched maxLinks t o).map fun l => .mutate i l (contentAt t l) (contentAt t' l)
    else []

/-- The operations of the call `i`, on the state and the log. -/
def exec (maxLinks : ℕ) (i : ι) : Exec FsOp FsOp.Res (FsState ι × List (FileEvent ι)) :=
  fun o s r s' => FsOp.apply maxLinks i o s.1 = some (r, s'.1) ∧
    s'.2 = s.2 ++ events maxLinks i s.1.tree s'.1.tree o r

/-- The file has the content `v` before and the content `w` after the events. -/
def Replays (k : AbsPath) : Option Bytes → List (FileEvent ι) → Option Bytes → Prop
  | v, [], w => v = w
  | v, .read _ _ _ :: rest, w => Replays k v rest w
  | v, .mutate _ path before after :: rest, w =>
    if path = k then v = before ∧ Replays k after rest w else Replays k v rest w

theorem Replays.append {k : AbsPath} {log ext : List (FileEvent ι)} {u v w : Option Bytes}
    (h : Replays k u log v) (h' : Replays k v ext w) : Replays k u (log ++ ext) w := by
  induction log generalizing u with
  | nil =>
    obtain rfl : u = v := h
    exact h'
  | cons e rest ih =>
    cases e with
    | read => exact ih h
    | mutate i path before after =>
      simp only [List.cons_append, Replays] at h ⊢
      split
      next hk =>
        rw [if_pos hk] at h
        exact ⟨h.1, ih h.2⟩
      next hk =>
        rw [if_neg hk] at h
        exact ih h

end FileHistory

open FileHistory

structure Setting (ι D : Type) where
  service : FileSystemService D
  maxLinks : ℕ
  start : Tree Name FileData
  calls : ι → FsCall D

namespace Setting

variable {ι D : Type}

/-- The location a path names in the tree the calls start from. -/
def keyOf (x : Setting ι D) (path : AbsPath) : AbsPath :=
  match FsOp.locateParent x.maxLinks x.start path with
  | .ok (d, n) => d ++ [n]
  | .error _ => []

def targets (x : Setting ι D) (i : ι) : List AbsPath :=
  match x.calls i with
  | .edit _ input _ _ _ _ | .write _ input _ _ | .patch _ input _ _ | .remove input _ _ =>
    [x.service.policy.candidate input]
  | .move sourceInput destinationInput _ =>
    [x.service.policy.candidate sourceInput, x.service.policy.candidate destinationInput]
  | .makeDirectory _ => []

/-- The locations of the targets of a call, which are the keys of its locks. -/
def keys (x : Setting ι D) (i : ι) : List AbsPath := (x.targets i).map x.keyOf

def temps (x : Setting ι D) (i : ι) : List AbsPath :=
  match x.calls i with
  | .edit uuid input _ _ _ _ | .write uuid input _ _ | .patch uuid input _ _ =>
    let path := x.service.policy.candidate input
    [(x.keyOf path).dropLast ++ [tempName path x.service.pid uuid]]
  | _ => []

/-- The path names the entry `n` of the directory `d`, a file or nothing. -/
structure IsTarget (x : Setting ι D) (parent d : AbsPath) (n : Name) : Prop where
  located : FsOp.locateParent x.maxLinks x.start (parent ++ [n]) = .ok (d, n)
  isDir : x.start.IsDir d
  leaf : Leaf x.start (d ++ [n])

/-- All targets are files or absent, in directories that exist, and the names of temporary files
are new: they are absent and belong to one call. -/
structure RegularFiles (x : Setting ι D) : Prop where
  target : ∀ i, ∀ path ∈ x.targets i, ∃ parent d n, path = parent ++ [n] ∧
    x.IsTarget parent d n
  no_makeDirectory : ∀ i input, x.calls i ≠ .makeDirectory input
  temp_absent : ∀ i, ∀ l ∈ x.temps i, x.start.node l = none
  temp_not_key : ∀ i j, ∀ l ∈ x.temps i, l ∉ x.keys j
  temp_unique : ∀ i j, i ≠ j → ∀ l ∈ x.temps i, l ∉ x.temps j

/-- The changes of its targets a call may make. -/
def Permitted (x : Setting ι D) (i : ι) (l : AbsPath) (before after : Option Bytes) : Prop :=
  let sha256 := x.service.sha256
  let key := fun input => x.keyOf (x.service.policy.candidate input)
  match x.calls i with
  | .edit _ input _ _ _ expected => l = key input ∧ after ≠ none ∧
    ∃ content, before = some content ∧ ∀ h, expected = some h → sha256 content = h
  | .write _ input buffer expected => l = key input ∧ after = some buffer ∧
    match expected with
    | none => before = none
    | some h => ∃ content, before = some content ∧ sha256 content = h
  | .patch _ input _ expected => l = key input ∧ after ≠ none ∧
    ∃ content, before = some content ∧ sha256 content = expected
  | .move sourceInput destinationInput expected =>
    (l = key sourceInput ∧ after = none ∧
      ∃ content, before = some content ∧ expected = some (sha256 content)) ∨
    (l = key destinationInput ∧ l ≠ key sourceInput ∧ before = none ∧
      ∃ content, after = some content ∧ expected = some (sha256 content))
  | .remove input expected _ => l = key input ∧ after = none ∧
    ∃ content, before = some content ∧ expected = some (sha256 content)
  | .makeDirectory _ => False

/-- A logged change is a change of the caller's temporary file or a permitted one. -/
def Allowed (x : Setting ι D) : FileEvent ι → Prop
  | .read _ _ _ => True
  | .mutate i l before after => l ∈ x.temps i ∨ x.Permitted i l before after

def NeverRemoved (x : Setting ι D) (l : AbsPath) : Prop :=
  ∀ i, l ∉ x.temps i ∧ ∀ before, ¬ x.Permitted i l before none

/-- The invariant of the shared state. -/
structure Inv (x : Setting ι D) (s : FsState ι × List (FileEvent ι)) : Prop where
  locks : s.1.locks.Inv
  keys : ∀ {me : ℕ} {t : ChainLock.Ticket ι AbsPath}, s.1.locks.tickets[me]? = some t →
    t.key ∈ x.keys t.owner
  keeps : x.start.KeepsSkeleton s.1.tree
  kept : s.1.tree.KeepsSkeleton x.start
  history : ∀ k, Replays k (contentAt x.start k) s.2 (contentAt s.1.tree k)
  allowed : ∀ e ∈ s.2, x.Allowed e

/-- What the other calls may do between two steps of the call `j`. -/
structure Rely (x : Setting ι D) (j : ι) (s s' : FsState ι × List (FileEvent ι)) : Prop where
  locks : s.1.locks.Keeps j s'.1.locks
  log : ∃ ext, s'.2 = s.2 ++ ext ∧ (∀ e ∈ ext, e.caller ≠ j) ∧
    ∀ k me, s.1.locks.Holds j k me → ∀ e ∈ ext, ¬ e.Mutates k
  held : ∀ k me, s.1.locks.Holds j k me → s'.1.tree.node k = s.1.tree.node k
  exclusive : ∀ l, (∀ i, i ≠ j → l ∉ x.keys i ∧ l ∉ x.temps i) →
    s'.1.tree.node l = s.1.tree.node l
  remains : ∀ l, x.NeverRemoved l → s.1.tree.node l ≠ none → s'.1.tree.node l ≠ none

namespace Rely

variable {x : Setting ι D} {j : ι} {s s' s'' : FsState ι × List (FileEvent ι)}

theorem refl (x : Setting ι D) (j : ι) (s : FsState ι × List (FileEvent ι)) : x.Rely j s s where
  locks := .refl j _
  log := ⟨[], by simp, by simp, by simp⟩
  held _ _ _ := rfl
  exclusive _ _ := rfl
  remains _ _ h := h

theorem trans (h : x.Rely j s s') (h' : x.Rely j s' s'') : x.Rely j s s'' where
  locks := h.locks.trans h'.locks
  log := by
    obtain ⟨ext, hlog, hcaller, hext⟩ := h.log
    obtain ⟨ext', hlog', hcaller', hext'⟩ := h'.log
    refine ⟨ext ++ ext', by rw [hlog', hlog, List.append_assoc], fun e he => ?_,
      fun k me hk e he => ?_⟩
    · exact (List.mem_append.mp he).elim (hcaller e) (hcaller' e)
    · exact (List.mem_append.mp he).elim (hext k me hk e) (hext' k me (h.locks.holds hk) e)
  held k me hk := (h'.held k me (h.locks.holds hk)).trans (h.held k me hk)
  exclusive l hl := (h'.exclusive l hl).trans (h.exclusive l hl)
  remains l hl hne := h'.remains l hl (h.remains l hl hne)

end Rely

/-- Every step of a call is one that all other calls tolerate. -/
def protocol (x : Setting ι D) : Protocol ι (FsState ι × List (FileEvent ι)) where
  inv := x.Inv
  rely := x.Rely
  guar i s s' := ∀ j, i ≠ j → x.Rely j s s'
  rely_refl := Rely.refl x
  rely_trans _ := Rely.trans
  guar_rely hij _ _ h := h _ hij

/-! ## Steps -/

section Steps

variable {x : Setting ι D} {i : ι} {s s' : FsState ι × List (FileEvent ι)}

theorem Inv.leaf (h : x.Inv s) {l : AbsPath} (hl : Leaf x.start l) : Leaf s.1.tree l := by
  intro v hv
  by_contra hfile
  have hstart := h.kept l v hv fun data hdata => hfile ⟨data, hdata⟩
  exact hfile (hl v hstart)

variable {k : AbsPath} {L : List AbsPath}

theorem Inv.key_of_holds (h : x.Inv s) {me : ℕ} (hk : s.1.locks.Holds i k me) : k ∈ x.keys i := by
  obtain ⟨t, ht, rfl, rfl, -⟩ := hk
  exact h.keys ht

theorem replays_reads {v : Option Bytes} {ext : List (FileEvent ι)}
    (hext : ∀ e ∈ ext, ¬ e.Mutates k) : Replays k v ext v := by
  induction ext with
  | nil => rfl
  | cons e rest ih =>
    have hrest := ih fun e he => hext e (List.mem_cons_of_mem _ he)
    cases e with
    | read => exact hrest
    | mutate j path before after =>
      have hne : path ≠ k := hext _ List.mem_cons_self
      simpa [Replays, hne] using hrest

theorem step_read (hinv : x.Inv s) (hstate : s'.1 = s.1) {ext : List (FileEvent ι)}
    (hlog : s'.2 = s.2 ++ ext) (hext : ∀ e ∈ ext, ∃ l c, e = .read i l c) :
    x.Inv s' ∧ ∀ j, i ≠ j → x.Rely j s s' := by
  have hno : ∀ k, ∀ e ∈ ext, ¬ e.Mutates k := by
    rintro k e he hm
    obtain ⟨l, c, rfl⟩ := hext e he
    exact hm
  refine ⟨⟨by rw [hstate]; exact hinv.locks, ?_, by rw [hstate]; exact hinv.keeps,
    by rw [hstate]; exact hinv.kept, fun k => ?_, fun e he => ?_⟩,
    fun j hij => ⟨?_, ?_, ?_, ?_, ?_⟩⟩
  · rw [hstate]
    exact hinv.keys
  · rw [hstate, hlog]
    exact (hinv.history k).append (replays_reads (hno k))
  · rw [hlog] at he
    rcases List.mem_append.mp he with he | he
    · exact hinv.allowed e he
    · obtain ⟨l, c, rfl⟩ := hext e he
      trivial
  · rw [hstate]
    exact .refl j _
  · refine ⟨ext, hlog, fun e he => ?_, fun k _ _ => hno k⟩
    obtain ⟨l, c, rfl⟩ := hext e he
    exact hij
  · intro k _ _
    rw [hstate]
  · intro l _
    rw [hstate]
  · intro l _ hne
    rwa [hstate]

theorem step_locks (hinv : x.Inv s) (htree : s'.1.tree = s.1.tree) (hlog : s'.2 = s.2)
    (hlocks : s'.1.locks.Inv)
    (hkeys : ∀ {me : ℕ} {t : ChainLock.Ticket ι AbsPath}, s'.1.locks.tickets[me]? = some t →
      t.key ∈ x.keys t.owner)
    (hkeep : ∀ j, i ≠ j → s.1.locks.Keeps j s'.1.locks) :
    x.Inv s' ∧ ∀ j, i ≠ j → x.Rely j s s' := by
  refine ⟨⟨hlocks, hkeys, by rw [htree]; exact hinv.keeps, by rw [htree]; exact hinv.kept,
    by rw [htree, hlog]; exact hinv.history, by rw [hlog]; exact hinv.allowed⟩,
    fun j hij => ⟨hkeep j hij, ⟨[], by simp [hlog], by simp, by simp⟩, ?_, ?_, ?_⟩⟩
  · intro k _ _
    rw [htree]
  · intro l _
    rw [htree]
  · intro l _ hne
    rwa [htree]

def changes (i : ι) (t t' : Tree Name FileData) (L : List AbsPath) : List (FileEvent ι) :=
  L.map fun l => .mutate i l (contentAt t l) (contentAt t' l)

theorem events_eq_changes {maxLinks : ℕ} {t t' : Tree Name FileData} {o : FsOp} {r : o.Res}
    (hsucceeded : succeeded o r = true) (htouched : touched maxLinks t o = L) :
    events maxLinks i t t' o r = changes i t t' L := by
  subst htouched
  unfold events
  split
  · cases hsucceeded
  · rw [if_pos hsucceeded]
    rfl

theorem mutates_changes {t t' : Tree Name FileData} {e : FileEvent ι} (he : e ∈ changes i t t' L)
    (hk : e.Mutates k) : k ∈ L := by
  obtain ⟨l, hl, rfl⟩ := List.mem_map.mp he
  exact hk ▸ hl

theorem replays_changes {t t' : Tree Name FileData} (hL : L.Nodup)
    (hout : k ∉ L → contentAt t' k = contentAt t k) :
    Replays k (contentAt t k) (changes i t t' L) (contentAt t' k) := by
  induction L with
  | nil => exact (hout (by simp)).symm
  | cons l L ih =>
    obtain ⟨hl, hL⟩ := List.nodup_cons.mp hL
    show Replays k _ (.mutate i l _ _ :: changes i t t' L) _
    unfold Replays
    split
    next hk =>
      subst hk
      refine ⟨rfl, replays_reads fun e he hm => hl (mutates_changes he hm)⟩
    next hk => exact ih hL fun hnot => hout (by simp [hnot, Ne.symm hk])

/-- A step that changes only files the call has locked, or its temporary file, as it is
permitted to. -/
theorem step_files (hx : x.RegularFiles) (hinv : x.Inv s) (hlocks : s'.1.locks = s.1.locks)
    (hlog : s'.2 = s.2 ++ changes i s.1.tree s'.1.tree L) (hL : L.Nodup)
    (hout : ∀ l, l ∉ L → s'.1.tree.node l = s.1.tree.node l)
    (hleaf : ∀ l ∈ L, Leaf s.1.tree l ∧ Leaf s'.1.tree l)
    (howner : ∀ l ∈ L, (∃ me, s.1.locks.Holds i l me) ∨ l ∈ x.temps i)
    (hallowed : ∀ l ∈ L, x.Allowed (.mutate i l (contentAt s.1.tree l) (contentAt s'.1.tree l))) :
    x.Inv s' ∧ ∀ j, i ≠ j → x.Rely j s s' := by
  have hkeep : s.1.tree.KeepsSkeleton s'.1.tree := by
    intro e v hv hc
    by_cases he : e ∈ L
    · obtain ⟨data, rfl⟩ := (hleaf e he).1 v hv
      exact absurd rfl (hc data)
    · rw [hout e he]
      exact hv
  have hkept : s'.1.tree.KeepsSkeleton s.1.tree := by
    intro e v hv hc
    by_cases he : e ∈ L
    · obtain ⟨data, rfl⟩ := (hleaf e he).2 v hv
      exact absurd rfl (hc data)
    · rw [← hout e he]
      exact hv
  -- nobody else has locked or owns what has changed
  have hheld : ∀ j, i ≠ j → ∀ k me, s.1.locks.Holds j k me → k ∉ L := by
    intro j hij k me hk hkL
    rcases howner k hkL with ⟨me', hme'⟩ | htemp
    · exact hij (hinv.locks.owner_unique hme' hk)
    · exact hx.temp_not_key i j k htemp (hinv.key_of_holds hk)
  refine ⟨⟨by rw [hlocks]; exact hinv.locks, by rw [hlocks]; exact hinv.keys,
    hinv.keeps.trans hkeep, hkept.trans hinv.kept, fun k => ?_, fun e he => ?_⟩,
    fun j hij => ⟨by rw [hlocks]; exact .refl j _, ⟨_, hlog, ?_, ?_⟩, ?_, ?_, ?_⟩⟩
  · rw [hlog]
    refine (hinv.history k).append (replays_changes hL fun hk => ?_)
    rw [contentAt, contentAt, hout k hk]
  · rw [hlog] at he
    rcases List.mem_append.mp he with he | he
    · exact hinv.allowed e he
    · obtain ⟨l, hl, rfl⟩ := List.mem_map.mp he
      exact hallowed l hl
  · intro e he
    obtain ⟨l, -, rfl⟩ := List.mem_map.mp he
    exact hij
  · exact fun k me hk e he hm => hheld j hij k me hk (mutates_changes he hm)
  · exact fun k me hk => hout k (hheld j hij k me hk)
  · intro l hl
    refine hout l fun hlL => ?_
    rcases howner l hlL with ⟨me, hme⟩ | htemp
    · exact (hl i hij).1 (hinv.key_of_holds hme)
    · exact (hl i hij).2 htemp
  · intro l hnever hne hnone
    by_cases hlL : l ∈ L
    · have hafter : contentAt s'.1.tree l = none := by rw [contentAt, hnone]
      rcases hallowed l hlL with htemp | hpermitted
      · exact (hnever i).1 htemp
      · rw [hafter] at hpermitted
        exact (hnever i).2 _ hpermitted
    · rw [hout l hlL] at hnone
      exact hne hnone

end Steps

end Setting
