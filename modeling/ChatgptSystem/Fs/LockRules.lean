import ChatgptSystem.Fs.FileRules

/-!
# Rules for locks under interference

* `Setting.wp_canonicalizePath` — the lock key of a target is its location, under every
  spelling of the path and in every interleaving;
* `Setting.wp_resolve_any`, `Setting.wp_resolve` — what the policy makes of an input while
  other calls run;
* `Setting.wp_acquire` — inside its locks an operation holds all of their keys.
-/

open FileTree Interleaving FileHistory

namespace Setting

variable {ι D : Type} {x : Setting ι D} {i : ι} {α β : Type}
  {Q : α → FsState ι × List (FileEvent ι) → Prop}
  {E : AppError → FsState ι × List (FileEvent ι) → Prop}
  {s : FsState ι × List (FileEvent ι)} {A : FsState ι × List (FileEvent ι) → Prop}

/-! ## Lock keys -/

variable {f : AbsPath → FsM α} {key : AbsPath} {k : Unit → FsM α}

theorem wp_climb {path : AbsPath} (hA : x.Stable i A) (h : A s)
    (hok : ∀ t info, x.Inv t → A t → FsOp.lstatTree x.maxLinks t.1.tree path = .ok info →
      x.Wp i Q E (f path) t)
    (hup : ∀ t parent n e, path = parent ++ [n] → x.Inv t → A t →
      FsOp.lstatTree x.maxLinks t.1.tree path = .error e →
      x.Wp i Q E ((climb parent.reverse).bind f) t)
    (herror : ∀ t e e', x.Inv t → A t → FsOp.lstatTree x.maxLinks t.1.tree path = .error e' →
      (isMissing (.errno e') = true → path = []) → x.Wp i Q E (.throw e) t) :
    x.Wp i Q E ((climb path.reverse).bind f) s := by
  rcases List.eq_nil_or_concat path with rfl | ⟨parent, n, rfl⟩
  · refine wp_query (f := fun t => FsOp.lstatTree x.maxLinks t []) (fun _ => rfl)
      (fun _ _ _ => rfl) hA h fun t hi ha => ?_
    cases hr : FsOp.lstatTree x.maxLinks t.1.tree [] with
    | ok info => exact hok t info hi ha hr
    | error e =>
      show x.Wp i Q E (Program.bind (if _ then _ else _) f) t
      split <;> exact herror t _ e hi ha hr fun _ => rfl
  · rw [List.concat_eq_append] at hok hup herror ⊢
    rw [List.reverse_append, List.reverse_singleton, List.singleton_append]
    have hpath : (n :: parent.reverse).reverse = parent ++ [n] := by simp
    refine wp_query (f := fun t => FsOp.lstatTree x.maxLinks t (n :: parent.reverse).reverse)
      (fun _ => rfl) (fun _ _ _ => rfl) hA h fun t hi ha => ?_
    rw [hpath]
    cases hr : FsOp.lstatTree x.maxLinks t.1.tree (parent ++ [n]) with
    | ok info =>
      exact hok t info hi ha hr
    | error e =>
      show x.Wp i Q E (Program.bind (if _ then _ else _) f) t
      split
      next hmissing =>
        refine herror t _ e hi ha hr fun hm => ?_
        rw [hm] at hmissing
        cases hmissing
      next => exact hup t parent n e rfl hi ha hr

theorem canonicalizePath_bind (path : AbsPath) (f : AbsPath → FsM α) :
    (canonicalizePath path).bind f = (climb path.reverse).bind fun ancestor =>
      (Fs.realpath ancestor).bind fun realAncestor =>
        f (if Paths.relative ancestor path = [] then realAncestor
          else Paths.resolve realAncestor (Paths.relative ancestor path)) := by
  simp only [canonicalizePath, nearestExistingAncestor, Program.bind_eq, Program.bind_assoc]
  rfl

theorem wp_canonicalizePath_any {path : AbsPath} (hA : x.Stable i A) (h : A s)
    (hok : ∀ t key, x.Inv t → A t → x.Wp i Q E (f key) t) (herror : ∀ t e, x.Inv t → A t → E e t) :
    x.Wp i Q E ((canonicalizePath path).bind f) s := by
  rw [canonicalizePath_bind]
  suffices hclimb : ∀ (up : AbsPath) s, A s → x.Wp i Q E ((climb up.reverse).bind _) s from
    hclimb path s h
  have hthrow : ∀ t e, A t → x.Wp i Q E (.throw e) t := fun t e ha =>
    wp_throw hA ha fun t hi ha => herror t e hi ha
  have hreal : ∀ (up : AbsPath) t, A t → x.Wp i Q E ((Fs.realpath up).bind fun realAncestor =>
      f (if Paths.relative up path = [] then realAncestor
        else Paths.resolve realAncestor (Paths.relative up path))) t := fun up t ha =>
    wp_realpath hA ha (fun t _ hi ha _ => hok t _ hi ha) fun t e _ ha _ => hthrow t _ ha
  intro up
  induction up using List.reverseRecOn with
  | nil =>
    exact fun s h => wp_climb hA h (fun t _ _ ha _ => hreal [] t ha)
      (fun t parent n _ hpath _ _ _ => by simp at hpath) fun t e _ _ ha _ _ => hthrow t e ha
  | append_singleton up m ih =>
    refine fun s h => wp_climb hA h (fun t _ _ ha _ => hreal _ t ha)
      (fun t parent n _ hpath _ ha _ => ?_) fun t e _ _ ha _ _ => hthrow t e ha
    obtain ⟨rfl, -⟩ := List.append_inj' hpath rfl
    exact ih t ha

section

variable {r root : AbsPath} (hroot : FsOp.DirAt x.maxLinks x.start root r) (hA : x.Stable i A)
  (h : A s)

include hroot hA h

theorem wp_climb_dir (hok : ∀ t, x.Inv t → A t → x.Wp i Q E (f root) t) :
    x.Wp i Q E ((climb root.reverse).bind f) s := by
  have hlstat : ∀ t, x.Inv t → ∀ e, FsOp.lstatTree x.maxLinks t.1.tree root ≠ .error e := by
    intro t hi e herror
    obtain ⟨info, hinfo⟩ := (hroot.mono hi.keeps).lstatTree_dir
    rw [hinfo] at herror
    cases herror
  exact wp_climb hA h (fun t _ hi ha _ => hok t hi ha)
    (fun t _ _ e _ hi _ herror => absurd herror (hlstat t hi e))
    fun t _ e hi _ herror _ => absurd herror (hlstat t hi e)

theorem wp_realpath_dir (hok : ∀ t, x.Inv t → A t → x.Wp i Q E (f r) t) :
    x.Wp i Q E ((Fs.realpath root).bind f) s := by
  refine wp_realpath hA h (fun t loc hi ha hloc => ?_) fun t e hi ha herror => ?_
  · rw [(hroot.mono hi.keeps).located] at hloc
    obtain rfl := Except.ok.inj hloc
    exact hok t hi ha
  · rw [(hroot.mono hi.keeps).located] at herror
    cases herror

theorem wp_canonicalizePath_dir (hok : ∀ t, x.Inv t → A t → x.Wp i Q E (f r) t) :
    x.Wp i Q E ((canonicalizePath root).bind f) s := by
  rw [canonicalizePath_bind]
  refine wp_climb_dir hroot hA h fun t hi ha => wp_realpath_dir hroot hA ha fun t hi ha => ?_
  have hself : Paths.relative root root = [] := by simpa using Paths.relative_append root []
  rw [if_pos hself]
  exact hok t hi ha

end

/-- The canonical form of a target is its location, whether or not the file exists. The call
fails only if the file is removed after `lstat` has found it. -/
theorem wp_canonicalizePath {parent d : AbsPath} {n : Name} (ht : x.IsTarget parent d n)
    (hA : x.Stable i A) (h : A s) (hkey : ∀ t, x.Inv t → A t → x.Wp i Q E (f (d ++ [n])) t)
    (hgone : ¬ x.Stable i (fun t => t.1.tree.node (d ++ [n]) ≠ none) →
      ∀ t e, x.Inv t → A t → E e t) : x.Wp i Q E ((canonicalizePath (parent ++ [n])).bind f) s := by
  rw [canonicalizePath_bind]
  have hself : Paths.relative (parent ++ [n]) (parent ++ [n]) = [] := by
    simpa using Paths.relative_append (parent ++ [n]) []
  have hbelow : Paths.relative parent (parent ++ [n]) = [.name n] :=
    Paths.relative_append parent [n]
  have hresolve : Paths.resolve d [.name n] = d ++ [n] := Paths.resolve_names d [n]
  refine wp_climb hA h (fun t info hi ha hok => ?_) (fun t parent' n' e hpath hi ha _ => ?_)
    fun t e e' hi ha herror hmissing => ?_
  · have hnode : t.1.tree.node (d ++ [n]) ≠ none := by
      intro hnone
      rw [(ht.dirAt hi).lstatTree_entry ht.hasNul, hnone] at hok
      cases hok
    by_cases hstay : x.Stable i fun t => t.1.tree.node (d ++ [n]) ≠ none
    · refine wp_realpath_target ht (hA.and hstay) ⟨ha, hnode⟩ (fun t hi ha => ?_)
        fun t hi ha hnone => absurd hnone ha.2
      rw [if_pos hself]
      exact hkey t hi ha.1
    · refine wp_realpath_target ht hA ha (fun t hi ha => ?_)
        fun t hi ha _ => wp_throw hA ha fun t hi ha => hgone hstay t _ hi ha
      rw [if_pos hself]
      exact hkey t hi ha
  · obtain ⟨rfl, -⟩ := List.append_inj' hpath rfl
    have hroot := ht.dirAt_start.1
    refine wp_climb_dir hroot hA ha fun t hi ha => wp_realpath_dir hroot hA ha fun t hi ha => ?_
    rw [hbelow, if_neg (by simp), hresolve]
    exact hkey t hi ha
  · -- a target that `lstat` does not find is missing
    rw [(ht.dirAt hi).lstatTree_entry ht.hasNul] at herror
    split at herror
    next =>
      obtain rfl := Except.error.inj herror
      exact absurd (hmissing rfl) (by simp)
    next => cases herror

/-! ## Resolving an input -/

theorem wp_insideSome_any {canonicalCandidate candidate : AbsPath} (roots : List AbsPath)
    (hA : x.Stable i A) (h : A s) (hok : ∀ t, x.Inv t → A t → x.Wp i Q E (f candidate) t)
    (herror : ∀ t e, x.Inv t → A t → E e t) :
    x.Wp i Q E ((PathPolicy.insideSome canonicalCandidate candidate roots).bind f) s := by
  induction roots generalizing s with
  | nil => exact wp_throw hA h fun t hi ha => herror t _ hi ha
  | cons root rest ih =>
    show x.Wp i Q E (((canonicalizePath root).bind _).bind f) s
    rw [Program.bind_assoc]
    refine wp_canonicalizePath_any hA h (fun t key hi ha => ?_) herror
    split
    · exact hok t hi ha
    · exact ih ha

theorem wp_resolve_any {policy : PathPolicy} {input : String} (hA : x.Stable i A) (h : A s)
    (hok : ∀ t, x.Inv t → A t → x.Wp i Q E (f (policy.candidate input)) t)
    (herror : ∀ t e, x.Inv t → A t → E e t) : x.Wp i Q E ((policy.resolve input).bind f) s := by
  have hthrow : ∀ t e, A t → x.Wp i Q E (.throw e) t := fun t e ha =>
    wp_throw hA ha fun t hi ha => herror t e hi ha
  unfold PathPolicy.resolve
  split
  · exact hthrow s _ h
  dsimp only
  split
  · simp only [Program.bind_eq, Program.bind_assoc]
    refine wp_canonicalizePath_any hA h (fun t canonicalRoot hi ha => ?_) herror
    refine wp_canonicalizePath_any hA ha (fun t canonicalCandidate hi ha => ?_) herror
    split
    · exact hthrow t _ ha
    · exact hok t hi ha
  · simp only [Program.bind_eq, Program.bind_assoc]
    refine wp_canonicalizePath_any hA h (fun t canonicalCandidate hi ha => ?_) herror
    exact wp_insideSome_any _ hA ha hok herror

def RootsAreDirectories (x : Setting ι D) : Prop :=
  ∀ root ∈ x.service.policy.roots, ∃ r, FsOp.DirAt x.maxLinks x.start root r

theorem wp_insideSome {k candidate : AbsPath} {roots : List AbsPath}
    (hroots : ∀ root ∈ roots, ∃ r, FsOp.DirAt x.maxLinks x.start root r)
    (hinside : ∃ root ∈ roots, ∃ r, FsOp.DirAt x.maxLinks x.start root r ∧ r <+: k)
    (hA : x.Stable i A) (h : A s) (hok : ∀ t, x.Inv t → A t → x.Wp i Q E (f candidate) t) :
    x.Wp i Q E ((PathPolicy.insideSome k candidate roots).bind f) s := by
  induction roots generalizing s with
  | nil =>
    obtain ⟨root, hroot, -⟩ := hinside
    cases hroot
  | cons root rest ih =>
    obtain ⟨r, hr⟩ := hroots root List.mem_cons_self
    show x.Wp i Q E (((canonicalizePath root).bind _).bind f) s
    rw [Program.bind_assoc]
    refine wp_canonicalizePath_dir hr hA h fun t hi ha => ?_
    split
    · exact hok t hi ha
    next hnot =>
      refine ih (fun root h => hroots root (List.mem_cons_of_mem _ h)) ?_ ha
      obtain ⟨root', hroot', r', hr', hprefix⟩ := hinside
      rcases List.mem_cons.mp hroot' with rfl | hrest
      · -- the root that accepts the candidate is not skipped
        obtain rfl : r = r' := Except.ok.inj (hr.located.symm.trans hr'.located)
        exact absurd (Paths.isInside_iff.mpr hprefix) hnot
      · exact ⟨root', hrest, r', hr', hprefix⟩

/-- An input that is accepted at the start is accepted in every interleaving, if its file is not
removed meanwhile. -/
theorem wp_resolve {input : String} {parent d : AbsPath} {n : Name} (hroots : x.RootsAreDirectories)
    (haccepted : x.service.policy.Accepted x.start input)
    (hcandidate : x.service.policy.candidate input = parent ++ [n]) (ht : x.IsTarget parent d n)
    (hstay : x.Stable i fun t => t.1.tree.node (d ++ [n]) ≠ none) (hA : x.Stable i A) (h : A s)
    (hok : ∀ t, x.Inv t → A t → x.Wp i Q E (f (parent ++ [n])) t) :
    x.Wp i Q E ((x.service.policy.resolve input).bind f) s := by
  obtain ⟨hempty, loc, hloc, hroot⟩ := haccepted
  -- the location of the candidate and those of the roots are what they were at the start
  have hden : x.start.Denotes [] ((parent ++ [n]).map .name) (d ++ [n]) := by
    rw [List.map_append]
    exact (FsOp.denotes_of_locate ht.dirAt_start.1.located).1.append
      (fun v hv => ht.leaf v hv) []
  have hdirAt : ∀ root ∈ x.service.policy.roots, ∀ rootLoc,
      x.start.Denotes [] (root.map .name) rootLoc →
      FsOp.DirAt x.maxLinks x.start root rootLoc := by
    intro root hmem rootLoc hrootLoc
    obtain ⟨r, hr⟩ := hroots root hmem
    rwa [hrootLoc.unique (FsOp.denotes_of_locate hr.located).1]
  rw [hcandidate] at hloc hroot
  obtain rfl := hloc.unique hden
  unfold PathPolicy.resolve
  rw [hempty, if_neg Bool.false_ne_true, hcandidate]
  dsimp only
  split at hroot
  next root hfind =>
    obtain ⟨rootLoc, hrootLoc, hprefix⟩ := hroot
    have hr := hdirAt root (List.mem_of_find?_eq_some hfind) rootLoc hrootLoc
    simp only [Program.bind_eq, Program.bind_assoc]
    refine wp_canonicalizePath_dir hr hA h fun t hi ha => ?_
    refine wp_canonicalizePath ht hA ha (fun t hi ha => ?_) fun hgone => absurd hstay hgone
    rw [Paths.isInside_iff.mpr hprefix]
    exact hok t hi ha
  next hfind =>
    obtain ⟨root, hmem, rootLoc, hrootLoc, hprefix⟩ := hroot
    simp only [Program.bind_eq, Program.bind_assoc]
    refine wp_canonicalizePath ht hA h (fun t hi ha => ?_) fun hgone => absurd hstay hgone
    exact wp_insideSome hroots ⟨root, hmem, rootLoc, hdirAt root hmem _ hrootLoc, hprefix⟩ hA ha hok

/-! ## Locks -/

/-- The call holds the locks of the keys with these promises. -/
def Holding (i : ι) (held : List (AbsPath × ℕ)) (s : FsState ι × List (FileEvent ι)) : Prop :=
  ∀ km ∈ held, s.1.locks.Holds i km.1 km.2

theorem stable_holding (held : List (AbsPath × ℕ)) : x.Stable i (Holding i held) :=
  fun _ _ hr _ h km hkm => hr.locks.holds (h km hkm)

/-- The assertion is kept by the other calls and says nothing about locks. -/
structure Lasting (x : Setting ι D) (i : ι) (B : FsState ι × List (FileEvent ι) → Prop) :
    Prop where
  stable : x.Stable i B
  locks : ∀ s locks, B s → B ({ s.1 with locks := locks }, s.2)

theorem wp_await {me : ℕ} {previous : Option ℕ} (hA : x.Stable i A) (h : A s)
    (hticket : s.1.locks.tickets[me]? = some ⟨i, key, previous, false⟩)
    (hk : ∀ t, x.Inv t → A t → t.1.locks.Holds i key me → x.Wp i Q E (k ()) t) :
    x.Wp i Q E (.request (.await previous) k) s := by
  have hown : x.Stable i fun t => t.1.locks.tickets[me]? = some ⟨i, key, previous, false⟩ :=
    fun _ _ hr _ ht => hr.locks.own ht rfl
  refine wp_operation (hA.and hown) ⟨h, hticket⟩ fun t hi ⟨ha, ht⟩ r t' hx => ?_
  obtain ⟨happly, hlog⟩ := hx
  change (if t.1.locks.Ready previous then some ((), t.1) else none) = some (r, t'.1) at happly
  split at happly
  next hready =>
    obtain ⟨-, hstate⟩ := Prod.mk.inj (Option.some.inj happly)
    obtain rfl : t = t' := Prod.ext hstate (by simpa [events, succeeded] using hlog.symm)
    exact ⟨⟨hi, fun j _ => .refl x j t⟩, hk t hi ha ⟨_, ht, rfl, rfl, rfl, hready⟩⟩
  next => cases happly

theorem wp_settle {me : ℕ} (hA : x.Stable i A) (h : A s)
    (hholds : ∀ t, A t → t.1.locks.Holds i key me)
    (hk : ∀ t, A t → x.Wp i Q E (k ()) ({ t.1 with locks := t.1.locks.settle me }, t.2)) :
    x.Wp i Q E (.request (.settle me) k) s := by
  refine wp_operation hA h fun t hi ha r t' hx => ?_
  obtain ⟨happly, hlog⟩ := hx
  obtain ⟨-, hstate⟩ := Prod.mk.inj (Option.some.inj happly)
  obtain rfl : t' = ({ t.1 with locks := t.1.locks.settle me }, t.2) :=
    Prod.ext hstate.symm (by simpa [events, succeeded] using hlog)
  have hme := hholds t ha
  refine ⟨step_locks hi rfl rfl (hi.locks.settle hme) (fun {you u} hu => ?_) fun j hij => ?_,
    hk t ha⟩
  · obtain ⟨v, hv, rfl⟩ := ChainLock.State.getElem?_settle.mp hu
    have hkey := hi.keys hv
    split <;> exact hkey
  · refine .settle fun ht => ?_
    obtain ⟨u, hu, howner, -⟩ := hme
    obtain rfl := Option.some.inj (hu.symm.trans ht)
    rwa [howner]

theorem wp_forget {me : ℕ} (hA : x.Stable i A) (h : A s)
    (hsettled : ∀ t, A t → t.1.locks.Settled me)
    (hk : ∀ t, A t → x.Wp i Q E (k ()) ({ t.1 with locks := t.1.locks.forget key me }, t.2)) :
    x.Wp i Q E (.request (.forget key me) k) s := by
  refine wp_operation hA h fun t hi ha r t' hx => ?_
  obtain ⟨happly, hlog⟩ := hx
  obtain ⟨-, hstate⟩ := Prod.mk.inj (Option.some.inj happly)
  obtain rfl : t' = ({ t.1 with locks := t.1.locks.forget key me }, t.2) :=
    Prod.ext hstate.symm (by simpa [events, succeeded] using hlog)
  refine ⟨step_locks hi rfl rfl (hi.locks.forget (hsettled t ha)) (fun hu => ?_)
    fun j _ => .forget j _ _ _, hk t ha⟩
  have htickets : (t.1.locks.forget key me).tickets = t.1.locks.tickets := by
    unfold ChainLock.State.forget
    split <;> rfl
  exact hi.keys (htickets ▸ hu)

theorem wp_enqueue {k : Option ℕ × ℕ → FsM α} (hkey : key ∈ x.keys i) (hA : x.Stable i A) (h : A s)
    (hk : ∀ t, A t → x.Wp i Q E (k (t.1.locks.queues key, t.1.locks.tickets.length))
      ({ t.1 with locks := t.1.locks.enqueue i key }, t.2)) :
    x.Wp i Q E (.request (.enqueue key) k) s := by
  refine wp_operation hA h fun t hi ha r t' hx => ?_
  obtain ⟨happly, hlog⟩ := hx
  obtain ⟨rfl, hstate⟩ := Prod.mk.inj (Option.some.inj happly)
  obtain rfl : t' = ({ t.1 with locks := t.1.locks.enqueue i key }, t.2) :=
    Prod.ext hstate.symm (by simpa [events, succeeded] using hlog)
  refine ⟨step_locks hi rfl rfl (hi.locks.enqueue i key) (fun hu => ?_)
    fun j _ => .enqueue j i _ key, hk t ha⟩
  rcases ChainLock.State.getElem?_enqueue hu with hold | ⟨-, rfl⟩
  · exact hi.keys hold
  · exact hkey

theorem wp_release {me : ℕ} {held : List (AbsPath × ℕ)} {p : FsM α} (hA : x.Lasting i A) (h : A s)
    (hheld : Holding i ((key, me) :: held) s) (hother : ∀ km ∈ held, me ≠ km.2)
    (hp : ∀ t, A t → Holding i held t → x.Wp i Q E p t) :
    x.Wp i Q E (.request (.settle me) fun _ => .request (.forget key me) fun _ => p) s := by
  refine wp_settle (hA.stable.and (stable_holding ((key, me) :: held))) ⟨h, hheld⟩
    (fun t ht => ht.2 _ List.mem_cons_self) fun t ⟨ha, hheld⟩ => ?_
  have hsettled : x.Stable i fun t => t.1.locks.Settled me := fun _ _ hr _ ht =>
    hr.locks.settled ht
  refine wp_forget ((hA.stable.and (stable_holding held)).and hsettled)
    ⟨⟨hA.locks t _ ha, fun km hkm => ?_⟩, ?_⟩ (fun t ht => ht.2) fun t ⟨⟨ha, hheld⟩, _⟩ => ?_
  · exact (hheld km (List.mem_cons_of_mem _ hkm)).settle (hother km hkm)
  · obtain ⟨u, hu, -⟩ := hheld _ List.mem_cons_self
    exact ChainLock.State.settled_settle hu
  · exact hp _ (hA.locks t _ ha) fun km hkm => (hheld km hkm).forget

/-- Inside its locks an operation runs with all of them held, and it gives them back whatever
its outcome is. -/
theorem wp_acquire {operation : FsM α} (hA : x.Lasting i A) (hQ : ∀ a, x.Lasting i (Q a))
    (hE : ∀ e, x.Lasting i (E e)) (keys : List AbsPath) (held : List (AbsPath × ℕ))
    (hkeys : ∀ k ∈ keys, k ∈ x.keys i) (hs : x.Inv s) (h : A s) (hheld : Holding i held s)
    (hop : ∀ held' t, (∀ km ∈ held, km ∈ held') → (∀ k ∈ keys, ∃ me, (k, me) ∈ held') →
      x.Inv t → A t → Holding i held' t →
      x.Wp i (fun a t => Holding i held' t ∧ Q a t) (fun e t => Holding i held' t ∧ E e t)
        operation t) :
    x.Wp i (fun a t => Holding i held t ∧ Q a t) (fun e t => Holding i held t ∧ E e t)
      (acquire operation keys) s := by
  induction keys generalizing held s with
  | nil => exact hop held s (fun _ h => h) (by simp) hs h hheld
  | cons key keys ih =>
    refine wp_enqueue (hkeys key List.mem_cons_self) (hA.stable.and (stable_holding held))
      ⟨h, hheld⟩ fun t ⟨ha, hheld⟩ => ?_
    -- the new promise is not one of those that are held already
    generalize hme : t.1.locks.tickets.length = me
    have hother : ∀ km ∈ held, me ≠ km.2 := fun km hkm =>
      hme ▸ (hheld km hkm).lt_length.ne'
    have hticket := ChainLock.State.getElem?_enqueue_self t.1.locks i key
    rw [hme] at hticket
    refine wp_await (hA.stable.and (stable_holding held))
      ⟨hA.locks t _ ha, fun km hkm => (hheld km hkm).enqueue⟩ hticket
      fun t hi ⟨ha, hheld⟩ hholds => ?_
    have hheld' : Holding i ((key, me) :: held) t := by
      intro km hkm
      rcases List.mem_cons.mp hkm with rfl | hkm
      · exact hholds
      · exact hheld km hkm
    refine Program.wp_bind hi (Program.wp_attempt (Program.wp_mono (ih ((key, me) :: held)
      (fun k hk => hkeys k (List.mem_cons_of_mem _ hk)) hi ha hheld' ?_) ?_ ?_))
    · intro held' t hsub hkeys' hi ha hheld
      refine hop held' t (fun km hkm => hsub km (List.mem_cons_of_mem _ hkm)) (fun k hk => ?_)
        hi ha hheld
      rcases List.mem_cons.mp hk with rfl | hk
      · exact ⟨me, hsub _ List.mem_cons_self⟩
      · exact hkeys' k hk
    · exact fun a t _ ⟨hheld, hq⟩ => wp_release (hQ a) hq hheld hother fun t hq hheld =>
        wp_pure ((stable_holding held).and (hQ a).stable) ⟨hheld, hq⟩ fun _ _ h => h
    · exact fun e t _ ⟨hheld, he⟩ => wp_release (hE e) he hheld hother fun t he hheld =>
        wp_throw ((stable_holding held).and (hE e).stable) ⟨hheld, he⟩ fun _ _ h => h

theorem wp_locked {operation : FsM α} (keys : List AbsPath) (hkeys : ∀ k ∈ keys, k ∈ x.keys i)
    (hA : x.Lasting i A) (hQ : ∀ a, x.Lasting i (Q a)) (hE : ∀ e, x.Lasting i (E e))
    (hs : x.Inv s) (h : A s)
    (hop : ∀ held t, (∀ k ∈ keys, ∃ me, (k, me) ∈ held) → x.Inv t → A t → Holding i held t →
      x.Wp i (fun a t => Holding i held t ∧ Q a t) (fun e t => Holding i held t ∧ E e t)
        operation t) :
    x.Wp i Q E (acquire operation keys) s :=
  Program.wp_mono (wp_acquire hA hQ hE keys [] hkeys hs h (fun _ h => nomatch h)
    fun held t _ => hop held t) (fun _ _ _ h => h.2) fun _ _ _ h => h.2

end Setting
