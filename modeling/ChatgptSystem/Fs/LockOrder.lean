import ChatgptSystem.Foundations.OrderedLocks
import ChatgptSystem.Fs.FileHistory

/-!
# Lock order

Calls that take their locks in increasing order of the keys never wait for each other in a
circle: as long as a call has not finished, some call can move.

* `LockOrder.Orderly` — the program takes locks in increasing order and gives them back in the
  opposite order;
* `LockOrder.Tracks` — how the promises of a call correspond to the locks its program holds, an
  invariant of every run (`LockOrder.consistent_run`);
* `LockOrder.progress` — no deadlock;
* `LockOrder.orderly_program` — the calls of the file-system service are orderly.
-/

open FileTree Interleaving FileHistory

namespace LockOrder

variable {ι α β : Type}

def isLockOp : FsOp → Bool
  | .enqueue _ | .await _ | .settle _ | .forget _ _ => true
  | _ => false

/-- The program, holding the locks of `held`, the last one first, takes further locks in
increasing order of their keys and ends when it has given back all of them. -/
inductive Orderly : List (AbsPath × ℕ) → FsM α → Prop where
  | pure (a) : Orderly [] (.pure a)
  | throw (e) : Orderly [] (.throw e)
  | other {held o k} : isLockOp o = false → (∀ r, Orderly held (k r)) →
      Orderly held (.request o k)
  | lock {held key} {k : Option ℕ × ℕ → Unit → FsM α} : (∀ km ∈ held, lockRank km.1 < lockRank key) →
      (∀ r : Option ℕ × ℕ, Orderly ((key, r.2) :: held) (k r ())) →
      Orderly held (.request (.enqueue key) fun r => .request (.await r.1) (k r))
  | unlock {held key me} {k : Unit → Unit → FsM α} : Orderly held (k () ()) →
      Orderly ((key, me) :: held) (.request (.settle me) fun u => .request (.forget key me) (k u))

/-- Every promise of the call that is still pending is one of these. -/
def Owns (locks : ChainLock.State ι AbsPath) (i : ι) (held : List (AbsPath × ℕ)) : Prop :=
  ∀ {me : ℕ} {t : ChainLock.Ticket ι AbsPath}, locks.tickets[me]? = some t → t.owner = i →
    t.settled = false → (t.key, me) ∈ held

structure HoldsAll (locks : ChainLock.State ι AbsPath) (i : ι) (held : List (AbsPath × ℕ)) :
    Prop where
  nodup : held.Nodup
  holds : ∀ km ∈ held, locks.Holds i km.1 km.2

theorem HoldsAll.mono {locks locks' : ChainLock.State ι AbsPath} {i : ι}
    {held : List (AbsPath × ℕ)} (h : HoldsAll locks i held)
    (hholds : ∀ {k me}, locks.Holds i k me → locks'.Holds i k me) : HoldsAll locks' i held :=
  ⟨h.nodup, fun km hkm => hholds (h.holds km hkm)⟩

/-- What the promises of a call say about its program: it runs with the locks it holds, it waits
for the next lock, or it is about to delete a promise it has settled. -/
inductive Tracks (locks : ChainLock.State ι AbsPath) (i : ι) : FsM α → Prop where
  | running {held p} : Orderly held p → Owns locks i held → HoldsAll locks i held →
      Tracks locks i p
  | waiting {held key me previous} {k : Unit → FsM α} : (∀ km ∈ held, lockRank km.1 < lockRank key) →
      Orderly ((key, me) :: held) (k ()) → Owns locks i ((key, me) :: held) →
      HoldsAll locks i held → locks.tickets[me]? = some ⟨i, key, previous, false⟩ →
      Tracks locks i (.request (.await previous) k)
  | releasing {held key me} {k : Unit → FsM α} : locks.Settled me → Orderly held (k ()) → Owns locks i held →
      HoldsAll locks i held → Tracks locks i (.request (.forget key me) k)

theorem Tracks.mono {locks locks' : ChainLock.State ι AbsPath} {i : ι} {p : FsM α}
    (h : Tracks locks i p) (hkeep : locks.Keeps i locks')
    (hown : ∀ {me : ℕ} {t : ChainLock.Ticket ι AbsPath}, locks'.tickets[me]? = some t →
      t.owner = i → locks.tickets[me]? = some t) : Tracks locks' i p := by
  cases h with
  | running hp howns hholds =>
    exact .running hp (fun ht hi => howns (hown ht hi) hi) (hholds.mono hkeep.holds)
  | waiting hrank hp howns hholds hticket =>
    exact .waiting hrank hp (fun ht hi => howns (hown ht hi) hi)
      (hholds.mono hkeep.holds) (hkeep.own hticket rfl)
  | releasing hsettled hp howns hholds =>
    exact .releasing (hkeep.settled hsettled) hp (fun ht hi => howns (hown ht hi) hi)
      (hholds.mono hkeep.holds)

theorem apply_other (maxLinks : ℕ) (i : ι) {o : FsOp} (ho : isLockOp o = false)
    (s : FsState ι) : ∃ r tree, FsOp.apply maxLinks i o s = some (r, { s with tree := tree }) := by
  cases o <;> first | exact ⟨_, s.tree, rfl⟩ | exact ⟨_, _, rfl⟩ | cases ho

section Run

variable {maxLinks : ℕ}

/-- The promise map is a chain, and the promises of every call correspond to its locks. -/
def Consistent (c : Pool ι FsOp FsOp.Res AppError α × (FsState ι × List (FileEvent ι))) : Prop :=
  c.2.1.locks.Inv ∧ ∀ i, Tracks c.2.1.locks i (c.1 i)

theorem tracks_step {i : ι} {o : FsOp} {k : o.Res → FsM α} {s s' : FsState ι} {r : o.Res}
    (hinv : s.locks.Inv) (h : Tracks s.locks i (.request o k))
    (hstep : FsOp.apply maxLinks i o s = some (r, s')) :
    s'.locks.Inv ∧ Tracks s'.locks i (k r) ∧ ∀ j, i ≠ j → s.locks.Keeps j s'.locks ∧
      ∀ {me : ℕ} {t : ChainLock.Ticket ι AbsPath}, s'.locks.tickets[me]? = some t →
        t.owner = j → s.locks.tickets[me]? = some t := by
  cases h with
  | @running held _ hp howns hholds =>
    cases hp with
    | other ho hk =>
      obtain ⟨r', tree, happly⟩ := apply_other maxLinks i ho s
      rw [happly] at hstep
      obtain ⟨rfl, rfl⟩ := Prod.mk.inj (Option.some.inj hstep)
      exact ⟨hinv, .running (hk r') howns hholds, fun j _ => ⟨.refl j _, fun ht _ => ht⟩⟩
    | @lock _ key k hrank hk =>
      obtain ⟨rfl, rfl⟩ := Prod.mk.inj (Option.some.inj hstep)
      have hticket := ChainLock.State.getElem?_enqueue_self s.locks i key
      refine ⟨hinv.enqueue i key, .waiting hrank (hk _) (fun ht hi hset => ?_)
        (hholds.mono .enqueue) hticket, fun j hij => ⟨.enqueue j i _ key, ?_⟩⟩
      · rcases ChainLock.State.getElem?_enqueue ht with hold | ⟨rfl, rfl⟩
        · exact List.mem_cons_of_mem _ (howns hold hi hset)
        · exact List.mem_cons_self
      · intro me t ht hj
        rcases ChainLock.State.getElem?_enqueue ht with hold | ⟨-, rfl⟩
        · exact hold
        · exact absurd hj hij
    | @unlock held key me k hk =>
      obtain ⟨rfl, rfl⟩ := Prod.mk.inj (Option.some.inj hstep)
      have hme := hholds.holds _ List.mem_cons_self
      obtain ⟨u, hu, howner, hkey, -⟩ := hholds.holds _ List.mem_cons_self
      refine ⟨hinv.settle hme, .releasing (ChainLock.State.settled_settle hu) hk
        (fun {you t} ht hi hset => ?_) ⟨(List.nodup_cons.mp hholds.nodup).2, fun km hkm => ?_⟩,
        fun j hij => ⟨.settle fun ht => ?_, fun {you t} ht hj => ?_⟩⟩
      · -- the promise that is settled is no longer pending
        obtain ⟨v, hv, rfl⟩ := ChainLock.State.getElem?_settle.mp ht
        split at hset
        next => cases hset
        next hne =>
          rw [if_neg hne] at hi ⊢
          rcases List.mem_cons.mp (howns hv hi hset) with heq | hmem
          · exact absurd (congrArg Prod.snd heq).symm hne
          · exact hmem
      · refine (hholds.holds km (List.mem_cons_of_mem _ hkm)).settle fun heq => ?_
        obtain ⟨v, hv, -, hkey', -⟩ := hholds.holds km (List.mem_cons_of_mem _ hkm)
        obtain rfl : u = v := Option.some.inj (hu.symm.trans (heq ▸ hv))
        have hsame : (key, me) = km := Prod.ext (hkey.symm.trans hkey') heq
        exact (List.nodup_cons.mp hholds.nodup).1 (hsame ▸ hkm)
      · obtain rfl := Option.some.inj (hu.symm.trans ht)
        rwa [howner]
      · obtain ⟨v, hv, rfl⟩ := ChainLock.State.getElem?_settle.mp ht
        split at hj
        next heq =>
          subst heq
          obtain rfl := Option.some.inj (hu.symm.trans hv)
          exact absurd (howner.symm.trans hj) hij
        next hne => rwa [if_neg hne]
  | @waiting held key me previous k hrank hp howns hholds hticket =>
    change (if s.locks.Ready previous then some ((), s) else none) = some (r, s') at hstep
    split at hstep
    next hready =>
      obtain ⟨-, rfl⟩ := Prod.mk.inj (Option.some.inj hstep)
      refine ⟨hinv, .running hp howns ⟨List.nodup_cons.mpr ⟨fun hmem => ?_, hholds.nodup⟩,
        fun km hkm => ?_⟩, fun j _ => ⟨.refl j _, fun ht _ => ht⟩⟩
      · exact absurd (hrank _ hmem) (lt_irrefl _)
      · rcases List.mem_cons.mp hkm with rfl | hkm
        · exact ⟨_, hticket, rfl, rfl, rfl, hready⟩
        · exact hholds.holds km hkm
    next => cases hstep
  | @releasing held key me k hsettled hp howns hholds =>
    obtain ⟨-, rfl⟩ := Prod.mk.inj (Option.some.inj hstep)
    have htickets : (s.locks.forget key me).tickets = s.locks.tickets := by
      unfold ChainLock.State.forget
      split <;> rfl
    refine ⟨hinv.forget hsettled, .running hp (fun ht => howns (htickets ▸ ht))
      (hholds.mono .forget), fun j _ => ⟨.forget j _ _ _, fun ht _ => htickets ▸ ht⟩⟩

variable [DecidableEq ι]

variable {c : Pool ι FsOp FsOp.Res AppError α × (FsState ι × List (FileEvent ι))}

theorem consistent_run
    {permit : Pool ι FsOp FsOp.Res AppError α × (FsState ι × List (FileEvent ι)) → ι → Prop}
    {pool : Pool ι FsOp FsOp.Res AppError α} {t : Tree Name FileData}
    (horderly : ∀ i, Orderly [] (pool i))
    (hrun : Pool.Run (fun i => exec maxLinks i) permit (pool, (⟨t, .empty⟩, [])) c) :
    Consistent c := by
  have hstart : Consistent (pool, ((⟨t, .empty⟩ : FsState ι), ([] : List (FileEvent ι)))) := by
    refine ⟨.empty, fun i => .running (horderly i) (fun ht => ?_) ⟨.nil, by simp⟩⟩
    simp [ChainLock.State.empty] at ht
  induction hrun with
  | refl => exact hstart
  | @step c' c'' i _ _ hstep ih =>
    obtain ⟨hinv, htracks⟩ := ih
    cases hstep with
    | @intro pool s o k r s' hpool hexec =>
      have hi : Tracks s.1.locks i (pool i) := htracks i
      rw [hpool] at hi
      obtain ⟨hinv', hi', hother⟩ := tracks_step hinv hi hexec.1
      refine ⟨hinv', fun j => ?_⟩
      by_cases hij : i = j
      · subst hij
        simpa using hi'
      · obtain ⟨hkeep, hown⟩ := hother j hij
        simpa [Ne.symm hij] using (htracks j).mono hkeep hown

theorem step_of_apply (maxLinks : ℕ) {i : ι} {o : FsOp} {k : o.Res → FsM α}
    (hpool : c.1 i = .request o k) {out : o.Res × FsState ι}
    (happly : FsOp.apply maxLinks i o c.2.1 = some out) :
    ∃ c', Pool.Step (fun i => exec maxLinks i) i c c' := by
  have hexec : exec maxLinks i o c.2 out.1
      (out.2, c.2.2 ++ events maxLinks i c.2.1.tree out.2.tree o out.1) := ⟨happly, rfl⟩
  exact ⟨_, .intro hpool hexec⟩

theorem waiting_of_stuck {i : ι} (h : Tracks c.2.1.locks i (c.1 i))
    (hstuck : ∀ c', ¬ Pool.Step (fun i => exec maxLinks i) i c c') :
    ((c.1 i).outcome? ≠ none ∧ Owns c.2.1.locks i []) ∨ ∃ held key me previous,
      (∀ km ∈ held, lockRank km.1 < lockRank key) ∧ Owns c.2.1.locks i ((key, me) :: held) ∧
      c.2.1.locks.tickets[me]? = some ⟨i, key, previous, false⟩ ∧
      ¬ c.2.1.locks.Ready previous := by
  generalize hp : c.1 i = p at h
  cases h with
  | running horderly howns _ =>
    cases horderly with
    | pure => exact .inl ⟨by simp [Program.outcome?], howns⟩
    | throw => exact .inl ⟨by simp [Program.outcome?], howns⟩
    | other ho _ =>
      obtain ⟨r, tree, happly⟩ := apply_other maxLinks i ho c.2.1
      obtain ⟨c', hstep⟩ := step_of_apply maxLinks hp happly
      exact absurd hstep (hstuck c')
    | lock =>
      obtain ⟨c', hstep⟩ := step_of_apply maxLinks hp rfl
      exact absurd hstep (hstuck c')
    | unlock =>
      obtain ⟨c', hstep⟩ := step_of_apply maxLinks hp rfl
      exact absurd hstep (hstuck c')
  | @waiting held key me previous k hrank _ howns _ hticket =>
    refine .inr ⟨held, key, me, previous, hrank, howns, hticket, fun hready => ?_⟩
    obtain ⟨c', hstep⟩ := step_of_apply maxLinks hp (if_pos hready)
    exact absurd hstep (hstuck c')
  | releasing =>
    obtain ⟨c', hstep⟩ := step_of_apply maxLinks hp rfl
    exact absurd hstep (hstuck c')

theorem settled_of_stuck (h : Consistent c)
    (hstuck : ∀ i c', ¬ Pool.Step (fun i => exec maxLinks i) i c c') {me : ℕ}
    {t : ChainLock.Ticket ι AbsPath} (ht : c.2.1.locks.tickets[me]? = some t) :
    t.settled = true := by
  refine h.1.settled_of_waiting lockRank (fun {oldest v} hv hvunset => ?_) ht
  rcases waiting_of_stuck (h.2 v.owner) (hstuck v.owner) with
    ⟨-, howns⟩ | ⟨held, key, me', previous, hrank, howns, hticket, hready⟩
  · exact absurd (howns hv rfl hvunset) List.not_mem_nil
  refine ⟨me', _, hticket, rfl, hready, ?_⟩
  rcases List.mem_cons.mp (howns hv rfl hvunset) with heq | hmem
  · exact .inl (Prod.mk.inj heq).2.symm
  · exact .inr (hrank _ hmem)

theorem finished_of_stuck (h : Consistent c)
    (hstuck : ∀ i c', ¬ Pool.Step (fun i => exec maxLinks i) i c c') (i : ι) :
    (c.1 i).outcome? ≠ none := by
  rcases waiting_of_stuck (h.2 i) (hstuck i) with
    ⟨hfinished, -⟩ | ⟨held, key, me, previous, -, -, hticket, hready⟩
  · exact hfinished
  · have hsettled := settled_of_stuck h hstuck hticket
    cases hsettled

end Run

/-! ## Orderly programs -/

def LockFree : FsM α → Prop
  | .pure _ | .throw _ => True
  | .request o k => isLockOp o = false ∧ ∀ r, LockFree (k r)

namespace LockFree

variable {p : FsM α} {f : α → FsM β}

theorem bind (hp : LockFree p) (hf : ∀ a, LockFree (f a)) : LockFree (p.bind f) := by
  induction p with
  | pure a => exact hf a
  | throw e => trivial
  | request o k ih => exact ⟨hp.1, fun r => ih r (hp.2 r)⟩

theorem attempt (hp : LockFree p) : LockFree p.attempt := by
  induction p with
  | pure a => trivial
  | throw e => trivial
  | request o k ih => exact ⟨hp.1, fun r => ih r (hp.2 r)⟩

theorem tryCatch {handler : AppError → FsM α} (hp : LockFree p)
    (hh : ∀ e, LockFree (handler e)) : LockFree (p.tryCatch handler) := by
  refine hp.attempt.bind fun out => ?_
  cases out with
  | ok a => trivial
  | error e => exact hh e

theorem orderly_bind (hp : LockFree p) (hf : ∀ a, Orderly [] (f a)) : Orderly [] (p.bind f) := by
  induction p with
  | pure a => exact hf a
  | throw e => exact .throw e
  | request o k ih => exact .other hp.1 fun r => ih r (hp.2 r)

theorem orderly_attempt {held : List (AbsPath × ℕ)} {f : Except AppError α → FsM β}
    (hp : LockFree p) (hf : ∀ out, Orderly held (f out)) : Orderly held (p.attempt.bind f) := by
  induction p with
  | pure a => exact hf _
  | throw e => exact hf _
  | request o k ih => exact .other hp.1 fun r => ih r (hp.2 r)

end LockFree

theorem orderly_acquire {operation : FsM α} (hp : LockFree operation) (keys : List AbsPath)
    (held : List (AbsPath × ℕ)) {f : Except AppError α → FsM β}
    (hsorted : keys.Pairwise fun a b => lockRank a < lockRank b)
    (hheld : ∀ km ∈ held, ∀ k ∈ keys, lockRank km.1 < lockRank k)
    (hf : ∀ out, Orderly held (f out)) :
    Orderly held ((acquire operation keys).attempt.bind f) := by
  induction keys generalizing held f with
  | nil => exact hp.orderly_attempt hf
  | cons key keys ih =>
    obtain ⟨hfirst, hrest⟩ := List.pairwise_cons.mp hsorted
    refine .lock (fun km hkm => hheld km hkm key List.mem_cons_self) fun r => ?_
    have hinner := ih ((key, r.2) :: held) (f := fun outcome => .request (.settle r.2) fun _ =>
      .request (.forget key r.2) fun _ => (Program.ofExcept outcome).attempt.bind f) hrest
      (fun km hkm k hk => ?_) fun outcome => .unlock ?_
    · show Orderly _ (((acquire operation keys).attempt.bind _).attempt.bind f)
      rw [Program.attempt_bind_attempt, Program.bind_assoc]
      exact hinner
    · rcases List.mem_cons.mp hkm with rfl | hkm
      · exact hfirst k hk
      · exact hheld km hkm k (List.mem_cons_of_mem _ hk)
    · cases outcome <;> exact hf _

theorem orderly_locked {operation : FsM α} (hp : LockFree operation) (keys : List AbsPath)
    (hsorted : keys.Pairwise fun a b => lockRank a < lockRank b) :
    Orderly [] (acquire operation keys) := by
  have hacquire : Orderly [] ((acquire operation keys).attempt.bind Program.ofExcept) :=
    orderly_acquire hp keys [] hsorted (by simp) fun out => by cases out <;> constructor
  rwa [Program.attempt_bind_ofExcept] at hacquire

/-! ## The calls of the service -/

section Service

variable {D : Type} [DecidableEq D] {service : FileSystemService D}

theorem lockFree_throwing (r : Except Errno α) : LockFree (Fs.throwing r) := by
  cases r <;> trivial

theorem lockFree_canonicalizePath (path : AbsPath) : LockFree (canonicalizePath path) := by
  have hclimb : ∀ rev, LockFree (climb rev) := by
    intro rev
    induction rev with
    | nil =>
      refine .tryCatch ⟨rfl, fun r => .bind (lockFree_throwing r) fun _ => trivial⟩ fun e => ?_
      split <;> trivial
    | cons n up ih =>
      refine .tryCatch ⟨rfl, fun r => .bind (lockFree_throwing r) fun _ => trivial⟩ fun e => ?_
      split
      · trivial
      · exact ih
  exact .bind (hclimb _) fun _ => .bind ⟨rfl, lockFree_throwing⟩ fun _ => trivial

theorem lockFree_resolve (policy : PathPolicy) (input : String) :
    LockFree (policy.resolve input) := by
  have hinside : ∀ key candidate roots, LockFree (PathPolicy.insideSome key candidate roots) := by
    intro key candidate roots
    induction roots with
    | nil => trivial
    | cons root rest ih =>
      refine .bind (lockFree_canonicalizePath root) fun _ => ?_
      split
      · trivial
      · exact ih
  unfold PathPolicy.resolve
  split
  · trivial
  dsimp only
  split
  · refine .bind (lockFree_canonicalizePath _) fun _ => .bind (lockFree_canonicalizePath _)
      fun _ => ?_
    split <;> trivial
  · exact .bind (lockFree_canonicalizePath _) fun _ => hinside _ _ _

theorem lockFree_exists (path : AbsPath) : LockFree (FileSystemService.exists path) := by
  refine .tryCatch ⟨rfl, fun r => .bind (lockFree_throwing r) fun _ => trivial⟩ fun e => ?_
  split <;> trivial

theorem lockFree_verifyExpectedHash (path : AbsPath) (expected : Option D) :
    LockFree (service.verifyExpectedHash path expected) := by
  refine .bind (lockFree_exists path) fun found => ?_
  split
  · split <;> trivial
  refine .bind ⟨rfl, lockFree_throwing⟩ fun info => ?_
  split
  · trivial
  refine .bind ⟨rfl, lockFree_throwing⟩ fun current => ?_
  dsimp only
  split
  · trivial
  · split <;> trivial

omit [DecidableEq D] in
theorem lockFree_atomicWrite (uuid : NamePart) (path : AbsPath) (buffer : Bytes)
    (mode : Option ℕ) : LockFree (service.atomicWrite uuid path buffer mode) := by
  refine .bind ⟨rfl, lockFree_throwing⟩ fun _ => .bind ⟨rfl, lockFree_throwing⟩ fun _ =>
    .bind ⟨rfl, lockFree_throwing⟩ fun _ => .tryCatch ⟨rfl, lockFree_throwing⟩ fun _ => ?_
  exact .bind (.tryCatch ⟨rfl, lockFree_throwing⟩ fun _ => trivial) fun _ => trivial

theorem orderly_withPathLock {path : AbsPath} {operation : FsM α} (hp : LockFree operation) :
    Orderly [] (withPathLock path operation) :=
  (lockFree_canonicalizePath path).orderly_bind fun key =>
    orderly_locked hp [key] (List.pairwise_singleton _ _)

theorem lockFree_editLocked (uuid : NamePart) (path : AbsPath) (oldString newString : List Char)
    (replaceAll : Bool) (expected : Option D) :
    LockFree (service.editLocked uuid path oldString newString replaceAll expected) := by
  refine .bind (lockFree_exists path) fun found => ?_
  split
  · trivial
  refine .bind ⟨rfl, lockFree_throwing⟩ fun info => ?_
  split
  · trivial
  split
  · trivial
  refine .bind ⟨rfl, lockFree_throwing⟩ fun current => ?_
  dsimp only
  split
  · trivial
  split
  · trivial
  split
  · trivial
  split
  · trivial
  · exact .bind (lockFree_atomicWrite _ _ _ _) fun _ => trivial

theorem lockFree_patchLocked (uuid : NamePart) (path : AbsPath) (patch : List Char)
    (normalized : ℕ) (expected : D) :
    LockFree (service.patchLocked uuid path patch normalized expected) := by
  refine .bind (lockFree_verifyExpectedHash path _) fun _ => .bind ⟨rfl, lockFree_throwing⟩
    fun source => ?_
  split
  · trivial
  · trivial
  dsimp only
  split
  · trivial
  · exact .bind ⟨rfl, lockFree_throwing⟩ fun _ => .bind (lockFree_atomicWrite _ _ _ _)
      fun _ => trivial

theorem lockFree_moveLocked (source destination : AbsPath) (expected : Option D) :
    LockFree (service.moveLocked source destination expected) := by
  refine .bind ⟨rfl, lockFree_throwing⟩ fun info => .bind ?_ fun _ =>
    .bind (lockFree_exists destination) fun found => ?_
  · unfold FileSystemService.verifySource
    split
    · exact .bind (lockFree_verifyExpectedHash _ _) fun _ => trivial
    · trivial
  · split
    · trivial
    · exact .bind ⟨rfl, lockFree_throwing⟩ fun _ => .bind ⟨rfl, lockFree_throwing⟩ fun _ => trivial

theorem lockFree_removeLocked (path : AbsPath) (expected : Option D) (recursive : Bool) :
    LockFree (service.removeLocked path expected recursive) := by
  unfold FileSystemService.removeLocked
  split
  · trivial
  refine .bind ⟨rfl, lockFree_throwing⟩ fun info => ?_
  split
  · exact .bind (lockFree_verifyExpectedHash _ _) fun _ => .bind ⟨rfl, lockFree_throwing⟩
      fun _ => trivial
  split
  · split
    · trivial
    · exact .bind ⟨rfl, lockFree_throwing⟩ fun _ => trivial
  · trivial

theorem orderly_program (call : FsCall D) : Orderly [] (call.program service) := by
  cases call with
  | edit uuid input oldString newString replaceAll expected =>
    show Orderly [] (FileSystemService.edit _ _ _ _ _ _ _)
    unfold FileSystemService.edit
    split
    · exact .throw _
    split
    · exact .throw _
    exact (lockFree_resolve _ _).orderly_bind fun path =>
      orderly_withPathLock (lockFree_editLocked _ _ _ _ _ _)
  | write uuid input buffer expected =>
    refine (lockFree_resolve _ _).orderly_bind fun path => ?_
    split
    · exact .throw _
    · exact orderly_withPathLock (.bind (lockFree_verifyExpectedHash _ _) fun _ =>
        .bind (lockFree_atomicWrite _ _ _ _) fun _ => trivial)
  | patch uuid input patchText expected =>
    refine (lockFree_resolve _ _).orderly_bind fun path => ?_
    dsimp only
    split
    · exact .throw _
    · exact orderly_withPathLock (lockFree_patchLocked _ _ _ _ _)
  | move sourceInput destinationInput expected =>
    refine (lockFree_resolve _ _).orderly_bind fun source =>
      (lockFree_resolve _ _).orderly_bind fun destination => ?_
    have hall : ∀ targets, LockFree (canonicalizeAll targets) := by
      intro targets
      induction targets with
      | nil => trivial
      | cons target rest ih =>
        exact .bind (lockFree_canonicalizePath target) fun _ => ih.bind fun _ => trivial
    exact (hall _).orderly_bind fun canonical =>
      orderly_locked (lockFree_moveLocked _ _ _) _ (pairwise_sortedKeys canonical)
  | remove input expected recursive =>
    exact (lockFree_resolve _ _).orderly_bind fun path =>
      orderly_withPathLock (lockFree_removeLocked _ _ _)
  | makeDirectory input =>
    exact (lockFree_resolve _ _).orderly_bind fun path =>
      LockFree.orderly_bind ⟨rfl, lockFree_throwing⟩ fun _ => .pure _

end Service

end LockOrder
