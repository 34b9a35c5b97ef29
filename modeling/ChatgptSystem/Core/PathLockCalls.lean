import ChatgptSystem.Core.PathLock
import ChatgptSystem.Foundations.OrderedLocks

/-!
# Concurrent calls under path locks

`withPathLock` and `withPathLocks` of `core/path-lock.ts` for any set of concurrent calls. The
guarded operations are programs over operations of their own, which take no lock and may fail;
where one is called and where it ends are steps. A target is canonicalised to any key.

* `CallOp`, `LockState`, `exec` — the operations of a call and what they do;
* `withPathLock`, `withPathLocks`, `PathLockCall` — the calls;
* `Stage` — how far a call is, and the locks it holds there, an invariant of every run;
* `locks_correct` — exclusion, one run of every body, no deadlock, and an empty map at the end.
-/

open Interleaving

namespace PathLocks

/-! ## The calls -/

/-- What a call does: the steps of the locks, and those of the operation it guards. -/
inductive CallOp (Op : Type) where
  | canonicalizePath (target : AbsPath)
  | enqueue (key : AbsPath)
  | await (previous : Option ℕ)
  | settle (me : ℕ)
  | forget (key : AbsPath) (me : ℕ)
  /-- The guarded operation is called, under these keys. -/
  | begin (keys : List AbsPath)
  | perform (o : Op)
  | finish

abbrev CallOp.Res {Op : Type} (Res : Op → Type) : CallOp Op → Type
  | .canonicalizePath _ => AbsPath
  | .enqueue _ => Option ℕ × ℕ
  | .perform o => Res o
  | .await _ | .settle _ | .forget _ _ | .begin _ | .finish => Unit

abbrev CallM {Op : Type} (Res : Op → Type) (ε α : Type) : Type :=
  Program (CallOp Op) (CallOp.Res Res) ε α

section Calls

variable {Op : Type} {Res : Op → Type} {ε α : Type}

/-- What is left of the guarded operation, and of the call after it. -/
def inBody (operation : Program Op Res ε α) (later : Except ε α → CallM Res ε α) : CallM Res ε α :=
  (operation.embed CallOp.perform fun _ r => r : CallM Res ε α).attempt.bind fun outcome =>
    .request .finish fun _ => later outcome

/-- `operation()`. -/
def body (keys : List AbsPath) (operation : Program Op Res ε α) : CallM Res ε α :=
  .request (.begin keys) fun _ => inBody operation .ofExcept

/-- Wait for the promise of the key, run the operation whatever became of it, settle the own
promise and remove it from the map if it is still the last one. -/
def withCanonicalLock (key : AbsPath) (operation : CallM Res ε α) : CallM Res ε α :=
  .request (.enqueue key) fun (previous, me) =>
  .request (.await previous) fun _ =>
  operation.attempt.bind fun outcome =>
  .request (.settle me) fun _ =>
  .request (.forget key me) fun _ =>
  .ofExcept outcome

def withPathLock (target : AbsPath) (operation : Program Op Res ε α) : CallM Res ε α :=
  .request (.canonicalizePath target) fun key => withCanonicalLock key (body [key] operation)

def canonicalizeAll : List AbsPath → CallM Res ε (List AbsPath)
  | [] => .pure []
  | target :: rest =>
    .request (.canonicalizePath target) fun key =>
    (canonicalizeAll rest).bind fun keys => .pure (key :: keys)

def acquire (operation : CallM Res ε α) : List AbsPath → CallM Res ε α
  | [] => operation
  | key :: keys => withCanonicalLock key (acquire operation keys)

def withPathLocks (targets : List AbsPath) (operation : Program Op Res ε α) : CallM Res ε α :=
  (canonicalizeAll targets).bind fun canonical =>
    acquire (body (sortedKeys canonical) operation) (sortedKeys canonical)

end Calls

inductive PathLockCall {Op : Type} (Res : Op → Type) (ε α : Type) where
  | withPathLock (target : AbsPath) (operation : Program Op Res ε α)
  | withPathLocks (targets : List AbsPath) (operation : Program Op Res ε α)

def PathLockCall.program {Op : Type} {Res : Op → Type} {ε α : Type} :
    PathLockCall Res ε α → CallM Res ε α
  | .withPathLock target operation => PathLocks.withPathLock target operation
  | .withPathLocks targets operation => PathLocks.withPathLocks targets operation

/-- The promise map, the bodies that are running, with their keys, how often the body of a call
has been called, and whatever the bodies work on. -/
structure LockState (ι σ : Type) where
  locks : ChainLock.State ι AbsPath
  running : ι → Option (List AbsPath)
  runs : ι → ℕ
  inner : σ

def LockState.initial {ι σ : Type} (inner : σ) : LockState ι σ :=
  ⟨.empty, fun _ => none, fun _ => 0, inner⟩

/-- What the operations of the call `i` do, where `E` says what the bodies do. -/
def exec {ι σ Op : Type} {Res : Op → Type} [DecidableEq ι] (E : ι → Exec Op Res σ) (i : ι) :
    Exec (CallOp Op) (CallOp.Res Res) (LockState ι σ)
  | .canonicalizePath _, s, _, s' => s' = s
  | .enqueue key, s, r, s' =>
    r = (s.locks.queues key, s.locks.tickets.length) ∧ s' = { s with locks := s.locks.enqueue i key }
  | .await previous, s, _, s' => s.locks.Ready previous ∧ s' = s
  | .settle me, s, _, s' => s' = { s with locks := s.locks.settle me }
  | .forget key me, s, _, s' => s' = { s with locks := s.locks.forget key me }
  | .begin keys, s, _, s' => s' = { s with
      running := Function.update s.running i (some keys)
      runs := Function.update s.runs i (s.runs i + 1) }
  | .perform o, s, r, s' => ∃ inner, E i o s.inner r inner ∧ s' = { s with inner }
  | .finish, s, _, s' => s' = { s with running := Function.update s.running i none }

/-! ## How far a call is -/

section Stages

variable {ι Op : Type} {Res : Op → Type} {ε α : Type}

/-- Give back the locks of `held`, the last one first, and end. -/
def unwind : List (AbsPath × ℕ) → Except ε α → CallM Res ε α
  | [], outcome => .ofExcept outcome
  | (key, me) :: held, outcome =>
    .request (.settle me) fun _ => .request (.forget key me) fun _ => unwind held outcome

theorem withCanonicalLock_unwind (key : AbsPath) (operation : CallM Res ε α)
    (held : List (AbsPath × ℕ)) : (withCanonicalLock key operation).attempt.bind (unwind held) =
      .request (.enqueue key) fun r => .request (.await r.1) fun _ =>
        operation.attempt.bind (unwind ((key, r.2) :: held)) := by
  show Program.request _ _ = Program.request _ _
  congr 1
  funext r
  show Program.request _ _ = Program.request _ _
  congr 1
  funext _
  show ((operation.attempt.bind _).attempt.bind _) = _
  rw [Program.attempt_bind_attempt, Program.bind_assoc]
  congr 1
  funext outcome
  show Program.request _ _ = Program.request _ _
  congr 1
  funext _
  show Program.request _ _ = Program.request _ _
  congr 1
  funext _
  cases outcome <;> rfl

theorem body_unwind (keys : List AbsPath) (operation : Program Op Res ε α)
    (held : List (AbsPath × ℕ)) : (body keys operation).attempt.bind (unwind held) =
      .request (.begin keys) fun _ => inBody operation (unwind held) := by
  show Program.request _ _ = Program.request _ _
  congr 1
  funext _
  show ((Program.bind _ _).attempt.bind _) = Program.bind _ _
  rw [Program.attempt_bind_attempt, Program.bind_assoc]
  congr 1
  funext outcome
  show Program.request _ _ = Program.request _ _
  congr 1
  funext _
  cases outcome <;> rfl

/-- A call that still canonicalises its targets, and takes its locks in order afterwards. -/
inductive Opening : CallM Res ε α → Prop where
  | ask {target : AbsPath} {k : AbsPath → CallM Res ε α} (h : ∀ key, Opening (k key)) :
      Opening (.request (.canonicalizePath target) k)
  | ready {keys : List AbsPath} {operation : Program Op Res ε α}
      (hsorted : keys.Pairwise fun a b => lockRank a < lockRank b) :
      Opening (acquire (body keys operation) keys)

theorem opening_canonicalizeAll (targets : List AbsPath) {f : List AbsPath → CallM Res ε α}
    (hf : ∀ keys, Opening (f keys)) : Opening ((canonicalizeAll targets).bind f) := by
  induction targets generalizing f with
  | nil => exact hf []
  | cons target targets ih =>
    refine .ask fun key => ?_
    show Opening (((canonicalizeAll targets).bind _).bind f)
    rw [Program.bind_assoc]
    exact ih fun keys => hf (key :: keys)

theorem opening_program (call : PathLockCall Res ε α) : Opening call.program := by
  cases call with
  | withPathLock target operation =>
    refine .ask fun key => ?_
    show Opening (acquire (body [key] operation) [key])
    exact .ready (List.pairwise_singleton _ _)
  | withPathLocks targets operation =>
    exact opening_canonicalizeAll targets fun keys => .ready (pairwise_sortedKeys keys)

/-- The promises of a call: the pending ones are in `held`, and those in the map in `queued`. -/
structure Owns (locks : ChainLock.State ι AbsPath) (i : ι) (held queued : List (AbsPath × ℕ)) :
    Prop where
  pending : ∀ {me : ℕ} {t : ChainLock.Ticket ι AbsPath}, locks.tickets[me]? = some t → t.owner = i →
    t.settled = false → (t.key, me) ∈ held
  queued : ∀ {me : ℕ} {t : ChainLock.Ticket ι AbsPath}, locks.tickets[me]? = some t → t.owner = i →
    locks.queues t.key = some me → (t.key, me) ∈ queued

/-- The call is inside all these locks, the last one first. -/
structure Holds (locks : ChainLock.State ι AbsPath) (i : ι) (held : List (AbsPath × ℕ)) : Prop where
  nodup : held.Nodup
  holds : ∀ km ∈ held, locks.Holds i km.1 km.2

/-- How far a call is, with the promises that are its own, whether its body is running, and how
often it has been called. -/
inductive Stage (locks : ChainLock.State ι AbsPath) (i : ι) :
    Option (List AbsPath) → ℕ → CallM Res ε α → Prop where
  | opening {target : AbsPath} {k : AbsPath → CallM Res ε α} (hk : ∀ key, Opening (k key))
      (howns : Owns locks i [] []) : Stage locks i none 0 (.request (.canonicalizePath target) k)
  | acquiring {all keys : List AbsPath} {held : List (AbsPath × ℕ)} {operation : Program Op Res ε α}
      (hall : ∀ key ∈ all, key ∈ held.map Prod.fst ∨ key ∈ keys)
      (hsorted : keys.Pairwise fun a b => lockRank a < lockRank b)
      (hheld : ∀ km ∈ held, ∀ key ∈ keys, lockRank km.1 < lockRank key)
      (howns : Owns locks i held held) (hholds : Holds locks i held) :
      Stage locks i none 0 ((acquire (body all operation) keys).attempt.bind (unwind held))
  | waiting {all keys : List AbsPath} {key : AbsPath} {me : ℕ} {previous : Option ℕ}
      {held : List (AbsPath × ℕ)} {operation : Program Op Res ε α}
      (hall : ∀ k ∈ all, k ∈ held.map Prod.fst ∨ k ∈ key :: keys)
      (hsorted : (key :: keys).Pairwise fun a b => lockRank a < lockRank b)
      (hheld : ∀ km ∈ held, ∀ k ∈ key :: keys, lockRank km.1 < lockRank k)
      (howns : Owns locks i ((key, me) :: held) ((key, me) :: held)) (hholds : Holds locks i held)
      (hticket : locks.tickets[me]? = some ⟨i, key, previous, false⟩) :
      Stage locks i none 0 (.request (.await previous) fun _ =>
        (acquire (body all operation) keys).attempt.bind (unwind ((key, me) :: held)))
  | running {all : List AbsPath} {held : List (AbsPath × ℕ)} {operation : Program Op Res ε α}
      (hall : ∀ key ∈ all, key ∈ held.map Prod.fst) (howns : Owns locks i held held)
      (hholds : Holds locks i held) :
      Stage locks i (some all) 1 (inBody operation (unwind held))
  | unwinding {held : List (AbsPath × ℕ)} {outcome : Except ε α} (howns : Owns locks i held held)
      (hholds : Holds locks i held) : Stage locks i none 1 (unwind held outcome)
  | releasing {held : List (AbsPath × ℕ)} {key : AbsPath} {me : ℕ} {outcome : Except ε α}
      (hsettled : locks.Settled me) (howns : Owns locks i held ((key, me) :: held))
      (hholds : Holds locks i held) :
      Stage locks i none 1 (.request (.forget key me) fun _ => unwind held outcome)

/-- A step of another call: the promises of `j` stay as they are, and none of them gets into the
map. -/
structure Leaves (j : ι) (locks locks' : ChainLock.State ι AbsPath) : Prop where
  keeps : locks.Keeps j locks'
  own : ∀ {me : ℕ} {t : ChainLock.Ticket ι AbsPath}, locks'.tickets[me]? = some t → t.owner = j →
    locks.tickets[me]? = some t
  queued : ∀ {me : ℕ} {t : ChainLock.Ticket ι AbsPath}, locks'.tickets[me]? = some t → t.owner = j →
    locks'.queues t.key = some me → locks.queues t.key = some me

variable {locks locks' : ChainLock.State ι AbsPath} {i j : ι} {held queued : List (AbsPath × ℕ)}

theorem Owns.mono (h : Owns locks j held queued) (hleaves : Leaves j locks locks') :
    Owns locks' j held queued where
  pending ht hj hset := h.pending (hleaves.own ht hj) hj hset
  queued ht hj hmap := h.queued (hleaves.own ht hj) hj (hleaves.queued ht hj hmap)

theorem Holds.mono (h : Holds locks j held) (hleaves : Leaves j locks locks') :
    Holds locks' j held :=
  ⟨h.nodup, fun km hkm => hleaves.keeps.holds (h.holds km hkm)⟩

theorem Stage.mono {running : Option (List AbsPath)} {runs : ℕ} {p : CallM Res ε α}
    (h : Stage locks j running runs p) (hleaves : Leaves j locks locks') :
    Stage locks' j running runs p := by
  cases h with
  | opening hk howns => exact .opening hk (howns.mono hleaves)
  | acquiring hall hsorted hheld howns hholds =>
    exact .acquiring hall hsorted hheld (howns.mono hleaves) (hholds.mono hleaves)
  | waiting hall hsorted hheld howns hholds hticket =>
    exact .waiting hall hsorted hheld (howns.mono hleaves) (hholds.mono hleaves)
      (hleaves.keeps.own hticket rfl)
  | running hall howns hholds => exact .running hall (howns.mono hleaves) (hholds.mono hleaves)
  | unwinding howns hholds => exact .unwinding (howns.mono hleaves) (hholds.mono hleaves)
  | releasing hsettled howns hholds =>
    exact .releasing (hleaves.keeps.settled hsettled) (howns.mono hleaves) (hholds.mono hleaves)

theorem Leaves.refl (j : ι) (locks : ChainLock.State ι AbsPath) : Leaves j locks locks :=
  ⟨.refl j locks, fun ht _ => ht, fun _ _ hmap => hmap⟩

theorem Leaves.enqueue (hij : j ≠ i) (key : AbsPath) : Leaves j locks (locks.enqueue i key) where
  keeps := .enqueue j i locks key
  own ht hj := by
    rcases ChainLock.State.getElem?_enqueue ht with hold | ⟨-, rfl⟩
    · exact hold
    · exact absurd hj.symm hij
  queued {me t} ht hj hmap := by
    rcases ChainLock.State.getElem?_enqueue ht with hold | ⟨-, rfl⟩
    · by_cases hkey : t.key = key
      · -- the promise in the map is the one that has just been placed
        have hlast : locks.tickets.length = me := by
          simpa [ChainLock.State.enqueue, hkey] using hmap
        exact absurd (ChainLock.State.lt_length hold) (by omega)
      · simpa [ChainLock.State.enqueue, hkey] using hmap
    · exact absurd hj.symm hij

theorem Leaves.settle {key : AbsPath} {me : ℕ} (hij : j ≠ i) (hholds : locks.Holds i key me) :
    Leaves j locks (locks.settle me) := by
  obtain ⟨u, hu, howner, -⟩ := hholds
  have hown : ∀ {you : ℕ} {t : ChainLock.Ticket ι AbsPath}, (locks.settle me).tickets[you]? = some t →
      t.owner = j → locks.tickets[you]? = some t := by
    intro you t ht hj
    obtain ⟨v, hv, rfl⟩ := ChainLock.State.getElem?_settle.mp ht
    split at hj
    next heq =>
      subst heq
      obtain rfl := Option.some.inj (hu.symm.trans hv)
      exact absurd (hj.symm.trans howner) hij
    next hne => rwa [if_neg hne]
  refine ⟨.settle fun ht hj => ?_, hown, fun _ _ hmap => hmap⟩
  obtain rfl := Option.some.inj (hu.symm.trans ht)
  exact hij (hj.symm.trans howner)

theorem tickets_forget (locks : ChainLock.State ι AbsPath) (key : AbsPath) (me : ℕ) :
    (locks.forget key me).tickets = locks.tickets := by
  unfold ChainLock.State.forget
  split <;> rfl

theorem queues_forget {key k : AbsPath} {me you : ℕ}
    (h : (locks.forget key me).queues k = some you) : locks.queues k = some you ∧ (k, you) ≠ (key, me) := by
  unfold ChainLock.State.forget at h
  split at h
  next hmap =>
    by_cases hk : k = key
    · subst hk
      simp at h
    · refine ⟨by simpa [hk] using h, fun heq => hk (Prod.mk.inj heq).1⟩
  next hmap =>
    refine ⟨h, ?_⟩
    rintro ⟨⟩
    exact hmap h

theorem Leaves.forget (j : ι) (key : AbsPath) (me : ℕ) : Leaves j locks (locks.forget key me) where
  keeps := .forget j locks key me
  own ht _ := tickets_forget locks key me ▸ ht
  queued _ _ hmap := (queues_forget hmap).1

theorem Owns.enqueue (h : Owns locks i held held)
    (key : AbsPath) : Owns (locks.enqueue i key) i ((key, locks.tickets.length) :: held)
      ((key, locks.tickets.length) :: held) where
  pending ht hi hset := by
    rcases ChainLock.State.getElem?_enqueue ht with hold | ⟨rfl, rfl⟩
    · exact List.mem_cons_of_mem _ (h.pending hold hi hset)
    · exact List.mem_cons_self
  queued {you t} ht hi hmap := by
    rcases ChainLock.State.getElem?_enqueue ht with hold | ⟨rfl, rfl⟩
    · by_cases hkey : t.key = key
      · have hlast : locks.tickets.length = you := by
          simpa [ChainLock.State.enqueue, hkey] using hmap
        exact absurd (ChainLock.State.lt_length hold) (by omega)
      · exact List.mem_cons_of_mem _ (h.queued hold hi
          (by simpa [ChainLock.State.enqueue, hkey] using hmap))
    · exact List.mem_cons_self

theorem Owns.settle {key : AbsPath} {me : ℕ}
    (h : Owns locks i ((key, me) :: held) ((key, me) :: held)) :
    Owns (locks.settle me) i held ((key, me) :: held) where
  pending {you t} ht hi hset := by
    obtain ⟨v, hv, rfl⟩ := ChainLock.State.getElem?_settle.mp ht
    split at hset
    next => cases hset
    next hne =>
      rw [if_neg hne] at hi ⊢
      rcases List.mem_cons.mp (h.pending hv hi hset) with heq | hmem
      · exact absurd (congrArg Prod.snd heq).symm hne
      · exact hmem
  queued {you t} ht hi hmap := by
    obtain ⟨v, hv, rfl⟩ := ChainLock.State.getElem?_settle.mp ht
    have hkey : (if me = you then { v with settled := true } else v).key = v.key := by split <;> rfl
    have howner : (if me = you then { v with settled := true } else v).owner = v.owner := by
      split <;> rfl
    rw [hkey] at hmap ⊢
    exact h.queued hv (howner ▸ hi) hmap

theorem Owns.forget {key : AbsPath} {me : ℕ} (h : Owns locks i held ((key, me) :: held)) :
    Owns (locks.forget key me) i held held where
  pending ht := h.pending (tickets_forget locks key me ▸ ht)
  queued {you t} ht hi hmap := by
    obtain ⟨hold, hne⟩ := queues_forget hmap
    rcases List.mem_cons.mp (h.queued (tickets_forget locks key me ▸ ht) hi hold) with heq | hmem
    · exact absurd heq hne
    · exact hmem

theorem Stage.of_opening {p : CallM Res ε α} (hp : Opening p) (howns : Owns locks i [] []) :
    Stage locks i none 0 p := by
  cases hp with
  | ask hk => exact .opening hk howns
  | @ready keys operation hsorted =>
    have hend : (unwind [] : Except ε α → CallM Res ε α) = .ofExcept := rfl
    rw [← Program.attempt_bind_ofExcept (acquire (body keys operation) keys), ← hend]
    exact .acquiring (fun key hkey => .inr hkey) hsorted (fun _ h => absurd h List.not_mem_nil) howns
      ⟨.nil, fun _ h => absurd h List.not_mem_nil⟩

end Stages

/-! ## Runs -/

section Runs

variable {ι σ Op : Type} {Res : Op → Type} {ε α : Type} [DecidableEq ι] {E : ι → Exec Op Res σ}

/-- What a step of the call `i` leaves: the chain invariant, the next stage of the call, and the
other calls where they were. -/
structure Advances (i : ι) (s s' : LockState ι σ) (p : CallM Res ε α) : Prop where
  inv : s'.locks.Inv
  stage : Stage s'.locks i (s'.running i) (s'.runs i) p
  others : ∀ j ≠ i, Leaves j s.locks s'.locks ∧ s'.running j = s.running j ∧ s'.runs j = s.runs j

variable {i : ι} {s s' : LockState ι σ} {o : CallOp Op} {k : o.Res Res → CallM Res ε α}
  {r : o.Res Res} {all keys : List AbsPath} {held : List (AbsPath × ℕ)} {key : AbsPath} {me : ℕ}
  {operation : Program Op Res ε α} {outcome : Except ε α}

theorem step_acquiring (hinv : s.locks.Inv)
    (hall : ∀ k ∈ all, k ∈ held.map Prod.fst ∨ k ∈ keys)
    (hsorted : keys.Pairwise fun a b => lockRank a < lockRank b)
    (hheld : ∀ km ∈ held, ∀ k ∈ keys, lockRank km.1 < lockRank k)
    (howns : Owns s.locks i held held) (hholds : Holds s.locks i held) (hrunning : s.running i = none)
    (hruns : s.runs i = 0)
    (hp : .request o k = (acquire (body all operation) keys).attempt.bind (unwind held))
    (hexec : exec E i o s r s') : Advances i s s' (k r) := by
  cases keys with
  | nil =>
    rw [acquire, body_unwind] at hp
    cases hp
    obtain rfl : s' = _ := hexec
    refine ⟨hinv, ?_, fun j hj => ⟨.refl j _, by simp [hj], by simp [hj]⟩⟩
    dsimp only
    rw [Function.update_self, Function.update_self, hruns]
    exact .running (fun key hkey => by simpa using hall key hkey) howns hholds
  | cons key keys =>
    rw [acquire, withCanonicalLock_unwind] at hp
    cases hp
    obtain ⟨rfl, rfl⟩ : r = _ ∧ s' = _ := hexec
    refine ⟨hinv.enqueue i key, ?_, fun j hj => ⟨.enqueue hj key, rfl, rfl⟩⟩
    dsimp only
    rw [hrunning, hruns]
    exact .waiting hall hsorted hheld (howns.enqueue key)
      ⟨hholds.nodup, fun km hkm => (hholds.holds km hkm).enqueue⟩
      (ChainLock.State.getElem?_enqueue_self s.locks i key)

omit [DecidableEq ι] in
theorem step_waiting {locks : ChainLock.State ι AbsPath} {previous : Option ℕ}
    (hall : ∀ k ∈ all, k ∈ held.map Prod.fst ∨ k ∈ key :: keys)
    (hsorted : (key :: keys).Pairwise fun a b => lockRank a < lockRank b)
    (hheld : ∀ km ∈ held, ∀ k ∈ key :: keys, lockRank km.1 < lockRank k)
    (howns : Owns locks i ((key, me) :: held) ((key, me) :: held)) (hholds : Holds locks i held)
    (hticket : locks.tickets[me]? = some ⟨i, key, previous, false⟩)
    (hready : locks.Ready previous) :
    Stage locks i none 0
      ((acquire (body all operation) keys).attempt.bind (unwind ((key, me) :: held))) := by
  obtain ⟨hfirst, hrest⟩ := List.pairwise_cons.mp hsorted
  refine .acquiring (fun k hk => ?_) hrest (fun km hkm k hk => ?_) howns
    ⟨List.nodup_cons.mpr ⟨fun hmem => ?_, hholds.nodup⟩, fun km hkm => ?_⟩
  · rcases hall k hk with hmem | hmem
    · exact .inl (List.mem_cons_of_mem _ hmem)
    · rcases List.mem_cons.mp hmem with rfl | hmem
      · exact .inl List.mem_cons_self
      · exact .inr hmem
  · rcases List.mem_cons.mp hkm with rfl | hkm
    · exact hfirst k hk
    · exact hheld km hkm k (List.mem_cons_of_mem _ hk)
  · exact absurd (hheld _ hmem key List.mem_cons_self) (lt_irrefl _)
  · rcases List.mem_cons.mp hkm with rfl | hkm
    · exact ⟨_, hticket, rfl, rfl, rfl, hready⟩
    · exact hholds.holds km hkm

theorem step_running (hinv : s.locks.Inv) (hall : ∀ key ∈ all, key ∈ held.map Prod.fst)
    (howns : Owns s.locks i held held) (hholds : Holds s.locks i held)
    (hrunning : s.running i = some all) (hruns : s.runs i = 1)
    (hp : .request o k = inBody operation (unwind held)) (hexec : exec E i o s r s') :
    Advances i s s' (k r) := by
  cases operation with
  | request o' k' =>
    cases hp
    obtain ⟨inner, -, rfl⟩ := hexec
    refine ⟨hinv, ?_, fun j _ => ⟨.refl j _, rfl, rfl⟩⟩
    dsimp only
    rw [hrunning, hruns]
    show Stage s.locks i (some all) 1 (inBody (k' r) (unwind held))
    exact .running hall howns hholds
  | pure a =>
    cases hp
    obtain rfl : s' = _ := hexec
    refine ⟨hinv, ?_, fun j hj => ⟨.refl j _, by simp [hj], rfl⟩⟩
    dsimp only
    rw [Function.update_self, hruns]
    exact .unwinding howns hholds
  | throw e =>
    cases hp
    obtain rfl : s' = _ := hexec
    refine ⟨hinv, ?_, fun j hj => ⟨.refl j _, by simp [hj], rfl⟩⟩
    dsimp only
    rw [Function.update_self, hruns]
    exact .unwinding howns hholds

theorem step_unwinding (hinv : s.locks.Inv) (howns : Owns s.locks i held held)
    (hholds : Holds s.locks i held) (hrunning : s.running i = none) (hruns : s.runs i = 1)
    (hp : .request o k = unwind held outcome) (hexec : exec E i o s r s') :
    Advances i s s' (k r) := by
  cases held with
  | nil => cases outcome <;> cases hp
  | cons km held =>
    obtain ⟨key, me⟩ := km
    cases hp
    obtain rfl : s' = _ := hexec
    have hme := hholds.holds _ List.mem_cons_self
    obtain ⟨u, hu, -, hkey, -⟩ := hholds.holds _ List.mem_cons_self
    refine ⟨hinv.settle hme, ?_, fun j hj => ⟨.settle hj hme, rfl, rfl⟩⟩
    dsimp only
    rw [hrunning, hruns]
    refine .releasing (ChainLock.State.settled_settle hu) howns.settle
      ⟨(List.nodup_cons.mp hholds.nodup).2, fun km hkm => ?_⟩
    refine (hholds.holds km (List.mem_cons_of_mem _ hkm)).settle fun heq => ?_
    obtain ⟨v, hv, -, hkey', -⟩ := hholds.holds km (List.mem_cons_of_mem _ hkm)
    obtain rfl : u = v := Option.some.inj (hu.symm.trans (heq ▸ hv))
    have hsame : (key, me) = km := Prod.ext (hkey.symm.trans hkey') heq
    exact (List.nodup_cons.mp hholds.nodup).1 (hsame ▸ hkm)

theorem stage_step (hinv : s.locks.Inv)
    (h : Stage s.locks i (s.running i) (s.runs i) (.request o k)) (hexec : exec E i o s r s') :
    Advances i s s' (k r) := by
  generalize hrunning : s.running i = running at h
  generalize hruns : s.runs i = runs at h
  generalize hp : Program.request o k = p at h
  cases h with
  | opening hk howns =>
    cases hp
    obtain rfl : s' = s := hexec
    refine ⟨hinv, ?_, fun j _ => ⟨.refl j _, rfl, rfl⟩⟩
    rw [hrunning, hruns]
    exact .of_opening (hk r) howns
  | acquiring hall hsorted hheld howns hholds =>
    exact step_acquiring hinv hall hsorted hheld howns hholds hrunning hruns hp hexec
  | waiting hall hsorted hheld howns hholds hticket =>
    cases hp
    obtain ⟨hready, rfl⟩ := hexec
    refine ⟨hinv, ?_, fun j _ => ⟨.refl j _, rfl, rfl⟩⟩
    rw [hrunning, hruns]
    exact step_waiting hall hsorted hheld howns hholds hticket hready
  | running hall howns hholds =>
    exact step_running hinv hall howns hholds hrunning hruns hp hexec
  | unwinding howns hholds => exact step_unwinding hinv howns hholds hrunning hruns hp hexec
  | releasing hsettled howns hholds =>
    cases hp
    obtain rfl : s' = _ := hexec
    refine ⟨hinv.forget hsettled, ?_, fun j _ => ⟨.forget j _ _, rfl, rfl⟩⟩
    dsimp only
    rw [hrunning, hruns]
    exact .unwinding howns.forget ⟨hholds.nodup, fun km hkm => (hholds.holds km hkm).forget⟩

abbrev Configuration (ι σ : Type) {Op : Type} (Res : Op → Type) (ε α : Type) : Type :=
  Pool ι (CallOp Op) (CallOp.Res Res) ε α × LockState ι σ

/-- The promise map is a chain, and every call is at a stage. -/
def Consistent (c : Configuration ι σ Res ε α) : Prop :=
  c.2.locks.Inv ∧ ∀ i, Stage c.2.locks i (c.2.running i) (c.2.runs i) (c.1 i)

omit [DecidableEq ι] in
theorem consistent_initial (calls : ι → PathLockCall Res ε α) (inner : σ) :
    Consistent (fun i => (calls i).program, .initial inner) := by
  refine ⟨.empty, fun i => .of_opening (opening_program (calls i)) ⟨fun ht => ?_, fun ht => ?_⟩⟩
  · simp [LockState.initial, ChainLock.State.empty] at ht
  · simp [LockState.initial, ChainLock.State.empty] at ht

variable {c : Configuration ι σ Res ε α}

theorem Consistent.step {c' : Configuration ι σ Res ε α} (h : Consistent c)
    (hstep : Pool.Step (exec E) i c c') : Consistent c' := by
  cases hstep with
  | @intro pool s o k r s' hpool hexec =>
    have hi : Stage s.locks i (s.running i) (s.runs i) (pool i) := h.2 i
    rw [hpool] at hi
    have hadvances := stage_step h.1 hi hexec
    refine ⟨hadvances.inv, fun j => ?_⟩
    by_cases hj : j = i
    · subst hj
      simpa using hadvances.stage
    · obtain ⟨hleaves, hrunning, hruns⟩ := hadvances.others j hj
      have hstage := (h.2 j).mono hleaves
      simpa [hj, hrunning, hruns] using hstage

theorem consistent_run {permit : Configuration ι σ Res ε α → ι → Prop}
    {c' : Configuration ι σ Res ε α} (h : Consistent c) (hrun : Pool.Run (exec E) permit c c') :
    Consistent c' := by
  induction hrun with
  | refl => exact h
  | step _ _ hstep ih => exact ih.step hstep

section Reading

variable {locks : ChainLock.State ι AbsPath} {running : Option (List AbsPath)} {runs : ℕ}
  {p : CallM Res ε α}

omit [DecidableEq ι] in
theorem Stage.holds (h : Stage locks i (some all) runs p) (hkey : key ∈ all) :
    ∃ me, locks.Holds i key me := by
  cases h with
  | running hall _ hholds =>
    obtain ⟨⟨key, me⟩, hmem, rfl⟩ := List.mem_map.mp (hall key hkey)
    exact ⟨me, hholds.holds _ hmem⟩

omit [DecidableEq ι] in
theorem Stage.runs_le (h : Stage locks i running runs p) : runs ≤ 1 := by
  cases h <;> simp

theorem outcome?_inBody (operation : Program Op Res ε α) (later : Except ε α → CallM Res ε α) :
    (inBody operation later).outcome? = none := by
  cases operation <;> rfl

theorem outcome?_acquiring (all keys : List AbsPath) (held : List (AbsPath × ℕ))
    (operation : Program Op Res ε α) :
    ((acquire (body all operation) keys).attempt.bind (unwind held)).outcome? = none := by
  cases keys with
  | nil => rw [acquire, body_unwind]; rfl
  | cons key keys => rw [acquire, withCanonicalLock_unwind]; rfl

omit [DecidableEq ι] in
theorem Stage.ended (h : Stage locks i running runs p) (hended : p.outcome? ≠ none) :
    running = none ∧ runs = 1 ∧ Owns locks i [] [] := by
  cases h with
  | opening => exact absurd rfl hended
  | acquiring => exact absurd (outcome?_acquiring _ _ _ _) hended
  | waiting => exact absurd rfl hended
  | running => exact absurd (outcome?_inBody _ _) hended
  | @unwinding held outcome howns _ =>
    cases held with
    | nil => exact ⟨rfl, rfl, howns⟩
    | cons km held => exact absurd rfl hended
  | releasing => exact absurd rfl hended

end Reading

theorem waiting_of_stuck (h : Stage c.2.locks i (c.2.running i) (c.2.runs i) (c.1 i))
    (hstuck : ∀ c', ¬ Pool.Step (exec E) i c c') (hrunning : c.2.running i = none) :
    (c.1 i).outcome? ≠ none ∨ ∃ held key me previous,
      (∀ km ∈ held, lockRank km.1 < lockRank key) ∧
      Owns c.2.locks i ((key, me) :: held) ((key, me) :: held) ∧
      c.2.locks.tickets[me]? = some ⟨i, key, previous, false⟩ ∧ ¬ c.2.locks.Ready previous := by
  obtain ⟨pool, s⟩ := c
  have hblocked : ∀ {o : CallOp Op} {k : o.Res Res → CallM Res ε α}, pool i = .request o k →
      ∀ r t, ¬ exec E i o s r t := fun hpool _ _ hexec => hstuck _ (.intro hpool hexec)
  dsimp only at h hrunning ⊢
  generalize hrun : s.running i = running at h hrunning
  generalize s.runs i = runs at h
  generalize hp : pool i = p at h
  cases h with
  | @opening target k =>
    exact absurd rfl (hblocked hp target s)
  | @acquiring all keys held operation =>
    cases keys with
    | nil =>
      rw [acquire, body_unwind] at hp
      exact absurd rfl (hblocked hp () _)
    | cons key keys =>
      rw [acquire, withCanonicalLock_unwind] at hp
      exact absurd ⟨rfl, rfl⟩ (hblocked hp _ _)
  | @waiting all keys key me previous held operation hall hsorted hheld howns hholds hticket =>
    refine .inr ⟨held, key, me, previous, fun km hkm => hheld km hkm key List.mem_cons_self, howns,
      hticket, fun hready => ?_⟩
    exact absurd ⟨hready, rfl⟩ (hblocked hp () _)
  | running => cases hrunning
  | @unwinding held outcome =>
    cases held with
    | nil => cases outcome <;> exact .inl (by simp [unwind, Program.ofExcept, Program.outcome?])
    | cons km held => exact absurd rfl (hblocked hp () _)
  | releasing => exact absurd rfl (hblocked hp () _)

theorem Consistent.progress (h : Consistent c) (hopen : ∃ i, (c.1 i).outcome? = none) :
    (∃ i, c.2.running i ≠ none) ∨ ∃ i c', Pool.Step (exec E) i c c' := by
  by_contra hstuck
  obtain ⟨hidle, hblocked⟩ := not_or.mp hstuck
  have hwaiting := fun i => waiting_of_stuck (h.2 i) (fun c' hstep => hblocked ⟨i, c', hstep⟩)
    (by_contra fun hrunning => hidle ⟨i, hrunning⟩)
  have hsettled : ∀ {me : ℕ} {t : ChainLock.Ticket ι AbsPath}, c.2.locks.tickets[me]? = some t →
      t.settled = true := by
    refine h.1.settled_of_waiting lockRank fun {me t} ht hpending => ?_
    rcases hwaiting t.owner with hended | ⟨held, key, you, previous, hrank, howns, hticket, hready⟩
    · exact absurd (((h.2 t.owner).ended hended).2.2.pending ht rfl hpending) List.not_mem_nil
    refine ⟨you, _, hticket, rfl, hready, ?_⟩
    rcases List.mem_cons.mp (howns.pending ht rfl hpending) with heq | hmem
    · exact .inl (Prod.mk.inj heq).2.symm
    · exact .inr (hrank _ hmem)
  obtain ⟨i, hi⟩ := hopen
  rcases hwaiting i with hended | ⟨_, _, _, _, _, _, hticket, _⟩
  · exact hended hi
  · have := hsettled hticket
    cases this

/-- What the calls can rely on. -/
structure LocksCorrect (E : ι → Exec Op Res σ) (c : Configuration ι σ Res ε α) : Prop where
  /-- Two bodies that share a key do not overlap. -/
  exclusive : ∀ {i j : ι} {keys keys' : List AbsPath} {key : AbsPath}, c.2.running i = some keys →
    c.2.running j = some keys' → key ∈ keys → key ∈ keys' → i = j
  /-- No body is called twice, and the body of a call that has ended has been called and is over. -/
  once : ∀ i, c.2.runs i ≤ 1 ∧
    ((c.1 i).outcome? ≠ none → c.2.runs i = 1 ∧ c.2.running i = none)
  /-- As long as a call has not ended, a body is running or a step can be taken. -/
  progress : (∃ i, (c.1 i).outcome? = none) →
    (∃ i, c.2.running i ≠ none) ∨ ∃ i c', Pool.Step (exec E) i c c'
  /-- When all calls have ended the map is empty. -/
  clean : (∀ i, (c.1 i).outcome? ≠ none) → c.2.locks.queues = fun _ => none

theorem Consistent.correct (h : Consistent c) : LocksCorrect E c where
  exclusive {i j keys keys' key} hi hj hkey hkey' := by
    have hstage := h.2 i
    have hstage' := h.2 j
    rw [hi] at hstage
    rw [hj] at hstage'
    obtain ⟨me, hme⟩ := hstage.holds hkey
    obtain ⟨you, hyou⟩ := hstage'.holds hkey'
    exact h.1.owner_unique hme hyou
  once i := ⟨(h.2 i).runs_le, fun hended =>
    ⟨((h.2 i).ended hended).2.1, ((h.2 i).ended hended).1⟩⟩
  progress := h.progress
  clean hended := by
    funext key
    cases hmap : c.2.locks.queues key with
    | none => rfl
    | some me =>
      obtain ⟨t, ht, hkey⟩ := h.1.placed hmap
      have howns := ((h.2 t.owner).ended (hended t.owner)).2.2
      exact absurd (howns.queued ht rfl (hkey ▸ hmap)) List.not_mem_nil

/-- Path locks are correct for any set of concurrent calls, whatever their bodies do and whatever
keys their targets have. -/
theorem locks_correct (calls : ι → PathLockCall Res ε α) (inner : σ) {c : Configuration ι σ Res ε α}
    (hrun : Pool.Run (exec E) (fun _ _ => True) (fun i => (calls i).program, .initial inner) c) :
    LocksCorrect E c :=
  (consistent_run (consistent_initial calls inner) hrun).correct

end Runs

def twiceCall : PathLockCall (fun _ : Empty => Unit) Unit Unit :=
  .withPathLocks [[], []] (.throw ())

/-- The lock is taken once, and the body is called under it. -/
theorem locks_correct_twice : ∃ c : Configuration Unit Unit (fun _ : Empty => Unit) Unit Unit,
    c.2.running () = some [[]] ∧ LocksCorrect (fun _ o => nomatch o) c := by
  have hstart : Pool.Run (exec fun (_ : Unit) (o : Empty) => nomatch o) (fun _ _ => True)
      (fun _ => twiceCall.program, LockState.initial ())
      (fun _ => twiceCall.program, LockState.initial ()) := .refl _
  have hone := hstart.step (i := ()) trivial (.intro (r := []) rfl rfl)
  have htwo := hone.step (i := ()) trivial (.intro (r := []) rfl rfl)
  have hplaced := htwo.step (i := ()) trivial (.intro rfl ⟨rfl, rfl⟩)
  have hinside := hplaced.step (i := ()) trivial (.intro (r := ()) rfl ⟨nofun, rfl⟩)
  have hcalled := hinside.step (i := ()) trivial (.intro (r := ()) rfl rfl)
  exact ⟨_, rfl, locks_correct (fun _ => twiceCall) () hcalled⟩

/-! ## The program without its marks -/

section Code

variable {α β : Type}

/-- The program on the operations of the file system, without the marks of the body. -/
def code : CallM FsOp.Res AppError α → FsM α
  | .pure a => .pure a
  | .throw e => .throw e
  | .request (.canonicalizePath target) k =>
    (canonicalizePath target).bind fun key => code (k key)
  | .request (.enqueue key) k => .request (.enqueue key) fun r => code (k r)
  | .request (.await previous) k => .request (.await previous) fun r => code (k r)
  | .request (.settle me) k => .request (.settle me) fun r => code (k r)
  | .request (.forget key me) k => .request (.forget key me) fun r => code (k r)
  | .request (.begin _) k => code (k ())
  | .request (.perform o) k => .request o fun r => code (k r)
  | .request .finish k => code (k ())

theorem code_bind (p : CallM FsOp.Res AppError β) (f : β → CallM FsOp.Res AppError α) :
    code (p.bind f) = (code p).bind fun b => code (f b) := by
  induction p with
  | pure b => rfl
  | throw e => rfl
  | request o k ih =>
    cases o with
    | canonicalizePath target =>
      show (canonicalizePath target).bind _ = ((canonicalizePath target).bind _).bind _
      rw [Program.bind_assoc]
      congr 1
      funext key
      exact ih key
    | begin keys => exact ih ()
    | finish => exact ih ()
    | enqueue | await | settle | forget | perform =>
      show Program.request _ _ = Program.request _ _
      congr 1
      funext r
      exact ih r

/-- The operations below the canonicalisation of the targets. -/
def Inside : CallOp FsOp → Prop
  | .canonicalizePath _ => False
  | _ => True

theorem code_attempt {p : CallM FsOp.Res AppError α} (hp : p.Issues Inside) :
    code p.attempt = (code p).attempt := by
  induction hp with
  | pure a => rfl
  | throw e => rfl
  | @request o k ho _ ih =>
    cases o with
    | canonicalizePath target => exact ho.elim
    | begin keys => exact ih ()
    | finish => exact ih ()
    | enqueue | await | settle | forget | perform =>
      show Program.request _ _ = Program.request _ _
      congr 1
      funext r
      exact ih r

theorem code_ofExcept (outcome : Except AppError α) :
    code (.ofExcept outcome) = (.ofExcept outcome : FsM α) := by
  cases outcome <;> rfl

theorem code_embed (operation : FsM α) : code (operation.embed .perform fun _ r => r) = operation := by
  induction operation with
  | pure a => rfl
  | throw e => rfl
  | request o k ih =>
    show Program.request _ _ = Program.request _ _
    congr 1
    funext r
    exact ih r

theorem issues_body (keys : List AbsPath) (operation : FsM α) : (body keys operation).Issues Inside := by
  have hperform : (operation.embed CallOp.perform fun _ r => r : CallM FsOp.Res AppError α).Issues
      Inside := .embed (.of_forall (fun _ => trivial) operation)
  exact .request trivial fun _ => hperform.attempt.bind fun outcome =>
    .request trivial fun _ => .ofExcept outcome

theorem issues_acquire {operation : CallM FsOp.Res AppError α} (h : operation.Issues Inside)
    (keys : List AbsPath) : (acquire operation keys).Issues Inside := by
  induction keys with
  | nil => exact h
  | cons key keys ih =>
    exact .request trivial fun _ => .request trivial fun _ => ih.attempt.bind fun outcome =>
      .request trivial fun _ => .request trivial fun _ => .ofExcept outcome

theorem code_body (keys : List AbsPath) (operation : FsM α) : code (body keys operation) = operation := by
  have hperform : (operation.embed CallOp.perform fun _ r => r : CallM FsOp.Res AppError α).Issues
      Inside := .embed (.of_forall (fun _ => trivial) operation)
  show code (Program.bind _ _) = operation
  rw [code_bind, code_attempt hperform, code_embed]
  conv_rhs => rw [← Program.attempt_bind_ofExcept operation]
  congr 1
  funext outcome
  exact code_ofExcept outcome

end Code

end PathLocks

section Code

variable {α : Type}

theorem acquire_eq_code {operation : PathLocks.CallM FsOp.Res AppError α}
    (h : operation.Issues PathLocks.Inside) (keys : List AbsPath) :
    acquire (PathLocks.code operation) keys = PathLocks.code (PathLocks.acquire operation keys) := by
  induction keys with
  | nil => rfl
  | cons key keys ih =>
    show Program.request _ _ = Program.request _ _
    congr 1
    funext r
    show Program.request _ _ = Program.request _ _
    congr 1
    funext _
    show Program.bind _ _ = PathLocks.code (Program.bind _ _)
    rw [PathLocks.code_bind, PathLocks.code_attempt (PathLocks.issues_acquire h keys), ← ih]
    congr 1
    funext outcome
    show Program.request _ _ = Program.request _ _
    congr 1
    funext _
    show Program.request _ _ = Program.request _ _
    congr 1
    funext _
    exact (PathLocks.code_ofExcept outcome).symm

theorem canonicalizeAll_eq_code (targets : List AbsPath) : canonicalizeAll targets =
    PathLocks.code (PathLocks.canonicalizeAll targets) := by
  induction targets with
  | nil => rfl
  | cons target targets ih =>
    show (canonicalizePath target).bind _ = (canonicalizePath target).bind _
    congr 1
    funext key
    show (canonicalizeAll targets).bind _ = PathLocks.code (Program.bind _ _)
    rw [PathLocks.code_bind, ih]
    rfl

theorem withPathLock_eq_code (target : AbsPath) (operation : FsM α) :
    withPathLock target operation = PathLocks.code (PathLocks.withPathLock target operation) := by
  show (canonicalizePath target).bind _ = (canonicalizePath target).bind _
  congr 1
  funext key
  have h := acquire_eq_code (PathLocks.issues_body [key] operation) [key]
  rwa [PathLocks.code_body] at h

/-- The call of several locks is the program that is verified here. -/
theorem withPathLocks_eq_code (targets : List AbsPath) (operation : FsM α) :
    withPathLocks targets operation = PathLocks.code (PathLocks.withPathLocks targets operation) := by
  show (canonicalizeAll targets).bind _ = PathLocks.code (Program.bind _ _)
  rw [PathLocks.code_bind, canonicalizeAll_eq_code]
  congr 1
  funext canonical
  have h := acquire_eq_code (PathLocks.issues_body (sortedKeys canonical) operation)
    (sortedKeys canonical)
  rwa [PathLocks.code_body] at h

end Code
