import Mathlib.Data.List.Forall2
import Mathlib.Logic.Function.Basic
import Mathlib.Logic.Relation

/-!
# Programs of atomic operations

A program is a tree of atomic operations: it returns, fails, or issues one operation and
continues with its result. Asynchronous code is such a tree, one operation for each awaited call;
between two of them any other program may run.

* `Program Op Res ε α` — programs over the operations `Op`, with `Res o` the result type of
  `o`, errors in `ε` and values in `α`; a monad with exceptions;
* `Program.attempt`, `Program.tryFinally`, `Program.forEach` — control structures on top of `do`
  notation; `Program.embed` — a program where more operations are available;
* `Program.Issues` — which operations a program may issue;
* `Exec Op Res σ` — what each operation may do to a shared state `σ`;
* `Program.Steps` — a program running alone, stopped anywhere, and its executable counterparts
  `Program.follow` and `Program.run`;
* `Pool.Run` — any number of programs interleaved on one state, with a side condition on each
  step, and its executable counterparts `Pool.schedule` and `Pool.scheduleIf`.
-/

namespace Interleaving

/-- A program over the operations `Op`: the tree of its operations, branching on their
results. -/
inductive Program (Op : Type) (Res : Op → Type) (ε α : Type) : Type where
  /-- Return a value. -/
  | pure (a : α)
  /-- Fail with an error. -/
  | throw (e : ε)
  /-- Issue the operation `o` and continue with its result. -/
  | request (o : Op) (k : Res o → Program Op Res ε α)

namespace Program

variable {Op : Type} {Res : Op → Type} {ε α β γ : Type}

/-- Sequential composition: errors skip the continuation. -/
def bind : Program Op Res ε α → (α → Program Op Res ε β) → Program Op Res ε β
  | .pure a, f => f a
  | .throw e, _ => .throw e
  | .request o k, f => .request o fun r => (k r).bind f

instance : Monad (Program Op Res ε) where
  pure := .pure
  bind := .bind

/-- Run a program and hand its outcome, value or error, to the continuation. -/
def attempt : Program Op Res ε α → Program Op Res ε (Except ε α)
  | .pure a => .pure (.ok a)
  | .throw e => .pure (.error e)
  | .request o k => .request o fun r => (k r).attempt

/-- The program whose outcome is already known. -/
def ofExcept : Except ε α → Program Op Res ε α
  | .ok a => .pure a
  | .error e => .throw e

/-- `try p catch e => handler e`. -/
def tryCatch (p : Program Op Res ε α) (handler : ε → Program Op Res ε α) :
    Program Op Res ε α :=
  p.attempt.bind fun
    | .ok a => .pure a
    | .error e => handler e

instance : MonadExceptOf ε (Program Op Res ε) where
  throw := .throw
  tryCatch := tryCatch

/-- `try p finally cleanup`: the cleanup runs whatever the outcome of `p`, and an error of the
cleanup replaces that outcome. -/
def tryFinally (p : Program Op Res ε α) (cleanup : Program Op Res ε Unit) :
    Program Op Res ε α :=
  p.attempt.bind fun outcome => cleanup.bind fun _ => ofExcept outcome

/-- The program that issues one operation and returns its result. -/
def perform (o : Op) : Program Op Res ε (Res o) :=
  .request o .pure

/-- `for x of xs do body x`. -/
def forEach : List β → (β → Program Op Res ε Unit) → Program Op Res ε Unit
  | [], _ => .pure ()
  | x :: xs, body => (body x).bind fun _ => forEach xs body

/-- The program of some operations where more are available: `f` says which of those an
operation is, and `g` reads its result. -/
def embed {Op' : Type} {Res' : Op' → Type} (f : Op → Op') (g : ∀ o, Res' (f o) → Res o) :
    Program Op Res ε α → Program Op' Res' ε α
  | .pure a => .pure a
  | .throw e => .throw e
  | .request o k => .request (f o) fun r => (k (g o r)).embed f g

/-- Every operation the program may issue is of the given kind. -/
inductive Issues (ok : Op → Prop) : Program Op Res ε α → Prop where
  | pure (a : α) : Issues ok (.pure a)
  | throw (e : ε) : Issues ok (.throw e)
  | request {o : Op} {k : Res o → Program Op Res ε α} (ho : ok o) (hk : ∀ r, Issues ok (k r)) :
      Issues ok (.request o k)

/-- The program returns the value for some results of its operations. -/
inductive Yields : Program Op Res ε α → α → Prop where
  | pure (a : α) : Yields (.pure a) a
  | request {o : Op} {k : Res o → Program Op Res ε α} {a : α} (r : Res o) (h : Yields (k r) a) :
      Yields (.request o k) a

/-- The outcome of a program that has no operation left to issue. -/
def outcome? : Program Op Res ε α → Option (Except ε α)
  | .pure a => some (.ok a)
  | .throw e => some (.error e)
  | .request _ _ => none

/-- The error a program has ended with. -/
def thrown? : Program Op Res ε α → Option ε
  | .throw e => some e
  | _ => none

theorem eq_throw_of_thrown? {p : Program Op Res ε α} {e : ε} (h : p.thrown? = some e) :
    p = .throw e := by
  cases p with
  | throw e => exact congrArg throw (Option.some.inj h)
  | pure | request => cases h

@[simp] theorem pure_eq (a : α) : (Pure.pure a : Program Op Res ε α) = .pure a := rfl

@[simp] theorem bind_eq (p : Program Op Res ε α) (f : α → Program Op Res ε β) :
    (p >>= f) = p.bind f := rfl

theorem forEach_map (g : γ → β) (xs : List γ) (body : β → Program Op Res ε Unit) :
    forEach (xs.map g) body = forEach xs fun x => body (g x) := by
  induction xs with
  | nil => rfl
  | cons x xs ih => rw [List.map_cons, forEach, forEach, ih]

theorem bind_assoc (p : Program Op Res ε α) (f : α → Program Op Res ε β)
    (g : β → Program Op Res ε γ) : (p.bind f).bind g = p.bind fun a => (f a).bind g := by
  induction p with
  | pure a => rfl
  | throw e => rfl
  | request o k ih =>
    show request o _ = request o _
    congr 1
    funext r
    exact ih r

theorem attempt_bind_attempt (p : Program Op Res ε α) (g : Except ε α → Program Op Res ε β) :
    (p.attempt.bind g).attempt = p.attempt.bind fun outcome => (g outcome).attempt := by
  induction p with
  | pure a => rfl
  | throw e => rfl
  | request o k ih =>
    show request o _ = request o _
    congr 1
    funext r
    exact ih r

theorem attempt_bind_ofExcept (p : Program Op Res ε α) : p.attempt.bind ofExcept = p := by
  induction p with
  | pure a => rfl
  | throw e => rfl
  | request o k ih =>
    show request o _ = request o _
    congr 1
    funext r
    exact ih r

variable {ok : Op → Prop} {p : Program Op Res ε α} {f : α → Program Op Res ε β}

theorem Issues.bind (hp : p.Issues ok) (hf : ∀ a, (f a).Issues ok) : (p.bind f).Issues ok := by
  induction hp with
  | pure a => exact hf a
  | throw e => exact .throw e
  | request ho _ ih => exact .request ho ih

theorem Issues.attempt (hp : p.Issues ok) : (p.attempt).Issues ok := by
  induction hp with
  | pure a => exact .pure _
  | throw e => exact .pure _
  | request ho _ ih => exact .request ho ih

theorem Issues.tryCatch {f : ε → Program Op Res ε α} (hp : p.Issues ok)
    (hf : ∀ e, (f e).Issues ok) : (p.tryCatch f).Issues ok := by
  refine hp.attempt.bind fun outcome => ?_
  cases outcome with
  | ok a => exact .pure a
  | error e => exact hf e

theorem Issues.embed {Op' : Type} {Res' : Op' → Type} {f : Op → Op'} {g : ∀ o, Res' (f o) → Res o}
    {ok : Op' → Prop} (hp : p.Issues fun o => ok (f o)) : (p.embed f g).Issues ok := by
  induction hp with
  | pure a => exact .pure a
  | throw e => exact .throw e
  | request ho _ ih => exact .request ho fun r => ih (g _ r)

theorem Issues.of_forall (h : ∀ o, ok o) (p : Program Op Res ε α) : p.Issues ok := by
  induction p with
  | pure a => exact .pure a
  | throw e => exact .throw e
  | request o k ih => exact .request (h o) ih

theorem Issues.ofExcept (outcome : Except ε α) :
    (Program.ofExcept outcome : Program Op Res ε α).Issues ok := by
  cases outcome with
  | ok a => exact .pure a
  | error e => exact .throw e

theorem Yields.of_embed {Op' : Type} {Res' : Op' → Type} {f : Op → Op'}
    {g : ∀ o, Res' (f o) → Res o} {a : α} (h : (p.embed f g).Yields a) : p.Yields a := by
  induction p with
  | pure b =>
    cases h
    exact .pure _
  | throw e => cases h
  | request o k ih =>
    cases h with
    | request r h => exact .request (g o r) (ih _ h)

theorem Yields.bind_inv {b : β} (h : (p.bind f).Yields b) : ∃ a, p.Yields a ∧ (f a).Yields b := by
  induction p with
  | pure a => exact ⟨a, .pure a, h⟩
  | throw e => cases h
  | request o k ih =>
    cases h with
    | request r h =>
      obtain ⟨a, ha, hb⟩ := ih r h
      exact ⟨a, .request r ha, hb⟩

theorem Yields.bind {a : α} {b : β} (hp : p.Yields a) (hf : (f a).Yields b) :
    (p.bind f).Yields b := by
  induction hp with
  | pure => exact hf
  | request r _ ih => exact .request r (ih hf)

theorem Yields.mapM' {xs : List α} {ys : List β}
    (h : List.Forall₂ (fun x y => (f x).Yields y) xs ys) : (xs.mapM' f).Yields ys := by
  induction h with
  | nil => exact .pure []
  | cons hx _ ih => exact .bind hx (.bind ih (.pure _))

theorem Yields.mapM'_inv {xs : List α} {ys : List β} (h : (xs.mapM' f).Yields ys) :
    List.Forall₂ (fun x y => (f x).Yields y) xs ys := by
  induction xs generalizing ys with
  | nil =>
    cases h
    exact .nil
  | cons x xs ih =>
    obtain ⟨y, hy, h⟩ := Yields.bind_inv h
    obtain ⟨ys, hys, h⟩ := Yields.bind_inv h
    cases h
    exact .cons hy (ih hys)

end Program

/-- What each operation may do: `exec o s r s'` when `o`, issued in the state `s`, may return
`r` and leave the state `s'`. An operation without an outcome in `s` is blocked there. -/
abbrev Exec (Op : Type) (Res : Op → Type) (σ : Type) : Type :=
  (o : Op) → σ → Res o → σ → Prop

/-- The relation computed by a partial function; `none` is a blocked operation. -/
def Exec.ofFn {Op : Type} {Res : Op → Type} {σ : Type}
    (step : (o : Op) → σ → Option (Res o × σ)) : Exec Op Res σ :=
  fun o s r s' => step o s = some (r, s')

/-! ## One program alone -/

section Alone

variable {Op : Type} {Res : Op → Type} {σ ε α : Type}

/-- `Steps exec (p, s) (p', s')`: running `p` alone from `s`, stopped after some of its
operations, leaves `p'` still to run in the state `s'`. -/
inductive Program.Steps (exec : Exec Op Res σ) :
    Program Op Res ε α × σ → Program Op Res ε α × σ → Prop where
  | refl (c) : Steps exec c c
  | step {c o k s r s'} : Steps exec c (.request o k, s) → exec o s r s' →
      Steps exec c (k r, s')

variable {exec : Exec Op Res σ}

theorem Program.Steps.trans {c c' c'' : Program Op Res ε α × σ} (h : Steps exec c c')
    (h' : Steps exec c' c'') : Steps exec c c'' := by
  induction h' with
  | refl => exact h
  | step _ hexec ih => exact ih.step hexec

theorem Program.Steps.head {o : Op} {k : Res o → Program Op Res ε α} {s s' : σ} {r : Res o}
    {c : Program Op Res ε α × σ} (hexec : exec o s r s') (h : Steps exec (k r, s') c) :
    Steps exec (.request o k, s) c :=
  ((Steps.refl _).step hexec).trans h

theorem Program.Steps.bind {β : Type} {c c' : Program Op Res ε β × σ} (h : Steps exec c c')
    (f : β → Program Op Res ε α) : Steps exec (c.1.bind f, c.2) (c'.1.bind f, c'.2) := by
  induction h with
  | refl => exact .refl _
  | step _ hexec ih => exact ih.step hexec

theorem Program.Steps.of_outcome {p : Program Op Res ε α} {s : σ} {c : Program Op Res ε α × σ}
    (h : Steps exec (p, s) c) (hp : p.outcome?.isSome = true) : c = (p, s) := by
  generalize hstart : (p, s) = c₀ at h
  induction h with
  | refl => rfl
  | step _ _ ih =>
    rw [(Prod.mk.inj (ih.trans hstart.symm)).1.symm] at hp
    cases hp

theorem Program.Steps.of_request {o : Op} {k : Res o → Program Op Res ε α} {s s' : σ}
    {c : Program Op Res ε α} (h : Steps exec (.request o k, s) (c, s'))
    (hc : c.outcome?.isSome = true) : ∃ r t, exec o s r t ∧ Steps exec (k r, t) (c, s') := by
  have hmoved : ∀ {c₀ c' : Program Op Res ε α × σ}, Steps exec c₀ c' →
      c₀ = (.request o k, s) →
      c' = (.request o k, s) ∨ ∃ r t, exec o s r t ∧ Steps exec (k r, t) c' := by
    intro c₀ c' hsteps hc₀
    induction hsteps with
    | refl => exact .inl hc₀
    | @step _ _ _ r s' _ hexec ih =>
      rcases ih with hstart | ⟨r, t, hfirst, hrest⟩
      · cases hstart
        exact .inr ⟨r, s', hexec, .refl _⟩
      · exact .inr ⟨_, t, hfirst, hrest.step hexec⟩
  rcases hmoved h rfl with hstart | hrest
  · rw [(Prod.mk.inj hstart).1] at hc
    cases hc
  · exact hrest

theorem Program.Steps.of_bind {β : Type} {p : Program Op Res ε β} {f : β → Program Op Res ε α}
    {s s' : σ} {a : α} (h : Steps exec (p.bind f, s) (.pure a, s')) :
    ∃ b t, Steps exec (p, s) (.pure b, t) ∧ Steps exec (f b, t) (.pure a, s') := by
  induction p generalizing s with
  | pure b => exact ⟨b, s, .refl _, h⟩
  | throw e => cases Steps.of_outcome h rfl
  | request o k ih =>
    obtain ⟨r, t, hexec, hrest⟩ := Steps.of_request h rfl
    obtain ⟨b, u, hfirst, hsecond⟩ := ih r hrest
    exact ⟨b, u, .head hexec hfirst, hsecond⟩

/-- A composed program that has run to its end has failed in its first part, or has returned
from it. -/
theorem Program.Steps.of_bind_outcome {β : Type} {p : Program Op Res ε β}
    {f : β → Program Op Res ε α} {s s' : σ} {c : Program Op Res ε α}
    (h : Steps exec (p.bind f, s) (c, s')) (hc : c.outcome?.isSome = true) :
    (∃ e, c = .throw e ∧ Steps exec (p, s) (.throw e, s')) ∨
      ∃ b t, Steps exec (p, s) (.pure b, t) ∧ Steps exec (f b, t) (c, s') := by
  induction p generalizing s with
  | pure b => exact .inr ⟨b, s, .refl _, h⟩
  | throw e =>
    obtain ⟨rfl, rfl⟩ := Prod.mk.inj (Steps.of_outcome h rfl)
    exact .inl ⟨e, rfl, .refl _⟩
  | request o k ih =>
    obtain ⟨r, t, hexec, hrest⟩ := Steps.of_request h hc
    rcases ih r hrest with ⟨e, he, hfirst⟩ | ⟨b, u, hfirst, hsecond⟩
    · exact .inl ⟨e, he, .head hexec hfirst⟩
    · exact .inr ⟨b, u, .head hexec hfirst, hsecond⟩

/-- Operations that may have every result and leave the state alone lead a program to any value
it yields. -/
theorem Program.steps_of_yields {β : Type} {Op' : Type} {Res' : Op' → Type} {f : Op' → Op}
    {g : ∀ o, Res (f o) → Res' o} {s : σ} (hexec : ∀ o r, ∃ r', g o r' = r ∧ exec (f o) s r' s)
    {p : Program Op' Res' ε β} {b : β} (hp : p.Yields b) (rest : β → Program Op Res ε α) :
    Steps exec ((p.embed f g).bind rest, s) (rest b, s) := by
  induction hp with
  | pure b => exact .refl _
  | @request o k b r _ ih =>
    obtain ⟨r', rfl, hr'⟩ := hexec o r
    exact .head hr' ih

/-- Run a program alone along fixed choices, one for each operation. -/
def Program.follow {χ : Type} (step : χ → (o : Op) → σ → Option (Res o × σ)) :
    List χ → Program Op Res ε α × σ → Option (Program Op Res ε α × σ)
  | [], c => some c
  | x :: rest, (.request o k, s) => (step x o s).bind fun rs => follow step rest (k rs.1, rs.2)
  | _ :: _, _ => none

theorem Program.steps_of_follow {χ : Type} {step : χ → (o : Op) → σ → Option (Res o × σ)}
    (hexec : ∀ x o s r s', step x o s = some (r, s') → exec o s r s') :
    ∀ (moves : List χ) {c₀ c c' : Program Op Res ε α × σ}, Steps exec c₀ c →
      follow step moves c = some c' → Steps exec c₀ c'
  | [], _, _, _, hsteps, h => by
      simp only [follow, Option.some.injEq] at h
      exact h ▸ hsteps
  | x :: rest, _, (.request o k, s), _, hsteps, h => by
      simp only [follow, Option.bind_eq_some_iff] at h
      obtain ⟨⟨r, s'⟩, hstep, hrest⟩ := h
      exact steps_of_follow hexec rest (hsteps.step (hexec x o s r s' hstep)) hrest
  | _ :: _, _, (.pure _, _), _, _, h => by simp [follow] at h
  | _ :: _, _, (.throw _, _), _, _, h => by simp [follow] at h

/-- Run a program alone; `none` if an operation is blocked. -/
def Program.run (step : (o : Op) → σ → Option (Res o × σ)) :
    Program Op Res ε α → σ → Option (Except ε α × σ)
  | .pure a, s => some (.ok a, s)
  | .throw e, s => some (.error e, s)
  | .request o k, s => (step o s).bind fun rs => (k rs.1).run step rs.2

theorem Program.run_bind {β : Type} {step : (o : Op) → σ → Option (Res o × σ)}
    (p : Program Op Res ε β) (f : β → Program Op Res ε α) (s : σ) :
    (p.bind f).run step s = (p.run step s).bind fun r =>
      match r.1 with
      | .ok b => (f b).run step r.2
      | .error e => some (.error e, r.2) := by
  induction p generalizing s with
  | pure b => rfl
  | throw e => rfl
  | request o k ih =>
    show (step o s).bind _ = ((step o s).bind _).bind _
    cases step o s with
    | none => rfl
    | some rs => exact ih rs.1 rs.2

theorem Program.run_attempt {step : (o : Op) → σ → Option (Res o × σ)} (p : Program Op Res ε α)
    (s : σ) : p.attempt.run step s = (p.run step s).map fun r => (.ok r.1, r.2) := by
  induction p generalizing s with
  | pure a => rfl
  | throw e => rfl
  | request o k ih =>
    show (step o s).bind _ = ((step o s).bind _).map _
    cases step o s with
    | none => rfl
    | some rs => exact ih rs.1 rs.2

end Alone

/-! ## Interleaved programs -/

/-- One program for each call in `ι`. -/
abbrev Pool (ι Op : Type) (Res : Op → Type) (ε α : Type) : Type :=
  ι → Program Op Res ε α

namespace Pool

variable {ι Op : Type} {Res : Op → Type} {σ ε α : Type} [DecidableEq ι]

/-- `Step exec i c c'`: the call `i` issues its next operation. -/
inductive Step (exec : ι → Exec Op Res σ) (i : ι) :
    Pool ι Op Res ε α × σ → Pool ι Op Res ε α × σ → Prop where
  | intro {pool : Pool ι Op Res ε α} {s o k r s'} (hpool : pool i = .request o k)
      (hexec : exec i o s r s') :
      Step exec i (pool, s) (Function.update pool i (k r), s')

/-- `Run exec permit c c'`: `c'` is reached from `c` by interleaved steps, each of which meets
the side condition `permit` in the configuration it is taken from. -/
inductive Run (exec : ι → Exec Op Res σ) (permit : Pool ι Op Res ε α × σ → ι → Prop) :
    Pool ι Op Res ε α × σ → Pool ι Op Res ε α × σ → Prop where
  | refl (c) : Run exec permit c c
  | step {c c' c'' i} : Run exec permit c c' → permit c' i → Step exec i c' c'' →
      Run exec permit c c''

variable {exec : ι → Exec Op Res σ}

theorem Run.trans {permit : Pool ι Op Res ε α × σ → ι → Prop} {c c' c'' : Pool ι Op Res ε α × σ}
    (h : Run exec permit c c') (h' : Run exec permit c' c'') : Run exec permit c c'' := by
  induction h' with
  | refl => exact h
  | step _ hpermit hstep ih => exact ih.step hpermit hstep

theorem Step.issues (ok : ι → Op → Prop) {i : ι} {c c' : Pool ι Op Res ε α × σ}
    (hstep : Step exec i c c') (h : ∀ j, (c.1 j).Issues (ok j)) : ∀ j, (c'.1 j).Issues (ok j) := by
  intro j
  cases hstep with
  | @intro pool s o k r s' hpool hexec =>
    by_cases hij : j = i
    · subst hij
      have hj := h j
      rw [show (pool, s).1 j = _ from hpool] at hj
      cases hj with
      | request ho hk => simpa using hk r
    · simpa [hij] using h j

/-- The next configuration when the call `i` takes a step with the choice `x`. -/
def next {χ : Type} (step : χ → ι → (o : Op) → σ → Option (Res o × σ))
    (c : Pool ι Op Res ε α × σ) (i : ι) (x : χ) : Option (Pool ι Op Res ε α × σ) :=
  match c.1 i with
  | .request o k => (step x i o c.2).map fun rs => (Function.update c.1 i (k rs.1), rs.2)
  | _ => none

/-- Run a fixed schedule: which call moves, and how its operation resolves. -/
def schedule {χ : Type} (step : χ → ι → (o : Op) → σ → Option (Res o × σ)) :
    List (ι × χ) → Pool ι Op Res ε α × σ → Option (Pool ι Op Res ε α × σ)
  | [], c => some c
  | (i, x) :: rest, c => (next step c i x).bind (schedule step rest)

theorem step_of_next {χ : Type} {step : χ → ι → (o : Op) → σ → Option (Res o × σ)}
    (hexec : ∀ x i o s r s', step x i o s = some (r, s') → exec i o s r s')
    {c c' : Pool ι Op Res ε α × σ} {i : ι} {x : χ} (h : next step c i x = some c') :
    Step exec i c c' := by
  obtain ⟨pool, s⟩ := c
  cases hp : pool i with
  | pure a => simp [next, hp] at h
  | throw e => simp [next, hp] at h
  | request o k =>
    simp only [next, hp, Option.map_eq_some_iff] at h
    obtain ⟨⟨r, s'⟩, hstep, rfl⟩ := h
    exact .intro hp (hexec x i o s r s' hstep)

theorem schedule_of_still {χ : Type} {step : χ → ι → (o : Op) → σ → Option (Res o × σ)} {i : ι} :
    ∀ (moves : List (ι × χ)) {c c' : Pool ι Op Res ε α × σ}, (∀ m ∈ moves, m.1 ≠ i) →
      schedule step moves c = some c' → c'.1 i = c.1 i
  | [], _, _, _, h => by
      simp only [schedule, Option.some.injEq] at h
      rw [h]
  | (j, x) :: rest, c, _, hmoves, h => by
      simp only [schedule, Option.bind_eq_some_iff] at h
      obtain ⟨mid, hmid, hrest⟩ := h
      rw [schedule_of_still rest (fun m hm => hmoves m (List.mem_cons_of_mem _ hm)) hrest]
      have hij : i ≠ j := (hmoves (j, x) List.mem_cons_self).symm
      unfold next at hmid
      split at hmid
      · obtain ⟨rs, -, rfl⟩ := Option.map_eq_some_iff.mp hmid
        exact Function.update_of_ne hij _ _
      · cases hmid

theorem run_of_schedule {χ : Type} {step : χ → ι → (o : Op) → σ → Option (Res o × σ)}
    (hexec : ∀ x i o s r s', step x i o s = some (r, s') → exec i o s r s') :
    ∀ (moves : List (ι × χ)) {c₀ c c' : Pool ι Op Res ε α × σ},
      Run exec (fun _ _ => True) c₀ c → schedule step moves c = some c' →
      Run exec (fun _ _ => True) c₀ c'
  | [], _, _, _, hrun, h => by
      simp only [schedule, Option.some.injEq] at h
      exact h ▸ hrun
  | (i, x) :: rest, _, _, _, hrun, h => by
      simp only [schedule, Option.bind_eq_some_iff] at h
      obtain ⟨mid, hmid, hrest⟩ := h
      exact run_of_schedule hexec rest (hrun.step trivial (step_of_next hexec hmid)) hrest

/-- Run a fixed schedule as long as every step of it passes a check. -/
def scheduleIf {χ : Type} (check : Pool ι Op Res ε α × σ → ι → Bool)
    (step : χ → ι → (o : Op) → σ → Option (Res o × σ)) :
    List (ι × χ) → Pool ι Op Res ε α × σ → Option (Pool ι Op Res ε α × σ)
  | [], c => some c
  | (i, x) :: rest, c =>
    if check c i then (next step c i x).bind (scheduleIf check step rest) else none

theorem run_of_scheduleIf {χ : Type} {check : Pool ι Op Res ε α × σ → ι → Bool}
    {step : χ → ι → (o : Op) → σ → Option (Res o × σ)} {permit : Pool ι Op Res ε α × σ → ι → Prop}
    (hcheck : ∀ c i, check c i = true → permit c i)
    (hexec : ∀ x i o s r s', step x i o s = some (r, s') → exec i o s r s') :
    ∀ (moves : List (ι × χ)) {c₀ c c' : Pool ι Op Res ε α × σ},
      Run exec permit c₀ c → scheduleIf check step moves c = some c' → Run exec permit c₀ c'
  | [], _, _, _, hrun, h => by
      simp only [scheduleIf, Option.some.injEq] at h
      exact h ▸ hrun
  | (i, x) :: rest, _, c, _, hrun, h => by
      simp only [scheduleIf] at h
      split at h
      next hpass =>
        obtain ⟨mid, hmid, hrest⟩ := Option.bind_eq_some_iff.mp h
        exact run_of_scheduleIf hcheck hexec rest
          (hrun.step (hcheck c i hpass) (step_of_next hexec hmid)) hrest
      next => cases h

end Pool

end Interleaving
