import ChatgptSystem.Foundations.Program

/-!
# Rely-guarantee reasoning for programs of atomic operations

A `Protocol` fixes an invariant of the shared state, and for each call what the others may do
while it runs (`rely`) and what it does itself (`guar`). `Program.wp` is the weakest precondition of
a call: its operations keep the invariant and the guarantee in every state the others can produce,
and the outcome meets its postcondition.

* `Program.wp_bind`, `Program.wp_attempt`, `Program.wp_tryCatch`, `Program.wp_tryFinally`,
  `Program.wp_forEach` — one rule for each control structure;
* `Program.wp_steps` — a program that is stopped anywhere leaves the invariant intact;
  `Program.wp_run` — run to its end, it meets its postcondition;
* `Pool.wp_step`, `Pool.wp_run` — if every call meets its precondition, the invariant and all
  preconditions hold in every configuration; `Pool.wp_run_rel` — what the guarantees imply.
-/

namespace Interleaving

/-- The shared invariant, and for each call the interference it tolerates and the steps it may
take itself. One call's steps are interference that every other call tolerates. -/
structure Protocol (ι σ : Type) where
  /-- Holds in every state between two operations. -/
  inv : σ → Prop
  /-- What may happen to the state while the call is not moving. -/
  rely : ι → σ → σ → Prop
  /-- What one operation of the call may do. -/
  guar : ι → σ → σ → Prop
  rely_refl : ∀ i s, rely i s s
  rely_trans : ∀ i {a b c}, rely i a b → rely i b c → rely i a c
  guar_rely : ∀ {i j s s'}, i ≠ j → inv s → inv s' → guar i s s' → rely j s s'

variable {ι Op : Type} {Res : Op → Type} {σ ε α β : Type}

/-- The protocol of a program that runs alone: nothing interferes. -/
def Protocol.alone (inv : σ → Prop) : Protocol Unit σ where
  inv := inv
  rely _ := Eq
  guar _ _ _ := True
  rely_refl _ _ := rfl
  rely_trans _ := Eq.trans
  guar_rely h := absurd rfl h

namespace Program

/-- The weakest precondition of a program run by the call `i`: `Q` holds of the value and `E`
of the error it ends with. -/
def wp (exec : Exec Op Res σ) (P : Protocol ι σ) (i : ι) (Q : α → σ → Prop)
    (E : ε → σ → Prop) : Program Op Res ε α → σ → Prop
  | .pure a, s => ∀ s', P.rely i s s' → P.inv s' → Q a s'
  | .throw e, s => ∀ s', P.rely i s s' → P.inv s' → E e s'
  | .request o k, s => ∀ s', P.rely i s s' → P.inv s' → ∀ r s'', exec o s' r s'' →
      P.inv s'' ∧ P.guar i s' s'' ∧ wp exec P i Q E (k r) s''

section Rules

variable {exec : Exec Op Res σ} {P : Protocol ι σ} {i : ι}
  {Q : α → σ → Prop} {E : ε → σ → Prop} {s : σ}

variable {p : Program Op Res ε α}

theorem wp_rely {s' : σ} (h : p.wp exec P i Q E s) (hr : P.rely i s s') : p.wp exec P i Q E s' := by
  cases p with
  | pure a => exact fun t ht => h t (P.rely_trans i hr ht)
  | throw e => exact fun t ht => h t (P.rely_trans i hr ht)
  | request o k => exact fun t ht => h t (P.rely_trans i hr ht)

theorem wp_mono {Q' : α → σ → Prop} {E' : ε → σ → Prop} (h : p.wp exec P i Q E s)
    (hQ : ∀ a t, P.inv t → Q a t → Q' a t) (hE : ∀ e t, P.inv t → E e t → E' e t) :
    p.wp exec P i Q' E' s := by
  induction p generalizing s with
  | pure a => exact fun t ht hi => hQ a t hi (h t ht hi)
  | throw e => exact fun t ht hi => hE e t hi (h t ht hi)
  | request o k ih =>
    intro t ht hi r t' hx
    obtain ⟨hi', hg, hk⟩ := h t ht hi r t' hx
    exact ⟨hi', hg, ih r hk⟩

/-- Sequential composition: the first part ends where the second may start. -/
theorem wp_bind {p : Program Op Res ε β} {f : β → Program Op Res ε α} (hs : P.inv s)
    (h : p.wp exec P i (fun b t => (f b).wp exec P i Q E t) E s) :
    (p.bind f).wp exec P i Q E s := by
  induction p generalizing s with
  | pure b => exact h s (P.rely_refl i s) hs
  | throw e => exact h
  | request o k ih =>
    intro t ht hi r t' hx
    obtain ⟨hi', hg, hk⟩ := h t ht hi r t' hx
    exact ⟨hi', hg, ih r hi' hk⟩

/-- Capturing the outcome turns both postconditions into one. -/
theorem wp_attempt {p : Program Op Res ε β} {Q : Except ε β → σ → Prop}
    (h : p.wp exec P i (fun b t => Q (.ok b) t) (fun e t => Q (.error e) t) s) :
    (p.attempt).wp exec P i Q E s := by
  induction p generalizing s with
  | pure b => exact h
  | throw e => exact h
  | request o k ih =>
    intro t ht hi r t' hx
    obtain ⟨hi', hg, hk⟩ := h t ht hi r t' hx
    exact ⟨hi', hg, ih r hk⟩

theorem wp_tryCatch {f : ε → Program Op Res ε α} (hs : P.inv s)
    (h : p.wp exec P i (fun a t => ∀ t', P.rely i t t' → P.inv t' → Q a t')
      (fun e t => (f e).wp exec P i Q E t) s) : (p.tryCatch f).wp exec P i Q E s :=
  wp_bind hs (wp_attempt h)

theorem wp_tryFinally {f : Program Op Res ε Unit} (hs : P.inv s)
    (h : p.wp exec P i
      (fun a t => f.wp exec P i (fun _ t' => ∀ t'', P.rely i t' t'' → P.inv t'' → Q a t'') E t)
      (fun e t => f.wp exec P i (fun _ t' => ∀ t'', P.rely i t' t'' → P.inv t'' → E e t'') E t)
      s) : (p.tryFinally f).wp exec P i Q E s := by
  refine wp_bind hs (wp_attempt (wp_mono h ?_ ?_))
  · exact fun a t hi hf => wp_bind hi (wp_mono hf (fun _ t' hi' hq => hq) fun _ _ _ he => he)
  · exact fun e t hi hf => wp_bind hi (wp_mono hf (fun _ t' hi' hq => hq) fun _ _ _ he => he)

/-- A loop, with an assertion about the items that are left. -/
theorem wp_forEach {xs : List β} {body : β → Program Op Res ε Unit} {Q : Unit → σ → Prop}
    (I : List β → σ → Prop) (hs : P.inv s) (h : I xs s)
    (hstep : ∀ x rest t, P.inv t → I (x :: rest) t → (body x).wp exec P i (fun _ => I rest) E t)
    (hdone : ∀ t t', I [] t → P.rely i t t' → P.inv t' → Q () t') :
    (forEach xs body).wp exec P i Q E s := by
  induction xs generalizing s with
  | nil => exact fun t => hdone s t h
  | cons x rest ih =>
    exact wp_bind hs (wp_mono (hstep x rest s hs h) (fun _ t hi hI => ih hi hI) fun _ _ _ he => he)

theorem wp_request {o : Op} {k : Res o → Program Op Res ε α}
    (h : ∀ t, P.rely i s t → P.inv t → ∀ r t', exec o t r t' →
      P.inv t' ∧ P.guar i t t' ∧ (k r).wp exec P i Q E t') :
    (Program.request o k).wp exec P i Q E s := h

theorem wp_embed {Op' : Type} {Res' : Op' → Type} {exec' : Exec Op' Res' σ} {f : Op → Op'}
    {g : ∀ o, Res' (f o) → Res o} (hexec : ∀ o t r t', exec' (f o) t r t' → exec o t (g o r) t')
    (h : p.wp exec P i Q E s) : (p.embed f g).wp exec' P i Q E s := by
  induction p generalizing s with
  | pure a => exact h
  | throw e => exact h
  | request o k ih =>
    intro t ht hi r t' hx
    obtain ⟨hi', hg, hk⟩ := h t ht hi (g o r) t' (hexec o t r t' hx)
    exact ⟨hi', hg, ih (g o r) hk⟩

theorem wp_of_issues {ok : Op → Prop}
    (hok : ∀ o t r t', ok o → P.inv t → exec o t r t' → P.inv t' ∧ P.guar i t t')
    (hp : p.Issues ok) : p.wp exec P i (fun _ _ => True) (fun _ _ => True) s := by
  induction hp generalizing s with
  | pure a => exact fun _ _ _ => trivial
  | throw e => exact fun _ _ _ => trivial
  | @request o k ho _ ih =>
    intro t ht hi r t' hx
    obtain ⟨hi', hg⟩ := hok o t r t' ho hi hx
    exact ⟨hi', hg, ih r⟩

/-- A program whose operations do not act on the state keeps what interference does not
disturb. -/
theorem wp_of_still {ok : Op → Prop} {A : σ → Prop}
    (hstill : ∀ o t r t', ok o → exec o t r t' → t' = t) (hguar : ∀ t, P.guar i t t)
    (hp : p.Issues ok) (hA : ∀ t t', A t → P.rely i t t' → P.inv t' → A t') (hs : A s)
    (hE : ∀ e t, A t → E e t) : p.wp exec P i (fun a t => p.Yields a ∧ A t) E s := by
  induction hp generalizing s with
  | pure a => exact fun t ht hi => ⟨.pure a, hA s t hs ht hi⟩
  | throw e => exact fun t ht hi => hE e t (hA s t hs ht hi)
  | @request o k ho _ ih =>
    intro t ht hi r t' hx
    obtain rfl := hstill o t r t' ho hx
    refine ⟨hi, hguar _, wp_mono (ih r (hA s _ hs ht hi)) ?_ fun _ _ _ he => he⟩
    rintro a u - ⟨hyields, hu⟩
    exact ⟨.request r hyields, hu⟩

/-- A program stopped at any point, for instance by a crash, has kept the invariant. -/
theorem wp_steps {c c' : Program Op Res ε α × σ} (hsteps : Steps exec c c')
    (hs : P.inv c.2) (h : c.1.wp exec P i Q E c.2) :
    P.inv c'.2 ∧ c'.1.wp exec P i Q E c'.2 := by
  induction hsteps with
  | refl => exact ⟨hs, h⟩
  | step _ hexec ih =>
    obtain ⟨hi, hk⟩ := ih
    obtain ⟨hi', -, hk'⟩ := hk _ (P.rely_refl i _) hi _ _ hexec
    exact ⟨hi', hk'⟩

/-- A program that is run alone to its end satisfies its postcondition. -/
theorem wp_run {step : (o : Op) → σ → Option (Res o × σ)} {out : Except ε α} {s' : σ} (hs : P.inv s)
    (h : p.wp (Exec.ofFn step) P i Q E s) (hrun : p.run step s = some (out, s')) :
    P.inv s' ∧ (∀ a, out = .ok a → Q a s') ∧ ∀ e, out = .error e → E e s' := by
  induction p generalizing s with
  | pure a =>
    obtain ⟨rfl, rfl⟩ : Except.ok a = out ∧ s = s' := by simpa [run] using hrun
    refine ⟨hs, fun b hb => ?_, fun e he => nomatch he⟩
    obtain rfl := Except.ok.inj hb
    exact h s (P.rely_refl i s) hs
  | throw e =>
    obtain ⟨rfl, rfl⟩ : Except.error e = out ∧ s = s' := by simpa [run] using hrun
    refine ⟨hs, fun b hb => (nomatch hb), fun e' he => ?_⟩
    obtain rfl := Except.error.inj he
    exact h s (P.rely_refl i s) hs
  | request o k ih =>
    simp only [run, Option.bind_eq_some_iff] at hrun
    obtain ⟨⟨r, t⟩, hstep, hrest⟩ := hrun
    obtain ⟨hi, -, hk⟩ := h s (P.rely_refl i s) hs r t hstep
    exact ih r hi hk hrest

theorem wp_alone_of_still {inv : σ → Prop} {s : σ} (hs : inv s)
    (h : p.wp exec (.alone (· = s)) () Q E s) :
    p.wp exec (.alone inv) () (fun a t => t = s ∧ Q a s) (fun e t => t = s ∧ E e s) s := by
  induction p with
  | pure a =>
    rintro t rfl -
    exact ⟨rfl, h s rfl rfl⟩
  | throw e =>
    rintro t rfl -
    exact ⟨rfl, h s rfl rfl⟩
  | request o k ih =>
    rintro t rfl - r t' hx
    obtain ⟨rfl, -, hk⟩ := h s rfl rfl r t' hx
    exact ⟨hs, trivial, ih r hk⟩

end Rules

end Program

namespace Pool

variable [DecidableEq ι] {exec exec' : ι → Exec Op Res σ} {P : Protocol ι σ}
  {Q : ι → α → σ → Prop} {E : ι → ε → σ → Prop}

/-- The invariant holds and every call still meets its precondition. -/
def Safe (exec : ι → Exec Op Res σ) (P : Protocol ι σ) (Q : ι → α → σ → Prop)
    (E : ι → ε → σ → Prop) (c : Pool ι Op Res ε α × σ) : Prop :=
  P.inv c.2 ∧ ∀ j, (c.1 j).wp (exec j) P j (Q j) (E j) c.2

variable {c c' : Pool ι Op Res ε α × σ}

/-- One step of any call keeps all preconditions. -/
theorem wp_step {i : ι} (hstep : Step exec i c c') (hsafe : Safe exec P Q E c) :
    Safe exec P Q E c' := by
  obtain ⟨hinv, hwp⟩ := hsafe
  cases hstep with
  | @intro pool s o k r s' hpool hexec =>
    have hi : (Program.request o k).wp (exec i) P i (Q i) (E i) s := hpool ▸ hwp i
    obtain ⟨hinv', hguar, hk⟩ := hi s (P.rely_refl i s) hinv r s' hexec
    refine ⟨hinv', fun j => ?_⟩
    by_cases hij : j = i
    · subst hij
      simpa using hk
    · have hrely : P.rely j s s' := P.guar_rely (Ne.symm hij) hinv hinv' hguar
      simpa [hij] using Program.wp_rely (hwp j) hrely

/-- In every interleaving whose steps are steps of `exec'`, the invariant and all
preconditions hold in every configuration. -/
theorem wp_run {permit : Pool ι Op Res ε α × σ → ι → Prop}
    (hpermit : ∀ c i c', Safe exec' P Q E c → permit c i → Step exec i c c' → Step exec' i c c')
    (hrun : Run exec permit c c') (hsafe : Safe exec' P Q E c) : Safe exec' P Q E c' := by
  induction hrun with
  | refl => exact hsafe
  | step _ hperm hstep ih => exact wp_step (hpermit _ _ _ ih hperm hstep) ih

theorem wp_guar {i : ι} (hstep : Step exec i c c') (hsafe : Safe exec P Q E c) :
    P.inv c'.2 ∧ P.guar i c.2 c'.2 := by
  obtain ⟨hinv, hwp⟩ := hsafe
  cases hstep with
  | @intro pool s o k r s' hpool hexec =>
    have hi : (Program.request o k).wp (exec i) P i (Q i) (E i) s := hpool ▸ hwp i
    obtain ⟨hinv', hguar, -⟩ := hi s (P.rely_refl i s) hinv r s' hexec
    exact ⟨hinv', hguar⟩

/-- What every step of a call does to the state, a whole run does. -/
theorem wp_run_rel {permit : Pool ι Op Res ε α × σ → ι → Prop} {R : σ → σ → Prop}
    (hrefl : ∀ s, R s s) (htrans : ∀ {a b c}, R a b → R b c → R a c)
    (hguar : ∀ i s s', P.inv s → P.inv s' → P.guar i s s' → R s s') (hsafe : Safe exec P Q E c)
    (hrun : Run exec permit c c') : R c.2 c'.2 := by
  induction hrun with
  | refl => exact hrefl _
  | step hrun _ hstep ih =>
    have hmid : Safe exec P Q E _ := wp_run (fun _ _ _ _ _ h => h) hrun hsafe
    obtain ⟨hinv, hown⟩ := wp_guar hstep hmid
    exact htrans ih (hguar _ _ _ hmid.1 hinv hown)

omit [DecidableEq ι] in
theorem Safe.value (h : Safe exec P Q E c) {i : ι} {a : α} (hi : c.1 i = .pure a) : Q i a c.2 := by
  have hw := h.2 i
  rw [hi] at hw
  exact hw c.2 (P.rely_refl i _) h.1

omit [DecidableEq ι] in
theorem Safe.error (h : Safe exec P Q E c) {i : ι} {e : ε} (hi : c.1 i = .throw e) : E i e c.2 := by
  have hw := h.2 i
  rw [hi] at hw
  exact hw c.2 (P.rely_refl i _) h.1

end Pool

end Interleaving
