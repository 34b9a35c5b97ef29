import ChatgptSystem.Foundations.Conduct

/-!
# Traces of programs

The operations that a program has issued, each with its result.

* `Program.Runs p trace outcome` — `p` has run to its end; its rules take a composed program apart;
* `Program.Leads p trace q` — after the operations of `trace`, `q` is left of `p`;
* `traceMonitor` — rules that look at the operations so far; `Program.Leads.obeys`;
* `Pool.Run.leads` — every call of a pool has a trace, and what the shared state records of its
  operations agrees with it.
-/

namespace Interleaving

/-- An operation with its result. -/
abbrev Event (Op : Type) (Res : Op → Type) : Type := (o : Op) × Res o

variable {Op : Type} {Res : Op → Type} {ε α β : Type}

namespace Program

/-- The program issues the operations of the trace, with these results, and ends. -/
inductive Runs : Program Op Res ε α → List (Event Op Res) → Except ε α → Prop where
  | pure (a : α) : Runs (.pure a) [] (.ok a)
  | throw (e : ε) : Runs (.throw e) [] (.error e)
  | request {o : Op} {k : Res o → Program Op Res ε α} {trace outcome} (r : Res o)
      (h : Runs (k r) trace outcome) : Runs (.request o k) (⟨o, r⟩ :: trace) outcome

variable {trace : List (Event Op Res)} {outcome : Except ε α} {p : Program Op Res ε β}
  {f : β → Program Op Res ε α}

theorem Runs.of_pure {a : α} (h : Runs (.pure a) trace outcome) : trace = [] ∧ outcome = .ok a := by
  cases h
  exact ⟨rfl, rfl⟩

theorem Runs.of_throw {e : ε} (h : Runs (.throw e) trace outcome) :
    trace = [] ∧ outcome = .error e := by
  cases h
  exact ⟨rfl, rfl⟩

theorem Runs.of_request {o : Op} {k : Res o → Program Op Res ε α}
    (h : Runs (.request o k) trace outcome) :
    ∃ r rest, trace = ⟨o, r⟩ :: rest ∧ Runs (k r) rest outcome := by
  cases h with
  | request r h => exact ⟨r, _, rfl, h⟩

theorem Runs.of_ofExcept {result : Except ε α} (h : Runs (.ofExcept result) trace outcome) :
    trace = [] ∧ outcome = result := by
  cases result with
  | ok a => exact of_pure h
  | error e => exact of_throw h

theorem Runs.bind {b : β} {before after : List (Event Op Res)} (h : Runs p before (.ok b))
    (h' : Runs (f b) after outcome) : Runs (p.bind f) (before ++ after) outcome := by
  induction p generalizing before with
  | pure a =>
    cases h
    exact h'
  | throw e => cases h
  | request o k ih =>
    cases h with
    | request r h => exact .request r (ih r h)

theorem Runs.bind_error {e : ε} (h : Runs p trace (.error e)) :
    Runs (p.bind f) trace (.error e) := by
  induction p generalizing trace with
  | pure a => cases h
  | throw e' =>
    cases h
    exact .throw e
  | request o k ih =>
    cases h with
    | request r h => exact .request r (ih r h)

theorem Runs.of_bind (h : Runs (p.bind f) trace outcome) :
    (∃ e, Runs p trace (.error e) ∧ outcome = .error e) ∨
      ∃ b before after, Runs p before (.ok b) ∧ Runs (f b) after outcome ∧
        trace = before ++ after := by
  induction p generalizing trace with
  | pure b => exact .inr ⟨b, [], trace, .pure b, h, rfl⟩
  | throw e =>
    obtain ⟨rfl, rfl⟩ := of_throw h
    exact .inl ⟨e, .throw e, rfl⟩
  | request o k ih =>
    obtain ⟨r, rest, rfl, hrest⟩ := of_request h
    rcases ih r hrest with ⟨e, he, rfl⟩ | ⟨b, before, after, hb, hafter, rfl⟩
    · exact .inl ⟨e, .request r he, rfl⟩
    · exact .inr ⟨b, ⟨o, r⟩ :: before, after, .request r hb, hafter, rfl⟩

theorem Runs.of_attempt {p : Program Op Res ε α} {outcome : Except ε (Except ε α)}
    (h : Runs p.attempt trace outcome) : ∃ result, Runs p trace result ∧ outcome = .ok result := by
  induction p generalizing trace with
  | pure a =>
    obtain ⟨rfl, rfl⟩ := of_pure h
    exact ⟨_, .pure a, rfl⟩
  | throw e =>
    obtain ⟨rfl, rfl⟩ := of_pure h
    exact ⟨_, .throw e, rfl⟩
  | request o k ih =>
    obtain ⟨r, rest, rfl, hrest⟩ := of_request h
    obtain ⟨result, hresult, rfl⟩ := ih r hrest
    exact ⟨result, .request r hresult, rfl⟩

theorem Runs.of_attempt_bind {f : Except ε β → Program Op Res ε α}
    (h : Runs (p.attempt.bind f) trace outcome) :
    ∃ result before after, Runs p before result ∧ Runs (f result) after outcome ∧
      trace = before ++ after := by
  rcases of_bind h with ⟨e, he, -⟩ | ⟨result, before, after, hbefore, hafter, rfl⟩
  · obtain ⟨_, -, hresult⟩ := of_attempt he
    cases hresult
  · obtain ⟨_, hp, hresult⟩ := of_attempt hbefore
    cases hresult
    exact ⟨result, before, after, hp, hafter, rfl⟩

/-- After the operations of the trace, `q` is left of the program. -/
inductive Leads (p : Program Op Res ε α) :
    List (Event Op Res) → Program Op Res ε α → Prop where
  | refl : Leads p [] p
  | step {trace : List (Event Op Res)} {o : Op} {k : Res o → Program Op Res ε α} (r : Res o)
      (h : Leads p trace (.request o k)) : Leads p (trace ++ [⟨o, r⟩]) (k r)

theorem Leads.runs {p q : Program Op Res ε α} {rest : List (Event Op Res)} (h : Leads p trace q)
    (hq : Runs q rest outcome) : Runs p (trace ++ rest) outcome := by
  induction h generalizing rest with
  | refl => exact hq
  | @step trace o k r _ ih =>
    rw [List.append_assoc]
    exact ih (.request r hq)

theorem Leads.runs_of_outcome {p q : Program Op Res ε α} (h : Leads p trace q)
    (hq : q.outcome? = some outcome) : Runs p trace outcome := by
  rw [← List.append_nil trace]
  refine h.runs ?_
  cases q with
  | pure a =>
    cases hq
    exact .pure a
  | throw e =>
    cases hq
    exact .throw e
  | request o k => cases hq

theorem Leads.cons {o : Op} {k : Res o → Program Op Res ε α} {r : Res o} {q : Program Op Res ε α}
    (h : (k r).Leads trace q) : (Program.request o k).Leads (⟨o, r⟩ :: trace) q := by
  induction h with
  | refl => exact .step r .refl
  | step r _ ih => exact .step r ih

/-- The first operations of a program, when every operation has a fixed answer. -/
def answered (answer : (o : Op) → Res o) :
    ℕ → Program Op Res ε α → List (Event Op Res) × Program Op Res ε α
  | n + 1, .request o k =>
    let rest := answered answer n (k (answer o))
    (⟨o, answer o⟩ :: rest.1, rest.2)
  | _, p => ([], p)

theorem leads_answered (answer : (o : Op) → Res o) (n : ℕ) (p : Program Op Res ε α) :
    p.Leads (answered answer n p).1 (answered answer n p).2 := by
  induction n generalizing p with
  | zero => exact .refl
  | succ n ih =>
    cases p with
    | pure a => exact .refl
    | throw e => exact .refl
    | request o k => exact .cons (ih (k (answer o)))

theorem answer_of_mem_answered {answer : (o : Op) → Res o} {n : ℕ} {p : Program Op Res ε α}
    {event : Event Op Res} (h : event ∈ (answered answer n p).1) :
    event = ⟨event.1, answer event.1⟩ := by
  induction n generalizing p with
  | zero => cases h
  | succ n ih =>
    cases p with
    | pure a => cases h
    | throw e => cases h
    | request o k =>
      rcases List.mem_cons.mp h with rfl | h
      · rfl
      · exact ih h

end Program

/-- Rules for the operations of a program that depend on the operations so far. -/
def traceMonitor (allowed : List (Event Op Res) → Op → Prop) :
    Monitor Op Res (List (Event Op Res)) where
  allowed := allowed
  answers _ _ _ := True
  next trace o r := trace ++ [⟨o, r⟩]

/-- What a program has issued was allowed, and what is left of it keeps to the rules. -/
theorem Program.Leads.obeys {allowed : List (Event Op Res) → Op → Prop}
    {Q : α → List (Event Op Res) → Prop} {E : ε → List (Event Op Res) → Prop}
    {p q : Program Op Res ε α} {trace : List (Event Op Res)} (h : p.Leads trace q)
    (hp : p.Obeys (traceMonitor allowed) Q E []) :
    q.Obeys (traceMonitor allowed) Q E trace ∧
      ∀ before event after, trace = before ++ event :: after → allowed before event.1 := by
  induction h with
  | refl => exact ⟨hp, fun before event after h => by simp at h⟩
  | @step trace o k r _ ih =>
    obtain ⟨⟨hallowed, hrest⟩, hbefore⟩ := ih
    refine ⟨hrest r trivial, fun before event after hsplit => ?_⟩
    rcases List.eq_nil_or_concat after with rfl | ⟨after, last, rfl⟩
    · obtain ⟨rfl, hevent⟩ := List.append_inj' hsplit rfl
      obtain rfl := List.cons.inj hevent |>.1
      exact hallowed
    · rw [List.concat_eq_append, ← List.cons_append, ← List.append_assoc] at hsplit
      exact hbefore before event after (List.append_inj_left' hsplit rfl)

/-- Every call of a pool has a trace of steps. If the state records of each operation what `emitted`
says, then the record of a call is that of its trace. -/
theorem Pool.Run.leads {ι σ : Type} [DecidableEq ι] {exec : ι → Exec Op Res σ}
    {permit : Pool ι Op Res ε α × σ → ι → Prop} {view : σ → ι → List β}
    {emitted : Event Op Res → List β}
    (hview : ∀ i o s r s', exec i o s r s' →
      view s' = Function.update (view s) i (view s i ++ emitted ⟨o, r⟩))
    {c c' : Pool ι Op Res ε α × σ} (h : Pool.Run exec permit c c') (i : ι) :
    ∃ trace, (c.1 i).Leads trace (c'.1 i) ∧ view c'.2 i = view c.2 i ++ trace.flatMap emitted ∧
      ∀ event ∈ trace, ∃ s s', exec i event.1 s event.2 s' := by
  induction h with
  | refl => exact ⟨[], .refl, by simp, by simp⟩
  | @step mid c' j _ _ hstep ih =>
    obtain ⟨trace, hleads, hrecord, hgenuine⟩ := ih
    cases hstep with
    | @intro pool s o k r s' hpool hexec =>
      by_cases hij : i = j
      · subst hij
        simp only [hpool] at hleads
        refine ⟨trace ++ [⟨o, r⟩], by simpa using hleads.step r,
          by simp [hview _ _ _ _ _ hexec, hrecord, List.flatMap_append], fun event hevent => ?_⟩
        rcases List.mem_append.mp hevent with hold | hnew
        · exact hgenuine event hold
        · obtain rfl := List.mem_singleton.mp hnew
          exact ⟨s, s', hexec⟩
      · exact ⟨trace, by simpa [hij] using hleads, by simp [hview _ _ _ _ _ hexec, hij, hrecord],
          hgenuine⟩

end Interleaving
