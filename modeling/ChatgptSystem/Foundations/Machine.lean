/-!
# State machines

Code that reacts to events: calls, callbacks, timers, and what other processes do. A machine is the
function that says what each event does to a state, or that it cannot happen there.

* `Machine.Run` — a run whose events are all permitted where they happen;
* `Machine.Run.invariant` — what every event keeps, a run keeps;
* `Machine.follow`, `Machine.followIf` — runs along fixed events.
-/

/-- What each event does to a state; `none` where the event cannot happen. -/
abbrev Machine (σ ε : Type) : Type :=
  σ → ε → Option σ

namespace Machine

variable {σ ε : Type} {m : Machine σ ε} {permit : σ → ε → Prop} {s t u : σ}

/-- A run of the machine whose events are all permitted in the states in which they happen. -/
inductive Run (m : Machine σ ε) (permit : σ → ε → Prop) : σ → σ → Prop where
  | refl (s : σ) : Run m permit s s
  | step {s t u : σ} {e : ε} (h : Run m permit s t) (hpermit : permit t e) (hstep : m t e = some u) :
      Run m permit s u

theorem Run.trans (h : Run m permit s t) (h' : Run m permit t u) : Run m permit s u := by
  induction h' with
  | refl => exact h
  | step _ hpermit hstep ih => exact ih.step hpermit hstep

/-- What every permitted event keeps holds in every state of a run. -/
theorem Run.invariant {Inv : σ → Prop}
    (hkeeps : ∀ s e s', Inv s → permit s e → m s e = some s' → Inv s') (h : Run m permit s t)
    (hs : Inv s) : Inv t := by
  induction h with
  | refl => exact hs
  | step _ hpermit hstep ih => exact hkeeps _ _ _ ih hpermit hstep

def follow (m : Machine σ ε) : List ε → σ → Option σ
  | [], s => some s
  | e :: events, s => (m s e).bind (follow m events)

/-- The state after some events, if each of them passes a check. -/
def followIf (m : Machine σ ε) (check : σ → ε → Bool) : List ε → σ → Option σ
  | [], s => some s
  | e :: events, s => if check s e then (m s e).bind (followIf m check events) else none

theorem run_of_followIf {check : σ → ε → Bool} (hcheck : ∀ s e, check s e = true → permit s e) :
    ∀ (events : List ε) {s t : σ}, followIf m check events s = some t → Run m permit s t
  | [], _, _, h => Option.some.inj h ▸ .refl _
  | e :: events, s, t, h => by
      simp only [followIf] at h
      split at h
      next hpass =>
        obtain ⟨mid, hmid, hrest⟩ := Option.bind_eq_some_iff.mp h
        exact (Run.step (.refl _) (hcheck s e hpass) hmid).trans (run_of_followIf hcheck events hrest)
      next => cases h

theorem run_of_follow : ∀ (events : List ε) {s t : σ}, follow m events s = some t →
    Run m (fun _ _ => True) s t
  | [], _, _, h => Option.some.inj h ▸ .refl _
  | e :: events, s, t, h => by
      obtain ⟨mid, hmid, hrest⟩ := Option.bind_eq_some_iff.mp h
      exact (Run.step (.refl _) trivial hmid).trans (run_of_follow events hrest)

end Machine
