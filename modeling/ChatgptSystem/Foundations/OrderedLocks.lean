import ChatgptSystem.Foundations.ChainLock
import Mathlib.Data.Finset.Max
import Mathlib.Data.Finset.Range
import Mathlib.Order.Lattice

/-!
# Locks in order

Several locks that are chains of promises (`ChainLock`), taken in increasing order of their keys.

* `State.Inv.settled_of_waiting` — callers that wait only for greater keys do not wait for each other
  in a circle.
-/

namespace ChainLock.State.Inv

variable {ι K R : Type} [LinearOrder R] {s : State ι K}

/-- If the owner of every pending promise waits with it, or with a promise of a greater key, then
there is no pending promise: otherwise the owner of the oldest one of the greatest key would wait
for an older promise of that key, or for one of a greater key. -/
theorem settled_of_waiting (h : s.Inv) (rank : K → R)
    (hwaits : ∀ {me : ℕ} {t : Ticket ι K}, s.tickets[me]? = some t → t.settled = false →
      ∃ (you : ℕ) (u : Ticket ι K), s.tickets[you]? = some u ∧ u.settled = false ∧
        ¬ s.Ready u.previous ∧ (you = me ∨ rank t.key < rank u.key))
    {me : ℕ} {t : Ticket ι K} (ht : s.tickets[me]? = some t) : t.settled = true := by
  classical
  by_contra hpending
  let pending : ℕ → Prop := fun me => ∃ t : Ticket ι K, s.tickets[me]? = some t ∧ t.settled = false
  let place : ℕ → WithBot R := fun me =>
    (s.tickets[me]?.map fun t => (rank t.key : WithBot R)).getD ⊥
  have hsome : pending me := ⟨t, ht, by simpa using hpending⟩
  obtain ⟨top, htop, hmax⟩ := ((Finset.range s.tickets.length).filter pending).exists_max_image place
    ⟨me, Finset.mem_filter.mpr ⟨Finset.mem_range.mpr (lt_length ht), hsome⟩⟩
  obtain ⟨u, hu, hunset⟩ := (Finset.mem_filter.mp htop).2
  -- the oldest pending promise of that key
  have hkey : ∃ me, ∃ t : Ticket ι K, s.tickets[me]? = some t ∧ t.settled = false ∧ t.key = u.key :=
    ⟨top, u, hu, hunset, rfl⟩
  obtain ⟨v, hv, hvunset, hvkey⟩ := Nat.find_spec hkey
  have hmin := fun {m} hm => Nat.find_min (m := m) hkey hm
  generalize Nat.find hkey = oldest at *
  obtain ⟨you, w, hw, hwunset, hready, rfl | hgreater⟩ := hwaits hv hvunset
  · obtain rfl : v = w := Option.some.inj (hv.symm.trans hw)
    refine hready fun p hp => ?_
    obtain ⟨hlt, ⟨x, hx, hxkey⟩, -⟩ := h.previous_some hv hp
    refine ⟨x, hx, ?_⟩
    by_contra hxunset
    exact hmin hlt ⟨x, hx, by simpa using hxunset, hxkey.trans hvkey⟩
  · have hle := hmax you (Finset.mem_filter.mpr ⟨Finset.mem_range.mpr (lt_length hw), w, hw, hwunset⟩)
    have hle' : rank w.key ≤ rank u.key := by simpa [place, hw, hu] using hle
    rw [hvkey] at hgreater
    exact absurd hgreater (not_lt.mpr hle')

end ChainLock.State.Inv
