import Mathlib.Data.List.Basic
import Mathlib.Logic.Function.Basic

/-!
# Locks as chains of promises

A lock for each key: to enter, a caller replaces the key's promise in a map by its own and waits for
the one that was there; to leave, it settles its own, and deletes it from the map if nobody has
replaced it. Each entry into the map is a ticket.

* `State` — the map and the tickets issued so far, with the operations `enqueue`, `settle` and
  `forget`;
* `State.Holds` — a caller whose ticket is not settled and that waits for nobody;
* `State.Inv` — the chain invariant, kept by the operations (`Inv.enqueue`, `Inv.settle`,
  `Inv.forget`);
* `Inv.holds_unique` — at most one ticket of a key holds its lock;
* `State.Keeps` — what the steps of other callers leave unchanged for one caller.
-/

namespace ChainLock

/-- One promise: who placed it, for which key, and the promise it waits for. -/
structure Ticket (ι K : Type) where
  owner : ι
  key : K
  previous : Option ℕ
  settled : Bool

/-- The map from keys to promises, and all promises placed so far, numbered in order. -/
structure State (ι K : Type) where
  queues : K → Option ℕ
  tickets : List (Ticket ι K)

namespace State

variable {ι K : Type}

/-- No promise has been placed yet. -/
def empty : State ι K := ⟨fun _ => none, []⟩

/-- The promise `me` is settled. -/
def Settled (s : State ι K) (me : ℕ) : Prop :=
  ∃ t, s.tickets[me]? = some t ∧ t.settled = true

/-- There is nothing left to wait for: `queues.get(key) ?? Promise.resolve()` is settled. -/
def Ready (s : State ι K) (previous : Option ℕ) : Prop :=
  ∀ p, previous = some p → s.Settled p

instance (s : State ι K) (me : ℕ) : Decidable (s.Settled me) :=
  match h : s.tickets[me]? with
  | none => isFalse (by rintro ⟨t, ht, -⟩; rw [h] at ht; cases ht)
  | some t =>
    if hset : t.settled = true then isTrue ⟨t, h, hset⟩
    else isFalse (by rintro ⟨t', ht, hs⟩; rw [h] at ht; cases ht; exact hset hs)

instance (s : State ι K) (previous : Option ℕ) : Decidable (s.Ready previous) :=
  match previous with
  | none => isTrue fun _ h => by cases h
  | some p => decidable_of_iff (s.Settled p) (by simp [Ready])

section Operations

variable [DecidableEq K]

/-- Place a promise for the key. -/
def enqueue (s : State ι K) (i : ι) (k : K) : State ι K where
  queues := Function.update s.queues k (some s.tickets.length)
  tickets := s.tickets ++ [⟨i, k, s.queues k, false⟩]

def settle (s : State ι K) (me : ℕ) : State ι K :=
  { s with tickets := s.tickets.modify me fun t => { t with settled := true } }

/-- Delete the promise of the key if it is still `me`. -/
def forget (s : State ι K) (k : K) (me : ℕ) : State ι K :=
  if s.queues k = some me then { s with queues := Function.update s.queues k none } else s

end Operations

/-- The call `i` is inside the lock of `k` with the promise `me`. -/
def Holds (s : State ι K) (i : ι) (k : K) (me : ℕ) : Prop :=
  ∃ t, s.tickets[me]? = some t ∧ t.owner = i ∧ t.key = k ∧ t.settled = false ∧ s.Ready t.previous

/-- The chain invariant. Promises of a key are settled in the order they were placed, each waits
for the one placed before it, and the map holds the last one unless all are settled. -/
structure Inv (s : State ι K) : Prop where
  last : ∀ {k : K} {p : ℕ}, s.queues k = some p →
    ∀ {i : ℕ} {t : Ticket ι K}, s.tickets[i]? = some t → t.key = k → i ≤ p
  none_settled : ∀ {k : K}, s.queues k = none →
    ∀ {i : ℕ} {t : Ticket ι K}, s.tickets[i]? = some t → t.key = k → t.settled = true
  placed : ∀ {k : K} {p : ℕ}, s.queues k = some p →
    ∃ t : Ticket ι K, s.tickets[p]? = some t ∧ t.key = k
  previous_none : ∀ {i : ℕ} {t : Ticket ι K}, s.tickets[i]? = some t → t.previous = none →
    ∀ {j : ℕ} {u : Ticket ι K}, s.tickets[j]? = some u → u.key = t.key → j < i → u.settled = true
  previous_some : ∀ {i p : ℕ} {t : Ticket ι K}, s.tickets[i]? = some t → t.previous = some p →
    p < i ∧ (∃ u : Ticket ι K, s.tickets[p]? = some u ∧ u.key = t.key) ∧
      ∀ {j : ℕ} {u : Ticket ι K}, s.tickets[j]? = some u → u.key = t.key → j < i → j ≤ p
  ordered : ∀ {i j : ℕ} {t u : Ticket ι K}, s.tickets[i]? = some t → s.tickets[j]? = some u →
    u.key = t.key → j < i → t.settled = true → u.settled = true

namespace Inv

variable {s : State ι K}

theorem empty : (State.empty : State ι K).Inv := by
  constructor <;> simp [State.empty]

theorem settled_before (h : s.Inv) {i j : ℕ} {t u : Ticket ι K} (ht : s.tickets[i]? = some t)
    (hready : s.Ready t.previous) (hu : s.tickets[j]? = some u) (hkey : u.key = t.key)
    (hlt : j < i) : u.settled = true := by
  cases hprev : t.previous with
  | none => exact h.previous_none ht hprev hu hkey hlt
  | some p =>
    obtain ⟨-, ⟨v, hv, hvkey⟩, hbound⟩ := h.previous_some ht hprev
    obtain ⟨v', hv', hset⟩ := hready p hprev
    obtain rfl : v = v' := Option.some.inj (hv.symm.trans hv')
    rcases Nat.lt_or_eq_of_le (hbound hu hkey hlt) with hjp | rfl
    · exact h.ordered hv hu (hkey.trans hvkey.symm) hjp hset
    · obtain rfl : u = v := Option.some.inj (hu.symm.trans hv)
      exact hset

/-- At most one promise of a key is inside its lock. -/
theorem holds_unique (h : s.Inv) {i j : ι} {k : K} {me you : ℕ} (hi : s.Holds i k me)
    (hj : s.Holds j k you) : me = you := by
  obtain ⟨t, ht, -, htk, htset, htready⟩ := hi
  obtain ⟨u, hu, -, huk, huset, huready⟩ := hj
  rcases Nat.lt_trichotomy me you with hlt | heq | hlt
  · have := h.settled_before hu huready ht (htk.trans huk.symm) hlt
    rw [htset] at this
    cases this
  · exact heq
  · have := h.settled_before ht htready hu (huk.trans htk.symm) hlt
    rw [huset] at this
    cases this

theorem owner_unique (h : s.Inv) {i j : ι} {k : K} {me you : ℕ} (hi : s.Holds i k me)
    (hj : s.Holds j k you) : i = j := by
  obtain rfl := h.holds_unique hi hj
  obtain ⟨t, ht, rfl, -⟩ := hi
  obtain ⟨u, hu, rfl, -⟩ := hj
  rw [Option.some.inj (ht.symm.trans hu)]

end Inv

section Steps

variable [DecidableEq K] {s : State ι K}

variable {t : Ticket ι K}

theorem getElem?_enqueue {s : State ι K} {i : ι} {k : K} {j : ℕ}
    (h : (s.enqueue i k).tickets[j]? = some t) :
    s.tickets[j]? = some t ∨ j = s.tickets.length ∧ t = ⟨i, k, s.queues k, false⟩ := by
  rcases Nat.lt_or_ge j s.tickets.length with hlt | hge
  · left
    rwa [enqueue, List.getElem?_append_left hlt] at h
  · right
    rw [enqueue, List.getElem?_append_right hge, List.getElem?_singleton] at h
    split at h
    next heq => exact ⟨by omega, (Option.some.inj h).symm⟩
    next => cases h

theorem getElem?_enqueue_of_some {i : ι} {k : K} {j : ℕ} (h : s.tickets[j]? = some t) :
    (s.enqueue i k).tickets[j]? = some t := by
  obtain ⟨hlt, -⟩ := List.getElem?_eq_some_iff.mp h
  rw [enqueue, List.getElem?_append_left hlt, h]

omit [DecidableEq K] in
theorem lt_length {j : ℕ} (h : s.tickets[j]? = some t) :
    j < s.tickets.length := (List.getElem?_eq_some_iff.mp h).1

theorem Inv.enqueue (h : s.Inv) (i : ι) (k : K) : (s.enqueue i k).Inv where
  last := by
    intro k' p hp j t ht hkey
    by_cases hk : k' = k
    · subst hk
      obtain rfl : s.tickets.length = p := by simpa [State.enqueue] using hp
      rcases getElem?_enqueue ht with hold | ⟨rfl, -⟩
      · exact Nat.le_of_lt (lt_length hold)
      · exact Nat.le_refl _
    · have hp' : s.queues k' = some p := by simpa [State.enqueue, hk] using hp
      rcases getElem?_enqueue ht with hold | ⟨-, rfl⟩
      · exact h.last hp' hold hkey
      · exact absurd hkey.symm hk
  none_settled := by
    intro k' hnone j t ht hkey
    by_cases hk : k' = k
    · subst hk
      simp [State.enqueue] at hnone
    · have hnone' : s.queues k' = none := by simpa [State.enqueue, hk] using hnone
      rcases getElem?_enqueue ht with hold | ⟨-, rfl⟩
      · exact h.none_settled hnone' hold hkey
      · exact absurd hkey.symm hk
  placed := by
    intro k' p hp
    by_cases hk : k' = k
    · subst hk
      obtain rfl : s.tickets.length = p := by simpa [State.enqueue] using hp
      exact ⟨⟨i, k', s.queues k', false⟩, by simp [State.enqueue], rfl⟩
    · have hp' : s.queues k' = some p := by simpa [State.enqueue, hk] using hp
      obtain ⟨t, ht, hkey⟩ := h.placed hp'
      exact ⟨t, getElem?_enqueue_of_some ht, hkey⟩
  previous_none := by
    intro j t ht hprev j' u hu hkey hlt
    rcases getElem?_enqueue ht with hold | ⟨rfl, rfl⟩
    · rcases getElem?_enqueue hu with hold' | ⟨rfl, -⟩
      · exact h.previous_none hold hprev hold' hkey hlt
      · exact absurd (lt_length hold) (by omega)
    · rcases getElem?_enqueue hu with hold' | ⟨rfl, -⟩
      · exact h.none_settled hprev hold' hkey
      · exact absurd hlt (Nat.lt_irrefl _)
  previous_some := by
    intro j p t ht hprev
    rcases getElem?_enqueue ht with hold | ⟨rfl, rfl⟩
    · obtain ⟨hlt, ⟨u, hu, hkey⟩, hbound⟩ := h.previous_some hold hprev
      refine ⟨hlt, ⟨u, getElem?_enqueue_of_some hu, hkey⟩, fun {j' v} hv hvk hlt' => ?_⟩
      rcases getElem?_enqueue hv with hold' | ⟨rfl, -⟩
      · exact hbound hold' hvk hlt'
      · exact absurd (lt_length hold) (by omega)
    · -- the new promise waits for the one in the map
      obtain ⟨u, hu, hkey⟩ := h.placed hprev
      refine ⟨lt_length hu, ⟨u, getElem?_enqueue_of_some hu, hkey⟩, fun {j' v} hv hvk hlt' => ?_⟩
      rcases getElem?_enqueue hv with hold' | ⟨rfl, -⟩
      · exact h.last hprev hold' hvk
      · exact absurd hlt' (Nat.lt_irrefl _)
  ordered := by
    intro j j' t u ht hu hkey hlt hset
    rcases getElem?_enqueue ht with hold | ⟨rfl, rfl⟩
    · rcases getElem?_enqueue hu with hold' | ⟨rfl, -⟩
      · exact h.ordered hold hold' hkey hlt hset
      · exact absurd (lt_length hold) (by omega)
    · cases hset

omit [DecidableEq K] in
theorem getElem?_settle {me j : ℕ} :
    (s.settle me).tickets[j]? = some t ↔
      ∃ u, s.tickets[j]? = some u ∧ t = if me = j then { u with settled := true } else u := by
  rw [settle, List.getElem?_modify]
  cases hj : s.tickets[j]? with
  | none => simp
  | some u => by_cases hme : me = j <;> simp [hme, eq_comm]

omit [DecidableEq K] in
/-- Only the holder of a lock settles its promise. -/
theorem Inv.settle (h : s.Inv) {i : ι} {k : K} {me : ℕ} (hme : s.Holds i k me) :
    (s.settle me).Inv := by
  have hold : ∀ {j : ℕ} {t : Ticket ι K}, (s.settle me).tickets[j]? = some t →
      ∃ u, s.tickets[j]? = some u ∧ t.key = u.key ∧ t.previous = u.previous ∧
        (u.settled = true → t.settled = true) ∧ (j ≠ me → t = u) := by
    intro j t ht
    obtain ⟨u, hu, rfl⟩ := getElem?_settle.mp ht
    refine ⟨u, hu, ?_⟩
    by_cases hj : me = j
    · subst hj
      simp
    · simp [hj]
  constructor
  · intro k' p hp j t ht hkey
    obtain ⟨u, hu, hk, -⟩ := hold ht
    exact h.last hp hu (hk.symm.trans hkey)
  · intro k' hnone j t ht hkey
    obtain ⟨u, hu, hk, -, hset, -⟩ := hold ht
    exact hset (h.none_settled hnone hu (hk.symm.trans hkey))
  · intro k' p hp
    obtain ⟨t, ht, hkey⟩ := h.placed hp
    exact ⟨_, getElem?_settle.mpr ⟨t, ht, rfl⟩, by split <;> exact hkey⟩
  · intro j t ht hprev j' u hu hkey hlt
    obtain ⟨t', ht', htk, htp, -⟩ := hold ht
    obtain ⟨u', hu', huk, -, hset, -⟩ := hold hu
    exact hset (h.previous_none ht' (htp ▸ hprev) hu' (by rw [← huk, hkey, htk]) hlt)
  · intro j p t ht hprev
    obtain ⟨t', ht', htk, htp, -⟩ := hold ht
    obtain ⟨hlt, ⟨v, hv, hvk⟩, hbound⟩ := h.previous_some ht' (htp ▸ hprev)
    refine ⟨hlt, ⟨_, getElem?_settle.mpr ⟨v, hv, rfl⟩, ?_⟩, fun {j' u} hu huk hlt' => ?_⟩
    · split <;> simp [hvk, htk]
    · obtain ⟨u', hu', huk', -⟩ := hold hu
      exact hbound hu' (by rw [← huk', huk, htk]) hlt'
  · intro j j' t u ht hu hkey hlt hset
    obtain ⟨t', ht', htk, -, -, htne⟩ := hold ht
    obtain ⟨u', hu', huk, -, huset, -⟩ := hold hu
    have hkey' : u'.key = t'.key := by rw [← huk, hkey, htk]
    by_cases hj : j = me
    · -- the settled promise waited for everyone before it
      subst hj
      obtain ⟨v, hv, -, -, -, hready⟩ := hme
      obtain rfl : t' = v := Option.some.inj (ht'.symm.trans hv)
      exact huset (h.settled_before hv hready hu' hkey' hlt)
    · rw [htne hj] at hset
      exact huset (h.ordered ht' hu' hkey' hlt hset)

/-- A settled promise may be deleted. -/
theorem Inv.forget (h : s.Inv) {k : K} {me : ℕ} (hme : s.Settled me) :
    (s.forget k me).Inv := by
  unfold State.forget
  split
  next hq =>
    obtain ⟨t₀, ht₀, hset₀⟩ := hme
    have hk₀ : t₀.key = k := by
      obtain ⟨t, ht, hkey⟩ := h.placed hq
      rwa [Option.some.inj (ht₀.symm.trans ht)]
    have hq' : ∀ {k' p}, Function.update s.queues k none k' = some p → s.queues k' = some p := by
      intro k' p hp
      by_cases hk : k' = k
      · subst hk
        simp at hp
      · simpa [hk] using hp
    refine ⟨fun hp => h.last (hq' hp), ?_, fun hp => h.placed (hq' hp), h.previous_none,
      h.previous_some, h.ordered⟩
    intro k' hnone j t ht hkey
    by_cases hk : k' = k
    · -- the deleted promise was the last one and is settled, so all are
      subst hk
      rcases Nat.lt_or_eq_of_le (h.last hq ht hkey) with hlt | rfl
      · exact h.ordered ht₀ ht (hkey.trans hk₀.symm) hlt hset₀
      · rwa [Option.some.inj (ht.symm.trans ht₀)]
    · exact h.none_settled (by simpa [hk] using hnone) ht hkey
  next => exact h

end Steps

/-! ## What one caller leaves to another -/

/-- The promises of `j` stay as they are, and settled promises stay settled. -/
structure Keeps (j : ι) (s s' : State ι K) : Prop where
  own : ∀ {me : ℕ} {t : Ticket ι K}, s.tickets[me]? = some t → t.owner = j →
    s'.tickets[me]? = some t
  settled : ∀ {p}, s.Settled p → s'.Settled p

namespace Keeps

variable {j : ι} {s s' s'' : State ι K}

theorem refl (j : ι) (s : State ι K) : Keeps j s s := ⟨fun h _ => h, id⟩

theorem trans (h : Keeps j s s') (h' : Keeps j s' s'') : Keeps j s s'' :=
  ⟨fun ht hj => h'.own (h.own ht hj) hj, fun hp => h'.settled (h.settled hp)⟩

theorem ready (h : Keeps j s s') {previous : Option ℕ} (hr : s.Ready previous) :
    s'.Ready previous := fun p hp => h.settled (hr p hp)

theorem holds (h : Keeps j s s') {k : K} {me : ℕ} (hh : s.Holds j k me) : s'.Holds j k me := by
  obtain ⟨t, ht, hj, hk, hset, hr⟩ := hh
  exact ⟨t, h.own ht hj, hj, hk, hset, h.ready hr⟩

variable [DecidableEq K]

theorem enqueue (j i : ι) (s : State ι K) (k : K) : Keeps j s (s.enqueue i k) where
  own ht _ := getElem?_enqueue_of_some ht
  settled := fun ⟨t, ht, hset⟩ => ⟨t, getElem?_enqueue_of_some ht, hset⟩

omit [DecidableEq K] in
theorem settle {s : State ι K} {me : ℕ}
    (hme : ∀ {t : Ticket ι K}, s.tickets[me]? = some t → t.owner ≠ j) :
    Keeps j s (s.settle me) where
  own := by
    intro you t ht hj
    refine getElem?_settle.mpr ⟨t, ht, ?_⟩
    rw [if_neg]
    rintro rfl
    exact hme ht hj
  settled := by
    rintro p ⟨t, ht, hset⟩
    exact ⟨_, getElem?_settle.mpr ⟨t, ht, rfl⟩, by split <;> simp [hset]⟩

theorem forget (j : ι) (s : State ι K) (k : K) (me : ℕ) : Keeps j s (s.forget k me) := by
  unfold State.forget
  split
  · exact ⟨fun h _ => h, id⟩
  · exact refl j s

end Keeps

section Holds

variable {s s' : State ι K} {i : ι} {k k' : K} {me you : ℕ}

theorem Holds.mono (h : s.Holds i k me)
    (hme : ∀ {t : Ticket ι K}, s.tickets[me]? = some t → s'.tickets[me]? = some t)
    (hset : ∀ {p}, s.Settled p → s'.Settled p) : s'.Holds i k me := by
  obtain ⟨t, ht, hi, hk, hunset, hready⟩ := h
  exact ⟨t, hme ht, hi, hk, hunset, fun p hp => hset (hready p hp)⟩

theorem Holds.key_eq (h : s.Holds i k me) {t : Ticket ι K} (ht : s.tickets[me]? = some t) :
    t.key = k := by
  obtain ⟨u, hu, -, hk, -⟩ := h
  rw [Option.some.inj (ht.symm.trans hu), hk]

theorem Holds.lt_length (h : s.Holds i k me) : me < s.tickets.length := by
  obtain ⟨t, ht, -⟩ := h
  exact State.lt_length ht

/-- A lock is kept while another one is released. -/
theorem Holds.settle (h : s.Holds i k me) (hne : you ≠ me) : (s.settle you).Holds i k me := by
  refine h.mono (fun ht => getElem?_settle.mpr ⟨_, ht, (if_neg hne).symm⟩) ?_
  rintro p ⟨t, ht, hset⟩
  exact ⟨_, getElem?_settle.mpr ⟨t, ht, rfl⟩, by split <;> simp [hset]⟩

variable [DecidableEq K]

/-- A lock is kept while another one is requested. -/
theorem Holds.enqueue (h : s.Holds i k me) : (s.enqueue i k').Holds i k me :=
  h.mono getElem?_enqueue_of_some fun ⟨t, ht, hset⟩ => ⟨t, getElem?_enqueue_of_some ht, hset⟩

theorem Holds.forget (h : s.Holds i k me) : (s.forget k' you).Holds i k me := by
  unfold State.forget
  split
  · exact h.mono id id
  · exact h

end Holds

theorem getElem?_enqueue_self [DecidableEq K] (s : State ι K) (i : ι) (k : K) :
    (s.enqueue i k).tickets[s.tickets.length]? = some ⟨i, k, s.queues k, false⟩ := by
  simp [enqueue]

theorem settled_settle {s : State ι K} {me : ℕ} {t : Ticket ι K} (h : s.tickets[me]? = some t) :
    (s.settle me).Settled me :=
  ⟨{ t with settled := true }, getElem?_settle.mpr ⟨t, h, by simp⟩, rfl⟩

end State

end ChainLock
