import ChatgptSystem.Process.ProcessSupervisor

/-!
# Idempotent starts

What the calls of `ProcessSupervisor.start` with one idempotency key promise each other.

* `RestoredRecords`, `initial` — a supervisor with the records of an earlier one;
* `settles` — what a call returns, as soon as it is decided;
* `Idempotent` — one process for a key, the same one for all calls of its request, and a conflict
  for all others;
* `Considerate` — no request comes while a call of another one is just turned away;
* `idempotent_of_run` — if all calls are considerate, every reachable state is idempotent.
-/

namespace Process

variable {D : Type}

def ManagedRecord.key (record : ManagedRecord D) : Option String :=
  record.idempotencyKey.filter (· ≠ "")

/-- Restored records: an earlier supervisor has left at most one for a key. -/
structure RestoredRecords (D : Type) where
  records : List (ManagedRecord D)
  keys : records.Pairwise fun a b => ∀ key, a.key = some key → b.key ≠ some key

/-- The promise of `startInternal` is not settled, or its `finally` has not run. -/
def StartPhase.active : StartPhase → Bool
  | .preparing _ | .spawning _ | .auditing _ | .settled _ => true
  | _ => false

/-- What is decided in a phase. The audit record does not decide about the process. -/
def StartPhase.result? : StartPhase → Option StartOutcome
  | .auditing processId => some (.ok processId)
  | .settled outcome | .returned outcome => some outcome
  | _ => none

namespace ProcessSupervisor

def initial (restored : RestoredRecords D) : ProcessSupervisor D :=
  ⟨restored.records, fun _ => none, 0, [],
    restored.records.map fun record => ⟨none, record.processId, record.key⟩⟩

def settles (s : ProcessSupervisor D) (i : ℕ) : Option StartOutcome :=
  s.calls[i]?.bind fun call =>
    match call.phase with
    | .following operation => s.calls[operation]?.bind fun call => call.phase.result?
    | phase => phase.result?

def spawnedFor (s : ProcessSupervisor D) (key : String) : List Spawn :=
  s.spawned.filter (·.key = some key)

/-! ## Keys and records -/

section Facts

variable {s s' : ProcessSupervisor D} {i j : ℕ}
  {call call' : StartCall D} {input : StartInput} {record : ManagedRecord D} {key : String}
  {phase : StartPhase}

theorem key_eq_some : input.key = some key ↔ input.idempotencyKey = some key ∧ key ≠ "" := by
  simp [StartInput.key, Option.filter_eq_some_iff]

theorem recordKey_eq_some :
    record.key = some key ↔ record.idempotencyKey = some key ∧ key ≠ "" := by
  simp [ManagedRecord.key, Option.filter_eq_some_iff]

theorem retained_eq_some (hkey : input.key = some key) (h : s.retained key = some record) :
    record ∈ s.records ∧ record.key = some key :=
  ⟨List.mem_of_find?_eq_some h,
    recordKey_eq_some.mpr ⟨by simpa using List.find?_some h, (key_eq_some.mp hkey).2⟩⟩

theorem retained_eq_none (h : s.retained key = none) : ∀ record ∈ s.records,
    record.key ≠ some key := by
  intro record hrecord hkey
  have hno := List.find?_eq_none.mp h record hrecord
  exact hno (decide_eq_true (recordKey_eq_some.mp hkey).1)

theorem reserveIn_sublist (maxManagedProcesses : ℕ) (pendingStarts : ℤ) (rounds : ℕ)
    (records : List (ManagedRecord D)) :
    (reserveIn maxManagedProcesses pendingStarts rounds records).1.Sublist records := by
  fun_induction reserveIn maxManagedProcesses pendingStarts rounds records with
  | case1 => exact .refl _
  | case2 => exact .refl _
  | case3 rounds records _ completed _ ih => exact ih.trans List.filter_sublist
  | case4 => exact .refl _

theorem reserveCapacity_sublist (maxManagedProcesses : ℕ) (pendingStarts : ℤ)
    (records : List (ManagedRecord D)) :
    (reserveCapacity maxManagedProcesses pendingStarts records).1.Sublist records :=
  reserveIn_sublist _ _ _ _

/-! ## What is decided -/

theorem settles_of_phase (h : s.calls[i]? = some call)
    (hphase : ∀ operation, call.phase ≠ .following operation) :
    s.settles i = call.phase.result? := by
  rw [settles, h, Option.bind_some]
  cases hcall : call.phase with
  | following operation => exact absurd hcall (hphase operation)
  | _ => rfl

theorem settles_of_following (h : s.calls[i]? = some call) {operation : ℕ}
    (hphase : call.phase = .following operation) :
    s.settles i = s.calls[operation]?.bind fun call => call.phase.result? := by
  rw [settles, h, Option.bind_some, hphase]

theorem not_following_of_active (h : phase.active = true) (operation : ℕ) :
    phase ≠ .following operation := by
  rintro rfl
  cases h

/-- The calls of `s'` are those of `s`, but one is in another phase. -/
def Moved (s s' : ProcessSupervisor D) (i : ℕ) (call : StartCall D) (phase : StartPhase) : Prop :=
  ∀ (j : ℕ) (call' : StartCall D), s'.calls[j]? = some call' ↔
    j = i ∧ call' = { call with phase } ∨ j ≠ i ∧ s.calls[j]? = some call'

theorem moved_setPhase (hcall : s.calls[i]? = some call) {t : ProcessSupervisor D}
    (ht : t.calls = s.calls) : Moved s (t.setPhase i call phase) i call phase := by
  intro j call'
  rw [setPhase, ht, List.getElem?_set]
  by_cases hij : i = j
  · subst hij
    have hlt := (List.getElem?_eq_some_iff.mp hcall).1
    simp [hlt, eq_comm]
  · simp [hij, Ne.symm hij]

namespace Moved

theorem self (h : Moved s s' i call phase) :
    s'.calls[i]? = some { call with phase } := (h i _).mpr (.inl ⟨rfl, rfl⟩)

theorem other (h : Moved s s' i call phase) (hj : j ≠ i) : s'.calls[j]? = s.calls[j]? := by
  refine Option.ext fun call' => (h j call').trans ?_
  simp [hj]

end Moved

end Facts

/-! ## The promises -/

variable [DecidableEq D]

/-- The promises of the idempotency keys. -/
structure Idempotent (maxManagedProcesses : ℕ) (digestArgs : List String → D)
    (s : ProcessSupervisor D) : Prop where
  /-- No process has been spawned for a key after that of a retained record. -/
  oneProcess : ∀ record ∈ s.records, ∀ key, record.key = some key →
    (s.spawnedFor key).getLast?.map (·.processId) = some record.processId
  /-- A call for the request of a retained record returns its process. -/
  retainedSame : ∀ (i : ℕ) (call : StartCall D) record, s.calls[i]? = some call →
    call.holder = some (.record record) → record.sameRequest digestArgs call.input = true →
      s.settles i = some (.ok record.processId)
  retainedOther : ∀ (i : ℕ) (call : StartCall D) record, s.calls[i]? = some call →
    call.holder = some (.record record) → record.sameRequest digestArgs call.input = false →
      s.settles i = some (.error .conflict)
  /-- A call for a request in flight returns what that one returns. -/
  inFlightSame : ∀ (i : ℕ) (call : StartCall D) existing, s.calls[i]? = some call →
    call.holder = some (.operation existing) →
    existing.sameRequest digestArgs call.input = true → s.settles i = s.settles existing.operation
  inFlightOther : ∀ (i : ℕ) (call : StartCall D) existing, s.calls[i]? = some call →
    call.holder = some (.operation existing) →
    existing.sameRequest digestArgs call.input = false → s.settles i = some (.error .conflict)
  /-- Only calls whose keys nobody has held spawn processes. -/
  spawnsNothing : ∀ spawn ∈ s.spawned, ∀ (i : ℕ) (call : StartCall D), spawn.call = some i →
    s.calls[i]? = some call → call.holder = none
  /-- A key that no record and no operation holds any more may start a process again. -/
  restarts : ∀ input key processId, input.key = some key → s.retained key = none →
    (∀ (i : ℕ) (call : StartCall D), s.calls[i]? = some call → call.input.key = some key →
      call.phase.active = false) →
    (reserveCapacity maxManagedProcesses s.pendingStarts s.records).2 = true →
    (s.start maxManagedProcesses digestArgs input processId none).calls[s.calls.length]?.map
      StartCall.phase = some (.preparing processId)

/-- A call does not ask for the process of a retained record while a call of another request, which
that record turns away, is in flight under the key. -/
def Considerate (digestArgs : List String → D) (s : ProcessSupervisor D) : StartEvent → Prop
  | .start input _ _ => ∀ key record existing, input.key = some key →
      s.retained key = some record → record.sameRequest digestArgs input = true →
      s.idempotencyInFlight key = some existing → existing.sameRequest digestArgs input = true
  | _ => True

/-! ## What holds between the events -/

/-- What a record of its key means for an operation in a phase. -/
def Compatible (digestArgs : List String → D) (input : StartInput) (record : ManagedRecord D) :
    StartPhase → Prop
  | .auditing processId | .settled (.ok processId) =>
    record.processId = processId ∧ record.sameRequest digestArgs input = true
  | .settled (.error .conflict) => record.sameRequest digestArgs input = false
  | .preparing _ | .spawning _ | .settled (.error _) => False
  | _ => True

structure KeysInv (digestArgs : List String → D) (s : ProcessSupervisor D) : Prop where
  /-- At most one record for a key. -/
  unique : ∀ record ∈ s.records, ∀ record' ∈ s.records, ∀ key, record.key = some key →
    record'.key = some key → record = record'
  oneProcess : ∀ record ∈ s.records, ∀ key, record.key = some key →
    (s.spawnedFor key).getLast?.map (·.processId) = some record.processId
  entries : ∀ key existing, s.idempotencyInFlight key = some existing →
    ∃ call : StartCall D, s.calls[existing.operation]? = some call ∧ call.input.key = some key ∧
      call.phase.active = true
  owners : ∀ (i : ℕ) (call : StartCall D) key, s.calls[i]? = some call →
    call.phase.active = true → call.input.key = some key →
      s.idempotencyInFlight key = some (entry digestArgs i call.input)
  compatible : ∀ (i : ℕ) (call : StartCall D) key record, s.calls[i]? = some call →
    call.phase.active = true → call.input.key = some key → record ∈ s.records →
      record.key = some key → Compatible digestArgs call.input record call.phase

structure CallsInv (digestArgs : List String → D) (s : ProcessSupervisor D) : Prop where
  followed : ∀ (i : ℕ) (call : StartCall D) operation, s.calls[i]? = some call →
    call.phase = .following operation → ∃ call' : StartCall D,
      s.calls[operation]? = some call' ∧ ∀ operation', call'.phase ≠ .following operation'
  retainedSame : ∀ (i : ℕ) (call : StartCall D) record, s.calls[i]? = some call →
    call.holder = some (.record record) → record.sameRequest digestArgs call.input = true →
      s.settles i = some (.ok record.processId)
  retainedOther : ∀ (i : ℕ) (call : StartCall D) record, s.calls[i]? = some call →
    call.holder = some (.record record) → record.sameRequest digestArgs call.input = false →
      s.settles i = some (.error .conflict)
  inFlightSame : ∀ (i : ℕ) (call : StartCall D) existing, s.calls[i]? = some call →
    call.holder = some (.operation existing) → existing.sameRequest digestArgs call.input = true →
      call.phase = .following existing.operation ∨
        ∃ outcome, call.phase = .returned outcome ∧ s.settles existing.operation = some outcome
  inFlightOther : ∀ (i : ℕ) (call : StartCall D) existing, s.calls[i]? = some call →
    call.holder = some (.operation existing) →
      existing.sameRequest digestArgs call.input = false → s.settles i = some (.error .conflict)

structure SpawnsInv (s : ProcessSupervisor D) : Prop where
  unheld : ∀ (i : ℕ) (call : StartCall D) processId, s.calls[i]? = some call →
    call.phase = .preparing processId ∨ call.phase = .spawning processId → call.holder = none
  spawnsNothing : ∀ spawn ∈ s.spawned, ∀ (i : ℕ), spawn.call = some i →
    ∃ call : StartCall D, s.calls[i]? = some call ∧ call.holder = none

structure Inv (digestArgs : List String → D) (s : ProcessSupervisor D) : Prop where
  keys : s.KeysInv digestArgs
  calls : s.CallsInv digestArgs
  spawns : s.SpawnsInv

/-! ## Phases -/

section Phases

variable {digestArgs : List String → D} {s s' : ProcessSupervisor D} {i j : ℕ} {call : StartCall D}
  {phase : StartPhase}

namespace Moved

theorem settles (h : Moved s s' i call phase) (hcall : s.calls[i]? = some call)
    (hs : s.CallsInv digestArgs)
    (hphase : ∀ operation, phase ≠ .following operation)
    (hresult : ∀ outcome, s.settles i = some outcome → phase.result? = some outcome)
    {outcome : StartOutcome} (hsettles : s.settles j = some outcome) :
    s'.settles j = some outcome := by
  by_cases hj : j = i
  · subst hj
    rw [settles_of_phase h.self hphase]
    exact hresult outcome hsettles
  · obtain ⟨call', hcall', -⟩ := Option.bind_eq_some_iff.mp hsettles
    by_cases hfollows : ∃ operation, call'.phase = .following operation
    · obtain ⟨operation, hoperation⟩ := hfollows
      rw [settles_of_following hcall' hoperation] at hsettles
      rw [settles_of_following ((h.other hj).trans hcall') hoperation]
      by_cases hi : operation = i
      · subst hi
        obtain ⟨followed, hfollowed, hnot⟩ := hs.followed j call' operation hcall' hoperation
        obtain rfl := Option.some.inj (hcall.symm.trans hfollowed)
        rw [h.self]
        refine hresult outcome ?_
        rw [settles_of_phase hcall hnot]
        rwa [hcall] at hsettles
      · rwa [h.other hi]
    · rw [not_exists] at hfollows
      rw [settles_of_phase hcall' hfollows] at hsettles
      rwa [settles_of_phase ((h.other hj).trans hcall') hfollows]

theorem callsInv (h : Moved s s' i call phase) (hcall : s.calls[i]? = some call)
    (hs : s.CallsInv digestArgs)
    (hphase : ∀ operation, phase ≠ .following operation)
    (hresult : ∀ outcome, s.settles i = some outcome → phase.result? = some outcome)
    (hfollows : ∀ operation, call.phase = .following operation →
      ∃ outcome, phase = .returned outcome ∧ s.settles operation = some outcome)
    (hreturned : ∀ outcome, call.phase ≠ .returned outcome) : s'.CallsInv digestArgs := by
  have hkept : ∀ {j outcome}, s.settles j = some outcome → s'.settles j = some outcome :=
    h.settles hcall hs hphase hresult
  refine ⟨?_, ?_, ?_, ?_, ?_⟩
  · intro j call' operation hcall' hoperation
    rcases (h j call').mp hcall' with ⟨rfl, rfl⟩ | ⟨hj, hold⟩
    · exact absurd hoperation (hphase operation)
    · obtain ⟨followed, hfollowed, hnot⟩ := hs.followed j call' operation hold hoperation
      by_cases hi : operation = i
      · subst hi
        exact ⟨_, h.self, hphase⟩
      · exact ⟨followed, (h.other hi).trans hfollowed, hnot⟩
  · intro j call' record hcall' hholder hsame
    rcases (h j call').mp hcall' with ⟨rfl, rfl⟩ | ⟨-, hold⟩
    · exact hkept (hs.retainedSame _ call record hcall hholder hsame)
    · exact hkept (hs.retainedSame j call' record hold hholder hsame)
  · intro j call' record hcall' hholder hother
    rcases (h j call').mp hcall' with ⟨rfl, rfl⟩ | ⟨-, hold⟩
    · exact hkept (hs.retainedOther _ call record hcall hholder hother)
    · exact hkept (hs.retainedOther j call' record hold hholder hother)
  · intro j call' existing hcall' hholder hsame
    rcases (h j call').mp hcall' with ⟨rfl, rfl⟩ | ⟨-, hold⟩
    · rcases hs.inFlightSame _ call existing hcall hholder hsame with hfollowing | ⟨o, ho, -⟩
      · obtain ⟨outcome, hreturns, hsettled⟩ := hfollows _ hfollowing
        exact .inr ⟨outcome, hreturns, hkept hsettled⟩
      · exact absurd ho (hreturned o)
    · rcases hs.inFlightSame j call' existing hold hholder hsame with hfollowing | ⟨o, ho, hsettled⟩
      · exact .inl hfollowing
      · exact .inr ⟨o, ho, hkept hsettled⟩
  · intro j call' existing hcall' hholder hother
    rcases (h j call').mp hcall' with ⟨rfl, rfl⟩ | ⟨-, hold⟩
    · exact hkept (hs.inFlightOther _ call existing hcall hholder hother)
    · exact hkept (hs.inFlightOther j call' existing hold hholder hother)

end Moved

variable {key processId : String} {t : ProcessSupervisor D} {maxManagedProcesses : ℕ}
  {input : StartInput}

theorem KeysInv.owner_unique {call' : StartCall D} (hs : s.KeysInv digestArgs)
    (hcall : s.calls[i]? = some call) (hactive : call.phase.active = true)
    (hkey : call.input.key = some key) (hcall' : s.calls[j]? = some call')
    (hactive' : call'.phase.active = true) (hkey' : call'.input.key = some key) : j = i := by
  have hentry := (hs.owners j call' key hcall' hactive' hkey').symm.trans
    (hs.owners i call key hcall hactive hkey)
  exact congrArg InFlight.operation (Option.some.inj hentry)

theorem Moved.keysInv (h : Moved s s' i call phase) (hcall : s.calls[i]? = some call)
    (hs : s.KeysInv digestArgs) (hactive : call.phase.active = true)
    (hactive' : phase.active = true) (hinFlight : s'.idempotencyInFlight = s.idempotencyInFlight)
    (hunique : ∀ record ∈ s'.records, ∀ record' ∈ s'.records, ∀ key, record.key = some key →
      record'.key = some key → record = record')
    (honeProcess : ∀ record ∈ s'.records, ∀ key, record.key = some key →
      (s'.spawnedFor key).getLast?.map (·.processId) = some record.processId)
    (hrecords : ∀ record ∈ s'.records, record ∈ s.records ∨ record.key = call.input.key)
    (hcompatible : ∀ key record, call.input.key = some key → record ∈ s'.records →
      record.key = some key → Compatible digestArgs call.input record phase) :
    s'.KeysInv digestArgs := by
  refine ⟨hunique, honeProcess, ?_, ?_, ?_⟩
  · intro key existing hexisting
    rw [hinFlight] at hexisting
    obtain ⟨call', hcall', hkey, hactive''⟩ := hs.entries key existing hexisting
    by_cases hi : existing.operation = i
    · obtain rfl : call = call' := Option.some.inj (hcall.symm.trans (hi ▸ hcall'))
      exact ⟨{ call with phase }, hi ▸ h.self, hkey, hactive'⟩
    · exact ⟨call', (h.other hi).trans hcall', hkey, hactive''⟩
  · intro j call' key hcall' hactive'' hkey
    rw [hinFlight]
    rcases (h j call').mp hcall' with ⟨rfl, rfl⟩ | ⟨-, hold⟩
    · exact hs.owners _ call key hcall hactive hkey
    · exact hs.owners j call' key hold hactive'' hkey
  · intro j call' key record hcall' hactive'' hkey hrecord hrecordKey
    rcases (h j call').mp hcall' with ⟨rfl, rfl⟩ | ⟨hj, hold⟩
    · exact hcompatible key record hkey hrecord hrecordKey
    · rcases hrecords record hrecord with hrecord | hnew
      · exact hs.compatible j call' key record hold hactive'' hkey hrecord hrecordKey
      · exact absurd (hs.owner_unique hcall hactive (hnew ▸ hrecordKey) hold hactive'' hkey) hj

omit [DecidableEq D] in
theorem Moved.spawnsInv (h : Moved s s' i call phase) (hcall : s.calls[i]? = some call)
    (hs : s.SpawnsInv)
    (hunheld : ∀ processId, phase = .preparing processId ∨ phase = .spawning processId →
      call.holder = none)
    (hspawned : ∀ spawn ∈ s'.spawned,
      spawn ∈ s.spawned ∨ spawn.call = some i ∧ call.holder = none) :
    s'.SpawnsInv := by
  constructor
  · intro j call' processId hcall' hphase
    rcases (h j call').mp hcall' with ⟨rfl, rfl⟩ | ⟨-, hold⟩
    · exact hunheld processId hphase
    · exact hs.unheld j call' processId hold hphase
  · intro spawn hspawn j hj
    rcases hspawned spawn hspawn with hold | ⟨hnew, hnone⟩
    · obtain ⟨call', hcall', hholder⟩ := hs.spawnsNothing spawn hold j hj
      by_cases hi : j = i
      · subst hi
        obtain rfl := Option.some.inj (hcall.symm.trans hcall')
        exact ⟨_, h.self, hholder⟩
      · exact ⟨call', (h.other hi).trans hcall', hholder⟩
    · obtain rfl := Option.some.inj (hj.symm.trans hnew)
      exact ⟨_, h.self, hnone⟩

theorem Inv.move (hs : s.Inv digestArgs) (hcall : s.calls[i]? = some call)
    (hactive : call.phase.active = true) (hactive' : phase.active = true)
    (ht : t = { s with pendingStarts := t.pendingStarts })
    (hresult : ∀ outcome, call.phase.result? = some outcome → phase.result? = some outcome)
    (hunheld : ∀ processId, phase = .preparing processId ∨ phase = .spawning processId →
      call.holder = none)
    (hcompatible : ∀ record, Compatible digestArgs call.input record call.phase →
      Compatible digestArgs call.input record phase) :
    (t.setPhase i call phase).Inv digestArgs := by
  have hmoved : Moved s (t.setPhase i call phase) i call phase :=
    moved_setPhase hcall (by rw [ht])
  have hnot := not_following_of_active hactive
  have hrecords : (t.setPhase i call phase).records = s.records := by rw [setPhase, ht]
  have hspawned : (t.setPhase i call phase).spawned = s.spawned := by rw [setPhase, ht]
  refine ⟨hmoved.keysInv hcall hs.keys hactive hactive' (by rw [setPhase, ht]) ?_ ?_ ?_ ?_,
    hmoved.callsInv hcall hs.calls (not_following_of_active hactive') ?_ ?_ ?_,
    hmoved.spawnsInv hcall hs.spawns hunheld fun spawn hspawn => .inl (hspawned ▸ hspawn)⟩
  · rw [hrecords]
    exact hs.keys.unique
  · intro record hrecord key hkey
    rw [spawnedFor, hspawned]
    exact hs.keys.oneProcess record (hrecords ▸ hrecord) key hkey
  · exact fun record hrecord => .inl (hrecords ▸ hrecord)
  · exact fun key record hkey hrecord hrecordKey => hcompatible record
      (hs.keys.compatible i call key record hcall hactive hkey (hrecords ▸ hrecord) hrecordKey)
  · rw [settles_of_phase hcall hnot]
    exact hresult
  · exact fun operation hoperation => absurd hoperation (hnot operation)
  · intro outcome houtcome
    rw [houtcome] at hactive
    cases hactive

omit [DecidableEq D] in
theorem getLast?_spawnedFor {spawn : Spawn} (ht : t.spawned = s.spawned ++ [spawn]) :
    (t.spawnedFor key).getLast? =
      if spawn.key = some key then some spawn else (s.spawnedFor key).getLast? := by
  rw [spawnedFor, ht, List.filter_append]
  by_cases hkey : spawn.key = some key
  · rw [if_pos hkey, List.filter_cons_of_pos (by simpa using hkey), List.filter_nil,
      List.getLast?_concat]
  · rw [if_neg hkey, List.filter_cons_of_neg (by simpa using hkey), List.filter_nil,
      List.append_nil, spawnedFor]

section

variable (hs : s.Inv digestArgs) (hcall : s.calls[i]? = some call)

include hs hcall

theorem Inv.childSpawn {hasPid : Bool} {nowMs : ℤ} (hphase : call.phase = .spawning processId) :
    (s.childSpawn digestArgs i call processId hasPid nowMs).Inv digestArgs := by
  have hactive : call.phase.active = true := by rw [hphase]; rfl
  have hnot := not_following_of_active hactive
  have hheld : call.holder = none := hs.spawns.unheld i call processId hcall (.inr hphase)
  -- the key of the call has no record yet
  have hfree : ∀ key record, call.input.key = some key → record ∈ s.records →
      record.key ≠ some key := by
    intro key record hkey hrecord hrecordKey
    have hcompatible := hs.keys.compatible i call key record hcall hactive hkey hrecord hrecordKey
    rw [hphase] at hcompatible
    exact hcompatible
  have honeProcess : ∀ {t : ProcessSupervisor D} {record : ManagedRecord D} {key : String},
      t.spawned = s.spawned ++ [⟨some i, processId, call.input.key⟩] → record ∈ s.records →
      record.key = some key →
      (t.spawnedFor key).getLast?.map (·.processId) = some record.processId := by
    intro t record key ht hrecord hkey
    rw [getLast?_spawnedFor ht, if_neg fun hcallKey => hfree key record hcallKey hrecord hkey]
    exact hs.keys.oneProcess record hrecord key hkey
  have hundecided : ∀ {phase : StartPhase} (outcome : StartOutcome), s.settles i = some outcome →
      phase.result? = some outcome := by
    intro phase outcome houtcome
    rw [settles_of_phase hcall hnot, hphase] at houtcome
    cases houtcome
  have hfollows : ∀ {phase : StartPhase} (operation : ℕ), call.phase = .following operation →
      ∃ outcome, phase = .returned outcome ∧ s.settles operation = some outcome :=
    fun operation hoperation => absurd hoperation (hnot operation)
  have hreturned : ∀ outcome, call.phase ≠ .returned outcome := by
    intro outcome houtcome
    rw [hphase] at houtcome
    cases houtcome
  have hspawns : ∀ {t : ProcessSupervisor D},
      t.spawned = s.spawned ++ [⟨some i, processId, call.input.key⟩] → ∀ spawn ∈ t.spawned,
      spawn ∈ s.spawned ∨ spawn.call = some i ∧ call.holder = none := by
    intro t ht spawn hspawn
    rw [ht] at hspawn
    rcases List.mem_append.mp hspawn with hold | hnew
    · exact .inl hold
    · exact .inr ⟨by rw [List.mem_singleton.mp hnew], hheld⟩
  cases hasPid with
  | false =>
    have hmoved : Moved s (s.childSpawn digestArgs i call processId false nowMs) i call
        (.settled (.error .noProcessIdentifier)) := moved_setPhase hcall rfl
    refine ⟨hmoved.keysInv hcall hs.keys hactive rfl rfl hs.keys.unique ?_ ?_ ?_,
      hmoved.callsInv hcall hs.calls nofun hundecided hfollows hreturned,
      hmoved.spawnsInv hcall hs.spawns nofun (hspawns rfl)⟩
    · exact fun record hrecord key hkey => honeProcess rfl hrecord hkey
    · exact fun record hrecord => .inl hrecord
    · exact fun key record hkey hrecord hrecordKey => hfree key record hkey hrecord hrecordKey
  | true =>
    have hmoved : Moved s (s.childSpawn digestArgs i call processId true nowMs) i call
        (.auditing processId) := moved_setPhase hcall rfl
    have hrecords : ∀ record ∈ (s.childSpawn digestArgs i call processId true nowMs).records,
        record ∈ s.records ∨ record = ⟨processId, call.input.command, call.input.cwd,
          digestArgs call.input.args, call.input.idempotencyKey, .running, nowMs⟩ := by
      intro record hrecord
      rcases List.mem_append.mp hrecord with hold | hnew
      · exact .inl hold
      · exact .inr (List.mem_singleton.mp hnew)
    refine ⟨hmoved.keysInv hcall hs.keys hactive rfl rfl ?_ ?_ ?_ ?_,
      hmoved.callsInv hcall hs.calls nofun hundecided hfollows hreturned,
      hmoved.spawnsInv hcall hs.spawns nofun (hspawns rfl)⟩
    · intro record hrecord record' hrecord' key hkey hkey'
      rcases hrecords record hrecord with hold | rfl <;>
        rcases hrecords record' hrecord' with hold' | rfl
      · exact hs.keys.unique record hold record' hold' key hkey hkey'
      · exact absurd hkey (hfree key record hkey' hold)
      · exact absurd hkey' (hfree key record' hkey hold')
      · rfl
    · intro record hrecord key hkey
      rcases hrecords record hrecord with hold | rfl
      · exact honeProcess rfl hold hkey
      · have hown : call.input.key = some key := hkey
        rw [getLast?_spawnedFor rfl, if_pos hown]
        rfl
    · intro record hrecord
      rcases hrecords record hrecord with hold | rfl
      · exact .inl hold
      · exact .inr rfl
    · intro key record hkey hrecord hrecordKey
      rcases hrecords record hrecord with hold | rfl
      · exact absurd hrecordKey (hfree key record hkey hold)
      · exact ⟨rfl, by simp [ManagedRecord.sameRequest]⟩

theorem Inv.release {outcome : StartOutcome} (hphase : call.phase = .settled outcome) :
    (s.release i call outcome).Inv digestArgs := by
  have hactive : call.phase.active = true := by rw [hphase]; rfl
  have hmoved : Moved s (s.release i call outcome) i call (.returned outcome) :=
    moved_setPhase hcall rfl
  have hinFlight : ∀ key, (s.release i call outcome).idempotencyInFlight key =
      if call.input.key = some key then none else s.idempotencyInFlight key := by
    intro key
    rw [ProcessSupervisor.release, setPhase]
    dsimp only
    cases hkey : call.input.key with
    | none => simp
    | some own =>
      have hown : (s.idempotencyInFlight own).any (·.operation = i) = true := by
        rw [hs.keys.owners i call own hcall hactive hkey]
        simp [entry]
      dsimp only
      rw [if_pos hown]
      by_cases hsame : key = own
      · subst hsame
        simp
      · simp [hsame, Ne.symm hsame]
  refine ⟨⟨hs.keys.unique, hs.keys.oneProcess, ?_, ?_, ?_⟩,
    hmoved.callsInv hcall hs.calls nofun ?_ ?_ ?_,
    hmoved.spawnsInv hcall hs.spawns nofun fun spawn hspawn => .inl hspawn⟩
  · intro key existing hexisting
    rw [hinFlight] at hexisting
    split at hexisting
    · cases hexisting
    next hkey =>
    obtain ⟨call', hcall', hkey', hactive'⟩ := hs.keys.entries key existing hexisting
    refine ⟨call', (hmoved.other fun hi => ?_).trans hcall', hkey', hactive'⟩
    obtain rfl := Option.some.inj (hcall.symm.trans (hi ▸ hcall'))
    exact hkey hkey'
  · intro j call' key hcall' hactive' hkey
    rcases (hmoved j call').mp hcall' with ⟨rfl, rfl⟩ | ⟨hj, hold⟩
    · cases hactive'
    · rw [hinFlight, if_neg fun hown =>
        hj (hs.keys.owner_unique hcall hactive hown hold hactive' hkey)]
      exact hs.keys.owners j call' key hold hactive' hkey
  · intro j call' key record hcall' hactive' hkey hrecord hrecordKey
    rcases (hmoved j call').mp hcall' with ⟨rfl, rfl⟩ | ⟨hj, hold⟩
    · cases hactive'
    · exact hs.keys.compatible j call' key record hold hactive' hkey hrecord hrecordKey
  · rw [settles_of_phase hcall (not_following_of_active hactive), hphase]
    exact fun _ h => h
  · exact fun operation hoperation => absurd hoperation (not_following_of_active hactive operation)
  · intro outcome houtcome
    rw [hphase] at houtcome
    cases houtcome

theorem Inv.follow {operation : ℕ} {outcome : StartOutcome}
    (hphase : call.phase = .following operation)
    (houtcome : s.calls[operation]?.map StartCall.phase = some (.returned outcome)) :
    (s.setPhase i call (.returned outcome)).Inv digestArgs := by
  have hmoved : Moved s (s.setPhase i call (.returned outcome)) i call (.returned outcome) :=
    moved_setPhase hcall rfl
  obtain ⟨call', hcall', hphase'⟩ := Option.map_eq_some_iff.mp houtcome
  have hsettles : s.settles operation = some outcome := by
    rw [settles_of_phase hcall' (by rw [hphase']; exact nofun), hphase']
    rfl
  have hinactive : ∀ {key : String} {existing : InFlight D},
      s.idempotencyInFlight key = some existing → existing.operation ≠ i := by
    rintro key existing hexisting rfl
    obtain ⟨own, hown, -, hactive⟩ := hs.keys.entries key existing hexisting
    obtain rfl := Option.some.inj (hcall.symm.trans hown)
    rw [hphase] at hactive
    cases hactive
  refine ⟨⟨hs.keys.unique, hs.keys.oneProcess, ?_, ?_, ?_⟩,
    hmoved.callsInv hcall hs.calls nofun ?_ ?_ ?_,
    hmoved.spawnsInv hcall hs.spawns nofun fun spawn hspawn => .inl hspawn⟩
  · intro key existing hexisting
    obtain ⟨own, hown, hkey, hactive⟩ := hs.keys.entries key existing hexisting
    exact ⟨own, (hmoved.other (hinactive hexisting)).trans hown, hkey, hactive⟩
  · intro j call' key hcall' hactive' hkey
    rcases (hmoved j call').mp hcall' with ⟨rfl, rfl⟩ | ⟨hj, hold⟩
    · cases hactive'
    · exact hs.keys.owners j call' key hold hactive' hkey
  · intro j call' key record hcall' hactive' hkey hrecord hrecordKey
    rcases (hmoved j call').mp hcall' with ⟨rfl, rfl⟩ | ⟨hj, hold⟩
    · cases hactive'
    · exact hs.keys.compatible j call' key record hold hactive' hkey hrecord hrecordKey
  · intro outcome' houtcome'
    rw [settles_of_following hcall hphase, hcall', Option.bind_some, hphase'] at houtcome'
    exact houtcome'
  · intro operation' hoperation'
    obtain rfl := StartPhase.following.inj (hphase.symm.trans hoperation')
    exact ⟨outcome, rfl, hsettles⟩
  · intro outcome houtcome
    rw [hphase] at houtcome
    cases houtcome

end

theorem Inv.change {state : ManagedProcessState} (hs : s.Inv digestArgs) :
    ({ s with records := s.records.map fun record =>
        if record.processId = processId then { record with state } else record } :
      ProcessSupervisor D).Inv digestArgs := by
  have hrecords : ∀ record' ∈ s.records.map fun record : ManagedRecord D =>
      if record.processId = processId then { record with state } else record,
      ∃ record ∈ s.records, record' =
        if record.processId = processId then { record with state } else record :=
    fun record' h => (List.mem_map.mp h).imp fun _ h => ⟨h.1, h.2.symm⟩
  have hsame : ∀ record : ManagedRecord D,
      (if record.processId = processId then { record with state } else record).processId =
        record.processId ∧
      (if record.processId = processId then { record with state } else record).key = record.key ∧
      ∀ input : StartInput,
        (if record.processId = processId then { record with state } else record).sameRequest
          digestArgs input = record.sameRequest digestArgs input := by
    intro record
    split <;> exact ⟨rfl, rfl, fun _ => rfl⟩
  refine ⟨⟨?_, ?_, hs.keys.entries, hs.keys.owners, ?_⟩,
    ⟨hs.calls.followed, hs.calls.retainedSame, hs.calls.retainedOther, hs.calls.inFlightSame,
      hs.calls.inFlightOther⟩, ⟨hs.spawns.unheld, hs.spawns.spawnsNothing⟩⟩
  · intro record₁ h₁ record₂ h₂ key hkey₁ hkey₂
    obtain ⟨old₁, hold₁, rfl⟩ := hrecords record₁ h₁
    obtain ⟨old₂, hold₂, rfl⟩ := hrecords record₂ h₂
    rw [(hsame _).2.1] at hkey₁ hkey₂
    rw [hs.keys.unique old₁ hold₁ old₂ hold₂ key hkey₁ hkey₂]
  · intro record h key hkey
    obtain ⟨old, hold, rfl⟩ := hrecords record h
    rw [(hsame _).2.1] at hkey
    rw [(hsame _).1]
    exact hs.keys.oneProcess old hold key hkey
  · intro j call' key record hcall' hactive hkey h hrecordKey
    obtain ⟨old, hold, rfl⟩ := hrecords record h
    rw [(hsame _).2.1] at hrecordKey
    have hcompatible := hs.keys.compatible j call' key old hcall' hactive hkey hold hrecordKey
    unfold Compatible at hcompatible ⊢
    rw [(hsame _).1, (hsame _).2.2]
    exact hcompatible

/-! ## New calls -/

/-- The calls of `s'` are those of `s` and a new one. -/
def Added (s s' : ProcessSupervisor D) (call : StartCall D) : Prop := s'.calls = s.calls ++ [call]

namespace Added

variable {new : StartCall D}

section

omit [DecidableEq D]

theorem cases (h : Added s s' new) {call' : StartCall D} (hcall' : s'.calls[j]? = some call') :
    s.calls[j]? = some call' ∨ j = s.calls.length ∧ call' = new := by
  rw [h] at hcall'
  rcases Nat.lt_trichotomy j s.calls.length with hlt | rfl | hlt
  · exact .inl (by rwa [List.getElem?_append_left hlt] at hcall')
  · exact .inr ⟨rfl, by simpa [eq_comm] using hcall'⟩
  · rw [List.getElem?_eq_none (by rw [List.length_append]; exact hlt)] at hcall'
    cases hcall'

theorem old (h : Added s s' new) (hcall : s.calls[j]? = some call) :
    s'.calls[j]? = some call := by
  rw [h, List.getElem?_append_left (List.getElem?_eq_some_iff.mp hcall).1, hcall]

theorem self (h : Added s s' new) : s'.calls[s.calls.length]? = some new := by
  rw [h]
  simp

theorem settles (h : Added s s' new) {outcome : StartOutcome}
    (hsettles : s.settles j = some outcome) : s'.settles j = some outcome := by
  obtain ⟨call, hcall, hresult⟩ := Option.bind_eq_some_iff.mp hsettles
  rw [ProcessSupervisor.settles, h.old hcall, Option.bind_some]
  cases hphase : call.phase with
  | following operation =>
    rw [hphase] at hresult
    obtain ⟨followed, hfollowed, hresult⟩ := Option.bind_eq_some_iff.mp hresult
    dsimp only
    rw [h.old hfollowed]
    exact hresult
  | _ =>
    rw [hphase] at hresult
    exact hresult

end

theorem callsInv (h : Added s s' new) (hs : s.CallsInv digestArgs)
    (hfollowed : ∀ operation, new.phase = .following operation → ∃ call' : StartCall D,
      s.calls[operation]? = some call' ∧ ∀ operation', call'.phase ≠ .following operation')
    (hretained : ∀ record, new.holder = some (.record record) → s'.settles s.calls.length =
      some (if record.sameRequest digestArgs new.input = true then .ok record.processId
        else .error .conflict))
    (hinFlight : ∀ existing, new.holder = some (.operation existing) → new.phase =
      if existing.sameRequest digestArgs new.input = true then .following existing.operation
        else .returned (.error .conflict)) : s'.CallsInv digestArgs := by
  refine ⟨?_, ?_, ?_, ?_, ?_⟩
  · intro j call' operation hcall' hphase
    rcases h.cases hcall' with hold | ⟨rfl, rfl⟩
    · obtain ⟨followed, hfollowed, hnot⟩ := hs.followed j call' operation hold hphase
      exact ⟨followed, h.old hfollowed, hnot⟩
    · obtain ⟨followed, hfollowed, hnot⟩ := hfollowed operation hphase
      exact ⟨followed, h.old hfollowed, hnot⟩
  · intro j call' record hcall' hholder hsame
    rcases h.cases hcall' with hold | ⟨rfl, rfl⟩
    · exact h.settles (hs.retainedSame j call' record hold hholder hsame)
    · rw [hretained record hholder, if_pos hsame]
  · intro j call' record hcall' hholder hother
    rcases h.cases hcall' with hold | ⟨rfl, rfl⟩
    · exact h.settles (hs.retainedOther j call' record hold hholder hother)
    · rw [hretained record hholder, if_neg (Bool.eq_false_iff.mp hother)]
  · intro j call' existing hcall' hholder hsame
    rcases h.cases hcall' with hold | ⟨rfl, rfl⟩
    · rcases hs.inFlightSame j call' existing hold hholder hsame with hfollowing | ⟨o, ho, hsettled⟩
      · exact .inl hfollowing
      · exact .inr ⟨o, ho, h.settles hsettled⟩
    · rw [hinFlight existing hholder, if_pos hsame]
      exact .inl rfl
  · intro j call' existing hcall' hholder hother
    rcases h.cases hcall' with hold | ⟨rfl, rfl⟩
    · exact h.settles (hs.inFlightOther j call' existing hold hholder hother)
    · have hphase := hinFlight existing hholder
      rw [if_neg (Bool.eq_false_iff.mp hother)] at hphase
      rw [settles_of_phase h.self (by rw [hphase]; exact nofun), hphase]
      rfl

omit [DecidableEq D] in
theorem spawnsInv (h : Added s s' new) (hs : s.SpawnsInv) (hspawned : s'.spawned = s.spawned)
    (hunheld : ∀ processId, new.phase = .preparing processId ∨ new.phase = .spawning processId →
      new.holder = none) : s'.SpawnsInv := by
  constructor
  · intro j call' processId hcall' hphase
    rcases h.cases hcall' with hold | ⟨rfl, rfl⟩
    · exact hs.unheld j call' processId hold hphase
    · exact hunheld processId hphase
  · intro spawn hspawn j hj
    obtain ⟨call', hcall', hholder⟩ := hs.spawnsNothing spawn (hspawned ▸ hspawn) j hj
    exact ⟨call', h.old hcall', hholder⟩

end Added

/-! ### A call that starts an operation -/

theorem startInternal_spec (maxManagedProcesses : ℕ) (s : ProcessSupervisor D) (input : StartInput)
    (processId : String) (fault : Option EarlyFault) {phase : StartPhase}
    (ht : s.startInternal maxManagedProcesses digestArgs input processId fault = (t, phase)) :
    t.calls = s.calls ∧ t.spawned = s.spawned ∧ t.idempotencyInFlight = s.idempotencyInFlight ∧
    t.records.Sublist s.records ∧ phase.active = true ∧
    ((∃ key record, input.key = some key ∧ s.retained key = some record ∧
        phase = .settled (if record.sameRequest digestArgs input = true then .ok record.processId
          else .error .conflict)) ∨
      (∀ key, input.key = some key → s.retained key = none) ∧
        (phase = .preparing processId ∨ phase = .settled (.error .limit) ∨
          phase = .settled (.error .failed))) := by
  rw [startInternal] at ht
  cases hbind : input.key.bind s.retained with
  | some record =>
    obtain ⟨key, hkey, hretained⟩ := Option.bind_eq_some_iff.mp hbind
    rw [hbind] at ht
    dsimp only at ht
    split at ht
    next hsame =>
      cases ht
      exact ⟨rfl, rfl, rfl, .refl _, rfl,
        .inl ⟨key, record, hkey, hretained, by rw [if_pos hsame]⟩⟩
    next hother =>
      cases ht
      exact ⟨rfl, rfl, rfl, .refl _, rfl,
        .inl ⟨key, record, hkey, hretained, by rw [if_neg hother]⟩⟩
  | none =>
    have hnone : ∀ key, input.key = some key → s.retained key = none := by
      intro key hkey
      rwa [hkey] at hbind
    have hsublist := reserveCapacity_sublist maxManagedProcesses s.pendingStarts s.records
    rw [hbind] at ht
    dsimp only at ht
    split at ht
    next records hreserve =>
      cases ht
      rw [hreserve] at hsublist
      exact ⟨rfl, rfl, rfl, hsublist, rfl, .inr ⟨hnone, .inr (.inl rfl)⟩⟩
    next records hreserve =>
      rw [hreserve] at hsublist
      split at ht
      · cases ht
        exact ⟨rfl, rfl, rfl, hsublist, rfl, .inr ⟨hnone, .inr (.inr rfl)⟩⟩
      · cases ht
        exact ⟨rfl, rfl, rfl, hsublist, rfl, .inr ⟨hnone, .inr (.inr rfl)⟩⟩
      · cases ht
        exact ⟨rfl, rfl, rfl, hsublist, rfl, .inr ⟨hnone, .inl rfl⟩⟩

theorem Inv.startFree {fault : Option EarlyFault} (hs : s.Inv digestArgs)
    (hfree : ∀ key, input.key = some key → s.idempotencyInFlight key = none) {phase : StartPhase}
    (ht : s.startInternal maxManagedProcesses digestArgs input processId fault = (t, phase))
    (hcalls : s'.calls = s.calls ++ [⟨input, phase, s.holder input⟩])
    (hspawned : s'.spawned = s.spawned) (hrecords : s'.records = t.records)
    (hinFlight : ∀ key, s'.idempotencyInFlight key = if input.key = some key then
      some (entry digestArgs s.calls.length input) else s.idempotencyInFlight key) :
    s'.Inv digestArgs := by
  obtain ⟨-, -, -, hsublist, hactive, hphase⟩ :=
    startInternal_spec maxManagedProcesses s input processId fault ht
  rw [← hrecords] at hsublist
  have hadded : Added s s' ⟨input, phase, s.holder input⟩ := hcalls
  have hnot := not_following_of_active hactive
  refine ⟨⟨?_, ?_, ?_, ?_, ?_⟩, hadded.callsInv hs.calls ?_ ?_ ?_,
    hadded.spawnsInv hs.spawns hspawned ?_⟩
  · exact fun record h record' h' =>
      hs.keys.unique record (hsublist.subset h) record' (hsublist.subset h')
  · intro record h key hkey
    rw [spawnedFor, hspawned]
    exact hs.keys.oneProcess record (hsublist.subset h) key hkey
  · intro key existing hexisting
    rw [hinFlight] at hexisting
    split at hexisting
    next hkey =>
      obtain rfl := Option.some.inj hexisting
      exact ⟨_, hadded.self, hkey, hactive⟩
    next =>
      obtain ⟨call, hcall, hkey, hactive'⟩ := hs.keys.entries key existing hexisting
      exact ⟨call, hadded.old hcall, hkey, hactive'⟩
  · intro j call key hcall hactive' hkey
    rw [hinFlight]
    rcases hadded.cases hcall with hold | ⟨rfl, rfl⟩
    · have howner := hs.keys.owners j call key hold hactive' hkey
      rw [if_neg fun hown => ?_]
      · exact howner
      · rw [hfree key hown] at howner
        cases howner
    · rw [if_pos hkey]
  · intro j call key record hcall hactive' hkey h hrecordKey
    rcases hadded.cases hcall with hold | ⟨rfl, rfl⟩
    · exact hs.keys.compatible j call key record hold hactive' hkey (hsublist.subset h) hrecordKey
    · rcases hphase with ⟨key', existing, hkey', hretained, rfl⟩ | ⟨hnone, -⟩
      · obtain rfl := Option.some.inj (hkey.symm.trans hkey')
        obtain ⟨hexisting, hexistingKey⟩ := retained_eq_some hkey hretained
        obtain rfl := hs.keys.unique record (hsublist.subset h) existing hexisting key hrecordKey
          hexistingKey
        show Compatible digestArgs input record _
        by_cases hsame : record.sameRequest digestArgs input = true
        · rw [if_pos hsame]
          exact ⟨rfl, hsame⟩
        · rw [if_neg hsame]
          exact Bool.eq_false_iff.mpr hsame
      · exact absurd hrecordKey (retained_eq_none (hnone key hkey) record (hsublist.subset h))
  · exact fun operation hoperation => absurd hoperation (hnot operation)
  · intro record hholder
    rw [settles_of_phase hadded.self hnot]
    rcases hphase with ⟨key, existing, hkey, hretained, rfl⟩ | ⟨hnone, -⟩
    · rw [holder, hkey, Option.bind_some, hretained] at hholder
      obtain rfl : existing = record := by simpa using hholder
      rfl
    · cases hkey : input.key with
      | none => rw [holder, hkey] at hholder; cases hholder
      | some key =>
        rw [holder, hkey, Option.bind_some, hnone key hkey, hfree key hkey] at hholder
        cases hholder
  · intro existing hholder
    cases hkey : input.key with
    | none => rw [holder, hkey] at hholder; cases hholder
    | some key =>
      rw [holder, hkey, Option.bind_some, hfree key hkey] at hholder
      cases hretained : s.retained key <;> rw [hretained] at hholder <;> cases hholder
  · intro id hid
    rcases hphase with ⟨_, _, _, _, rfl⟩ | ⟨hnone, -⟩
    · rcases hid with hid | hid <;> cases hid
    · cases hkey : input.key with
      | none => rw [holder, hkey]; rfl
      | some key => rw [holder, hkey, Option.bind_some, hnone key hkey, hfree key hkey]; rfl

/-! ### A call of a key in flight -/

theorem settles_of_compatible {record : ManagedRecord D} (hactive : call.phase.active = true)
    (hsame : record.sameRequest digestArgs call.input = record.sameRequest digestArgs input)
    (h : Compatible digestArgs call.input record call.phase) :
    call.phase.result? = some (if record.sameRequest digestArgs input = true then
      .ok record.processId else .error .conflict) := by
  rw [← hsame]
  cases hphase : call.phase with
  | preparing | spawning =>
    rw [hphase] at h
    exact h.elim
  | auditing processId =>
    rw [hphase] at h
    rw [if_pos h.2, h.1]
    rfl
  | settled outcome =>
    rw [hphase] at h
    cases outcome with
    | ok processId =>
      rw [if_pos h.2, h.1]
      rfl
    | error error =>
      cases error with
      | conflict =>
        rw [if_neg (Bool.eq_false_iff.mp h)]
        rfl
      | limit | failed | noProcessIdentifier => exact h.elim
  | following | returned =>
    rw [hphase] at hactive
    cases hactive

theorem sameRequest_entry {input' : StartInput} {n : ℕ} {record : ManagedRecord D}
    (h : (entry digestArgs n input').sameRequest digestArgs input = true) :
    record.sameRequest digestArgs input' = record.sameRequest digestArgs input := by
  simp only [InFlight.sameRequest, entry, Bool.and_eq_true] at h
  obtain ⟨⟨hcommand, hcwd⟩, hargs⟩ := h
  rw [ManagedRecord.sameRequest, ManagedRecord.sameRequest, of_decide_eq_true hcommand,
    of_decide_eq_true hcwd, of_decide_eq_true hargs]

theorem Inv.startInFlight {existing : InFlight D} (hs : s.Inv digestArgs)
    (hkey : input.key = some key) (hexisting : s.idempotencyInFlight key = some existing)
    (hconsiderate : ∀ record, s.retained key = some record →
      record.sameRequest digestArgs input = true → existing.sameRequest digestArgs input = true) :
    (s.addCall ⟨input, if existing.sameRequest digestArgs input = true then
      .following existing.operation else .returned (.error .conflict), s.holder input⟩).Inv
        digestArgs := by
  obtain ⟨own, hown, hownKey, hactive⟩ := hs.keys.entries key existing hexisting
  have hentry : existing = entry digestArgs existing.operation own.input :=
    Option.some.inj (hexisting.symm.trans (hs.keys.owners _ own key hown hactive hownKey))
  have hnot := not_following_of_active hactive
  have hadded : Added s _ _ := (rfl : (s.addCall ⟨input,
    if existing.sameRequest digestArgs input = true then .following existing.operation
      else .returned (.error .conflict), s.holder input⟩).calls = _)
  have hold : ∀ {j : ℕ} {call' : StartCall D}, call'.phase.active = true →
      (s.addCall ⟨input, if existing.sameRequest digestArgs input = true then
        .following existing.operation else .returned (.error .conflict),
        s.holder input⟩).calls[j]? = some call' → s.calls[j]? = some call' := by
    intro j call' hactive' hcall'
    rcases hadded.cases hcall' with hold | ⟨-, rfl⟩
    · exact hold
    · dsimp only at hactive'
      split at hactive' <;> cases hactive'
  refine ⟨⟨hs.keys.unique, hs.keys.oneProcess, ?_, ?_, ?_⟩, hadded.callsInv hs.calls ?_ ?_ ?_,
    hadded.spawnsInv hs.spawns rfl ?_⟩
  · intro key' existing' hexisting'
    obtain ⟨call', hcall', hkey', hactive'⟩ := hs.keys.entries key' existing' hexisting'
    exact ⟨call', hadded.old hcall', hkey', hactive'⟩
  · exact fun j call' key' hcall' hactive' =>
      hs.keys.owners j call' key' (hold hactive' hcall') hactive'
  · exact fun j call' key' record hcall' hactive' =>
      hs.keys.compatible j call' key' record (hold hactive' hcall') hactive'
  · intro operation hoperation
    dsimp only at hoperation
    split at hoperation
    · obtain rfl := StartPhase.following.inj hoperation
      exact ⟨own, hown, hnot⟩
    · cases hoperation
  · intro record hholder
    rw [holder, hkey, Option.bind_some] at hholder
    cases hretained : s.retained key with
    | none =>
      rw [hretained, hexisting] at hholder
      cases hholder
    | some record' =>
      rw [hretained] at hholder
      obtain rfl : record' = record := by simpa using hholder
      by_cases hsame : existing.sameRequest digestArgs input = true
      · -- the operation in flight knows the record
        obtain ⟨hrecord, hrecordKey⟩ := retained_eq_some hkey hretained
        rw [settles_of_following hadded.self (if_pos hsame), hadded.old hown, Option.bind_some]
        refine settles_of_compatible hactive (sameRequest_entry (n := existing.operation) ?_)
          (hs.keys.compatible _ own key record' hown hactive hownKey hrecord hrecordKey)
        rw [← hentry]
        exact hsame
      · rw [settles_of_phase hadded.self (by rw [if_neg hsame]; exact nofun), if_neg hsame,
          if_neg fun hrecord => hsame (hconsiderate record' hretained hrecord)]
        rfl
  · intro existing' hholder
    rw [holder, hkey, Option.bind_some] at hholder
    cases hretained : s.retained key with
    | some record =>
      rw [hretained] at hholder
      cases hholder
    | none =>
      rw [hretained, hexisting] at hholder
      obtain rfl : existing = existing' := by simpa using hholder
      rfl
  · intro processId hphase
    dsimp only at hphase
    split at hphase <;> rcases hphase with hphase | hphase <;> cases hphase

/-! ## Runs -/

theorem Inv.start {fault : Option EarlyFault} (hs : s.Inv digestArgs)
    (hconsiderate : s.Considerate digestArgs (.start input processId fault)) :
    (s.start maxManagedProcesses digestArgs input processId fault).Inv digestArgs := by
  obtain ⟨t, phase, ht⟩ : ∃ t phase,
      s.startInternal maxManagedProcesses digestArgs input processId fault = (t, phase) :=
    ⟨_, _, rfl⟩
  obtain ⟨hcalls, hspawned, hinFlight, -, -, -⟩ :=
    startInternal_spec maxManagedProcesses s input processId fault ht
  rw [ProcessSupervisor.start, ht]
  cases hkey : input.key with
  | none =>
    refine hs.startFree (by rw [hkey]; exact nofun) ht ?_ hspawned rfl fun key => ?_
    · rw [addCall, hcalls]
    · rw [hkey, if_neg (by exact nofun)]
      exact congrFun hinFlight key
  | some key =>
    dsimp only
    cases hexisting : s.idempotencyInFlight key with
    | some existing =>
      have hnext := hs.startInFlight hkey hexisting fun record hretained hsame =>
        hconsiderate key record existing hkey hretained hsame hexisting
      dsimp only
      split
      next hsame => rwa [if_pos hsame] at hnext
      next hother => rwa [if_neg hother] at hnext
    | none =>
      dsimp only
      refine hs.startFree (fun key' hkey' => ?_) ht ?_ hspawned rfl fun key' => ?_
      · obtain rfl := Option.some.inj (hkey.symm.trans hkey')
        exact hexisting
      · dsimp only
        rw [addCall, hcalls]
      · dsimp only
        rw [hkey]
        by_cases hsame : key' = key
        · subst hsame
          rw [Function.update_self, if_pos rfl]
        · rw [Function.update_of_ne hsame, if_neg fun heq => hsame (Option.some.inj heq).symm]

theorem inv_step {e : StartEvent} (hs : s.Inv digestArgs)
    (hconsiderate : s.Considerate digestArgs e)
    (hstep : supervisor maxManagedProcesses digestArgs s e = some s') : s'.Inv digestArgs := by
  cases e with
  | start input processId fault =>
    obtain rfl := Option.some.inj hstep
    exact hs.start hconsiderate
  | prepared i succeeds =>
    simp only [supervisor] at hstep
    split at hstep
    next input processId holder hcall =>
      have hheld := hs.spawns.unheld i _ processId hcall (.inl rfl)
      split at hstep
      · obtain rfl := Option.some.inj hstep
        exact hs.move hcall rfl rfl rfl nofun (fun _ _ => hheld) fun _ h => h
      · obtain rfl := Option.some.inj hstep
        exact hs.move hcall rfl rfl rfl nofun nofun fun _ h => h.elim
    next => cases hstep
  | childError i =>
    simp only [supervisor] at hstep
    split at hstep
    next input processId holder hcall =>
      obtain rfl := Option.some.inj hstep
      exact hs.move hcall rfl rfl rfl nofun nofun fun _ h => h.elim
    next => cases hstep
  | childSpawn i hasPid nowMs =>
    simp only [supervisor] at hstep
    split at hstep
    next input processId holder hcall =>
      split at hstep
      · cases hstep
      · obtain rfl := Option.some.inj hstep
        exact hs.childSpawn hcall rfl
    next => cases hstep
  | audited i =>
    simp only [supervisor] at hstep
    split at hstep
    next input processId holder hcall =>
      obtain rfl := Option.some.inj hstep
      exact hs.move hcall rfl rfl rfl (fun _ h => h) nofun fun _ h => h
    next => cases hstep
  | release i =>
    simp only [supervisor] at hstep
    split at hstep
    next input outcome holder hcall =>
      obtain rfl := Option.some.inj hstep
      exact hs.release hcall rfl
    next => cases hstep
  | follow i =>
    simp only [supervisor] at hstep
    split at hstep
    next input operation holder hcall =>
      split at hstep
      next outcome houtcome =>
        obtain rfl := Option.some.inj hstep
        exact hs.follow hcall rfl houtcome
      next => cases hstep
    next => cases hstep
  | change processId state =>
    obtain rfl := Option.some.inj hstep
    exact hs.change

theorem inv_initial (restored : RestoredRecords D) : (initial restored).Inv digestArgs := by
  have hno : ∀ {i : ℕ} {call : StartCall D}, (initial restored).calls[i]? ≠ some call := by
    intro i call h
    simp [initial] at h
  have hpairs : ∀ {records : List (ManagedRecord D)},
      (records.Pairwise fun a b => ∀ key, a.key = some key → b.key ≠ some key) →
      ∀ record ∈ records, ∀ key, record.key = some key →
        (records.filter fun other => other.key = some key) = [record] := by
    intro records hpairwise
    induction records with
    | nil => exact nofun
    | cons first records ih =>
      obtain ⟨hfirst, hrest⟩ := List.pairwise_cons.mp hpairwise
      intro record hrecord key hkey
      rcases List.mem_cons.mp hrecord with rfl | hrecord
      · rw [List.filter_cons_of_pos (by simpa using hkey), List.filter_eq_nil_iff.mpr]
        intro other hother
        simpa using hfirst other hother key hkey
      · rw [List.filter_cons_of_neg, ih hrest record hrecord key hkey]
        simpa using fun hfirstKey => hfirst record hrecord key hfirstKey hkey
  refine ⟨⟨?_, ?_, nofun, ?_, ?_⟩, ⟨?_, ?_, ?_, ?_, ?_⟩, ⟨?_, ?_⟩⟩
  · intro record hrecord record' hrecord' key hkey hkey'
    have hsingle := hpairs restored.keys record hrecord key hkey
    have hmem : record' ∈ restored.records.filter fun other => other.key = some key :=
      List.mem_filter.mpr ⟨hrecord', by simpa using hkey'⟩
    rw [hsingle] at hmem
    exact (List.mem_singleton.mp hmem).symm
  · intro record hrecord key hkey
    rw [spawnedFor, initial, List.filter_map]
    have hsingle := hpairs restored.keys record hrecord key hkey
    rw [show (fun spawn : Spawn => decide (spawn.key = some key)) ∘
      (fun record : ManagedRecord D => (⟨none, record.processId, record.key⟩ : Spawn)) =
        fun other => decide (other.key = some key) from rfl, hsingle]
    rfl
  · exact fun _ _ _ hcall => absurd hcall hno
  · exact fun _ _ _ _ hcall => absurd hcall hno
  · exact fun _ _ _ hcall => absurd hcall hno
  · exact fun _ _ _ hcall => absurd hcall hno
  · exact fun _ _ _ hcall => absurd hcall hno
  · exact fun _ _ _ hcall => absurd hcall hno
  · exact fun _ _ _ hcall => absurd hcall hno
  · exact fun _ _ _ hcall => absurd hcall hno
  · intro spawn hspawn j hj
    obtain ⟨record, -, rfl⟩ := List.mem_map.mp hspawn
    cases hj

/-! ## The theorem -/

theorem Inv.restarts (hs : s.Inv digestArgs) (hkey : input.key = some key)
    (hretained : s.retained key = none)
    (hinactive : ∀ (i : ℕ) (call : StartCall D), s.calls[i]? = some call →
      call.input.key = some key → call.phase.active = false)
    (hroom : (reserveCapacity maxManagedProcesses s.pendingStarts s.records).2 = true) :
    (s.start maxManagedProcesses digestArgs input processId none).calls[s.calls.length]?.map
      StartCall.phase = some (.preparing processId) := by
  have hfree : s.idempotencyInFlight key = none := by
    by_contra hsome
    obtain ⟨existing, hexisting⟩ := Option.ne_none_iff_exists'.mp hsome
    obtain ⟨call, hcall, hcallKey, hactive⟩ := hs.keys.entries key existing hexisting
    rw [hinactive _ call hcall hcallKey] at hactive
    cases hactive
  have hreserve : reserveCapacity maxManagedProcesses s.pendingStarts s.records =
      ((reserveCapacity maxManagedProcesses s.pendingStarts s.records).1, true) := by
    rw [← hroom]
  have hinternal : s.startInternal maxManagedProcesses digestArgs input processId none =
      ({ s with
          records := (reserveCapacity maxManagedProcesses s.pendingStarts s.records).1
          pendingStarts := s.pendingStarts + 1 }, .preparing processId) := by
    rw [startInternal, hkey, Option.bind_some, hretained, hreserve]
  rw [ProcessSupervisor.start, hinternal, hkey]
  dsimp only
  rw [hfree]
  dsimp only [addCall]
  rw [List.getElem?_concat_length]
  rfl

/-- In every run of considerate calls, the promises of the idempotency keys are kept. -/
theorem idempotent_of_run {maxManagedProcesses : ℕ} {restored : RestoredRecords D}
    (h : Machine.Run (supervisor maxManagedProcesses digestArgs) (Considerate digestArgs)
      (initial restored) s) : s.Idempotent maxManagedProcesses digestArgs := by
  have hs : s.Inv digestArgs :=
    h.invariant (fun _ _ _ ht hconsiderate hstep => inv_step ht hconsiderate hstep)
      (inv_initial restored)
  refine ⟨hs.keys.oneProcess, hs.calls.retainedSame, hs.calls.retainedOther, ?_,
    hs.calls.inFlightOther, ?_, fun input key processId => hs.restarts⟩
  · intro i call existing hcall hholder hsame
    rcases hs.calls.inFlightSame i call existing hcall hholder hsame with
      hphase | ⟨o, hphase, hsettles⟩
    · obtain ⟨call', hcall', hnot⟩ := hs.calls.followed i call _ hcall hphase
      rw [settles_of_following hcall hphase, hcall', Option.bind_some, settles_of_phase hcall' hnot]
    · rw [settles_of_phase hcall (by rw [hphase]; exact nofun), hphase, hsettles]
      rfl
  · intro spawn hspawn i call hspawnCall hcall
    obtain ⟨call', hcall', hholder⟩ := hs.spawns.spawnsNothing spawn hspawn i hspawnCall
    obtain rfl := Option.some.inj (hcall.symm.trans hcall')
    exact hholder

end Phases

/-! ## Examples -/

def requestOf (command : String) : StartInput := ⟨command, [], "/", some "key"⟩

def noRecords : RestoredRecords (List String) := ⟨[], .nil⟩

/-- The first call of a key, from the call to its `finally`. -/
def firstCall : List StartEvent :=
  [.start (requestOf "node") "first" none, .prepared 0 true, .childSpawn 0 true 0, .audited 0,
    .release 0]

def quiet (s : ProcessSupervisor (List String)) : StartEvent → Bool
  | .start input _ _ => input.key.all fun key => (s.idempotencyInFlight key).isNone
  | _ => true

theorem considerate_of_quiet (s : ProcessSupervisor (List String)) (e : StartEvent)
    (h : quiet s e = true) : s.Considerate id e := by
  cases e with
  | start input processId fault =>
    intro key record existing hkey hretained hsame hexisting
    rw [quiet, hkey, Option.all_some, hexisting] at h
    cases h
  | prepared | childError | childSpawn | audited | release | follow | change => trivial

def firstTwoCalls : List StartEvent := firstCall ++ [.start (requestOf "node") "second" none]

/-- The second call returns the process of the first one. -/
theorem idempotent_of_run_example : ∃ s : ProcessSupervisor (List String),
    Machine.followIf (supervisor 8 id) quiet firstTwoCalls (initial noRecords) = some s ∧
      s.settles 1 = some (.ok "first") ∧ s.Idempotent 8 id := by
  have hrun : Machine.Run (supervisor 8 id) (Considerate id) (initial noRecords) _ :=
    Machine.run_of_followIf considerate_of_quiet firstTwoCalls rfl
  exact ⟨_, rfl, rfl, idempotent_of_run hrun⟩

/-- After the first call two others come at once, the first of them for another request. -/
def twoAtOnce : List StartEvent :=
  firstCall ++ [.start (requestOf "python") "second" none, .start (requestOf "node") "third" none]

/-- The call for the request of the retained record fails with a conflict. -/
theorem not_idempotent_twoAtOnce : ¬ ∀ s : ProcessSupervisor (List String),
    Machine.Run (supervisor 8 id) (fun _ _ => True) (initial noRecords) s → s.Idempotent 8 id := by
  intro h
  have hs := h _ (Machine.run_of_follow twoAtOnce rfl)
  have hsettles := hs.retainedSame 2 _ _ rfl rfl (by decide)
  cases hsettles

end ProcessSupervisor

end Process
