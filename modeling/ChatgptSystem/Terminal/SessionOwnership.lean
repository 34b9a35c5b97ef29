import ChatgptSystem.Terminal.TerminalSessionSupervisor

/-!
# Ownership of terminal sessions

Which ptys a supervisor answers for, and when they are gone.

* `Owned` — every running pty belongs to a session in the map or to a call of `open` in progress,
  none runs once a `close` has succeeded, and the map stays within its capacity;
* `Kept` — what an event leaves of the sessions: one that has ended stays as it is;
* `Orderly` — what `open` and `close` rely on: no pty is spawned once the supervisor is closing, none
  waits for its registration when `close` is called, and an unused identifier is found;
* `owned_of_orderly` — orderly runs keep both; `unowned_of_run` shows two others.
-/

namespace Terminal

open SupervisorState

/-! ## What is kept -/

structure TerminalSessionRecord.Kept (record record' : TerminalSessionRecord) : Prop where
  sessionId : record'.sessionId = record.sessionId
  pty : record'.pty = record.pty
  ended : record.state ≠ .running → record'.state = record.state ∧
    record'.exitedAtMs = record.exitedAtMs ∧ record'.exitCode = record.exitCode ∧
      record'.signal = record.signal

/-- Sessions and attempts are not lost, and no session comes back. -/
structure Kept (s s' : SupervisorState) : Prop where
  sessions : ∀ {n : ℕ} {record : TerminalSessionRecord}, s.sessions[n]? = some record →
    ∃ record', s'.sessions[n]? = some record' ∧ record.Kept record'
  attempts : ∀ {a n : ℕ} {stage : AttemptStage}, s.attempts[a]? = some ⟨n, stage⟩ →
    ∃ stage', s'.attempts[a]? = some ⟨n, stage'⟩

/-- Whether a call of `open` has its pty and has not gone on. -/
def OpenCall.isSpawned : OpenCall → Bool
  | .spawned _ _ => true
  | _ => false

/-- What `open` and `close` rely on. -/
def Orderly (s : SupervisorState) : SupervisorEvent → Prop
  | .spawns _ => s.closing = false
  | .finishOpen _ _ newSessionId => ∃ i < 8, s.has (newSessionId i) = false
  | .close _ _ => ∀ call ∈ s.opens, call.isSpawned = false
  | _ => True

instance (s : SupervisorState) : DecidablePred (Orderly s)
  | .spawns _ => inferInstanceAs (Decidable (_ = _))
  | .finishOpen _ _ newSessionId =>
    inferInstanceAs (Decidable (∃ i < 8, s.has (newSessionId i) = false))
  | .close _ _ => inferInstanceAs (Decidable (∀ call ∈ s.opens, call.isSpawned = false))
  | .openSession _ | .spawnFails _ | .write _ _ | .resize _ _ | .data _ _ | .dies _ | .exits _ _ _
  | .stop _ _ _ | .afterGrace _ _ _ _ | .afterClosed _ | .forgetAttempt _ | .closed _ _ => .isTrue trivial

structure Owned (options : TerminalSessionSupervisorOptions) (s : SupervisorState) : Prop where
  /-- A pty that runs is that of a running session in the map, or of an `open` in progress. -/
  registered : ∀ {pty : ℕ}, s.Alive pty →
    (∃ n ∈ s.records, ∃ record, s.sessions[n]? = some record ∧ record.pty = pty ∧
      record.state = .running) ∨ ∃ input, .spawned input pty ∈ s.opens
  /-- Once a `close` has succeeded, no pty runs. -/
  closed : ∀ {call : CloseCall}, call ∈ s.closes → call.succeeded = some true →
    ∀ pty, ¬ s.Alive pty
  /-- A session whose termination has succeeded has ended, and so has its pty. -/
  terminated : ∀ {a n : ℕ}, s.attempts[a]? = some ⟨n, .resolved⟩ →
    ∃ record, s.sessions[n]? = some record ∧ record.state ≠ .running ∧ ¬ s.Alive record.pty
  capacity : s.records.length + s.pendingStarts ≤ options.maxSessions

namespace TerminalSessionRecord.Kept

variable {record record' record'' : TerminalSessionRecord}

theorem refl (record : TerminalSessionRecord) : record.Kept record :=
  ⟨rfl, rfl, fun _ => ⟨rfl, rfl, rfl, rfl⟩⟩

theorem trans (h : record.Kept record') (h' : record'.Kept record'') : record.Kept record'' := by
  refine ⟨h'.sessionId.trans h.sessionId, h'.pty.trans h.pty, fun hended => ?_⟩
  obtain ⟨hstate, hat, hcode, hsignal⟩ := h.ended hended
  obtain ⟨hstate', hat', hcode', hsignal'⟩ := h'.ended (hstate ▸ hended)
  exact ⟨hstate'.trans hstate, hat'.trans hat, hcode'.trans hcode, hsignal'.trans hsignal⟩

theorem of_running (hid : record'.sessionId = record.sessionId) (hpty : record'.pty = record.pty)
    (hrunning : record.state = .running) : record.Kept record' :=
  ⟨hid, hpty, fun hended => absurd hrunning hended⟩

theorem running (h : record.Kept record') (hrunning : record'.state = .running) :
    record.state = .running := by
  by_contra hended
  exact hended ((h.ended hended).1 ▸ hrunning)

end TerminalSessionRecord.Kept

namespace Kept

variable {s s' s'' : SupervisorState}

theorem refl (s : SupervisorState) : Kept s s :=
  ⟨fun h => ⟨_, h, .refl _⟩, fun h => ⟨_, h⟩⟩

theorem trans (h : Kept s s') (h' : Kept s' s'') : Kept s s'' := by
  refine ⟨fun hrecord => ?_, fun hattempt => ?_⟩
  · obtain ⟨record', hrecord', hkept⟩ := h.sessions hrecord
    obtain ⟨record'', hrecord'', hkept'⟩ := h'.sessions hrecord'
    exact ⟨record'', hrecord'', hkept.trans hkept'⟩
  · obtain ⟨stage', hattempt'⟩ := h.attempts hattempt
    exact h'.attempts hattempt'

theorem of_append {sessions : List TerminalSessionRecord} {attempts : List TerminationAttempt}
    (hsessions : s'.sessions = s.sessions ++ sessions)
    (hattempts : s'.attempts = s.attempts ++ attempts) : Kept s s' :=
  ⟨fun h => ⟨_, hsessions ▸ List.getElem?_append_left (List.getElem?_eq_some_iff.mp h).1 ▸ h,
      .refl _⟩,
    fun h => ⟨_, hattempts ▸ List.getElem?_append_left (List.getElem?_eq_some_iff.mp h).1 ▸ h⟩⟩

end Kept

variable {s : SupervisorState}

theorem isRunning_iff {n : ℕ} :
    s.isRunning n = true ↔ ∃ record, s.sessions[n]? = some record ∧ record.state = .running := by
  simp [isRunning, Option.any_eq_true]

theorem getElem?_modify {n m : ℕ} {f : TerminalSessionRecord → TerminalSessionRecord} :
    (s.modify n f).sessions[m]? = if n = m then s.sessions[m]?.map f else s.sessions[m]? := by
  simp only [SupervisorState.modify, List.getElem?_modify]
  split <;> simp

theorem getElem?_setAttempt {a b : ℕ} {stage : AttemptStage} :
    (s.setAttempt a stage).attempts[b]? =
      if a = b then s.attempts[b]?.map fun attempt => { attempt with stage } else s.attempts[b]? := by
  simp only [setAttempt, List.getElem?_modify]
  split <;> simp

theorem Kept.modify {n : ℕ} {f : TerminalSessionRecord → TerminalSessionRecord}
    (hf : ∀ record : TerminalSessionRecord, record.Kept (f record)) : Kept s (s.modify n f) := by
  refine ⟨fun {m record} hrecord => ?_, fun h => ⟨_, h⟩⟩
  rw [getElem?_modify, hrecord]
  split
  · exact ⟨f record, rfl, hf record⟩
  · exact ⟨record, rfl, .refl _⟩

theorem Kept.setAttempt (s : SupervisorState) (a : ℕ) (stage : AttemptStage) :
    Kept s (s.setAttempt a stage) := by
  refine ⟨fun h => ⟨_, h, .refl _⟩, fun {b n stage'} h => ?_⟩
  rw [getElem?_setAttempt, h]
  split
  · exact ⟨stage, rfl⟩
  · exact ⟨stage', rfl⟩

/-! ## What holds of the records -/

/-- Whether a call of `open` has reserved a place. -/
def OpenCall.isPending : OpenCall → Bool
  | .spawning _ | .spawned _ _ => true
  | _ => false

/-- The records, the promises and the counter fit together. -/
structure Inv (options : TerminalSessionSupervisorOptions) (s : SupervisorState) : Prop where
  ended : ∀ {n : ℕ} {record : TerminalSessionRecord}, s.sessions[n]? = some record →
    record.state ≠ .running → s.ptys[record.pty]? = some false
  closed : ∀ {n : ℕ} {record : TerminalSessionRecord}, s.sessions[n]? = some record →
    (record.closed = true ↔ record.state ≠ .running)
  promised : ∀ {n a : ℕ} {record : TerminalSessionRecord}, s.sessions[n]? = some record →
    record.terminationPromise = some a → ∃ stage, s.attempts[a]? = some ⟨n, stage⟩
  attempted : ∀ {a n : ℕ} {stage : AttemptStage}, s.attempts[a]? = some ⟨n, stage⟩ →
    ∃ record, s.sessions[n]? = some record ∧ (stage = .resolved → record.state ≠ .running)
  registered : ∀ {n : ℕ}, s.isRunning n = true → n ∈ s.records
  pending : s.pendingStarts = s.opens.countP OpenCall.isPending
  capacity : s.records.length + s.pendingStarts ≤ options.maxSessions

structure Steady (s s' : SupervisorState) : Prop where
  ptys : s'.ptys = s.ptys
  records : s'.records = s.records
  pendingStarts : s'.pendingStarts = s.pendingStarts
  closing : s'.closing = s.closing
  opens : s'.opens = s.opens
  closes : s'.closes = s.closes

theorem Steady.refl (s : SupervisorState) : Steady s s :=
  ⟨rfl, rfl, rfl, rfl, rfl, rfl⟩

theorem Steady.trans {s' s'' : SupervisorState} (h : Steady s s') (h' : Steady s' s'') :
    Steady s s'' :=
  ⟨h'.ptys.trans h.ptys, h'.records.trans h.records, h'.pendingStarts.trans h.pendingStarts,
    h'.closing.trans h.closing, h'.opens.trans h.opens, h'.closes.trans h.closes⟩

theorem Steady.alive {s' : SupervisorState} (h : Steady s s') (pty : ℕ) :
    s'.Alive pty ↔ s.Alive pty := by
  rw [Alive, Alive, h.ptys]

section Records

variable {options : TerminalSessionSupervisorOptions} {s s' : SupervisorState} {n a : ℕ}

theorem Kept.isRunning (h : Kept s s') (hn : (s.sessions[n]?).isSome = true)
    (hrunning : s'.isRunning n = true) : s.isRunning n = true := by
  obtain ⟨record, hrecord⟩ := Option.isSome_iff_exists.mp hn
  obtain ⟨record', hrecord', hkept⟩ := h.sessions hrecord
  obtain ⟨found, hfound, hstate⟩ := isRunning_iff.mp hrunning
  obtain rfl := Option.some.inj (hfound.symm.trans hrecord')
  exact isRunning_iff.mpr ⟨record, hrecord, hkept.running hstate⟩

namespace Inv

theorem initial : Inv options .initial where
  ended h := by simp [SupervisorState.initial] at h
  closed h := by simp [SupervisorState.initial] at h
  promised h := by simp [SupervisorState.initial] at h
  attempted h := by simp [SupervisorState.initial] at h
  registered h := by simp [SupervisorState.initial, isRunning] at h
  pending := rfl
  capacity := by simp [SupervisorState.initial]

theorem modify (h : Inv options s) {f : TerminalSessionRecord → TerminalSessionRecord}
    (hf : ∀ record : TerminalSessionRecord, s.sessions[n]? = some record → record.Kept (f record) ∧
      ((f record).state ≠ .running → s.ptys[record.pty]? = some false) ∧
      ((f record).closed = true ↔ (f record).state ≠ .running) ∧
      ∀ a, (f record).terminationPromise = some a → ∃ stage, s.attempts[a]? = some ⟨n, stage⟩) :
    Inv options (s.modify n f) := by
  -- a session afterwards is one from before, or the changed one
  have hcases : ∀ {m : ℕ} {record : TerminalSessionRecord},
      (s.modify n f).sessions[m]? = some record → s.sessions[m]? = some record ∨
        n = m ∧ ∃ old, s.sessions[n]? = some old ∧ f old = record := by
    intro m record hrecord
    rw [getElem?_modify] at hrecord
    split at hrecord
    next heq => exact .inr ⟨heq, Option.map_eq_some_iff.mp (heq ▸ hrecord)⟩
    next => exact .inl hrecord
  refine ⟨fun hrecord hended => ?_, fun hrecord => ?_, fun hrecord hpromise => ?_,
    fun {b m stage} hattempt => ?_, fun {m} hrunning => ?_, h.pending, h.capacity⟩
  · rcases hcases hrecord with hold | ⟨rfl, old, hold, rfl⟩
    · exact h.ended hold hended
    · obtain ⟨hkept, hdead, -⟩ := hf old hold
      rw [hkept.pty]
      exact hdead hended
  · rcases hcases hrecord with hold | ⟨rfl, old, hold, rfl⟩
    · exact h.closed hold
    · exact (hf old hold).2.2.1
  · rcases hcases hrecord with hold | ⟨rfl, old, hold, rfl⟩
    · exact h.promised hold hpromise
    · exact (hf old hold).2.2.2 _ hpromise
  · obtain ⟨record, hrecord, hresolved⟩ := h.attempted hattempt
    rw [getElem?_modify, hrecord]
    split
    next heq =>
      subst heq
      obtain ⟨hkept, -⟩ := hf record hrecord
      refine ⟨f record, rfl, fun hstage => ?_⟩
      rw [(hkept.ended (hresolved hstage)).1]
      exact hresolved hstage
    next => exact ⟨record, rfl, hresolved⟩
  · obtain ⟨record, hrecord, hstate⟩ := isRunning_iff.mp hrunning
    refine h.registered (isRunning_iff.mpr ?_)
    rcases hcases hrecord with hold | ⟨rfl, old, hold, rfl⟩
    · exact ⟨record, hold, hstate⟩
    · exact ⟨old, hold, (hf old hold).1.running hstate⟩

theorem setAttempt (h : Inv options s) {stage : AttemptStage}
    (hstage : stage = .resolved → ∀ n old, s.attempts[a]? = some ⟨n, old⟩ → s.isRunning n = false) :
    Inv options (s.setAttempt a stage) := by
  refine ⟨h.ended, h.closed, fun hrecord hpromise => ?_, fun {b m stage'} hattempt => ?_,
    h.registered, h.pending, h.capacity⟩
  · obtain ⟨old, hold⟩ := h.promised hrecord hpromise
    exact (Kept.setAttempt s a stage).attempts hold
  · rw [getElem?_setAttempt] at hattempt
    split at hattempt
    next heq =>
      subst heq
      obtain ⟨⟨m', old⟩, hold, hnew⟩ := Option.map_eq_some_iff.mp hattempt
      cases hnew
      obtain ⟨record, hrecord, -⟩ := h.attempted hold
      refine ⟨record, hrecord, fun hresolved hstate => ?_⟩
      have hrunning := isRunning_iff.mpr ⟨record, hrecord, hstate⟩
      rw [hstage hresolved m' old hold] at hrunning
      cases hrunning
    next => exact h.attempted hattempt

theorem not_running_of_closed (h : Inv options s) (hclosed : s.isClosed n = true) :
    ¬ s.isRunning n = true := by
  intro hrunning
  obtain ⟨record, hrecord, hstate⟩ := isRunning_iff.mp hrunning
  rw [isClosed, hrecord, Option.any_some] at hclosed
  exact (h.closed hrecord).mp hclosed hstate

section

variable {record : TerminalSessionRecord} (h : Inv options s)
  (hrecord : s.sessions[n]? = some record) (hdead : s.ptys[record.pty]? = some false)

include h hrecord hdead

theorem onExit (event : TerminalPtyExit) (now : ℤ) : Inv options (s.onExit n event now) := by
  refine h.modify fun found hfound => ?_
  obtain rfl := Option.some.inj (hfound.symm.trans hrecord)
  split
  · exact ⟨.refl _, h.ended hfound, h.closed hfound, fun _ => h.promised hfound⟩
  next hrunning =>
    refine ⟨.of_running rfl rfl (not_not.mp hrunning), fun _ => hdead, ?_,
      fun a (hpromise : found.terminationPromise = some a) => h.promised hfound hpromise⟩
    dsimp only
    split <;> simp

theorem finishAlreadyGone (now : ℤ) : Inv options (s.finishAlreadyGone n now) := by
  refine h.modify fun found hfound => ?_
  obtain rfl := Option.some.inj (hfound.symm.trans hrecord)
  split
  · exact ⟨.refl _, h.ended hfound, h.closed hfound, fun _ => h.promised hfound⟩
  next hrunning =>
    exact ⟨.of_running rfl rfl (not_not.mp hrunning), fun _ => hdead, by simp,
      fun a (hpromise : found.terminationPromise = some a) => h.promised hfound hpromise⟩

end

theorem modify_of_same (h : Inv options s) {f : TerminalSessionRecord → TerminalSessionRecord}
    (hkept : ∀ record : TerminalSessionRecord, record.Kept (f record))
    (hstate : ∀ record : TerminalSessionRecord, (f record).state = record.state)
    (hclosed : ∀ record : TerminalSessionRecord, (f record).closed = record.closed)
    (hpromise : ∀ (record : TerminalSessionRecord) (a : ℕ), (f record).terminationPromise = some a →
      record.terminationPromise = some a) : Inv options (s.modify n f) := by
  refine h.modify fun record hrecord => ⟨hkept record, ?_, ?_, fun a ha => ?_⟩
  · rw [hstate]
    exact h.ended hrecord
  · rw [hstate, hclosed]
    exact h.closed hrecord
  · exact h.promised hrecord (hpromise record a ha)

end Inv

theorem kept_onExit (n : ℕ) (event : TerminalPtyExit) (now : ℤ) : Kept s (s.onExit n event now) := by
  refine .modify fun record => ?_
  split
  · exact .refl _
  next hrunning => exact .of_running rfl rfl (not_not.mp hrunning)

theorem kept_finishAlreadyGone (n : ℕ) (now : ℤ) : Kept s (s.finishAlreadyGone n now) := by
  refine .modify fun record => ?_
  split
  · exact .refl _
  next hrunning => exact .of_running rfl rfl (not_not.mp hrunning)

/-! ## Terminating sessions -/

structure Terminates (options : TerminalSessionSupervisorOptions) (s s' : SupervisorState) : Prop where
  inv : Inv options s'
  kept : Kept s s'
  steady : Steady s s'

theorem Terminates.trans {s'' : SupervisorState} (h : Terminates options s s')
    (h' : Terminates options s' s'') : Terminates options s s'' :=
  ⟨h'.inv, h.kept.trans h'.kept, h.steady.trans h'.steady⟩

variable {answer : SignalAnswer}

theorem truthful_of_kept (h : s.Truthful n answer) (hkept : Kept s s') (hptys : s'.ptys = s.ptys) :
    s'.Truthful n answer := by
  intro hanswer
  obtain ⟨record, hrecord, hdead⟩ := h hanswer
  obtain ⟨record', hrecord', hsame⟩ := hkept.sessions hrecord
  exact ⟨record', hrecord', by rw [hsame.pty, hptys, hdead]⟩

theorem isRunning_finishAlreadyGone (n : ℕ) (now : ℤ) :
    (s.finishAlreadyGone n now).isRunning n = false := by
  rw [Bool.eq_false_iff]
  intro hrunning
  obtain ⟨record, hrecord, hstate⟩ := isRunning_iff.mp hrunning
  rw [finishAlreadyGone, getElem?_modify, if_pos rfl] at hrecord
  obtain ⟨old, -, rfl⟩ := Option.map_eq_some_iff.mp hrecord
  split at hstate
  next hended => exact hended hstate
  next => cases hstate

theorem terminates_afterSignal (h : Inv options s) (next : AttemptStage)
    (hattempt : ∃ stage, s.attempts[a]? = some ⟨n, stage⟩) (htruthful : s.Truthful n answer)
    (hnext : next ≠ .resolved) (now : ℤ) :
    Terminates options s (s.afterSignal n a next (sendSignal options answer) now) := by
  have hset : ∀ {stage : AttemptStage}, stage ≠ .resolved →
      Terminates options s (s.setAttempt a stage) := fun hstage =>
    ⟨h.setAttempt fun hresolved => absurd hresolved hstage, .setAttempt s a _,
      ⟨rfl, rfl, rfl, rfl, rfl, rfl⟩⟩
  cases answer with
  | delivered => exact hset hnext
  | refused => exact hset nofun
  | noSuchProcess =>
    simp only [sendSignal]
    split
    · exact hset nofun
    · -- the process group is gone, and so is the pty
      obtain ⟨record, hrecord, hdead⟩ := htruthful rfl
      have hgone := h.finishAlreadyGone hrecord hdead now
      refine ⟨hgone.setAttempt fun _ m old hold => ?_,
        (kept_finishAlreadyGone n now).trans (.setAttempt _ a _), ⟨rfl, rfl, rfl, rfl, rfl, rfl⟩⟩
      obtain ⟨stage, hstage⟩ := hattempt
      obtain rfl : n = m := by
        have := hold.symm.trans hstage
        simp only [Option.some.injEq, TerminationAttempt.mk.injEq] at this
        exact this.1.symm
      exact isRunning_finishAlreadyGone n now

theorem terminates_begin (h : Inv options s) (hrunning : s.isRunning n = true) :
    Terminates options s { s.modify n fun record =>
        { record with terminationRequested := true, terminationPromise := some s.attempts.length }
      with attempts := s.attempts ++ [⟨n, .grace⟩] } := by
  obtain ⟨record, hrecord, -⟩ := isRunning_iff.mp hrunning
  have hnew : (s.attempts ++ [⟨n, .grace⟩])[s.attempts.length]? = some ⟨n, .grace⟩ := by simp
  have hkept : Kept s { s with attempts := s.attempts ++ [⟨n, .grace⟩] } :=
    .of_append (List.append_nil _).symm rfl
  have happend : Inv options { s with attempts := s.attempts ++ [⟨n, .grace⟩] } := by
    refine ⟨h.ended, h.closed, fun hfound hpromise => ?_, fun {b m stage} hattempt => ?_,
      h.registered, h.pending, h.capacity⟩
    · obtain ⟨stage, hstage⟩ := h.promised hfound hpromise
      exact hkept.attempts hstage
    · rcases List.mem_append.mp (List.mem_of_getElem? hattempt) with hold | hmem
      · obtain ⟨i, hi⟩ := List.mem_iff_getElem?.mp hold
        exact h.attempted hi
      · cases List.mem_singleton.mp hmem
        exact ⟨record, hrecord, nofun⟩
  refine ⟨happend.modify fun found hfound => ?_, hkept.trans (.modify fun _ =>
    ⟨rfl, rfl, fun _ => ⟨rfl, rfl, rfl, rfl⟩⟩), ⟨rfl, rfl, rfl, rfl, rfl, rfl⟩⟩
  have hended := h.ended hfound
  have hclosed := h.closed hfound
  refine ⟨⟨rfl, rfl, fun _ => ⟨rfl, rfl, rfl, rfl⟩⟩, hended, hclosed, fun b hb => ?_⟩
  obtain rfl := Option.some.inj hb
  exact ⟨.grace, hnew⟩

theorem terminates_terminate (h : Inv options s) (htruthful : s.Truthful n answer) (now : ℤ) :
    Terminates options s (s.terminate options n answer now).2 ∧
      (s.isRunning n = true → ∃ a stage, (s.terminate options n answer now).1 = some a ∧
        (s.terminate options n answer now).2.attempts[a]? = some ⟨n, stage⟩) := by
  unfold SupervisorState.terminate
  split
  next hnone => exact ⟨⟨h, .refl s, .refl s⟩, fun hrunning => by simp [isRunning, hnone] at hrunning⟩
  next record hrecord =>
    split
    next hended =>
      exact ⟨⟨h, .refl s, .refl s⟩, fun hrunning => by simp [isRunning, hrecord, hended] at hrunning⟩
    next hstate =>
      split
      next a hpromise =>
        obtain ⟨stage, hstage⟩ := h.promised hrecord hpromise
        exact ⟨⟨h, .refl s, .refl s⟩, fun _ => ⟨a, stage, rfl, hstage⟩⟩
      next =>
        have hbegin := terminates_begin h (isRunning_iff.mpr ⟨record, hrecord, not_not.mp hstate⟩)
        have hattempt : ∃ stage, (s.attempts ++ [(⟨n, .grace⟩ : TerminationAttempt)])[
            s.attempts.length]? = some ⟨n, stage⟩ := ⟨.grace, by simp⟩
        have hsignal := terminates_afterSignal hbegin.inv .grace hattempt
          (truthful_of_kept htruthful hbegin.kept rfl) nofun now
        obtain ⟨stage, hstage⟩ := hattempt
        obtain ⟨stage', hstage'⟩ := hsignal.kept.attempts hstage
        exact ⟨hbegin.trans hsignal, fun _ => ⟨_, stage', rfl, hstage'⟩⟩

theorem terminates_terminateAll {answer : ℕ → SignalAnswer} (now : ℤ) (ns : List ℕ)
    (h : Inv options s) (htruthful : ∀ n ∈ ns, s.Truthful n (answer n)) :
    Terminates options s (s.terminateAll options answer now ns).2 ∧
      ∀ n ∈ ns, s.isRunning n = true → (s.terminateAll options answer now ns).2.isRunning n = true →
        ∃ a ∈ (s.terminateAll options answer now ns).1, ∃ stage,
          (s.terminateAll options answer now ns).2.attempts[a]? = some ⟨n, stage⟩ := by
  induction ns generalizing s with
  | nil => exact ⟨⟨h, .refl s, .refl s⟩, fun _ hmem => absurd hmem List.not_mem_nil⟩
  | cons n ns ih =>
    obtain ⟨hfirst, hattempt⟩ := terminates_terminate h (htruthful n List.mem_cons_self) now
    obtain ⟨hrest, hattempts⟩ := ih hfirst.inv fun m hm =>
      truthful_of_kept (htruthful m (List.mem_cons_of_mem n hm)) hfirst.kept hfirst.steady.ptys
    refine ⟨hfirst.trans hrest, fun m hm hbefore hafter => ?_⟩
    simp only [SupervisorState.terminateAll]
    rcases List.mem_cons.mp hm with rfl | hm
    · obtain ⟨a, stage, hsome, hstage⟩ := hattempt hbefore
      obtain ⟨stage', hstage'⟩ := hrest.kept.attempts hstage
      exact ⟨a, List.mem_append_left _ (by simp [hsome]), stage', hstage'⟩
    · obtain ⟨record, hrecord, -⟩ := isRunning_iff.mp hbefore
      obtain ⟨record', hrecord', -⟩ := hfirst.kept.sessions hrecord
      have hmiddle := hrest.kept.isRunning (by rw [hrecord']; rfl) hafter
      obtain ⟨a, ha, stage, hstage⟩ := hattempts m hm hmiddle hafter
      exact ⟨a, List.mem_append_right _ ha, stage, hstage⟩

theorem terminates_afterGrace (h : Inv options s) (hattempt : s.attempts[a]? = some ⟨n, .grace⟩)
    (htruthful : s.Truthful n answer) {closedGracefully : Bool}
    (hclosed : closedGracefully = true → s.isClosed n = true) (now : ℤ) :
    Terminates options s (s.afterGrace options n a closedGracefully answer now) := by
  unfold SupervisorState.afterGrace
  split
  · exact terminates_afterSignal h .killed ⟨_, hattempt⟩ htruthful nofun now
  next hended =>
    refine ⟨h.setAttempt fun _ m old hold => ?_, .setAttempt s a _, ⟨rfl, rfl, rfl, rfl, rfl, rfl⟩⟩
    cases hattempt.symm.trans hold
    rw [Bool.eq_false_iff]
    intro hrunning
    simp only [hrunning, Bool.and_true, Bool.not_eq_true', Bool.not_eq_false] at hended
    exact h.not_running_of_closed (hclosed hended) hrunning

theorem terminates_afterClosed (h : Inv options s) {stage : AttemptStage}
    (hattempt : s.attempts[a]? = some ⟨n, stage⟩) (hclosed : s.isClosed n = true) :
    Terminates options s (s.setAttempt a .resolved) := by
  refine ⟨h.setAttempt fun _ m old hold => ?_, .setAttempt s a _, ⟨rfl, rfl, rfl, rfl, rfl, rfl⟩⟩
  cases hattempt.symm.trans hold
  rw [Bool.eq_false_iff]
  exact h.not_running_of_closed hclosed

theorem terminates_forgetAttempt (h : Inv options s) :
    Terminates options s (s.forgetAttempt n a) := by
  have hkept : ∀ record : TerminalSessionRecord, record.Kept
      (if record.terminationPromise = some a then { record with terminationPromise := none }
        else record) := fun record => by
    split
    · exact ⟨rfl, rfl, fun _ => ⟨rfl, rfl, rfl, rfl⟩⟩
    · exact .refl _
  refine ⟨h.modify_of_same hkept (fun record => ?_) (fun record => ?_) (fun record b hb => ?_),
    .modify hkept, ⟨rfl, rfl, rfl, rfl, rfl, rfl⟩⟩
  · split <;> rfl
  · split <;> rfl
  · split at hb
    · cases hb
    · exact hb

theorem terminates_stop (h : Inv options s) {sessionId : String}
    (htruthful : ∀ n, s.get sessionId = some n → s.Truthful n answer) (now : ℤ) :
    Terminates options s (s.stop options sessionId answer now) := by
  unfold SupervisorState.stop
  split
  · exact ⟨h, .refl s, .refl s⟩
  next n hn => exact (terminates_terminate h (htruthful n hn) now).1

/-! ## The size of the terminal, and its data -/

theorem terminates_resize (h : Inv options s) (sessionId : String) (size : TerminalSize) :
    Terminates options s (s.resize sessionId size) := by
  unfold SupervisorState.resize
  split
  · exact ⟨h, .refl s, .refl s⟩
  next n _ =>
    have hkept : ∀ record : TerminalSessionRecord, record.Kept
        (if record.state ≠ .running then record else { record with size }) := fun record => by
      split
      · exact .refl _
      · exact ⟨rfl, rfl, fun _ => ⟨rfl, rfl, rfl, rfl⟩⟩
    refine ⟨h.modify_of_same hkept (fun record => ?_) (fun record => ?_) (fun record b hb => ?_),
      .modify hkept, ⟨rfl, rfl, rfl, rfl, rfl, rfl⟩⟩
    · split <;> rfl
    · split <;> rfl
    · split at hb
      · exact hb
      · exact hb

theorem terminates_onData (h : Inv options s) (n : ℕ) (data : String) :
    Terminates options s (s.onData n data) := by
  unfold SupervisorState.onData
  split
  · exact ⟨h, .refl s, .refl s⟩
  · have hkept : ∀ record : TerminalSessionRecord,
        record.Kept { record with outputSequence := record.outputSequence + 1 } :=
      fun _ => ⟨rfl, rfl, fun _ => ⟨rfl, rfl, rfl, rfl⟩⟩
    exact ⟨h.modify_of_same hkept (fun _ => rfl) (fun _ => rfl) (fun _ _ => id), .modify hkept,
      ⟨rfl, rfl, rfl, rfl, rfl, rfl⟩⟩

theorem terminates_write (h : Inv options s) (sessionId data : String) :
    Terminates options s (s.write options sessionId data).2 := by
  unfold SupervisorState.write
  split
  · exact ⟨h, .refl s, .refl s⟩
  · split
    · exact ⟨h, .refl s, .refl s⟩
    · split
      · exact ⟨h, .refl s, .refl s⟩
      · exact ⟨⟨h.ended, h.closed, h.promised, h.attempted, h.registered, h.pending, h.capacity⟩,
          .of_append (List.append_nil _).symm (List.append_nil _).symm,
          ⟨rfl, rfl, rfl, rfl, rfl, rfl⟩⟩

/-! ## Opening sessions -/

theorem room_of_not_isFull (h : ¬ s.isFull options = true) :
    (s.records.length : ℤ) + s.pendingStarts + 1 ≤ options.maxSessions := by
  simp only [isFull, decide_eq_true_eq] at h
  omega

variable (options) in
theorem reserveCapacityFrom_eq (bound : ℕ) (s : SupervisorState) : ∃ rs : List ℕ,
    (s.reserveCapacityFrom options bound).2 = { s with
      records := rs
      pendingStarts := s.pendingStarts + if (s.reserveCapacityFrom options bound).1 then 1 else 0 } ∧
      (∀ n ∈ s.records, s.isRunning n = true → n ∈ rs) ∧ rs.length ≤ s.records.length ∧
        ((s.reserveCapacityFrom options bound).1 = true →
          rs.length + s.pendingStarts + 1 ≤ options.maxSessions) := by
  induction bound generalizing s with
  | zero =>
    unfold reserveCapacityFrom
    split
    · exact ⟨s.records, by simp, fun _ h _ => h, Nat.le_refl _, nofun⟩
    next hfull => exact ⟨s.records, by simp, fun _ h _ => h, Nat.le_refl _, fun _ => room_of_not_isFull hfull⟩
  | succ bound ih =>
    unfold reserveCapacityFrom
    split
    next =>
      split
      next => exact ⟨s.records, by simp, fun _ h _ => h, Nat.le_refl _, nofun⟩
      next completed hcompleted =>
        obtain ⟨rs, heq, hkeep, hlength, hok⟩ :=
          ih { s with records := s.records.filter (· ≠ completed) }
        -- the record that is deleted has ended
        have hended : s.isRunning completed = false := by
          have hmem := List.mem_of_head? hcompleted
          simpa using (List.mem_filter.mp ((List.mem_insertionSort _).mp hmem)).2
        refine ⟨rs, heq, fun n hn hrunning => hkeep n (List.mem_filter.mpr ⟨hn, ?_⟩) hrunning,
          hlength.trans (List.length_filter_le ..), hok⟩
        rw [decide_eq_true_iff]
        rintro rfl
        rw [hended] at hrunning
        cases hrunning
    next hfull => exact ⟨s.records, by simp, fun _ h _ => h, Nat.le_refl _, fun _ => room_of_not_isFull hfull⟩

theorem beginOpen_eq (h : Inv options s) (input : OpenInput) : ∃ (rs : List ℕ) (call : OpenCall),
    (∀ input pty, call ≠ .spawned input pty) ∧ Inv options (s.beginOpen options input) ∧
      s.beginOpen options input = { s with
        records := rs
        pendingStarts := (s.beginOpen options input).pendingStarts
        opens := s.opens ++ [call] } := by
  unfold SupervisorState.beginOpen
  split
  · refine ⟨s.records, .failed, nofun, ⟨h.ended, h.closed, h.promised, h.attempted, h.registered,
      ?_, h.capacity⟩, rfl⟩
    simp [h.pending, OpenCall.isPending]
  · obtain ⟨rs, heq, hkeep, hlength, hok⟩ :=
      reserveCapacityFrom_eq options s.records.length s
    generalize hreserved : (s.reserveCapacityFrom options s.records.length).1 = reserved at heq hok
    have hpair : s.reserveCapacity options = (reserved, { s with
        records := rs
        pendingStarts := s.pendingStarts + if reserved then 1 else 0 }) := Prod.ext hreserved heq
    simp only [hpair]
    have hlength : (rs.length : ℤ) ≤ s.records.length := Int.ofNat_le.mpr hlength
    have hcapacity := h.capacity
    refine ⟨rs, if reserved then .spawning input else .failed, ?_, ⟨h.ended, h.closed, h.promised,
      h.attempted, fun hrunning => hkeep _ (h.registered hrunning) hrunning, ?_, ?_⟩, rfl⟩
    · cases reserved <;> exact nofun
    · cases reserved <;> simp [h.pending, OpenCall.isPending]
    · cases reserved with
      | false =>
        simp only [Bool.false_eq_true, if_false]
        omega
      | true =>
        have hroom := hok rfl
        simp only [if_true]
        omega

theorem countP_setOpen {call : ℕ} {old : OpenCall} (hcall : s.opens[call]? = some old)
    (hold : old.isPending = true) (stage : OpenCall) :
    ((s.opens.set call stage).countP OpenCall.isPending : ℤ) =
      s.opens.countP OpenCall.isPending - 1 + if stage.isPending then 1 else 0 := by
  obtain ⟨hlt, hget⟩ := List.getElem?_eq_some_iff.mp hcall
  have hpos : 0 < s.opens.countP OpenCall.isPending :=
    List.countP_pos_iff.mpr ⟨old, List.mem_of_getElem? hcall, hold⟩
  rw [List.countP_set hlt, hget, if_pos hold, Int.natCast_add, Int.natCast_sub hpos]
  cases stage.isPending <;> rfl

theorem Inv.failOpen (h : Inv options s) {call : ℕ} {old : OpenCall}
    (hcall : s.opens[call]? = some old) (hold : old.isPending = true) :
    Inv options (s.failOpen call) := by
  refine ⟨h.ended, h.closed, h.promised, h.attempted, h.registered, ?_, ?_⟩
  · have hcount := countP_setOpen hcall hold .failed
    have hpending := h.pending
    simp only [SupervisorState.failOpen, setOpen, hcount, OpenCall.isPending]
    simp [hpending]
  · have hcapacity := h.capacity
    simp only [SupervisorState.failOpen, setOpen]
    omega

def newSession (sessionId : String) (input : OpenInput) (pty : ℕ) (now : ℤ) :
    TerminalSessionRecord :=
  { sessionId, cwd := input.cwd, state := .running, size := input.size, startedAtMs := now
    exitedAtMs := none, exitCode := none, signal := none, pty, outputSequence := 0
    terminationRequested := false, closed := false, terminationPromise := none }

theorem finishOpen_eq (call : ℕ) (input : OpenInput) (pty : ℕ) (now : ℤ)
    (newSessionId : ℕ → String) :
    (s.finishOpen call input pty now newSessionId = s.failOpen call ∧
        ∀ i < 8, s.has (newSessionId i) = true) ∨
      ∃ sessionId, s.finishOpen call input pty now newSessionId = { s with
        sessions := s.sessions ++ [newSession sessionId input pty now]
        records := s.records ++ [s.sessions.length]
        pendingStarts := s.pendingStarts - 1
        opens := s.opens.set call (.returned (summary (newSession sessionId input pty now))) } := by
  unfold SupervisorState.finishOpen
  dsimp only
  split
  next hnone =>
    refine .inl ⟨rfl, fun i hi => ?_⟩
    have hused := List.find?_eq_none.mp hnone (newSessionId i)
      (List.mem_map_of_mem (List.mem_range.mpr hi))
    rw [Bool.not_eq_true', Bool.not_eq_false] at hused
    exact hused
  next sessionId _ => exact .inr ⟨sessionId, rfl⟩

theorem Inv.register (h : Inv options s) {call : ℕ} {old : OpenCall}
    (hcall : s.opens[call]? = some old) (hold : old.isPending = true) {record : TerminalSessionRecord}
    (hrunning : record.state = .running) (hopen : record.closed = false)
    (hpromise : record.terminationPromise = none) (summary : TerminalSessionSummary) :
    Inv options { s with
      sessions := s.sessions ++ [record]
      records := s.records ++ [s.sessions.length]
      pendingStarts := s.pendingStarts - 1
      opens := s.opens.set call (.returned summary) } := by
  have hcases : ∀ {m : ℕ} {found : TerminalSessionRecord},
      (s.sessions ++ [record])[m]? = some found → s.sessions[m]? = some found ∨
        m = s.sessions.length ∧ found = record := by
    intro m found hfound
    rw [List.getElem?_append] at hfound
    split at hfound
    · exact .inl hfound
    · rw [List.getElem?_singleton] at hfound
      split at hfound
      · exact .inr ⟨by omega, (Option.some.inj hfound).symm⟩
      · cases hfound
  refine ⟨fun hfound hended => ?_, fun hfound => ?_, fun hfound hpromised => ?_,
    fun hattempt => ?_, fun {m} hfound => ?_, ?_, ?_⟩
  · rcases hcases hfound with hfound | ⟨-, rfl⟩
    · exact h.ended hfound hended
    · exact absurd hrunning hended
  · rcases hcases hfound with hfound | ⟨-, rfl⟩
    · exact h.closed hfound
    · simp [hrunning, hopen]
  · rcases hcases hfound with hfound | ⟨-, rfl⟩
    · exact h.promised hfound hpromised
    · rw [hpromise] at hpromised
      cases hpromised
  · obtain ⟨found, hfound, hresolved⟩ := h.attempted hattempt
    exact ⟨found, List.getElem?_append_left (List.getElem?_eq_some_iff.mp hfound).1 ▸ hfound,
      hresolved⟩
  · obtain ⟨found, hfound, hstate⟩ := isRunning_iff.mp hfound
    rcases hcases hfound with hfound | ⟨rfl, -⟩
    · exact List.mem_append_left _ (h.registered (isRunning_iff.mpr ⟨found, hfound, hstate⟩))
    · exact List.mem_append_right _ (List.mem_singleton_self _)
  · have hcount := countP_setOpen hcall hold (.returned summary)
    have hpending := h.pending
    simp only [hcount, OpenCall.isPending]
    simp [hpending]
  · have hcapacity := h.capacity
    simp only [List.length_append, List.length_singleton]
    push_cast
    omega

end Records

/-! ## What holds of the ptys in orderly runs -/

def Drives (s : SupervisorState) (n pty : ℕ) : Prop :=
  ∃ record : TerminalSessionRecord, s.sessions[n]? = some record ∧ record.pty = pty

theorem Kept.drives {s' : SupervisorState} (h : Kept s s') {n pty : ℕ} (hdrives : Drives s n pty) :
    Drives s' n pty := by
  obtain ⟨record, hrecord, hpty⟩ := hdrives
  obtain ⟨record', hrecord', hsame⟩ := h.sessions hrecord
  exact ⟨record', hrecord', hsame.pty.trans hpty⟩

theorem Inv.isRunning_of_alive {options : TerminalSessionSupervisorOptions} (h : Inv options s)
    {n pty : ℕ} (hdrives : Drives s n pty) (halive : s.Alive pty) : s.isRunning n = true := by
  obtain ⟨record, hrecord, rfl⟩ := hdrives
  refine isRunning_iff.mpr ⟨record, hrecord, by_contra fun hended => ?_⟩
  have hdead := h.ended hrecord hended
  rw [show s.ptys[record.pty]? = some true from halive] at hdead
  cases hdead

/-- Every pty that runs is accounted for, and a `close` waits for all of them. -/
structure Attended (s : SupervisorState) : Prop where
  owned : ∀ {pty : ℕ}, s.Alive pty → (∃ n, Drives s n pty) ∨ ∃ input, .spawned input pty ∈ s.opens
  quiet : s.closing = true → ∀ call ∈ s.opens, call.isSpawned = false
  closing : ∀ {call : CloseCall}, call ∈ s.closes → s.closing = true
  awaited : ∀ {call : CloseCall}, call ∈ s.closes → ∀ {pty : ℕ}, s.Alive pty →
    ∃ a ∈ call.awaits, ∃ n stage, s.attempts[a]? = some ⟨n, stage⟩ ∧ Drives s n pty
  done : ∀ {call : CloseCall}, call ∈ s.closes → call.succeeded = some true →
    ∀ pty, ¬ s.Alive pty

section Attended

variable {options : TerminalSessionSupervisorOptions} {s s' : SupervisorState}

namespace Attended

theorem initial : Attended .initial where
  owned h := by simp [SupervisorState.initial, Alive] at h
  quiet h := by cases h
  closing h := by cases h
  awaited h := by cases h
  done h := by cases h

theorem of_kept (h : Attended s) (hkept : Kept s s') (halive : ∀ {pty : ℕ}, s'.Alive pty → s.Alive pty)
    (hclosing : s'.closing = s.closing) (hcloses : s'.closes = s.closes)
    (hopens : ∀ {input : OpenInput} {pty : ℕ}, .spawned input pty ∈ s.opens →
      (∃ n, Drives s' n pty) ∨ .spawned input pty ∈ s'.opens)
    (hspawned : ∀ {input : OpenInput} {pty : ℕ}, .spawned input pty ∈ s'.opens →
      .spawned input pty ∈ s.opens) : Attended s' := by
  refine ⟨fun hpty => ?_, fun hquiet call hcall => ?_, fun hcall => ?_,
    fun {call} hcall {pty} hpty => ?_, fun hcall hsucceeded pty hpty => ?_⟩
  · rcases h.owned (halive hpty) with ⟨n, hdrives⟩ | ⟨input, hspawn⟩
    · exact .inl ⟨n, hkept.drives hdrives⟩
    · exact (hopens hspawn).imp_right fun hmem => ⟨input, hmem⟩
  · cases call with
    | spawned input pty => exact h.quiet (hclosing ▸ hquiet) _ (hspawned hcall)
    | _ => rfl
  · exact hclosing ▸ h.closing (hcloses ▸ hcall)
  · obtain ⟨a, ha, n, stage, hattempt, hdrives⟩ := h.awaited (hcloses ▸ hcall) (halive hpty)
    obtain ⟨stage', hattempt'⟩ := hkept.attempts hattempt
    exact ⟨a, ha, n, stage', hattempt', hkept.drives hdrives⟩
  · exact h.done (hcloses ▸ hcall) hsucceeded pty (halive hpty)

theorem of_terminates (h : Attended s) (hstep : Terminates options s s') : Attended s' := by
  refine h.of_kept hstep.kept (fun hpty => (hstep.steady.alive _).mp hpty) hstep.steady.closing
    hstep.steady.closes (fun hmem => .inr ?_) fun hmem => ?_
  · rw [hstep.steady.opens]
    exact hmem
  · rw [hstep.steady.opens] at hmem
    exact hmem

end Attended

theorem mem_set_of_ne {α : Type} {l : List α} {i : ℕ} {a b c : α} (ha : a ∈ l)
    (hb : l[i]? = some b) (hne : a ≠ b) : a ∈ l.set i c := by
  obtain ⟨j, hj⟩ := List.mem_iff_getElem?.mp ha
  refine List.mem_iff_getElem?.mpr ⟨j, ?_⟩
  rw [List.getElem?_set_ne, hj]
  rintro rfl
  exact hne (Option.some.inj (hj.symm.trans hb))

/-- The records fit together and the ptys are attended to, and nothing has been lost. -/
structure Progress (options : TerminalSessionSupervisorOptions) (s s' : SupervisorState) : Prop where
  inv : Inv options s'
  attended : Attended s'
  kept : Kept s s'

theorem Progress.of_terminates (h : Attended s) (hstep : Terminates options s s') :
    Progress options s s' :=
  ⟨hstep.inv, h.of_terminates hstep, hstep.kept⟩

theorem progress_openSession (h : Inv options s) (hattended : Attended s) (input : OpenInput) :
    Progress options s (s.beginOpen options input) := by
  obtain ⟨rs, call, hcall, hinv, heq⟩ := beginOpen_eq h input
  have hkept : Kept s (s.beginOpen options input) := by
    rw [heq]
    exact .of_append (List.append_nil _).symm (List.append_nil _).symm
  refine ⟨hinv, hattended.of_kept hkept ?_ ?_ ?_ (fun hmem => .inr ?_) fun hmem => ?_, hkept⟩
  · rw [heq]
    exact id
  · rw [heq]
  · rw [heq]
  · rw [heq]
    exact List.mem_append_left _ hmem
  · rw [heq] at hmem
    exact (List.mem_append.mp hmem).resolve_right fun hnew =>
      hcall _ _ (List.mem_singleton.mp hnew).symm

variable {input : OpenInput}

section

variable (h : Inv options s) (hattended : Attended s)

include h hattended

theorem progress_spawns {call : ℕ} (hcall : s.opens[call]? = some (.spawning input))
    (hopen : s.closing = false) :
    Progress options s ({ s with ptys := s.ptys ++ [true] }.setOpen call
      (.spawned input s.ptys.length)) := by
  have hcount := countP_setOpen hcall rfl (.spawned input s.ptys.length)
  have hlt := (List.getElem?_eq_some_iff.mp hcall).1
  have hcloses : ∀ {close : CloseCall}, close ∉ s.closes := fun hmem => by
    have := hattended.closing hmem
    rw [hopen] at this
    cases this
  refine ⟨⟨fun hrecord hended => ?_, h.closed, h.promised, h.attempted, h.registered, ?_,
    h.capacity⟩, ⟨fun {pty} hpty => ?_, fun hquiet => ?_, fun hmem => absurd hmem hcloses,
    fun hmem => absurd hmem hcloses, fun hmem => absurd hmem hcloses⟩,
    .of_append (List.append_nil _).symm (List.append_nil _).symm⟩
  · have hold := h.ended hrecord hended
    show (s.ptys ++ [true])[_]? = some false
    rw [List.getElem?_append_left (List.getElem?_eq_some_iff.mp hold).1]
    exact hold
  · simp only [setOpen, hcount, OpenCall.isPending]
    simp [h.pending]
  · rcases Nat.lt_or_ge pty s.ptys.length with hold | hnew
    · have halive : s.Alive pty := by
        rw [Alive, ← List.getElem?_append_left hold]
        exact hpty
      refine (hattended.owned halive).imp_right fun ⟨input', hmem⟩ => ⟨input', ?_⟩
      exact mem_set_of_ne hmem hcall nofun
    · -- the new pty is that of the call
      have hpty' : pty < (s.ptys ++ [true]).length := (List.getElem?_eq_some_iff.mp hpty).1
      simp only [List.length_append, List.length_singleton] at hpty'
      obtain rfl : pty = s.ptys.length := by omega
      exact .inr ⟨input, List.mem_set hlt _⟩
  · rw [show s.closing = true from hquiet] at hopen
    cases hopen

theorem progress_failOpen {call : ℕ} (hcall : s.opens[call]? = some (.spawning input)) :
    Progress options s (s.failOpen call) := by
  have hkept : Kept s (s.failOpen call) :=
    .of_append (List.append_nil _).symm (List.append_nil _).symm
  refine ⟨h.failOpen hcall rfl, hattended.of_kept hkept id rfl rfl
    (fun hmem => .inr (mem_set_of_ne hmem hcall nofun)) fun hmem => ?_, hkept⟩
  exact (List.mem_or_eq_of_mem_set hmem).resolve_right nofun

theorem progress_finishOpen {call pty : ℕ} (hcall : s.opens[call]? = some (.spawned input pty))
    {newSessionId : ℕ → String} (hunused : ∃ i < 8, s.has (newSessionId i) = false) (now : ℤ) :
    Progress options s (s.finishOpen call input pty now newSessionId) := by
  rcases finishOpen_eq (s := s) call input pty now newSessionId with ⟨-, hused⟩ | ⟨sessionId, heq⟩
  · obtain ⟨i, hi, hfree⟩ := hunused
    rw [hused i hi] at hfree
    cases hfree
  · have hkept : Kept s (s.finishOpen call input pty now newSessionId) := by
      rw [heq]
      exact .of_append rfl (List.append_nil _).symm
    rw [heq] at hkept ⊢
    refine ⟨h.register hcall rfl rfl rfl rfl _, hattended.of_kept hkept id rfl rfl
      (fun {input' pty'} hmem => ?_) fun hmem => ?_, hkept⟩
    · by_cases hsame : OpenCall.spawned input' pty' = .spawned input pty
      · cases hsame
        exact .inl ⟨s.sessions.length, newSession sessionId input pty now, by simp, rfl⟩
      · exact .inr (mem_set_of_ne hmem hcall hsame)
    · exact (List.mem_or_eq_of_mem_set hmem).resolve_right nofun

theorem progress_dies (pty : ℕ) : Progress options s { s with ptys := s.ptys.set pty false } := by
  have halive : ∀ {other : ℕ}, (s.ptys.set pty false)[other]? = some true → s.Alive other := by
    intro other hother
    rw [List.getElem?_set] at hother
    split at hother
    · split at hother <;> cases hother
    · exact hother
  refine ⟨⟨fun hrecord hended => ?_, h.closed, h.promised, h.attempted, h.registered, h.pending,
    h.capacity⟩, hattended.of_kept (.of_append (List.append_nil _).symm (List.append_nil _).symm)
      halive rfl rfl .inr id, .of_append (List.append_nil _).symm (List.append_nil _).symm⟩
  have hold := h.ended hrecord hended
  show (s.ptys.set pty false)[_]? = some false
  rw [List.getElem?_set]
  split
  · rw [if_pos]
    next heq => exact heq ▸ (List.getElem?_eq_some_iff.mp hold).1
  · exact hold

theorem progress_close {answer : ℕ → SignalAnswer}
    (htruthful : ∀ n ∈ s.records, s.Truthful n (answer n))
    (hregistered : ∀ call ∈ s.opens, call.isSpawned = false) (now : ℤ) :
    Progress options s (s.close options answer now) := by
  have hclosing : Inv options { s with closing := true } :=
    ⟨h.ended, h.closed, h.promised, h.attempted, h.registered, h.pending, h.capacity⟩
  have hkept : Kept s { s with closing := true } :=
    .of_append (List.append_nil _).symm (List.append_nil _).symm
  have hattended : Attended { s with closing := true } :=
    ⟨hattended.owned, fun _ => hregistered, fun _ => rfl, hattended.awaited, hattended.done⟩
  obtain ⟨hall, hattempts⟩ := terminates_terminateAll now (s.records.filter s.isRunning) hclosing
    fun n hn => htruthful n (List.mem_filter.mp hn).1
  have heq : s.close options answer now =
      let result := SupervisorState.terminateAll options answer now (s.records.filter s.isRunning)
        { s with closing := true }
      { result.2 with closes := result.2.closes ++ [{ awaits := result.1, succeeded := none }] } := rfl
  rw [heq]
  generalize SupervisorState.terminateAll options answer now (s.records.filter s.isRunning)
    { s with closing := true } = result at hall hattempts ⊢
  obtain ⟨awaits, t⟩ := result
  have hterminated := hattended.of_terminates hall
  refine ⟨⟨hall.inv.ended, hall.inv.closed, hall.inv.promised, hall.inv.attempted,
    hall.inv.registered, hall.inv.pending, hall.inv.capacity⟩, ⟨hterminated.owned,
    hterminated.quiet, fun _ => hall.steady.closing, fun {call} hcall {pty} hpty => ?_,
    fun {call} hcall hsucceeded => ?_⟩,
    hkept.trans (hall.kept.trans (.of_append (List.append_nil _).symm (List.append_nil _).symm))⟩
  · rcases List.mem_append.mp hcall with hold | hnew
    · exact hterminated.awaited hold hpty
    · obtain rfl := List.mem_singleton.mp hnew
      rcases hattended.owned ((hall.steady.alive pty).mp hpty) with ⟨n, hdrives⟩ | ⟨input, hspawned⟩
      · -- the session of a pty that runs is running, before and after
        have hbefore := hclosing.isRunning_of_alive hdrives ((hall.steady.alive pty).mp hpty)
        have hafter := hall.inv.isRunning_of_alive (hall.kept.drives hdrives) hpty
        obtain ⟨a, ha, stage, hstage⟩ := hattempts n
          (List.mem_filter.mpr ⟨hclosing.registered hbefore, hbefore⟩) hbefore hafter
        exact ⟨a, ha, n, stage, hstage, hall.kept.drives hdrives⟩
      · cases hregistered _ hspawned
  · rcases List.mem_append.mp hcall with hold | hnew
    · exact hterminated.done hold hsucceeded
    · obtain rfl := List.mem_singleton.mp hnew
      cases hsucceeded

theorem progress_closed {call : ℕ} {awaits : List ℕ} (hcall : s.closes[call]? = some ⟨awaits, none⟩)
    {succeeded : Bool} (hsettled : succeeded = true → ∀ a ∈ awaits, s.stageOf a = some .resolved) :
    Progress options s { s with closes := s.closes.set call ⟨awaits, some succeeded⟩ } := by
  have hmem := List.mem_of_getElem? hcall
  refine ⟨⟨h.ended, h.closed, h.promised, h.attempted, h.registered, h.pending, h.capacity⟩,
    ⟨hattended.owned, hattended.quiet, fun hfound => ?_, fun {found} hfound {pty} hpty => ?_,
    fun {found} hfound hsucceeded pty hpty => ?_⟩,
    .of_append (List.append_nil _).symm (List.append_nil _).symm⟩
  · rcases List.mem_or_eq_of_mem_set hfound with hold | rfl
    · exact hattended.closing hold
    · exact hattended.closing hmem
  · rcases List.mem_or_eq_of_mem_set hfound with hold | rfl
    · exact hattended.awaited hold hpty
    · exact hattended.awaited hmem hpty
  · rcases List.mem_or_eq_of_mem_set hfound with hold | rfl
    · exact hattended.done hold hsucceeded pty hpty
    · -- the attempt for this pty has been resolved, so its session has ended
      obtain ⟨a, ha, n, stage, hstage, hdrives⟩ := hattended.awaited hmem hpty
      have hresolved := hsettled (Option.some.inj hsucceeded) a ha
      simp only [stageOf, hstage, Option.map_some, Option.some.injEq] at hresolved
      obtain ⟨record, hrecord, hended⟩ := h.attempted hstage
      obtain ⟨found, hfound, hstate⟩ := isRunning_iff.mp (h.isRunning_of_alive hdrives hpty)
      obtain rfl := Option.some.inj (hfound.symm.trans hrecord)
      exact hended hresolved hstate

theorem progress_step {event : SupervisorEvent} (horderly : Orderly s event)
    (hstep : supervisor options s event = some s') : Progress options s s' := by
  cases event with
  | openSession input =>
    obtain rfl := Option.some.inj hstep
    exact progress_openSession h hattended input
  | spawns call =>
    simp only [supervisor] at hstep
    split at hstep
    next input hcall =>
      obtain rfl := Option.some.inj hstep
      exact progress_spawns h hattended hcall horderly
    next => cases hstep
  | spawnFails call =>
    simp only [supervisor] at hstep
    split at hstep
    next input hcall =>
      obtain rfl := Option.some.inj hstep
      exact progress_failOpen h hattended hcall
    next => cases hstep
  | finishOpen call now newSessionId =>
    simp only [supervisor] at hstep
    split at hstep
    next input pty hcall =>
      obtain rfl := Option.some.inj hstep
      exact progress_finishOpen h hattended hcall horderly now
    next => cases hstep
  | write sessionId data =>
    obtain rfl := Option.some.inj hstep
    exact .of_terminates hattended (terminates_write h sessionId data)
  | resize sessionId size =>
    obtain rfl := Option.some.inj hstep
    exact .of_terminates hattended (terminates_resize h sessionId size)
  | data n data =>
    obtain rfl := Option.some.inj hstep
    exact .of_terminates hattended (terminates_onData h n data)
  | dies pty =>
    obtain rfl := Option.some.inj hstep
    exact progress_dies h hattended pty
  | exits n event now =>
    simp only [supervisor] at hstep
    split at hstep
    next record hrecord =>
      split at hstep
      next hdead =>
        obtain rfl := Option.some.inj hstep
        exact .of_terminates hattended ⟨h.onExit hrecord hdead event now, kept_onExit n event now,
          ⟨rfl, rfl, rfl, rfl, rfl, rfl⟩⟩
      next => cases hstep
    next => cases hstep
  | stop sessionId answer now =>
    simp only [supervisor] at hstep
    split at hstep
    next htruthful =>
      obtain rfl := Option.some.inj hstep
      exact .of_terminates hattended (terminates_stop h htruthful now)
    next => cases hstep
  | close answer now =>
    simp only [supervisor] at hstep
    split at hstep
    next htruthful =>
      obtain rfl := Option.some.inj hstep
      exact progress_close h hattended htruthful horderly now
    next => cases hstep
  | afterGrace a closedGracefully answer now =>
    simp only [supervisor] at hstep
    split at hstep
    next n hattempt =>
      split at hstep
      next hguard =>
        obtain rfl := Option.some.inj hstep
        exact .of_terminates hattended (terminates_afterGrace h hattempt hguard.1 hguard.2 now)
      next => cases hstep
    next => cases hstep
  | afterClosed a =>
    simp only [supervisor] at hstep
    split at hstep
    next n hattempt =>
      split at hstep
      next hclosed =>
        obtain rfl := Option.some.inj hstep
        exact .of_terminates hattended (terminates_afterClosed h hattempt hclosed)
      next => cases hstep
    next => cases hstep
  | forgetAttempt a =>
    simp only [supervisor] at hstep
    split at hstep
    next n hattempt =>
      obtain rfl := Option.some.inj hstep
      exact .of_terminates hattended (terminates_forgetAttempt h)
    next => cases hstep
  | closed call succeeded =>
    simp only [supervisor] at hstep
    split at hstep
    next awaits hcall =>
      split at hstep
      next hsettled =>
        obtain rfl := Option.some.inj hstep
        exact progress_closed h hattended hcall hsettled.1
      next => cases hstep
    next => cases hstep

theorem owned_of_inv : Owned options s where
  registered {pty} hpty := by
    refine (hattended.owned hpty).imp_left fun ⟨n, hdrives⟩ => ?_
    have hrunning := h.isRunning_of_alive hdrives hpty
    obtain ⟨record, hrecord, hrecordPty⟩ := hdrives
    obtain ⟨found, hfound, hstate⟩ := isRunning_iff.mp hrunning
    obtain rfl := Option.some.inj (hfound.symm.trans hrecord)
    exact ⟨n, h.registered hrunning, found, hfound, hrecordPty, hstate⟩
  closed := hattended.done
  terminated hattempt := by
    obtain ⟨record, hrecord, hended⟩ := h.attempted hattempt
    refine ⟨record, hrecord, hended rfl, fun hpty => ?_⟩
    have hdead := h.ended hrecord (hended rfl)
    rw [show s.ptys[record.pty]? = some true from hpty] at hdead
    cases hdead
  capacity := h.capacity

end

theorem inv_of_run (hinv : Inv options s) (hattended : Attended s)
    (hrun : Machine.Run (supervisor options) Orderly s s') : Progress options s s' := by
  induction hrun with
  | refl => exact ⟨hinv, hattended, .refl _⟩
  | step _ horderly hstep ih =>
    have hnext := progress_step ih.inv ih.attended horderly hstep
    exact ⟨hnext.inv, hnext.attended, ih.kept.trans hnext.kept⟩

/-- In an orderly run the supervisor answers for all of its ptys at any time, and a session that has
ended stays as it is. -/
theorem owned_of_orderly (hrun : Machine.Run (supervisor options) Orderly .initial s) :
    Owned options s ∧
      ∀ s', Machine.Run (supervisor options) Orderly s s' → Owned options s' ∧ Kept s s' := by
  have h := inv_of_run .initial .initial hrun
  refine ⟨owned_of_inv h.inv h.attended, fun s' hrest => ?_⟩
  have h' := inv_of_run h.inv h.attended hrest
  exact ⟨owned_of_inv h'.inv h'.attended, h'.kept⟩

end Attended

section Example

def plainOptions : TerminalSessionSupervisorOptions :=
  { maxSessions := 2, maxInputBytes := 64, isWin32 := false }

def plainInput : OpenInput :=
  { shellPath := "/bin/zsh", cwd := "/Users/owner", size := { cols := 80, rows := 24 } }

/-- Two sessions: one is stopped with `SIGKILL`, the other ends when the supervisor is closed. -/
def stoppedAndClosed : List SupervisorEvent :=
  [.openSession plainInput, .openSession plainInput, .spawns 1, .finishOpen 1 7 fun _ => "one",
    .write "one" "ls", .spawns 0, .finishOpen 0 8 fun i => if i = 0 then "one" else "two",
    .stop "one" .delivered 9, .afterGrace 0 false .delivered 10, .dies 0,
    .exits 0 { exitCode := 0, signal := some 9 } 11, .afterClosed 0, .close (fun _ => .delivered) 12,
    .dies 1, .exits 1 { exitCode := 1, signal := none } 13, .afterGrace 1 true .delivered 14,
    .closed 0 true]

theorem owned_of_orderly_stoppedAndClosed : ∃ s,
    Machine.Run (supervisor plainOptions) Orderly .initial s ∧
      s.sessions.map (fun record => (record.sessionId, record.state)) =
        [("one", .stopped), ("two", .stopped)] ∧ Owned plainOptions s := by
  have hfinal : ((Machine.followIf (supervisor plainOptions) (fun s e => decide (Orderly s e))
      stoppedAndClosed .initial).map fun s =>
        s.sessions.map fun record => (record.sessionId, record.state)) =
      some [("one", .stopped), ("two", .stopped)] := by decide +kernel
  obtain ⟨s, hs, hsessions⟩ := Option.map_eq_some_iff.mp hfinal
  have hrun : Machine.Run (supervisor plainOptions) Orderly .initial s :=
    Machine.run_of_followIf (fun _ _ h => of_decide_eq_true h) _ hs
  exact ⟨s, hrun, hsessions, (owned_of_orderly hrun).1⟩

/-- A pty is spawned before `close` is called and its session is registered after `close` has
returned; and an `open` that finds no unused identifier leaves its pty to itself. -/
theorem unowned_of_run :
    (∃ s, Machine.Run (supervisor plainOptions) (fun _ _ => True) .initial s ∧
      s.closes.map CloseCall.succeeded = [some true] ∧ s.records = [0] ∧ s.isRunning 0 = true ∧
      ¬ Owned plainOptions s) ∧
    ∃ s, Machine.Run (supervisor plainOptions) (fun _ _ => True) .initial s ∧
      s.Alive 1 ∧ s.sessions.map TerminalSessionRecord.pty = [0] ∧ ¬ Owned plainOptions s := by
  constructor
  · have hfinal : ((Machine.follow (supervisor plainOptions)
        [.openSession plainInput, .spawns 0, .close (fun _ => .delivered) 7, .closed 0 true,
          .finishOpen 0 8 fun _ => "one"] .initial).map fun s =>
          (s.closes.map CloseCall.succeeded, s.records, s.isRunning 0, s.ptys[0]?)) =
        some ([some true], [0], true, some true) := by decide +kernel
    obtain ⟨s, hs, hstate⟩ := Option.map_eq_some_iff.mp hfinal
    simp only [Prod.mk.injEq] at hstate
    obtain ⟨hcloses, hrecords, hrunning, halive⟩ := hstate
    refine ⟨s, Machine.run_of_follow _ hs, hcloses, hrecords, hrunning, fun howned => ?_⟩
    obtain ⟨call, hcall, hsucceeded⟩ := List.mem_map.mp
      (hcloses ▸ List.mem_singleton_self _ : some true ∈ s.closes.map CloseCall.succeeded)
    exact howned.closed hcall hsucceeded 0 halive
  · have hfinal : ((Machine.follow (supervisor plainOptions)
        [.openSession plainInput, .spawns 0, .finishOpen 0 7 fun _ => "one", .openSession plainInput,
          .spawns 1, .finishOpen 1 8 fun _ => "one"] .initial).map fun s =>
          (s.ptys[1]?, s.sessions.map TerminalSessionRecord.pty, s.opens.map OpenCall.isSpawned)) =
        some (some true, [0], [false, false]) := by decide +kernel
    obtain ⟨s, hs, hstate⟩ := Option.map_eq_some_iff.mp hfinal
    simp only [Prod.mk.injEq] at hstate
    obtain ⟨halive, hsessions, hopens⟩ := hstate
    refine ⟨s, Machine.run_of_follow _ hs, halive, hsessions, fun howned => ?_⟩
    rcases howned.registered halive with ⟨n, -, record, hrecord, hpty, -⟩ | ⟨input, hspawned⟩
    · have hmem : record.pty ∈ s.sessions.map TerminalSessionRecord.pty :=
        List.mem_map_of_mem (List.mem_of_getElem? hrecord)
      rw [hsessions, hpty] at hmem
      cases List.mem_singleton.mp hmem
    · have hmem : true ∈ s.opens.map OpenCall.isSpawned := List.mem_map.mpr ⟨_, hspawned, rfl⟩
      rw [hopens] at hmem
      simp at hmem

end Example

end Terminal
