import ChatgptSystem.Foundations.Machine
import Mathlib.Data.Nat.Notation
import Mathlib.Logic.Function.Basic

/-!
# The lock of the auto-updater

`acquireLock` and `releaseLock` (`scripts/auto-update-runtime.mjs`): a directory that one process can
create, with the process identifier of its creator in a file. A process that finds the directory
removes it if the file tells of no process that runs, and creates it again.

* `Phase` — where a process is between its calls of the file system;
* `acquisition` — the machine of all processes: the next operation of one of them, or its end;
* `Spared` — no process removes, as stale, a lock that its creator still has or is about to take;
* `excludes_of_spared` — then at most one process holds the lock, and each releases its own lock only.
-/

namespace AutoUpdate

structure LockDir (ι : Type) where
  /-- Ghost: the process that has created it. -/
  creator : ι
  /-- The text of the file `pid`. -/
  pid : Option String
  deriving DecidableEq

/-- Where a process is: between two operations, named by the one that comes next. -/
inductive Phase where
  /-- The first `mkdir`. -/
  | acquiring
  /-- The `writeFile` behind a `mkdir`. -/
  | writing
  /-- The `readFile` of a lock that is there. -/
  | reading
  /-- `process.kill(pid, 0)`. -/
  | signalling (pid : ℕ)
  /-- `rm` of a stale lock: its file, and then the directory. -/
  | breaking
  | breakingDir
  /-- The second `mkdir`. -/
  | retrying
  /-- `acquireLock` has returned `true`. -/
  | holding
  /-- `releaseLock`: the file, and then the directory. -/
  | releasing
  | releasingDir
  /-- The process has skipped its round, failed or released the lock. -/
  | finished
  | crashed
  deriving DecidableEq

namespace Phase

/-- The process has created the lock and has not finished to release it. -/
def isActive : Phase → Bool
  | .writing | .holding | .releasing | .releasingDir => true
  | _ => false

def isBreaking : Phase → Bool
  | .breaking | .breakingDir => true
  | _ => false

end Phase

/-- The lock directory and the processes, each of which acquires the lock once. -/
structure LockState (ι : Type) where
  lock : Option (LockDir ι)
  phase : ι → Phase

inductive LockChoice where
  | done
  | fails
  /-- Whether `process.kill(pid, 0)` finds a process that it may signal. -/
  | signalled (found : Bool)
  /-- The process ends before it. -/
  | crashes
  deriving DecidableEq

/-- `Number(pidText)` of a text of digits, which may be empty. -/
def integerOf (pidText : String) : Option ℕ :=
  if pidText.toList.all Char.isDigit then
    some (pidText.toList.foldl (fun n c => 10 * n + (c.toNat - '0'.toNat)) 0)
  else none

section Acquisition

variable {ι : Type} [DecidableEq ι]

namespace LockState

def initial : LockState ι := ⟨none, fun _ => .acquiring⟩

def goTo (s : LockState ι) (i : ι) (p : Phase) : LockState ι :=
  { s with phase := Function.update s.phase i p }

/-- `mkdir` where there is no directory. -/
def create (s : LockState ι) (i : ι) : LockState ι := { s.goTo i .writing with lock := some ⟨i, none⟩ }

def setPid (s : LockState ι) (pid : Option String) : LockState ι :=
  { s with lock := s.lock.map fun dir => { dir with pid := pid } }

/-- `rmdir`: the process goes on to a phase, unless the directory has a file again. -/
def removeDir (s : LockState ι) (i : ι) (next : Phase) : LockState ι :=
  match s.lock with
  | none => s.goTo i next
  | some dir =>
    match dir.pid with
    | none => { s.goTo i next with lock := none }
    | some _ => s.goTo i .finished

end LockState

def operate (pid : ι → ℕ) (i : ι) (s : LockState ι) : Phase → LockChoice → Option (LockState ι)
  | .finished, _ | .crashed, _ => none
  | _, .crashes => some (s.goTo i .crashed)
  -- an operation that fails ends `acquireLock`, except that a file that cannot be read is stale
  | .reading, .fails => some (s.goTo i .breaking)
  | .holding, .fails => some (s.goTo i .releasing)
  | .signalling _, .fails => none
  | _, .fails => some (s.goTo i .finished)
  | .acquiring, .done =>
    match s.lock with
    | none => some (s.create i)
    | some _ => some (s.goTo i .reading)
  | .writing, .done =>
    match s.lock with
    | none => some (s.goTo i .finished)
    | some _ => some ((s.setPid (some (toString (pid i)))).goTo i .holding)
  | .reading, .done =>
    match s.lock.bind (·.pid) with
    | none => some (s.goTo i .breaking)
    | some pidText =>
      match integerOf pidText with
      | none => some (s.goTo i .breaking)
      | some pid => some (s.goTo i (.signalling pid))
  -- the process 0 is the own group, which is always found
  | .signalling pid, .signalled found =>
    if pid = 0 ∧ found = false then none
    else if found then some (s.goTo i .finished) else some (s.goTo i .breaking)
  | .breaking, .done => some ((s.setPid none).goTo i .breakingDir)
  | .breakingDir, .done => some (s.removeDir i .retrying)
  | .retrying, .done =>
    match s.lock with
    | none => some (s.create i)
    | some _ => some (s.goTo i .finished)
  | .holding, .done => some (s.goTo i .releasing)
  | .releasing, .done => some ((s.setPid none).goTo i .releasingDir)
  | .releasingDir, .done => some (s.removeDir i .finished)
  | _, _ => none

/-- The processes with their identifiers: the next operation of one of them. -/
def acquisition (pid : ι → ℕ) : Machine (LockState ι) (ι × LockChoice) := fun s (i, choice) =>
  operate pid i s (s.phase i) choice

/-- At most one process believes that it holds the lock, and a lock that is being released is that of
the process that releases it. -/
structure Excludes (s : LockState ι) : Prop where
  holding : ∀ i j, s.phase i = .holding → s.phase j = .holding → i = j
  released : ∀ i dir, s.phase i = .releasing ∨ s.phase i = .releasingDir → s.lock = some dir →
    dir.creator = i

/-- The operation does not remove, as stale, the lock of a process that is still to write its
identifier, holds the lock or is about to finish its release. -/
def Spared (s : LockState ι) (event : ι × LockChoice) : Prop :=
  (s.phase event.1).isBreaking = true → ∀ dir ∈ s.lock, (s.phase dir.creator).isActive = false

instance (s : LockState ι) (event : ι × LockChoice) : Decidable (Spared s event) :=
  match h : s.lock with
  | none => isTrue fun _ dir hdir => by
      rw [h] at hdir
      cases hdir
  | some dir =>
    decidable_of_iff
      ((s.phase event.1).isBreaking = true → (s.phase dir.creator).isActive = false) (by
        rw [Spared, h]
        simp)

/-! ## Runs in which no such lock is removed -/

def LockState.creator? (s : LockState ι) : Option ι := s.lock.map (·.creator)

def Owned (s : LockState ι) : Prop :=
  ∀ i, (s.phase i).isActive = true → s.creator? = some i

omit [DecidableEq ι] in
theorem Owned.excludes {s : LockState ι} (h : Owned s) : Excludes s where
  holding i j hi hj := by
    have hown : s.creator? = some i := h i (by rw [hi]; rfl)
    have hother : s.creator? = some j := h j (by rw [hj]; rfl)
    exact Option.some.inj (hown.symm.trans hother)
  released i dir hi hdir := by
    have hown : s.creator? = some i := h i (by rcases hi with hi | hi <;> rw [hi] <;> rfl)
    rw [LockState.creator?, hdir] at hown
    exact Option.some.inj hown

theorem operate_cases {pid : ι → ℕ} {s s' : LockState ι} {event : ι × LockChoice}
    (h : acquisition pid s event = some s') :
    (s.lock = none ∧ s' = s.create event.1) ∨
    (∃ p : Phase, s'.creator? = s.creator? ∧ s'.phase = Function.update s.phase event.1 p ∧
      (p.isActive = true → (s.phase event.1).isActive = true)) ∨
    ∃ p : Phase, (s.phase event.1 = .breakingDir ∨ s.phase event.1 = .releasingDir) ∧
      s'.lock = none ∧ s'.phase = Function.update s.phase event.1 p ∧ p.isActive = false := by
  obtain ⟨i, choice⟩ := event
  have hsetPid (pid : Option String) : (s.setPid pid).creator? = s.creator? := by
    unfold LockState.setPid LockState.creator?
    cases s.lock <;> rfl
  have hkept {p : Phase} {next : LockState ι} (hs : some (next.goTo i p) = some s')
      (hcreator : next.creator? = s.creator?) (hphase : next.phase = s.phase)
      (hp : p.isActive = true → (s.phase i).isActive = true) :
      ∃ p : Phase, s'.creator? = s.creator? ∧ s'.phase = Function.update s.phase i p ∧
        (p.isActive = true → (s.phase i).isActive = true) := by
    obtain rfl := Option.some.inj hs
    exact ⟨p, hcreator, hphase ▸ rfl, hp⟩
  have hremoved {next : Phase} (hs : some (s.removeDir i next) = some s')
      (hdir : s.phase i = .breakingDir ∨ s.phase i = .releasingDir) (hnext : next.isActive = false) :
      (∃ p : Phase, s'.creator? = s.creator? ∧ s'.phase = Function.update s.phase i p ∧
        (p.isActive = true → (s.phase i).isActive = true)) ∨
      ∃ p : Phase, (s.phase i = .breakingDir ∨ s.phase i = .releasingDir) ∧
        s'.lock = none ∧ s'.phase = Function.update s.phase i p ∧ p.isActive = false := by
    unfold LockState.removeDir at hs
    split at hs
    next hlock =>
      obtain rfl := Option.some.inj hs
      exact .inr ⟨next, hdir, hlock, rfl, hnext⟩
    next =>
    split at hs
    · obtain rfl := Option.some.inj hs
      exact .inr ⟨next, hdir, rfl, rfl, hnext⟩
    · exact .inl (hkept hs rfl rfl nofun)
  have hoperate : operate pid i s (s.phase i) choice = some s' := h
  generalize hphase : s.phase i = phase at hoperate hkept hremoved
  unfold operate at hoperate
  split at hoperate
  · cases hoperate
  · cases hoperate
  · exact .inr (.inl (hkept hoperate rfl rfl nofun))
  · exact .inr (.inl (hkept hoperate rfl rfl nofun))
  · exact .inr (.inl (hkept hoperate rfl rfl fun _ => rfl))
  · cases hoperate
  · exact .inr (.inl (hkept hoperate rfl rfl nofun))
  -- the first `mkdir`
  · split at hoperate
    next hlock => exact .inl ⟨hlock, (Option.some.inj hoperate).symm⟩
    next => exact .inr (.inl (hkept hoperate rfl rfl nofun))
  -- the identifier is written
  · split at hoperate
    · exact .inr (.inl (hkept hoperate rfl rfl nofun))
    · exact .inr (.inl (hkept hoperate (hsetPid _) rfl fun _ => rfl))
  -- the lock of another process is looked at
  · split at hoperate
    · exact .inr (.inl (hkept hoperate rfl rfl nofun))
    · split at hoperate
      · exact .inr (.inl (hkept hoperate rfl rfl nofun))
      · exact .inr (.inl (hkept hoperate rfl rfl nofun))
  · split at hoperate
    · cases hoperate
    · split at hoperate
      · exact .inr (.inl (hkept hoperate rfl rfl nofun))
      · exact .inr (.inl (hkept hoperate rfl rfl nofun))
  · exact .inr (.inl (hkept hoperate (hsetPid _) rfl nofun))
  · exact .inr (hremoved hoperate (.inl rfl) rfl)
  -- the second `mkdir`
  · split at hoperate
    next hlock => exact .inl ⟨hlock, (Option.some.inj hoperate).symm⟩
    next => exact .inr (.inl (hkept hoperate rfl rfl nofun))
  · exact .inr (.inl (hkept hoperate rfl rfl fun _ => rfl))
  · exact .inr (.inl (hkept hoperate (hsetPid _) rfl fun _ => rfl))
  · exact .inr (hremoved hoperate (.inr rfl) rfl)
  · cases hoperate

theorem Owned.operate {pid : ι → ℕ} {s s' : LockState ι} {event : ι × LockChoice} (h : Owned s)
    (hspared : Spared s event) (hstep : acquisition pid s event = some s') : Owned s' := by
  intro j hj
  rcases operate_cases hstep with
    ⟨hlock, rfl⟩ | ⟨p, hcreator, hphase, hp⟩ | ⟨p, hdir, -, hphase, hp⟩
  · by_cases hne : j = event.1
    · rw [hne]
      rfl
    -- there was no lock, so no process was active
    · have hactive : (s.phase j).isActive = true := by
        have hsame : (s.create event.1).phase j = s.phase j := Function.update_of_ne hne ..
        rwa [hsame] at hj
      have hown := h j hactive
      rw [LockState.creator?, hlock] at hown
      cases hown
  · rw [hcreator]
    refine h j ?_
    by_cases hne : j = event.1
    · subst hne
      rw [hphase, Function.update_self] at hj
      exact hp hj
    · rwa [hphase, Function.update_of_ne hne] at hj
  · have hne : j ≠ event.1 := by
      rintro rfl
      rw [hphase, Function.update_self, hp] at hj
      cases hj
    have hactive : (s.phase j).isActive = true := by
      rwa [hphase, Function.update_of_ne hne] at hj
    have hown := h j hactive
    rcases hdir with hdir | hdir
    · obtain ⟨dir, hlock, hcreator⟩ := Option.map_eq_some_iff.mp hown
      have hinactive := hspared (by rw [hdir]; rfl) dir hlock
      rw [hcreator, hactive] at hinactive
      cases hinactive
    · have hother := h event.1 (by rw [hdir]; rfl)
      exact absurd (Option.some.inj (hown.symm.trans hother)) hne

/-- Whatever the processes do and wherever they crash, the lock excludes as long as no process removes,
as stale, the lock of one that is active. -/
theorem excludes_of_spared {pid : ι → ℕ} {s : LockState ι}
    (hrun : Machine.Run (acquisition pid) Spared .initial s) : Excludes s :=
  Owned.excludes (hrun.invariant (fun _ _ _ h => Owned.operate h) fun _ hi => nomatch hi)

end Acquisition

/-! ## Two processes -/

section Example

/-- The process `0` has crashed with the lock; the process `1` takes it over and releases it. -/
def takenOver : List (Fin 2 × LockChoice) :=
  [(0, .done), (0, .done), (0, .crashes), (1, .done), (1, .done), (1, .signalled false), (1, .done),
    (1, .done), (1, .done), (1, .done)]

theorem excludes_of_spared_takenOver : ∃ s : LockState (Fin 2),
    Machine.Run (acquisition fun i => i.val + 1) Spared .initial s ∧
      s.phase 0 = .crashed ∧ s.phase 1 = .holding ∧ Excludes s := by
  have hfinal : (Machine.followIf (acquisition fun i : Fin 2 => i.val + 1)
      (fun s e => decide (Spared s e)) takenOver .initial).map (fun s => (s.phase 0, s.phase 1)) =
      some (.crashed, .holding) := by decide +kernel
  obtain ⟨s, hs, hphases⟩ := Option.map_eq_some_iff.mp hfinal
  obtain ⟨hzero, hone⟩ := Prod.mk.inj hphases
  have hrun : Machine.Run (acquisition fun i => i.val + 1) Spared .initial s :=
    Machine.run_of_followIf (fun _ _ h => of_decide_eq_true h) _ hs
  exact ⟨s, hrun, hzero, hone, excludes_of_spared hrun⟩

/-- The process `1` finds the lock before the process `0` has written its identifier. -/
def early : List (Fin 2 × LockChoice) :=
  [(0, .done), (1, .done), (1, .done), (1, .done), (1, .done), (1, .done), (0, .done), (1, .done)]

/-- Both processes hold the lock, and the release of one removes the lock of the other. -/
theorem both_hold_early :
    (∃ s : LockState (Fin 2), Machine.Run (acquisition fun i => i.val + 1) (fun _ _ => True) .initial s ∧
      s.phase 0 = .holding ∧ s.phase 1 = .holding) ∧
    ∃ s s' : LockState (Fin 2),
      Machine.Run (acquisition fun i => i.val + 1) (fun _ _ => True) .initial s ∧
      s.phase 0 = .releasingDir ∧ s.phase 1 = .holding ∧ s.creator? = some 1 ∧
      acquisition (fun i => i.val + 1) s (0, .done) = some s' ∧ s'.lock = none := by
  constructor
  · have hfinal : (Machine.follow (acquisition fun i : Fin 2 => i.val + 1) early .initial).map
        (fun s => (s.phase 0, s.phase 1)) = some (.holding, .holding) := by decide +kernel
    obtain ⟨s, hs, hphases⟩ := Option.map_eq_some_iff.mp hfinal
    exact ⟨s, Machine.run_of_follow _ hs, Prod.mk.inj hphases⟩
  · have hfinal : (Machine.follow (acquisition fun i : Fin 2 => i.val + 1)
        (early ++ [(0, .done), (0, .done)]) .initial).map (fun s =>
          (s.phase 0, s.phase 1, s.creator?,
            (acquisition (fun i => i.val + 1) s (0, .done)).map (·.lock))) =
        some (.releasingDir, .holding, some 1, some none) := by decide +kernel
    obtain ⟨s, hs, hstate⟩ := Option.map_eq_some_iff.mp hfinal
    simp only [Prod.mk.injEq] at hstate
    obtain ⟨hzero, hone, hcreator, hlast⟩ := hstate
    obtain ⟨s', hs', hlock⟩ := Option.map_eq_some_iff.mp hlast
    exact ⟨s, s', Machine.run_of_follow _ hs, hzero, hone, hcreator, hs', hlock⟩

end Example

end AutoUpdate
