import ChatgptSystem.Project.ProjectCheckRun

/-!
# The stored evidence under concurrent runs

Any number of runs work on the stores at the same time. Each loads a store once, and replaces the
whole store by its own copy after each check. The stored evidence of a check should be what was
persisted last.

* `lastPersisted` — the evidence persisted last; `Current` — the stored evidence is that one;
* `seen` — the part of the history a run knows;
* `Conforming` — whenever a run persisted a check, it had seen the latest evidence of all others;
* `Moves` — what one operation of a run does to the stores and the history;
* `current_iff_conforming` — the stored evidence is current throughout a run exactly when the
  run is conforming.
-/

open Interleaving

namespace ProjectCheckService

variable {ι : Type}

abbrev Evidence : Type := String → String → Option StoredProjectCheckEvidence

def lastPersisted (base : Evidence) (fingerprint checkId : String) :
    List (Event ι) → Option StoredProjectCheckEvidence
  | [] => base fingerprint checkId
  | .loaded _ :: earlier => lastPersisted base fingerprint checkId earlier
  | .persisted _ fingerprint' checkId' evidence :: earlier =>
    if fingerprint' = fingerprint ∧ checkId' = checkId then evidence
    else lastPersisted base fingerprint checkId earlier

/-- The stored evidence of every check is that of the execution persisted last. -/
def Current (base : Evidence) (disk : Disk ι) : Prop :=
  ∀ fingerprint checkId,
    disk.stored fingerprint checkId = lastPersisted base fingerprint checkId disk.history

variable [DecidableEq ι]

/-- What a run knows of the history: all of it up to the load of the store, and since then the
executions it has persisted itself. -/
def seen (i : ι) : List (Event ι) → List (Event ι)
  | [] => []
  | .loaded j :: earlier => if j = i then earlier else seen i earlier
  | .persisted j fingerprint checkId evidence :: earlier =>
    if j = i then .persisted j fingerprint checkId evidence :: seen i earlier
    else seen i earlier

/-- The run has seen the latest evidence of every check but the one it has just executed. -/
def SeesLatest (base : Evidence) (i : ι) (fingerprint executed : String)
    (history : List (Event ι)) : Prop :=
  ∀ checkId ≠ executed, lastPersisted base fingerprint checkId (seen i history) =
    lastPersisted base fingerprint checkId history

/-- Whenever a run persisted a check, it had seen the latest evidence of all other checks. -/
def Conforming (base : Evidence) : List (Event ι) → Prop
  | [] => True
  | .loaded _ :: earlier => Conforming base earlier
  | .persisted i fingerprint executed _ :: earlier =>
    SeesLatest base i fingerprint executed earlier ∧ Conforming base earlier

/-! ## One operation -/

/-- What one operation of a run does to the stores and the history. -/
inductive Moves (base : Evidence) (i : ι) (s s' : Disk ι) : Prop where
  | still (hlatest : s'.latest = s.latest) (hhistory : s'.history = s.history)
  | loads (hlatest : s'.latest = s.latest) (hhistory : s'.history = .loaded i :: s.history)
  | persists (fingerprint executed : String) (evidence : Option StoredProjectCheckEvidence)
      (hhistory : s'.history = .persisted i fingerprint executed evidence :: s.history)
      (hexecuted : s'.stored fingerprint executed = evidence)
      (hothers : Conforming base s.history → ∀ checkId ≠ executed,
        s'.stored fingerprint checkId =
          lastPersisted base fingerprint checkId (seen i s.history))
      (helsewhere : ∀ f ≠ fingerprint, s'.latest f = s.latest f)

namespace Moves

variable {base : Evidence} {i : ι} {s s' : Disk ι}

omit [DecidableEq ι] in
theorem stored_congr {f : String} (h : s'.latest f = s.latest f) (checkId : String) :
    s'.stored f checkId = s.stored f checkId := by
  unfold Disk.stored
  rw [h]

section

variable (h : Moves base i s s')

include h

theorem conforming (hconforming : Conforming base s'.history) : Conforming base s.history := by
  cases h with
  | still _ hhistory => exact hhistory ▸ hconforming
  | loads _ hhistory =>
    rw [hhistory] at hconforming
    exact hconforming
  | persists _ _ _ hhistory _ _ _ =>
    rw [hhistory] at hconforming
    exact hconforming.2

theorem seen_eq {j : ι} (hj : i ≠ j) : seen j s'.history = seen j s.history := by
  cases h with
  | still _ hhistory => rw [hhistory]
  | loads _ hhistory => rw [hhistory, seen, if_neg hj]
  | persists _ _ _ hhistory _ _ _ => rw [hhistory, seen, if_neg hj]

theorem current (hconforming : Conforming base s'.history) (hcurrent : Current base s) :
    Current base s' := by
  intro f checkId
  cases h with
  | still hlatest hhistory =>
    rw [hhistory, stored_congr (congrFun hlatest f)]
    exact hcurrent f checkId
  | loads hlatest hhistory =>
    rw [hhistory, stored_congr (congrFun hlatest f)]
    exact hcurrent f checkId
  | persists fingerprint executed evidence hhistory hexecuted hothers helsewhere =>
    rw [hhistory] at hconforming ⊢
    obtain ⟨hsees, hearlier⟩ := hconforming
    by_cases hf : f = fingerprint
    · subst hf
      by_cases hid : checkId = executed
      · subst hid
        simp [lastPersisted, hexecuted]
      · rw [hothers hearlier checkId hid, hsees checkId hid]
        simp [lastPersisted, Ne.symm hid]
    · rw [stored_congr (helsewhere f hf), hcurrent f checkId]
      simp [lastPersisted, Ne.symm hf]

theorem conforming_of_current (hconforming : Conforming base s.history)
    (hcurrent : Current base s') : Conforming base s'.history := by
  cases h with
  | still _ hhistory => exact hhistory ▸ hconforming
  | loads _ hhistory => exact hhistory ▸ hconforming
  | persists fingerprint executed evidence hhistory _ hothers _ =>
    rw [hhistory]
    refine ⟨fun checkId hid => ?_, hconforming⟩
    have hstored := hcurrent fingerprint checkId
    rw [hothers hconforming checkId hid, hhistory] at hstored
    simpa [lastPersisted, Ne.symm hid] using hstored

theorem persisted_of_changed (hconforming : Conforming base s'.history) (hcurrent : Current base s)
    {f checkId : String} (hchanged : s'.stored f checkId ≠ s.stored f checkId) :
    ∃ evidence, s'.history = .persisted i f checkId evidence :: s.history := by
  have hcurrent' := h.current hconforming hcurrent
  cases h with
  | still hlatest _ => exact absurd (stored_congr (congrFun hlatest f) checkId) hchanged
  | loads hlatest _ => exact absurd (stored_congr (congrFun hlatest f) checkId) hchanged
  | persists fingerprint executed evidence hhistory _ _ _ =>
    rw [hcurrent' f checkId, hcurrent f checkId, hhistory, lastPersisted] at hchanged
    split at hchanged
    next heq =>
      obtain ⟨rfl, rfl⟩ := heq
      exact ⟨evidence, hhistory⟩
    next => exact absurd rfl hchanged

end

end Moves

/-! ## The protocol of the runs -/

/-- The files that a run may count on: its own temporary ones. -/
def KeepsFilesOf (p : ι → Prop) (s s' : Disk ι) : Prop :=
  ∀ fingerprint uuid file, s.temporary fingerprint uuid = some file → p file.owner →
    s'.temporary fingerprint uuid = some file

/-- The stores are current as long as the history conforms; a run keeps its temporary files and
what it has seen of the history. -/
def evidenceProtocol (base : Evidence) : Protocol ι (Disk ι) where
  inv s := Conforming base s.history → Current base s
  rely i s s' := KeepsFilesOf (· = i) s s' ∧ seen i s'.history = seen i s.history ∧
    (Conforming base s'.history → Conforming base s.history)
  guar i s s' := Moves base i s s' ∧ KeepsFilesOf (· ≠ i) s s'
  rely_refl _ _ := ⟨fun _ _ _ h _ => h, rfl, id⟩
  rely_trans _ _ _ _ h h' := ⟨fun _ _ _ hf ho => h'.1 _ _ _ (h.1 _ _ _ hf ho) ho,
    h'.2.1.trans h.2.1, h.2.2 ∘ h'.2.2⟩
  guar_rely hne _ _ h :=
    ⟨fun _ _ _ hf ho => h.2 _ _ _ hf (ho ▸ Ne.symm hne), h.1.seen_eq hne, h.1.conforming⟩

abbrev Wp {α : Type} (base : Evidence) (i : ι) (Q : α → Disk ι → Prop)
    (E : AppError → Disk ι → Prop) (p : CheckM α) (s : Disk ι) : Prop :=
  p.wp (exec i) (evidenceProtocol base) i Q E s

/-- What a run fails with is not of interest here; what matters is what it does before. -/
def anyError (_ : AppError) (_ : Disk ι) : Prop := True

/-- Nothing another run does invalidates the assertion. -/
def Stable (base : Evidence) (i : ι) (A : Disk ι → Prop) : Prop :=
  ∀ s s', A s → (evidenceProtocol base).rely i s s' → A s'

/-- The evidence of a store in memory is what the run has seen of the history. -/
def Knows (base : Evidence) (i : ι) (fingerprint : String)
    (evidence : List (String × StoredProjectCheckEvidence)) (s : Disk ι) : Prop :=
  Conforming base s.history → ∀ checkId,
    evidenceOf checkId evidence = lastPersisted base fingerprint checkId (seen i s.history)

def Holds (fingerprint uuid : String) (file : Temporary ι) (s : Disk ι) : Prop :=
  s.temporary fingerprint uuid = some file

/-! ## What each operation does -/

section Operations

variable {i : ι} {s s' : Disk ι} {f u : String}

def CheckOp.touchesDisk : CheckOp → Bool
  | .readStore _ | .openWx _ _ _ | .writeFile _ _ _ | .rename _ _ | .unlink _ _ => true
  | _ => false

omit [DecidableEq ι] in
theorem exec_quiet {o : CheckOp} (ho : o.touchesDisk = false) {r : o.Res}
    (h : exec i o s r s') : s' = s := by
  obtain ⟨choice, h⟩ := h
  cases o with
  | readStore _ | openWx _ _ _ | writeFile _ _ _ | rename _ _ | unlink _ _ => cases ho
  | _ => cases choice <;> cases h <;> rfl

omit [DecidableEq ι] in
theorem exec_readStore {r : Except Errno StoreFile} (h : exec i (.readStore f) s r s') :
    (s.latest f = none ∧ r = .error .ENOENT ∧ s' = s.record (.loaded i)) ∨
      (∃ file, s.latest f = some file ∧ r = .ok file ∧ s' = s.record (.loaded i)) ∨
      ∃ code, code ≠ .ENOENT ∧ r = .error code ∧ s' = s := by
  obtain ⟨choice, h⟩ := h
  cases choice with
  | done =>
    cases hfile : s.latest f with
    | none =>
      simp only [CheckOp.apply, hfile] at h
      cases h
      exact .inl ⟨rfl, rfl, rfl⟩
    | some file =>
      simp only [CheckOp.apply, hfile] at h
      cases h
      exact .inr (.inl ⟨file, rfl, rfl, rfl⟩)
  | fails code =>
    by_cases hcode : code = .ENOENT
    · simp [CheckOp.apply, hcode] at h
    · simp only [CheckOp.apply, hcode, if_false] at h
      cases h
      exact .inr (.inr ⟨code, hcode, rfl, rfl⟩)
  | _ => exact nomatch h

variable {r : Except Errno Unit}

section

omit [DecidableEq ι]

theorem exec_openWx {executed : String} (h : exec i (.openWx f u executed) s r s') :
    (∃ code, r = .error code ∧ s' = s) ∨
      (r = .ok () ∧ s.temporary f u = none ∧
        s' = s.setTemporary f u (some ⟨⟨0, .invalidJson⟩, i, executed⟩)) := by
  obtain ⟨choice, h⟩ := h
  cases choice with
  | done =>
    cases hfile : s.temporary f u with
    | none =>
      simp only [CheckOp.apply, hfile] at h
      cases h
      exact .inr ⟨rfl, rfl, rfl⟩
    | some file =>
      simp only [CheckOp.apply, hfile] at h
      cases h
      exact .inl ⟨_, rfl, rfl⟩
  | fails code =>
    cases h
    exact .inl ⟨code, rfl, rfl⟩
  | _ => exact nomatch h

theorem exec_writeFile {content : StoreFile} {file : Temporary ι}
    (hfile : s.temporary f u = some file) (h : exec i (.writeFile f u content) s r s') :
    (r = .ok () ∧ s' = s.setTemporary f u (some { file with content })) ∨
      ∃ code, r = .error code ∧
        (s' = s ∨ ∃ left, s' = s.setTemporary f u (some { file with content := left })) := by
  obtain ⟨choice, h⟩ := h
  cases choice with
  | done =>
    simp only [CheckOp.apply, hfile] at h
    cases h
    exact .inl ⟨rfl, rfl⟩
  | torn code left =>
    simp only [CheckOp.apply, hfile] at h
    cases h
    exact .inr ⟨code, rfl, .inr ⟨left, rfl⟩⟩
  | fails code =>
    simp only [CheckOp.apply] at h
    cases h
    exact .inr ⟨code, rfl, .inl rfl⟩
  | _ =>
    simp only [CheckOp.apply] at h
    cases h

theorem exec_rename {file : Temporary ι} (hfile : s.temporary f u = some file)
    (h : exec i (.rename f u) s r s') :
    (r = .ok () ∧ s' = s.replaceStore i f u file) ∨ ∃ code, r = .error code ∧ s' = s := by
  obtain ⟨choice, h⟩ := h
  cases choice with
  | done =>
    simp only [CheckOp.apply, hfile] at h
    cases h
    exact .inl ⟨rfl, rfl⟩
  | fails code =>
    cases h
    exact .inr ⟨code, rfl, rfl⟩
  | _ => exact nomatch h

theorem exec_unlink (h : exec i (.unlink f u) s r s') : s' = s ∨ s' = s.setTemporary f u none := by
  obtain ⟨choice, h⟩ := h
  cases choice with
  | done =>
    cases h
    exact .inr rfl
  | fails code =>
    cases h
    exact .inl rfl
  | _ => exact nomatch h

end

end Operations

section Rules

variable {base : Evidence} {i : ι} {α : Type} {Q : α → Disk ι → Prop} {E : AppError → Disk ι → Prop}
  {A : Disk ι → Prop} {s : Disk ι}

theorem stable_true : Stable base i (fun _ : Disk ι => True) := fun _ _ _ _ => trivial

theorem stable_knows {fingerprint : String}
    {evidence : List (String × StoredProjectCheckEvidence)} :
    Stable base i (Knows base i fingerprint evidence) := by
  intro s s' h hrely hconforming checkId
  rw [hrely.2.1]
  exact h (hrely.2.2 hconforming) checkId

theorem stable_holds {fingerprint uuid : String} (file : Temporary ι) (howner : file.owner = i) :
    Stable base i (Holds fingerprint uuid file) :=
  fun _ _ h hrely => hrely.1 _ _ _ h howner

theorem Stable.and {B : Disk ι → Prop} (hA : Stable base i A) (hB : Stable base i B) :
    Stable base i fun s => A s ∧ B s :=
  fun s s' h hrely => ⟨hA s s' h.1 hrely, hB s s' h.2 hrely⟩

theorem wp_pure {a : α} (hA : Stable base i A) (h : A s) (hQ : ∀ t, A t → Q a t) :
    Wp base i Q E (.pure a) s :=
  fun t hrely _ => hQ t (hA s t h hrely)

theorem wp_throw {e : AppError} : Wp base i Q anyError (.throw e : CheckM α) s :=
  fun _ _ _ => trivial

theorem wp_quiet {o : CheckOp} {k : o.Res → CheckM α} (ho : o.touchesDisk = false)
    (hA : Stable base i A) (h : A s) (hk : ∀ r t, A t → (evidenceProtocol base).inv t →
      Wp base i Q E (k r) t) : Wp base i Q E (.request o k) s := by
  intro t hrely hinv r t' hx
  obtain rfl := exec_quiet ho hx
  exact ⟨hinv, ⟨.still rfl rfl, fun _ _ _ hf _ => hf⟩, hk r t' (hA s t' h hrely) hinv⟩

theorem inv_of_moves {s' : Disk ι} (h : Moves base i s s')
    (hinv : (evidenceProtocol base).inv s) : (evidenceProtocol base).inv s' :=
  fun hconforming => h.current hconforming (hinv (h.conforming hconforming))

theorem wp_loadStore (observation : RepositoryStateObservation) :
    Wp base i (fun store t => Knows base i observation.projectFingerprint store.evidence t) anyError
      (loadStore observation) s := by
  intro t hrely hinv r t' hx
  have hloads : Moves base i t (t.record (.loaded i)) := .loads rfl rfl
  have hinv' := inv_of_moves hloads hinv
  have hguar : (evidenceProtocol base).guar i t (t.record (.loaded i)) :=
    ⟨hloads, fun _ _ _ hf _ => hf⟩
  have hloaded : ∀ evidence, (∀ checkId, evidenceOf checkId evidence =
      t.stored observation.projectFingerprint checkId) →
      Knows base i observation.projectFingerprint evidence (t.record (.loaded i)) := by
    intro evidence hevidence hconforming checkId
    rw [hevidence, hinv hconforming, Disk.record, seen, if_pos rfl]
  rcases exec_readStore hx with ⟨hnone, rfl, rfl⟩ | ⟨file, hfile, rfl, rfl⟩ |
    ⟨code, hcode, rfl, rfl⟩
  · refine ⟨hinv', hguar, wp_pure stable_knows (hloaded [] fun checkId => ?_) fun _ h => h⟩
    simp [Disk.stored, hnone, evidenceOf]
  · refine ⟨hinv', hguar, ?_⟩
    show Wp base i _ anyError (Program.ofExcept (parseStore observation file)) _
    cases hparse : parseStore observation file with
    | error e => exact wp_throw
    | ok parsed =>
      refine wp_pure stable_knows (hloaded parsed.evidence fun checkId => ?_) fun _ h => h
      simp [Disk.stored, hfile, StoreFile.evidence, parseStore_ok hparse]
  · refine ⟨hinv, ⟨.still rfl rfl, fun _ _ _ hf _ => hf⟩, ?_⟩
    cases code <;> first | exact absurd rfl hcode | exact wp_throw

theorem wp_throwing {β : Type} {r : Except Errno β} {g : β → CheckM α}
    (h : ∀ b, r = .ok b → Wp base i Q anyError (g b) s) :
    Wp base i Q anyError ((throwing r).bind g) s := by
  cases r with
  | ok b => exact h b rfl
  | error code => exact wp_throw

theorem wp_ofExcept {β : Type} {r : Except AppError β} {g : β → CheckM α}
    (h : ∀ b, r = .ok b → Wp base i Q anyError (g b) s) :
    Wp base i Q anyError ((Program.ofExcept r).bind g) s := by
  cases r with
  | ok b => exact h b rfl
  | error e => exact wp_throw

theorem wp_pure_bind {β : Type} {b : β} {g : β → CheckM α} (h : Wp base i Q E (g b) s) :
    Wp base i Q E ((Program.pure b).bind g) s := h

omit [DecidableEq ι] in
theorem keeps_setTemporary {f u : String} {file : Option (Temporary ι)}
    (hown : ∀ old, s.temporary f u = some old → old.owner = i) :
    KeepsFilesOf (· ≠ i) s (s.setTemporary f u file) := by
  intro f' u' other hother hne
  show (if f' = f ∧ u' = u then file else s.temporary f' u') = some other
  rw [if_neg, hother]
  rintro ⟨rfl, rfl⟩
  exact hne (hown other hother)

omit [DecidableEq ι] in
theorem holds_setTemporary {f u : String} (file : Temporary ι) :
    Holds f u file (s.setTemporary f u (some file)) := if_pos ⟨rfl, rfl⟩

theorem wp_setTemporary {t : Disk ι} {f u : String} {file : Option (Temporary ι)} {p : CheckM α}
    (hinv : (evidenceProtocol base).inv t)
    (hown : ∀ old, t.temporary f u = some old → old.owner = i)
    (hp : (evidenceProtocol base).inv (t.setTemporary f u file) →
      Wp base i Q E p (t.setTemporary f u file)) :
    (evidenceProtocol base).inv (t.setTemporary f u file) ∧
      (evidenceProtocol base).guar i t (t.setTemporary f u file) ∧
      Wp base i Q E p (t.setTemporary f u file) := by
  have hstill : Moves base i t (t.setTemporary f u file) := .still rfl rfl
  have hinv' := inv_of_moves hstill hinv
  exact ⟨hinv', ⟨hstill, keeps_setTemporary hown⟩, hp hinv'⟩

theorem moves_replaceStore {observation : RepositoryStateObservation}
    {store : StoredProjectVerification} {executed u : String} {e : StoredProjectCheckEvidence}
    {old : List (String × StoredProjectCheckEvidence)} {t : Disk ι}
    (hstore : store.evidence = withEvidence executed e old)
    (hknows : Knows base i observation.projectFingerprint old t) :
    Moves base i t (t.replaceStore i observation.projectFingerprint u
      ⟨.ofStore store, i, executed⟩) := by
  have hstored : ∀ checkId, (t.replaceStore i observation.projectFingerprint u
      ⟨.ofStore store, i, executed⟩).stored observation.projectFingerprint checkId =
        if checkId = executed then some e else evidenceOf checkId old := by
    intro checkId
    simp [Disk.stored, Disk.replaceStore, StoreFile.evidence, StoreFile.ofStore, hstore,
      evidenceOf_withEvidence]
  have hevidence : (StoreFile.ofStore store).evidence executed = some e := by
    simp [StoreFile.evidence, StoreFile.ofStore, hstore, evidenceOf_withEvidence]
  refine .persists observation.projectFingerprint executed (some e) ?_ ?_ ?_ ?_
  · simp [Disk.replaceStore, hevidence]
  · rw [hstored, if_pos rfl]
  · intro hconforming checkId hne
    rw [hstored, if_neg hne, hknows hconforming]
  · intro f hf
    simp [Disk.replaceStore, hf]

end Rules

/-! ## The program -/

section Program

variable {base : Evidence} {i : ι} {s : Disk ι}

theorem wp_close {f u : String} {Q : Unit → Disk ι → Prop} {A : Disk ι → Prop}
    (hA : Stable base i A) (h : A s) (hQ : ∀ t, A t → Q () t) :
    Wp base i Q anyError (.request (.close f u) throwing) s := by
  refine wp_quiet rfl hA h fun r t ht _ => ?_
  cases r with
  | ok _ => exact wp_pure hA ht hQ
  | error code => exact wp_throw

variable {old : List (String × StoredProjectCheckEvidence)}

theorem wp_writeTemporary {f u executed : String} (content : StoreFile)
    (hs : (evidenceProtocol base).inv s)
    (h : Knows base i f old s ∧ ∃ empty, Holds f u ⟨empty, i, executed⟩ s) :
    Wp base i (fun _ t => Knows base i f old t ∧ Holds f u ⟨content, i, executed⟩ t)
      anyError ((do
        let _ ← .request (.writeFile f u content) throwing
        .request (.sync f u) throwing : CheckM Unit).tryFinally
      (.request (.close f u) throwing)) s := by
  have hA : Stable base i fun t => Knows base i f old t ∧ Holds f u ⟨content, i, executed⟩ t :=
    stable_knows.and (stable_holds _ rfl)
  have hfailed : ∀ t, Wp base i (fun _ t' => ∀ t'', (evidenceProtocol base).rely i t' t'' →
      (evidenceProtocol base).inv t'' → anyError (.errno .EBADF) t'') anyError (.request (.close f u) throwing : CheckM Unit) t :=
    fun t => wp_close stable_true trivial fun _ _ _ _ _ => trivial
  refine Program.wp_tryFinally hs ?_
  intro t hrely hinv r t' hx
  obtain ⟨empty, hholds⟩ := h.2
  have hknows := stable_knows _ _ h.1 hrely
  have hholds := stable_holds ⟨empty, i, executed⟩ rfl _ _ hholds hrely
  have hown : ∀ file, t.temporary f u = some file → file.owner = i := by
    intro file hfile
    cases hholds.symm.trans hfile
    rfl
  rcases exec_writeFile hholds hx with ⟨rfl, rfl⟩ | ⟨code, rfl, rfl | ⟨left, rfl⟩⟩
  · refine wp_setTemporary hinv hown fun hinv' => ?_
    refine wp_quiet rfl hA ⟨hknows, holds_setTemporary _⟩ fun r t ht _ => ?_
    cases r with
    | ok _ =>
      exact fun t' hrely' _ =>
        wp_close hA (hA _ _ ht hrely') fun t ht t' hrely' _ => hA _ _ ht hrely'
    | error code => exact fun t' _ _ => hfailed t'
  · exact ⟨hinv, ⟨.still rfl rfl, fun _ _ _ hf _ => hf⟩, fun t' _ _ => hfailed t'⟩
  · exact wp_setTemporary hinv hown fun _ t' _ _ => hfailed t'

theorem wp_renameTemporary {observation : RepositoryStateObservation} {u executed : String}
    {store : StoredProjectVerification} {e : StoredProjectCheckEvidence}
    (hs : (evidenceProtocol base).inv s) (hstore : store.evidence = withEvidence executed e old)
    (hknows : Knows base i observation.projectFingerprint old s)
    (hholds : Holds observation.projectFingerprint u ⟨.ofStore store, i, executed⟩ s) :
    Wp base i (fun _ t => Knows base i observation.projectFingerprint store.evidence t)
      anyError ((.request (.rename observation.projectFingerprint u) throwing : CheckM Unit).tryCatch
        fun error => .request (.unlink observation.projectFingerprint u) fun _ =>
          .throw error) s := by
  refine Program.wp_tryCatch hs ?_
  intro t hrely hinv r t' hx
  have hknows := stable_knows _ _ hknows hrely
  have hholds := stable_holds ⟨.ofStore store, i, executed⟩ rfl _ _ hholds hrely
  have hown : ∀ {t : Disk ι} file, Holds observation.projectFingerprint u
      ⟨.ofStore store, i, executed⟩ t →
      t.temporary observation.projectFingerprint u = some file → file.owner = i := by
    intro t file hholds hfile
    cases hholds.symm.trans hfile
    rfl
  rcases exec_rename hholds hx with ⟨rfl, rfl⟩ | ⟨code, rfl, rfl⟩
  · have hmoves := moves_replaceStore (i := i) (u := u) hstore hknows
    refine ⟨inv_of_moves hmoves hinv, ⟨hmoves, keeps_setTemporary fun file => hown file hholds⟩,
      wp_pure stable_knows ?_ fun t ht t' hrely' _ => stable_knows _ _ ht hrely'⟩
    -- the run has seen its own execution
    intro hconforming checkId
    have hevidence : (StoreFile.ofStore store).evidence executed = some e := by
      simp [StoreFile.evidence, StoreFile.ofStore, hstore, evidenceOf_withEvidence]
    have hearlier := hknows (hmoves.conforming hconforming) checkId
    rw [hstore, evidenceOf_withEvidence]
    simp only [Disk.replaceStore, seen, if_true, lastPersisted, true_and, hevidence,
      eq_comm (a := executed)]
    rw [hearlier]
  · refine ⟨hinv, ⟨.still rfl rfl, fun _ _ _ hf _ => hf⟩, fun t₁ hrely₁ _ => ?_⟩
    intro t₂ hrely₂ hinv₂ r₂ t₂' hx₂
    have hholds := stable_holds ⟨.ofStore store, i, executed⟩ rfl _ _
      (stable_holds ⟨.ofStore store, i, executed⟩ rfl _ _ hholds hrely₁) hrely₂
    rcases exec_unlink hx₂ with rfl | rfl
    · exact ⟨hinv₂, ⟨.still rfl rfl, fun _ _ _ hf _ => hf⟩, wp_throw⟩
    · exact wp_setTemporary hinv₂ (fun file => hown file hholds) fun _ => wp_throw

theorem wp_persistStore {executed : String} {observation : RepositoryStateObservation}
    {store : StoredProjectVerification} {e : StoredProjectCheckEvidence}
    (hstore : store.evidence = withEvidence executed e old)
    (h : Knows base i observation.projectFingerprint old s) :
    Wp base i (fun _ t => Knows base i observation.projectFingerprint store.evidence t)
      anyError (persistStore executed observation store) s := by
  unfold persistStore
  refine wp_quiet rfl stable_knows h fun r t ht _ => wp_throwing fun _ _ => ?_
  split
  · exact wp_throw
  refine wp_quiet rfl stable_knows ht fun u t ht _ => ?_
  intro t₁ hrely₁ hinv₁ r₁ t₁' hx₁
  have h₁ := stable_knows _ _ ht hrely₁
  rcases exec_openWx hx₁ with ⟨code, rfl, rfl⟩ | ⟨rfl, hnone, rfl⟩
  · exact ⟨hinv₁, ⟨.still rfl rfl, fun _ _ _ hf _ => hf⟩, wp_throw⟩
  refine wp_setTemporary hinv₁ (fun old hold => ?_) fun hinv => ?_
  · cases hnone.symm.trans hold
  refine wp_throwing fun _ _ => ?_
  have hwrite := wp_writeTemporary (.ofStore store) hinv ⟨h₁, _, holds_setTemporary _⟩
  refine Program.wp_bind hinv (Program.wp_mono hwrite (fun _ t hinv' h' => ?_) fun _ _ _ h => h)
  exact wp_renameTemporary hinv' hstore h'.1 h'.2

section Run

variable {A : Disk ι → Prop} (service : ProjectCheckService) (input : RunInput)

theorem wp_execute (initial before : RepositoryStateObservation)
    (detectedCheck : DetectedProjectCheck) (hA : Stable base i A) (h : A s) :
    Wp base i (fun _ t => A t) anyError
      (service.execute input initial before detectedCheck) s := by
  unfold ProjectCheckService.execute
  refine wp_quiet rfl hA h fun r t h _ => ?_
  cases r with
  | ok result => exact wp_pure hA h fun _ h => h
  | error error =>
    show Wp base i _ anyError (if unavailableError error = true then _ else _) t
    split
    · exact wp_pure hA h fun _ h => h
    split
    · exact wp_pure hA h fun _ h => h
    · exact wp_throw

theorem wp_evidence (detectedCheck : DetectedProjectCheck)
    (before after : RepositoryStateObservation) (startedAt : String) (startedMs : ℤ)
    (result : Option ProjectCheckCommandResult) (baseStatus : ProjectCheckBaseStatus)
    (hA : Stable base i A) (h : A s) :
    Wp base i (fun _ t => A t) anyError
      (service.evidence detectedCheck before after startedAt startedMs result baseStatus) s := by
  refine wp_quiet rfl hA h fun _ t h _ => wp_quiet rfl hA h fun _ t h _ => ?_
  exact wp_pure hA h fun _ h => h

theorem wp_runCheck {initial : RepositoryStateObservation} {store : StoredProjectVerification}
    (detectedCheck : DetectedProjectCheck)
    (h : Knows base i initial.projectFingerprint store.evidence s) :
    Wp base i (fun store t => Knows base i initial.projectFingerprint store.evidence t) anyError
      (service.runCheck input initial store detectedCheck) s := by
  have hA : Stable base i (Knows base i initial.projectFingerprint store.evidence) :=
    stable_knows
  unfold ProjectCheckService.runCheck
  refine wp_quiet rfl hA h fun before t h _ => wp_ofExcept fun before _ => ?_
  refine wp_quiet rfl hA h fun startedAt t h _ => ?_
  refine wp_quiet rfl hA h fun startedMs t h hinv => wp_pure_bind ?_
  refine Program.wp_bind hinv (Program.wp_mono (wp_execute service input initial before
    detectedCheck hA h) (fun (result, baseStatus) t hinv h => ?_) fun _ _ _ h => h)
  refine wp_quiet rfl hA h fun after t h hinv => wp_ofExcept fun after _ => ?_
  refine Program.wp_bind hinv (Program.wp_mono (wp_evidence service detectedCheck before after
    startedAt startedMs result baseStatus hA h) (fun storedEvidence t hinv h => ?_)
    fun _ _ _ h => h)
  refine wp_quiet rfl hA h fun updatedAt t h hinv => wp_pure_bind ?_
  refine Program.wp_bind hinv (Program.wp_mono (wp_persistStore rfl h)
    (fun _ t hinv h => ?_) fun _ _ _ h => h)
  exact wp_pure stable_knows h fun _ h => h

theorem wp_runChecks {initial : RepositoryStateObservation} :
    ∀ (requested : List DetectedProjectCheck) {store : StoredProjectVerification} {s : Disk ι},
      (evidenceProtocol base).inv s → Knows base i initial.projectFingerprint store.evidence s →
      Wp base i (fun _ _ => True) anyError (service.runChecks input initial requested store) s
  | [], _, _, _, _ => fun _ _ _ => trivial
  | detectedCheck :: rest, _, _, hinv, h =>
    Program.wp_bind hinv (Program.wp_mono (wp_runCheck service input detectedCheck h)
      (fun _ _ hinv h => wp_runChecks rest hinv h) fun _ _ _ h => h)

theorem wp_run : Wp base i (fun _ _ => True) anyError (service.run input) s := by
  have hA : Stable base i fun _ : Disk ι => True := stable_true
  have hpure : ∀ (view : ProjectCheckView) (t : Disk ι),
      Wp base i (fun _ _ => True) anyError (.pure view) t := fun _ _ _ _ _ => trivial
  unfold ProjectCheckService.run
  refine wp_quiet rfl hA trivial fun initial t _ _ => wp_ofExcept fun initial _ => ?_
  refine wp_quiet rfl hA trivial fun detected t _ hinv => wp_ofExcept fun detected _ => ?_
  split
  · exact hpure _ _
  split
  · exact wp_throw
  refine wp_ofExcept fun requested _ => ?_
  split
  · exact wp_throw
  split
  · exact wp_throw
  refine Program.wp_bind hinv (Program.wp_mono (wp_loadStore initial)
    (fun store t hinv h => ?_) fun _ _ _ h => h)
  refine Program.wp_bind hinv (Program.wp_mono (wp_runChecks service input requested hinv h)
    (fun store t _ _ => ?_) fun _ _ _ h => h)
  refine wp_quiet rfl hA trivial fun current t _ _ => wp_ofExcept fun current _ => ?_
  refine wp_quiet rfl hA trivial fun detected t _ _ => wp_ofExcept fun detected _ => ?_
  exact hpure _ _

end Run

end Program

/-! ## All runs -/

abbrev Calls (ι : Type) : Type := ι → ProjectCheckService × RunInput

def pool (calls : Calls ι) : Pool ι CheckOp CheckOp.Res AppError ProjectCheckView :=
  fun i => (calls i).1.run (calls i).2

section Runs

variable {calls : Calls ι} {start : Disk ι}
  {c c' : Pool ι CheckOp CheckOp.Res AppError ProjectCheckView × Disk ι}
  {permit : Pool ι CheckOp CheckOp.Res AppError ProjectCheckView × Disk ι → ι → Prop}

theorem safe_of_run (hstart : start.history = [])
    (hrun : Pool.Run exec permit (pool calls, start) c) :
    Pool.Safe exec (evidenceProtocol start.stored) (fun _ _ _ => True) (fun _ => anyError) c := by
  refine Pool.wp_run (fun _ _ _ _ _ h => h) hrun ⟨fun _ f checkId => ?_, fun i => wp_run _ _⟩
  rw [show (pool calls, start).2.history = [] from hstart]
  rfl

theorem moves_of_step (hstart : start.history = [])
    (hrun : Pool.Run exec permit (pool calls, start) c) {i : ι} (hstep : Pool.Step exec i c c') :
    Moves start.stored i c.2 c'.2 := by
  have hsafe := safe_of_run hstart hrun
  cases hstep with
  | @intro p s o k r s' hpool hexec =>
    have hwp : Wp start.stored i (fun _ _ => True) anyError (p i) s := hsafe.2 i
    rw [hpool] at hwp
    obtain ⟨-, hguar, -⟩ := hwp s ((evidenceProtocol _).rely_refl i s) hsafe.1 r s' hexec
    exact hguar.1

/-- In any interleaving of runs, the stored evidence of every check has been that of the
execution persisted last all along, exactly when every run that persisted a check had seen the
latest evidence of all other checks. Then a run changes the stored evidence only of the check
it persists. -/
theorem current_iff_conforming (hstart : start.history = [])
    (hrun : Pool.Run exec (fun _ _ => True) (pool calls, start) c) :
    (Conforming start.stored c.2.history ↔
      Pool.Run exec (fun c _ => Current start.stored c.2) (pool calls, start) c ∧
        Current start.stored c.2) ∧
    ∀ i c', Pool.Step exec i c c' → Conforming start.stored c'.2.history →
      ∀ fingerprint checkId, c'.2.stored fingerprint checkId ≠ c.2.stored fingerprint checkId →
        ∃ evidence, c'.2.history = .persisted i fingerprint checkId evidence :: c.2.history := by
  refine ⟨⟨fun hconforming => ?_, fun ⟨hkept, hcurrent⟩ => ?_⟩, fun i c' hstep hconforming f
    checkId hchanged => ?_⟩
  · induction hrun with
    | refl =>
      refine ⟨.refl _, fun f checkId => ?_⟩
      rw [show (pool calls, start).2.history = [] from hstart]
      rfl
    | step hrun _ hstep ih =>
      have hmoves := moves_of_step hstart hrun hstep
      obtain ⟨hkept, hcurrent⟩ := ih (hmoves.conforming hconforming)
      exact ⟨hkept.step hcurrent hstep, hmoves.current hconforming hcurrent⟩
  · -- every prefix of the run was current, so every step of it conforms
    clear hrun
    induction hkept with
    | refl =>
      rw [show (pool calls, start).2.history = [] from hstart]
      trivial
    | step hkept hbefore hstep ih =>
      have hmoves := moves_of_step hstart hkept hstep
      exact hmoves.conforming_of_current (ih ⟨hkept, hbefore⟩ hbefore) hcurrent
  · have hmoves := moves_of_step hstart hrun hstep
    exact hmoves.persisted_of_changed hconforming
      ((safe_of_run hstart hrun).1 (hmoves.conforming hconforming)) hchanged

end Runs

/-! ## Two runs of one project -/

section Overlap

def passedBefore : Disk Bool where
  latest f := if f = "p" then some (.ofStore
    { emptyStore observedState with
      evidence := [(testCheck.checkId, evidenceFor testCheck .PASS 0)] }) else none
  temporary _ _ := none
  history := []

def lintAndTest : Calls Bool := fun i =>
  (⟨1000, fun _ => hexText 64⟩, ⟨".", some [(if i then lintCheck else testCheck).checkId], none, false⟩)

def loadMoves (i : Bool) : List (Bool × Choice) :=
  [(i, .observed (.ok observedState)), (i, .detected (.ok [lintCheck, testCheck])), (i, .done)]

def executeMoves (i : Bool) (exitCode : ℤ) : List (Bool × Choice) :=
  [.observed (.ok observedState), .text "t", .number 0, .executed (.ok ⟨some exitCode, "", ""⟩),
    .observed (.ok observedState), .text "t", .number 0, .text "t", .done, .text "u", .done,
    .done, .done, .done, .done, .observed (.ok observedState),
    .detected (.ok [lintCheck, testCheck])].map fun choice => (i, choice)

theorem run_of_moves {moves : List (Bool × Choice)}
    {c : Pool Bool CheckOp CheckOp.Res AppError ProjectCheckView × Disk Bool}
    (h : Pool.schedule CheckOp.apply moves (pool lintAndTest, passedBefore) = some c) :
    Pool.Run exec (fun _ _ => True) (pool lintAndTest, passedBefore) c :=
  Pool.run_of_schedule (fun x _ _ _ _ _ hx => ⟨x, hx⟩) moves (.refl _) h

/-- One run after the other: nothing is lost. -/
theorem current_iff_conforming_sequential :
    ∃ c, Pool.Run exec (fun _ _ => True) (pool lintAndTest, passedBefore) c ∧
      (∀ i, (c.1 i).outcome? ≠ none) ∧ Current passedBefore.stored c.2 := by
  have hfinal : (Pool.schedule CheckOp.apply
      (loadMoves true ++ executeMoves true 0 ++ loadMoves false ++ executeMoves false 1)
      (pool lintAndTest, passedBefore)).map (fun c =>
        (c.2.history, (c.1 true).outcome?.isSome, (c.1 false).outcome?.isSome)) = some
      ([.persisted false "p" testCheck.checkId (some (evidenceFor testCheck .FAIL 1)),
        .loaded false,
        .persisted true "p" lintCheck.checkId (some (evidenceFor lintCheck .PASS 0)),
        .loaded true], true, true) := by
    decide +kernel
  obtain ⟨c, hc, heq⟩ := Option.map_eq_some_iff.mp hfinal
  obtain ⟨hhistory, hlint, htest⟩ : _ ∧ _ ∧ _ := by simpa only [Prod.mk.injEq] using heq
  have hconforming : Conforming passedBefore.stored c.2.history := by
    rw [hhistory]
    exact ⟨fun _ _ => rfl, fun _ _ => rfl, trivial⟩
  refine ⟨c, run_of_moves hc, fun i => ?_,
    ((current_iff_conforming rfl (run_of_moves hc)).1.mp hconforming).2⟩
  cases i with
  | false => exact Option.isSome_iff_ne_none.mp htest
  | true => exact Option.isSome_iff_ne_none.mp hlint

/-- The test fails while the lint is running, which then puts the earlier pass back. -/
theorem older_pass_restored :
    ∃ c, Pool.Run exec (fun _ _ => True) (pool lintAndTest, passedBefore) c ∧
      (∀ i, (c.1 i).outcome? ≠ none) ∧
      c.2.stored "p" testCheck.checkId = some (evidenceFor testCheck .PASS 0) ∧
      lastPersisted passedBefore.stored "p" testCheck.checkId c.2.history =
        some (evidenceFor testCheck .FAIL 1) ∧ ¬ Current passedBefore.stored c.2 := by
  have hfinal : (Pool.schedule CheckOp.apply
      (loadMoves true ++ loadMoves false ++ executeMoves false 1 ++ executeMoves true 0)
      (pool lintAndTest, passedBefore)).map (fun c =>
        (c.2.stored "p" testCheck.checkId,
          lastPersisted passedBefore.stored "p" testCheck.checkId c.2.history,
          (c.1 true).outcome?.isSome, (c.1 false).outcome?.isSome)) = some
      (some (evidenceFor testCheck .PASS 0), some (evidenceFor testCheck .FAIL 1), true, true) := by
    decide +kernel
  obtain ⟨c, hc, heq⟩ := Option.map_eq_some_iff.mp hfinal
  obtain ⟨hstored, hlast, hlint, htest⟩ : _ ∧ _ ∧ _ ∧ _ := by
    simpa only [Prod.mk.injEq] using heq
  refine ⟨c, run_of_moves hc, fun i => ?_, hstored, hlast, fun hcurrent => ?_⟩
  · cases i with
    | false => exact Option.isSome_iff_ne_none.mp htest
    | true => exact Option.isSome_iff_ne_none.mp hlint
  · have hsame := hcurrent "p" testCheck.checkId
    rw [hstored, hlast] at hsame
    exact absurd hsame (by decide +kernel)

end Overlap

end ProjectCheckService
