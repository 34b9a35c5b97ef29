import ChatgptSystem.Agent.WorkerStore
import ChatgptSystem.Foundations.RelyGuarantee
import Mathlib.Data.Fintype.EquivFin

/-!
# The history of the worker store

Two calls that overlap both read the file and both replace it; what the first one wrote is lost
then. `sequential_of_conforming` says when that does not happen: if every call replaces the very
file it has read, then the file is the result of the calls that returned, one after the other.

* `ReturnsAlone` — a call running alone turns one file into another one;
* `Sequential` — calls running one after the other;
* `Conforming` — the condition on a step;
* `overlapping_spawns_lose_run` — the run that is lost when two calls read the same file.
-/

open Interleaving

namespace WorkerStore

variable {ι : Type} [DecidableEq ι]

/-! ## Calls alone and one after the other -/

/-- Running alone from any disk with the first file, the call may return the run and leave the
second file. -/
def ReturnsAlone (limits : Limits) (calls : ι → Operation) (i : ι) (before : Option StoreText)
    (run : WorkerRun) (after : Option StoreText) : Prop :=
  ∀ disk : Disk ι, disk.store = before → ∃ later : Disk ι,
    Program.Steps (storeExec i) ((calls i).program limits, disk) (.pure run, later) ∧
    later.store = after

/-- The calls of a list run one after the other, each alone, with the results given. -/
inductive Sequential (limits : Limits) (calls : ι → Operation) :
    Option StoreText → List (ι × WorkerRun) → Option StoreText → Prop where
  | nil (file) : Sequential limits calls file [] file
  | append {before mid after : Option StoreText} {order : List (ι × WorkerRun)} {i : ι}
      {run : WorkerRun} (h : Sequential limits calls before order mid)
      (hlast : ReturnsAlone limits calls i mid run after) :
      Sequential limits calls before (order ++ [(i, run)]) after

/-! ## Runs -/

abbrev Configuration (ι : Type) : Type :=
  Pool ι StoreOp StoreOp.Res AppError WorkerRun × Disk ι

def programs (limits : Limits) (calls : ι → Operation) :
    Pool ι StoreOp StoreOp.Res AppError WorkerRun :=
  fun i => (calls i).program limits

def Disk.initial (file : Option StoreText) : Disk ι :=
  { store := file, temporaries := fun _ => none, drawn := [], loaded := fun _ => none, saves := [] }

def Ended (pool : Pool ι StoreOp StoreOp.Res AppError WorkerRun) : Prop :=
  ∀ i, (pool i).outcome?.isSome = true

/-- If the next operation of the call replaces the store file, then that file is the one the call
has read. -/
def Conforming (c : Configuration ι) (i : ι) : Prop :=
  ∀ temporary k, c.1 i = .request (.rename temporary) k → c.2.loaded i = some c.2.store

/-! ## A call alone -/

/-- A method turns one file into another one and returns the run: its computations yield these
for some values of the clock and some identifiers. -/
def Transforms (limits : Limits) (operation : Operation) (before : Option StoreText)
    (run : WorkerRun) (after : StoreText) : Prop :=
  ∃ change file changed, operation.prologue.Yields change ∧
    (interpret (answerOf before)).Yields file ∧ (change file).Yields (run, changed) ∧
    after = .value (changed.bounded limits).toJson

theorem exists_fresh_name (drawn : List String) : ∃ name, name ∉ drawn := by
  have : Infinite String := Infinite.of_injective (fun n => String.ofList (List.replicate n 'a'))
    fun m n h => by simpa using congrArg String.length h
  obtain ⟨name, hname⟩ := Infinite.exists_notMem_finset drawn.toFinset
  exact ⟨name, by simpa using hname⟩

variable {i : ι} {limits : Limits} {calls : ι → Operation} {before : Option StoreText}
  {run : WorkerRun}

theorem steps_draw {α β : Type} {disk : Disk ι} {p : DrawM β} {b : β} (hp : p.Yields b)
    (rest : β → StoreM α) : Program.Steps (storeExec i) ((draw p).bind rest, disk) (rest b, disk) :=
  Program.steps_of_yields (f := .draw) (g := fun _ r => r)
    (fun _ r => ⟨r, rfl, .draws r, rfl⟩) hp rest

theorem returnsAlone_of_transforms {after : StoreText}
    (h : Transforms limits (calls i) before run after) :
    ReturnsAlone limits calls i before run (some after) := by
  obtain ⟨change, file, changed, hprologue, hfile, hchange, rfl⟩ := h
  rintro disk rfl
  obtain ⟨name, hname⟩ := exists_fresh_name (disk.drawn.map Prod.fst)
  let json := (changed.bounded limits).toJson
  let read : Disk ι := { disk with loaded := Function.update disk.loaded i (some disk.store) }
  let named : Disk ι := { read with drawn := (name, i) :: read.drawn }
  let written : Disk ι := { named with
    temporaries := Function.update named.temporaries name (some (.value json)) }
  let renamed : Disk ι := { written with
    store := some (.value json)
    temporaries := Function.update written.temporaries name none
    saves := ⟨i, written.store, .value json⟩ :: written.saves }
  refine ⟨renamed, ?_, rfl⟩
  have hread : storeExec i .readFile disk (answerOf disk.store) read := ⟨.completes, rfl⟩
  have hnamed : storeExec i .temporaryName read name named :=
    ⟨.draws name, by rw [StoreOp.apply]; exact if_neg hname⟩
  have hwritten : storeExec i (.writeFile name json) named (.ok ()) written := ⟨.completes, rfl⟩
  have hrenamed : storeExec i (.rename name) written (.ok ()) renamed :=
    ⟨.completes, by simp [StoreOp.apply, written, renamed]⟩
  refine (steps_draw hprologue _).trans (.head hread ?_)
  refine (steps_draw hfile _).trans ((steps_draw hchange _).trans ?_)
  refine .head hnamed (.head hwritten (.head hrenamed ?_))
  cases (calls i).audited with
  | false => exact .refl _
  | true =>
    have haudited : storeExec i .audit renamed () renamed := ⟨.completes, rfl⟩
    exact .head haudited (.refl _)

theorem interpret_error {code : Errno} (h : code ≠ .ENOENT) :
    interpret (.error code) = .throw unreadable := by
  cases code with
  | ENOENT => exact absurd rfl h
  | _ => rfl

theorem yields_of_steps_draw {α : Type} {disk later : Disk ι} {p : DrawM α} {a : α}
    (h : Program.Steps (storeExec i) (draw p, disk) (.pure a, later)) :
    p.Yields a ∧ later = disk := by
  induction p with
  | pure b =>
    cases Program.Steps.of_outcome h rfl
    exact ⟨.pure a, rfl⟩
  | throw e => cases Program.Steps.of_outcome h rfl
  | request o k ih =>
    obtain ⟨r, t, ⟨choice, hstep⟩, hrest⟩ := Program.Steps.of_request h rfl
    cases choice with
    | draws text =>
      obtain ⟨rfl, rfl⟩ := Prod.mk.inj (Option.some.inj hstep)
      obtain ⟨hyields, rfl⟩ := ih _ hrest
      exact ⟨.request _ hyields, rfl⟩
    | _ => cases hstep

theorem orThrow_of_steps {disk later : Disk ι} {answer : Except Errno Unit}
    (h : Program.Steps (storeExec i) (orThrow answer, disk) (.pure (), later)) :
    answer = .ok () ∧ later = disk := by
  cases answer with
  | ok =>
    cases Program.Steps.of_outcome h rfl
    exact ⟨rfl, rfl⟩
  | error code => cases Program.Steps.of_outcome h rfl

theorem store_of_steps_save {file : WorkerStoreFile} {disk later : Disk ι}
    (h : Program.Steps (storeExec i) (save limits file, disk) (.pure (), later)) :
    later.store = some (.value (file.bounded limits).toJson) := by
  obtain ⟨name, named, -, hwriting⟩ := h.of_request rfl
  obtain ⟨answer, written, ⟨choice, hwrite⟩, hchecking⟩ := hwriting.of_request rfl
  obtain ⟨_, checked, hanswer, hrenaming⟩ := hchecking.of_bind
  obtain ⟨hok, hchecked⟩ := orThrow_of_steps hanswer
  obtain ⟨answer', renamed, ⟨choice', hrename⟩, hlast⟩ := hrenaming.of_request rfl
  obtain ⟨hok', hlater⟩ := orThrow_of_steps hlast
  have htext : checked.temporaries name = some (.value (file.bounded limits).toJson) := by
    rw [hchecked]
    cases choice with
    | completes =>
      obtain ⟨-, rfl⟩ := Prod.mk.inj (Option.some.inj hwrite)
      exact Function.update_self ..
    | fails code leftover => cases hok.symm.trans (Prod.mk.inj (Option.some.inj hwrite)).1.symm
    | draws text => cases hwrite
  rw [hlater]
  cases choice' with
  | completes =>
    unfold StoreOp.apply at hrename
    simp only [htext] at hrename
    obtain ⟨-, rfl⟩ := Prod.mk.inj (Option.some.inj hrename)
    rfl
  | fails code leftover => cases hok'.symm.trans (Prod.mk.inj (Option.some.inj hrename)).1.symm
  | draws text => cases hrename

theorem transforms_of_steps {operation : Operation} {disk later : Disk ι}
    (hsteps : Program.Steps (storeExec i) (operation.program limits, disk) (.pure run, later)) :
    ∃ text, later.store = some text ∧ Transforms limits operation disk.store run text := by
  obtain ⟨change, drawn, hdraw, hloading⟩ := hsteps.of_bind
  obtain ⟨hprologue, rfl⟩ := yields_of_steps_draw hdraw
  obtain ⟨file, loaded, hload, hchanging⟩ := hloading.of_bind
  obtain ⟨answer, read, ⟨choice, hread⟩, hinterpret⟩ := hload.of_request rfl
  obtain ⟨hfile, rfl⟩ := yields_of_steps_draw hinterpret
  obtain ⟨⟨returned, changed⟩, computed, hcompute, hsaving⟩ := hchanging.of_bind
  obtain ⟨hchange, rfl⟩ := yields_of_steps_draw hcompute
  obtain ⟨⟨⟩, saved, hsave, hending⟩ := hsaving.of_bind
  have hend : run = returned ∧ later.store = saved.store := by
    cases haudited : operation.audited with
    | false =>
      rw [haudited] at hending
      cases hending.of_outcome rfl
      exact ⟨rfl, rfl⟩
    | true =>
      rw [haudited] at hending
      obtain ⟨_, audited, ⟨_, haudit⟩, hlast⟩ := hending.of_request rfl
      obtain ⟨-, rfl⟩ := Prod.mk.inj (Option.some.inj haudit)
      cases hlast.of_outcome rfl
      exact ⟨rfl, rfl⟩
  obtain ⟨rfl, hstore⟩ := hend
  have hanswer : answer = answerOf drawn.store := by
    cases choice with
    | completes => exact (Prod.mk.inj (Option.some.inj hread)).1.symm
    | fails code leftover =>
      simp only [StoreOp.apply] at hread
      split at hread
      · cases hread
      next hcode =>
        obtain ⟨rfl, -⟩ := Prod.mk.inj (Option.some.inj hread)
        rw [interpret_error hcode] at hfile
        cases hfile
    | draws text => cases hread
  exact ⟨_, hstore.trans (store_of_steps_save hsave), change, file, changed, hprologue,
    hanswer ▸ hfile, hchange, rfl⟩

theorem transforms_of_returnsAlone {after : Option StoreText}
    (h : ReturnsAlone limits calls i before run after) :
    ∃ text, after = some text ∧ Transforms limits (calls i) before run text := by
  obtain ⟨later, hsteps, rfl⟩ := h (.initial before) rfl
  exact transforms_of_steps hsteps

/-! ## The protocol of the calls -/

/-- The saves lead from the file at the start to the file that stands there now. -/
def Written (start : Option StoreText) : List (Save ι) → Option StoreText → Prop
  | [], store => store = start
  | save :: saves, store => store = some save.written ∧ Written start saves save.replaced

structure Invariant (start : Option StoreText) (disk : Disk ι) : Prop where
  written : Written start disk.saves disk.store
  /-- No call saves twice. -/
  calls : (disk.saves.map Save.call).Nodup
  names : (disk.drawn.map Prod.fst).Nodup

/-- What a call relies on: what it has read, its own temporary files and its own saves. -/
structure Undisturbed (i : ι) (disk later : Disk ι) : Prop where
  loaded : later.loaded i = disk.loaded i
  drawn : ∀ name, (name, i) ∈ disk.drawn → (name, i) ∈ later.drawn
  temporaries : ∀ name, (name, i) ∈ disk.drawn → later.temporaries name = disk.temporaries name
  saves : ∀ save : Save ι, save.call = i → (save ∈ later.saves ↔ save ∈ disk.saves)

structure OwnStep (i : ι) (disk later : Disk ι) : Prop where
  loaded : ∀ j, j ≠ i → later.loaded j = disk.loaded j
  drawn : disk.drawn ⊆ later.drawn
  temporaries : ∀ name, (name, i) ∉ later.drawn → later.temporaries name = disk.temporaries name
  saves : ∀ save : Save ι, save.call ≠ i → (save ∈ later.saves ↔ save ∈ disk.saves)

def storeProtocol (start : Option StoreText) : Protocol ι (Disk ι) where
  inv := Invariant start
  rely := Undisturbed
  guar := OwnStep
  rely_refl _ _ := ⟨rfl, fun _ => id, fun _ _ => rfl, fun _ _ => Iff.rfl⟩
  rely_trans i a b c hab hbc :=
    { loaded := hbc.loaded.trans hab.loaded
      drawn := fun name h => hbc.drawn name (hab.drawn name h)
      temporaries := fun name h =>
        (hbc.temporaries name (hab.drawn name h)).trans (hab.temporaries name h)
      saves := fun save h => (hbc.saves save h).trans (hab.saves save h) }
  guar_rely := by
    intro i j disk later hij _ hinv hown
    refine ⟨hown.loaded j (Ne.symm hij), fun name h => hown.drawn h, fun name h => ?_,
      fun save h => hown.saves save fun h' => hij (h'.symm.trans h)⟩
    -- a name belongs to the call that has drawn it
    refine hown.temporaries name fun h' => hij ?_
    exact (Prod.mk.inj (List.inj_on_of_nodup_map hinv.names h' (hown.drawn h) rfl)).2

/-- The steps of a call that replaces no other file than the one it has read. -/
def conformingExec (i : ι) : Exec StoreOp StoreOp.Res (Disk ι) :=
  fun o disk r later => storeExec i o disk r later ∧
    ∀ temporary, o = .rename temporary → disk.loaded i = some disk.store

def Unsaved (i : ι) (disk : Disk ι) : Prop := ∀ save ∈ disk.saves, save.call ≠ i

def HasRead (i : ι) (file : Option StoreText) (disk : Disk ι) : Prop :=
  Unsaved i disk ∧ disk.loaded i = some file

def Saved (i : ι) (before : Option StoreText) (after : StoreText) (disk : Disk ι) : Prop :=
  ⟨i, before, after⟩ ∈ disk.saves

section Stable

variable {start : Option StoreText} {disk later : Disk ι}

section

omit [DecidableEq ι]

theorem OwnStep.refl (disk : Disk ι) : OwnStep i disk disk :=
  ⟨fun _ _ => rfl, fun _ h => h, fun _ _ => rfl, fun _ _ => Iff.rfl⟩

theorem Unsaved.stable (h : Unsaved i disk) (hrely : Undisturbed i disk later) :
    Unsaved i later :=
  fun save hsave hcall => h save ((hrely.saves save hcall).mp hsave) hcall

theorem HasRead.stable {file : Option StoreText} (h : HasRead i file disk)
    (hrely : Undisturbed i disk later) : HasRead i file later :=
  ⟨h.1.stable hrely, hrely.loaded.trans h.2⟩

theorem Saved.stable {before : Option StoreText} {after : StoreText}
    (h : Saved i before after disk) (hrely : Undisturbed i disk later) :
    Saved i before after later :=
  (hrely.saves _ rfl).mpr h

end

end Stable

/-! ## One method -/

section Method

variable {start : Option StoreText} {disk : Disk ι}

/-- The end of a method: the run it returns, and what it has saved. -/
def Returned (limits : Limits) (operation : Operation) (i : ι) (run : WorkerRun)
    (disk : Disk ι) : Prop :=
  ∃ before after, Transforms limits operation before run after ∧ Saved i before after disk

theorem wp_draw {α : Type} {p : DrawM α} {A : Disk ι → Prop}
    (hA : ∀ disk later, A disk → Undisturbed i disk later → A later) (hs : A disk)
    (hE : ∀ disk, A disk → Unsaved i disk) :
    (draw p).wp (conformingExec i) (storeProtocol start) i (fun a later => p.Yields a ∧ A later)
      (fun _ later => Unsaved i later) disk := by
  have hissues : (draw p).Issues fun o => ∃ d, o = .draw d := by
    refine Program.Issues.embed ?_
    induction p with
    | pure a => exact .pure a
    | throw e => exact .throw e
    | request o k ih => exact .request ⟨o, rfl⟩ ih
  refine Program.wp_mono (Program.wp_of_still ?_ OwnStep.refl hissues
    (fun t t' ht hrely _ => hA t t' ht hrely) hs fun _ t ht => hE t ht) ?_ fun _ _ _ he => he
  · rintro _ t r t' ⟨d, rfl⟩ ⟨⟨choice, hstep⟩, -⟩
    cases choice with
    | draws text => exact (Prod.mk.inj (Option.some.inj hstep)).2.symm
    | _ => cases hstep
  · rintro a t - ⟨hyields, ht⟩
    exact ⟨hyields.of_embed, ht⟩

theorem wp_load (hs : Unsaved i disk) :
    load.wp (conformingExec i) (storeProtocol start) i
      (fun file later => ∃ before, (interpret (answerOf before)).Yields file ∧
        HasRead i before later) (fun _ later => Unsaved i later) disk := by
  refine Program.wp_request fun t ht hit r t' hstep => ?_
  have hunsaved := hs.stable ht
  obtain ⟨⟨choice, hstep⟩, -⟩ := hstep
  cases choice with
  | draws text => cases hstep
  | completes =>
    obtain ⟨rfl, rfl⟩ := Prod.mk.inj (Option.some.inj hstep)
    refine ⟨⟨hit.written, hit.calls, hit.names⟩, ⟨fun j hj => Function.update_of_ne hj _ _,
      fun _ h => h, fun _ _ => rfl, fun _ _ => Iff.rfl⟩, ?_⟩
    refine Program.wp_mono (wp_draw (A := HasRead i t.store) (fun _ _ h => h.stable) ?_
      fun _ h => h.1) (fun file u _ h => ⟨t.store, h⟩) fun _ _ _ he => he
    exact ⟨hunsaved, Function.update_self ..⟩
  | fails code leftover =>
    simp only [StoreOp.apply] at hstep
    split at hstep
    · cases hstep
    next hcode =>
      obtain ⟨rfl, rfl⟩ := Prod.mk.inj (Option.some.inj hstep)
      refine ⟨hit, OwnStep.refl _, ?_⟩
      show (draw (interpret (.error code))).wp _ _ _ _ _ _
      rw [interpret_error hcode]
      exact fun u hu _ => hunsaved.stable hu

/-- A temporary file of the call with the text it has written. -/
def Prepared (i : ι) (name : String) (content : Json) (disk : Disk ι) : Prop :=
  (name, i) ∈ disk.drawn ∧ disk.temporaries name = some (.value content)

theorem wp_rename {before : Option StoreText} {name : String} {content : Json}
    (hread : HasRead i before disk) (hprepared : Prepared i name content disk) :
    (Program.request (.rename name) orThrow : StoreM Unit).wp (conformingExec i)
      (storeProtocol start) i (fun _ later => Saved i before (.value content) later)
      (fun _ later => Unsaved i later) disk := by
  refine Program.wp_request fun t ht hit r t' hstep => ?_
  obtain ⟨hunsaved, hloaded⟩ := hread.stable ht
  have htext : t.temporaries name = some (.value content) :=
    (ht.temporaries name hprepared.1).trans hprepared.2
  obtain ⟨⟨choice, hstep⟩, hpermit⟩ := hstep
  have hstore : before = t.store := Option.some.inj (hloaded.symm.trans (hpermit name rfl))
  subst hstore
  cases choice with
  | draws text => cases hstep
  | completes =>
    rw [StoreOp.apply] at hstep
    simp only [htext] at hstep
    obtain ⟨rfl, rfl⟩ := Prod.mk.inj (Option.some.inj hstep)
    refine ⟨⟨⟨rfl, hit.written⟩, ?_, hit.names⟩, ⟨fun _ _ => rfl, fun _ h => h, ?_, ?_⟩, ?_⟩
    · refine List.nodup_cons.mpr ⟨fun hmem => ?_, hit.calls⟩
      obtain ⟨save, hsave, hcall⟩ := List.mem_map.mp hmem
      exact hunsaved save hsave hcall
    · rintro other hother
      refine Function.update_of_ne ?_ _ _
      rintro rfl
      exact hother (ht.drawn _ hprepared.1)
    · intro save hcall
      rw [List.mem_cons, or_iff_right]
      rintro rfl
      exact hcall rfl
    · intro u hu _
      exact Saved.stable (List.mem_cons_self) hu
  | fails code leftover =>
    obtain ⟨rfl, rfl⟩ := Prod.mk.inj (Option.some.inj hstep)
    exact ⟨hit, OwnStep.refl _, fun u hu _ => hunsaved.stable hu⟩

theorem wp_save {limits : Limits} {file : WorkerStoreFile} {before : Option StoreText}
    (hread : HasRead i before disk) :
    (save limits file).wp (conformingExec i) (storeProtocol start) i
      (fun _ later => Saved i before (.value (file.bounded limits).toJson) later)
      (fun _ later => Unsaved i later) disk := by
  refine Program.wp_request fun t ht hit name t' hstep => ?_
  have hread := hread.stable ht
  obtain ⟨⟨choice, hstep⟩, -⟩ := hstep
  cases choice with
  | draws drawn =>
    by_cases hfresh : drawn ∈ t.drawn.map Prod.fst
    · exact nomatch (if_pos hfresh).symm.trans hstep
    · replace hstep := (if_neg hfresh).symm.trans hstep
      obtain ⟨rfl, rfl⟩ := Prod.mk.inj (Option.some.inj hstep)
      refine ⟨⟨hit.written, hit.calls, List.nodup_cons.mpr ⟨hfresh, hit.names⟩⟩,
        ⟨fun _ _ => rfl, List.subset_cons_self _ _, fun _ _ => rfl, fun _ _ => Iff.rfl⟩, ?_⟩
      refine Program.wp_request fun u hu hiu written u' hstep => ?_
      have hnamed : HasRead i before { t with drawn := (drawn, i) :: t.drawn } := hread
      have hread := hnamed.stable hu
      have hown : (drawn, i) ∈ u.drawn := hu.drawn _ List.mem_cons_self
      obtain ⟨⟨choice, hstep⟩, -⟩ := hstep
      have hkept : ∀ text, OwnStep i u { u with
          temporaries := Function.update u.temporaries drawn text } := fun text =>
        { loaded := fun _ _ => rfl
          drawn := fun _ h => h
          temporaries := fun other hother => Function.update_of_ne
            (fun h : other = drawn => hother (h ▸ hown)) _ _
          saves := fun _ _ => Iff.rfl }
      cases choice with
      | draws text => cases hstep
      | completes =>
        obtain ⟨rfl, rfl⟩ := Prod.mk.inj (Option.some.inj hstep)
        refine ⟨⟨hiu.written, hiu.calls, hiu.names⟩, hkept _, ?_⟩
        exact wp_rename ⟨hread.1, hread.2⟩ ⟨hown, Function.update_self ..⟩
      | fails code leftover =>
        obtain ⟨rfl, rfl⟩ := Prod.mk.inj (Option.some.inj hstep)
        have hunsaved : Unsaved i { u with
            temporaries := Function.update u.temporaries drawn leftover } := hread.1
        exact ⟨⟨hiu.written, hiu.calls, hiu.names⟩, hkept _, fun v hv _ => hunsaved.stable hv⟩
  | _ => cases hstep

theorem wp_program {limits : Limits} {operation : Operation} (hinv : Invariant start disk)
    (hs : Unsaved i disk) :
    (operation.program limits).wp (conformingExec i) (storeProtocol start) i
      (Returned limits operation i) (fun _ later => Unsaved i later) disk := by
  refine Program.wp_bind hinv (Program.wp_mono (wp_draw (A := Unsaved i)
    (fun _ _ h => h.stable) hs fun _ h => h) ?_ fun _ _ _ he => he)
  rintro change t hit ⟨hprologue, hunsaved⟩
  refine Program.wp_bind hit (Program.wp_mono (wp_load hunsaved) ?_ fun _ _ _ he => he)
  rintro file u hiu ⟨before, hfile, hread⟩
  refine Program.wp_bind hiu (Program.wp_mono (wp_draw (A := HasRead i before)
    (fun _ _ h => h.stable) hread fun _ h => h.1) ?_ fun _ _ _ he => he)
  rintro ⟨run, changed⟩ v hiv ⟨hchange, hread⟩
  refine Program.wp_bind hiv (Program.wp_mono (wp_save hread) ?_ fun _ _ _ he => he)
  rintro - w hiw hsaved
  have hreturned : ∀ later : Disk ι, Saved i before (.value (changed.bounded limits).toJson) later →
      Returned limits operation i run later := fun later h =>
    ⟨before, _, ⟨change, file, changed, hprologue, hfile, hchange, rfl⟩, h⟩
  cases operation.audited with
  | false => exact fun x hx _ => hreturned x (hsaved.stable hx)
  | true =>
    refine Program.wp_request fun x hx hix r x' hstep => ?_
    obtain ⟨⟨choice, hstep⟩, -⟩ := hstep
    obtain ⟨rfl, rfl⟩ := Prod.mk.inj (Option.some.inj hstep)
    exact ⟨hix, OwnStep.refl _, fun y hy _ => hreturned y ((hsaved.stable hx).stable hy)⟩

end Method

/-! ## All calls -/

theorem sequential_of_written {start : Option StoreText} (runs : ι → WorkerRun)
    {saves : List (Save ι)} {store : Option StoreText} (h : Written start saves store)
    (hruns : ∀ save ∈ saves,
      Transforms limits (calls save.call) save.replaced (runs save.call) save.written) :
    Sequential limits calls start
      (saves.reverse.map fun save => (save.call, runs save.call)) store := by
  induction saves generalizing store with
  | nil =>
    rw [show store = start from h]
    exact .nil start
  | cons save saves ih =>
    obtain ⟨rfl, h⟩ := h
    rw [List.reverse_cons, List.map_append]
    exact .append (ih h fun s hs => hruns s (List.mem_cons_of_mem _ hs))
      (returnsAlone_of_transforms (hruns save List.mem_cons_self))

/-- If no call replaces a file other than the one it has read, then the file at the end is what
the calls that returned make of the file at the start, one after the other and each alone. -/
theorem sequential_of_conforming {limits : Limits} {calls : ι → Operation}
    {start : Option StoreText} {pool : Pool ι StoreOp StoreOp.Res AppError WorkerRun}
    {disk : Disk ι}
    (hrun : Pool.Run storeExec Conforming (programs limits calls, .initial start) (pool, disk))
    (hended : Ended pool) :
    ∃ order : List (ι × WorkerRun), (order.map Prod.fst).Nodup ∧
      (∀ i run, (i, run) ∈ order ↔ pool i = .pure run) ∧
      Sequential limits calls start order disk.store := by
  have hinitial : Invariant start (Disk.initial start : Disk ι) :=
    ⟨rfl, List.nodup_nil, List.nodup_nil⟩
  have hsafe : Pool.Safe conformingExec (storeProtocol start)
      (fun i => Returned limits (calls i) i) (fun i _ later => Unsaved i later) (pool, disk) := by
    refine Pool.wp_run ?_ hrun ⟨hinitial, fun i => wp_program hinitial fun _ h => nomatch h⟩
    intro c i c' _ hpermit hstep
    cases hstep with
    | @intro pool s o k r s' hpool hexec =>
      refine .intro hpool ⟨hexec, ?_⟩
      rintro temporary rfl
      exact hpermit temporary k hpool
  -- a call that has saved has returned the run of its change
  have hreturned : ∀ save ∈ disk.saves, ∃ run, pool save.call = .pure run := by
    intro save hsave
    cases hcall : pool save.call with
    | pure run => exact ⟨run, rfl⟩
    | throw error => exact absurd rfl (hsafe.error hcall save hsave)
    | request o k => exact absurd (hended save.call) (by simp [hcall, Program.outcome?])
  let runs : ι → WorkerRun := fun i => ((pool i).outcome?.bind Except.toOption).getD
    { runId := "", primeAlias := "", sharedContext := "", createdAt := "", parked := false,
      workers := [] }
  have hruns : ∀ i run, pool i = .pure run → runs i = run := fun i run h => by
    simp [runs, h, Program.outcome?, Except.toOption]
  have htransforms : ∀ save ∈ disk.saves,
      Transforms limits (calls save.call) save.replaced (runs save.call) save.written := by
    intro save hsave
    obtain ⟨run, hrun⟩ := hreturned save hsave
    obtain ⟨before, after, htransforms, hsaved⟩ := hsafe.value hrun
    have hsame : (⟨save.call, before, after⟩ : Save ι) = save :=
      List.inj_on_of_nodup_map hsafe.1.calls hsaved hsave rfl
    rw [hruns _ _ hrun, ← hsame]
    exact htransforms
  refine ⟨disk.saves.reverse.map fun save => (save.call, runs save.call), ?_, fun i run => ?_,
    sequential_of_written runs hsafe.1.written htransforms⟩
  · rw [List.map_map, List.map_reverse, List.nodup_reverse]
    exact hsafe.1.calls
  · constructor
    · intro h
      obtain ⟨save, hsave, heq⟩ := List.mem_map.mp h
      obtain ⟨rfl, rfl⟩ := Prod.mk.inj heq
      obtain ⟨run, hrun⟩ := hreturned save (List.mem_reverse.mp hsave)
      rw [hrun, hruns _ _ hrun]
    · intro h
      obtain ⟨before, after, -, hsaved⟩ := hsafe.value h
      exact List.mem_map.mpr ⟨⟨i, before, after⟩, List.mem_reverse.mpr hsaved, by
        rw [hruns _ _ h]⟩

/-! ## Two calls that overlap -/

/-- A store file that has been saved, or none yet, with a number of runs. -/
def HasRuns (count : ℕ) (file : Option StoreText) : Prop :=
  (file = none ∧ count = 0) ∨
    ∃ saved : WorkerStoreFile, file = some (.value saved.toJson) ∧ saved.runs.length = count

theorem runFromLegacy_toJson {read : Option WorkerRun}
    (h : (runFromLegacy run.toJson).Yields read) : read.isSome = true := by
  obtain ⟨workers, -, h⟩ := Program.Yields.bind_inv h
  cases h
  rfl

theorem length_runs_of_interpret {count : ℕ} {file : WorkerStoreFile}
    (hbefore : HasRuns count before) (h : (interpret (answerOf before)).Yields file) :
    file.runs.length = count := by
  rcases hbefore with ⟨rfl, rfl⟩ | ⟨saved, rfl, rfl⟩
  · cases h
    rfl
  · obtain ⟨runs, hruns, h⟩ := Program.Yields.bind_inv h
    cases h
    obtain ⟨read, hread, h⟩ := Program.Yields.bind_inv hruns
    cases h
    have hall := List.forall₂_map_left_iff.mp (Program.Yields.mapM'_inv hread)
    have hlength : ∀ {runs : List WorkerRun} {read : List (Option WorkerRun)},
        List.Forall₂ (fun run read => (runFromLegacy run.toJson).Yields read) runs read →
        (read.filterMap id).length = runs.length := by
      intro runs read hall
      induction hall with
      | nil => rfl
      | @cons run read _ _ hrun _ ih =>
        obtain ⟨run', rfl⟩ := Option.isSome_iff_exists.mp (runFromLegacy_toJson hrun)
        rw [List.length_cons, ← ih]
        rfl
    exact hlength hall

theorem hasRuns_of_sequential
    (hspawn : ∀ i, ∃ primeAlias sharedContext specs,
      calls i = spawn limits primeAlias sharedContext specs) {order : List (ι × WorkerRun)}
    {file : Option StoreText} (h : Sequential limits calls none order file)
    (hfew : order.length ≤ limits.maxParkedRuns + 8) : HasRuns order.length file := by
  induction h with
  | nil => exact .inl ⟨rfl, rfl⟩
  | @append mid after order i run _ hlast ih =>
    rw [List.length_append, List.length_singleton] at hfew ⊢
    obtain ⟨text, rfl, change, before, changed, hprologue, hfile, hchange, rfl⟩ :=
      transforms_of_returnsAlone hlast
    obtain ⟨primeAlias, sharedContext, specs, hi⟩ := hspawn i
    obtain ⟨now, -, rfl⟩ := spawn_cases (hi ▸ hprologue) hchange
    have hbefore := length_runs_of_interpret (ih (by omega)) hfile
    refine .inr ⟨_, rfl, ?_⟩
    rw [WorkerStoreFile.bounded, last, List.length_drop, List.length_append,
      List.length_singleton, hbefore]
    omega

section Example

def smallLimits : Limits := { maxWorkers := 4, maxParkedRuns := 4 }

def spawns : Bool → Operation := fun _ =>
  spawn smallLimits "prime" "" [{ task := "t", label := none, aliasName := none, worktreePath := none }]

def readMoves (i : Bool) : List (Bool × StoreChoice) :=
  [(i, .draws "now"), (i, .completes), (i, .draws "run"), (i, .draws "w")]

def saveMoves (i : Bool) (name : String) : List (Bool × StoreChoice) :=
  [(i, .draws name), (i, .completes), (i, .completes), (i, .completes)]

def returned (p : StoreM WorkerRun) : Bool :=
  match p with
  | .pure _ => true
  | _ => false

theorem pure_of_returned {p : StoreM WorkerRun} (h : returned p = true) :
    ∃ run, p = .pure run := by
  cases p with
  | pure run => exact ⟨run, rfl⟩
  | _ => cases h

theorem ended_of_returned {p : StoreM WorkerRun} (h : returned p = true) :
    p.outcome?.isSome = true := by
  obtain ⟨run, rfl⟩ := pure_of_returned h
  rfl

def runCount : Option StoreText → ℕ
  | some (.value file) => (((file.property? "runs").bind Json.items?).getD []).length
  | _ => 0

theorem runCount_of_hasRuns {count : ℕ} {file : Option StoreText} (h : HasRuns count file) :
    runCount file = count := by
  rcases h with ⟨rfl, rfl⟩ | ⟨saved, rfl, rfl⟩
  · rfl
  · exact List.length_map _

def sameText : Option StoreText → Option StoreText → Bool
  | some (.value a), some (.value b) => a.beq b
  | none, none => true
  | _, _ => false

def conforms (c : Configuration Bool) (i : Bool) : Bool :=
  match c.1 i with
  | .request (.rename _) _ =>
    match c.2.loaded i with
    | some file => sameText file c.2.store
    | none => false
  | _ => true

theorem conforming_of_conforms (c : Configuration Bool) (i : Bool) (h : conforms c i = true) :
    Conforming c i := by
  intro temporary k hnext
  rw [conforms, hnext] at h
  cases hloaded : c.2.loaded i with
  | none => simp [hloaded] at h
  | some file =>
    simp only [hloaded] at h
    congr 1
    unfold sameText at h
    split at h
    next heq heq' => rw [heq', Json.eq_of_beq h]
    next heq' => exact heq'.symm
    next => cases h

/-- One spawn after the other. -/
theorem sequential_of_conforming_spawns : ∃ pool disk,
    Pool.Run storeExec Conforming (programs smallLimits spawns, .initial none) (pool, disk) ∧
    (∀ i, returned (pool i) = true) ∧
    ∃ order : List (Bool × WorkerRun), (order.map Prod.fst).Nodup ∧
      (∀ i run, (i, run) ∈ order ↔ pool i = .pure run) ∧
      Sequential smallLimits spawns none order disk.store := by
  have hfinal : (Pool.scheduleIf conforms StoreOp.apply
      (readMoves true ++ saveMoves true "a" ++ readMoves false ++ saveMoves false "b")
      (programs smallLimits spawns, .initial none)).map (fun c =>
        (returned (c.1 true), returned (c.1 false))) = some (true, true) := by
    decide +kernel
  obtain ⟨⟨pool, disk⟩, hc, houtcomes⟩ := Option.map_eq_some_iff.mp hfinal
  obtain ⟨htrue, hfalse⟩ := Prod.mk.inj houtcomes
  have hreturned : ∀ i, returned (pool i) = true := by
    intro i
    cases i with
    | false => exact hfalse
    | true => exact htrue
  have hrun : Pool.Run storeExec Conforming _ (pool, disk) := Pool.run_of_scheduleIf
    conforming_of_conforms (fun x _ _ _ _ _ hx => ⟨x, hx⟩) _ (.refl _) hc
  exact ⟨pool, disk, hrun, hreturned,
    sequential_of_conforming hrun fun i => ended_of_returned (hreturned i)⟩

/-- Both calls read the empty store, and the second save drops the run of the first call. -/
theorem overlapping_spawns_lose_run : ∃ pool disk,
    Pool.Run storeExec (fun _ _ => True) (programs smallLimits spawns, .initial none)
      (pool, disk) ∧
    Ended pool ∧
    ¬ ∃ order : List (Bool × WorkerRun), (order.map Prod.fst).Nodup ∧
      (∀ i run, (i, run) ∈ order ↔ pool i = .pure run) ∧
      Sequential smallLimits spawns none order disk.store := by
  have hfinal : (Pool.schedule StoreOp.apply
      (readMoves true ++ readMoves false ++ saveMoves true "a" ++ saveMoves false "b")
      (programs smallLimits spawns, .initial none)).map (fun c =>
        (returned (c.1 true), returned (c.1 false), runCount c.2.store)) =
      some (true, true, 1) := by
    decide +kernel
  obtain ⟨⟨pool, disk⟩, hc, houtcomes⟩ := Option.map_eq_some_iff.mp hfinal
  obtain ⟨htrue, hfalse, hcount⟩ : _ ∧ _ ∧ _ := by
    simpa only [Prod.mk.injEq] using houtcomes
  have hreturned : ∀ i, returned (pool i) = true := by
    intro i
    cases i with
    | false => exact hfalse
    | true => exact htrue
  refine ⟨pool, disk, Pool.run_of_schedule (fun x _ _ _ _ _ hx => ⟨x, hx⟩) _ (.refl _) hc,
    fun i => ended_of_returned (hreturned i), ?_⟩
  rintro ⟨order, hnodup, hmem, hsequential⟩
  have hall : ∀ i, i ∈ order.map Prod.fst := by
    intro i
    obtain ⟨run, hrun⟩ := pure_of_returned (hreturned i)
    exact List.mem_map.mpr ⟨(i, run), (hmem i run).mpr hrun, rfl⟩
  have hlength : order.length = 2 := by
    have hperm : (order.map Prod.fst).Perm [true, false] :=
      (List.perm_ext_iff_of_nodup hnodup (by decide)).mpr fun i => by
        cases i <;> simp only [hall, true_iff] <;> decide
    simpa using hperm.length_eq
  have hruns := hasRuns_of_sequential (fun i => ⟨_, _, _, rfl⟩) hsequential
    (by rw [hlength]; decide)
  rw [runCount_of_hasRuns hruns, hlength] at hcount
  cases hcount

end Example

end WorkerStore
