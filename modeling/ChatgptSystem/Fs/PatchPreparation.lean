import ChatgptSystem.Fs.PatchRecovery
import ChatgptSystem.Fs.WrittenContent

/-!
# The preparation of patch sets

What `prepare` returns is what a transaction starts from: the patches are those of the inputs, on
the files as they are, and no two of them have the same target.

* `Prepared` — a patch that has been prepared for an input;
* `begins_of_prepare` — a transaction of the patches that have been prepared may begin.
-/

open Interleaving
open PatchTransaction (exampleFiles exampleService)

namespace PatchSetService

/-- The patch for an input, on the files `s`. -/
structure Prepared (service : PatchSetService) (s : Files) (input : PatchSetInput)
    (entry : PreparedPatch) : Prop where
  target : entry.target = service.policy.candidate input.path
  original : s entry.target = some entry.original
  digest : service.sha256 entry.original = input.expectedSha256
  replacement : ∃ patched, service.patchTools.applyPatch (Text.decode entry.original)
    (service.patchTools.normalizeHunkHeaders input.patch).1 = .ok (some patched) ∧
      entry.replacement = Text.encode patched
  readable : entry.original.length ≤ service.maxReadBytes
  writable : entry.replacement.length ≤ service.maxWriteBytes

/-- The bytes of the patches. -/
def patchBytes (inputs : List PatchSetInput) : ℕ :=
  (inputs.map fun input => (Text.encode input.patch).length).sum

/-- The bytes of the contents, old and new. -/
def transactionBytes (entries : List PreparedPatch) : ℕ :=
  (entries.map fun entry => entry.original.length + entry.replacement.length).sum

variable {faults : Prop} {inv : Files → Prop} {α : Type} {s t : Files} {E : AppError → Files → Prop}
  {service : PatchSetService} {inputs : List PatchSetInput} {seen : List AbsPath}
  {prepared entries : List PreparedPatch}

theorem keeps_query {p : FsM α} (hp : p.Issues FsOp.IsQuery) :
    Keeps faults inv p (fun _ t => t = s) (fun _ _ => True) s := by
  refine fun _ => Program.wp_mono (Program.wp_of_still (A := (· = s))
    (fun o t r t' ho hx => ?_) (fun _ => trivial) hp (fun _ _ ht hrely _ => hrely ▸ ht) rfl
    fun _ _ _ => trivial) (fun _ _ _ h => h.2) fun _ _ _ h => h
  cases o <;> first | exact ho.elim | cases r <;> exact hx.2

/-- An accepted path is the one that the input stands for. -/
theorem keeps_resolve (policy : PathPolicy) (input : String) :
    Keeps faults inv (policy.resolve input) (fun target t => target = policy.candidate input ∧ t = s)
      (fun _ _ => True) s := by
  have hcanonical : ∀ {β : Type} {path} {f : AbsPath → FsM β} {Q},
      (∀ key, Keeps faults inv (f key) Q (fun _ _ => True) s) →
      Keeps faults inv ((canonicalizePath path).bind f) Q (fun _ _ => True) s :=
    fun hf => keeps_then (keeps_query (issues_canonicalizePath _)) fun key t ht => ht ▸ hf key
  rw [PathPolicy.resolve]
  split
  · exact keeps_throw trivial
  dsimp only
  split
  · refine hcanonical fun _ => hcanonical fun _ => ?_
    split
    · exact keeps_throw trivial
    · exact keeps_pure ⟨rfl, rfl⟩
  · refine hcanonical fun key => ?_
    induction policy.roots with
    | nil => exact keeps_throw trivial
    | cons root rest ih =>
      refine hcanonical fun canonicalRoot => ?_
      split
      · exact keeps_pure ⟨rfl, rfl⟩
      · exact ih

/-- The loop, from the patches on that have been prepared. -/
theorem keeps_prepareFrom {patches transaction : ℕ} (hpatches : patches ≤ MAX_TOTAL_PATCH_BYTES)
    (htransaction : transaction ≤ MAX_TRANSACTION_BYTES) :
    Keeps faults inv (service.prepareFrom patches transaction seen prepared inputs)
      (fun entries t => t = s ∧ ∃ added, entries = prepared ++ added ∧
        List.Forall₂ (Prepared service s) inputs added ∧
        (added.map PreparedPatch.target).Nodup ∧ (∀ entry ∈ added, entry.target ∉ seen) ∧
        patches + patchBytes inputs ≤ MAX_TOTAL_PATCH_BYTES ∧
        transaction + transactionBytes added ≤ MAX_TRANSACTION_BYTES) (fun _ _ => True) s := by
  induction inputs generalizing patches transaction seen prepared with
  | nil =>
    exact keeps_pure ⟨rfl, [], (List.append_nil _).symm, .nil, List.nodup_nil, nofun, hpatches,
      htransaction⟩
  | cons input inputs ih =>
    rw [prepareFrom]
    split
    · exact keeps_throw trivial
    next hpatch =>
    refine keeps_then (keeps_resolve service.policy input.path) ?_
    rintro target t ⟨htarget, rfl⟩
    refine keeps_bind (keeps_request fun r u hx hs => ?_)
    cases r with
    | error e => exact ⟨hx.2 ▸ hs, keeps_throw trivial⟩
    | ok info =>
    obtain ⟨⟨original, mode, horiginal, rfl⟩ | ⟨-, rfl⟩, rfl⟩ := hx
    rotate_left
    · -- a directory is refused
      exact ⟨hs, keeps_pure (keeps_throw trivial)⟩
    refine ⟨hs, keeps_pure ?_⟩
    rw [if_neg (by simp), if_neg (by simp [Stats.isFile])]
    refine keeps_bind (keeps_request fun r u hx hs => ?_)
    cases r with
    | error e => exact ⟨hx.2 ▸ hs, keeps_throw trivial⟩
    | ok canonical =>
    obtain ⟨rfl, rfl⟩ := hx
    refine ⟨hs, keeps_pure ?_⟩
    split
    · exact keeps_throw trivial
    next hseen =>
    refine keeps_bind (E := fun _ _ => True) (keeps_readRegularNoFollow horiginal
      (fun hreadable mode => ?_) fun _ _ _ => trivial)
    dsimp only
    split
    · exact keeps_throw trivial
    next hdigest =>
    refine keeps_bind ?_
    cases service.patchTools.validate (service.patchTools.normalizeHunkHeaders input.patch).1 with
    | error e => exact keeps_throw trivial
    | ok _ =>
    refine keeps_pure (keeps_bind ?_)
    cases hpatched : service.patchTools.applyPatch (Text.decode original)
        (service.patchTools.normalizeHunkHeaders input.patch).1 with
    | error e => exact keeps_throw trivial
    | ok patched? =>
    refine keeps_pure ?_
    cases patched? with
    | none => exact keeps_throw trivial
    | some patched =>
    dsimp only
    split
    · exact keeps_throw trivial
    next hwritable =>
    split
    · exact keeps_throw trivial
    next hbytes =>
    refine keeps_mono (ih (Nat.not_lt.mp hpatch) (Nat.not_lt.mp hbytes)) ?_ fun _ _ h => h
    rintro _ u ⟨rfl, added, rfl, hprepared, hnodup, hnew, hpatches, htransaction⟩
    refine ⟨rfl, _ :: added, List.append_assoc _ [_] added, .cons ⟨htarget, horiginal,
      not_not.mp hdigest, ⟨patched, hpatched, rfl⟩, hreadable, Nat.not_lt.mp hwritable⟩ hprepared,
      List.nodup_cons.mpr ⟨?_, hnodup⟩, List.forall_mem_cons.mpr ⟨hseen, ?_⟩, ?_, ?_⟩
    · intro hmem
      obtain ⟨entry, hentry, heq⟩ := List.mem_map.mp hmem
      exact hnew entry hentry (heq ▸ List.mem_cons_self)
    · exact fun entry hentry hmem => hnew entry hentry (List.mem_cons_of_mem _ hmem)
    · rw [patchBytes, List.map_cons, List.sum_cons, ← Nat.add_assoc]
      exact hpatches
    · rw [transactionBytes, List.map_cons, List.sum_cons, ← Nat.add_assoc, ← Nat.add_assoc]
      exact htransaction

/-- A preparation that returns has left the files alone, has prepared a patch for each input within
the limits, and a transaction of these patches may begin. -/
theorem begins_of_prepare
    (h : Program.Steps (Files.Does faults) (service.prepare inputs, s) (.pure entries, t)) :
    t = s ∧ List.Forall₂ (Prepared service s) inputs entries ∧
      (1 ≤ entries.length ∧ entries.length ≤ MAX_PATCH_COUNT) ∧
      (entries.map PreparedPatch.target).Nodup ∧ patchBytes inputs ≤ MAX_TOTAL_PATCH_BYTES ∧
      transactionBytes entries ≤ MAX_TRANSACTION_BYTES ∧
      ∀ x : PatchTransaction, x.entries = entries →
        (∀ path, path = x.journalPath ∨ x.Artifact path → s path = none) → x.Begins s := by
  have hkeeps : Keeps faults (fun _ => True) (service.prepare inputs) (fun entries t => t = s ∧
      List.Forall₂ (Prepared service s) inputs entries ∧
      (1 ≤ inputs.length ∧ inputs.length ≤ MAX_PATCH_COUNT) ∧
      (entries.map PreparedPatch.target).Nodup ∧ patchBytes inputs ≤ MAX_TOTAL_PATCH_BYTES ∧
      transactionBytes entries ≤ MAX_TRANSACTION_BYTES) (fun _ _ => True) s := by
    refine keeps_bind ?_
    rw [requirePatchCount]
    split
    · exact keeps_throw trivial
    next hcount =>
    refine keeps_pure (keeps_mono (keeps_prepareFrom (Nat.zero_le _) (Nat.zero_le _)) ?_
      fun _ _ h => h)
    rintro _ u ⟨rfl, added, rfl, hprepared, hnodup, -, hpatches, htransaction⟩
    rw [Nat.zero_add] at hpatches htransaction
    exact ⟨rfl, hprepared, by omega, hnodup, hpatches, htransaction⟩
  obtain ⟨-, hwp⟩ := Program.wp_steps h trivial (hkeeps trivial)
  obtain ⟨rfl, hprepared, hcount, hnodup, hpatches, htransaction⟩ := hwp t rfl trivial
  refine ⟨rfl, hprepared, hprepared.length_eq ▸ hcount, hnodup, hpatches, htransaction, ?_⟩
  rintro x rfl hfresh
  refine ⟨fun entry hentry => ?_, hfresh⟩
  obtain ⟨⟨n, hn⟩, rfl⟩ := List.get_of_mem hentry
  exact (hprepared.get (hprepared.length_eq ▸ hn) hn).original

def exampleInput : PatchSetInput where
  path := "f"
  patch := ("--- f\n+++ f\n@@ -1 +1 @@\n-a\n\\ No newline at end of file\n" ++
    "+b\n\\ No newline at end of file\n").toList
  expectedSha256 := "ca978112ca1bbdcafac231b39a23dc4da786eff8147c4e72b9807785afee48bb"

/-- An operation that finds a directory, or one that finds a file. -/
def exampleStep : Bool → (o : FsOp) → Files → Option (o.Res × Files)
  | true, .lstat path, s => if s path = none then some (.ok .directory, s) else none
  | true, _, _ => none
  | false, o, s => some (s.act o)

theorem begins_of_prepare_example : ∃ entries t,
    Program.Steps (Files.Does True) (exampleService.prepare [exampleInput], exampleFiles)
      (.pure entries, t) ∧
    List.Forall₂ (Prepared exampleService exampleFiles) [exampleInput] entries := by
  -- The root is looked up first; the other paths are those of the file.
  obtain ⟨c, hfollow, entries, hentries⟩ : ∃ c, Program.follow exampleStep
      (true :: List.replicate 7 false) (exampleService.prepare [exampleInput], exampleFiles) =
        some c ∧ ∃ entries, c.1 = .pure entries := ⟨_, rfl, _, rfl⟩
  have hsteps : Program.Steps (Files.Does True) (exampleService.prepare [exampleInput], exampleFiles)
      (.pure entries, c.2) := by
    rw [← hentries]
    refine Program.steps_of_follow (fun isDirectory o s r t h => ?_) _ (.refl _) hfollow
    cases isDirectory with
    | false =>
      obtain ⟨rfl, rfl⟩ := Prod.mk.inj (Option.some.inj h)
      exact Files.does_act o s
    | true =>
      cases o
      case lstat path =>
        rw [exampleStep] at h
        split at h
        next hmissing =>
          obtain ⟨rfl, rfl⟩ := Prod.mk.inj (Option.some.inj h)
          exact ⟨.inr ⟨hmissing, rfl⟩, rfl⟩
        next => cases h
      all_goals cases h
  exact ⟨entries, c.2, hsteps, (begins_of_prepare hsteps).2.1⟩

end PatchSetService
