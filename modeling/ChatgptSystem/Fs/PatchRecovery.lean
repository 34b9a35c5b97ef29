import ChatgptSystem.Fs.FileFaults

/-!
# Crashes and recovery of patch sets

A patch-set transaction may stop at any of its file operations, and so may every recovery of its
journal; operations fail at any time. Nothing else writes to the targets.

* `PatchTransaction`, `Begins`, `Reached` — a transaction, the disks on which it starts, and those
  which it and any number of interrupted recoveries lead to;
* `CrashSafe` — what the journal says about the targets, at any time;
* `crash_atomic` — without a journal all targets are old or all are new;
* `recovery_ends` — a recovery that nothing disturbs gets through if the files can be read.
-/

open Function Interleaving
open PatchSetService (cleanupJournal createFile materialize safeUnlink toJournal unlinkAll wellNamed)

/-! ## Names -/

section Names

/-- The last three characters of a file's name, the last one first. -/
def ending (path : AbsPath) : List Char := (basename path).toList.reverse.take 3

theorem ending_dotted {directory : AbsPath} {base extension : String} {id : NamePart} {hbase}
    {hextension} (h : 3 ≤ extension.toList.length) :
    ending (directory ++ [dottedName base id extension hbase hextension]) =
      extension.toList.reverse.take 3 := by
  rw [ending, basename, List.getLast?_concat]
  show (dottedText base id.text extension).toList.reverse.take 3 = _
  rw [toList_dottedText]
  simp [List.take_append_of_le_length, h]

theorem ne_of_ending {p q : AbsPath} {a b : List Char} (hp : ending p = a) (hq : ending q = b)
    (hab : a ≠ b) : p ≠ q := by
  rintro rfl
  exact hab (hp.symm.trans hq)

variable {service : PatchSetService} {entry entry' : PreparedPatch} {transactionId uuid : NamePart}

theorem ending_temp : ending (entry.temp transactionId) = ['t', 'x', 'e'] := ending_dotted (by decide)

theorem ending_backup : ending (entry.backup transactionId) = ['p', 'u', 'k'] :=
  ending_dotted (by decide)

theorem ending_journalTemp : ending (service.journalTemp transactionId uuid) = ['p', 'm', 't'] :=
  ending_dotted (by decide)

theorem ending_journalPath : ending (service.journalPath transactionId) = ['n', 'o', 's'] := by
  rw [ending, PatchSetService.journalPath, basename, List.getLast?_concat]
  simp

theorem eq_of_basename {p q : AbsPath} (hdirectory : Paths.dirname p = Paths.dirname q)
    (hbase : basename p = basename q) : p = q := by
  have hne : ∀ directory : AbsPath, ∀ n : Name, basename (directory ++ [n]) ≠ "" := fun _ n => by
    rw [basename, List.getLast?_concat]
    exact n.isName.1
  rcases List.eq_nil_or_concat' p with rfl | ⟨p, m, rfl⟩ <;>
    rcases List.eq_nil_or_concat' q with rfl | ⟨q, n, rfl⟩
  · rfl
  · exact absurd hbase.symm (hne q n)
  · exact absurd hbase (hne p m)
  · rw [basename, basename, List.getLast?_concat, List.getLast?_concat] at hbase
    rw [Paths.dirname, Paths.dirname, List.dropLast_concat, List.dropLast_concat] at hdirectory
    cases m
    cases n
    simp_all

/-- Files next to different targets are different. -/
theorem target_eq_of_sibling {extension : String} {h} (heq :
    entry.sibling transactionId extension h = entry'.sibling transactionId extension h) :
    entry.target = entry'.target := by
  obtain ⟨hdirectory, hname⟩ := List.append_inj' heq rfl
  have htext := congrArg (fun n : Name => n.text.toList) (List.singleton_inj.mp hname)
  simp only [dottedName, toList_dottedText, List.cons.injEq, true_and] at htext
  exact eq_of_basename hdirectory (String.toList_injective (List.append_cancel_right htext))

end Names

/-! ## What the journal says -/

/-- A transaction: a service, the identifiers, and the patches that have been prepared. -/
structure PatchTransaction where
  service : PatchSetService
  ident : NamePart
  createdAt : String
  entries : List PreparedPatch
  /-- The UUIDs under which the journal is written. -/
  uuid : JournalState → NamePart
  count : 1 ≤ entries.length ∧ entries.length ≤ MAX_PATCH_COUNT
  distinct : (entries.map PreparedPatch.target).Nodup

namespace PatchTransaction

section States

variable (x : PatchTransaction)

def journalPath : AbsPath := x.service.journalPath x.ident

def journal (state : JournalState) : PatchJournal :=
  x.service.toJournal x.ident x.createdAt x.entries state

/-- The paths of the files that the transaction makes beside its journal. -/
def Artifact (path : AbsPath) : Prop :=
  (∃ state, path = x.service.journalTemp x.ident (x.uuid state)) ∨
    ∃ entry ∈ x.entries, path = entry.temp x.ident ∨ path = entry.backup x.ident

/-- The targets have the contents that have been read, and no file is named by the identifiers of
the transaction. -/
structure Begins (s : Files) : Prop where
  targets : ∀ entry ∈ x.entries, s entry.target = some entry.original
  fresh : ∀ path, path = x.journalPath ∨ x.Artifact path → s path = none

/-- All targets have the contents that `content` says. -/
def All (content : PreparedPatch → Bytes) (s : Files) : Prop :=
  ∀ entry ∈ x.entries, s entry.target = some (content entry)

/-- The journal is in a state. -/
def At (state : JournalState) (s : Files) : Prop :=
  s x.journalPath = some (x.journal state).serialize

/-- Every target is old, or new with a backup that is old. -/
def Restorable (s : Files) : Prop :=
  ∀ entry ∈ x.entries, s entry.target = some entry.original ∨
    s entry.target = some entry.replacement ∧
      s (entry.backup x.ident) = some entry.original

/-- What the targets are, by what the journal says. -/
inductive CrashSafe (s : Files) : Prop where
  | unwritten (h : s x.journalPath = none)
      (hall : x.All (·.original) s ∨ x.All (·.replacement) s)
  | prepared (h : x.At .prepared s) (hall : x.All (·.original) s)
  | committing (h : x.At .committing s) (hrestorable : x.Restorable s)
  | committed (h : x.At .committed s) (hall : x.All (·.replacement) s)

/-- The journal and the targets are the same. -/
def Same (s t : Files) : Prop :=
  t x.journalPath = s x.journalPath ∧ ∀ entry ∈ x.entries, t entry.target = s entry.target

/-- Nothing but the journal and the targets matters any more. -/
def Removable (s : Files) : Prop := ∀ t, x.Same s t → x.CrashSafe t

/-- No target is one of the transaction's own files. -/
def Apart : Prop :=
  ∀ entry ∈ x.entries, ∀ path, path = x.journalPath ∨ x.Artifact path → path ≠ entry.target

/-- The files for a patch have been made. -/
def Made (entry : PreparedPatch) (s : Files) : Prop :=
  s (entry.backup x.ident) = some entry.original ∧
    s (entry.temp x.ident) = some entry.replacement

/-- The files for a patch are gone. -/
def Gone (entry : PreparedPatch) (s : Files) : Prop :=
  s (entry.temp x.ident) = none ∧ s (entry.backup x.ident) = none

/-- All targets have one content, and nothing else is left of the transaction. -/
structure Clean (content : PreparedPatch → Bytes) (s : Files) : Prop where
  journal : s x.journalPath = none
  targets : x.All content s
  gone : ∀ entry ∈ x.entries, x.Gone entry s

end States

variable {x : PatchTransaction} {s t : Files} {path : AbsPath} {content : PreparedPatch → Bytes}
  {entry other : PreparedPatch} {state : JournalState}

theorem Begins.apart (h : x.Begins s) : x.Apart := by
  intro entry hentry path hown heq
  have hnone := h.fresh path hown
  rw [heq, h.targets entry hentry] at hnone
  cases hnone

theorem Begins.safe (h : x.Begins s) : x.CrashSafe s :=
  .unwritten (h.fresh x.journalPath (.inl rfl)) (.inl h.targets)

theorem eq_of_target (hentry : entry ∈ x.entries) (hother : other ∈ x.entries)
    (h : other.target = entry.target) : other = entry :=
  List.inj_on_of_nodup_map x.distinct hother hentry h

theorem artifact_temp (h : entry ∈ x.entries) : x.Artifact (entry.temp x.ident) :=
  .inr ⟨entry, h, .inl rfl⟩

theorem artifact_backup (h : entry ∈ x.entries) : x.Artifact (entry.backup x.ident) :=
  .inr ⟨entry, h, .inr rfl⟩

theorem Artifact.ne_journalPath (h : x.Artifact path) : x.journalPath ≠ path := by
  rcases h with ⟨state, rfl⟩ | ⟨entry, -, rfl | rfl⟩
  · exact ne_of_ending ending_journalPath ending_journalTemp (by decide)
  · exact ne_of_ending ending_journalPath ending_temp (by decide)
  · exact ne_of_ending ending_journalPath ending_backup (by decide)

theorem Same.refl (s : Files) : x.Same s s := ⟨rfl, fun _ _ => rfl⟩

theorem Same.write (h : x.Same s t) (hapart : x.Apart) (hpath : x.Artifact path)
    (value : Option Bytes) : x.Same s (update t path value) :=
  ⟨(update_of_ne hpath.ne_journalPath ..).trans h.1, fun entry hentry =>
    (update_of_ne (hapart entry hentry path (.inr hpath)).symm ..).trans (h.2 entry hentry)⟩

/-- With one content in all targets, the journal may be in any state that allows it. -/
theorem removable_of_all (hall : x.All content s)
    (h : (s x.journalPath = none ∨ x.At .prepared s ∨ x.At .committing s) ∧
        content = (·.original) ∨
      (s x.journalPath = none ∨ x.At .committed s) ∧ content = (·.replacement)) :
    x.Removable s := by
  intro t hsame
  have hall' : x.All content t := fun entry hentry =>
    (hsame.2 entry hentry).trans (hall entry hentry)
  rcases h with ⟨h | h | h, rfl⟩ | ⟨h | h, rfl⟩
  · exact .unwritten (hsame.1.trans h) (.inl hall')
  · exact .prepared (hsame.1.trans h) hall'
  · exact .committing (hsame.1.trans h) fun entry hentry => .inl (hall' entry hentry)
  · exact .unwritten (hsame.1.trans h) (.inr hall')
  · exact .committed (hsame.1.trans h) hall'

theorem All.journal (h : x.All content s) (hapart : x.Apart) (value : Option Bytes) :
    x.All content (update s x.journalPath value) := fun entry hentry =>
  (update_of_ne (hapart entry hentry _ (.inl rfl)).symm ..).trans (h entry hentry)

/-- A file of a patch that takes the place of the target. -/
theorem renamed (hapart : x.Apart) (hentry : entry ∈ x.entries) {source : AbsPath} {bytes : Bytes}
    (hsource : source = entry.temp x.ident ∨ source = entry.backup x.ident)
    (ht : t = update (update s source none) entry.target (some bytes)) :
    t x.journalPath = s x.journalPath ∧ t entry.target = some bytes ∧
      (∀ path, x.Artifact path → path ≠ source → t path = s path) ∧
      ∀ other ∈ x.entries, other ≠ entry → t other.target = s other.target ∧
        t (other.backup x.ident) = s (other.backup x.ident) ∧
        t (other.temp x.ident) = s (other.temp x.ident) := by
  subst ht
  have hartifact : x.Artifact source := .inr ⟨entry, hentry, hsource⟩
  have hkept : ∀ path, path ≠ entry.target → path ≠ source →
      update (update s source none) entry.target (some bytes) path = s path :=
    fun path htarget hsource =>
      (update_of_ne htarget ..).trans (update_of_ne hsource ..)
  have hfile := fun path hpath => hkept path (hapart entry hentry path (.inr hpath))
  refine ⟨hkept _ (hapart entry hentry _ (.inl rfl)) hartifact.ne_journalPath,
    update_self .., hfile, fun other hother hne => ?_⟩
  have htarget : other.target ≠ entry.target := fun h => hne (eq_of_target hentry hother h)
  refine ⟨hkept _ htarget (hapart other hother _ (.inr hartifact)).symm,
    hfile _ (artifact_backup hother) ?_, hfile _ (artifact_temp hother) ?_⟩
  · rcases hsource with rfl | rfl
    · exact ne_of_ending ending_backup ending_temp (by decide)
    · exact fun h => htarget (target_eq_of_sibling h)
  · rcases hsource with rfl | rfl
    · exact fun h => htarget (target_eq_of_sibling h)
    · exact ne_of_ending ending_temp ending_backup (by decide)

/-! ## Recovery -/

section Recovery

variable {faults : Prop} {E : AppError → Files → Prop}

theorem Gone.unlink (h : x.Gone entry s) : x.Gone entry (update s path none) := by
  have hnone : ∀ {p : AbsPath}, s p = none → update s path none p = none := by
    intro p hp
    by_cases hpath : p = path
    · rw [hpath, update_self]
    · rw [update_of_ne hpath, hp]
  exact ⟨hnone h.1, hnone h.2⟩

theorem gone_update : x.Gone entry (update
    (update s (entry.temp x.ident) none) (entry.backup x.ident) none) := by
  rw [Gone, update_of_ne (ne_of_ending ending_temp ending_backup (by decide)),
    update_self, update_self]
  exact ⟨rfl, rfl⟩

/-- The files made for the patches are removed. -/
theorem keeps_removeArtifacts {Q : Unit → Files → Prop} (hapart : x.Apart)
    (hremovable : x.Removable s) (hfault : faults → ∀ e t, E e t)
    (hQ : ∀ t, x.Same s t → (∀ entry ∈ x.entries, x.Gone entry t) → Q () t) :
    Keeps faults x.CrashSafe (Program.forEach x.entries fun entry =>
      (safeUnlink (entry.temp x.ident)).bind fun _ =>
        safeUnlink (entry.backup x.ident)) Q E s := by
  refine keeps_forEach (x.Same s) x.Gone (.refl s) (fun entry hentry t hsame => ?_) hQ
  have hmid := hsame.write hapart (artifact_temp hentry) none
  have hlater := hmid.write hapart (artifact_backup hentry) none
  exact keeps_bind (keeps_safeUnlink (hremovable _ hmid) (keeps_safeUnlink (hremovable _ hlater)
    ⟨hlater, gone_update, fun _ _ hgone => hgone.unlink.unlink⟩ fun hf e => hfault hf e _)
    fun hf e => hfault hf e _)

/-- The cleanup keeps the contents of the targets. -/
theorem keeps_cleanupJournal (hapart : x.Apart) (hall : x.All content s)
    (h : (x.At .prepared s ∨ x.At .committing s) ∧ content = (·.original) ∨
      x.At .committed s ∧ content = (·.replacement)) (hfault : faults → ∀ e t, E e t) :
    Keeps faults x.CrashSafe
      (cleanupJournal (x.journal state).entries x.journalPath)
      (fun _ => x.Clean content) E s := by
  have hremovable : x.Removable s :=
    removable_of_all hall (h.imp (.imp .inr id) (.imp .inr id))
  rw [cleanupJournal, journal, toJournal, Program.forEach_map]
  refine keeps_bind (keeps_removeArtifacts hapart hremovable hfault fun t hsame hgone => ?_)
  have hnone : update t x.journalPath none x.journalPath = none := update_self ..
  have hall' : x.All content (update t x.journalPath none) :=
    All.journal (fun entry hentry => (hsame.2 entry hentry).trans (hall entry hentry)) hapart none
  exact keeps_safeUnlink
    (removable_of_all hall' (h.imp (.imp_left fun _ => .inl hnone) (.imp_left fun _ => .inl hnone))
      _ (.refl _))
    ⟨hnone, hall', fun entry hentry => (hgone entry hentry).unlink⟩ fun hf e => hfault hf e _

/-- The target of a patch is below a root, as it is written. -/
def Inside (x : PatchTransaction) (entry : PreparedPatch) : Prop :=
  ∃ root ∈ x.service.policy.roots, Paths.isInside root entry.target = true

theorem dirname_sibling (extension : String) (h) :
    Paths.dirname (entry.sibling x.ident extension h) = Paths.dirname entry.target :=
  List.dropLast_concat

theorem wellNamed_sibling (extension : String) (h) :
    wellNamed entry.target (entry.sibling x.ident extension h) ("." ++ extension) = true := by
  have hbase : (basename (entry.sibling x.ident extension h)).toList =
      '.' :: ((basename entry.target).toList ++
        '.' :: (x.ident.text.toList ++ '.' :: extension.toList)) := by
    rw [basename, PreparedPatch.sibling, List.getLast?_concat]
    exact toList_dottedText ..
  rw [wellNamed, hbase, Bool.and_eq_true, List.isPrefixOf_iff_prefix, List.isSuffixOf_iff_suffix]
  exact ⟨⟨x.ident.text.toList ++ '.' :: extension.toList, by simp⟩,
    ⟨'.' :: ((basename entry.target).toList ++ '.' :: x.ident.text.toList), by simp⟩⟩

theorem validateJournalEntry_entryOf : x.service.validateJournalEntry
    (x.service.entryOf x.ident entry) = .ok () ↔ x.Inside entry := by
  have hnone : (x.service.policy.roots.find? (Paths.isInside · entry.target)).isNone = true ↔
      ¬ x.Inside entry := by
    rw [Option.isNone_iff_eq_none, List.find?_eq_none]
    constructor
    · rintro h ⟨root, hroot, hinside⟩
      exact h root hroot hinside
    · exact fun h root hroot hinside => h ⟨root, hroot, hinside⟩
  have hnamed : ¬ (!wellNamed entry.target (entry.temp x.ident) ".next" ||
      !wellNamed entry.target (entry.backup x.ident) ".backup") = true := by
    simpa using ⟨wellNamed_sibling "next" (by decide), wellNamed_sibling "backup" (by decide)⟩
  rw [PatchSetService.validateJournalEntry]
  split
  next h => exact iff_of_false (by rintro ⟨⟩) (hnone.mp h)
  next h =>
    refine iff_of_true ?_ (not_not.mp fun houtside => h (hnone.mpr houtside))
    split
    next h =>
      exact h.elim (absurd (dirname_sibling ..)) (absurd (dirname_sibling ..))
    next =>
      split
      next h => exact absurd h hnamed
      next => rfl

/-- The journals are short enough and the contents can be read. -/
structure Readable (x : PatchTransaction) : Prop where
  journals : ∀ state, (x.journal state).serialize.length ≤ x.service.maxWriteBytes
  originals : ∀ entry ∈ x.entries, entry.original.length ≤ x.service.maxReadBytes
  replacements : ∀ entry ∈ x.entries, entry.replacement.length ≤ x.service.maxReadBytes

/-- What may keep a recovery from getting through. -/
def Trouble (x : PatchTransaction) (faults : Prop) : Prop :=
  faults ∨ ¬ x.Readable ∨ ¬ ∀ entry ∈ x.entries, x.Inside entry

/-- The digest tells the two contents of each target apart. -/
def Distinguishes (x : PatchTransaction) : Prop :=
  ∀ entry ∈ x.entries, x.service.sha256 entry.replacement = x.service.sha256 entry.original →
    entry.replacement = entry.original

theorem keeps_validate (hentry : entry ∈ x.entries) {Q : Unit → Files → Prop}
    (hQ : x.Inside entry → Q () s) : Keeps faults x.CrashSafe (Program.ofExcept
      (x.service.validateJournalEntry (x.service.entryOf x.ident entry))) Q
      (fun _ _ => x.Trouble faults) s := by
  have hiff : _ ↔ x.Inside entry := validateJournalEntry_entryOf
  cases hvalid : x.service.validateJournalEntry (x.service.entryOf x.ident entry) with
  | ok _ => exact keeps_pure (hQ (hiff.mp hvalid))
  | error e =>
    refine keeps_throw (.inr (.inr fun h => ?_))
    rw [hiff.mpr (h entry hentry)] at hvalid
    cases hvalid

/-- A backup that is put back. -/
theorem restored (hapart : x.Apart) (hentry : entry ∈ x.entries) (hat : x.At .committing s)
    (hrestorable : x.Restorable s) (ht : t = update
      (update s (entry.backup x.ident) none) entry.target (some entry.original)) :
    (x.At .committing t ∧ x.Restorable t) ∧ t entry.target = some entry.original ∧
      ∀ other ∈ x.entries, s other.target = some other.original →
        t other.target = some other.original := by
  obtain ⟨hjournal, hself, -, hothers⟩ := renamed hapart hentry (.inr rfl) ht
  refine ⟨⟨hjournal.trans hat, fun other hother => ?_⟩, hself, fun other hother hold => ?_⟩ <;>
    by_cases heq : other = entry
  · exact .inl (heq ▸ hself)
  · obtain ⟨htarget, hbackup, -⟩ := hothers other hother heq
    rw [htarget, hbackup]
    exact hrestorable other hother
  · exact heq ▸ hself
  · rw [(hothers other hother heq).1, hold]

/-- One round of the rollback. -/
theorem keeps_restore (hapart : x.Apart) (hdigest : x.Distinguishes) (hentry : entry ∈ x.entries)
    (hat : x.At .committing s) (hrestorable : x.Restorable s) :
    Keeps faults x.CrashSafe (x.service.restore (x.service.entryOf x.ident entry))
      (fun _ t => (x.At .committing t ∧ x.Restorable t) ∧ t entry.target = some entry.original ∧
        ∀ other ∈ x.entries, s other.target = some other.original →
          t other.target = some other.original)
      (fun _ _ => x.Trouble faults) s := by
  have htrouble : ∀ {content : Bytes}, (x.Readable → content.length ≤ x.service.maxReadBytes) →
      faults ∨ x.service.maxReadBytes < content.length → x.Trouble faults :=
    fun hshort h => h.imp id fun hlong => .inl fun hreadable =>
      Nat.not_le_of_lt hlong (hshort hreadable)
  refine keeps_bind (keeps_validate hentry fun _ => keeps_bind ?_)
  rcases hrestorable entry hentry with hold | ⟨hnew, hbackup⟩
  · refine keeps_targetHash hold ?_ fun h _ => htrouble (fun h => h.originals entry hentry) h
    split
    next => exact keeps_pure ⟨⟨hat, hrestorable⟩, hold, fun _ _ => id⟩
    next hdifferent => exact absurd rfl hdifferent
  · refine keeps_targetHash hnew ?_ fun h _ => htrouble (fun h => h.replacements entry hentry) h
    split
    next hsame =>
      -- The hash of the old content: the patch changes nothing.
      have hunchanged := hdigest entry hentry (Option.some.inj hsame)
      exact keeps_pure ⟨⟨hat, hrestorable⟩, hunchanged ▸ hnew, fun _ _ => id⟩
    next =>
      rw [if_neg fun hchanged => hchanged rfl]
      refine keeps_bind (keeps_exists (keeps_bind ?_)
        (fun h => by cases hbackup.symm.trans h) fun hf _ => .inl hf)
      refine keeps_readRegularNoFollow hbackup (fun _ _ => ?_)
        fun h _ _ => htrouble (fun h => h.originals entry hentry) h
      show Keeps _ _ (ite _ _ _) _ _ s
      rw [if_neg fun hchanged => hchanged rfl]
      -- The backup goes, but the target is old from now on.
      refine keeps_rename (fun moved t hmoved ht => ?_) fun h _ => ?_
      · obtain rfl := Option.some.inj (hbackup.symm.trans hmoved)
        have hrestored := restored hapart hentry hat hrestorable ht
        exact ⟨.committing hrestored.1.1 hrestored.1.2, hrestored⟩
      · exact h.imp id fun h => by cases hbackup.symm.trans h

/-- The rollback makes all targets old. -/
theorem keeps_rollbackCommitting (hapart : x.Apart) (hdigest : x.Distinguishes)
    (hat : x.At .committing s) (hrestorable : x.Restorable s) : Keeps faults x.CrashSafe
      (x.service.rollbackCommitting (x.journal state).entries x.journalPath)
      (fun _ => x.Clean (·.original)) (fun _ _ => x.Trouble faults) s := by
  rw [PatchSetService.rollbackCommitting]
  refine keeps_bind ?_
  rw [journal, toJournal, Program.forEach_map]
  refine keeps_forEach (fun t => x.At .committing t ∧ x.Restorable t)
    (fun entry t => t entry.target = some entry.original) ⟨hat, hrestorable⟩
    (fun entry hentry t ht => keeps_restore hapart hdigest hentry ht.1 ht.2) fun t ht hall => ?_
  exact keeps_cleanupJournal hapart hall (.inl ⟨.inr ht.1, rfl⟩) fun hf _ _ => .inl hf

theorem valid_journal (x : PatchTransaction) (state : JournalState) : (x.journal state).Valid := by
  refine ⟨?_, fun entry hentry => ?_⟩
  · rw [journal, toJournal, List.length_map]
    exact x.count
  · obtain ⟨patch, -, rfl⟩ := List.mem_map.mp hentry
    exact ⟨x.service.isSha256_sha256 _, x.service.isSha256_sha256 _⟩

theorem At.unique {later : JournalState} (h : x.At state s) (hlater : x.At later s) :
    state = later := by
  have hread := congrArg PatchJournal.read (Option.some.inj (h.symm.trans hlater))
  rw [PatchJournal.read_serialize (x.valid_journal state),
    PatchJournal.read_serialize (x.valid_journal later)] at hread
  exact congrArg PatchJournal.state (Option.some.inj hread)

theorem journalShape_journal (x : PatchTransaction) (state : JournalState) :
    (PatchJournal.journalShape (x.journal state).toJson).filter
      (·.scopeFingerprint = x.service.fingerprint) = some (x.journal state) := by
  rw [PatchJournal.journalShape_toJson (x.valid_journal state), Option.filter_some]
  exact if_pos (decide_eq_true rfl)

/-- The journal is read as it has been written. -/
theorem keeps_readJournal (hat : x.At state s) :
    Keeps faults x.CrashSafe (x.service.readJournal x.journalPath)
      (fun journal t => journal = x.journal state ∧ t = s ∧ ∀ entry ∈ x.entries, x.Inside entry)
      (fun _ _ => x.Trouble faults) s := by
  refine keeps_bind (keeps_tryCatch (keeps_bind (keeps_request fun r t hx hs => ?_)))
  cases r with
  | error e =>
    obtain ⟨⟨-, hmissing⟩ | ⟨hf, -⟩, rfl⟩ := hx
    · cases hat.symm.trans hmissing
    · exact ⟨hs, keeps_throw (keeps_throw (.inl hf))⟩
  | ok content =>
    obtain ⟨hread, rfl⟩ := hx
    obtain rfl := Option.some.inj (hat.symm.trans hread)
    refine ⟨hs, keeps_pure ?_⟩
    split
    next hlength =>
      exact keeps_throw (keeps_throw
        (.inr (.inl fun h => Nat.not_le_of_lt hlength (h.journals state))))
    rw [PatchJournal.parse_serialize]
    refine keeps_pure ?_
    rw [journalShape_journal]
    refine keeps_bind ?_
    rw [journal, toJournal, Program.forEach_map]
    refine keeps_forEach (· = t) (fun entry _ => x.Inside entry) rfl
      (fun entry hentry u hu => keeps_validate hentry fun h => ⟨hu, h, fun _ _ => id⟩) ?_
    rintro u rfl hinside
    exact keeps_pure ⟨rfl, rfl, hinside⟩

/-- A recovery whose targets should have one content, and have it. -/
theorem keeps_requireHashes {expected : JournalEntry → String} {message : String}
    {Q : Unit → Files → Prop} (hall : x.All content s)
    (hexpected : ∀ entry ∈ x.entries, expected (x.service.entryOf x.ident entry) =
      x.service.sha256 (content entry))
    (hshort : x.Readable → ∀ entry ∈ x.entries, (content entry).length ≤ x.service.maxReadBytes)
    (hQ : Q () s) : Keeps faults x.CrashSafe
      (x.service.requireHashes expected message (x.journal state).entries) Q
      (fun _ _ => x.Trouble faults) s := by
  rw [PatchSetService.requireHashes, journal, toJournal, Program.forEach_map]
  refine keeps_forEach (· = s) (fun _ _ => True) rfl ?_ fun t ht _ => ht ▸ hQ
  rintro entry hentry t rfl
  refine keeps_bind (keeps_targetHash (hall entry hentry) ?_ fun h _ => h.imp id fun hlong =>
    .inl fun hreadable => Nat.not_le_of_lt hlong (hshort hreadable entry hentry))
  rw [hexpected entry hentry, if_neg (not_not.mpr rfl)]
  exact keeps_pure ⟨rfl, trivial, fun _ _ => id⟩

/-- Whether a recovery makes the targets new or old. -/
structure Decided (x : PatchTransaction) (s t : Files) : Prop where
  finished : x.At .committed s → x.Clean (·.replacement) t
  undone : ¬ x.At .committed s → x.Clean (·.original) t

theorem decided_of_undone (h : x.At state s) (hstate : state ≠ .committed)
    (hclean : x.Clean (·.original) t) : x.Decided s t :=
  ⟨fun hcommitted => absurd (h.unique hcommitted) hstate, fun _ => hclean⟩

/-- A recovery keeps the disk safe, and gets through if nothing is in its way. -/
theorem keeps_recoverOne (hapart : x.Apart) (hdigest : x.Distinguishes) (hs : x.CrashSafe s)
    (hjournal : s x.journalPath ≠ none) : Keeps faults x.CrashSafe
      (x.service.recoverOne x.journalPath)
      (fun _ t => x.Decided s t ∧ ∀ entry ∈ x.entries, x.Inside entry)
      (fun _ _ => x.Trouble faults) s := by
  cases hs with
  | unwritten h => exact absurd h hjournal
  | prepared h hall =>
    refine keeps_then (keeps_readJournal h) ?_
    rintro _ t ⟨rfl, rfl, hinside⟩
    exact keeps_bind (keeps_requireHashes hall (fun _ _ => rfl) (·.originals)
      (keeps_mono (keeps_cleanupJournal hapart hall (.inl ⟨.inl h, rfl⟩) fun hf _ _ => .inl hf)
        (fun _ _ hclean => ⟨decided_of_undone h nofun hclean, hinside⟩) fun _ _ h => h))
  | committing h hrestorable =>
    refine keeps_then (keeps_readJournal h) ?_
    rintro _ t ⟨rfl, rfl, hinside⟩
    exact keeps_mono (keeps_rollbackCommitting hapart hdigest h hrestorable)
      (fun _ _ hclean => ⟨decided_of_undone h nofun hclean, hinside⟩) fun _ _ h => h
  | committed h hall =>
    refine keeps_then (keeps_readJournal h) ?_
    rintro _ t ⟨rfl, rfl, hinside⟩
    exact keeps_bind (keeps_requireHashes hall (fun _ _ => rfl) (·.replacements)
      (keeps_mono (keeps_cleanupJournal hapart hall (.inr ⟨h, rfl⟩) fun hf _ _ => .inl hf)
        (fun _ _ hclean => ⟨⟨fun _ => hclean, absurd h⟩, hinside⟩) fun _ _ h => h))

end Recovery

/-! ## The transaction -/

section Apply

variable {faults : Prop} {s₀ : Files} {E : AppError → Files → Prop} {created : List AbsPath}
  {bytes : Bytes}

theorem Made.write (h : x.Made entry s) (hbackup : entry.backup x.ident ≠ path)
    (htemp : entry.temp x.ident ≠ path) (value : Option Bytes) :
    x.Made entry (update s path value) :=
  ⟨(update_of_ne hbackup ..).trans h.1, (update_of_ne htemp ..).trans h.2⟩

theorem keeps_unlinkAll (hapart : x.Apart) (hsafe : x.Removable s₀)
    (hcreated : ∀ path ∈ created, x.Artifact path) (hs : x.Same s₀ s) :
    Keeps faults x.CrashSafe (unlinkAll created) (fun _ _ => True)
      (fun _ _ => True) s := by
  induction created generalizing s with
  | nil => exact keeps_pure trivial
  | cons path rest ih =>
    obtain ⟨hpath, hrest⟩ := List.forall_mem_cons.mp hcreated
    have hlater := hs.write hapart hpath none
    have houtcome : ∀ {outcome : Except AppError Unit} {t}, x.Same s₀ t → Keeps faults x.CrashSafe
        ((unlinkAll rest).bind fun _ => .ofExcept outcome) (fun _ _ => True)
        (fun _ _ => True) t := by
      refine fun {outcome} t ht => keeps_then (ih hrest ht) fun _ u _ => ?_
      cases outcome with
      | ok _ => exact keeps_pure trivial
      | error e => exact keeps_throw trivial
    exact keeps_bind fun hs' => Program.wp_attempt (keeps_safeUnlink (hsafe _ hlater)
      (houtcome hlater) (fun _ _ => houtcome hs) hs')

/-- A file is made, or the transaction ends before there is a journal. -/
theorem keeps_createFile (hapart : x.Apart) (hsafe : x.Removable s₀)
    (hcreated : ∀ path ∈ created, x.Artifact path) (hpath : x.Artifact path) {mode : ℕ}
    (hs : x.Same s₀ s) {Q : Unit → Files → Prop} (hQ : Q () (update s path (some bytes))) :
    Keeps faults x.CrashSafe (createFile path mode bytes created) Q
      (fun _ _ => True) s := by
  -- A file of which only a part has been written stays where it is.
  have hfails : ∀ {e t}, x.Same s₀ t → Keeps faults x.CrashSafe
      ((unlinkAll created).bind fun _ => .throw e) Q (fun _ _ => True) t :=
    fun ht => keeps_then (keeps_unlinkAll hapart hsafe hcreated ht) fun _ _ _ => keeps_throw trivial
  have hwritten := fun value => hs.write hapart hpath value
  refine keeps_tryCatch (keeps_bind (keeps_openWx (hsafe _ (hwritten _))
    (keeps_writeFile (fun written => ?_) ?_ fun _ written => ?_) fun _ => hfails hs))
  · rw [update_idem]
    exact hsafe _ (hwritten _)
  · rw [update_idem]
    exact hQ
  · rw [update_idem]
    exact hfails (hwritten _)

theorem keeps_materialize (hapart : x.Apart) (hsafe : x.Removable s₀) {rest : List PreparedPatch}
    (hcreated : ∀ path ∈ created, x.Artifact path) (hrest : rest ⊆ x.entries) (hs : x.Same s₀ s)
    (hmade : ∀ entry ∈ x.entries, entry ∈ rest ∨ x.Made entry s) :
    Keeps faults x.CrashSafe (materialize x.ident created rest)
      (fun _ t => x.Same s₀ t ∧ ∀ entry ∈ x.entries, x.Made entry t) (fun _ _ => True) s := by
  induction rest generalizing created s with
  | nil => exact keeps_pure ⟨hs, fun entry h => (hmade entry h).resolve_left List.not_mem_nil⟩
  | cons entry rest ih =>
    obtain ⟨hentry, hrest⟩ := List.cons_subset.mp hrest
    have hbackup := artifact_backup hentry
    have htemp := artifact_temp hentry
    have hmid := hs.write hapart hbackup (some entry.original)
    have hlater := hmid.write hapart htemp (some entry.replacement)
    have hcreated' : ∀ path ∈ created ++ [entry.backup x.ident], x.Artifact path :=
      List.forall_mem_append.mpr ⟨hcreated, List.forall_mem_singleton.mpr hbackup⟩
    have hseparate : ∀ a b : PreparedPatch, a.backup x.ident ≠ b.temp x.ident :=
      fun _ _ => ne_of_ending ending_backup ending_temp (by decide)
    refine keeps_bind (keeps_createFile hapart hsafe hcreated hbackup hs (keeps_bind
      (keeps_createFile hapart hsafe hcreated' htemp hmid
        (ih ?_ hrest hlater fun other hother => ?_))))
    · rw [List.append_cons]
      exact List.forall_mem_append.mpr ⟨hcreated', List.forall_mem_singleton.mpr htemp⟩
    · by_cases heq : other = entry
      · subst heq
        exact .inr ⟨by rw [update_of_ne (hseparate _ _), update_self],
          update_self ..⟩
      · have hne : ∀ {p q : AbsPath}, (p = q → other.target = entry.target) → p ≠ q :=
          fun h hpq => heq (eq_of_target hentry hother (h hpq))
        refine (hmade other hother).imp (fun h => (List.mem_cons.mp h).resolve_left heq) fun h => ?_
        exact (h.write (hne target_eq_of_sibling) (hseparate _ _).symm _).write (hseparate _ _)
          (hne target_eq_of_sibling) _

/-- Every target is old and its files are there, or it is new and its backup is. -/
def Moving (x : PatchTransaction) (s : Files) : Prop :=
  ∀ entry ∈ x.entries, s entry.target = some entry.original ∧ x.Made entry s ∨
    s entry.target = some entry.replacement ∧
      s (entry.backup x.ident) = some entry.original ∧ s (entry.temp x.ident) = none

theorem Moving.restorable (h : x.Moving s) : x.Restorable s := fun entry hentry =>
  (h entry hentry).imp (·.1) fun h => ⟨h.1, h.2.1⟩

/-- A phase of the transaction: the text of the journal, if there is one, and the content of all
targets. -/
structure Stage (x : PatchTransaction) (text : Option Bytes) (content : PreparedPatch → Bytes)
    (s : Files) : Prop where
  journal : s x.journalPath = text
  targets : x.All content s
  moving : x.Moving s

/-- A journal is written under a temporary name and put in its place. -/
theorem keeps_writeJournal {text : Option Bytes} (hapart : x.Apart)
    (hsafe : ∀ t, x.Stage text content t → x.CrashSafe t)
    (hnext : ∀ t, x.Stage (some (x.journal state).serialize) content t → x.CrashSafe t)
    (hs : x.Stage text content s) : Keeps faults x.CrashSafe
      (x.service.writeJournal x.ident (x.uuid state) (x.journal state))
      (fun _ => x.Stage (some (x.journal state).serialize) content) (fun _ _ => True) s := by
  have hmoving : ∀ {t path value}, x.Moving t → (∀ entry ∈ x.entries, entry.target ≠ path ∧
      entry.backup x.ident ≠ path ∧ entry.temp x.ident ≠ path) →
      x.Moving (update t path value) := by
    intro t path value ht hpath entry hentry
    obtain ⟨htarget, hbackup, htemp⟩ := hpath entry hentry
    rw [Made, update_of_ne htarget, update_of_ne hbackup,
      update_of_ne htemp]
    exact ht entry hentry
  have hkept : ∀ t value, x.Stage text content t → x.Stage text content (update t
      (x.service.journalTemp x.ident (x.uuid state)) value) := by
    intro t value ht
    have hpath : x.Artifact (x.service.journalTemp x.ident (x.uuid state)) :=
      .inl ⟨state, rfl⟩
    have htarget : ∀ entry ∈ x.entries, entry.target ≠ _ := fun entry hentry =>
      (hapart entry hentry _ (.inr hpath)).symm
    exact ⟨(update_of_ne hpath.ne_journalPath ..).trans ht.journal, fun entry hentry =>
      (update_of_ne (htarget entry hentry) ..).trans (ht.targets entry hentry),
      hmoving ht.moving fun entry hentry => ⟨htarget entry hentry,
        ne_of_ending ending_backup ending_journalTemp (by decide),
        ne_of_ending ending_temp ending_journalTemp (by decide)⟩⟩
  have hwritten : ∀ t, x.Stage text content t → x.Stage (some (x.journal state).serialize) content
      (update t x.journalPath (some (x.journal state).serialize)) := fun t ht =>
    ⟨update_self .., ht.targets.journal hapart _, hmoving ht.moving fun entry hentry =>
      ⟨(hapart entry hentry _ (.inl rfl)).symm,
        ne_of_ending ending_backup ending_journalPath (by decide),
        ne_of_ending ending_temp ending_journalPath (by decide)⟩⟩
  have hwrite := fun value => hkept s value hs
  refine keeps_bind (keeps_request fun r t hx hs' => ?_)
  cases r with
  | error e =>
    obtain ⟨-, rfl⟩ := hx
    exact ⟨hs', keeps_throw trivial⟩
  | ok _ =>
    obtain rfl := hx
    -- Up to the rename the journal says what it has said before.
    have hstage := hkept _ (some (x.journal state).serialize) (hwrite (some []))
    refine ⟨hs', keeps_pure (keeps_bind (keeps_openWx (hsafe _ (hwrite _))
      (keeps_bind (keeps_writeFile (fun written => hsafe _ (hkept _ _ (hwrite _))) ?_
        fun _ _ => trivial)) fun _ => trivial))⟩
    refine keeps_tryCatch (keeps_rename (fun bytes t hbytes ht => ?_) fun _ e => ?_)
    · rw [update_self] at hbytes
      obtain rfl := Option.some.inj hbytes
      have hlater := hwritten _ (hkept _ none hstage)
      subst ht
      exact ⟨hnext _ hlater, hlater⟩
    · exact keeps_bind (keeps_safeUnlink (hsafe _ (hkept _ none hstage)) (keeps_throw trivial)
        fun _ _ => trivial)

/-- A new content that is put in its place. -/
theorem moved (hapart : x.Apart) (hentry : entry ∈ x.entries) (hat : x.At .committing s)
    (hmoving : x.Moving s) (hbytes : s (entry.temp x.ident) = some bytes)
    (ht : t = update (update s (entry.temp x.ident) none) entry.target
      (some bytes)) :
    (x.At .committing t ∧ x.Moving t) ∧ t entry.target = some entry.replacement ∧
      ∀ other ∈ x.entries, s other.target = some other.replacement →
        t other.target = some other.replacement := by
  obtain ⟨-, hbackup, htemp⟩ := (hmoving entry hentry).resolve_right fun h => by
    cases hbytes.symm.trans h.2.2
  obtain rfl := Option.some.inj (hbytes.symm.trans htemp)
  obtain ⟨hjournal, hself, hfile, hothers⟩ := renamed hapart hentry (.inl rfl) ht
  refine ⟨⟨hjournal.trans hat, fun other hother => ?_⟩, hself, fun other hother hnew => ?_⟩ <;>
    by_cases heq : other = entry
  · subst heq
    refine .inr ⟨hself, (hfile _ (artifact_backup hother)
      (ne_of_ending ending_backup ending_temp (by decide))).trans hbackup, ?_⟩
    rw [ht, update_of_ne (hapart other hother _ (.inr (artifact_temp hentry))),
      update_self]
  · obtain ⟨htarget, hbackup, htemp⟩ := hothers other hother heq
    rw [Made, htarget, htemp, hbackup]
    exact hmoving other hother
  · exact heq ▸ hself
  · rw [(hothers other hother heq).1, hnew]

theorem keeps_commitPrepared (hapart : x.Apart) (hdigest : x.Distinguishes)
    (hs : x.Stage none (·.original) s) : Keeps faults x.CrashSafe
      (x.service.commitPrepared x.ident x.createdAt x.entries x.uuid)
      (fun _ => x.Clean (·.replacement)) (fun _ _ => True) s := by
  have hunwritten : ∀ t, x.Stage none (·.original) t → x.CrashSafe t := fun t ht =>
    .unwritten ht.journal (.inl ht.targets)
  have hprepared : ∀ t, x.Stage (some (x.journal .prepared).serialize) (·.original) t →
      x.CrashSafe t := fun t ht => .prepared ht.journal ht.targets
  have hcommitting : ∀ {content t}, x.Stage (some (x.journal .committing).serialize) content t →
      x.CrashSafe t := fun ht => .committing ht.journal ht.moving.restorable
  refine keeps_then (keeps_writeJournal hapart hunwritten hprepared hs) fun _ t hstage => ?_
  -- The targets are read once more: they are still old, since nothing else writes to them.
  refine keeps_then (R := fun _ u => u = t)
    (keeps_forEach (· = t) (fun _ _ => True) rfl ?_ fun u hu _ => hu) ?_
  · rintro entry hentry u rfl
    refine keeps_bind (keeps_readRegularNoFollow (hstage.targets entry hentry) (fun _ _ => ?_)
      fun _ _ _ => trivial)
    show Keeps _ _ (ite _ _ _) _ _ u
    rw [if_neg fun hchanged => hchanged rfl]
    exact keeps_pure ⟨rfl, trivial, fun _ _ => id⟩
  rintro _ u rfl
  refine keeps_then (keeps_writeJournal hapart hprepared (fun _ => hcommitting) hstage)
    fun _ t hstage => ?_
  -- From here on a failure is rolled back.
  refine keeps_then (R := fun _ t => (x.At .committing t ∧ x.Moving t) ∧ x.All (·.replacement) t)
    (keeps_tryCatch (keeps_forEach (fun t => x.At .committing t ∧ x.Moving t)
      (fun entry t => t entry.target = some entry.replacement) ⟨hstage.journal, hstage.moving⟩ ?_
      fun u hu hall => ⟨hu, hall⟩)) ?_
  · rintro entry hentry u ⟨hat, hmoving⟩
    refine keeps_rename (fun bytes v hbytes hv => ?_) fun _ e => keeps_bind (keeps_tryCatch
      (keeps_mono (keeps_rollbackCommitting hapart hdigest hat hmoving.restorable)
        (fun _ _ _ => keeps_throw trivial) fun e v _ => ?_))
    · have hmoved := moved hapart hentry hat hmoving hbytes hv
      exact ⟨.committing hmoved.1.1 hmoved.1.2.restorable, hmoved⟩
    · split <;> exact keeps_throw trivial
  rintro _ u ⟨⟨hat, hmoving⟩, hall⟩
  refine keeps_then (keeps_writeJournal hapart (fun _ => hcommitting)
    (fun t ht => .committed ht.journal ht.targets) ⟨hat, hall, hmoving⟩) fun _ t hstage => ?_
  exact keeps_cleanupJournal hapart hstage.targets (.inr ⟨hstage.journal, rfl⟩) fun _ _ _ => trivial

theorem keeps_applyPrepared (hs : x.Begins s) (hdigest : x.Distinguishes) : Keeps faults x.CrashSafe
    (x.service.applyPrepared x.ident x.createdAt x.entries x.uuid) (fun _ => x.Clean (·.replacement))
    (fun _ _ => True) s := by
  have hnone := hs.fresh x.journalPath (.inl rfl)
  have hremovable : x.Removable s := removable_of_all hs.targets (.inl ⟨.inl hnone, rfl⟩)
  refine keeps_then (keeps_materialize hs.apart hremovable nofun (fun _ => id) (.refl s)
    fun _ => .inl) ?_
  rintro _ t ⟨hsame, hmade⟩
  have htargets : x.All (·.original) t := fun entry hentry =>
    (hsame.2 entry hentry).trans (hs.targets entry hentry)
  refine keeps_tryCatch (keeps_mono (keeps_commitPrepared hs.apart hdigest
    ⟨hsame.1.trans hnone, htargets, fun entry hentry =>
      .inl ⟨htargets entry hentry, hmade entry hentry⟩⟩) (fun _ _ h => h) fun e u _ => ?_)
  split
  · exact keeps_throw trivial
  refine keeps_bind (keeps_exists (keeps_throw trivial) (fun hmissing hu => ?_)
    fun _ _ => trivial)
  -- Without a journal the files may go: all targets are old, or all are new.
  have hremovable : x.Removable u := by
    cases hu with
    | unwritten h hall =>
      rcases hall with hall | hall
      · exact removable_of_all hall (.inl ⟨.inl h, rfl⟩)
      · exact removable_of_all hall (.inr ⟨.inl h, rfl⟩)
    | prepared h | committing h | committed h => cases h.symm.trans hmissing
  exact keeps_bind (keeps_bind (keeps_removeArtifacts hs.apart hremovable (fun _ _ _ => trivial)
    fun _ _ _ => keeps_pure (keeps_throw trivial))) hu

end Apply

/-! ## Whole runs -/

section Runs

variable (x)

/-- The program of the transaction. -/
def apply : FsM Unit := x.service.applyPrepared x.ident x.createdAt x.entries x.uuid

/-- The program of a recovery. -/
def recover : FsM Unit := x.service.recoverOne x.journalPath

/-- The disks to which the transaction and recoveries of its journal lead, stopped anywhere. -/
inductive Reached : Files → Prop where
  | applied {s t : Files} {p : FsM Unit} (h : x.Begins s)
      (hsteps : Program.Steps (Files.Does True) (x.apply, s) (p, t)) : Reached t
  | recovered {s t : Files} {p : FsM Unit} (h : Reached s) (hjournal : s x.journalPath ≠ none)
      (hsteps : Program.Steps (Files.Does True) (x.recover, s) (p, t)) : Reached t

variable {x}

theorem Reached.safe (h : x.Reached s) (hdigest : x.Distinguishes) : x.Apart ∧ x.CrashSafe s := by
  induction h with
  | applied h hsteps =>
    exact ⟨h.apart, (Program.wp_steps hsteps h.safe (keeps_applyPrepared h hdigest h.safe)).1⟩
  | recovered _ hjournal hsteps ih =>
    exact ⟨ih.1, (Program.wp_steps hsteps ih.2
      (keeps_recoverOne ih.1 hdigest ih.2 hjournal ih.2)).1⟩

/-- The digests of the contents `a` and `b`; the third one stands for all other contents. -/
def exampleSha256 (buffer : Bytes) : String :=
  if buffer = [97] then "ca978112ca1bbdcafac231b39a23dc4da786eff8147c4e72b9807785afee48bb"
  else if buffer = [98] then "3e23e8160039594a33894f6564e1b1348bbd7a0088d42c4acb73eeaed59c009d"
  else "1dbce14a010cf1b17aa5d8bb91297c3ceda11409a80ba85f4b64f4513db6b1df"

def exampleService : PatchSetService where
  policy := ⟨[[⟨"w", by decide⟩]], by simp⟩
  maxReadBytes := 1048576
  maxWriteBytes := 2097152
  sha256 := exampleSha256
  isSha256_sha256 buffer := by
    unfold exampleSha256
    split
    · decide
    · split <;> decide
  patchTools := ⟨fun patch => (patch, 0), fun _ => .ok (), fun source _ =>
    .ok (if source = ['a'] then some ['b'] else none)⟩
  journalDirectory := [⟨"s", by decide⟩]

/-- The file `/w/f` is patched from `a` to `b`. -/
def exampleTransaction : PatchTransaction where
  service := exampleService
  ident := ⟨"t", by decide, by decide⟩
  createdAt := "2026-01-01T00:00:00.000Z"
  entries := [⟨[⟨"w", by decide⟩, ⟨"f", by decide⟩], "f", [97], [98], 0o644⟩]
  uuid state := ⟨state.toText, by cases state <;> decide, by cases state <;> decide⟩
  count := by decide
  distinct := by decide

def exampleFiles : Files := fun path =>
  if path = [⟨"w", by decide⟩, ⟨"f", by decide⟩] then some [97] else none

theorem begins_example : exampleTransaction.Begins exampleFiles := by
  refine ⟨?_, ?_⟩
  · intro entry hentry
    obtain rfl := List.mem_singleton.mp hentry
    rfl
  · intro path hpath
    refine if_neg ?_
    rintro rfl
    rcases hpath with h | ⟨state, h⟩ | ⟨entry, hentry, h⟩
    · revert h; decide
    · revert h; cases state <;> decide
    · obtain rfl := List.mem_singleton.mp hentry
      revert h; decide

theorem distinguishes_example : exampleTransaction.Distinguishes := by
  intro entry hentry
  obtain rfl := List.mem_singleton.mp hentry
  decide

/-- The transaction is stopped when its journal has been written. -/
theorem reached_example : ∃ s, exampleTransaction.Reached s ∧
    s exampleTransaction.journalPath ≠ none := by
  obtain ⟨c, hc, hjournal⟩ : ∃ c, Program.follow (fun (_ : Unit) o s => some (Files.act o s))
      (List.replicate 8 ()) (exampleTransaction.apply, exampleFiles) = some c ∧
      c.2 exampleTransaction.journalPath ≠ none := ⟨_, rfl, by decide +kernel⟩
  have hsteps : Program.Steps (Files.Does True) (exampleTransaction.apply, exampleFiles) c := by
    refine Program.steps_of_follow (fun _ o s r s' h => ?_) _ (.refl _) hc
    obtain ⟨rfl, rfl⟩ := Prod.mk.inj (Option.some.inj h)
    exact Files.does_act o s
  exact ⟨c.2, .applied begins_example hsteps, hjournal⟩

theorem readable_example : exampleTransaction.Readable := by
  refine ⟨fun state => ?_, fun entry hentry => ?_, fun entry hentry => ?_⟩
  · cases state <;> decide +kernel
  all_goals
    obtain rfl := List.mem_singleton.mp hentry
    decide

theorem inside_example : ∀ entry ∈ exampleTransaction.entries,
    exampleTransaction.Inside entry := by
  intro entry hentry
  obtain rfl := List.mem_singleton.mp hentry
  exact ⟨_, List.mem_singleton.mpr rfl, by decide⟩

/-- However often the transaction and its recoveries are stopped: every target is old or new, and
all are old or all are new when there is no journal. A transaction that returns has made all of
them new, and a recovery that returns has made them all new if the journal said that they were
committed, and all old otherwise; both leave nothing else behind. -/
theorem crash_atomic (hdigest : x.Distinguishes) :
    (∀ s, x.Reached s → (∀ entry ∈ x.entries, s entry.target = some entry.original ∨
        s entry.target = some entry.replacement) ∧
      (s x.journalPath = none → x.All (·.original) s ∨ x.All (·.replacement) s)) ∧
    (∀ s t, x.Begins s → Program.Steps (Files.Does True) (x.apply, s) (.pure (), t) →
      x.Clean (·.replacement) t) ∧
    ∀ s t, x.Reached s → s x.journalPath ≠ none →
      Program.Steps (Files.Does True) (x.recover, s) (.pure (), t) → x.Decided s t := by
  refine ⟨fun s h => ?_, fun s t h hsteps => ?_, fun s t h hjournal hsteps => ?_⟩
  · cases (h.safe hdigest).2 with
    | unwritten _ hall =>
      refine ⟨fun entry hentry => ?_, fun _ => hall⟩
      exact hall.imp (fun h => h entry hentry) fun h => h entry hentry
    | prepared h hall => exact ⟨fun entry hentry => .inl (hall entry hentry), fun _ => .inl hall⟩
    | committing h hrestorable =>
      refine ⟨fun entry hentry => (hrestorable entry hentry).imp id (·.1), fun hnone => ?_⟩
      cases h.symm.trans hnone
    | committed h hall => exact ⟨fun entry hentry => .inr (hall entry hentry), fun _ => .inr hall⟩
  · obtain ⟨hsafe, hwp⟩ := Program.wp_steps hsteps h.safe (keeps_applyPrepared h hdigest h.safe)
    exact hwp t rfl hsafe
  · obtain ⟨hapart, hs⟩ := h.safe hdigest
    obtain ⟨hsafe, hwp⟩ := Program.wp_steps hsteps hs (keeps_recoverOne hapart hdigest hs hjournal hs)
    exact (hwp t rfl hsafe).1

theorem crash_atomic_example : ∃ s, exampleTransaction.Reached s ∧
    s exampleTransaction.journalPath ≠ none ∧ ∀ entry ∈ exampleTransaction.entries,
      s entry.target = some entry.original ∨ s entry.target = some entry.replacement := by
  obtain ⟨s, h, hjournal⟩ := reached_example
  exact ⟨s, h, hjournal, ((crash_atomic distinguishes_example).1 s h).1⟩

/-- A recovery that nothing disturbs, of files that can be read, gets through exactly if all
targets are inside the roots; then it cannot fail. -/
theorem recovery_ends (hdigest : x.Distinguishes) (hreadable : x.Readable) (h : x.Reached s)
    (hjournal : s x.journalPath ≠ none) :
    ((∃ t, Program.Steps (Files.Does False) (x.recover, s) (.pure (), t)) ↔
      ∀ entry ∈ x.entries, x.Inside entry) ∧
    ((∀ entry ∈ x.entries, x.Inside entry) →
      ∀ e t, ¬ Program.Steps (Files.Does False) (x.recover, s) (.throw e, t)) := by
  obtain ⟨hapart, hs⟩ := h.safe hdigest
  have hkeeps : Keeps False x.CrashSafe x.recover _ _ s :=
    keeps_recoverOne hapart hdigest hs hjournal
  have hnever : (∀ entry ∈ x.entries, x.Inside entry) →
      ∀ e t, ¬ Program.Steps (Files.Does False) (x.recover, s) (.throw e, t) := by
    intro hinside e t hsteps
    obtain ⟨hsafe, hwp⟩ := Program.wp_steps hsteps hs (hkeeps hs)
    rcases hwp t rfl hsafe with hfalse | hunread | houtside
    · exact hfalse
    · exact hunread hreadable
    · exact houtside hinside
  -- What is never blocked and cannot fail returns.
  refine ⟨⟨fun ⟨t, hsteps⟩ => ?_, fun hinside => ?_⟩, hnever⟩
  · obtain ⟨hsafe, hwp⟩ := Program.wp_steps hsteps hs (hkeeps hs)
    exact (hwp t rfl hsafe).2
  · obtain ⟨c, t, hsteps, hc⟩ : ∃ c t, Program.Steps (Files.Does False) (x.recover, s) (c, t) ∧
        c.outcome?.isSome = true := Files.exists_steps x.recover s
    cases c with
    | pure _ => exact ⟨t, hsteps⟩
    | throw e => exact absurd hsteps (hnever hinside e t)
    | request => cases hc

theorem recovery_ends_example : ∃ s t, exampleTransaction.Reached s ∧
    s exampleTransaction.journalPath ≠ none ∧
    Program.Steps (Files.Does False) (exampleTransaction.recover, s) (.pure (), t) := by
  obtain ⟨s, h, hjournal⟩ := reached_example
  obtain ⟨hiff, -⟩ := recovery_ends distinguishes_example readable_example h hjournal
  obtain ⟨t, hsteps⟩ := hiff.mpr inside_example
  exact ⟨s, t, h, hjournal, hsteps⟩

end Runs

end PatchTransaction
