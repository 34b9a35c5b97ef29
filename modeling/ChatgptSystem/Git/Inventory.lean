import ChatgptSystem.Git.GitService
import ChatgptSystem.Git.PorcelainStatus

/-!
# The inventory of a worktree

`GitService.inventory`: the changed and the ignored paths of a worktree, a page at a time. Each
call lists the worktree anew; a digest of the listing is handed from page to page.

* `GitService.inventory` — one page;
* `readPages` — a reader that follows the cursors, while the worktree may change;
* `inventory_agrees` — the inspector and the inventory read a status alike, and the pages hold
  every path once.
-/

open Text (nul)

namespace GitService

inductive GitInventoryCategory where
  | modified
  | untracked
  | deleted
  | ignored
  deriving DecidableEq

def GitInventoryCategory.name : GitInventoryCategory → String
  | .modified => "modified"
  | .untracked => "untracked"
  | .deleted => "deleted"
  | .ignored => "ignored"

inductive GitRiskClass where
  | none
  | secret
  | binary
  | artifact
  deriving DecidableEq

/-- An entry. The two status letters are code units. -/
structure GitInventoryEntry where
  path : List Char
  category : GitInventoryCategory
  risk : GitRiskClass
  indexStatus : Option ℕ
  worktreeStatus : Option ℕ
  deriving DecidableEq

structure GitInventoryPage where
  entries : List GitInventoryEntry
  cursor : ℤ
  snapshot : List Char
  nextCursor : Option ℤ
  complete : Bool

/-! ## Risk classes -/

def basename (relative : List Char) : List Char :=
  let trimmed := (relative.reverse.dropWhile (· = '/')).reverse
  ((Text.split trimmed ['/']).getLast?).getD []

def isLine (text : List Char) : Bool :=
  text.all fun c => c ≠ '\n' && c ≠ '\r' && c ≠ '\u2028' && c ≠ '\u2029'

/-- `/\.(?:extensions)$/i` -/
def hasExtension (extensions : List String) (text : List Char) : Bool :=
  extensions.any fun extension => ('.' :: extension.toList).isSuffixOf (text.map Char.toLower)

/-- `SECRET_BASENAMES` -/
def isSecretBasename (name : List Char) : Bool :=
  let lower := name.map Char.toLower
  [".env", "secret", "secrets", "credential", "credentials", "id_rsa", "id_ed25519"].contains
      (String.ofList lower) ||
    (".env.".toList.isPrefixOf lower && isLine (name.drop 5)) ||
    (hasExtension ["pem", "key"] name && isLine name)

/-- `ARTIFACT_PATH` -/
def isArtifactPath (relative : List Char) : Bool :=
  (Text.split (relative.map Char.toLower) ['/']).any (fun component =>
      ["node_modules", "dist", "build", "coverage", ".next", "target"].contains
        (String.ofList component)) ||
    hasExtension ["o", "a", "so", "dylib", "dll", "exe", "bin", "zip", "tar", "gz", "tgz", "wasm",
      "pyc"] relative

def riskForPath (relative : List Char) : GitRiskClass :=
  if isSecretBasename (basename relative) then .secret
  else if isArtifactPath relative then .artifact
  else if hasExtension ["png", "jpg", "jpeg", "gif", "pdf", "woff", "woff2", "ttf", "mp3", "mp4",
      "mov"] relative then .binary
  else .none

/-! ## The listing -/

/-- `entries.set(entry.path, entry)` -/
def setEntry (entries : List GitInventoryEntry) (entry : GitInventoryEntry) :
    List GitInventoryEntry :=
  if entries.any fun old => old.path = entry.path then
    entries.map fun old => if old.path = entry.path then entry else old
  else entries ++ [entry]

def categoryOf (indexStatus worktreeStatus : ℕ) : GitInventoryCategory :=
  if GitStatus.isUnit indexStatus '?' && GitStatus.isUnit worktreeStatus '?' then .untracked
  else if GitStatus.isUnit indexStatus 'D' || GitStatus.isUnit worktreeStatus 'D' then .deleted
  else .modified

def readRecords : List (List Char) → List GitInventoryEntry →
    Except AppError (List GitInventoryEntry)
  | [], entries => .ok entries
  | record :: records, entries =>
    if record.isEmpty then readRecords records entries
    else
      let units := record.flatMap Text.codeUnits
      if units.length < 4 ∨ units[2]? ≠ some ' '.toNat then
        .error (.policy "Git returned invalid inventory status data.")
      else
        let indexStatus := units[0]?.getD 0
        let worktreeStatus := units[1]?.getD 0
        let pathname := Text.dropUnits 3 record
        let entries := setEntry entries
          ⟨pathname, categoryOf indexStatus worktreeStatus, riskForPath pathname,
            some indexStatus, some worktreeStatus⟩
        if GitStatus.isRename indexStatus || GitStatus.isRename worktreeStatus then
          match records with
          | [] => .ok entries
          | _ :: records => readRecords records entries
        else readRecords records entries

def addIgnored (entries : List GitInventoryEntry) (pathname : List Char) :
    List GitInventoryEntry :=
  if entries.any fun entry => entry.path = pathname then entries
  else entries ++ [⟨pathname, .ignored, riskForPath pathname, none, none⟩]

section Inventory

-- `createHash("sha256").update(text).digest("hex")` and `left.localeCompare(right)`
variable (digest : List Char → List Char) (localeCompare : List Char → List Char → ℤ)

def isOrdered (left right : GitInventoryEntry) : Bool :=
  let byPath := localeCompare left.path right.path
  (if byPath ≠ 0 then byPath
    else localeCompare left.category.name.toList right.category.name.toList) ≤ 0

def inventoryEntries (status ignored : List Char) : Except AppError (List GitInventoryEntry) :=
  (readRecords (Text.split status [nul]) []).map fun entries =>
    (((Text.split ignored [nul]).filter fun pathname => !pathname.isEmpty).foldl addIgnored
      entries).mergeSort (isOrdered localeCompare)

def snapshotText (status ignored : List Char) : List Char := status ++ nul :: ignored

/-- The entries from the cursor on, and where the next page starts. -/
def pageAt (ordered : List GitInventoryEntry) (cursor pageSize : ℤ) (snapshot : List Char) :
    GitInventoryPage :=
  let page := (ordered.drop cursor.toNat).take pageSize.toNat
  let nextCursor :=
    if cursor + page.length < ordered.length then some (cursor + page.length) else none
  ⟨page, cursor, snapshot, nextCursor, nextCursor.isNone⟩

/-- A page, given what the two commands answer. The cursor and the page size are integers. -/
def inventory (status ignored : GitResult) (cursor pageSize : ℤ) (snapshot : Option (List Char)) :
    Except AppError GitInventoryPage := do
  if cursor < 0 then
    throw (.policy "Git inventory cursor must be a non-negative integer.")
  else if pageSize < 1 ∨ 200 < pageSize then
    throw (.policy "Git inventory page size must be between 1 and 200.")
  else if status.exitCode ≠ 0 ∨ ignored.exitCode ≠ 0 then
    throw (.policy "Git inventory could not be collected.")
  else if 0 < cursor ∧ ¬ Text.matchesHex 64 64 false (snapshot.getD []) then
    throw (.conflict "A Git inventory snapshot is required to continue pagination.")
  else
    let snapshotDigest := digest (snapshotText status.stdout ignored.stdout)
    if snapshot.isSome ∧ snapshot ≠ some snapshotDigest then
      throw (.conflict "The Git worktree changed while inventory pages were being read.")
    else
      let ordered ← inventoryEntries localeCompare status.stdout ignored.stdout
      pure (pageAt ordered cursor pageSize snapshotDigest)

end Inventory

/-! ## The entries of a listing -/

section Listing

def Distinct (entries : List GitInventoryEntry) : Prop :=
  (entries.map GitInventoryEntry.path).Nodup

variable {entries : List GitInventoryEntry}

theorem any_path_iff (path : List Char) :
    (entries.any fun entry => entry.path = path) = true ↔
      path ∈ entries.map GitInventoryEntry.path := by
  simp [List.any_eq_true, List.mem_map]

theorem map_path_setEntry (entry : GitInventoryEntry) :
    (setEntry entries entry).map GitInventoryEntry.path =
      if entry.path ∈ entries.map GitInventoryEntry.path then
        entries.map GitInventoryEntry.path
      else entries.map GitInventoryEntry.path ++ [entry.path] := by
  unfold setEntry
  by_cases h : entry.path ∈ entries.map GitInventoryEntry.path
  · rw [if_pos ((any_path_iff _).mpr h), if_pos h, List.map_map]
    refine List.map_congr_left fun old _ => ?_
    by_cases hpath : old.path = entry.path
    · simp [hpath]
    · simp [hpath]
  · rw [if_neg (mt (any_path_iff _).mp h), if_neg h, List.map_append]
    rfl

theorem map_path_addIgnored (path : List Char) :
    (addIgnored entries path).map GitInventoryEntry.path =
      if path ∈ entries.map GitInventoryEntry.path then entries.map GitInventoryEntry.path
      else entries.map GitInventoryEntry.path ++ [path] := by
  unfold addIgnored
  by_cases h : path ∈ entries.map GitInventoryEntry.path
  · rw [if_pos ((any_path_iff _).mpr h), if_pos h]
  · rw [if_neg (mt (any_path_iff _).mp h), if_neg h, List.map_append]
    rfl

theorem mem_setEntry {old entry : GitInventoryEntry} (h : old ∈ setEntry entries entry) :
    old = entry ∨ old ∈ entries := by
  unfold setEntry at h
  split at h
  · obtain ⟨old', hold, heq⟩ := List.mem_map.mp h
    split at heq
    · exact .inl heq.symm
    · exact .inr (heq ▸ hold)
  · rcases List.mem_append.mp h with hold | hnew
    · exact .inr hold
    · exact .inl (List.mem_singleton.mp hnew)

theorem categoryOf_ne_ignored (indexStatus worktreeStatus : ℕ) :
    categoryOf indexStatus worktreeStatus ≠ .ignored := by
  unfold categoryOf
  split_ifs <;> decide

theorem readRecords_entry (entry : GitStatus.StatusEntry) (records : List (List Char))
    (entries : List GitInventoryEntry) :
    ∃ read : GitInventoryEntry, read.path = entry.path ∧ read.category ≠ .ignored ∧
      readRecords (entry.fields ++ records) entries =
        readRecords records (setEntry entries read) := by
  obtain ⟨hlong, hspace⟩ := entry.units_legal
  have hfirst : ¬ (((entry.x :: entry.y :: ' ' :: entry.path).flatMap Text.codeUnits).length < 4 ∨
      ((entry.x :: entry.y :: ' ' :: entry.path).flatMap Text.codeUnits)[2]? ≠
        some ' '.toNat) := not_or.mpr ⟨hlong, not_not.mpr hspace⟩
  have hx : ((entry.x :: entry.y :: ' ' :: entry.path).flatMap Text.codeUnits)[0]?.getD 0 =
      entry.x.toNat := by rw [entry.units_eq]; rfl
  have hy : ((entry.x :: entry.y :: ' ' :: entry.path).flatMap Text.codeUnits)[1]?.getD 0 =
      entry.y.toNat := by rw [entry.units_eq]; rfl
  refine ⟨⟨entry.path, categoryOf entry.x.toNat entry.y.toNat, riskForPath entry.path,
    some entry.x.toNat, some entry.y.toNat⟩, rfl, categoryOf_ne_ignored _ _, ?_⟩
  · rw [GitStatus.StatusEntry.fields, List.cons_append]
    conv_lhs => unfold readRecords
    rw [if_neg (by simp), if_neg hfirst]
    simp only [hx, hy, entry.dropUnits_eq]
    cases hsource : entry.source with
    | none =>
      have hrename : ¬ (GitStatus.isRename entry.x.toNat || GitStatus.isRename entry.y.toNat) =
          true := by
        rw [entry.isRename_iff, hsource]
        exact Bool.false_ne_true
      rw [if_neg hrename]
      rfl
    | some source =>
      have hrename : (GitStatus.isRename entry.x.toNat || GitStatus.isRename entry.y.toNat) =
          true := by
        rw [entry.isRename_iff, hsource]
        rfl
      rw [if_pos hrename]
      rfl

theorem readRecords_statusFields (status : List GitStatus.StatusEntry)
    (entries : List GitInventoryEntry) (hdistinct : Distinct entries)
    (hchanged : ∀ entry ∈ entries, entry.category ≠ .ignored) :
    ∃ read, readRecords (GitStatus.statusFields status ++ [[]]) entries = .ok read ∧
      Distinct read ∧ (∀ entry ∈ read, entry.category ≠ .ignored) ∧
      ∀ path, path ∈ read.map GitInventoryEntry.path ↔
        path ∈ entries.map GitInventoryEntry.path ∨
          path ∈ status.map GitStatus.StatusEntry.path := by
  induction status generalizing entries with
  | nil => exact ⟨entries, rfl, hdistinct, hchanged, by simp⟩
  | cons entry status ih =>
    obtain ⟨read, hpath, hcategory, hrecord⟩ :=
      readRecords_entry entry (GitStatus.statusFields status ++ [[]]) entries
    have hmap := @map_path_setEntry entries read
    have hdistinct' : Distinct (setEntry entries read) := by
      unfold Distinct
      rw [hmap]
      split
      next => exact hdistinct
      next h => exact List.nodup_append.mpr ⟨hdistinct, List.nodup_singleton _, by simpa using h⟩
    have hchanged' : ∀ old ∈ setEntry entries read, old.category ≠ .ignored := by
      intro old hold
      rcases mem_setEntry hold with rfl | hold
      · exact hcategory
      · exact hchanged old hold
    obtain ⟨all, hall, hfinal⟩ := ih (setEntry entries read) hdistinct' hchanged'
    refine ⟨all, ?_, hfinal.1, hfinal.2.1, fun path => ?_⟩
    · rw [GitStatus.statusFields, List.flatMap_cons, List.append_assoc]
      exact hrecord.trans hall
    · rw [hfinal.2.2, hmap, hpath, List.map_cons, List.mem_cons]
      split
      next h =>
        constructor
        · rintro (hold | hnew)
          · exact .inl hold
          · exact .inr (.inr hnew)
        · rintro (hold | rfl | hnew)
          · exact .inl hold
          · exact .inl h
          · exact .inr hnew
      next =>
        rw [List.mem_append, List.mem_singleton, or_assoc]

theorem mem_addIgnored {path : List Char} {entry : GitInventoryEntry}
    (h : entry ∈ addIgnored entries path) :
    entry ∈ entries ∨ entry.category = .ignored ∧ entry.path = path ∧
      path ∉ entries.map GitInventoryEntry.path := by
  unfold addIgnored at h
  split at h
  next => exact .inl h
  next hpath =>
    rcases List.mem_append.mp h with hold | hnew
    · exact .inl hold
    · obtain rfl := List.mem_singleton.mp hnew
      exact .inr ⟨rfl, rfl, mt (any_path_iff _).mpr hpath⟩

theorem foldl_addIgnored {changed : List (List Char)} (ignored : List (List Char))
    (hdistinct : Distinct entries)
    (hchanged : ∀ entry ∈ entries, entry.category ≠ .ignored ↔ entry.path ∈ changed)
    (hall : ∀ path ∈ changed, path ∈ entries.map GitInventoryEntry.path) :
    Distinct (ignored.foldl addIgnored entries) ∧
      (∀ entry ∈ ignored.foldl addIgnored entries,
        entry.category ≠ .ignored ↔ entry.path ∈ changed) ∧
      ∀ path, path ∈ (ignored.foldl addIgnored entries).map GitInventoryEntry.path ↔
        path ∈ entries.map GitInventoryEntry.path ∨ path ∈ ignored := by
  induction ignored generalizing entries with
  | nil => exact ⟨hdistinct, hchanged, by simp⟩
  | cons pathname ignored ih =>
    have hmap := @map_path_addIgnored entries pathname
    have hdistinct' : Distinct (addIgnored entries pathname) := by
      unfold Distinct
      rw [hmap]
      split
      next => exact hdistinct
      next h => exact List.nodup_append.mpr ⟨hdistinct, List.nodup_singleton _, by simpa using h⟩
    have hchanged' : ∀ entry ∈ addIgnored entries pathname,
        entry.category ≠ .ignored ↔ entry.path ∈ changed := by
      intro entry hentry
      rcases mem_addIgnored hentry with hold | ⟨hcategory, rfl, hnew⟩
      · exact hchanged entry hold
      · exact iff_of_false (fun h => h hcategory) fun h => hnew (hall _ h)
    have hall' : ∀ path ∈ changed, path ∈ (addIgnored entries pathname).map
        GitInventoryEntry.path := by
      intro path hpath
      rw [hmap]
      split
      · exact hall path hpath
      · exact List.mem_append_left _ (hall path hpath)
    obtain ⟨hd, hc, hp⟩ := ih hdistinct' hchanged' hall'
    refine ⟨hd, hc, fun path => (hp path).trans ?_⟩
    rw [hmap, List.mem_cons]
    split
    next h =>
      constructor
      · rintro (hold | hnew)
        · exact .inl hold
        · exact .inr (.inr hnew)
      · rintro (hold | rfl | hnew)
        · exact .inl hold
        · exact .inl h
        · exact .inr hnew
    next => rw [List.mem_append, List.mem_singleton, or_assoc]

end Listing

/-! ## What Git prints -/

/-- What `git ls-files --others --ignored --exclude-standard -z` prints. -/
def ignoredListing (ignored : List (List Char)) : List Char := ignored.flatMap (· ++ [nul])

structure Worktree where
  status : List GitStatus.StatusEntry
  ignored : List (List Char)
  legal_ignored : ∀ path ∈ ignored, path ≠ [] ∧ nul ∉ path

namespace Worktree

variable (worktree : Worktree)

def Changed (path : List Char) : Prop :=
  path ∈ worktree.status.map GitStatus.StatusEntry.path

def text : List Char :=
  snapshotText (GitStatus.porcelain worktree.status) (ignoredListing worktree.ignored)

theorem split_ignored : ((Text.split (ignoredListing worktree.ignored) [nul]).filter
    fun pathname => !pathname.isEmpty) = worktree.ignored := by
  rw [ignoredListing, Text.split_pieces fun path hpath => (worktree.legal_ignored path hpath).2,
    List.filter_append, List.filter_eq_self.mpr fun path hpath => by
      simpa using (worktree.legal_ignored path hpath).1]
  simp

theorem inventoryEntries_spec (localeCompare : List Char → List Char → ℤ) :
    ∃ ordered, inventoryEntries localeCompare (GitStatus.porcelain worktree.status)
        (ignoredListing worktree.ignored) = .ok ordered ∧ Distinct ordered ∧
      (∀ path, path ∈ ordered.map GitInventoryEntry.path ↔
        worktree.Changed path ∨ path ∈ worktree.ignored) ∧
      ∀ entry ∈ ordered, entry.category ≠ .ignored ↔ worktree.Changed entry.path := by
  obtain ⟨read, hread, hdistinct, hcategory, hpaths⟩ := readRecords_statusFields worktree.status
    [] (by simp [Distinct]) (by simp)
  have hpaths' : ∀ path, path ∈ read.map GitInventoryEntry.path ↔ worktree.Changed path :=
    fun path => (hpaths path).trans (by simp [Changed])
  obtain ⟨hd, hc, hp⟩ := @foldl_addIgnored read (worktree.status.map GitStatus.StatusEntry.path)
    worktree.ignored hdistinct (fun entry hentry => iff_of_true (hcategory entry hentry)
      ((hpaths' _).mp (List.mem_map_of_mem hentry)))
    fun path hpath => (hpaths' path).mpr hpath
  refine ⟨(worktree.ignored.foldl addIgnored read).mergeSort (isOrdered localeCompare), ?_, ?_,
    fun path => ?_, fun entry hentry => ?_⟩
  · rw [inventoryEntries, GitStatus.split_porcelain, hread, split_ignored]
    rfl
  · exact ((List.mergeSort_perm _ _).map _).nodup_iff.mpr hd
  · rw [((List.mergeSort_perm _ _).map _).mem_iff, hp, hpaths']
  · exact hc entry ((List.mergeSort_perm _ _).mem_iff.mp hentry)

theorem texts_eq_of_text_eq {a b : Worktree} (h : a.text = b.text) :
    GitStatus.porcelain a.status = GitStatus.porcelain b.status ∧
      ignoredListing a.ignored = ignoredListing b.ignored := by
  have hfields : ∀ worktree : Worktree,
      (Text.split worktree.text [nul]).takeWhile (fun field => !field.isEmpty) =
        GitStatus.statusFields worktree.status := by
    intro worktree
    have hnul : ∀ field ∈ GitStatus.statusFields worktree.status,
        nul ∉ field ∧ field ≠ [] := by
      intro field hfield
      obtain ⟨entry, -, hmem⟩ := List.mem_flatMap.mp hfield
      refine ⟨entry.nul_notMem_fields hmem, ?_⟩
      rcases List.mem_cons.mp hmem with rfl | hsource
      · exact List.cons_ne_nil _ _
      · exact (entry.legal_source field (Option.mem_toList.mp hsource)).1
    have hline : Text.split (nul :: ignoredListing worktree.ignored) [nul] =
        [] :: Text.split (ignoredListing worktree.ignored) [nul] :=
      Text.split_line (List.not_mem_nil) _
    rw [text, snapshotText, GitStatus.porcelain,
      Text.split_pieces_append fun field hfield => (hnul field hfield).1, hline,
      List.takeWhile_append_of_pos fun field hfield => by simpa using (hnul field hfield).2]
    simp
  have hsame : GitStatus.porcelain a.status = GitStatus.porcelain b.status := by
    rw [GitStatus.porcelain, GitStatus.porcelain, ← hfields a, ← hfields b, h]
  rw [text, text, snapshotText, snapshotText, hsame] at h
  exact ⟨hsame, (List.cons.inj (List.append_cancel_left h)).2⟩

end Worktree

/-! ## Pages -/

/-- A call of `inventory`: the worktree at the time, and how many entries are asked for. -/
structure PageCall where
  worktree : Worktree
  pageSize : ℤ
  legal_size : 1 ≤ pageSize ∧ pageSize ≤ 200

section Pages

variable (digest : List Char → List Char) (localeCompare : List Char → List Char → ℤ)

def PageCall.run (call : PageCall) (cursor : ℤ) (snapshot : Option (List Char)) :
    Except AppError GitInventoryPage :=
  inventory digest localeCompare ⟨0, GitStatus.porcelain call.worktree.status⟩
    ⟨0, ignoredListing call.worktree.ignored⟩ cursor call.pageSize snapshot

/-- A reader that follows the cursors with the snapshot it is returned, as far as the calls go. -/
def readPages : List PageCall → ℤ → Option (List Char) → Except AppError (List GitInventoryPage)
  | [], _, _ => .ok []
  | call :: calls, cursor, snapshot =>
    match call.run digest localeCompare cursor snapshot with
    | .error e => .error e
    | .ok page =>
      match page.nextCursor with
      | none => .ok [page]
      | some cursor => (readPages calls cursor (some page.snapshot)).map (page :: ·)

/-- What a call throws when the worktree is not the one the reader has begun with. -/
def worktreeChanged : AppError :=
  .conflict "The Git worktree changed while inventory pages were being read."

variable {digest localeCompare} {first call : PageCall} {ordered : List GitInventoryEntry}

theorem pageAt_spec (ordered : List GitInventoryEntry) (k : ℕ) {pageSize : ℤ} (h : 1 ≤ pageSize)
    (snapshot : List Char) :
    (pageAt ordered k pageSize snapshot).entries <+: ordered.drop k ∧
      (((pageAt ordered k pageSize snapshot).nextCursor =
            some ((k + (pageAt ordered k pageSize snapshot).entries.length : ℕ) : ℤ) ∧
          k + (pageAt ordered k pageSize snapshot).entries.length < ordered.length ∧
          0 < (pageAt ordered k pageSize snapshot).entries.length) ∨
        ((pageAt ordered k pageSize snapshot).nextCursor = none ∧
          (pageAt ordered k pageSize snapshot).complete = true ∧
          (pageAt ordered k pageSize snapshot).entries = ordered.drop k)) := by
  unfold pageAt
  dsimp only
  rw [Int.toNat_natCast]
  refine ⟨List.take_prefix _ _, ?_⟩
  have hlength : ((ordered.drop k).take pageSize.toNat).length =
      min pageSize.toNat (ordered.length - k) := by rw [List.length_take, List.length_drop]
  by_cases hmore : (k : ℤ) + ((ordered.drop k).take pageSize.toNat).length < ordered.length
  · rw [if_pos hmore]
    refine .inl ⟨by push_cast; rfl, by exact_mod_cast hmore, ?_⟩
    omega
  · rw [if_neg hmore]
    refine .inr ⟨rfl, rfl, List.take_of_length_le ?_⟩
    rw [List.length_drop]
    omega

section

variable (hhex : Text.matchesHex 64 64 false (digest first.worktree.text) = true)

include hhex

theorem run_same
    (hordered : inventoryEntries localeCompare (GitStatus.porcelain first.worktree.status)
      (ignoredListing first.worktree.ignored) = .ok ordered)
    (hsame : call.worktree.text = first.worktree.text) {k : ℕ} {snapshot : Option (List Char)}
    (hsnapshot : (k = 0 ∧ snapshot = none) ∨ snapshot = some (digest first.worktree.text)) :
    call.run digest localeCompare k snapshot =
      .ok (pageAt ordered k call.pageSize (digest first.worktree.text)) := by
  obtain ⟨hstatus, hignored⟩ := Worktree.texts_eq_of_text_eq hsame
  have hcursor : ¬ (k : ℤ) < 0 := by omega
  have hsize : ¬ (call.pageSize < 1 ∨ 200 < call.pageSize) := by
    have := call.legal_size
    omega
  have hrequired : ¬ (0 < (k : ℤ) ∧
      ¬ Text.matchesHex 64 64 false (snapshot.getD []) = true) := by
    rcases hsnapshot with ⟨rfl, -⟩ | rfl
    · exact fun h => absurd h.1 (by decide)
    · exact fun h => h.2 hhex
  have hdigest : ¬ (snapshot.isSome = true ∧ snapshot ≠ some (digest first.worktree.text)) := by
    rcases hsnapshot with ⟨-, rfl⟩ | rfl
    · exact fun h => Bool.false_ne_true h.1
    · exact fun h => h.2 rfl
  have hlisted : inventoryEntries localeCompare (GitStatus.porcelain call.worktree.status)
      (ignoredListing call.worktree.ignored) = .ok ordered := by
    rw [hstatus, hignored, hordered]
  have htext : digest (snapshotText (GitStatus.porcelain call.worktree.status)
      (ignoredListing call.worktree.ignored)) = digest first.worktree.text := congrArg digest hsame
  have hexit : ¬ ((0 : ℤ) ≠ 0 ∨ (0 : ℤ) ≠ 0) := by decide
  unfold PageCall.run inventory
  rw [if_neg hcursor, if_neg hsize, if_neg hexit, if_neg hrequired]
  dsimp only
  rw [htext, if_neg hdigest, hlisted]
  rfl

theorem run_other (hother : digest call.worktree.text ≠ digest first.worktree.text) (k : ℕ) :
    call.run digest localeCompare k (some (digest first.worktree.text)) =
      .error worktreeChanged := by
  have hcursor : ¬ (k : ℤ) < 0 := by omega
  have hsize : ¬ (call.pageSize < 1 ∨ 200 < call.pageSize) := by
    have := call.legal_size
    omega
  have hexit : ¬ ((0 : ℤ) ≠ 0 ∨ (0 : ℤ) ≠ 0) := by decide
  have hrequired : ¬ (0 < (k : ℤ) ∧ ¬ Text.matchesHex 64 64 false
      ((some (digest first.worktree.text)).getD []) = true) := fun h => h.2 hhex
  have hdiffers : (some (digest first.worktree.text)).isSome = true ∧
      some (digest first.worktree.text) ≠ some (digest (snapshotText
        (GitStatus.porcelain call.worktree.status) (ignoredListing call.worktree.ignored))) :=
    ⟨rfl, fun h => hother (Option.some.inj h).symm⟩
  unfold PageCall.run inventory
  rw [if_neg hcursor, if_neg hsize, if_neg hexit, if_neg hrequired]
  dsimp only
  rw [if_pos hdiffers]
  rfl

theorem readPages_cases
    (hordered : inventoryEntries localeCompare (GitStatus.porcelain first.worktree.status)
      (ignoredListing first.worktree.ignored) = .ok ordered) {calls : List PageCall}
    (hcollide : ∀ call ∈ calls, digest call.worktree.text = digest first.worktree.text →
      call.worktree.text = first.worktree.text) {k : ℕ} (hk : calls = [] → k < ordered.length)
    {snapshot : Option (List Char)}
    (hsnapshot : (k = 0 ∧ snapshot = none ∧ calls.head? = some first) ∨
      snapshot = some (digest first.worktree.text)) :
    ((∃ call ∈ calls, call.worktree.text ≠ first.worktree.text) ∧
      readPages digest localeCompare calls k snapshot = .error worktreeChanged) ∨
    ∃ pages, readPages digest localeCompare calls k snapshot = .ok pages ∧
      (∀ call ∈ calls.take pages.length, call.worktree.text = first.worktree.text) ∧
      ((pages.flatMap GitInventoryPage.entries = ordered.drop k ∧
          ∃ last, pages.getLast? = some last ∧ last.complete = true) ∨
        (pages.length = calls.length ∧ k + calls.length < ordered.length)) := by
  induction calls generalizing k snapshot with
  | nil => exact .inr ⟨[], rfl, by simp, .inr ⟨rfl, hk rfl⟩⟩
  | cons call calls ih =>
    by_cases hsame : call.worktree.text = first.worktree.text
    · have hrun := run_same hhex hordered hsame
        (hsnapshot.imp_left fun h => ⟨h.1, h.2.1⟩)
      obtain ⟨hentries, hnext⟩ := pageAt_spec ordered k call.legal_size.1
        (digest first.worktree.text)
      generalize hpage : pageAt ordered k call.pageSize (digest first.worktree.text) = page
        at hrun hentries hnext
      have hpageSnapshot : page.snapshot = digest first.worktree.text := by rw [← hpage]; rfl
      unfold readPages
      rw [hrun]
      dsimp only
      rcases hnext with ⟨hnext, hmore, hprogress⟩ | ⟨hnext, hcomplete, hall⟩
      · rw [hnext, hpageSnapshot]
        dsimp only
        rcases ih (fun call hcall => hcollide call (List.mem_cons_of_mem _ hcall))
            (fun _ => hmore) (.inr rfl) with
          ⟨⟨other, hother, hdiffers⟩, herror⟩ | ⟨pages, hpages, hreached, hrest⟩
        · rw [herror]
          exact .inl ⟨⟨other, List.mem_cons_of_mem _ hother, hdiffers⟩, rfl⟩
        · rw [hpages]
          refine .inr ⟨page :: pages, rfl, ?_, ?_⟩
          · intro call' hcall'
            rw [List.length_cons, List.take_succ_cons] at hcall'
            rcases List.mem_cons.mp hcall' with rfl | hcall'
            · exact hsame
            · exact hreached call' hcall'
          · rcases hrest with ⟨htiles, last, hlast, hfinished⟩ | ⟨hcount, hleft⟩
            · refine .inl ⟨?_, last, ?_, hfinished⟩
              · obtain ⟨rest, hrest⟩ := hentries
                rw [List.flatMap_cons, htiles, ← List.drop_drop, ← hrest, List.drop_left]
              · rw [List.getLast?_cons, hlast]
                rfl
            · exact .inr ⟨by simp [hcount], by simp only [List.length_cons]; omega⟩
      · rw [hnext]
        refine .inr ⟨[page], rfl, by simpa using hsame, .inl ⟨?_, page, rfl, hcomplete⟩⟩
        rw [List.flatMap_cons, List.flatMap_nil, List.append_nil, hall]
    · obtain ⟨-, -, hfirst⟩ | rfl := hsnapshot
      · exact absurd (by rw [Option.some.inj hfirst]) hsame
      · refine .inl ⟨⟨call, List.mem_cons_self, hsame⟩, ?_⟩
        unfold readPages
        rw [run_other hhex (mt (hcollide call List.mem_cons_self) hsame)]

end

end Pages

/-! ## The inspector and the inventory -/

theorem changed_iff (worktree : Worktree) (path : List Char) :
    worktree.Changed path ↔
      path ∈ GitStatus.pathsOf GitStatus.StatusEntry.IsStaged worktree.status ∨
      path ∈ GitStatus.pathsOf GitStatus.StatusEntry.IsUnstaged worktree.status ∨
      path ∈ GitStatus.pathsOf GitStatus.StatusEntry.IsUntracked worktree.status := by
  have hkind : ∀ entry : GitStatus.StatusEntry,
      entry.IsStaged ∨ entry.IsUnstaged ∨ entry.IsUntracked := by
    intro entry
    have hcodes : ∀ c ∈ GitStatus.statusCodes, c ≠ '?' := by decide
    rcases entry.legal_codes with huntracked | ⟨hx, hy, hblank⟩
    · exact .inr (.inr huntracked)
    · by_cases hx' : entry.x = ' '
      · exact .inr (.inl ⟨hcodes _ hy, fun hy' => hblank ⟨hx', hy'⟩⟩)
      · exact .inl ⟨hcodes _ hx, hx'⟩
  simp only [Worktree.Changed, GitStatus.pathsOf, List.mem_map, List.mem_filter,
    decide_eq_true_eq]
  constructor
  · rintro ⟨entry, hentry, rfl⟩
    rcases hkind entry with h | h | h
    · exact .inl ⟨entry, ⟨hentry, h⟩, rfl⟩
    · exact .inr (.inl ⟨entry, ⟨hentry, h⟩, rfl⟩)
    · exact .inr (.inr ⟨entry, ⟨hentry, h⟩, rfl⟩)
  · rintro (⟨entry, ⟨hentry, -⟩, rfl⟩ | ⟨entry, ⟨hentry, -⟩, rfl⟩ | ⟨entry, ⟨hentry, -⟩, rfl⟩) <;>
      exact ⟨entry, hentry, rfl⟩

/-- The inspector and the inventory read a status alike. The pages of an inventory hold every path
that has changed or is ignored once, as long as the worktree stays the same. -/
theorem inventory_agrees (digest : List Char → List Char)
    (localeCompare : List Char → List Char → ℤ) :
    (∀ (worktree : Worktree) (limit : ℕ), ∃ staged unstaged untracked ordered,
      Text.IsSortedSet staged (GitStatus.pathsOf GitStatus.StatusEntry.IsStaged worktree.status) ∧
      Text.IsSortedSet unstaged
        (GitStatus.pathsOf GitStatus.StatusEntry.IsUnstaged worktree.status) ∧
      Text.IsSortedSet untracked
        (GitStatus.pathsOf GitStatus.StatusEntry.IsUntracked worktree.status) ∧
      GitStatus.parsePorcelainStatus (Text.encode (GitStatus.porcelain worktree.status)) limit =
        .ok
        { stagedPaths := staged.take limit
          unstagedPaths := unstaged.take limit
          untrackedPaths := untracked.take limit
          pathsTruncated := decide (limit < staged.length ∨ limit < unstaged.length ∨
            limit < untracked.length) } ∧
      inventoryEntries localeCompare (GitStatus.porcelain worktree.status)
        (ignoredListing worktree.ignored) = .ok ordered ∧
      ∀ path, (∃ entry ∈ ordered, entry.path = path ∧ entry.category ≠ .ignored) ↔
        path ∈ staged ∨ path ∈ unstaged ∨ path ∈ untracked) ∧
    ∀ (first : PageCall) (calls : List PageCall),
      Text.matchesHex 64 64 false (digest first.worktree.text) = true →
      (∀ call ∈ calls, digest call.worktree.text = digest first.worktree.text →
        call.worktree.text = first.worktree.text) →
      ((∃ call ∈ calls, call.worktree.text ≠ first.worktree.text) ∧
        readPages digest localeCompare (first :: calls) 0 none = .error worktreeChanged) ∨
      ∃ pages paths, readPages digest localeCompare (first :: calls) 0 none = .ok pages ∧
        (∀ call ∈ (first :: calls).take pages.length,
          call.worktree.text = first.worktree.text) ∧
        paths.Nodup ∧ (∀ path, path ∈ paths ↔
          first.worktree.Changed path ∨ path ∈ first.worktree.ignored) ∧
        (((pages.flatMap GitInventoryPage.entries).map GitInventoryEntry.path = paths ∧
            ∃ last, pages.getLast? = some last ∧ last.complete = true) ∨
          (pages.length = (first :: calls).length ∧ (first :: calls).length < paths.length)) := by
  constructor
  · intro worktree limit
    obtain ⟨staged, unstaged, untracked, hstaged, hunstaged, huntracked, hparse⟩ :=
      GitStatus.parsePorcelainStatus_porcelain worktree.status limit
    obtain ⟨ordered, hordered, -, hpaths, hcategory⟩ :=
      worktree.inventoryEntries_spec localeCompare
    refine ⟨staged, unstaged, untracked, ordered, hstaged, hunstaged, huntracked, hparse,
      hordered, fun path => ?_⟩
    rw [hstaged.mem_iff, hunstaged.mem_iff, huntracked.mem_iff, ← changed_iff]
    constructor
    · rintro ⟨entry, hentry, rfl, hchanged⟩
      exact (hcategory entry hentry).mp hchanged
    · intro hchanged
      obtain ⟨entry, hentry, rfl⟩ := List.mem_map.mp ((hpaths path).mpr (.inl hchanged))
      exact ⟨entry, hentry, rfl, (hcategory entry hentry).mpr hchanged⟩
  · intro first calls hhex hcollide
    obtain ⟨ordered, hordered, hdistinct, hpaths, -⟩ :=
      first.worktree.inventoryEntries_spec localeCompare
    have hcollide' : ∀ call ∈ first :: calls,
        digest call.worktree.text = digest first.worktree.text →
        call.worktree.text = first.worktree.text := by
      intro call hcall
      rcases List.mem_cons.mp hcall with rfl | hcall
      · exact fun _ => rfl
      · exact hcollide call hcall
    rcases readPages_cases hhex hordered hcollide' (k := 0) nofun (.inl ⟨rfl, rfl, rfl⟩) with
      ⟨⟨call, hcall, hdiffers⟩, herror⟩ | ⟨pages, hpages, hreached, hrest⟩
    · refine .inl ⟨⟨call, ?_, hdiffers⟩, herror⟩
      rcases List.mem_cons.mp hcall with rfl | hcall
      · exact absurd rfl hdiffers
      · exact hcall
    · refine .inr ⟨pages, ordered.map GitInventoryEntry.path, hpages, hreached, hdistinct, hpaths,
        ?_⟩
      rcases hrest with ⟨htiles, hlast⟩ | ⟨hcount, hleft⟩
      · exact .inl ⟨by rw [htiles, List.drop_zero], hlast⟩
      · exact .inr ⟨hcount, by rw [List.length_map]; omega⟩

/-! A renamed, an untracked and an ignored path, two on a page. -/

def exampleWorktree : Worktree where
  status := [
    ⟨'R', ' ', "b".toList, some "a".toList, by decide, by decide, by decide, by decide⟩,
    ⟨'?', '?', "c".toList, none, by decide, by decide, nofun, by decide⟩]
  ignored := ["d".toList]
  legal_ignored := by decide

def exampleCall : PageCall := ⟨exampleWorktree, 2, by decide⟩

def exampleDigest (_ : List Char) : List Char :=
  "976d9b3ba7ca08e19a662625195efd29fef3d3fad1d810d0cf9f008418b7746a".toList

def exampleCompare (left right : List Char) : ℤ :=
  (left.headD ' ').toNat - (right.headD ' ').toNat

theorem inventory_agrees_renamed : ∃ pages paths,
    readPages exampleDigest exampleCompare (List.replicate 3 exampleCall) 0 none = .ok pages ∧
      paths.Nodup ∧ (∀ path, path ∈ paths ↔
        exampleWorktree.Changed path ∨ path ∈ exampleWorktree.ignored) ∧
      (pages.flatMap GitInventoryPage.entries).map GitInventoryEntry.path = paths := by
  obtain ⟨-, hpages⟩ := inventory_agrees exampleDigest exampleCompare
  have hsame : ∀ call ∈ List.replicate 2 exampleCall,
      call.worktree.text = exampleCall.worktree.text := by
    intro call hcall
    rw [List.eq_of_mem_replicate hcall]
  rcases hpages exampleCall (List.replicate 2 exampleCall) (by decide +kernel)
      (fun call hcall _ => hsame call hcall) with
    ⟨⟨call, hcall, hdiffers⟩, -⟩ | ⟨pages, paths, hok, -, hdistinct, hpaths, htiles⟩
  · exact absurd (hsame call hcall) hdiffers
  · refine ⟨pages, paths, hok, hdistinct, hpaths, ?_⟩
    rcases htiles with ⟨htiles, -⟩ | ⟨-, hleft⟩
    · exact htiles
    · have hsub : paths ⊆ ["b".toList, "c".toList, "d".toList] := by
        intro path hpath
        have hlisted := (hpaths path).mp hpath
        simpa [Worktree.Changed, exampleCall, exampleWorktree, or_assoc] using hlisted
      have hle := (List.subperm_of_subset hdistinct hsub).length_le
      simp at hleft hle
      omega

end GitService
