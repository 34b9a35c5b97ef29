import ChatgptSystem.Fs.FsService
import ChatgptSystem.Fs.PatchJournal

/-!
# The patch-set service

`PatchSetService` (`fs/patch-set-service.ts`) as programs of file operations.

* `prepare` — the checks of the inputs, and the patches that are to be written;
* `materializeTransaction`, `writeJournal`, `rollbackCommitting`, `cleanupJournal` — the parts;
* `applyPrepared` — the operation that `applyLocked` runs under the audit log;
* `recoverOne` — the recovery of one journal.

An open file is asked for its kind and its size as `lstat` reports them. The journals that
`recoverPending` lists and the locks that `apply` takes are left out.
-/

open Interleaving

def MAX_TOTAL_PATCH_BYTES : ℕ := 4 * 1024 * 1024
def MAX_TRANSACTION_BYTES : ℕ := 16 * 1024 * 1024

structure PatchSetInput where
  path : String
  patch : List Char
  expectedSha256 : String

structure PreparedPatch where
  target : AbsPath
  displayPath : String
  original : Bytes
  replacement : Bytes
  mode : ℕ

/-- `.<base>.<id>.<extension>`. -/
def dottedText (base id extension : String) : String :=
  "." ++ base ++ "." ++ id ++ "." ++ extension

theorem toList_dottedText (base id extension : String) : (dottedText base id extension).toList =
    '.' :: (base.toList ++ '.' :: (id.toList ++ '.' :: extension.toList)) := by
  simp [dottedText]

theorem isName_of_length {text : String} (hlength : 2 < text.toList.length)
    (hslash : '/' ∉ text.toList) : IsName text := by
  have hne : ∀ short : String, short.toList.length ≤ 2 → text ≠ short := by
    rintro short hshort rfl
    omega
  exact ⟨hne _ (by decide), hne _ (by decide), hne _ (by decide), hslash⟩

/-- `.<base>.<id>.<extension>`, for an extension without a slash. -/
def dottedName (base : String) (id : NamePart) (extension : String) (hbase : '/' ∉ base.toList)
    (hextension : '/' ∉ extension.toList) : Name :=
  ⟨dottedText base id.text extension, by
    apply isName_of_length <;> rw [toList_dottedText]
    · simp
      omega
    · simp [hbase, id.slash_free, hextension]⟩

/-- A file next to the target of a patch. -/
def PreparedPatch.sibling (entry : PreparedPatch) (transactionId : NamePart) (extension : String)
    (h : '/' ∉ extension.toList) : AbsPath :=
  Paths.dirname entry.target ++
    [dottedName (basename entry.target) transactionId extension (slash_not_mem_basename _) h]

def PreparedPatch.temp (entry : PreparedPatch) (transactionId : NamePart) : AbsPath :=
  entry.sibling transactionId "next" (by decide)

def PreparedPatch.backup (entry : PreparedPatch) (transactionId : NamePart) : AbsPath :=
  entry.sibling transactionId "backup" (by decide)

/-- A service with its policy, limits and libraries. -/
structure PatchSetService where
  policy : PathPolicy
  maxReadBytes : ℕ
  maxWriteBytes : ℕ
  /-- The digest in hexadecimal digits. -/
  sha256 : Bytes → String
  isSha256_sha256 : ∀ buffer, PatchJournal.isSha256 (sha256 buffer)
  patchTools : PatchTools
  journalDirectory : AbsPath

namespace PatchSetService

variable (service : PatchSetService)

/-- `scopeFingerprint` of the roots of the policy. -/
def fingerprint : String :=
  let sorted := (service.policy.roots.map Paths.text).insertionSort fun a b =>
    Text.sortsBefore a b
  service.sha256 (Text.encode ("roots".toList ++ '\x00' :: List.intercalate ['\x00'] sorted))

def journalPath (transactionId : NamePart) : AbsPath :=
  service.journalDirectory ++ [⟨transactionId.text ++ ".json", by
    apply isName_of_length <;> simp [transactionId.slash_free]⟩]

/-- The temporary file of a journal that is written. -/
def journalTemp (transactionId uuid : NamePart) : AbsPath :=
  service.journalDirectory ++
    [dottedName transactionId.text uuid "tmp" transactionId.slash_free (by decide)]

def requirePatchCount (count : ℕ) : Except AppError Unit :=
  if count < 1 ∨ count > MAX_PATCH_COUNT then
    throw (.limit "Patch set must contain between 1 and 100 entries.")
  else pure ()

/-- The content and the mode of a regular file. -/
def readRegularNoFollow (candidate : AbsPath) : FsM (Bytes × ℕ) := do
  let info ← Fs.lstat candidate
  if info = .symlink then throw (.policy "Patch-set targets may not be symbolic links.")
  else if !info.isFile then throw (.policy "Patch-set targets must be regular files.")
  else if info.size > service.maxReadBytes then
    throw (.limit "Patch-set target exceeds the configured read limit.")
  else
    let buffer ← Fs.readFile candidate
    pure (buffer, info.mode)

def safeUnlink (candidate : AbsPath) : FsM Unit :=
  Program.tryCatch (Fs.unlink candidate) fun error =>
    if error ≠ .errno .ENOENT then throw error else pure ()

def writeJournal (transactionId uuid : NamePart) (journal : PatchJournal) : FsM Unit := do
  Fs.mkdir service.journalDirectory
  let temp := service.journalTemp transactionId uuid
  Fs.openWx temp 0o600
  Fs.writeFile temp journal.serialize
  Program.tryCatch (Fs.rename temp (service.journalPath transactionId)) fun error => do
    safeUnlink temp
    throw error

/-- The base name of an artifact begins and ends as it should. -/
def wellNamed (target artifact : AbsPath) (extension : String) : Bool :=
  ("." ++ basename target ++ ".").toList.isPrefixOf (basename artifact).toList &&
    extension.toList.isSuffixOf (basename artifact).toList

def validateJournalEntry (entry : JournalEntry) : Except AppError Unit :=
  let directory := Paths.dirname entry.target
  if (service.policy.roots.find? (Paths.isInside · entry.target)).isNone then
    throw (.recoveryRequired
      "Patch transaction journal references a target outside the active authority roots.")
  else if Paths.dirname entry.temp ≠ directory ∨ Paths.dirname entry.backup ≠ directory then
    throw (.recoveryRequired
      "Patch transaction journal contains invalid transaction artifact paths.")
  else if !wellNamed entry.target entry.temp ".next" ||
      !wellNamed entry.target entry.backup ".backup" then
    throw (.recoveryRequired "Patch transaction journal contains malformed artifact names.")
  else pure ()

def targetHash (candidate : AbsPath) : FsM (Option String) :=
  Program.tryCatch
    (do
      let (buffer, _) ← service.readRegularNoFollow candidate
      pure (some (service.sha256 buffer)))
    fun error => if error = .errno .ENOENT then pure none else throw error

def cleanupJournal (entries : List JournalEntry) (journalPath : AbsPath) : FsM Unit := do
  Program.forEach entries fun entry => do
    safeUnlink entry.temp
    safeUnlink entry.backup
  safeUnlink journalPath

/-- The loop of `rollbackCommitting`. -/
def restore (entry : JournalEntry) : FsM Unit := do
  Program.ofExcept (service.validateJournalEntry entry)
  let currentHash ← service.targetHash entry.target
  if currentHash = some entry.originalSha256 then pure ()
  else if currentHash ≠ some entry.newSha256 then
    throw (.recoveryRequired "Patch transaction recovery found an externally modified target.")
  else if !(← FileSystemService.exists entry.backup) then
    throw (.recoveryRequired "Patch transaction recovery is missing an original backup.")
  else
    let (backup, _) ← service.readRegularNoFollow entry.backup
    if service.sha256 backup ≠ entry.originalSha256 then
      throw (.recoveryRequired
        "Patch transaction recovery backup hash does not match the journal.")
    else Fs.rename entry.backup entry.target

def rollbackCommitting (entries : List JournalEntry) (journalPath : AbsPath) : FsM Unit := do
  Program.forEach entries service.restore
  cleanupJournal entries journalPath

/-- `recoverOne` up to the checks of the entries. -/
def readJournal (journalPath : AbsPath) : FsM PatchJournal := do
  let parsed ← Program.tryCatch
    (do
      let bytes ← Fs.readFile journalPath
      if bytes.length > service.maxWriteBytes then
        throw (.recoveryRequired "Patch transaction journal exceeds its bounded size.")
      else
        match Json.parse (Text.decode bytes) with
        | none => throw (.other "SyntaxError" "JSON.parse")
        | some value => pure value)
    fun error =>
      match error with
      | .recoveryRequired _ => throw error
      | _ => throw (.recoveryRequired "Patch transaction journal is unreadable or malformed.")
  match (PatchJournal.journalShape parsed).filter (·.scopeFingerprint = service.fingerprint) with
  | none => throw (.recoveryRequired
      "Patch transaction journal is invalid for the active authority scope.")
  | some journal =>
    Program.forEach journal.entries fun entry =>
      Program.ofExcept (service.validateJournalEntry entry)
    pure journal

/-- The loop over the entries of a journal whose targets should have one of their contents. -/
def requireHashes (expected : JournalEntry → String) (message : String)
    (entries : List JournalEntry) : FsM Unit :=
  Program.forEach entries fun entry => do
    let currentHash ← service.targetHash entry.target
    if currentHash ≠ some (expected entry) then throw (.recoveryRequired message) else pure ()

def recoverOne (journalPath : AbsPath) : FsM Unit := do
  let journal ← service.readJournal journalPath
  match journal.state with
  | .prepared =>
    service.requireHashes (·.originalSha256)
      "Prepared patch transaction target changed before recovery." journal.entries
    cleanupJournal journal.entries journalPath
  | .committing => service.rollbackCommitting journal.entries journalPath
  | .committed =>
    service.requireHashes (·.newSha256)
      "Committed patch transaction target no longer matches the journal." journal.entries
    cleanupJournal journal.entries journalPath

-- by a name of its own, so that no proof is generated inside `prepareFrom`
local instance : LawfulBEq AbsPath := inferInstance

/-- The loop of `prepare`, with its counters, the canonical paths that have been seen and the
patches that have been prepared. -/
def prepareFrom (patchBytes transactionBytes : ℕ) (seen : List AbsPath)
    (prepared : List PreparedPatch) : List PatchSetInput → FsM (List PreparedPatch)
  | [] => pure prepared
  | input :: inputs => do
    let patchBytes := patchBytes + (Text.encode input.patch).length
    if patchBytes > MAX_TOTAL_PATCH_BYTES then
      throw (.limit "Patch-set input exceeds its bounded patch size.")
    else
      let target ← service.policy.resolve input.path
      let info ← Fs.lstat target
      if info = .symlink then throw (.policy "Patch-set targets may not be symbolic links.")
      else if !info.isFile then throw (.policy "Patch-set targets must be regular files.")
      else
        let canonical ← Fs.realpath target
        if canonical ∈ seen then throw (.policy "Patch-set paths must identify distinct files.")
        else
          let (original, mode) ← service.readRegularNoFollow target
          if service.sha256 original ≠ input.expectedSha256 then
            throw (.conflict "File changed since it was read.")
          else
            let normalized := (service.patchTools.normalizeHunkHeaders input.patch).1
            Program.ofExcept (service.patchTools.validate normalized)
            match ← Program.ofExcept
              (service.patchTools.applyPatch (Text.decode original) normalized) with
            | none => throw (.conflict "Patch does not apply cleanly to the current file.")
            | some patched =>
              let replacement := Text.encode patched
              if replacement.length > service.maxWriteBytes then
                throw (.limit "Patched file exceeds configured byte limit.")
              else
                let transactionBytes := transactionBytes + original.length + replacement.length
                if transactionBytes > MAX_TRANSACTION_BYTES then
                  throw (.limit "Patch transaction exceeds its bounded byte budget.")
                else
                  let displayPath := String.ofList (service.policy.display target)
                  prepareFrom patchBytes transactionBytes (canonical :: seen)
                    (prepared ++ [{ target, displayPath, original, replacement, mode }]) inputs

def prepare (inputs : List PatchSetInput) : FsM (List PreparedPatch) := do
  Program.ofExcept (requirePatchCount inputs.length)
  service.prepareFrom 0 0 [] [] inputs

section Apply

variable (transactionId : NamePart) (createdAt : String) (entries : List PreparedPatch)

/-- `Promise.all` over the files: all of them are removed, whichever fails. -/
def unlinkAll : List AbsPath → FsM Unit
  | [] => pure ()
  | candidate :: rest => do
    let outcome ← (safeUnlink candidate).attempt
    unlinkAll rest
    Program.ofExcept outcome

/-- A file that `materializeTransaction` makes; if that fails, it removes those made before. -/
def createFile (path : AbsPath) (mode : ℕ) (content : Bytes) (created : List AbsPath) : FsM Unit :=
  Program.tryCatch
    (do
      Fs.openWx path mode
      Fs.writeFile path content)
    fun error => do
      unlinkAll created
      throw error

/-- The loop of `materializeTransaction`, with what has been created. -/
def materialize (created : List AbsPath) : List PreparedPatch → FsM Unit
  | [] => pure ()
  | entry :: rest => do
    let backup := entry.backup transactionId
    let temp := entry.temp transactionId
    createFile backup entry.mode entry.original created
    createFile temp entry.mode entry.replacement (created ++ [backup])
    materialize (created ++ [backup, temp]) rest

def materializeTransaction : FsM Unit := materialize transactionId [] entries

/-- The entry of a patch in the journal. -/
def entryOf (entry : PreparedPatch) : JournalEntry where
  target := entry.target
  displayPath := entry.displayPath
  temp := entry.temp transactionId
  backup := entry.backup transactionId
  originalSha256 := service.sha256 entry.original
  newSha256 := service.sha256 entry.replacement
  mode := entry.mode

def toJournal (state : JournalState) : PatchJournal where
  transactionId := transactionId.text
  scopeFingerprint := service.fingerprint
  state := state
  createdAt := createdAt
  entries := entries.map (service.entryOf transactionId)

/-- `cleanupPrepared`, with the journal or without it. -/
def cleanupPrepared (journalPath : Option AbsPath) : FsM Unit := do
  Program.forEach entries fun entry => do
    safeUnlink (entry.temp transactionId)
    safeUnlink (entry.backup transactionId)
  match journalPath with
  | none => pure ()
  | some journalPath => safeUnlink journalPath

/-- The `catch` of the renames: they are rolled back. -/
def failCommit (entries : List JournalEntry) (journalPath : AbsPath) (error : AppError) :
    FsM Unit := do
  Program.tryCatch (service.rollbackCommitting entries journalPath) fun recoveryError =>
    match recoveryError with
    | .recoveryRequired _ => throw recoveryError
    | _ => throw (.recoveryRequired
        "Patch transaction failed and automatic rollback did not complete.")
  throw error

/-- The body of the `try` in `applyLocked`; each journal is written under a UUID of its own. -/
def commitPrepared (uuid : JournalState → NamePart) : FsM Unit := do
  let journal := service.toJournal transactionId createdAt entries
  let journalPath := service.journalPath transactionId
  let write (state : JournalState) : FsM Unit :=
    service.writeJournal transactionId (uuid state) (journal state)
  write .prepared
  Program.forEach entries fun entry => do
    let (current, _) ← service.readRegularNoFollow entry.target
    if service.sha256 current ≠ service.sha256 entry.original then do
      cleanupPrepared transactionId entries (some journalPath)
      throw (.conflict "File changed after patch-set validation and before commit.")
    else pure ()
  write .committing
  Program.tryCatch
    (Program.forEach entries fun entry => Fs.rename (entry.temp transactionId) entry.target)
    (service.failCommit (journal .committing).entries journalPath)
  write .committed
  cleanupJournal (journal .committed).entries journalPath

/-- The operation of `applyLocked` on the patches that have been prepared. -/
def applyPrepared (uuid : JournalState → NamePart) : FsM Unit := do
  materializeTransaction transactionId entries
  Program.tryCatch (service.commitPrepared transactionId createdAt entries uuid) fun error => do
    match error with
    | .recoveryRequired _ => throw error
    | _ =>
      if !(← FileSystemService.exists (service.journalPath transactionId)) then
        cleanupPrepared transactionId entries none
      throw error

end Apply

end PatchSetService
