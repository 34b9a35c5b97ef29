import ChatgptSystem.Core.PathLock

/-!
# The file-system service

The mutating operations of `FileSystemService` (`fs/fs-service.ts`) as programs: edit, write,
patch, move, remove and makeDirectory. The audit log around each operation never changes its
outcome and is left out.

The digest function and the patch library are parameters of the service. An expected digest is
optional; the tool schemas admit no empty one.
-/

open Interleaving

/-- A piece of a file name, such as a process id or a UUID. -/
structure NamePart where
  text : String
  slash_free : '/' ∉ text.toList
  nul_free : '\x00' ∉ text.toList

/-- The functions of `unified-patch.ts` and of the patch library. -/
structure PatchTools where
  /-- The patch with repaired hunk headers, and how many were repaired. -/
  normalizeHunkHeaders : List Char → List Char × ℕ
  validate : List Char → Except AppError Unit
  /-- The patched text, or nothing if a hunk does not match. -/
  applyPatch : List Char → List Char → Except AppError (Option (List Char))

/-- A service with its policy, limits and libraries; digests are values of `D`. -/
structure FileSystemService (D : Type) where
  policy : PathPolicy
  maxReadBytes : ℕ
  maxWriteBytes : ℕ
  sha256 : Bytes → D
  patchTools : PatchTools
  pid : NamePart

inductive FsResult (D : Type) where
  | edited (path : List Char) (bytes : ℕ) (sha256 previousSha256 : D) (replacements : ℕ)
  | written (path : List Char) (bytes : ℕ) (sha256 : D) (created : Bool)
  | patched (path : List Char) (bytes : ℕ) (sha256 : D) (normalizedHunkHeaders : ℕ)
  | moved (source destination : List Char)
  | removed (path : List Char)
  | directory (path : List Char)
  deriving DecidableEq

/-- What `verifyExpectedHash` returns: whether the file exists and with which mode. -/
structure Verified where
  «exists» : Bool
  mode : Option ℕ

def basename (path : AbsPath) : String :=
  match path.getLast? with
  | none => ""
  | some n => n.text

/-- `.<base>.<pid>.<uuid>.tmp`. -/
def tempText (base pid uuid : String) : String :=
  "." ++ base ++ "." ++ pid ++ "." ++ uuid ++ ".tmp"

theorem slash_not_mem_basename (path : AbsPath) : '/' ∉ (basename path).toList := by
  unfold basename
  split
  · simp
  next n _ => exact n.isName.2.2.2

theorem toList_tempText (base pid uuid : String) : (tempText base pid uuid).toList =
    '.' :: (base.toList ++ '.' :: (pid.toList ++ '.' :: (uuid.toList ++
      ['.', 't', 'm', 'p']))) := by
  simp [tempText]

theorem isName_tempText {base pid uuid : String} (hbase : '/' ∉ base.toList)
    (hpid : '/' ∉ pid.toList) (huuid : '/' ∉ uuid.toList) : IsName (tempText base pid uuid) := by
  have hlist := toList_tempText base pid uuid
  have hne : ∀ text : String, text.toList.length < 4 → tempText base pid uuid ≠ text := by
    rintro text hlen rfl
    rw [hlist] at hlen
    simp at hlen
    omega
  refine ⟨hne _ (by decide), hne _ (by decide), hne _ (by decide), ?_⟩
  rw [hlist]
  simp [hbase, hpid, huuid]

/-- The name of the temporary file next to `path`. -/
def tempName (path : AbsPath) (pid uuid : NamePart) : Name :=
  ⟨tempText (basename path) pid.text uuid.text,
    isName_tempText (slash_not_mem_basename path) pid.slash_free uuid.slash_free⟩

theorem hasNul_tempName {parent : AbsPath} {n : Name} (hn : n.hasNul = false)
    (pid uuid : NamePart) : (tempName (parent ++ [n]) pid uuid).hasNul = false := by
  have hbase : basename (parent ++ [n]) = n.text := by simp [basename]
  have hn' : '\x00' ∉ n.text.toList := by simpa [Name.hasNul] using hn
  have hpid := pid.nul_free
  have huuid := uuid.nul_free
  simp [Name.hasNul, tempName, toList_tempText, hbase, hn', hpid, huuid]

namespace FileSystemService

variable {D : Type} [DecidableEq D] (service : FileSystemService D)

/-- `exists`: only a missing entry counts as absent. -/
def «exists» (candidate : AbsPath) : FsM Bool :=
  Program.tryCatch (do let _ ← Fs.lstat candidate; pure true) fun error =>
    if error = .errno .ENOENT then pure false else throw error

def verifyExpectedHash (resolved : AbsPath) (expectedSha256 : Option D) : FsM Verified := do
  if !(← «exists» resolved) then
    if expectedSha256.isSome then
      throw (.conflict "File does not exist but an expected hash was supplied.")
    else pure ⟨false, none⟩
  else
    let info ← Fs.lstat resolved
    if !info.isFile then throw (.policy "Target must be a regular file.")
    else
      let current ← Fs.readFile resolved
      let currentSha256 := service.sha256 current
      match expectedSha256 with
      | none =>
        throw (.conflict "Existing files require expectedSha256 to prevent lost updates.")
      | some expected =>
        if currentSha256 ≠ expected then throw (.conflict "File changed since it was read.")
        else pure ⟨true, some info.mode⟩

/-- Write to a temporary file next to the target and rename it over the target. -/
def atomicWrite (uuid : NamePart) (resolved : AbsPath) (buffer : Bytes) (mode : Option ℕ) :
    FsM Unit := do
  Fs.mkdir (Paths.dirname resolved)
  let temp := Paths.dirname resolved ++ [tempName resolved service.pid uuid]
  Fs.openWx temp (mode.getD 0o600)
  Fs.writeFile temp buffer
  Program.tryCatch (Fs.rename temp resolved) fun error => do
    Program.tryCatch (Fs.unlink temp) fun _ => pure ()
    throw error

/-- What is searched for and what replaces it, and how often it occurs: in a CRLF file, an LF
text that does not occur is searched for, and replaced, with CRLF line ends. -/
def editMatches (source oldString newString : List Char) : List Char × List Char × ℕ :=
  let occurrences := (Text.split source oldString).length - 1
  if occurrences = 0 && Text.includes source ['\r', '\n'] &&
      !Text.includes oldString ['\r', '\n'] && Text.includes oldString ['\n'] then
    let search := Text.crlfOfLf oldString
    (search, Text.crlf newString, (Text.split source search).length - 1)
  else (oldString, newString, occurrences)

def replaceMatches (source search replacement : List Char) (replaceAll : Bool) : List Char :=
  if replaceAll then List.intercalate replacement (Text.split source search)
  else Text.replaceFirst source search replacement

def editLocked (uuid : NamePart) (resolved : AbsPath) (oldString newString : List Char)
    (replaceAll : Bool) (expectedSha256 : Option D) : FsM (FsResult D) := do
  if !(← «exists» resolved) then
    throw (.notFound "File does not exist; use fs_write to create it.")
  else
    let info ← Fs.lstat resolved
    if !info.isFile then throw (.policy "Target must be a regular file.")
    else if info.size > service.maxReadBytes then throw (.limit "File exceeds read limit.")
    else
      let current ← Fs.readFile resolved
      let currentSha256 := service.sha256 current
      if expectedSha256.any (· ≠ currentSha256) then
        throw (.conflict "File changed since it was read.")
      else
        let source := Text.decode current
        let (search, replacement, occurrences) := editMatches source oldString newString
        if occurrences = 0 then throw (.conflict "oldString was not found in the file.")
        else if occurrences > 1 && !replaceAll then
          throw (.conflict "oldString matches more than one location.")
        else
          let buffer := Text.encode (replaceMatches source search replacement replaceAll)
          if buffer.length > service.maxWriteBytes then
            throw (.limit "Edited file exceeds configured byte limit.")
          else
            service.atomicWrite uuid resolved buffer (some info.mode)
            pure (.edited (service.policy.display resolved) buffer.length
              (service.sha256 buffer) currentSha256 (if replaceAll then occurrences else 1))

def edit (uuid : NamePart) (input : String) (oldString newString : List Char)
    (replaceAll : Bool) (expectedSha256 : Option D) : FsM (FsResult D) := do
  if oldString.isEmpty then
    throw (.policy "oldString must not be empty; use fs_write to create or replace a whole file.")
  else if oldString = newString then
    throw (.policy "oldString and newString are identical; nothing to change.")
  else
    let resolved ← service.policy.resolve input
    withPathLock resolved
      (service.editLocked uuid resolved oldString newString replaceAll expectedSha256)

def writeLocked (uuid : NamePart) (resolved : AbsPath) (buffer : Bytes)
    (expectedSha256 : Option D) : FsM (FsResult D) := do
  let current ← service.verifyExpectedHash resolved expectedSha256
  service.atomicWrite uuid resolved buffer current.mode
  pure (.written (service.policy.display resolved) buffer.length (service.sha256 buffer)
    (!current.exists))

/-- `write`, of content that has been decoded to `buffer`. -/
def write (uuid : NamePart) (input : String) (buffer : Bytes) (expectedSha256 : Option D) :
    FsM (FsResult D) := do
  let resolved ← service.policy.resolve input
  if buffer.length > service.maxWriteBytes then
    throw (.limit "Write exceeds configured byte limit.")
  else withPathLock resolved (service.writeLocked uuid resolved buffer expectedSha256)

def patchLocked (uuid : NamePart) (resolved : AbsPath) (patch : List Char) (normalized : ℕ)
    (expectedSha256 : D) : FsM (FsResult D) := do
  let _ ← service.verifyExpectedHash resolved (some expectedSha256)
  let source ← Fs.readFile resolved
  match service.patchTools.applyPatch (Text.decode source) patch with
  | .error error => throw error
  | .ok none => throw (.conflict "Patch does not apply cleanly to the current file.")
  | .ok (some result) =>
    let buffer := Text.encode result
    if buffer.length > service.maxWriteBytes then
      throw (.limit "Patched file exceeds configured byte limit.")
    else
      let info ← Fs.lstat resolved
      service.atomicWrite uuid resolved buffer (some info.mode)
      pure (.patched (service.policy.display resolved) buffer.length (service.sha256 buffer)
        normalized)

def patch (uuid : NamePart) (input : String) (patchText : List Char) (expectedSha256 : D) :
    FsM (FsResult D) := do
  let resolved ← service.policy.resolve input
  let (patch, normalized) := service.patchTools.normalizeHunkHeaders patchText
  match service.patchTools.validate patch with
  | .error error => throw error
  | .ok () =>
    withPathLock resolved (service.patchLocked uuid resolved patch normalized expectedSha256)

def verifySource (source : AbsPath) (info : Stats) (expectedSha256 : Option D) : FsM Unit :=
  if info.isFile then do
    let _ ← service.verifyExpectedHash source expectedSha256
    pure ()
  else pure ()

def moveLocked (source destination : AbsPath) (expectedSha256 : Option D) :
    FsM (FsResult D) := do
  let info ← Fs.lstat source
  service.verifySource source info expectedSha256
  if ← «exists» destination then throw (.conflict "Destination already exists.")
  else
    Fs.mkdir (Paths.dirname destination)
    Fs.rename source destination
    pure (.moved (service.policy.display source) (service.policy.display destination))

def move (sourceInput destinationInput : String) (expectedSha256 : Option D) :
    FsM (FsResult D) := do
  let source ← service.policy.resolve sourceInput
  let destination ← service.policy.resolve destinationInput
  withPathLocks [source, destination] (service.moveLocked source destination expectedSha256)

def removeLocked (resolved : AbsPath) (expectedSha256 : Option D) (recursive : Bool) :
    FsM (FsResult D) := do
  if resolved ∈ service.policy.roots then
    throw (.policy "Removing an allowed root is forbidden.")
  else
    let info ← Fs.lstat resolved
    if info.isFile then
      let _ ← service.verifyExpectedHash resolved expectedSha256
      Fs.unlink resolved
      pure (.removed (service.policy.display resolved))
    else if info.isDirectory then
      if !recursive then throw (.policy "Directory removal requires recursive=true.")
      else
        Fs.rm resolved
        pure (.removed (service.policy.display resolved))
    else throw (.policy "Only regular files and directories can be removed.")

def remove (input : String) (expectedSha256 : Option D) (recursive : Bool) :
    FsM (FsResult D) := do
  let resolved ← service.policy.resolve input
  withPathLock resolved (service.removeLocked resolved expectedSha256 recursive)

def makeDirectory (input : String) : FsM (FsResult D) := do
  let resolved ← service.policy.resolve input
  Fs.mkdir resolved
  pure (.directory (service.policy.display resolved))

end FileSystemService

/-- One call of a mutating operation, with the UUID it draws. -/
inductive FsCall (D : Type) where
  | edit (uuid : NamePart) (input : String) (oldString newString : List Char)
      (replaceAll : Bool) (expectedSha256 : Option D)
  | write (uuid : NamePart) (input : String) (buffer : Bytes) (expectedSha256 : Option D)
  | patch (uuid : NamePart) (input : String) (patchText : List Char) (expectedSha256 : D)
  | move (sourceInput destinationInput : String) (expectedSha256 : Option D)
  | remove (input : String) (expectedSha256 : Option D) (recursive : Bool)
  | makeDirectory (input : String)

def FsCall.program {D : Type} [DecidableEq D] (service : FileSystemService D) :
    FsCall D → FsM (FsResult D)
  | .edit uuid input oldString newString replaceAll expectedSha256 =>
    service.edit uuid input oldString newString replaceAll expectedSha256
  | .write uuid input buffer expectedSha256 => service.write uuid input buffer expectedSha256
  | .patch uuid input patchText expectedSha256 =>
    service.patch uuid input patchText expectedSha256
  | .move sourceInput destinationInput expectedSha256 =>
    service.move sourceInput destinationInput expectedSha256
  | .remove input expectedSha256 recursive => service.remove input expectedSha256 recursive
  | .makeDirectory input => service.makeDirectory input
