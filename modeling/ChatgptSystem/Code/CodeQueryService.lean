import ChatgptSystem.Core.GlobMatch
import ChatgptSystem.Core.Paths
import ChatgptSystem.Core.SortedTexts
import ChatgptSystem.Core.Unicode
import Mathlib.Data.Rat.Defs

/-!
# The code search

`search` of `code/code-query-service.ts`: Git lists the files of a repository, some are kept, their
texts are read batch by batch, and the lines that match are collected up to a limit. A `Host`, whose
files do not change during the search, answers for the surroundings; strings consist of Unicode
scalar values.

* `shouldExcludePath`, `candidate`, `repository` — the files that are kept;
* `readBoundedText` — a text file of a limited size;
* `lineMatcher` — the column of a match in a line;
* `searchLines`, `searchReads`, `searchBatches` — the loops over lines, files and batches;
* `search` — the operation.
-/

namespace CodeQueryService

def defaultMaxResults : ℚ := 50
def searchReadConcurrency : ℕ := 16
def maxContextLines : ℚ := 5
def maxPreviewChars : ℕ := 1024
def maxResultCount : ℚ := 200
def maxQueryChars : ℕ := 4096
def maxScanFiles : ℕ := 5000
def maxScanBytes : ℕ := 16 * 1024 * 1024

/-! ## Paths that are left out -/

def excludedDirectoryNames : List String :=
  [".git", ".hg", ".svn", ".cache", ".next", ".nuxt", ".parcel-cache", ".turbo", ".vite",
    ".gradle", "build", "coverage", "dist", "node_modules", "target", "vendor", "DerivedData"]

def binaryExtensions : List String :=
  [".7z", ".a", ".avi", ".bin", ".bmp", ".class", ".dmg", ".doc", ".docx",
    ".eot", ".exe", ".gif", ".gz", ".ico", ".jar", ".jpeg", ".jpg", ".lockb",
    ".mov", ".mp3", ".mp4", ".o", ".pdf", ".png", ".ppt", ".pptx", ".pyc",
    ".so", ".tar", ".tgz", ".ttf", ".wav", ".webp", ".woff", ".woff2", ".xls",
    ".xlsx", ".zip"]

def secretBasenames : List String :=
  [".npmrc", ".pypirc", "credentials", "credentials.json", "id_ed25519", "id_rsa", "secrets.json"]

def isOneOf (literals : List String) (text : List Char) : Bool :=
  literals.any fun literal => literal.toList = text

/-- `text.endsWith` for one of some literals. -/
def endsWithOneOf (literals : List String) (text : List Char) : Bool :=
  literals.any fun literal => literal.toList.isSuffixOf text

/-- The pieces between separators, empty ones included. -/
def splitAt (isSeparator : Char → Bool) : List Char → List (List Char)
  | [] => [[]]
  | c :: rest =>
    if isSeparator c then [] :: splitAt isSeparator rest
    else match splitAt isSeparator rest with
      | [] => [[c]]
      | piece :: pieces => (c :: piece) :: pieces

/-- `relativePath.split(/[\\/]+/).filter(Boolean)`. -/
def pathSegments (relativePath : List Char) : List (List Char) :=
  (splitAt (fun c => c = '\\' || c = '/') relativePath).filter (! ·.isEmpty)

def basename (path : List Char) : List Char :=
  ((splitAt (· = '/') path).filter (! ·.isEmpty)).getLast?.getD []

/-- `path.extname`: the base name from its last dot on, unless the dot is its first character or
the name is `..`. -/
def extname (path : List Char) : List Char :=
  let name := basename path
  let pieces := splitAt (· = '.') name
  if pieces.length < 2 ∨ name = ['.', '.'] ∨ (pieces.length = 2 ∧ pieces.head? = some []) then []
  else '.' :: pieces.getLast?.getD []

structure FileInfo where
  isFile : Bool
  isSymbolicLink : Bool
  size : ℕ

structure GitCommandResult where
  exitCode : ℤ
  stdout : Bytes

/-- What the service asks of its surroundings. -/
structure Host where
  unicode : CharacterDatabase
  /-- `new RegExp(pattern, ignoreCase ? "i" : "")` and the index of `exec`, or the message of the
  error. -/
  newRegExp : List Char → Bool → Except String (List Char → Option ℕ)
  sha256 : Bytes → List Char
  /-- `policy.resolve`. -/
  resolve : List Char → Except AppError AbsPath
  /-- `policy.display`. -/
  display : AbsPath → List Char
  runGit : AbsPath → List String → Except AppError GitCommandResult
  lstat : AbsPath → Except Errno FileInfo
  /-- The bytes of a file that is opened for reading. -/
  content : AbsPath → Except Errno Bytes
  /-- `limits.maxReadBytes`. -/
  maxReadBytes : ℕ

variable (host : Host)

def secretStems : List String := ["secret", "secrets", "credential", "credentials"]

def secretEndings : List String := ["", ".json", ".yaml", ".yml", ".toml", ".ini"]

def looksSecret (relativePath : List Char) : Bool :=
  let name := host.unicode.toLowerCase (basename relativePath)
  -- the expressions with the flag `i` are applied to a text that is in lower case already
  name = ".env".toList ||
  (".env.".toList.isPrefixOf name && ! endsWithOneOf [".example", ".sample", ".template"] name) ||
  isOneOf secretBasenames name ||
  endsWithOneOf [".pem", ".key", ".p12", ".pfx"] (name.map Char.toLower) ||
  secretStems.any fun stem => secretEndings.any fun ending =>
    stem.toList ++ ending.toList = name.map Char.toLower

def shouldExcludePath (relativePath : List Char) : Bool :=
  (pathSegments relativePath).any (isOneOf excludedDirectoryNames) ||
  looksSecret host relativePath ||
  isOneOf binaryExtensions (host.unicode.toLowerCase (extname relativePath))

/-! ## The files of the repository -/

structure CandidateFile where
  absolutePath : AbsPath
  relativePath : List Char
deriving DecidableEq

/-- `path.resolve(root, name)`. -/
def resolvePath (root : AbsPath) (name : List Char) : AbsPath :=
  Paths.resolve (if name.head? = some '/' then [] else root)
    ((Paths.segments name).map Paths.component)

/-- The entry of the listing, if it is kept. On a POSIX system `posixRelative` changes nothing. -/
def candidate (root : AbsPath) (name : List Char) : Option CandidateFile :=
  if shouldExcludePath host name then none
  else if ! Paths.isInside root (resolvePath root name) then none
  else some ⟨resolvePath root name, name⟩

def collectFiles (root : AbsPath) : List (List Char) → List CandidateFile → List CandidateFile
  | [], files => files
  | name :: names, files =>
    if files.length ≥ maxScanFiles then files
    else match candidate host root name with
      | none => collectFiles root names files
      | some file => collectFiles root names (files ++ [file])

def listedNames (stdout : Bytes) : List (List Char) :=
  (Text.split (Text.decode stdout) [Text.nul]).filter (! ·.isEmpty)

def listRepository (cwdInput : List Char) : Except AppError (AbsPath × List (List Char)) := do
  let cwd ← host.resolve cwdInput
  let rootResult ← host.runGit cwd ["rev-parse", "--show-toplevel"]
  if rootResult.exitCode ≠ 0 then
    throw (.policy "Code query requires a Git repository.")
  let discoveredRoot := Text.trim (Text.decode rootResult.stdout)
  if discoveredRoot.isEmpty then
    throw (.policy "Code query could not determine the repository root.")
  let root ← host.resolve discoveredRoot
  let listResult ← host.runGit root
    ["ls-files", "-z", "--cached", "--others", "--exclude-standard"]
  if listResult.exitCode ≠ 0 then
    throw (.policy "Code query could not enumerate repository files.")
  return (root, listedNames listResult.stdout)

def repository (cwdInput : List Char) : Except AppError (AbsPath × List CandidateFile) := do
  let (root, names) ← listRepository host cwdInput
  return (root, collectFiles host root names [])

/-! ## Reading -/

structure ReadTextResult where
  bytes : Bytes
  text : List Char
  sha256 : List Char

def readText (path : AbsPath) : Except Errno (Option ReadTextResult) := do
  let info ← host.lstat path
  if ! info.isFile || info.isSymbolicLink || info.size > host.maxReadBytes then
    return none
  let content ← host.content path
  -- the buffer has room for one more byte than the file had
  let bytes := content.take (info.size + 1)
  if bytes.length > info.size then
    return none
  if bytes.contains 0 then
    return none
  let text := Text.decode bytes
  if text.contains '\uFFFD' then
    return none
  return some { bytes, text, sha256 := host.sha256 bytes }

def readBoundedText (path : AbsPath) : Except Errno (Option ReadTextResult) :=
  match readText host path with
  | .error .ENOENT => .ok none
  | result => result

/-! ## Requests -/

structure CodeSearchOptions where
  regex : Bool
  caseSensitive : Bool
  glob : Option (List Char)
  contextLines : Option ℚ

def validateMaxResults (value : Option ℚ) : Except AppError ℕ :=
  let resolved := value.getD defaultMaxResults
  if ! resolved.isInt || resolved < 1 || resolved > maxResultCount then
    .error (.policy "Code query maxResults must be between 1 and 200.")
  else .ok resolved.num.toNat

def validateContextLines (value : Option ℚ) : Except AppError ℕ :=
  let resolved := value.getD 0
  if ! resolved.isInt || resolved < 0 || resolved > maxContextLines then
    .error (.policy "Code query contextLines must be between 0 and 5.")
  else .ok resolved.num.toNat

def validateQuery (query : List Char) : Except AppError (List Char) :=
  if query.isEmpty || Text.length query > maxQueryChars || query.contains Text.nul then
    .error (.policy "Code query text must contain 1-4096 non-NUL characters.")
  else .ok query

/-- `text.indexOf(search)`; nothing stands for `-1`. -/
def indexOf (text search : List Char) : Option ℕ :=
  (Text.splitFirst search text).map fun parts => Text.length parts.1

/-- The column of a match in a line, counted from zero. -/
def lineMatcher (query : List Char) (regex caseSensitive : Bool) :
    Except AppError (List Char → Option ℕ) :=
  if regex then
    match host.newRegExp query (! caseSensitive) with
    | .error message => .error (.policy ("Invalid regular expression: " ++ message))
    | .ok exec => .ok exec
  else if caseSensitive then .ok fun line => indexOf line query
  else
    let normalized := host.unicode.toLowerCase query
    .ok fun line => indexOf (host.unicode.toLowerCase line) normalized

def previewLine (line : List Char) : List Char :=
  if Text.length line ≤ maxPreviewChars then line
  else Text.slice (maxPreviewChars - 3) line ++ ['.', '.', '.']

/-! ## The search -/

structure CodeQuerySearchResult where
  path : List Char
  line : ℕ
  column : ℕ
  preview : List Char
  sha256 : List Char
  /-- The lines before and after, if any are asked for. -/
  context : Option (List (List Char) × List (List Char))
deriving DecidableEq

structure SearchState where
  results : List CodeQuerySearchResult
  scannedFiles : ℕ
  bytesScanned : ℕ
  truncated : Bool

structure Query where
  matcher : List Char → Option ℕ
  maxResults : ℕ
  contextLines : ℕ

variable (query : Query)

def resultAt (file : CandidateFile) (read : ReadTextResult) (lines : List (List Char))
    (lineIndex columnIndex : ℕ) (lineText : List Char) : CodeQuerySearchResult where
  path := file.relativePath
  line := lineIndex + 1
  column := columnIndex + 1
  preview := previewLine lineText
  sha256 := read.sha256
  context :=
    if query.contextLines > 0 then
      some (((lines.take lineIndex).drop (lineIndex - query.contextLines)).map previewLine,
        ((lines.drop (lineIndex + 1)).take query.contextLines).map previewLine)
    else none

def searchLines (file : CandidateFile) (read : ReadTextResult) (lines : List (List Char)) :
    ℕ → List (List Char) → SearchState → ForInStep SearchState
  | _, [], state => .yield state
  | lineIndex, lineText :: rest, state =>
    match query.matcher lineText with
    | none => searchLines file read lines (lineIndex + 1) rest state
    | some columnIndex =>
      if state.results.length ≥ query.maxResults then .done { state with truncated := true }
      else
        searchLines file read lines (lineIndex + 1) rest
          { state with
            results := state.results ++
              [resultAt query file read lines lineIndex columnIndex lineText] }

def searchReads : List (CandidateFile × Option ReadTextResult) → SearchState →
    ForInStep SearchState
  | [], state => .yield state
  | (_, none) :: reads, state => searchReads reads state
  | (file, some read) :: reads, state =>
    if state.bytesScanned + read.bytes.length > maxScanBytes then
      .done { state with truncated := true }
    else
      let lines := Text.splitLines read.text
      match searchLines query file read lines 0 lines
          { state with
            scannedFiles := state.scannedFiles + 1
            bytesScanned := state.bytesScanned + read.bytes.length } with
      | .done state => .done state
      | .yield state => searchReads reads state

def searchBatches : List (List CandidateFile) → SearchState → Except Errno SearchState
  | [], state => .ok state
  | batch :: batches, state => do
    let reads ← batch.mapM fun file => readBoundedText host file.absolutePath
    match searchReads query (batch.zip reads) state with
    | .done state => return state
    | .yield state => searchBatches batches state

/-- The slices of the candidates, at most as many as the first argument says. -/
def batchesOf : ℕ → List CandidateFile → List (List CandidateFile)
  | 0, _ => []
  | fuel + 1, candidates =>
    if candidates.isEmpty then []
    else candidates.take searchReadConcurrency ::
      batchesOf fuel (candidates.drop searchReadConcurrency)

structure CodeQueryResponse where
  repositoryRoot : List Char
  results : List CodeQuerySearchResult
  truncated : Bool
  scannedFiles : ℕ
  bytesScanned : ℕ
deriving DecidableEq

def searchFiles (root : AbsPath) (files candidates : List CandidateFile) :
    Except Errno CodeQueryResponse := do
  let state ← searchBatches host query (batchesOf candidates.length candidates)
    { results := [], scannedFiles := 0, bytesScanned := 0,
      truncated := files.length ≥ maxScanFiles }
  return {
    repositoryRoot := host.display root
    results := state.results
    truncated := state.truncated
    scannedFiles := state.scannedFiles
    bytesScanned := state.bytesScanned }

def globUnits (text : List Char) : List Glob.CodeUnit :=
  text.flatMap fun c => (Text.codeUnits c).map UInt16.ofNat

def includePath (glob : Option (List Char)) : Except Glob.GlobError (List Char → Bool) :=
  match glob with
  | none => .ok fun _ => true
  | some pattern =>
    (Glob.compileGlob (globUnits pattern)).map fun test path => test (globUnits path)

def validateRequest (queryInput : List Char) (maxResultsInput : Option ℚ)
    (options : CodeSearchOptions) : Except Glob.GlobError (Query × (List Char → Bool)) := do
  let text ← (validateQuery queryInput).mapError .app
  let maxResults ← (validateMaxResults maxResultsInput).mapError .app
  let contextLines ← (validateContextLines options.contextLines).mapError .app
  let matcher ← (lineMatcher host text options.regex options.caseSensitive).mapError .app
  let included ← includePath options.glob
  return ({ matcher, maxResults, contextLines }, included)

def search (queryInput cwdInput : List Char) (maxResultsInput : Option ℚ)
    (options : CodeSearchOptions) : Except Glob.GlobError CodeQueryResponse := do
  let (query, included) ← validateRequest host queryInput maxResultsInput options
  let (root, files) ← (repository host cwdInput).mapError .app
  (searchFiles host query root files
    (files.filter fun file => included file.relativePath)).mapError fun code => .app (.errno code)

end CodeQueryService
