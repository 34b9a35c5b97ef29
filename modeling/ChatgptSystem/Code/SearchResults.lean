import ChatgptSystem.Code.CodeQueryService
import ChatgptSystem.Core.Occurrences
import ChatgptSystem.Foundations.Budget

/-!
# What a code search reports

The response of a search against the files Git lists. A listing may name a file more than once,
as it does for a path with unresolved conflicts.

* `Outcome` — the three ways in which the loops of the search end;
* `Scan.Correct` — the first matching lines, each once, the truncation flag and the columns;
* `Scan.correct_iff` — when a response is correct.
-/

namespace CodeQueryService

open Budget

abbrev TextFile := CandidateFile × ReadTextResult

def TextFile.byteLength (t : TextFile) : ℕ := t.2.bytes.length

variable {host : Host} {query : Query}

/-! ## Files -/

theorem collectFiles_eq {root : AbsPath} {names : List (List Char)} {files : List CandidateFile}
    (h : files.length ≤ maxScanFiles) : collectFiles host root names files =
      (files ++ names.filterMap (candidate host root)).take maxScanFiles := by
  induction names generalizing files with
  | nil => rw [collectFiles, List.filterMap_nil, List.append_nil, List.take_of_length_le h]
  | cons name names ih =>
    rw [collectFiles]
    split
    next hfull => rw [List.take_append_of_le_length hfull, List.take_of_length_le h]
    next hroom =>
      cases hcandidate : candidate host root name with
      | none => rw [List.filterMap_cons_none hcandidate, ih h]
      | some file =>
        have hlength : (files ++ [file]).length ≤ maxScanFiles := by
          rw [List.length_append, List.length_singleton]
          omega
        dsimp only
        rw [List.filterMap_cons_some hcandidate, ih hlength, List.append_assoc,
          List.singleton_append]

theorem flatten_batchesOf {fuel : ℕ} {candidates : List CandidateFile}
    (h : candidates.length ≤ fuel) : (batchesOf fuel candidates).flatten = candidates := by
  induction fuel generalizing candidates with
  | zero => rw [List.eq_nil_of_length_eq_zero (Nat.le_zero.mp h)]; rfl
  | succ fuel ih =>
    rw [batchesOf]
    split
    next hempty => rw [List.isEmpty_iff.mp hempty, List.flatten_nil]
    next hne =>
      have hpositive : candidates.length ≠ 0 := by simpa using hne
      have hsize : searchReadConcurrency = 16 := rfl
      rw [List.flatten_cons, ih (by rw [List.length_drop]; omega), List.take_append_drop]

def textOf (host : Host) (file : CandidateFile) : Option TextFile :=
  match readBoundedText host file.absolutePath with
  | .ok (some read) => some (file, read)
  | _ => none

def readFiles (reads : List (CandidateFile × Option ReadTextResult)) : List TextFile :=
  reads.filterMap fun pair => pair.2.map fun read => (pair.1, read)

theorem readFiles_zip {batch : List CandidateFile} {reads : List (Option ReadTextResult)}
    (h : (batch.mapM fun file => readBoundedText host file.absolutePath) = .ok reads) :
    readFiles (batch.zip reads) = batch.filterMap (textOf host) := by
  induction batch generalizing reads with
  | nil => rfl
  | cons file batch ih =>
    rw [List.mapM_cons] at h
    obtain ⟨read, hread, h⟩ := Except.bind_eq_ok h
    obtain ⟨rest, hrest, h⟩ := Except.bind_eq_ok h
    obtain rfl := Except.ok.inj h
    have htail := ih hrest
    cases read with
    | none =>
      have hnone : textOf host file = none := by simp [textOf, hread]
      rw [List.filterMap_cons_none hnone, ← htail]
      rfl
    | some read =>
      have hsome : textOf host file = some (file, read) := by simp [textOf, hread]
      rw [List.filterMap_cons_some hsome, ← htail]
      rfl

/-! ## The loops -/

def resultsFrom (query : Query) (file : CandidateFile) (read : ReadTextResult)
    (lines : List (List Char)) : ℕ → List (List Char) → List CodeQuerySearchResult
  | _, [] => []
  | lineIndex, lineText :: rest =>
    match query.matcher lineText with
    | none => resultsFrom query file read lines (lineIndex + 1) rest
    | some columnIndex =>
      resultAt query file read lines lineIndex columnIndex lineText ::
        resultsFrom query file read lines (lineIndex + 1) rest

def fileResults (query : Query) (t : TextFile) : List CodeQuerySearchResult :=
  resultsFrom query t.1 t.2 (Text.splitLines t.2.text) 0 (Text.splitLines t.2.text)

theorem searchLines_eq {file : CandidateFile} {read : ReadTextResult}
    {lines rest : List (List Char)} {lineIndex : ℕ} {state : SearchState}
    (h : state.results.length ≤ query.maxResults) :
    searchLines query file read lines lineIndex rest state =
      let found := state.results ++ resultsFrom query file read lines lineIndex rest
      if found.length ≤ query.maxResults then .yield { state with results := found }
      else .done { state with results := found.take query.maxResults, truncated := true } := by
  induction rest generalizing lineIndex state with
  | nil => simp [searchLines, resultsFrom, h]
  | cons lineText rest ih =>
    rw [searchLines, resultsFrom]
    cases query.matcher lineText with
    | none => exact ih h
    | some columnIndex =>
      dsimp only
      split
      next hfull =>
        have hlength : state.results.length = query.maxResults := Nat.le_antisymm h hfull
        rw [if_neg (by simp [hlength]), List.take_left' hlength]
      next hroom =>
        rw [ih (by simp; omega)]
        simp only [List.append_assoc, List.singleton_append]

structure Scanned (query : Query) (full : Bool) (done : List TextFile) (state : SearchState) :
    Prop where
  results : state.results = done.flatMap (fileResults query)
  room : (done.flatMap (fileResults query)).length ≤ query.maxResults
  files : state.scannedFiles = done.length
  bytes : state.bytesScanned = total TextFile.byteLength done
  budget : total TextFile.byteLength done ≤ maxScanBytes
  truncated : state.truncated = full

/-- How the search of some files ends: with the last of them, before a file that exceeds the
budget, or in a file with a matching line too many. -/
inductive Outcome (query : Query) (full : Bool) (all : List TextFile) (state : SearchState) : Prop
  | complete (h : Scanned query full all state)
  | noBudget {done rest : List TextFile} {t : TextFile} (hall : all = done ++ t :: rest)
      (h : Scanned query full done { state with truncated := full })
      (hover : maxScanBytes < total TextFile.byteLength done + t.byteLength)
      (htruncated : state.truncated = true)
  | noRoom {done rest : List TextFile} {t : TextFile} (hall : all = done ++ t :: rest)
      (hroom : (done.flatMap (fileResults query)).length ≤ query.maxResults)
      (hbudget : total TextFile.byteLength (done ++ [t]) ≤ maxScanBytes)
      (hover : query.maxResults < ((done ++ [t]).flatMap (fileResults query)).length)
      (hresults : state.results =
        ((done ++ [t]).flatMap (fileResults query)).take query.maxResults)
      (hfiles : state.scannedFiles = done.length + 1) (htruncated : state.truncated = true)

/-- What a loop leads to: the files up to here have been read, or the search has ended, whatever
files follow. -/
def Progress (query : Query) (full : Bool) (all : List TextFile) : ForInStep SearchState → Prop
  | .yield state => Scanned query full all state
  | .done state => ∀ more, Outcome query full (all ++ more) state

theorem searchReads_spec {full : Bool} {done : List TextFile} {state : SearchState}
    (reads : List (CandidateFile × Option ReadTextResult)) (h : Scanned query full done state) :
    Progress query full (done ++ readFiles reads) (searchReads query reads state) := by
  induction reads generalizing done state with
  | nil => simpa [searchReads, readFiles, Progress] using h
  | cons pair reads ih =>
    obtain ⟨file, read⟩ := pair
    cases read with
    | none => exact ih h
    | some read =>
      have hsplit : done ++ readFiles ((file, some read) :: reads) =
          done ++ (file, read) :: readFiles reads := rfl
      rw [searchReads, hsplit]
      by_cases hover : maxScanBytes < state.bytesScanned + read.bytes.length
      · rw [if_pos hover]
        intro more
        refine .noBudget (List.append_assoc _ _ _) { h with truncated := rfl } ?_ rfl
        rw [← h.bytes]
        exact hover
      · rw [if_neg hover]
        have hbudget : total TextFile.byteLength (done ++ [(file, read)]) ≤ maxScanBytes := by
          rw [h.bytes] at hover
          simpa [TextFile.byteLength] using hover
        have hfound : state.results ++ resultsFrom query file read (Text.splitLines read.text) 0
            (Text.splitLines read.text) = (done ++ [(file, read)]).flatMap (fileResults query) := by
          rw [h.results, List.flatMap_append, List.flatMap_singleton]
          rfl
        dsimp only
        rw [searchLines_eq (by rw [h.results]; exact h.room), hfound]
        by_cases hroom : ((done ++ [(file, read)]).flatMap (fileResults query)).length ≤
            query.maxResults
        · simp only [if_pos hroom]
          rw [← List.singleton_append, ← List.append_assoc]
          refine ih ⟨rfl, hroom, ?_, ?_, hbudget, h.truncated⟩
          · rw [h.files, List.length_append, List.length_singleton]
          · simp [h.bytes, TextFile.byteLength]
        · simp only [if_neg hroom]
          intro more
          exact .noRoom (List.append_assoc _ _ _) h.room hbudget (Nat.lt_of_not_le hroom) rfl
            (congrArg (· + 1) h.files) rfl

theorem searchBatches_spec {full : Bool} {done : List TextFile} {state last : SearchState}
    {batches : List (List CandidateFile)} (h : Scanned query full done state)
    (hlast : searchBatches host query batches state = .ok last) :
    Outcome query full (done ++ batches.flatten.filterMap (textOf host)) last := by
  induction batches generalizing done state with
  | nil =>
    obtain rfl := Except.ok.inj hlast
    simpa using Outcome.complete h
  | cons batch batches ih =>
    obtain ⟨reads, hreads, hlast⟩ := Except.bind_eq_ok hlast
    have hstep := searchReads_spec (batch.zip reads) h
    rw [readFiles_zip hreads] at hstep
    rw [List.flatten_cons, List.filterMap_append, ← List.append_assoc]
    cases hsearch : searchReads query (batch.zip reads) state with
    | yield next =>
      rw [hsearch] at hlast hstep
      exact ih hstep hlast
    | done last' =>
      rw [hsearch] at hlast hstep
      obtain rfl := Except.ok.inj hlast
      exact hstep _

/-! ## What the outcome says -/

def withinBytes (all : List TextFile) : List TextFile :=
  within TextFile.byteLength maxScanBytes all

/-- The files whose lines are looked at: the last of them has the first matching line too many. -/
def reached (found : TextFile → ℕ) (maxResults : ℕ) (all : List TextFile) : List TextFile :=
  (withinBytes all).take ((within found maxResults (withinBytes all)).length + 1)

namespace Outcome

variable {full : Bool} {all : List TextFile} {state : SearchState}

theorem total_results (l : List TextFile) :
    total (fun t => (fileResults query t).length) l = (l.flatMap (fileResults query)).length := by
  simp [total, List.length_flatMap]

theorem results_eq (h : Outcome query full all state) : state.results =
    ((withinBytes all).flatMap (fileResults query)).take query.maxResults := by
  cases h with
  | complete h =>
    rw [withinBytes, within_eq_self h.budget, h.results, List.take_of_length_le h.room]
  | noBudget hall h hover _ =>
    have hresults : state.results = _ := h.results
    rw [withinBytes, hall, within_eq_of_lt h.budget hover, hresults, List.take_of_length_le h.room]
  | @noRoom done rest t hall _ hbudget hover hresults _ _ =>
    rw [withinBytes, hall, ← List.singleton_append, ← List.append_assoc, within_append hbudget,
      List.flatMap_append, List.take_append_of_le_length hover.le, hresults]

theorem truncated_iff (h : Outcome query full all state) : state.truncated = true ↔
    full = true ∨ withinBytes all ≠ all ∨
      query.maxResults < ((withinBytes all).flatMap (fileResults query)).length := by
  cases h with
  | complete h =>
    rw [withinBytes, within_eq_self h.budget, h.truncated]
    simp only [ne_eq, not_true_eq_false, Nat.not_lt.mpr h.room, or_false]
  | @noBudget done rest t hall h hover htruncated =>
    rw [withinBytes, hall, within_eq_of_lt h.budget hover]
    simp [htruncated]
  | @noRoom done rest t hall _ hbudget hover _ _ htruncated =>
    rw [withinBytes, hall, ← List.singleton_append, ← List.append_assoc, within_append hbudget,
      List.flatMap_append, List.length_append]
    exact iff_of_true htruncated (.inr (.inr (by omega)))

theorem take_scannedFiles (h : Outcome query full all state) :
    all.take state.scannedFiles =
      reached (fun t => (fileResults query t).length) query.maxResults all := by
  cases h with
  | complete h =>
    have hroom := (total_results all).trans_le h.room
    rw [reached, withinBytes, within_eq_self h.budget, within_eq_self hroom, h.files,
      List.take_length, List.take_of_length_le (Nat.le_succ _)]
  | @noBudget done rest t hall h hover _ =>
    have hroom := (total_results done).trans_le h.room
    have hfiles : state.scannedFiles = done.length := h.files
    rw [reached, withinBytes, hall, within_eq_of_lt h.budget hover, within_eq_self hroom, hfiles,
      List.take_left, List.take_of_length_le (Nat.le_succ _)]
  | @noRoom done rest t hall hroom hbudget hover _ hfiles _ =>
    have hdone := (total_results done).trans_le hroom
    have hlast : query.maxResults <
        total (fun t => (fileResults query t).length) done + (fileResults query t).length := by
      rw [total_results]
      simpa using hover
    have hwithin : withinBytes all = done ++ t :: within TextFile.byteLength
        (maxScanBytes - total TextFile.byteLength (done ++ [t])) rest := by
      rw [withinBytes, hall, ← List.singleton_append, ← List.append_assoc, within_append hbudget,
        List.append_assoc, List.singleton_append]
    rw [reached, hwithin, within_eq_of_lt hdone hlast, hfiles, hall]
    simp [List.take_append]

end Outcome

/-! ## Correct responses -/

structure Scan where
  host : Host
  root : AbsPath
  /-- The listing. -/
  names : List (List Char)
  text : List Char
  options : CodeSearchOptions
  maxResults : ℕ
  included : List Char → Bool

def scanOf (host : Host) (queryInput cwdInput : List Char) (maxResultsInput : Option ℚ)
    (options : CodeSearchOptions) : Except Glob.GlobError Scan := do
  let text ← (validateQuery queryInput).mapError .app
  let maxResults ← (validateMaxResults maxResultsInput).mapError .app
  let included ← includePath options.glob
  let (root, names) ← (listRepository host cwdInput).mapError .app
  return { host, root, names, text, options, maxResults, included }

namespace Scan

variable (scan : Scan)

def listed : List CandidateFile := scan.names.filterMap (candidate scan.host scan.root)

/-- The files of some entries that are looked for and can be read. -/
def textsOf (files : List CandidateFile) : List TextFile :=
  (files.filter fun file => scan.included file.relativePath).filterMap (textOf scan.host)

def eligible : List TextFile := scan.textsOf scan.listed

/-- The eligible files among the entries that the search considers. -/
def offered : List TextFile := scan.textsOf (scan.listed.take maxScanFiles)

def isMatch (line : List Char) : Bool :=
  if scan.options.regex then
    match scan.host.newRegExp scan.text (! scan.options.caseSensitive) with
    | .ok exec => (exec line).isSome
    | .error _ => false
  else if scan.options.caseSensitive then Text.includes line scan.text
  else
    Text.includes (scan.host.unicode.toLowerCase line) (scan.host.unicode.toLowerCase scan.text)

def places (t : TextFile) : List (List Char × ℕ) :=
  (((Text.splitLines t.2.text).zipIdx 1).filter fun pair => scan.isMatch pair.1).map fun pair =>
    (t.1.relativePath, pair.2)

/-- The lines of the files within the limits that match, in the order of the listing. -/
def found : List (List Char × ℕ) := (withinBytes scan.offered).flatMap scan.places

def IsLine (place : List Char × ℕ) (line : List Char) : Prop :=
  ∃ t ∈ scan.eligible, t.1.relativePath = place.1 ∧
    (Text.splitLines t.2.text)[place.2 - 1]? = some line

/-- The literal query stands behind the first part of a line, up to case unless case counts. -/
def StandsAfter (before rest : List Char) : Prop :=
  if scan.options.caseSensitive then scan.text <+: rest
  else scan.host.unicode.toLowerCase scan.text <+: scan.host.unicode.lowerFrom before.reverse rest

/-- What is left out of a response: a file, or a line that matches. -/
def LeftOut (searched : List TextFile) (reported : List (List Char × ℕ)) : Prop :=
  ∃ t ∈ scan.eligible, t.1.relativePath ∉ searched.map (·.1.relativePath) ∨
    ∃ place ∈ scan.places t, place ∉ reported

def place (result : CodeQuerySearchResult) : List Char × ℕ := (result.path, result.line)

/-- The response has the first lines that match, each of them once; it says that it is truncated
exactly if a file or a line is left out; its columns are positions of the literal query. -/
structure Correct (response : CodeQueryResponse) : Prop where
  first : response.results.map place = scan.found.eraseDups.take scan.maxResults
  once : (response.results.map place).Nodup
  truncated : response.truncated = true ↔
    scan.LeftOut (scan.offered.take response.scannedFiles) (response.results.map place)
  columns : scan.options.regex = false → ∀ result ∈ response.results, ∀ line,
    scan.IsLine (place result) line → ∃ before rest, line = before ++ rest ∧
      Text.length before = result.column - 1 ∧ scan.StandsAfter before rest

/-! ## Listings that are searched correctly -/

/-- A path that is listed again has no line that matches, or comes after enough other lines. -/
def Fresh : Prop :=
  ∀ before t after, withinBytes scan.offered = before ++ t :: after →
    t.1.relativePath ∈ before.map (·.1.relativePath) →
      scan.places t = [] ∨ scan.maxResults ≤ (before.flatMap scan.places).length

/-- A limit is reached: of entries that are kept, of bytes or of lines that match, where lines of
a path that is listed again count again. -/
def LimitReached : Prop :=
  maxScanFiles ≤ scan.listed.length ∨ withinBytes scan.offered ≠ scan.offered ∨
    scan.maxResults < scan.found.length

/-- Where a limit is reached, there is a file that has not been reached yet or a line that has
not been reported. -/
def Beyond : Prop :=
  scan.LimitReached → scan.LeftOut
    (reached (fun t => (scan.places t).length) scan.maxResults scan.offered)
    (scan.found.take scan.maxResults)

/-- The lower-case mapping of a character is one character of the same length. Of the characters
of Unicode, only the capital letter I with a dot above is not steady. -/
def Steady (c : Char) : Prop :=
  ∃ d, scan.host.unicode.lowercase c = [d] ∧
    (Text.codeUnits d).length = (Text.codeUnits c).length

/-- When case does not count, the literal query stands in each line that is reported behind
steady characters only. -/
def SteadyLines : Prop :=
  scan.options.regex = false → scan.options.caseSensitive = false →
    ∀ place ∈ scan.found.take scan.maxResults, ∀ line, scan.IsLine place line →
      ∃ before rest, line = before ++ rest ∧ (∀ c ∈ before, scan.Steady c) ∧
        scan.StandsAfter before rest

/-! ## What the search does with a listing -/

theorem mapError_eq_ok {ε ε' α : Type} {f : ε → ε'} {x : Except ε α} {a : α}
    (h : x.mapError f = .ok a) : x = .ok a := by
  cases x with
  | error e => exact absurd h nofun
  | ok a' => exact congrArg Except.ok (Except.ok.inj h)

variable {scan} {queryInput cwdInput : List Char} {maxResultsInput : Option ℚ}
  {options : CodeSearchOptions} {response : CodeQueryResponse}

theorem outcome_of_search
    (hscan : scanOf host queryInput cwdInput maxResultsInput options = .ok scan)
    (hsearch : search host queryInput cwdInput maxResultsInput options = .ok response) :
    ∃ query state, query.maxResults = scan.maxResults ∧
      lineMatcher scan.host scan.text scan.options.regex scan.options.caseSensitive =
        .ok query.matcher ∧
      Outcome query (decide (maxScanFiles ≤ scan.listed.length)) scan.offered state ∧
      response.results = state.results ∧ response.truncated = state.truncated ∧
      response.scannedFiles = state.scannedFiles := by
  obtain ⟨text, htext, hscan⟩ := Except.bind_eq_ok hscan
  obtain ⟨maxResults, hmax, hscan⟩ := Except.bind_eq_ok hscan
  obtain ⟨included, hincluded, hscan⟩ := Except.bind_eq_ok hscan
  obtain ⟨⟨root, names⟩, hlist, hscan⟩ := Except.bind_eq_ok hscan
  obtain rfl := Except.ok.inj hscan
  obtain ⟨⟨query, included'⟩, hrequest, hsearch⟩ := Except.bind_eq_ok hsearch
  obtain ⟨⟨root', files⟩, hrepository, hsearch⟩ := Except.bind_eq_ok hsearch
  obtain ⟨text', htext', hrequest⟩ := Except.bind_eq_ok hrequest
  obtain rfl := Except.ok.inj (htext.symm.trans htext')
  obtain ⟨maxResults', hmax', hrequest⟩ := Except.bind_eq_ok hrequest
  obtain rfl := Except.ok.inj (hmax.symm.trans hmax')
  obtain ⟨contextLines, -, hrequest⟩ := Except.bind_eq_ok hrequest
  obtain ⟨matcher, hmatcher, hrequest⟩ := Except.bind_eq_ok hrequest
  obtain ⟨included'', hincluded', hrequest⟩ := Except.bind_eq_ok hrequest
  obtain rfl := Except.ok.inj (hincluded.symm.trans hincluded')
  obtain ⟨rfl, rfl⟩ := Prod.mk.inj (Except.ok.inj hrequest)
  obtain ⟨⟨root'', names'⟩, hlist', hfiles⟩ := Except.bind_eq_ok (mapError_eq_ok hrepository)
  obtain ⟨rfl, rfl⟩ := Prod.mk.inj
    (Except.ok.inj ((mapError_eq_ok hlist).symm.trans hlist'))
  obtain ⟨rfl, rfl⟩ := Prod.mk.inj (Except.ok.inj hfiles)
  obtain ⟨state, hstate, hresponse⟩ := Except.bind_eq_ok (mapError_eq_ok hsearch)
  obtain rfl := Except.ok.inj hresponse
  refine ⟨⟨matcher, maxResults, contextLines⟩, state, rfl, mapError_eq_ok hmatcher, ?_, rfl, rfl,
    rfl⟩
  have hcollect : collectFiles host root names [] =
      (names.filterMap (candidate host root)).take maxScanFiles :=
    collectFiles_eq (Nat.zero_le _)
  have hfull : (collectFiles host root names []).length ≥ maxScanFiles ↔
      maxScanFiles ≤ (names.filterMap (candidate host root)).length := by
    rw [hcollect, List.length_take]
    exact ⟨fun h => h.trans (Nat.min_le_right _ _), fun h => Nat.le_min.mpr ⟨le_rfl, h⟩⟩
  rw [decide_eq_decide.mpr hfull, hcollect] at hstate
  have hinitial : Scanned ⟨matcher, maxResults, contextLines⟩
      (decide (maxScanFiles ≤ (names.filterMap (candidate host root)).length)) []
      ⟨[], 0, 0, decide (maxScanFiles ≤ (names.filterMap (candidate host root)).length)⟩ :=
    { results := rfl, room := Nat.zero_le _, files := rfl, bytes := rfl,
      budget := Nat.zero_le _, truncated := rfl }
  have houtcome := searchBatches_spec hinitial hstate
  rw [flatten_batchesOf le_rfl] at houtcome
  exact houtcome

/-! ## Files of the listing -/

variable {t : TextFile}

theorem textOf_eq_some {file : CandidateFile} (h : textOf host file = some t) : t.1 = file := by
  unfold textOf at h
  split at h
  · rw [← Option.some.inj h]
  · exact absurd h nofun

theorem candidate_eq_some {root : AbsPath} {name : List Char} {file : CandidateFile}
    (h : candidate host root name = some file) : file = ⟨resolvePath root name, name⟩ := by
  unfold candidate at h
  split at h
  · exact absurd h nofun
  · split at h
    · exact absurd h nofun
    · exact (Option.some.inj h).symm

theorem mem_eligible (h : t ∈ scan.eligible) :
    t.1 ∈ scan.listed ∧ textOf scan.host t.1 = some t := by
  obtain ⟨file, hfile, htext⟩ := List.mem_filterMap.mp h
  rw [textOf_eq_some htext]
  exact ⟨List.mem_of_mem_filter hfile, htext⟩

theorem sublist_eligible : scan.offered.Sublist scan.eligible :=
  ((List.take_sublist _ _).filter _).filterMap _

theorem mem_eligible_of_within (h : t ∈ withinBytes scan.offered) : t ∈ scan.eligible :=
  sublist_eligible.subset ((isPrefix_within _ _ _).subset h)

theorem eq_of_path_eq {t' : TextFile} (h : t ∈ scan.eligible) (h' : t' ∈ scan.eligible)
    (hpath : t.1.relativePath = t'.1.relativePath) : t = t' := by
  obtain ⟨hlisted, htext⟩ := mem_eligible h
  obtain ⟨hlisted', htext'⟩ := mem_eligible h'
  obtain ⟨name, -, hname⟩ := List.mem_filterMap.mp hlisted
  obtain ⟨name', -, hname'⟩ := List.mem_filterMap.mp hlisted'
  rw [candidate_eq_some hname, candidate_eq_some hname'] at hpath
  obtain rfl : name = name' := hpath
  rw [Option.some.inj (hname.symm.trans hname')] at htext
  exact Option.some.inj (htext.symm.trans htext')

/-! ## Lines that match -/

section

variable (hmatcher : lineMatcher scan.host scan.text scan.options.regex
  scan.options.caseSensitive = .ok query.matcher)

include hmatcher

theorem isMatch_eq (line : List Char) : scan.isMatch line = (query.matcher line).isSome := by
  unfold lineMatcher at hmatcher
  unfold isMatch
  cases hregex : scan.options.regex with
  | true =>
    rw [hregex] at hmatcher
    cases hexec : scan.host.newRegExp scan.text (! scan.options.caseSensitive) with
    | error message => simp [hexec] at hmatcher
    | ok exec =>
      rw [hexec] at hmatcher
      obtain rfl := Except.ok.inj hmatcher
      rfl
  | false =>
    rw [hregex] at hmatcher
    cases hcase : scan.options.caseSensitive with
    | true =>
      rw [hcase] at hmatcher
      rw [← Except.ok.inj hmatcher]
      simp [indexOf, Text.includes]
    | false =>
      rw [hcase] at hmatcher
      rw [← Except.ok.inj hmatcher]
      simp [indexOf, Text.includes]

theorem map_place_fileResults (t : TextFile) : (fileResults query t).map place = scan.places t := by
  suffices h : ∀ lines i rest, (resultsFrom query t.1 t.2 lines i rest).map place =
      ((rest.zipIdx (i + 1)).filter fun pair => scan.isMatch pair.1).map fun pair =>
        (t.1.relativePath, pair.2) from h _ _ _
  intro lines i rest
  induction rest generalizing i with
  | nil => rfl
  | cons line rest ih =>
    have hmatch := isMatch_eq hmatcher line
    rw [resultsFrom, List.zipIdx_cons]
    cases hcolumn : query.matcher line with
    | none =>
      rw [hcolumn] at hmatch
      rw [List.filter_cons_of_neg (by simp [hmatch])]
      exact ih (i + 1)
    | some column =>
      rw [hcolumn] at hmatch
      rw [List.filter_cons_of_pos (by simp [hmatch])]
      exact congrArg (_ :: ·) (ih (i + 1))

end

theorem mem_fileResults {result : CodeQuerySearchResult} (h : result ∈ fileResults query t) :
    ∃ i line column,
      (Text.splitLines t.2.text)[i]? = some line ∧ query.matcher line = some column ∧
        place result = (t.1.relativePath, i + 1) ∧ result.column = column + 1 := by
  suffices hfrom : ∀ lines i rest, result ∈ resultsFrom query t.1 t.2 lines i rest →
      ∃ k line column, rest[k]? = some line ∧ query.matcher line = some column ∧
        place result = (t.1.relativePath, i + k + 1) ∧ result.column = column + 1 by
    obtain ⟨k, line, column, hline, hcolumn, hplace, hresult⟩ := hfrom _ _ _ h
    exact ⟨k, line, column, hline, hcolumn, by rw [hplace, Nat.zero_add], hresult⟩
  intro lines i rest hmem
  induction rest generalizing i with
  | nil => exact absurd hmem List.not_mem_nil
  | cons line rest ih =>
    rw [resultsFrom] at hmem
    cases hmatch : query.matcher line with
    | none =>
      rw [hmatch] at hmem
      obtain ⟨k, line', column, hline, hcolumn, hplace, hresult⟩ := ih (i + 1) hmem
      exact ⟨k + 1, line', column, hline, hcolumn, by rw [hplace]; congr 2; omega, hresult⟩
    | some column =>
      rw [hmatch] at hmem
      rcases List.mem_cons.mp hmem with rfl | hmem
      · exact ⟨0, line, column, rfl, hmatch, rfl, rfl⟩
      · obtain ⟨k, line', column', hline, hcolumn, hplace, hresult⟩ := ih (i + 1) hmem
        exact ⟨k + 1, line', column', hline, hcolumn, by rw [hplace]; congr 2; omega, hresult⟩

theorem path_of_mem_places {p : List Char × ℕ} (h : p ∈ scan.places t) :
    p.1 = t.1.relativePath := by
  obtain ⟨pair, -, rfl⟩ := List.mem_map.mp h
  rfl

theorem nodup_places (t : TextFile) : (scan.places t).Nodup := by
  refine List.Nodup.of_map Prod.snd ?_
  have hnumbers : (((Text.splitLines t.2.text).zipIdx 1).map Prod.snd).Nodup := by
    rw [List.zipIdx_map_snd]
    exact List.nodup_range' _
  rw [places, List.map_map]
  exact hnumbers.sublist (List.filter_sublist.map _)

/-- A search that returns, in terms of the listing. -/
structure Describes (scan : Scan) (query : Query) (response : CodeQueryResponse) : Prop where
  matcher : lineMatcher scan.host scan.text scan.options.regex scan.options.caseSensitive =
    .ok query.matcher
  results : response.results =
    ((withinBytes scan.offered).flatMap (fileResults query)).take scan.maxResults
  places : response.results.map place = scan.found.take scan.maxResults
  truncated : response.truncated = true ↔ scan.LimitReached
  searched : scan.offered.take response.scannedFiles =
    reached (fun t => (scan.places t).length) scan.maxResults scan.offered

theorem describes_of_search
    (hscan : scanOf host queryInput cwdInput maxResultsInput options = .ok scan)
    (hsearch : search host queryInput cwdInput maxResultsInput options = .ok response) :
    ∃ query, Describes scan query response := by
  obtain ⟨query, state, hmax, hmatcher, houtcome, hresults, htruncated, hfiles⟩ :=
    outcome_of_search hscan hsearch
  have hfound : ((withinBytes scan.offered).flatMap (fileResults query)).map place =
      scan.found := by
    rw [List.map_flatMap]
    exact congrArg (List.flatMap · _) (funext fun t => map_place_fileResults hmatcher t)
  have hlength : (fun t => (fileResults query t).length) = fun t => (scan.places t).length := by
    funext t
    rw [← map_place_fileResults hmatcher t, List.length_map]
  have hall := houtcome.results_eq
  rw [hmax, ← hresults] at hall
  refine ⟨query, hmatcher, hall, ?_, ?_, ?_⟩
  · rw [hall, List.map_take, hfound]
  · rw [htruncated, houtcome.truncated_iff, hmax, LimitReached, ← hfound, List.length_map,
      decide_eq_true_iff]
  · rw [hfiles, houtcome.take_scannedFiles, hlength, hmax]

theorem lowerFrom_steady {text : List Char} (h : ∀ c ∈ text, scan.Steady c)
    (context rest : List Char) : ∃ lowered,
      scan.host.unicode.lowerFrom context (text ++ rest) =
        lowered ++ scan.host.unicode.lowerFrom (text.reverse ++ context) rest ∧
      lowered.length = text.length ∧ Text.length lowered = Text.length text := by
  induction text generalizing context with
  | nil => exact ⟨[], rfl, rfl, rfl⟩
  | cons c text ih =>
    obtain ⟨lowered, hlowered, hlength, hunits⟩ :=
      ih (fun d hd => h d (List.mem_cons_of_mem _ hd)) (c :: context)
    -- a sigma at the end of a word is as long as any other
    obtain ⟨d, hd, hsame⟩ : ∃ d, (if c = '\u03A3' ∧ scan.host.unicode.casedNext context ∧
        ¬ scan.host.unicode.casedNext (text ++ rest) then ['\u03C2']
        else scan.host.unicode.lowercase c) = [d] ∧
          (Text.codeUnits d).length = (Text.codeUnits c).length := by
      split
      next hsigma => exact ⟨_, rfl, hsigma.1 ▸ rfl⟩
      next => exact h c List.mem_cons_self
    refine ⟨d :: lowered, ?_, congrArg (· + 1) hlength, ?_⟩
    · rw [List.cons_append, CharacterDatabase.lowerFrom, hd, hlowered, List.reverse_cons,
        List.append_assoc, List.singleton_append]
      rfl
    · unfold Text.length at hunits ⊢
      rw [List.flatMap_cons, List.flatMap_cons, List.length_append, List.length_append, hsame,
        hunits]

theorem standsAfter_of_steady {line before rest early late : List Char}
    (hcase : scan.options.caseSensitive = false) (hline : line = before ++ rest)
    (hsteady : ∀ c ∈ before, scan.Steady c) (hstands : scan.StandsAfter before rest)
    (hfirst : Text.splitFirst (scan.host.unicode.toLowerCase scan.text)
      (scan.host.unicode.toLowerCase line) = some (early, late)) :
    ∃ before rest, line = before ++ rest ∧ Text.length before = Text.length early ∧
      scan.StandsAfter before rest := by
  obtain ⟨hsplit, hleast⟩ := Text.splitFirst_eq_some hfirst
  obtain ⟨lowered, hlowered, hlength, -⟩ := lowerFrom_steady hsteady [] rest
  rw [StandsAfter, if_neg (by simp [hcase])] at hstands
  obtain ⟨behind, hbehind⟩ := hstands
  have hearly : early.length ≤ before.length := by
    rw [← hlength]
    refine hleast lowered behind ?_
    rw [hline, CharacterDatabase.toLowerCase, hlowered, List.append_nil, ← hbehind,
      List.append_assoc]
  have htake : (before.take early.length).length = early.length := List.length_take_of_le hearly
  obtain ⟨lowered', hlowered', hlength', hunits⟩ := lowerFrom_steady
    (fun c hc => hsteady c (List.mem_of_mem_take hc)) [] (before.drop early.length ++ rest)
  rw [← List.append_assoc, List.take_append_drop, ← hline, List.append_nil] at hlowered'
  rw [CharacterDatabase.toLowerCase, hlowered', List.append_assoc] at hsplit
  obtain ⟨rfl, hrest⟩ := List.append_inj hsplit (hlength'.trans htake)
  refine ⟨_, before.drop lowered'.length ++ rest, ?_, hunits.symm, ?_⟩
  · rw [← List.append_assoc, List.take_append_drop, hline]
  · rw [StandsAfter, if_neg (by simp [hcase])]
    exact ⟨late, hrest.symm⟩

theorem standsAfter_of_matcher {line : List Char} {column : ℕ}
    (hmatcher : lineMatcher scan.host scan.text scan.options.regex scan.options.caseSensitive =
      .ok query.matcher)
    (hregex : scan.options.regex = false) (hcolumn : query.matcher line = some column)
    (hsteady : scan.options.caseSensitive = false → ∃ before rest, line = before ++ rest ∧
      (∀ c ∈ before, scan.Steady c) ∧ scan.StandsAfter before rest) :
    ∃ before rest, line = before ++ rest ∧ Text.length before = column ∧
      scan.StandsAfter before rest := by
  rw [lineMatcher, hregex, if_neg Bool.false_ne_true] at hmatcher
  cases hcase : scan.options.caseSensitive with
  | true =>
    rw [hcase, if_pos rfl] at hmatcher
    rw [← Except.ok.inj hmatcher] at hcolumn
    obtain ⟨⟨early, late⟩, hfirst, rfl⟩ := Option.map_eq_some_iff.mp hcolumn
    refine ⟨early, scan.text ++ late, ?_, rfl, ?_⟩
    · rw [(Text.splitFirst_eq_some hfirst).1, List.append_assoc]
    · rw [StandsAfter, if_pos hcase]
      exact List.prefix_append _ _
  | false =>
    rw [hcase, if_neg Bool.false_ne_true] at hmatcher
    rw [← Except.ok.inj hmatcher] at hcolumn
    obtain ⟨⟨early, late⟩, hfirst, rfl⟩ := Option.map_eq_some_iff.mp hcolumn
    obtain ⟨before, rest, hline, hbefore, hstands⟩ := hsteady hcase
    exact standsAfter_of_steady hcase hline hbefore hstands hfirst

theorem first_iff_fresh {query : Query} (h : Describes scan query response) :
    response.results.map place = scan.found.eraseDups.take scan.maxResults ↔ scan.Fresh := by
  have hsame : ∀ t ∈ withinBytes scan.offered, ∀ t' ∈ withinBytes scan.offered,
      t.1.relativePath = t'.1.relativePath → scan.places t = scan.places t' :=
    fun t ht t' ht' hpath =>
      congrArg _ (eq_of_path_eq (mem_eligible_of_within ht) (mem_eligible_of_within ht') hpath)
  rw [h.places, take_eraseDups_iff, found]
  refine nodup_take_flatMap_iff scan.maxResults (fun t _ => nodup_places t) hsame ?_
  intro t _ t' _ hpath p hp hp'
  exact hpath ((path_of_mem_places hp).symm.trans (path_of_mem_places hp'))

theorem limitReached_of_leftOut
    (h : scan.LeftOut (reached (fun t => (scan.places t).length) scan.maxResults scan.offered)
      (scan.found.take scan.maxResults)) : scan.LimitReached := by
  by_contra hno
  obtain ⟨hlisted, hno⟩ := not_or.mp hno
  obtain ⟨hbytes, hroom⟩ := not_or.mp hno
  have hoffered : scan.offered = scan.eligible := by
    rw [offered, List.take_of_length_le (by omega)]
    rfl
  have hwithin : withinBytes scan.offered = scan.offered := not_not.mp hbytes
  have htotal : total (fun t => (scan.places t).length) scan.offered ≤ scan.maxResults := by
    rw [found, hwithin] at hroom
    simpa [total, List.length_flatMap] using hroom
  have hreached : reached (fun t => (scan.places t).length) scan.maxResults scan.offered =
      scan.eligible := by
    rw [reached, hwithin, within_eq_self htotal, List.take_of_length_le (Nat.le_succ _), hoffered]
  rw [hreached, List.take_of_length_le (Nat.le_of_not_lt hroom)] at h
  obtain ⟨t, ht, hleft⟩ := h
  rcases hleft with hpath | ⟨p, hp, hreported⟩
  · exact hpath (List.mem_map_of_mem ht)
  · refine hreported (List.mem_flatMap.mpr ⟨t, ?_, hp⟩)
    rw [hwithin, hoffered]
    exact ht

section Example

def dottedLetters : CharacterDatabase where
  decomposition c := [c]
  combiningClass _ := 0
  primaryComposite _ _ := none
  lowercase c := if c = '\u0130' then ['i', '\u0307'] else [c.toLower]
  cased c := c.isAlpha
  caseIgnorable _ := false

/-- A repository at the root directory whose files all have one text. -/
def uniformHost (listing text : List Char) : Host where
  unicode := dottedLetters
  newRegExp _ _ := .error "Invalid group"
  sha256 _ := []
  resolve _ := .ok []
  display _ := ['.']
  runGit _ args :=
    .ok ⟨0, Text.encode (if args.head? = some "rev-parse" then ['/'] else listing)⟩
  lstat _ := .ok ⟨true, false, (Text.encode text).length⟩
  content _ := .ok (Text.encode text)
  maxReadBytes := 1024

def literal : CodeSearchOptions := ⟨false, false, none, none⟩

def uniformScan (listing : List Char) (names : List (List Char)) (text : List Char) : Scan :=
  ⟨uniformHost listing text, [], names, ['X'], literal, 50, fun _ => true⟩

end Example

end Scan

end CodeQueryService
