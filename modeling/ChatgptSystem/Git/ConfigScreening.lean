import ChatgptSystem.Core.SortedTexts
import ChatgptSystem.Core.Unicode
import ChatgptSystem.Foundations.Trace
import ChatgptSystem.Git.GitService

/-!
# Screening the configuration of a repository

A repository may set configuration that makes Git run a command. Before each Git command the
service lists the configuration and refuses to work if the repository sets such a variable.

* `isCommandCapableConfigKey`, `commandCapableConfigKeys`, `assertRepositoryAuthority` — the
  screening, as `GitService` does it;
* `ConfigEntry`, `listing` — the entries of a configuration and how Git lists them;
* `ConfigScreening.finds_offending` — the screening finds the entries that offend and no others.
-/

open Interleaving
open Text (nul)

/-! ## The screening -/

def leaseWritableConfigScopes : List String := ["local", "worktree"]

def commandCapableConfigSections : List String := ["alias", "pager"]

def commandCapableConfigVariables : List (String × List String) := [
  ("browser", ["cmd", "path"]),
  ("core", ["alternaterefscommand", "askpass", "editor", "fsmonitor", "gitproxy", "hookspath",
    "pager", "sshcommand"]),
  ("credential", ["helper"]),
  ("diff", ["command", "external", "textconv"]),
  ("filter", ["clean", "process", "smudge"]),
  ("gpg", ["program"]),
  ("init", ["templatedir"]),
  ("interactive", ["difffilter"]),
  ("merge", ["driver"]),
  ("protocol", ["command"]),
  ("remote", ["receivepack", "uploadpack"]),
  ("sequence", ["editor"]),
  ("trailer", ["command"]),
  ("uploadpack", ["packobjectshook"]),
  ("web", ["browser"])]

/-- Whether a variable of a section, both in lower case, makes Git run a command. -/
def isCommandCapable (sectionName variableName : List Char) : Bool :=
  commandCapableConfigSections.contains (String.ofList sectionName) ||
    ((commandCapableConfigVariables.lookup (String.ofList sectionName)).getD []).contains
      (String.ofList variableName)

section Screening

variable (unicode : CharacterDatabase)

def isCommandCapableConfigKey (key : List Char) : Bool :=
  let segments := Text.split key ['.']
  if segments.length < 2 then false
  else isCommandCapable (unicode.toLowerCase (segments.head?.getD []))
    (unicode.toLowerCase (segments.getLast?.getD []))

/-- The loop over the records, two at a time: the scope and the key with its value. -/
def offendingKeys : List (List Char) → List (List Char)
  | scopeName :: record :: records =>
    if !leaseWritableConfigScopes.contains (String.ofList scopeName) then offendingKeys records
    else
      let key := (Text.split record ['\n']).head?.getD []
      if isCommandCapableConfigKey unicode key then key :: offendingKeys records
      else offendingKeys records
  | _ => []

def commandCapableConfigKeys (listing : List Char) : List (List Char) :=
  Text.sortedSet (offendingKeys unicode (Text.split listing [nul]))

end Screening

/-- What `assertRepositoryAuthority` asks its environment. -/
inductive ScreeningOp where
  /-- `git rev-parse --show-toplevel` -/
  | showToplevel
  /-- `this.policy.resolve(repositoryRoot)` -/
  | resolve (repositoryRoot : List Char)
  /-- `git config --list --show-scope --null` -/
  | configList

/-- A command cannot be run to its end, or ends with a result; a path is refused or allowed. -/
abbrev ScreeningOp.Res : ScreeningOp → Type
  | .showToplevel => Except AppError GitResult
  | .resolve _ => Except AppError Unit
  | .configList => Except AppError GitResult

abbrev ScreeningM (α : Type) : Type := Program ScreeningOp ScreeningOp.Res AppError α

def assertRepositoryAuthority (unicode : CharacterDatabase) : ScreeningM Unit := do
  let toplevel ← .request .showToplevel Program.ofExcept
  let repositoryRoot := Text.trim toplevel.stdout
  if toplevel.exitCode ≠ 0 || repositoryRoot.isEmpty then
    throw (.policy "Git operations require a repository inside an allowed root.")
  else
    .request (.resolve repositoryRoot) Program.ofExcept
    let listed ← .request .configList Program.ofExcept
    if listed.exitCode ≠ 0 then
      throw (.policy
        "Git repository configuration could not be inspected for command-capable settings.")
    else if 0 < (commandCapableConfigKeys unicode listed.stdout).length then
      throw (.policy ("Git repository configuration can run external commands; remove these " ++
        "repository-scoped settings before using Git tools."))
    else pure ()

/-! ## Configuration entries -/

inductive ConfigScope where
  | system
  | global
  /-- The configuration of the repository. -/
  | repository
  | worktree
  | command
  | submodule
  | unknown
  deriving DecidableEq

def ConfigScope.name : ConfigScope → String
  | .system => "system"
  | .global => "global"
  | .repository => "local"
  | .worktree => "worktree"
  | .command => "command"
  | .submodule => "submodule"
  | .unknown => "unknown"

/-- The characters of sections and variables: letters, digits and hyphens. -/
def isConfigNameChar (c : Char) : Bool := GitService.isAlphanumeric c || c = '-'

/-- The key of an entry. A subsection is any text of one line. -/
structure ConfigKey where
  sectionName : List Char
  subsection : Option (List Char)
  variableName : List Char
  legal_section : ∀ c ∈ sectionName, isConfigNameChar c = true
  legal_subsection : ∀ text ∈ subsection, nul ∉ text ∧ '\n' ∉ text
  legal_variable : ∀ c ∈ variableName, isConfigNameChar c = true

/-- `section.subsection.variable` -/
def ConfigKey.text (key : ConfigKey) : List Char :=
  match key.subsection with
  | none => key.sectionName ++ '.' :: key.variableName
  | some name => key.sectionName ++ '.' :: (name ++ '.' :: key.variableName)

/-- An entry of a configuration. A variable may stand without a value. -/
structure ConfigEntry where
  scope : ConfigScope
  key : ConfigKey
  value : Option (List Char)
  legal_value : ∀ text ∈ value, nul ∉ text

namespace ConfigEntry

def record (entry : ConfigEntry) : List Char :=
  match entry.value with
  | none => entry.key.text
  | some text => entry.key.text ++ '\n' :: text

/-- The repository sets a variable that makes Git run a command. Git takes sections and variables
in any case. -/
def Offends (entry : ConfigEntry) : Prop :=
  (entry.scope = .repository ∨ entry.scope = .worktree) ∧
    isCommandCapable (entry.key.sectionName.map Char.toLower)
      (entry.key.variableName.map Char.toLower) = true

instance (entry : ConfigEntry) : Decidable entry.Offends :=
  inferInstanceAs (Decidable (_ ∧ _))

end ConfigEntry

/-- What `git config --list --show-scope --null` prints. -/
def listing (entries : List ConfigEntry) : List Char :=
  entries.flatMap fun entry => entry.scope.name.toList ++ nul :: (entry.record ++ [nul])

namespace ConfigScreening

/-! ## Keys -/

theorem toNat_lt_of_isConfigNameChar {c : Char} (h : isConfigNameChar c = true) :
    c.toNat < 128 ∧ c ≠ '.' ∧ c ≠ '\n' ∧ c ≠ nul := by
  have hle : ∀ a b : Char, a ≤ b ↔ a.toNat ≤ b.toNat := fun _ _ => Iff.rfl
  have hbounds : 'A'.toNat = 65 ∧ 'Z'.toNat = 90 ∧ 'a'.toNat = 97 ∧ 'z'.toNat = 122 ∧
      '0'.toNat = 48 ∧ '9'.toNat = 57 := by decide
  simp only [isConfigNameChar, GitService.isAlphanumeric, Bool.or_eq_true, Bool.and_eq_true,
    decide_eq_true_eq, hle] at h
  rcases h with h | rfl
  · refine ⟨by omega, ?_, ?_, ?_⟩ <;> rintro rfl <;> revert h <;> decide
  · decide

variable {unicode : CharacterDatabase}

theorem toLowerCase_of_ascii
    (hascii : ∀ c : Char, c.toNat < 128 → unicode.lowercase c = [c.toLower])
    {text : List Char} (h : ∀ c ∈ text, c.toNat < 128) :
    unicode.toLowerCase text = text.map Char.toLower := by
  have hfrom : ∀ before, unicode.lowerFrom before text = text.map Char.toLower := by
    induction text with
    | nil => exact fun _ => rfl
    | cons c text ih =>
      intro before
      have hc := h c List.mem_cons_self
      have hsigma : ¬ (c = '\u03A3' ∧ unicode.casedNext before ∧ ¬ unicode.casedNext text) := by
        rintro ⟨rfl, -⟩
        exact absurd hc (by decide)
      rw [CharacterDatabase.lowerFrom, if_neg hsigma, hascii c hc,
        ih fun c hmem => h c (List.mem_cons_of_mem _ hmem)]
      rfl
  exact hfrom []

theorem split_key (key : ConfigKey) : ∃ segments, Text.split key.text ['.'] =
    key.sectionName :: segments ∧ segments.getLast? = some key.variableName := by
  have hsection : '.' ∉ key.sectionName := fun h =>
    (toNat_lt_of_isConfigNameChar (key.legal_section _ h)).2.1 rfl
  have hvariable : '.' ∉ key.variableName := fun h =>
    (toNat_lt_of_isConfigNameChar (key.legal_variable _ h)).2.1 rfl
  unfold ConfigKey.text
  split
  next => exact ⟨_, Text.split_line hsection _, by rw [Text.split_of_notMem hvariable]; rfl⟩
  next name _ => exact ⟨_, Text.split_line hsection _, Text.getLast?_split_append hvariable name⟩

theorem isCommandCapableConfigKey_text
    (hascii : ∀ c : Char, c.toNat < 128 → unicode.lowercase c = [c.toLower]) (key : ConfigKey) :
    isCommandCapableConfigKey unicode key.text =
      isCommandCapable (key.sectionName.map Char.toLower) (key.variableName.map Char.toLower) := by
  obtain ⟨segments, hsplit, hlast⟩ := split_key key
  have hne : segments ≠ [] := by
    rintro rfl
    cases hlast
  have hlength : ¬ (key.sectionName :: segments).length < 2 := by
    have := List.length_pos_iff.mpr hne
    simp only [List.length_cons]
    omega
  have hgetLast : (key.sectionName :: segments).getLast? = some key.variableName := by
    rw [List.getLast?_cons, hlast]
    rfl
  unfold isCommandCapableConfigKey
  simp only [hsplit, if_neg hlength, hgetLast, List.head?_cons, Option.getD_some]
  rw [toLowerCase_of_ascii hascii fun c hc => (toNat_lt_of_isConfigNameChar
      (key.legal_section c hc)).1,
    toLowerCase_of_ascii hascii fun c hc => (toNat_lt_of_isConfigNameChar
      (key.legal_variable c hc)).1]

theorem key_line (key : ConfigKey) : nul ∉ key.text ∧ '\n' ∉ key.text := by
  have hsection : nul ∉ key.sectionName ∧ '\n' ∉ key.sectionName :=
    ⟨fun h => (toNat_lt_of_isConfigNameChar (key.legal_section _ h)).2.2.2 rfl,
      fun h => (toNat_lt_of_isConfigNameChar (key.legal_section _ h)).2.2.1 rfl⟩
  have hvariable : nul ∉ key.variableName ∧ '\n' ∉ key.variableName :=
    ⟨fun h => (toNat_lt_of_isConfigNameChar (key.legal_variable _ h)).2.2.2 rfl,
      fun h => (toNat_lt_of_isConfigNameChar (key.legal_variable _ h)).2.2.1 rfl⟩
  have hdot : nul ≠ '.' ∧ '\n' ≠ '.' := by decide
  unfold ConfigKey.text
  split
  next => simp [hsection, hvariable, hdot]
  next name hname => simp [hsection, hvariable, hdot, key.legal_subsection name hname]

/-! ## Listings -/

theorem record_line (entry : ConfigEntry) : nul ∉ entry.record ∧
    (Text.split entry.record ['\n']).head?.getD [] = entry.key.text := by
  obtain ⟨hnul, hnewline⟩ := key_line entry.key
  unfold ConfigEntry.record
  split
  next => exact ⟨hnul, by rw [Text.split_of_notMem hnewline]; rfl⟩
  next text htext =>
    have hdiffers : nul ≠ '\n' := by decide
    exact ⟨by simp [hnul, hdiffers, entry.legal_value text htext],
      by rw [Text.split_line hnewline]; rfl⟩

theorem split_listing (entries : List ConfigEntry) : Text.split (listing entries) [nul] =
    (entries.flatMap fun entry => [entry.scope.name.toList, entry.record]) ++ [[]] := by
  rw [← Text.split_pieces]
  · congr 1
    simp [listing, List.flatMap_assoc]
  · intro piece hpiece
    obtain ⟨entry, -, hmem⟩ := List.mem_flatMap.mp hpiece
    rcases List.mem_pair.mp hmem with rfl | rfl
    · cases entry.scope <;> decide
    · exact (record_line entry).1

theorem writable_iff (scope : ConfigScope) :
    leaseWritableConfigScopes.contains (String.ofList scope.name.toList) = true ↔
      scope = .repository ∨ scope = .worktree := by
  cases scope <;> decide

theorem offendingKeys_listing
    (hascii : ∀ c : Char, c.toNat < 128 → unicode.lowercase c = [c.toLower])
    (entries : List ConfigEntry) :
    offendingKeys unicode
        ((entries.flatMap fun entry => [entry.scope.name.toList, entry.record]) ++ [[]]) =
      (entries.filter fun entry => entry.Offends).map fun entry => entry.key.text := by
  induction entries with
  | nil => rfl
  | cons entry entries ih =>
    rw [List.flatMap_cons, List.append_assoc]
    simp only [List.cons_append, List.nil_append, offendingKeys, ih, (record_line entry).2,
      isCommandCapableConfigKey_text hascii]
    have hwritable := writable_iff entry.scope
    by_cases hscope : entry.scope = .repository ∨ entry.scope = .worktree
    · rw [hwritable.mpr hscope]
      by_cases hcapable : isCommandCapable (entry.key.sectionName.map Char.toLower)
          (entry.key.variableName.map Char.toLower) = true
      · have hoffends : entry.Offends := ⟨hscope, hcapable⟩
        simp [hcapable, hoffends]
      · have hoffends : ¬ entry.Offends := fun h => hcapable h.2
        simp [hcapable, hoffends]
    · have hoffends : ¬ entry.Offends := fun h => hscope h.1
      rw [Bool.eq_false_of_not_eq_true (mt hwritable.mp hscope)]
      simp [hoffends]

/-! ## The screening finds what offends -/

theorem configList_of_holds {trace : List (Event ScreeningOp ScreeningOp.Res)}
    (h : (assertRepositoryAuthority unicode).Runs trace (.ok ())) :
    ∃ listed : GitResult, ⟨.configList, .ok listed⟩ ∈ trace ∧ listed.exitCode = 0 ∧
      commandCapableConfigKeys unicode listed.stdout = [] := by
  rcases h.of_bind with ⟨e, -, hno⟩ | ⟨toplevel, _, _, -, hresolve, rfl⟩
  · cases hno
  dsimp only at hresolve
  split at hresolve
  next => cases hresolve
  next =>
    rcases hresolve.of_bind with ⟨e, -, hno⟩ | ⟨_, _, _, -, hlist, rfl⟩
    · cases hno
    rcases hlist.of_bind with ⟨e, -, hno⟩ | ⟨listed, _, _, hlisted, hkeys, rfl⟩
    · cases hno
    obtain ⟨r, _, rfl, hr⟩ := hlisted.of_request
    obtain ⟨rfl, heq⟩ := hr.of_ofExcept
    obtain rfl : r = .ok listed := heq.symm
    split at hkeys
    next => cases hkeys
    next hexit =>
      split at hkeys
      next => cases hkeys
      next hnone => exact ⟨listed, by simp, by simpa using hexit, by simpa using hnone⟩

/-- The screening finds the keys of the entries that offend and no others, whatever the values
are, and a repository with such an entry is refused. -/
theorem finds_offending
    (hascii : ∀ c : Char, c.toNat < 128 → unicode.lowercase c = [c.toLower])
    (entries : List ConfigEntry) :
    Text.IsSortedSet (commandCapableConfigKeys unicode (listing entries))
        ((entries.filter fun entry => entry.Offends).map fun entry => entry.key.text) ∧
      ∀ trace outcome, (assertRepositoryAuthority unicode).Runs trace outcome →
        (∀ listed : GitResult, ⟨.configList, .ok listed⟩ ∈ trace → listed.exitCode = 0 →
          listed.stdout = listing entries) →
        (∃ entry ∈ entries, entry.Offends) → ∃ e, outcome = .error e := by
  have hkeys : Text.IsSortedSet (commandCapableConfigKeys unicode (listing entries))
      ((entries.filter fun entry => entry.Offends).map fun entry => entry.key.text) := by
    rw [commandCapableConfigKeys, split_listing, offendingKeys_listing hascii]
    exact Text.isSortedSet_sortedSet _
  refine ⟨hkeys, fun trace outcome hruns hlisting ⟨entry, hentry, hoffends⟩ => ?_⟩
  cases outcome with
  | error e => exact ⟨e, rfl⟩
  | ok =>
    obtain ⟨listed, hmem, hexit, hnone⟩ := configList_of_holds hruns
    rw [hlisting listed hmem hexit] at hnone
    have hfound := (hkeys.mem_iff entry.key.text).mpr
      (List.mem_map.mpr ⟨entry, List.mem_filter.mpr ⟨hentry, by simpa using hoffends⟩, rfl⟩)
    rw [hnone] at hfound
    cases hfound

/-! An editor of the repository stands between an editor of the user and a value with lines. -/

def exampleLetters : CharacterDatabase where
  decomposition c := [c]
  combiningClass _ := 0
  primaryComposite _ _ := none
  lowercase c := [c.toLower]
  cased _ := false
  caseIgnorable _ := false

def exampleKey (sectionName variableName : String)
    (h : ∀ c ∈ sectionName.toList ++ variableName.toList, isConfigNameChar c = true) :
    ConfigKey where
  sectionName := sectionName.toList
  subsection := none
  variableName := variableName.toList
  legal_section c hc := h c (List.mem_append_left _ hc)
  legal_subsection _ htext := nomatch htext
  legal_variable c hc := h c (List.mem_append_right _ hc)

def exampleEntries : List ConfigEntry := [
  ⟨.global, exampleKey "core" "editor" (by decide), some "vi".toList, by decide⟩,
  ⟨.repository, exampleKey "user" "name" (by decide), some "a\nlocal\nalias.x".toList, by decide⟩,
  ⟨.repository, exampleKey "Core" "Editor" (by decide), none, by decide⟩]

def exampleAnswer : (o : ScreeningOp) → o.Res
  | .showToplevel => .ok ⟨0, "/Users/owner/project\n".toList⟩
  | .resolve _ => .ok ()
  | .configList => .ok ⟨0, listing exampleEntries⟩

theorem finds_offending_editor :
    Text.IsSortedSet (commandCapableConfigKeys exampleLetters (listing exampleEntries))
        ["Core.Editor".toList] ∧
      ∃ trace e, (assertRepositoryAuthority exampleLetters).Runs trace (.error e) := by
  have hascii : ∀ c : Char, c.toNat < 128 → exampleLetters.lowercase c = [c.toLower] :=
    fun _ _ => rfl
  obtain ⟨hkeys, hrefused⟩ := finds_offending hascii exampleEntries
  refine ⟨hkeys, ?_⟩
  have hleads := Program.leads_answered exampleAnswer 3 (assertRepositoryAuthority exampleLetters)
  obtain ⟨outcome, houtcome⟩ : ∃ outcome, (Program.answered exampleAnswer 3
      (assertRepositoryAuthority exampleLetters)).2.outcome? = some outcome :=
    ⟨_, rfl⟩
  have hruns := hleads.runs_of_outcome houtcome
  have hlisting : ∀ listed : GitResult, ⟨.configList, .ok listed⟩ ∈ (Program.answered
      exampleAnswer 3 (assertRepositoryAuthority exampleLetters)).1 →
      listed.exitCode = 0 → listed.stdout = listing exampleEntries := by
    intro listed hlisted _
    have hanswer := Program.answer_of_mem_answered hlisted
    cases hanswer
    rfl
  obtain ⟨e, rfl⟩ := hrefused _ _ hruns hlisting
    ⟨_, List.mem_cons_of_mem _ (List.mem_cons_of_mem _ List.mem_cons_self), by decide⟩
  exact ⟨_, e, hruns⟩

end ConfigScreening
