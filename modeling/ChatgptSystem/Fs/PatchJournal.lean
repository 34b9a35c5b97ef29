import ChatgptSystem.Core.JsonParser
import ChatgptSystem.Core.Paths
import ChatgptSystem.Core.Utf8
import Mathlib.Data.Option.Basic

/-!
# The journal of a patch set

What `writeJournal` writes and what `recoverOne` reads (`fs/patch-set-service.ts`).

* `PatchJournal.serialize`, `PatchJournal.read` — the text of a journal, and `JSON.parse` with the
  test `journalShape`;
* `PatchJournal.Valid` — the counts and the digests that the test asks for;
* `read_serialize_iff` — exactly the valid journals are read back, as they have been written.

A journal names files by absolute paths. A path that is not normalised is read as the path it
resolves to.
-/

def MAX_PATCH_COUNT : ℕ := 100
def JOURNAL_VERSION : ℤ := 1

inductive JournalState where
  | prepared
  | committing
  | committed
  deriving DecidableEq

structure JournalEntry where
  target : AbsPath
  displayPath : String
  temp : AbsPath
  backup : AbsPath
  originalSha256 : String
  newSha256 : String
  mode : ℤ

structure PatchJournal where
  transactionId : String
  scopeFingerprint : String
  state : JournalState
  createdAt : String
  entries : List JournalEntry

def JournalState.toText : JournalState → String
  | .prepared => "prepared"
  | .committing => "committing"
  | .committed => "committed"

def JournalEntry.toJson (entry : JournalEntry) : Json :=
  .object
    [("target", .string (String.ofList (Paths.text entry.target))),
     ("displayPath", .string entry.displayPath),
     ("temp", .string (String.ofList (Paths.text entry.temp))),
     ("backup", .string (String.ofList (Paths.text entry.backup))),
     ("originalSha256", .string entry.originalSha256), ("newSha256", .string entry.newSha256),
     ("mode", .number entry.mode)]

namespace PatchJournal

def toJson (journal : PatchJournal) : Json :=
  .object
    [("version", .number JOURNAL_VERSION), ("transactionId", .string journal.transactionId),
     ("scopeFingerprint", .string journal.scopeFingerprint),
     ("state", .string journal.state.toText), ("createdAt", .string journal.createdAt),
     ("entries", .array (journal.entries.map JournalEntry.toJson))]

/-- `JSON.stringify(journal, null, 2)` and a line end. -/
def serialize (journal : PatchJournal) : Bytes := Text.encode (journal.toJson.stringify 0 ++ ['\n'])

def textOf (value : Json) (name : String) : Option String := (value.property? name).bind Json.text?

def integerOf (value : Json) (name : String) : Option ℤ :=
  match value.property? name with
  | some (.number n) => some n
  | _ => none

/-- `/^[a-f0-9]{64}$/`. -/
def isSha256 (text : String) : Bool := Text.matchesHex 64 64 false text.toList

def pathOf (value : Json) (name : String) : Option AbsPath :=
  (textOf value name).map fun text => Paths.resolve [] (Paths.parse text)

def stateOf : String → Option JournalState
  | "prepared" => some .prepared
  | "committing" => some .committing
  | "committed" => some .committed
  | _ => none

/-- The test of an entry in `journalShape`, with the entry. -/
def entryShape (value : Json) : Option JournalEntry := do
  let target ← pathOf value "target"
  let displayPath ← textOf value "displayPath"
  let temp ← pathOf value "temp"
  let backup ← pathOf value "backup"
  let originalSha256 ← (textOf value "originalSha256").filter isSha256
  let newSha256 ← (textOf value "newSha256").filter isSha256
  let mode ← integerOf value "mode"
  pure { target, displayPath, temp, backup, originalSha256, newSha256, mode }

/-- The value as a journal, if it has the shape of one. -/
def journalShape (value : Json) : Option PatchJournal := do
  guard (integerOf value "version" = some JOURNAL_VERSION)
  let transactionId ← textOf value "transactionId"
  let scopeFingerprint ← textOf value "scopeFingerprint"
  let state ← (textOf value "state").bind stateOf
  let createdAt ← textOf value "createdAt"
  let items ← (value.property? "entries").bind Json.items?
  guard (1 ≤ items.length ∧ items.length ≤ MAX_PATCH_COUNT)
  let entries ← items.mapM entryShape
  pure { transactionId, scopeFingerprint, state, createdAt, entries }

/-- What the text of a journal file stands for. -/
def read (bytes : Bytes) : Option PatchJournal := (Json.parse (Text.decode bytes)).bind journalShape

/-- The counts and digests that are asked for. -/
structure Valid (journal : PatchJournal) : Prop where
  count : 1 ≤ journal.entries.length ∧ journal.entries.length ≤ MAX_PATCH_COUNT
  hashes : ∀ entry ∈ journal.entries, isSha256 entry.originalSha256 ∧ isSha256 entry.newSha256

variable {journal : PatchJournal}

theorem parse_serialize (journal : PatchJournal) :
    Json.parse (Text.decode journal.serialize) = some journal.toJson := by
  rw [serialize, Text.decode_encode]
  exact Json.parse_stringify _ _ (by decide)

theorem stateOf_toText (state : JournalState) : stateOf state.toText = some state := by
  cases state <;> rfl

theorem pathOf_text {value : Json} {name : String} {path : AbsPath}
    (h : textOf value name = some (String.ofList (Paths.text path))) :
    pathOf value name = some path := by
  rw [pathOf, h, Option.map_some, Paths.resolve_text]

theorem filter_isSha256 {text : String} (h : isSha256 text) :
    (some text).filter isSha256 = some text := by
  rw [Option.filter_some, if_pos h]

theorem entryShape_toJson {entry : JournalEntry} (horiginal : isSha256 entry.originalSha256)
    (hnew : isSha256 entry.newSha256) : entryShape entry.toJson = some entry := by
  have hfirst : (textOf entry.toJson "originalSha256").filter isSha256 =
      some entry.originalSha256 := filter_isSha256 horiginal
  have hsecond : (textOf entry.toJson "newSha256").filter isSha256 = some entry.newSha256 :=
    filter_isSha256 hnew
  have hdisplay : textOf entry.toJson "displayPath" = some entry.displayPath := rfl
  have hmode : integerOf entry.toJson "mode" = some entry.mode := rfl
  have htarget : pathOf entry.toJson "target" = some entry.target := pathOf_text rfl
  have htemp : pathOf entry.toJson "temp" = some entry.temp := pathOf_text rfl
  have hbackup : pathOf entry.toJson "backup" = some entry.backup := pathOf_text rfl
  rw [entryShape, htarget, hdisplay, htemp, hbackup, hfirst, hsecond, hmode]
  rfl

theorem mapM_entryShape {entries : List JournalEntry}
    (h : ∀ entry ∈ entries, isSha256 entry.originalSha256 ∧ isSha256 entry.newSha256) :
    (entries.map JournalEntry.toJson).mapM entryShape = some entries := by
  induction entries with
  | nil => rfl
  | cons entry entries ih =>
    obtain ⟨⟨horiginal, hnew⟩, hrest⟩ := List.forall_mem_cons.mp h
    rw [List.map_cons, List.mapM_cons, entryShape_toJson horiginal hnew, ih hrest]
    rfl

theorem journalShape_toJson (h : journal.Valid) : journalShape journal.toJson = some journal := by
  have hstate : (textOf journal.toJson "state").bind stateOf = some journal.state :=
    stateOf_toText journal.state
  have hitems : (journal.toJson.property? "entries").bind Json.items? =
      some (journal.entries.map JournalEntry.toJson) := rfl
  have hcount := h.count
  rw [← List.length_map (f := JournalEntry.toJson)] at hcount
  have hversion : integerOf journal.toJson "version" = some JOURNAL_VERSION := rfl
  simp only [journalShape, hversion, hstate, hitems, Option.bind_eq_bind, Option.bind_some, guard,
    if_pos hcount, mapM_entryShape h.hashes]
  rfl

theorem isSha256_of_entryShape {value : Json} {entry : JournalEntry}
    (h : entryShape value = some entry) :
    isSha256 entry.originalSha256 ∧ isSha256 entry.newSha256 := by
  simp only [entryShape, Option.bind_eq_bind, Option.bind_eq_some_iff, Option.filter_eq_some_iff] at h
  obtain ⟨_, -, _, -, _, -, _, -, _, ⟨-, horiginal⟩, _, ⟨-, hnew⟩, _, -, h⟩ := h
  obtain rfl := Option.some.inj h
  exact ⟨horiginal, hnew⟩

theorem hashes_of_mapM {items : List Json} {entries : List JournalEntry}
    (h : items.mapM entryShape = some entries) : items.length = entries.length ∧
      ∀ entry ∈ entries, isSha256 entry.originalSha256 ∧ isSha256 entry.newSha256 := by
  induction items generalizing entries with
  | nil =>
    obtain rfl := Option.some.inj h
    exact ⟨rfl, nofun⟩
  | cons item items ih =>
    rw [List.mapM_cons] at h
    simp only [Option.bind_eq_bind, Option.bind_eq_some_iff] at h
    obtain ⟨entry, hentry, rest, hrest, h⟩ := h
    obtain rfl := Option.some.inj h
    obtain ⟨hlength, hall⟩ := ih hrest
    exact ⟨congrArg (· + 1) hlength,
      List.forall_mem_cons.mpr ⟨isSha256_of_entryShape hentry, hall⟩⟩

/-- What passes the test is valid. -/
theorem valid_of_journalShape {value : Json} (h : journalShape value = some journal) :
    journal.Valid := by
  simp only [journalShape, Option.bind_eq_bind, Option.bind_eq_some_iff] at h
  obtain ⟨-, -, _, -, _, -, _, -, _, -, items, -, _, hcount, entries, hentries, h⟩ := h
  obtain rfl := Option.some.inj h
  obtain ⟨hlength, hhashes⟩ := hashes_of_mapM hentries
  by_cases hbounds : 1 ≤ items.length ∧ items.length ≤ MAX_PATCH_COUNT
  · exact ⟨hlength ▸ hbounds, hhashes⟩
  · simp only [guard, if_neg hbounds] at hcount
    cases hcount

theorem read_serialize (h : journal.Valid) : read journal.serialize = some journal := by
  rw [read, parse_serialize]
  exact journalShape_toJson h

/-- Exactly the valid journals are read back as they have been written, and only such journals are
read at all. -/
theorem read_serialize_iff (journal : PatchJournal) :
    (read journal.serialize = some journal ↔ journal.Valid) ∧
      ∀ bytes, read bytes = some journal → read journal.serialize = some journal := by
  have hvalid : ∀ bytes, read bytes = some journal → journal.Valid := fun bytes hread => by
    obtain ⟨value, -, hshape⟩ := Option.bind_eq_some_iff.mp hread
    exact valid_of_journalShape hshape
  exact ⟨⟨hvalid _, read_serialize⟩, fun bytes hread => read_serialize (hvalid bytes hread)⟩

end PatchJournal
