import ChatgptSystem.Core.Utf8
import ChatgptSystem.Foundations.Lines
import ChatgptSystem.Foundations.Machine
import ChatgptSystem.Foundations.Program
import Mathlib.Data.Rat.Defs

/-!
# The audit log

`AuditLogger` (`core/audit.ts`): records are appended to a file one after another, in the order of
the calls. A file that has no room for the next record takes the place of the rotated file.

* `FileOp`, `perform` — the operations on the two files, each of which may fail;
* `writeRecord`, `rotateIfNeeded` — what one call does when its turn has come;
* `AuditLogger` — the calls, chained by promises, and the files; `AuditLogger.step` — its steps;
* `AuditLogger.Correct` — what the log promises at all times;
* `AuditLogger.correct_of_run` — it is kept in every run.
-/

open Interleaving

namespace Audit

/-! ## The files -/

inductive LogFile where
  | active
  /-- `${file}.1` -/
  | rotated
  deriving DecidableEq

inductive Errno where
  | noEntry
  | failed
  deriving DecidableEq

inductive FileOp where
  | mkdir
  | stat (file : LogFile)
  | rm (file : LogFile)
  | rename (source target : LogFile)
  | appendFile (file : LogFile) (line : Bytes)

abbrev FileOp.Res : FileOp → Type
  | .stat _ => Except Errno ℕ
  | _ => Except Errno Unit

structure Disk where
  files : LogFile → Option Bytes
  appended : List Bytes

namespace Disk

def content (disk : Disk) (file : LogFile) : Bytes := (disk.files file).getD []

def write (disk : Disk) (file : LogFile) (content : Option Bytes) : Disk :=
  { disk with files := Function.update disk.files file content }

def log (disk : Disk) : Bytes := disk.content .rotated ++ disk.content .active

@[simp] theorem content_write_self (disk : Disk) (file : LogFile) (content : Option Bytes) :
    (disk.write file content).content file = content.getD [] := by
  simp [write, Disk.content]

@[simp] theorem content_write_of_ne (disk : Disk) {file other : LogFile} (content : Option Bytes)
    (h : other ≠ file) : (disk.write file content).content other = disk.content other := by
  simp [write, Disk.content, h]

end Disk

/-- A failure of an operation; `applied` if the operation has taken effect all the same. -/
structure Fault where
  applied : Bool
  deriving DecidableEq

/-- What an operation answers and leaves. An append is all or nothing. -/
def perform : Option Fault → (op : FileOp) → Disk → op.Res × Disk
  | none, .mkdir, disk => (.ok (), disk)
  | some _, .mkdir, disk => (.error .failed, disk)
  | none, .stat file, disk =>
    match disk.files file with
    | some content => (.ok content.length, disk)
    | none => (.error .noEntry, disk)
  | some _, .stat _, disk => (.error .failed, disk)
  | none, .rm file, disk => (.ok (), disk.write file none)
  | some fault, .rm file, disk =>
    (.error .failed, if fault.applied then disk.write file none else disk)
  | none, .rename source target, disk =>
    match disk.files source with
    | some content => (.ok (), (disk.write source none).write target (some content))
    | none => (.error .noEntry, disk)
  | some fault, .rename source target, disk =>
    match disk.files source with
    | some content =>
      (.error .failed,
        if fault.applied then (disk.write source none).write target (some content) else disk)
    | none => (.error .failed, disk)
  | none, .appendFile file line, disk =>
    (.ok (), { disk.write file (some (disk.content file ++ line)) with
      appended := disk.appended ++ [line] })
  | some _, .appendFile _ _, disk => (.error .failed, disk)

/-! ## Records -/

inductive Outcome where
  | ok
  | error
  deriving DecidableEq

/-- `AuditEvent`, with metadata of any type. -/
structure AuditEvent (M : Type) where
  action : String
  target : Option String
  outcome : Outcome
  durationMs : ℚ
  metadata : Option M

/-- `{ id, timestamp, ...event }` -/
structure AuditRecord (M : Type) where
  id : String
  timestamp : String
  event : AuditEvent M

/-- A text that `JSON.stringify` gives: its strings have no line breaks. -/
structure JsonLine where
  text : List Char
  oneLine : '\n' ∉ text

namespace JsonLine

def bytes (json : JsonLine) : Bytes := Text.encode json.text

def line (json : JsonLine) : Bytes := Text.encode (json.text ++ ['\n'])

end JsonLine

inductive AuditError where
  | notSerializable
  /-- `Audit record exceeds the configured file byte limit.` -/
  | recordTooLarge
  | file (errno : Errno)
  deriving DecidableEq

abbrev Task : Type → Type := Program FileOp FileOp.Res AuditError

/-- `await` of an operation whose failure is not caught. -/
def awaited : Except Errno Unit → Task Unit
  | .ok () => pure ()
  | .error errno => throw (.file errno)

def knownSize : Except Errno ℕ → Task ℕ
  | .ok size => pure size
  | .error .noEntry => pure 0
  | .error errno => throw (.file errno)

def rotateIfNeeded (maxFileBytes incomingBytes : ℕ) : Task Unit := do
  let currentSize ← knownSize (← Program.perform (.stat .active))
  if currentSize + incomingBytes ≤ maxFileBytes then return
  awaited (← Program.perform (.rm .rotated))
  if 0 < currentSize ∧ currentSize ≤ maxFileBytes then
    awaited (← Program.perform (.rename .active .rotated))
    return
  if maxFileBytes < currentSize then
    awaited (← Program.perform (.rm .active))

/-- `writeRecord`; `JSON.stringify` gives the text of the record or throws. -/
def writeRecord (maxFileBytes : ℕ) (text : Option JsonLine) : Task Unit := do
  match text with
  | none => throw .notSerializable
  | some json =>
    let line := json.line
    let lineBytes := line.length
    if maxFileBytes < lineBytes then throw .recordTooLarge
    awaited (← Program.perform .mkdir)
    rotateIfNeeded maxFileBytes lineBytes
    awaited (← Program.perform (.appendFile .active line))

/-! ## The logger -/

/-- A call of `record` whose turn has come: the text of its record, what is left of it, and whether
one of its operations has failed. -/
structure Operation where
  text : Option JsonLine
  program : Task Unit
  faulty : Bool

structure Call (M : Type) where
  event : AuditEvent M
  operation : Option Operation

namespace Call

variable {M : Type}

def outcome? (call : Call M) : Option (Except AuditError Unit) :=
  call.operation.bind fun operation => operation.program.outcome?

def settled (call : Call M) : Bool := call.outcome?.isSome

def written? (call : Call M) : Option JsonLine :=
  match call.operation with
  | some ⟨text, .pure (), _⟩ => text
  | _ => none

end Call

/-- The calls of `record`, in order, and the files. -/
structure AuditLogger (M : Type) where
  calls : List (Call M)
  disk : Disk

namespace AuditLogger

variable {M : Type}

def initial : AuditLogger M := ⟨[], ⟨fun _ => none, []⟩⟩

def succeeded (s : AuditLogger M) : List JsonLine := s.calls.filterMap Call.written?

inductive Event (M : Type) where
  /-- A call of `record`. -/
  | record (event : AuditEvent M)
  /-- The promise that a call has been chained to is settled. -/
  | start (call : ℕ) (id timestamp : String)
  /-- The next operation of a call, and its failure. -/
  | operate (call : ℕ) (fault : Option Fault)

/-- The call before has settled, whatever its outcome: `writeChain` is
`operation.catch(() => {})`. -/
def ready (s : AuditLogger M) : ℕ → Bool
  | 0 => true
  | previous + 1 => s.calls[previous]?.any Call.settled

def step (maxFileBytes : ℕ) (stringify : AuditRecord M → Option JsonLine) :
    Machine (AuditLogger M) (Event M) := fun s e =>
  match e with
  | .record event => some { s with calls := s.calls ++ [⟨event, none⟩] }
  | .start i id timestamp =>
    match s.calls[i]? with
    | some ⟨event, none⟩ =>
      if s.ready i then
        let text := stringify ⟨id, timestamp, event⟩
        let operation : Operation := ⟨text, writeRecord maxFileBytes text, false⟩
        some { s with calls := s.calls.set i ⟨event, some operation⟩ }
      else none
    | _ => none
  | .operate i fault =>
    match s.calls[i]? with
    | some ⟨event, some ⟨text, .request op rest, faulty⟩⟩ =>
      let answer := perform fault op s.disk
      some ⟨s.calls.set i ⟨event, some ⟨text, rest answer.1, faulty || fault.isSome⟩⟩, answer.2⟩
    | _ => none

end AuditLogger

/-! ## What the files hold -/

variable {maxFileBytes : ℕ} {disk : Disk}

/-- The files hold the last ones of the lines that have been appended. -/
def Disk.Sound (maxFileBytes : ℕ) (disk : Disk) : Prop :=
  (disk.content .active).length ≤ maxFileBytes ∧
    ∃ old recent : List Bytes, disk.content .rotated = old.flatten ∧
      disk.content .active = recent.flatten ∧ old ++ recent <:+ disk.appended

namespace Disk.Sound

theorem removeRotated (h : disk.Sound maxFileBytes) :
    (disk.write .rotated none).Sound maxFileBytes := by
  obtain ⟨hbound, old, recent, -, hrecent, hsuffix⟩ := h
  refine ⟨by simpa using hbound, [], recent, by simp, by simpa using hrecent, ?_⟩
  exact (List.suffix_append old recent).trans hsuffix

theorem rotate (h : disk.Sound maxFileBytes) {content : Bytes}
    (hcontent : disk.files .active = some content) :
    ((disk.write .active none).write .rotated (some content)).Sound maxFileBytes := by
  obtain ⟨-, old, recent, -, hrecent, hsuffix⟩ := h
  have hactive : disk.content .active = content := by rw [Disk.content, hcontent]; rfl
  refine ⟨by simp, recent, [], by simpa [← hactive] using hrecent, by simp, ?_⟩
  rw [List.append_nil]
  exact (List.suffix_append old recent).trans hsuffix

theorem append (h : disk.Sound maxFileBytes) {line : Bytes}
    (hroom : (disk.content .active).length + line.length ≤ maxFileBytes) :
    (perform none (.appendFile .active line) disk).2.Sound maxFileBytes := by
  obtain ⟨-, old, recent, hold, hrecent, before, hbefore⟩ := h
  refine ⟨?_, old, recent ++ [line], ?_, ?_, before, ?_⟩
  · simpa [perform, Disk.content, Disk.write] using hroom
  · simpa [perform, Disk.content, Disk.write] using hold
  · have hactive : (disk.files .active).getD [] = recent.flatten := hrecent
    simp [perform, Disk.content, Disk.write, hactive]
  · show before ++ (old ++ (recent ++ [line])) = disk.appended ++ [line]
    rw [← hbefore]
    simp

end Disk.Sound

/-! ## What a call does to the files -/

/-- From here on the task appends its line after the lines of `base` and succeeds, or it fails and
appends nothing. It fails only if one of its operations does, or if its line is too long. -/
def Keeps (maxFileBytes : ℕ) (base : List Bytes) (text : Option JsonLine) :
    Task Unit → Disk → Bool → Prop
  | .pure (), disk, _ =>
    disk.Sound maxFileBytes ∧ ∃ json, text = some json ∧ disk.appended = base ++ [json.line]
  | .throw _, disk, faulty =>
    disk.Sound maxFileBytes ∧ disk.appended = base ∧
      (faulty = false → ∀ json, text = some json → maxFileBytes < json.line.length)
  | .request op rest, disk, faulty =>
    disk.Sound maxFileBytes ∧ disk.appended = base ∧ ∀ fault,
      Keeps maxFileBytes base text (rest (perform fault op disk).1) (perform fault op disk).2
        (faulty || fault.isSome)

section Keeps

variable {base : List Bytes} {text : Option JsonLine} {json : JsonLine} {faulty : Bool}

theorem Keeps.throw_of_fault (hsound : disk.Sound maxFileBytes) (hbase : disk.appended = base)
    (e : AuditError) (fault : Fault) :
    Keeps maxFileBytes base text (.throw e) disk (faulty || (some fault).isSome) :=
  ⟨hsound, hbase, fun h => by simp at h⟩

theorem keeps_append (hsound : disk.Sound maxFileBytes) (hbase : disk.appended = base)
    (hroom : (disk.content .active).length + json.line.length ≤ maxFileBytes) :
    Keeps maxFileBytes base (some json)
      ((Program.perform (.appendFile .active json.line)).bind awaited) disk faulty := by
  refine ⟨hsound, hbase, fun fault => ?_⟩
  cases fault with
  | none => exact ⟨hsound.append hroom, json, rfl, by rw [← hbase]; rfl⟩
  | some fault => exact .throw_of_fault hsound hbase _ fault

/-- What is left after a step that keeps the files and leaves room for `incoming` bytes. -/
def RoomFor (maxFileBytes incoming : ℕ) (base : List Bytes) (text : Option JsonLine)
    (rest : Task Unit) : Prop :=
  ∀ (disk : Disk) (faulty : Bool), disk.Sound maxFileBytes → disk.appended = base →
    (disk.content .active).length + incoming ≤ maxFileBytes →
    Keeps maxFileBytes base text rest disk faulty

section

variable (hsound : disk.Sound maxFileBytes) (hbase : disk.appended = base)

include hsound hbase

theorem keeps_rename {incoming : ℕ} (hfits : incoming ≤ maxFileBytes) {rest : Task Unit}
    (hrest : RoomFor maxFileBytes incoming base text rest) {content : Bytes}
    (hcontent : disk.files .active = some content) :
    Keeps maxFileBytes base text
      ((Program.perform (.rename .active .rotated)).bind fun r => (awaited r).bind fun _ => rest)
      disk faulty := by
  refine ⟨hsound, hbase, fun fault => ?_⟩
  cases fault with
  | none =>
    rw [show perform none (.rename .active .rotated) disk =
        (.ok (), (disk.write .active none).write .rotated (some content)) by rw [perform, hcontent]]
    exact hrest _ _ (hsound.rotate hcontent) hbase (by simpa using hfits)
  | some fault =>
    rw [show perform (some fault) (.rename .active .rotated) disk = (.error .failed,
        if fault.applied then (disk.write .active none).write .rotated (some content) else disk) by
      rw [perform, hcontent]]
    refine .throw_of_fault ?_ ?_ _ fault
    · dsimp only
      split
      · exact hsound.rotate hcontent
      · exact hsound
    · dsimp only
      split <;> exact hbase

theorem keeps_removeRotated {rest : Task Unit}
    (hrest : Keeps maxFileBytes base text rest (disk.write .rotated none) faulty) :
    Keeps maxFileBytes base text
      ((Program.perform (.rm .rotated)).bind fun r => (awaited r).bind fun _ => rest)
      disk faulty := by
  refine ⟨hsound, hbase, fun fault => ?_⟩
  cases fault with
  | none =>
    rw [Option.isSome_none, Bool.or_false]
    exact hrest
  | some fault =>
    refine .throw_of_fault ?_ ?_ _ fault
    · dsimp only [perform]
      split
      · exact hsound.removeRotated
      · exact hsound
    · dsimp only [perform]
      split <;> exact hbase

theorem keeps_rotateIfNeeded {incoming : ℕ} (hfits : incoming ≤ maxFileBytes) {rest : Task Unit}
    (hrest : RoomFor maxFileBytes incoming base text rest) :
    Keeps maxFileBytes base text ((rotateIfNeeded maxFileBytes incoming).bind fun _ => rest)
      disk faulty := by
  refine ⟨hsound, hbase, fun fault => ?_⟩
  cases fault with
  | some fault => exact .throw_of_fault hsound hbase _ fault
  | none =>
    rw [Option.isSome_none, Bool.or_false]
    cases hfile : disk.files .active with
    | none =>
      have hactive : disk.content .active = [] := by rw [Disk.content, hfile]; rfl
      rw [show perform none (.stat .active) disk = (.error .noEntry, disk) by rw [perform, hfile]]
      simp only [knownSize, Program.bind_eq, Program.pure_eq, Program.bind, Nat.zero_add, hfits,
        if_true]
      exact hrest _ _ hsound hbase (by simpa [hactive] using hfits)
    | some content =>
      have hactive : disk.content .active = content := by rw [Disk.content, hfile]; rfl
      have hbound : content.length ≤ maxFileBytes := hactive ▸ hsound.1
      rw [show perform none (.stat .active) disk = (.ok content.length, disk) by
        rw [perform, hfile]]
      simp only [knownSize, Program.bind_eq, Program.pure_eq, Program.bind]
      by_cases hroom : content.length + incoming ≤ maxFileBytes
      · rw [if_pos hroom]
        exact hrest _ _ hsound hbase (hactive ▸ hroom)
      · rw [if_neg hroom, if_pos ⟨by omega, hbound⟩]
        simp only [Program.bind_assoc, Program.bind]
        exact keeps_removeRotated hsound hbase
          (keeps_rename hsound.removeRotated hbase hfits hrest hfile)

theorem keeps_writeRecord :
    Keeps maxFileBytes base text (writeRecord maxFileBytes text) disk faulty := by
  cases text with
  | none => exact ⟨hsound, hbase, fun _ _ h => by cases h⟩
  | some json =>
    by_cases hlong : maxFileBytes < json.line.length
    · rw [writeRecord, if_pos hlong]
      exact ⟨hsound, hbase, fun _ _ h => Option.some.inj h ▸ hlong⟩
    · rw [writeRecord, if_neg hlong]
      refine ⟨hsound, hbase, fun fault => ?_⟩
      cases fault with
      | some fault => exact .throw_of_fault hsound hbase _ fault
      | none =>
        exact keeps_rotateIfNeeded hsound hbase (Nat.le_of_not_lt hlong)
          fun disk _ hsound hbase hroom => keeps_append hsound hbase hroom

end

end Keeps

/-! ## Lines -/

theorem newline_ne_ofNat {n : ℕ} (hn : n < 256) (h : 10 < n) : Lines.newline ≠ UInt8.ofNat n := by
  intro heq
  have hval := congrArg UInt8.toNat heq
  rw [UInt8.toNat_ofNat_of_lt' hn] at hval
  exact absurd hval (Nat.ne_of_lt h)

theorem eq_of_newline_mem {c : Char} (h : Lines.newline ∈ String.utf8EncodeChar c) : c = '\n' := by
  simp only [String.utf8EncodeChar] at h
  split at h
  next hsmall =>
    have hval := congrArg UInt8.toNat (List.mem_singleton.mp h)
    rw [UInt8.toNat_ofNat_of_lt' (by omega : _ < 256)] at hval
    exact Char.ext (UInt32.toNat_inj.mp hval.symm)
  next =>
    -- the bytes of a longer character are at least `0x80`
    exfalso
    split_ifs at h <;> simp only [List.mem_cons, List.not_mem_nil, or_false] at h
    · rcases h with h | h <;> exact newline_ne_ofNat (by omega) (by omega) h
    · rcases h with h | h | h <;> exact newline_ne_ofNat (by omega) (by omega) h
    · rcases h with h | h | h | h <;> exact newline_ne_ofNat (by omega) (by omega) h
theorem JsonLine.newline_notMem (json : JsonLine) : Lines.newline ∉ json.bytes := by
  intro h
  obtain ⟨c, hc, hnewline⟩ := List.mem_flatMap.mp h
  exact json.oneLine (eq_of_newline_mem hnewline ▸ hc)

theorem JsonLine.line_eq (json : JsonLine) : json.line = json.bytes ++ [Lines.newline] := by
  rw [line, Text.encode, List.flatMap_append]
  rfl

theorem lines_log (records : List JsonLine) :
    Lines.lines Lines.newline (records.map JsonLine.line).flatten = records.map JsonLine.bytes := by
  induction records with
  | nil => rfl
  | cons json records ih =>
    rw [List.map_cons, List.flatten_cons, json.line_eq, List.append_assoc, List.singleton_append,
      Lines.lines_line json.newline_notMem, ih, List.map_cons]

theorem rest_log (records : List JsonLine) :
    Lines.rest Lines.newline (records.map JsonLine.line).flatten = [] := by
  induction records with
  | nil => rfl
  | cons json records ih =>
    rw [List.map_cons, List.flatten_cons, json.line_eq, List.append_assoc, List.singleton_append,
      Lines.rest_line json.newline_notMem, ih]

/-! ## The calls -/

namespace Call

variable {M : Type} {call : Call M}

/-- A call that has ended has written its record, unless one of its operations has failed or its
record has no text that fits. -/
def Undisturbed (maxFileBytes : ℕ) (call : Call M) : Prop :=
  ∀ operation, call.operation = some operation → call.settled = true → operation.faulty = false →
    ∀ json, operation.text = some json → json.line.length ≤ maxFileBytes → call.written? = some json

theorem written?_of_waiting (h : call.operation = none) : call.written? = none := by
  rw [written?, h]

end Call

namespace AuditLogger

variable {M : Type} {stringify : AuditRecord M → Option JsonLine} {s s' : AuditLogger M}

/-- What the log promises at all times. -/
structure Correct (maxFileBytes : ℕ) (s : AuditLogger M) : Prop where
  bounded : (s.disk.content .active).length ≤ maxFileBytes
  whole : Lines.rest Lines.newline s.disk.log = []
  suffix : Lines.lines Lines.newline s.disk.log <:+ s.succeeded.map JsonLine.bytes
  undisturbed : ∀ call ∈ s.calls, call.Undisturbed maxFileBytes

def InOrder (calls : List (Call M)) : Prop :=
  calls.Pairwise fun earlier later => later.operation.isSome = true → earlier.settled = true

/-- What holds between two steps. -/
structure Inv (maxFileBytes : ℕ) (s : AuditLogger M) : Prop where
  order : InOrder s.calls
  sound : s.disk.Sound maxFileBytes
  appended : s.disk.appended = s.succeeded.map JsonLine.line
  running : ∀ call ∈ s.calls, ∀ operation, call.operation = some operation →
    call.settled = false → Keeps maxFileBytes (s.succeeded.map JsonLine.line) operation.text
      operation.program s.disk operation.faulty
  undisturbed : ∀ call ∈ s.calls, call.Undisturbed maxFileBytes

theorem inv_initial : (initial : AuditLogger M).Inv maxFileBytes where
  order := .nil
  sound := ⟨Nat.zero_le _, [], [], rfl, rfl, List.suffix_rfl⟩
  appended := rfl
  running := nofun
  undisturbed := nofun

theorem Inv.correct (h : s.Inv maxFileBytes) : s.Correct maxFileBytes := by
  obtain ⟨hbounded, old, recent, hold, hrecent, before, hbefore⟩ := h.sound
  rw [h.appended] at hbefore
  obtain ⟨lost, kept, hkept, -, hlines⟩ := List.map_eq_append_iff.mp hbefore.symm
  have hlog : s.disk.log = (kept.map JsonLine.line).flatten := by
    rw [hlines, List.flatten_append, ← hold, ← hrecent]
    rfl
  refine ⟨hbounded, by rw [hlog, rest_log], ?_, h.undisturbed⟩
  rw [hlog, lines_log, hkept, List.map_append]
  exact List.suffix_append _ _

/-! ## Steps -/

variable {call : Call M} {before after : List (Call M)}

theorem Call.isSome_of_settled (h : call.settled = true) : call.operation.isSome = true := by
  rw [Call.settled, Call.outcome?] at h
  cases hoperation : call.operation with
  | none => rw [hoperation] at h; cases h
  | some operation => rfl

theorem exists_split {calls : List (Call M)} {i : ℕ} (h : calls[i]? = some call) :
    ∃ before after, calls = before ++ call :: after ∧ before.length = i ∧
      ∀ call', calls.set i call' = before ++ call' :: after := by
  obtain ⟨hlt, hcall⟩ := List.getElem?_eq_some_iff.mp h
  refine ⟨calls.take i, calls.drop (i + 1), ?_, List.length_take_of_le (Nat.le_of_lt hlt),
    fun call' => List.set_eq_take_append_cons_drop.trans (if_pos hlt)⟩
  rw [← hcall, List.getElem_cons_drop, List.take_append_drop]

theorem InOrder.waiting (h : InOrder (before ++ call :: after)) (hcall : call.settled = false) :
    ∀ later ∈ after, later.operation = none := by
  intro later hlater
  have hpair := (List.pairwise_cons.mp (List.pairwise_append.mp h).2.1).1 later hlater
  rw [hcall] at hpair
  exact Option.not_isSome_iff_eq_none.mp fun hsome => by cases hpair hsome

theorem InOrder.settled (h : InOrder (before ++ call :: after))
    (hcall : call.operation.isSome = true) :
    ∀ earlier ∈ before, earlier.settled = true := fun earlier hearlier =>
  (List.pairwise_append.mp h).2.2 earlier hearlier call List.mem_cons_self hcall

theorem InOrder.settled_of_ready {disk : Disk} (h : InOrder (before ++ call :: after))
    (hready : ready ⟨before ++ call :: after, disk⟩ before.length = true) :
    ∀ earlier ∈ before, earlier.settled = true := by
  induction before using List.reverseRecOn with
  | nil => nofun
  | append_singleton front last _ =>
    have hlast : last.settled = true := by
      rw [List.length_append, List.length_singleton, ready] at hready
      simpa using hready
    rw [List.append_assoc, List.singleton_append] at h
    intro earlier hearlier
    rcases List.mem_append.mp hearlier with hfront | hself
    · exact h.settled (Call.isSome_of_settled hlast) earlier hfront
    · exact List.mem_singleton.mp hself ▸ hlast

theorem inOrder_of_turn (call : Call M) (hbefore : ∀ earlier ∈ before, earlier.settled = true)
    (hafter : ∀ later ∈ after, later.operation = none) : InOrder (before ++ call :: after) := by
  have hlate : ∀ later ∈ after, ¬ later.operation.isSome = true := fun later hlater => by
    rw [hafter later hlater]; nofun
  refine List.pairwise_append.mpr ⟨?_, List.pairwise_cons.mpr ⟨?_, ?_⟩, ?_⟩
  · exact List.pairwise_of_forall_mem_list fun earlier hearlier _ _ _ => hbefore earlier hearlier
  · exact fun later hlater hsome => absurd hsome (hlate later hlater)
  · exact List.pairwise_of_forall_mem_list fun _ _ later hlater hsome =>
      absurd hsome (hlate later hlater)
  · exact fun earlier hearlier _ _ _ => hbefore earlier hearlier

theorem filterMap_turn (before : List (Call M)) (call : Call M)
    (hafter : ∀ later ∈ after, later.operation = none) :
    (before ++ call :: after).filterMap Call.written? =
      before.filterMap Call.written? ++ call.written?.toList := by
  have hnone : after.filterMap Call.written? = [] :=
    List.filterMap_eq_nil_iff.mpr fun later hlater => Call.written?_of_waiting (hafter later hlater)
  rw [List.filterMap_append]
  cases hcall : call.written? with
  | none => rw [List.filterMap_cons_none hcall, hnone]; rfl
  | some json => rw [List.filterMap_cons_some hcall, hnone]; rfl

theorem inv_of_turn {event : AuditEvent M} {operation : Operation}
    (hbefore : ∀ earlier ∈ before, earlier.settled = true)
    (hafter : ∀ later ∈ after, later.operation = none)
    (hundisturbed : ∀ call ∈ before ++ after, call.Undisturbed maxFileBytes)
    (hkeeps : Keeps maxFileBytes ((before.filterMap Call.written?).map JsonLine.line)
      operation.text operation.program disk operation.faulty) :
    Inv maxFileBytes ⟨before ++ ⟨event, some operation⟩ :: after, disk⟩ := by
  obtain ⟨text, program, faulty⟩ := operation
  have hwritten := filterMap_turn before ⟨event, some ⟨text, program, faulty⟩⟩ hafter
  have hothers : ∀ call ∈ before ++ ⟨event, some ⟨text, program, faulty⟩⟩ :: after,
      call.settled = false → call.operation.isSome = true →
        call = ⟨event, some ⟨text, program, faulty⟩⟩ := by
    intro call hcall hunsettled hstarted
    rcases List.mem_append.mp hcall with hmem | hmem
    · rw [hbefore call hmem] at hunsettled
      cases hunsettled
    · rcases List.mem_cons.mp hmem with heq | hmem
      · exact heq
      · rw [hafter call hmem] at hstarted
        cases hstarted
  have hall : Call.Undisturbed maxFileBytes ⟨event, some ⟨text, program, faulty⟩⟩ →
      ∀ call ∈ before ++ ⟨event, some ⟨text, program, faulty⟩⟩ :: after,
        call.Undisturbed maxFileBytes := by
    intro hcall call hmem
    rcases List.mem_append.mp hmem with hmem | hmem
    · exact hundisturbed call (List.mem_append_left _ hmem)
    · rcases List.mem_cons.mp hmem with rfl | hmem
      · exact hcall
      · exact hundisturbed call (List.mem_append_right _ hmem)
  cases program with
  | pure =>
    obtain ⟨hsound, json, rfl, happended⟩ := hkeeps
    refine ⟨inOrder_of_turn _ hbefore hafter, hsound, ?_, ?_, hall ?_⟩
    · rw [happended, succeeded, hwritten, List.map_append]
      rfl
    · intro call hcall operation hoperation hunsettled
      obtain rfl := hothers call hcall hunsettled (by rw [hoperation]; rfl)
      cases hunsettled
    · intro operation hoperation _ _ json htext _
      cases hoperation
      exact htext
  | throw e =>
    obtain ⟨hsound, happended, hcause⟩ := hkeeps
    refine ⟨inOrder_of_turn _ hbefore hafter, hsound, ?_, ?_, hall ?_⟩
    · rw [happended, succeeded, hwritten]
      exact congrArg _ (List.append_nil _).symm
    · intro call hcall operation hoperation hunsettled
      obtain rfl := hothers call hcall hunsettled (by rw [hoperation]; rfl)
      cases hunsettled
    · intro operation hoperation _ hsafe json htext hfits
      cases hoperation
      exact absurd (hcause hsafe json htext) (Nat.not_lt.mpr hfits)
  | request op rest =>
    have hsucceeded :
        succeeded ⟨before ++ ⟨event, some ⟨text, .request op rest, faulty⟩⟩ :: after, disk⟩ =
          before.filterMap Call.written? := hwritten.trans (List.append_nil _)
    refine ⟨inOrder_of_turn _ hbefore hafter, hkeeps.1, ?_, ?_, hall ?_⟩
    · rw [hsucceeded]
      exact hkeeps.2.1
    · intro call hcall operation hoperation hunsettled
      obtain rfl := hothers call hcall hunsettled (by rw [hoperation]; rfl)
      cases hoperation
      rw [hsucceeded]
      exact hkeeps
    · intro operation hoperation hsettled
      cases hsettled

theorem inv_step {e : Event M} (h : s.Inv maxFileBytes)
    (hstep : step maxFileBytes stringify s e = some s') : s'.Inv maxFileBytes := by
  obtain ⟨calls, disk⟩ := s
  have hsides : ∀ {before after : List (Call M)} {call : Call M},
      calls = before ++ call :: after → ∀ c ∈ before ++ after, c.Undisturbed maxFileBytes := by
    rintro before after call rfl c hc
    rcases List.mem_append.mp hc with hc | hc
    · exact h.undisturbed c (List.mem_append_left _ hc)
    · exact h.undisturbed c (List.mem_append_right _ (List.mem_cons_of_mem _ hc))
  cases e with
  | record event =>
    obtain rfl := Option.some.inj hstep
    have hsucceeded : succeeded ⟨calls ++ [⟨event, none⟩], disk⟩ = succeeded ⟨calls, disk⟩ := by
      rw [succeeded, List.filterMap_append]
      exact List.append_nil _
    refine ⟨List.pairwise_append.mpr ⟨h.order, List.pairwise_singleton _ _, ?_⟩, h.sound, ?_, ?_,
      ?_⟩
    · intro _ _ later hlater hsome
      obtain rfl := List.mem_singleton.mp hlater
      cases hsome
    · rw [hsucceeded]
      exact h.appended
    · intro call hcall operation hoperation
      rw [hsucceeded]
      rcases List.mem_append.mp hcall with hold | hnew
      · exact h.running call hold operation hoperation
      · obtain rfl := List.mem_singleton.mp hnew
        cases hoperation
    · intro call hcall
      rcases List.mem_append.mp hcall with hold | hnew
      · exact h.undisturbed call hold
      · obtain rfl := List.mem_singleton.mp hnew
        exact nofun
  | start i id timestamp =>
    simp only [step] at hstep
    split at hstep
    next event hcall =>
      split at hstep
      next hready =>
        obtain rfl := Option.some.inj hstep
        obtain ⟨before, after, rfl, rfl, hset⟩ := exists_split hcall
        have hafter := h.order.waiting rfl
        rw [hset]
        refine inv_of_turn (h.order.settled_of_ready hready) hafter (hsides rfl)
          (keeps_writeRecord h.sound ?_)
        rw [h.appended, succeeded, filterMap_turn _ _ hafter]
        exact congrArg _ (List.append_nil _)
      next => cases hstep
    next => cases hstep
  | operate i fault =>
    simp only [step] at hstep
    split at hstep
    next event text op rest faulty hcall =>
      obtain rfl := Option.some.inj hstep
      obtain ⟨before, after, rfl, rfl, hset⟩ := exists_split hcall
      have hafter := h.order.waiting rfl
      have hkeeps := h.running _ (List.mem_append_right _ List.mem_cons_self) _ rfl rfl
      rw [succeeded, filterMap_turn _ _ hafter] at hkeeps
      rw [hset]
      refine inv_of_turn (h.order.settled rfl) hafter (hsides rfl) ?_
      have hnext := hkeeps.2.2 fault
      rwa [show (⟨event, some ⟨text, .request op rest, faulty⟩⟩ : Call M).written? = none from rfl,
        Option.toList_none, List.append_nil] at hnext
    next => cases hstep

theorem inv_run (h : Machine.Run (step maxFileBytes stringify) (fun _ _ => True) initial s) :
    s.Inv maxFileBytes :=
  h.invariant (fun _ _ _ hs _ hstep => inv_step hs hstep) inv_initial

/-! ## Progress -/

theorem ready_of_settled (call : Call M) (after : List (Call M))
    (h : ∀ earlier ∈ before, earlier.settled = true) (disk : Disk) :
    ready ⟨before ++ call :: after, disk⟩ before.length = true := by
  induction before using List.reverseRecOn with
  | nil => rfl
  | append_singleton front last _ =>
    have hlast := h last (List.mem_append_right _ List.mem_cons_self)
    rw [List.length_append, List.length_singleton, ready]
    simpa using hlast

def Flawless (_ : AuditLogger M) : Event M → Prop
  | .start _ _ _ | .operate _ none => True
  | _ => False

theorem exists_settled {event : AuditEvent M} {text : Option JsonLine} {faulty : Bool}
    (program : Task Unit) (disk : Disk) :
    ∃ program' disk', program'.outcome?.isSome = true ∧
      Machine.Run (step maxFileBytes stringify) Flawless
        ⟨before ++ ⟨event, some ⟨text, program, faulty⟩⟩ :: after, disk⟩
        ⟨before ++ ⟨event, some ⟨text, program', faulty⟩⟩ :: after, disk'⟩ := by
  induction program generalizing disk with
  | pure a => exact ⟨_, _, rfl, .refl _⟩
  | throw e => exact ⟨_, _, rfl, .refl _⟩
  | request op rest ih =>
    obtain ⟨program', disk', hsettled, hrun⟩ := ih (perform none op disk).1 (perform none op disk).2
    refine ⟨program', disk', hsettled,
      .trans (.step (.refl _) (e := .operate before.length none) trivial ?_) hrun⟩
    simp [step]

def Turned (stringify : AuditRecord M → Option JsonLine) (stamp : String × String)
    (call call' : Call M) : Prop :=
  call'.settled = true ∧ (call.operation = none → ∃ program,
    call'.operation = some ⟨stringify ⟨stamp.1, stamp.2, call.event⟩, program, false⟩)

theorem exists_run_turned (maxFileBytes : ℕ) (stringify : AuditRecord M → Option JsonLine)
    (stamps : ℕ → String × String) (before after : List (Call M))
    (hbefore : ∀ earlier ∈ before, earlier.settled = true) (disk : Disk) :
    ∃ after' disk', Machine.Run (step maxFileBytes stringify) Flawless
      ⟨before ++ after, disk⟩ ⟨before ++ after', disk'⟩ ∧
      ∀ i call, after[i]? = some call → ∃ call', after'[i]? = some call' ∧
        Turned stringify (stamps (before.length + i)) call call' := by
  induction after generalizing before disk with
  | nil => exact ⟨[], disk, .refl _, nofun⟩
  | cons call after ih =>
    obtain ⟨call', disk₁, hturned, hrun⟩ : ∃ call' disk₁,
        Turned stringify (stamps before.length) call call' ∧
        Machine.Run (step maxFileBytes stringify) Flawless
          ⟨before ++ call :: after, disk⟩ ⟨before ++ call' :: after, disk₁⟩ := by
      obtain ⟨event, operation⟩ := call
      cases operation with
      | some operation =>
        obtain ⟨program', disk₁, hsettled, hrun⟩ := exists_settled operation.program disk
        exact ⟨⟨event, some ⟨operation.text, program', operation.faulty⟩⟩, disk₁,
          ⟨hsettled, nofun⟩, hrun⟩
      | none =>
        obtain ⟨id, timestamp⟩ := stamps before.length
        have hready := ready_of_settled ⟨event, none⟩ after hbefore disk
        obtain ⟨program', disk₁, hsettled, hrun⟩ :=
          exists_settled (writeRecord maxFileBytes (stringify ⟨id, timestamp, event⟩)) disk
        refine ⟨⟨event, some ⟨stringify ⟨id, timestamp, event⟩, program', false⟩⟩, disk₁,
          ⟨hsettled, fun _ => ⟨program', rfl⟩⟩,
          .trans (.step (.refl _) (e := .start before.length id timestamp) trivial ?_) hrun⟩
        simp [step, hready]
    obtain ⟨after', disk', hrest, hafter⟩ := ih (before ++ [call'])
      (List.forall_mem_append.mpr ⟨hbefore, by simpa using hturned.1⟩) disk₁
    rw [List.append_assoc, List.append_assoc, List.singleton_append, List.singleton_append] at hrest
    refine ⟨call' :: after', disk', hrun.trans hrest, fun i => ?_⟩
    cases i with
    | zero =>
      intro _ hfirst
      obtain rfl := Option.some.inj hfirst
      exact ⟨call', rfl, hturned⟩
    | succ i =>
      intro later hlater
      obtain ⟨later', hlater', hturned'⟩ := hafter i later hlater
      refine ⟨later', hlater', ?_⟩
      rwa [List.length_append, List.length_singleton, Nat.add_assoc, Nat.add_comm 1] at hturned'

/-! ## The log -/

/-- From here on, if no operation fails any more, all calls end, and those that are still waiting
write their records. -/
def Continues (maxFileBytes : ℕ) (stringify : AuditRecord M → Option JsonLine)
    (s : AuditLogger M) : Prop :=
  ∀ stamps : ℕ → String × String, ∃ s' : AuditLogger M,
    Machine.Run (step maxFileBytes stringify) Flawless s s' ∧
    ∀ i call, s.calls[i]? = some call → ∃ call', s'.calls[i]? = some call' ∧
      call'.settled = true ∧ (call.operation = none →
        ∀ json, stringify ⟨(stamps i).1, (stamps i).2, call.event⟩ = some json →
          json.line.length ≤ maxFileBytes → call'.written? = some json)

theorem Inv.continues (h : s.Inv maxFileBytes) : s.Continues maxFileBytes stringify := by
  intro stamps
  obtain ⟨calls, disk, hrun, hturned⟩ := exists_run_turned maxFileBytes stringify stamps [] s.calls nofun s.disk
  have hinv : Inv maxFileBytes ⟨calls, disk⟩ :=
    hrun.invariant (fun _ _ _ hs _ hstep => inv_step hs hstep) h
  refine ⟨⟨calls, disk⟩, hrun, fun i call hcall => ?_⟩
  obtain ⟨call', hcall', hsettled, hwaiting⟩ := hturned i call hcall
  refine ⟨call', hcall', hsettled, fun hnone json hjson hfits => ?_⟩
  obtain ⟨program, hoperation⟩ := hwaiting hnone
  rw [List.length_nil, Nat.zero_add] at hoperation
  exact hinv.undisturbed call' (List.mem_of_getElem? hcall') _ hoperation hsettled rfl json hjson
    hfits

/-- In every run the active file is within its limit, the two files hold the last of the records
whose calls have succeeded, and no failed call keeps a later one from being written. -/
theorem correct_of_run
    (h : Machine.Run (step maxFileBytes stringify) (fun _ _ => True) initial s) :
    s.Correct maxFileBytes ∧ s.Continues maxFileBytes stringify :=
  ⟨(inv_run h).correct, (inv_run h).continues⟩

/-- Three calls: the first one fails, the second one's record is rotated. -/
def threeCalls : List (Event Unit) :=
  [.record ⟨"read", none, .ok, 1, none⟩, .record ⟨"write", none, .ok, 1, none⟩,
    .start 0 "a" "b", .operate 0 none, .operate 0 none, .operate 0 (some ⟨false⟩),
    .start 1 "c" "d", .operate 1 none, .operate 1 none, .operate 1 none,
    .record ⟨"read", none, .error, 1, none⟩, .start 2 "e" "f", .operate 2 none, .operate 2 none,
    .operate 2 none, .operate 2 none, .operate 2 none]

theorem correct_of_run_example : ∃ s : AuditLogger Unit,
    Machine.follow (step 3 fun _ => some ⟨['r'], by decide⟩) threeCalls initial = some s ∧
      s.disk.log = Text.encode ['r', '\n', 'r', '\n'] ∧ s.succeeded.length = 2 ∧
      s.Correct 3 ∧ s.Continues 3 fun _ => some ⟨['r'], by decide⟩ :=
  ⟨_, rfl, by decide, by decide, correct_of_run (Machine.run_of_follow threeCalls rfl)⟩

end AuditLogger

end Audit
