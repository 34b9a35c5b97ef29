import ChatgptSystem.Process.TailBuffer

/-!
# Following the output of a process

`ProcessSupervisor.logs` (`process/process-supervisor.ts`) reads both streams of a process from one
cursor on: from its buffers in memory, or from the log files of a process that outlives the daemon
(`process/process-wrapper.ts`). `ManagedProcessService.logs` repeats it until there is something new.

* `logs` — what a call returns of the two streams;
* `page` — what it returns of a stream of which nothing is lost;
* `Client` — a client who passes one of the returned cursors to its next call;
* `Balanced` — the outputs at two calls between which one cursor is enough;
* `coveredOnce_iff` — when a client can choose its cursors so that it sees everything once.
-/

namespace Process

open Text

inductive Stream where
  | stdout
  | stderr
  deriving DecidableEq

def Stream.other : Stream → Stream
  | .stdout => .stderr
  | .stderr => .stdout

structure Outputs where
  stdout : Bytes
  stderr : Bytes
  deriving DecidableEq

def Outputs.of (outputs : Outputs) : Stream → Bytes
  | .stdout => outputs.stdout
  | .stderr => outputs.stderr

def Outputs.append (outputs : Outputs) (chunk : Bytes) : Stream → Outputs
  | .stdout => { outputs with stdout := outputs.stdout ++ chunk }
  | .stderr => { outputs with stderr := outputs.stderr ++ chunk }

structure ManagedProcessLogs where
  stdout : Snapshot
  stderr : Snapshot
  deriving DecidableEq

def ManagedProcessLogs.of (logs : ManagedProcessLogs) : Stream → Snapshot
  | .stdout => logs.stdout
  | .stderr => logs.stderr

/-! ## The logs of a process -/

/-- The output of a process: in memory, or in files, with the numbers of bytes that were written to
them. -/
inductive LogRecord where
  | memory (stdout stderr : TailBuffer)
  | persistent (stdoutPath stderrPath : Option Bytes) (cursorPath : Option (ℕ × ℕ))

/-- `readStream`: the output in a file, of which `logicalBytes` have been counted. -/
def readStream (file : Option Bytes) (logicalBytes : ℕ) (cursor : Option ℕ) : Snapshot :=
  match file with
  | none => ⟨[], 0, false, cursor.map fun _ => logicalBytes⟩
  | some content =>
    let physicalBytes := content.length
    let firstAvailable := logicalBytes - physicalBytes
    let requested := cursor.getD firstAvailable
    let logicalStart := min (max requested firstAvailable) logicalBytes
    let physicalStart := logicalStart - firstAvailable
    let raw := content.drop physicalStart
    let span := completeUtf8Span raw
    let content := (raw.take span.2).drop span.1
    let truncated := decide (requested < firstAvailable) ||
      (cursor.isNone && decide (0 < firstAvailable))
    ⟨decode content, content.length, truncated,
      cursor.map fun _ => logicalBytes - (raw.length - span.2)⟩

def logs (record : LogRecord) (cursor : Option ℕ) : ManagedProcessLogs :=
  match record with
  | .memory stdout stderr => ⟨stdout.snapshot cursor, stderr.snapshot cursor⟩
  | .persistent stdoutPath stderrPath cursorPath =>
    let cursorState := cursorPath.getD (0, 0)
    ⟨readStream stdoutPath cursorState.1 cursor, readStream stderrPath cursorState.2 cursor⟩

/-- `appendBounded` of the wrapper. -/
def appendBounded (file : Option Bytes) (chunk : Bytes) (maxBytes : ℕ) : Bytes :=
  let content := file.getD [] ++ chunk
  if content.length ≤ maxBytes then content else content.drop (content.length - maxBytes)

/-! ## A client -/

/-- A client: the cursor of its next call, and what its calls have returned. -/
structure Client where
  cursor : ℕ
  calls : List ManagedProcessLogs
  deriving DecidableEq

/-- The client passes on the cursor that a call has returned for the chosen stream. -/
def Client.called (client : Client) (choice : Stream) (result : ManagedProcessLogs) : Client :=
  ⟨(result.of choice).nextCursor.getD client.cursor, client.calls ++ [result]⟩

inductive LogEvent where
  | output (stream : Stream) (chunk : Bytes)
  /-- The wrapper creates the log files. -/
  | created
  /-- The wrapper writes the numbers of bytes to the cursor file. -/
  | counted
  | call
  deriving DecidableEq

structure LoggedProcess where
  maxBytes : ℕ
  record : LogRecord
  /-- The numbers of bytes in the memory of the wrapper. -/
  offsets : ℕ × ℕ
  client : Client

namespace LoggedProcess

def initial (maxBytes : ℕ) (persistent : Bool) : LoggedProcess :=
  ⟨maxBytes, if persistent then .persistent none none none
    else .memory (.create maxBytes) (.create maxBytes), (0, 0), ⟨0, []⟩⟩

/-- `choose` says which stream's cursor the client passes on after each of its calls. -/
def step (choose : ℕ → Stream) (s : LoggedProcess) : LogEvent → LoggedProcess
  | .output stream chunk =>
    match s.record, stream with
    | .memory stdout stderr, .stdout => { s with record := .memory (stdout.append chunk) stderr }
    | .memory stdout stderr, .stderr => { s with record := .memory stdout (stderr.append chunk) }
    | .persistent stdoutPath stderrPath cursorPath, .stdout =>
      { s with
        record := .persistent (some (appendBounded stdoutPath chunk s.maxBytes)) stderrPath cursorPath
        offsets := (s.offsets.1 + chunk.length, s.offsets.2) }
    | .persistent stdoutPath stderrPath cursorPath, .stderr =>
      { s with
        record := .persistent stdoutPath (some (appendBounded stderrPath chunk s.maxBytes)) cursorPath
        offsets := (s.offsets.1, s.offsets.2 + chunk.length) }
  | .created =>
    match s.record with
    | .memory _ _ => s
    | .persistent stdoutPath stderrPath cursorPath =>
      { s with
        record := .persistent (some (stdoutPath.getD [])) (some (stderrPath.getD [])) cursorPath }
  | .counted =>
    match s.record with
    | .memory _ _ => s
    | .persistent stdoutPath stderrPath _ =>
      { s with record := .persistent stdoutPath stderrPath (some s.offsets) }
  | .call =>
    { s with
      client := s.client.called (choose s.client.calls.length) (logs s.record s.client.cursor) }

def run (maxBytes : ℕ) (persistent : Bool) (choose : ℕ → Stream) (events : List LogEvent) :
    LoggedProcess :=
  events.foldl (step choose) (initial maxBytes persistent)

end LoggedProcess

/-! ## The outputs at the calls -/

structure History where
  outputs : Outputs
  /-- All that was written has been counted. -/
  counted : Bool
  calls : List Outputs
  /-- All that was written had been counted at each call. -/
  settled : Bool
  deriving DecidableEq

namespace History

def initial : History := ⟨⟨[], []⟩, true, [], true⟩

def step (h : History) : LogEvent → History
  | .output stream chunk => { h with outputs := h.outputs.append chunk stream, counted := false }
  | .created => h
  | .counted => { h with counted := true }
  | .call => { h with calls := h.calls ++ [h.outputs], settled := h.settled && h.counted }

def ofEvents (events : List LogEvent) : History :=
  events.foldl step initial

end History

/-! ## A stream of which nothing is lost -/

/-- What is read of a stream that is held as a whole. -/
def page (stream : Bytes) (cursor : ℕ) : Snapshot :=
  let available := stream.drop cursor
  let span := completeUtf8Span available
  let content := (available.take span.2).drop span.1
  ⟨decode content, content.length, false, some (stream.length - (available.length - span.2))⟩

theorem TailBuffer.Holds.snapshot_eq_page {buffer : TailBuffer} {stream : Bytes}
    (h : buffer.Holds stream) (hfits : stream.length ≤ buffer.maxBytes) (cursor : ℕ) :
    buffer.snapshot (some cursor) = page stream cursor := by
  have hvalue : buffer.value = stream := by
    rw [h.value_eq, Nat.sub_eq_zero_of_le hfits]
    rfl
  unfold TailBuffer.snapshot page
  dsimp only
  rw [h.total_eq, hvalue, h.truncated_eq, decide_eq_false (Nat.not_lt.mpr hfits), Nat.sub_self,
    Nat.max_zero, Nat.sub_zero, decide_eq_false (Nat.not_lt_zero _)]
  rfl

theorem readStream_eq_page (file : Option Bytes) (cursor : ℕ) :
    readStream file (file.getD []).length (some cursor) = page (file.getD []) cursor := by
  cases file with
  | none =>
    unfold page
    rw [Option.getD_none, List.drop_nil]
    rfl
  | some stream =>
    have hraw : stream.drop (min cursor stream.length) = stream.drop cursor := by
      by_cases hle : cursor ≤ stream.length
      · rw [min_eq_left hle]
      · rw [min_eq_right (Nat.le_of_not_le hle), List.drop_length,
          List.drop_eq_nil_of_le (Nat.le_of_not_le hle)]
    unfold readStream page
    dsimp only [Option.getD_some]
    rw [Nat.sub_self, Nat.max_zero, Nat.sub_zero, hraw, decide_eq_false (Nat.not_lt_zero _)]
    rfl

def wholeBytes (stream : Bytes) : ℕ := (encode (wholeText stream)).length

def lastBegin (stream : Bytes) : ℕ := (encode (wholeText stream).dropLast).length

/-- The read has returned the byte `k`. -/
def Snapshot.covers (read : Snapshot) (k : ℕ) : Bool :=
  read.nextCursor.any fun next => decide (next ≤ k + read.bytes) && decide (k < next)

variable {stream stream' : Bytes} {cursor k : ℕ} {front text : List Char}

theorem page_eq {continued begun : Bytes} (hcontinued : Continued continued) (hbegun : Begun begun)
    (havailable : stream.drop cursor = continued ++ encode text ++ begun) :
    page stream cursor =
      ⟨text, (encode text).length, false, some (stream.length - begun.length)⟩ := by
  obtain ⟨hcontent, hrest⟩ := completeUtf8Span_content hcontinued hbegun havailable
  unfold page
  dsimp only
  rw [hcontent, hrest, decode_encode]

theorem page_of_le (h : stream <+: encode text) (hle : cursor ≤ wholeBytes stream) :
    ∃ skipped content, wholeText stream = skipped ++ content ∧
      page stream cursor = ⟨content, (encode content).length, false, some (wholeBytes stream)⟩ ∧
      cursor ≤ (encode skipped).length ∧ ∀ k c, BeginsAt skipped k c → k < cursor := by
  obtain ⟨begun, hstream, hbegun, -⟩ := exists_of_streamed h
  obtain ⟨continued, skipped, content, htext, hdrop, hcontinued, hlength, hskipped⟩ :=
    exists_of_drop_le begun hle
  rw [← hstream] at hdrop
  have hend : stream.length - begun.length = wholeBytes stream := by
    have hbytes := congrArg List.length hstream
    rw [List.length_append] at hbytes
    exact Nat.sub_eq_of_eq_add hbytes
  refine ⟨skipped, content, htext, ?_, hlength.symm ▸ Nat.le_add_right _ _, hskipped⟩
  rw [page_eq hcontinued hbegun hdrop, hend]

theorem page_of_gt (h : stream <+: encode text) (hgt : wholeBytes stream < cursor) :
    page stream cursor = ⟨[], 0, false, some stream.length⟩ := by
  obtain ⟨begun, hstream, hbegun, -⟩ := exists_of_streamed h
  have hcontinued : Continued (stream.drop cursor) := by
    rw [hstream]
    exact continued_of_drop hbegun hgt
  have havailable : stream.drop cursor = stream.drop cursor ++ encode [] ++ [] := by
    rw [List.append_nil]
    exact (List.append_nil _).symm
  exact page_eq hcontinued begun_nil havailable

theorem covers_page_iff (h : stream <+: encode text) : (page stream cursor).covers k = true ↔
    k < wholeBytes stream ∧ ∃ front, front <+: wholeText stream ∧ cursor ≤ (encode front).length ∧
      (encode front).length ≤ k := by
  by_cases hle : cursor ≤ wholeBytes stream
  · obtain ⟨skipped, content, htext, hpage, hcursor, hskipped⟩ := page_of_le h hle
    have hbytes : wholeBytes stream = (encode skipped).length + (encode content).length := by
      rw [wholeBytes, htext, encode_append, List.length_append]
    rw [hpage, Snapshot.covers, Option.any_some, Bool.and_eq_true, decide_eq_true_iff,
      decide_eq_true_iff]
    dsimp only
    constructor
    · rintro ⟨hlow, hhigh⟩
      exact ⟨hhigh, skipped, htext ▸ List.prefix_append .., hcursor, by omega⟩
    · rintro ⟨hhigh, front, hfront, hlow, hk⟩
      suffices hfirst : (encode skipped).length ≤ (encode front).length from ⟨by omega, hhigh⟩
      -- No boundary between the cursor and the first returned character is skipped.
      obtain ⟨between, rfl⟩ | ⟨between, rfl⟩ := List.prefix_or_prefix_of_prefix
        (htext ▸ List.prefix_append skipped content) hfront
      · rw [encode_append, List.length_append]
        exact Nat.le_add_right _ _
      · cases between with
        | nil => rw [List.append_nil]
        | cons c between =>
          have hlt := hskipped _ c ⟨front, between, rfl, rfl⟩
          exact absurd hlow (Nat.not_le.mpr hlt)
  · rw [page_of_gt h (Nat.lt_of_not_le hle), Snapshot.covers, Option.any_some, Bool.and_eq_true,
      decide_eq_true_iff, decide_eq_true_iff]
    dsimp only
    constructor
    · rintro ⟨hlow, hhigh⟩
      omega
    · rintro ⟨-, front, hfront, hlow, -⟩
      exact absurd (hlow.trans (length_encode_le hfront)) hle

section

variable (h : stream' <+: encode text) (hstream : stream <+: stream')

include h hstream

theorem wholeText_mono : wholeText stream <+: wholeText stream' := by
  obtain ⟨begun, hbegun, -, hwhole, -⟩ := exists_of_streamed (hstream.trans h)
  obtain ⟨-, -, -, -, hmax⟩ := exists_of_streamed h
  refine hmax _ hwhole (le_trans ?_ hstream.length_le)
  rw [congrArg List.length hbegun, List.length_append]
  exact Nat.le_add_right _ _

theorem wholeBytes_le : wholeBytes stream ≤ wholeBytes stream' :=
  length_encode_le (wholeText_mono h hstream)

theorem covers_page_of_fits (hlow : wholeText stream = [] ∨ lastBegin stream < cursor)
    (hhigh : cursor ≤ wholeBytes stream ∨ wholeText stream' = wholeText stream) :
    (page stream' cursor).covers k = true ↔ wholeBytes stream ≤ k ∧ k < wholeBytes stream' := by
  have hprefix := wholeText_mono h hstream
  rw [covers_page_iff h]
  constructor
  · rintro ⟨hk, front, hfront, hcursor, hle⟩
    refine ⟨le_trans ?_ hle, hk⟩
    obtain hnil | hlast := hlow
    · rw [wholeBytes, hnil]
      exact Nat.zero_le _
    obtain hshorter | hlonger := List.prefix_or_prefix_of_prefix hfront hprefix
    · rw [eq_of_length_encode_lt hshorter (hlast.trans_le hcursor)]
      rfl
    · exact length_encode_le hlonger
  · rintro ⟨hle, hk⟩
    refine ⟨hk, wholeText stream, hprefix, ?_, hle⟩
    obtain hcursor | hsame := hhigh
    · exact hcursor
    · rw [wholeBytes, hsame] at hk
      exact absurd hle (Nat.not_le.mpr hk)

end

/-! ## One cursor for two streams -/

def pages (outputs : Outputs) (cursor : ℕ) : ManagedProcessLogs :=
  ⟨page outputs.stdout cursor, page outputs.stderr cursor⟩

theorem pages_of (outputs : Outputs) (cursor : ℕ) (a : Stream) :
    (pages outputs cursor).of a = page (outputs.of a) cursor := by
  cases a <;> rfl

/-- The client after calls at which the process had written these outputs. -/
def follow (choose : ℕ → Stream) (calls : List Outputs) : Client :=
  calls.foldl (fun client outputs =>
    client.called (choose client.calls.length) (pages outputs client.cursor)) ⟨0, []⟩

structure Streamed (texts : Stream → List Char) (calls : List Outputs) : Prop where
  isText : ∀ outputs ∈ calls, ∀ a, outputs.of a <+: encode (texts a)
  grows : calls.Pairwise fun outputs outputs' => ∀ a, outputs.of a <+: outputs'.of a

/-- Each byte of the characters that are whole at the last call is returned exactly once. -/
def CoveredOnce (calls : List Outputs) (results : List ManagedProcessLogs) : Prop :=
  ∀ last ∈ calls.getLast?, ∀ a, ∀ k < wholeBytes (last.of a),
    results.countP (fun result => (result.of a).covers k) = 1

/-- The stream that is behind completes no character between the two calls, or its end lies within the
last character of the other one. -/
def Balanced (outputs outputs' : Outputs) : Prop :=
  ∀ a, wholeBytes (outputs.of a) < wholeBytes (outputs.of a.other) →
    wholeText (outputs'.of a) = wholeText (outputs.of a) ∨
      lastBegin (outputs.of a.other) < wholeBytes (outputs.of a)

def behind (outputs : Outputs) : Stream :=
  if wholeBytes outputs.stdout < wholeBytes outputs.stderr then .stdout else .stderr

/-- The stream whose end is the next cursor: the one that is behind, where its end lies within the last
character of the other one. -/
def pick (outputs : Outputs) : Stream :=
  if lastBegin (outputs.of (behind outputs).other) < wholeBytes (outputs.of (behind outputs)) then
    behind outputs
  else (behind outputs).other

theorem Stream.other_other (a : Stream) : a.other.other = a := by
  cases a <;> rfl

theorem Stream.eq_or_eq_other (a b : Stream) : a = b ∨ a = b.other := by
  cases a <;> cases b <;> decide

variable {texts : Stream → List Char} {outputs outputs' : Outputs} {calls : List Outputs}
  {choose : ℕ → Stream}

theorem behind_le (outputs : Outputs) :
    wholeBytes (outputs.of (behind outputs)) ≤ wholeBytes (outputs.of (behind outputs).other) := by
  rw [behind]
  split
  next h => exact h.le
  next h => exact Nat.le_of_not_lt h

variable {a : Stream}

theorem behind_of_lt (h : wholeBytes (outputs.of a) < wholeBytes (outputs.of a.other)) :
    behind outputs = a := by
  rw [behind]
  cases a with
  | stdout => exact if_pos h
  | stderr => exact if_neg (Nat.not_lt.mpr (le_of_lt h))

theorem lastBegin_lt (h : wholeText stream ≠ []) : lastBegin stream < wholeBytes stream :=
  length_encode_dropLast_lt h

theorem pick_low (outputs : Outputs) (a : Stream) :
    wholeText (outputs.of a) = [] ∨
      lastBegin (outputs.of a) < wholeBytes (outputs.of (pick outputs)) := by
  by_cases hnil : wholeText (outputs.of a) = []
  · exact .inl hnil
  refine .inr ?_
  have hlast := lastBegin_lt hnil
  have hle := behind_le outputs
  rw [pick]
  split
  next hinside =>
    obtain rfl | rfl := a.eq_or_eq_other (behind outputs)
    · exact hlast
    · exact hinside
  next =>
    obtain rfl | rfl := a.eq_or_eq_other (behind outputs)
    · exact hlast.trans_le hle
    · exact hlast

theorem Balanced.pick_high (h : Balanced outputs outputs') (a : Stream) :
    wholeBytes (outputs.of (pick outputs)) ≤ wholeBytes (outputs.of a) ∨
      wholeText (outputs'.of a) = wholeText (outputs.of a) := by
  have hle := behind_le outputs
  rw [pick]
  split
  next hinside =>
    obtain rfl | rfl := a.eq_or_eq_other (behind outputs)
    · exact .inl le_rfl
    · exact .inl hle
  next hinside =>
    obtain rfl | rfl := a.eq_or_eq_other (behind outputs)
    · obtain heq | hlt := hle.eq_or_lt
      · exact .inl heq.ge
      · exact .inr ((h _ hlt).resolve_right hinside)
    · exact .inl le_rfl

theorem Balanced.pick_next (h : Balanced outputs outputs')
    (htext : ∀ a, outputs'.of a <+: encode (texts a)) (hgrows : ∀ a, outputs.of a <+: outputs'.of a) :
    (page (outputs'.of (pick outputs')) (wholeBytes (outputs.of (pick outputs)))).nextCursor =
      some (wholeBytes (outputs'.of (pick outputs'))) := by
  have hmono (a : Stream) := wholeBytes_le (htext a) (hgrows a)
  suffices hcursor : wholeBytes (outputs.of (pick outputs)) ≤
      wholeBytes (outputs'.of (pick outputs')) by
    obtain ⟨_, _, -, hpage, -⟩ := page_of_le (htext _) hcursor
    rw [hpage]
  by_cases hinside : lastBegin (outputs'.of (behind outputs').other) <
      wholeBytes (outputs'.of (behind outputs'))
  · rw [pick.eq_1 outputs', if_pos hinside]
    generalize behind outputs' = b at hinside
    by_contra hgt
    -- The other stream was picked, so the one that is behind now was behind and completed nothing.
    have hpick : pick outputs = b.other := by
      obtain heq | hother := (pick outputs).eq_or_eq_other b
      · rw [heq] at hgt
        exact absurd (hmono b) hgt
      · exact hother
    rw [hpick] at hgt
    have hlt : wholeBytes (outputs.of b) < wholeBytes (outputs.of b.other) :=
      (hmono b).trans_lt (Nat.lt_of_not_le hgt)
    have houtside : ¬ lastBegin (outputs.of b.other) < wholeBytes (outputs.of b) := by
      intro hin
      rw [pick, behind_of_lt hlt, if_pos hin] at hpick
      cases b <;> cases hpick
    have hsame := (h b hlt).resolve_right houtside
    have hbytes : wholeBytes (outputs'.of b) = wholeBytes (outputs.of b) := by
      rw [wholeBytes, hsame, wholeBytes]
    have hother : wholeText (outputs.of b.other) = wholeText (outputs'.of b.other) :=
      eq_of_length_encode_lt (wholeText_mono (htext _) (hgrows _))
        (hinside.trans (Nat.lt_of_not_le hgt))
    rw [lastBegin, ← hother, ← lastBegin, hbytes] at hinside
    exact houtside hinside
  · rw [pick.eq_1 outputs', if_neg hinside]
    have hle := behind_le outputs'
    obtain heq | heq := (pick outputs).eq_or_eq_other (behind outputs')
    · rw [heq]
      exact (hmono _).trans hle
    · rw [heq]
      exact hmono _

theorem follow_concat (choose : ℕ → Stream) (calls : List Outputs) (outputs : Outputs) :
    follow choose (calls ++ [outputs]) = (follow choose calls).called
      (choose (follow choose calls).calls.length) (pages outputs (follow choose calls).cursor) :=
  List.foldl_concat ..

theorem length_follow (choose : ℕ → Stream) (calls : List Outputs) :
    (follow choose calls).calls.length = calls.length := by
  induction calls using List.reverseRecOn with
  | nil => rfl
  | append_singleton calls outputs ih =>
    rw [follow_concat, Client.called]
    dsimp only
    rw [List.length_append, List.length_append, ih]
    rfl

theorem Streamed.init {more : List Outputs} (h : Streamed texts (calls ++ more)) :
    Streamed texts calls :=
  ⟨fun o ho => h.isText o (List.mem_append_left _ ho), (List.pairwise_append.mp h.grows).1⟩

def lastOutputs (calls : List Outputs) : Outputs := calls.getLast?.getD ⟨[], []⟩

theorem Streamed.grows_last (h : Streamed texts (calls ++ [outputs])) (a : Stream) :
    (lastOutputs calls).of a <+: outputs.of a := by
  cases calls using List.reverseRecOn with
  | nil =>
    cases a
    · exact List.nil_prefix
    · exact List.nil_prefix
  | append_singleton calls last =>
    rw [lastOutputs, List.getLast?_concat]
    exact (List.pairwise_append.mp h.grows).2.2 last (List.mem_append_right _ List.mem_cons_self)
      outputs List.mem_cons_self a

theorem follow_picked (choose : ℕ → Stream) (hstreamed : Streamed texts calls)
    (hbalanced : ∀ o o', [o, o'] <:+: calls → Balanced o o')
    (hchoose : ∀ i o, calls[i]? = some o → choose i = pick o) :
    (follow choose calls).cursor = wholeBytes ((lastOutputs calls).of (pick (lastOutputs calls))) ∧
      ∀ a k, (follow choose calls).calls.countP (fun result => (result.of a).covers k) =
        if k < wholeBytes ((lastOutputs calls).of a) then 1 else 0 := by
  induction calls using List.reverseRecOn with
  | nil =>
    refine ⟨rfl, fun a k => ?_⟩
    rw [if_neg]
    · rfl
    · cases a
      · exact Nat.not_lt_zero k
      · exact Nat.not_lt_zero k
  | append_singleton calls outputs ih =>
    obtain ⟨hcursor, hcount⟩ := ih hstreamed.init
      (fun o o' ho => hbalanced o o' (ho.trans (List.prefix_append ..).isInfix))
      (fun i o ho => hchoose i o (by
        rw [List.getElem?_append_left (List.getElem?_eq_some_iff.mp ho).1, ho]))
    have hlast : lastOutputs (calls ++ [outputs]) = outputs := by
      rw [lastOutputs, List.getLast?_concat, Option.getD_some]
    have htext := hstreamed.isText outputs (List.mem_append_right _ List.mem_cons_self)
    have hgrows := hstreamed.grows_last
    have hnext : Balanced (lastOutputs calls) outputs := by
      cases calls using List.reverseRecOn with
      | nil =>
        intro a hlt
        cases a <;> exact absurd hlt (Nat.lt_irrefl 0)
      | append_singleton calls last =>
        rw [lastOutputs, List.getLast?_concat]
        exact hbalanced last outputs ⟨calls, [], by simp⟩
    have hpick : choose (follow choose calls).calls.length = pick outputs := by
      rw [length_follow]
      exact hchoose _ _ List.getElem?_concat_length
    rw [follow_concat, hlast, hpick]
    generalize lastOutputs calls = last at hcursor hcount hgrows hnext
    refine ⟨?_, fun a k => ?_⟩
    · rw [Client.called]
      dsimp only
      rw [pages_of, hcursor, hnext.pick_next htext hgrows, Option.getD_some]
    · have hcovers : ((pages outputs (follow choose calls).cursor).of a).covers k = true ↔
          wholeBytes (last.of a) ≤ k ∧ k < wholeBytes (outputs.of a) := by
        rw [pages_of, hcursor]
        exact covers_page_of_fits (htext a) (hgrows a) (pick_low last a) (hnext.pick_high a)
      have hle := wholeBytes_le (htext a) (hgrows a)
      rw [Client.called]
      dsimp only
      rw [List.countP_append, hcount, List.countP_singleton]
      by_cases hk : k < wholeBytes (last.of a)
      · rw [if_pos hk, if_neg (mt hcovers.mp (by omega)), if_pos (by omega)]
      · by_cases hk' : k < wholeBytes (outputs.of a)
        · rw [if_neg hk, if_pos (hcovers.mpr ⟨Nat.le_of_not_lt hk, hk'⟩), if_pos hk']
        · rw [if_neg hk, if_neg (mt hcovers.mp (by omega)), if_neg hk']

theorem wholeBytes_le_length (h : stream <+: encode text) : wholeBytes stream ≤ stream.length := by
  obtain ⟨begun, hstream, -⟩ := exists_of_streamed h
  rw [congrArg List.length hstream, List.length_append]
  exact Nat.le_add_right _ _

theorem nextCursor_page (h : stream <+: encode text) (cursor : ℕ) :
    ∃ next, (page stream cursor).nextCursor = some next ∧ wholeBytes stream ≤ next ∧
      next ≤ stream.length ∧ (cursor ≤ wholeBytes stream → next = wholeBytes stream) ∧
        (wholeBytes stream < cursor → next = stream.length) := by
  by_cases hle : cursor ≤ wholeBytes stream
  · obtain ⟨_, _, -, hpage, -⟩ := page_of_le h hle
    rw [hpage]
    exact ⟨_, rfl, le_rfl, wholeBytes_le_length h, fun _ => rfl, fun hgt => absurd hle hgt.not_ge⟩
  · rw [page_of_gt h (Nat.lt_of_not_le hle)]
    exact ⟨_, rfl, wholeBytes_le_length h, le_rfl, fun hle' => absurd hle' hle, fun _ => rfl⟩

theorem later_calls (texts : Stream → List Char) (choose : ℕ → Stream) (calls : List Outputs)
    (client : Client) (hclient : k < client.cursor)
    (hcalls : ∀ o ∈ calls, ∀ a, o.of a <+: encode (texts a) ∧ k < wholeBytes (o.of a)) :
    ∃ more, (calls.foldl (fun client outputs =>
        client.called (choose client.calls.length) (pages outputs client.cursor)) client).calls =
          client.calls ++ more ∧ ∀ result ∈ more, ∀ a, (result.of a).covers k = false := by
  induction calls generalizing client with
  | nil => exact ⟨[], (List.append_nil _).symm, nofun⟩
  | cons outputs calls ih =>
    have hfirst := hcalls outputs List.mem_cons_self
    obtain ⟨next, hnext, hwhole, -⟩ :=
      nextCursor_page (hfirst (choose client.calls.length)).1 client.cursor
    obtain ⟨more, hmore, hcovers⟩ := ih
      (client.called (choose client.calls.length) (pages outputs client.cursor))
      (by
        rw [Client.called]
        dsimp only
        rw [pages_of, hnext, Option.getD_some]
        exact (hfirst _).2.trans_le hwhole)
      (fun o ho => hcalls o (List.mem_cons_of_mem _ ho))
    refine ⟨pages outputs client.cursor :: more, ?_, fun result hresult a => ?_⟩
    · rw [List.foldl_cons, hmore, Client.called]
      exact List.append_assoc ..
    · obtain rfl | hresult := List.mem_cons.mp hresult
      · rw [pages_of, Bool.eq_false_iff, ne_eq, covers_page_iff (hfirst a).1]
        rintro ⟨-, front, -, hlow, hle⟩
        exact absurd hclient (Nat.not_lt.mpr (hlow.trans hle))
      · exact hcovers result hresult a

theorem exists_of_mem_calls {result : ManagedProcessLogs}
    (h : result ∈ (follow choose calls).calls) : ∃ o ∈ calls, ∃ cursor, result = pages o cursor := by
  induction calls using List.reverseRecOn with
  | nil => exact absurd h List.not_mem_nil
  | append_singleton calls outputs ih =>
    rw [follow_concat] at h
    obtain h | h := List.mem_append.mp h
    · obtain ⟨o, ho, hresult⟩ := ih h
      exact ⟨o, List.mem_append_left _ ho, hresult⟩
    · exact ⟨outputs, List.mem_append_right _ List.mem_cons_self, _, List.mem_singleton.mp h⟩

theorem covered_or_cursor_le (choose : ℕ → Stream)
    (htext : ∀ o ∈ calls, ∀ a, o.of a <+: encode (texts a)) (hfront : front <+: texts a)
    (hother : ∀ o ∈ calls, (o.of a.other).length ≤ (encode front).length) :
    (∃ result ∈ (follow choose calls).calls, (result.of a).covers (encode front).length = true) ∨
      (follow choose calls).cursor ≤ (encode front).length := by
  induction calls using List.reverseRecOn with
  | nil => exact .inr (Nat.zero_le _)
  | append_singleton calls outputs ih =>
    have hmem : outputs ∈ calls ++ [outputs] := List.mem_append_right _ List.mem_cons_self
    rw [follow_concat]
    obtain ⟨result, hresult, hcovers⟩ | hcursor := ih
      (fun o ho => htext o (List.mem_append_left _ ho))
      (fun o ho => hother o (List.mem_append_left _ ho))
    · exact .inl ⟨result, List.mem_append_left _ hresult, hcovers⟩
    obtain ⟨-, -, -, -, hmax⟩ := exists_of_streamed (htext outputs hmem a)
    by_cases hwhole : (encode front).length < wholeBytes (outputs.of a)
    · refine .inl ⟨_, List.mem_append_right _ List.mem_cons_self, ?_⟩
      rw [pages_of, covers_page_iff (htext outputs hmem a)]
      exact ⟨hwhole, front, hmax front hfront
        (hwhole.le.trans (wholeBytes_le_length (htext outputs hmem a))), hcursor, le_rfl⟩
    · refine .inr ?_
      rw [Client.called]
      dsimp only
      rw [pages_of]
      obtain hchoose | hchoose := (choose (follow choose calls).calls.length).eq_or_eq_other a
      · obtain ⟨next, hnext, -, -, hend, hall⟩ :=
          nextCursor_page (htext outputs hmem a) (follow choose calls).cursor
        rw [hchoose, hnext, Option.getD_some]
        by_cases hle : (follow choose calls).cursor ≤ wholeBytes (outputs.of a)
        · exact (hend hle).le.trans (Nat.le_of_not_lt hwhole)
        · -- The character has not begun, since the cursor is behind the whole ones.
          rw [hall (Nat.lt_of_not_le hle)]
          by_contra hgt
          exact hle (hcursor.trans (length_encode_le (hmax front hfront (Nat.le_of_not_le hgt))))
      · obtain ⟨next, hnext, -, hle, -⟩ :=
          nextCursor_page (htext outputs hmem a.other) (follow choose calls).cursor
        rw [hchoose, hnext, Option.getD_some]
        exact hle.trans (hother outputs hmem)

theorem Streamed.around {past future : List Outputs} (h : Streamed texts (past ++ outputs :: future)) :
    (∀ o ∈ past, ∀ a, o.of a <+: outputs.of a) ∧
      ∀ o ∈ outputs :: future, ∀ a, outputs.of a <+: o.of a := by
  obtain ⟨-, hnow, hpast⟩ := List.pairwise_append.mp h.grows
  refine ⟨fun o ho => hpast o ho outputs List.mem_cons_self, fun o ho a => ?_⟩
  obtain rfl | ho := List.mem_cons.mp ho
  · exact List.prefix_rfl
  · exact (List.pairwise_cons.mp hnow).1 o ho a

theorem wholeBytes_lt (htext : stream' <+: encode text) (hgrows : stream <+: stream')
    (hne : wholeText stream' ≠ wholeText stream) : wholeBytes stream < wholeBytes stream' := by
  by_contra hge
  have hnil : wholeText stream' ≠ [] := by
    intro hnil
    have hprefix := wholeText_mono htext hgrows
    rw [hnil, List.prefix_nil] at hprefix
    exact hne (hnil.trans hprefix.symm)
  exact hne (eq_of_length_encode_lt (wholeText_mono htext hgrows)
    ((lastBegin_lt hnil).trans_le (Nat.le_of_not_lt hge))).symm

theorem calls_prefix (choose : ℕ → Stream) (calls more : List Outputs) :
    (follow choose calls).calls <+: (follow choose (calls ++ more)).calls := by
  induction more using List.reverseRecOn with
  | nil => rw [List.append_nil]
  | append_singleton more outputs ih =>
    rw [← List.append_assoc, follow_concat]
    exact ih.trans (List.prefix_append ..)

theorem CoveredOnce.countP {past future : List Outputs} {results : List ManagedProcessLogs}
    (honce : CoveredOnce (past ++ outputs :: future) results)
    (hstreamed : Streamed texts (past ++ outputs :: future)) (hk : k < wholeBytes (outputs.of a)) :
    results.countP (fun result => (result.of a).covers k) = 1 := by
  have hlast : (past ++ outputs :: future).getLast? =
      some ((outputs :: future).getLast (List.cons_ne_nil _ _)) := by
    rw [List.getLast?_append, List.getLast?_eq_some_getLast (List.cons_ne_nil _ _), Option.some_or]
  have hmem := List.getLast_mem (List.cons_ne_nil outputs future)
  exact honce _ hlast a k (hk.trans_le (wholeBytes_le
    (hstreamed.isText _ (List.mem_append_right _ hmem) a) (hstreamed.around.2 _ hmem a)))

theorem CoveredOnce.cursor_le {past future : List Outputs}
    (honce : CoveredOnce (past ++ outputs :: outputs' :: future)
      (follow choose (past ++ outputs :: outputs' :: future)).calls)
    (hstreamed : Streamed texts (past ++ outputs :: outputs' :: future))
    (hlt : wholeBytes (outputs.of a) < wholeBytes (outputs.of a.other))
    (hmore : wholeBytes (outputs.of a) < wholeBytes (outputs'.of a)) :
    (follow choose (past ++ [outputs])).cursor ≤ wholeBytes (outputs.of a) := by
  by_contra hgt
  have hbefore := hstreamed.around.1
  have hassoc : past ++ outputs :: outputs' :: future = past ++ [outputs] ++ outputs' :: future := by
    rw [List.append_assoc, List.singleton_append]
  rw [hassoc] at honce hstreamed
  obtain ⟨hpast, hfuture⟩ := hstreamed.around
  have htext := hstreamed.isText
  obtain ⟨more, hcalls, hmoreCovers⟩ := later_calls texts choose
    (outputs' :: future) _ (Nat.lt_of_not_le hgt) (fun o ho b => by
      have htextLater := htext o (List.mem_append_right _ ho) b
      refine ⟨htextLater, lt_of_lt_of_le ?_ (wholeBytes_le htextLater (hfuture o ho b))⟩
      obtain rfl | rfl := b.eq_or_eq_other a
      · exact hmore
      · refine hlt.trans_le (wholeBytes_le (htext outputs' (by simp) _) ?_)
        exact hpast outputs (by simp) _)
  have hcount := honce.countP hstreamed hmore
  rw [follow, List.foldl_append, ← follow, hcalls, List.countP_append, List.countP_eq_zero.mpr,
    List.countP_eq_zero.mpr] at hcount
  · exact absurd hcount (by decide)
  · exact fun result hresult => by rw [hmoreCovers result hresult]; nofun
  · intro result hresult hcovers
    obtain ⟨o, ho, cursor, rfl⟩ := exists_of_mem_calls hresult
    have htextEarlier := htext o (List.mem_append_left _ ho) a
    rw [pages_of, covers_page_iff htextEarlier] at hcovers
    refine absurd hcovers.1 (Nat.not_lt.mpr ?_)
    obtain ho | ho := List.mem_append.mp ho
    · exact wholeBytes_le (htext outputs (by simp) a) (hbefore o ho a)
    · rw [List.mem_singleton.mp ho]

theorem exists_covers_of_cursor_le {past : List Outputs}
    (hstreamed : Streamed texts (past ++ [outputs]))
    (hlt : wholeBytes (outputs.of a) < wholeBytes (outputs.of a.other))
    (hcursor : (follow choose (past ++ [outputs])).cursor ≤ wholeBytes (outputs.of a))
    (hinside : wholeBytes (outputs.of a) ≤ lastBegin (outputs.of a.other)) :
    ∃ result ∈ (follow choose (past ++ [outputs])).calls,
      (result.of a.other).covers (lastBegin (outputs.of a.other)) = true := by
  have htext := hstreamed.isText
  have htextNow := htext outputs (by simp)
  have hwhole : wholeText (outputs.of a.other) ≠ [] := by
    intro hnil
    rw [wholeBytes.eq_1 (outputs.of a.other), hnil] at hlt
    exact absurd hlt (Nat.not_lt_zero _)
  rw [follow_concat] at hcursor ⊢
  by_cases hle : (follow choose past).cursor ≤ lastBegin (outputs.of a.other)
  · refine ⟨_, List.mem_append_right _ List.mem_cons_self, ?_⟩
    rw [pages_of, covers_page_iff (htextNow _)]
    exact ⟨lastBegin_lt hwhole, _, List.dropLast_prefix _, hle, le_rfl⟩
  · -- The cursor comes from the stream that is behind, and all of it had been written.
    have hbehind : (outputs.of a).length ≤ lastBegin (outputs.of a.other) := by
      rw [Client.called] at hcursor
      dsimp only at hcursor
      rw [pages_of] at hcursor
      obtain hchoose | hchoose := (choose (follow choose past).calls.length).eq_or_eq_other a
      · obtain ⟨next, hnext, -, -, -, hall⟩ :=
          nextCursor_page (htextNow a) (follow choose past).cursor
        rw [hchoose, hnext, Option.getD_some, hall (hinside.trans_lt (Nat.lt_of_not_le hle))] at hcursor
        exact hcursor.trans hinside
      · obtain ⟨next, hnext, hwhole, -⟩ :=
          nextCursor_page (htextNow a.other) (follow choose past).cursor
        rw [hchoose, hnext, Option.getD_some] at hcursor
        exact absurd (hwhole.trans hcursor) (Nat.not_le.mpr hlt)
    obtain ⟨-, -, -, hprefix, -⟩ := exists_of_streamed (htextNow a.other)
    obtain ⟨result, hresult, hcovers⟩ | hcursor := covered_or_cursor_le choose
      (fun o ho => htext o (List.mem_append_left _ ho)) ((List.dropLast_prefix _).trans hprefix)
      (fun o ho => by
        rw [Stream.other_other]
        exact (hstreamed.around.1 o ho a).length_le.trans hbehind)
    · exact ⟨result, List.mem_append_left _ hresult, hcovers⟩
    · exact absurd hcursor hle

theorem CoveredOnce.balanced (past future : List Outputs)
    (honce : CoveredOnce (past ++ outputs :: outputs' :: future)
      (follow choose (past ++ outputs :: outputs' :: future)).calls)
    (hstreamed : Streamed texts (past ++ outputs :: outputs' :: future)) :
    Balanced outputs outputs' := by
  intro a hlt
  by_cases hsame : wholeText (outputs'.of a) = wholeText (outputs.of a)
  · exact .inl hsame
  refine .inr ?_
  by_contra hinside
  have htextNow := hstreamed.isText outputs (by simp)
  have htextNext := hstreamed.isText outputs' (by simp)
  have hgrows := hstreamed.around.2 outputs' (by simp)
  have hcursor := honce.cursor_le hstreamed hlt (wholeBytes_lt (htextNext a) (hgrows a) hsame)
  have hwhole : wholeText (outputs.of a.other) ≠ [] := by
    intro hnil
    rw [wholeBytes.eq_1 (outputs.of a.other), hnil] at hlt
    exact absurd hlt (Nat.not_lt_zero _)
  have hcount := honce.countP hstreamed (lastBegin_lt hwhole)
  have hassoc : past ++ outputs :: outputs' :: future =
      past ++ [outputs] ++ [outputs'] ++ future := by simp
  rw [hassoc] at hstreamed hcount
  -- The last character of the stream that is ahead is returned before and after the cursor.
  obtain ⟨result, hresult, hbefore⟩ := exists_covers_of_cursor_le hstreamed.init.init hlt hcursor
    (Nat.le_of_not_lt hinside)
  have hafter : ((pages outputs' (follow choose (past ++ [outputs])).cursor).of a.other).covers
      (lastBegin (outputs.of a.other)) = true := by
    rw [pages_of, covers_page_iff (htextNext _)]
    exact ⟨(lastBegin_lt hwhole).trans_le (wholeBytes_le (htextNext _) (hgrows _)), _,
      (List.dropLast_prefix _).trans (wholeText_mono (htextNext _) (hgrows _)),
      hcursor.trans (Nat.le_of_not_lt hinside), le_rfl⟩
  have hprefix := calls_prefix choose (past ++ [outputs] ++ [outputs']) future
  rw [follow_concat] at hprefix
  obtain ⟨more, hcalls⟩ := hprefix
  have hpos : 0 < (follow choose (past ++ [outputs])).calls.countP
      fun result => (result.of a.other).covers (lastBegin (outputs.of a.other)) :=
    List.countP_pos_iff.mpr ⟨result, hresult, hbefore⟩
  rw [← hcalls, Client.called] at hcount
  dsimp only at hcount
  rw [List.countP_append, List.countP_append, List.countP_singleton, if_pos hafter] at hcount
  omega

theorem exists_coveredOnce_iff (hstreamed : Streamed texts calls) :
    (∃ choose, CoveredOnce calls (follow choose calls).calls) ↔
      ∀ o o', [o, o'] <:+: calls → Balanced o o' := by
  constructor
  · rintro ⟨choose, honce⟩ o o' ⟨past, future, rfl⟩
    rw [List.append_assoc] at honce hstreamed
    exact CoveredOnce.balanced past future honce hstreamed
  · intro hbalanced
    refine ⟨fun i => pick (calls.getD i ⟨[], []⟩), fun last hlast a k hk => ?_⟩
    obtain ⟨-, hcount⟩ := follow_picked (fun i => pick (calls.getD i ⟨[], []⟩)) hstreamed
      hbalanced (fun i o ho => by
        rw [List.getD_eq_getElem?_getD, ho, Option.getD_some])
    rw [hcount, lastOutputs, Option.mem_def.mp hlast, Option.getD_some, if_pos hk]

/-! ## The calls of a process -/

namespace History

variable {h : History}

theorem prefix_append (outputs : Outputs) (chunk : Bytes) (b a : Stream) :
    outputs.of a <+: (outputs.append chunk b).of a := by
  cases a <;> cases b <;> first | exact List.prefix_rfl | exact List.prefix_append ..

theorem prefix_step (h : History) (e : LogEvent) (a : Stream) :
    h.outputs.of a <+: (h.step e).outputs.of a := by
  cases e with
  | output b chunk => exact prefix_append h.outputs chunk b a
  | created | counted | call => exact List.prefix_rfl

theorem settled_of_step {e : LogEvent} (hsettled : (h.step e).settled = true) : h.settled = true := by
  cases e with
  | call => exact (Bool.and_eq_true_iff.mp hsettled).1
  | output | created | counted => exact hsettled

theorem ofEvents_concat (events : List LogEvent) (e : LogEvent) :
    ofEvents (events ++ [e]) = (ofEvents events).step e :=
  List.foldl_concat ..

theorem calls_prefix_outputs (events : List LogEvent) :
    ∀ o ∈ (ofEvents events).calls, ∀ a, o.of a <+: (ofEvents events).outputs.of a := by
  induction events using List.reverseRecOn with
  | nil => exact nofun
  | append_singleton events e ih =>
    rw [ofEvents_concat]
    intro o ho a
    cases e with
    | call =>
      obtain ho | ho := List.mem_append.mp ho
      · exact ih o ho a
      · exact List.mem_singleton.mp ho ▸ List.prefix_rfl
    | output | created | counted => exact (ih o ho a).trans (prefix_step _ _ a)

theorem streamed_ofEvents {events : List LogEvent}
    (htext : ∀ a, (ofEvents events).outputs.of a <+: encode (texts a)) :
    Streamed texts (ofEvents events).calls := by
  refine ⟨fun o ho a => (calls_prefix_outputs events o ho a).trans (htext a), ?_⟩
  clear htext
  induction events using List.reverseRecOn with
  | nil => exact .nil
  | append_singleton events e ih =>
    rw [ofEvents_concat]
    cases e with
    | call =>
      refine List.pairwise_append.mpr ⟨ih, List.pairwise_singleton _ _, fun o ho o' ho' => ?_⟩
      rw [List.mem_singleton.mp ho']
      exact calls_prefix_outputs events o ho
    | output | created | counted => exact ih

end History

def LogRecord.isPersistent : LogRecord → Bool
  | .memory _ _ => false
  | .persistent _ _ _ => true

namespace LoggedProcess

def Serves (s : LoggedProcess) (h : History) : Prop :=
  match s.record with
  | .memory stdout stderr => stdout.Holds h.outputs.stdout ∧ stderr.Holds h.outputs.stderr ∧
      stdout.maxBytes = s.maxBytes ∧ stderr.maxBytes = s.maxBytes
  | .persistent stdoutPath stderrPath cursorPath =>
    stdoutPath.getD [] = h.outputs.stdout ∧ stderrPath.getD [] = h.outputs.stderr ∧
      s.offsets = (h.outputs.stdout.length, h.outputs.stderr.length) ∧
        (h.counted = true → cursorPath.getD (0, 0) = s.offsets)

variable {s : LoggedProcess} {h : History}

theorem Serves.logs_eq (hserves : s.Serves h) (hfits : ∀ a, (h.outputs.of a).length ≤ s.maxBytes)
    (hcounted : s.record.isPersistent = true → h.counted = true) (cursor : ℕ) :
    logs s.record (some cursor) = pages h.outputs cursor := by
  obtain ⟨maxBytes, record, offsets, client⟩ := s
  cases record with
  | memory stdout stderr =>
    obtain ⟨hstdout, hstderr, hmax, hmax'⟩ := hserves
    rw [logs, pages, hstdout.snapshot_eq_page (hmax.symm ▸ hfits .stdout),
      hstderr.snapshot_eq_page (hmax'.symm ▸ hfits .stderr)]
  | persistent stdoutPath stderrPath cursorPath =>
    obtain ⟨hstdout, hstderr, hoffsets, hcursor⟩ := hserves
    rw [logs, pages, hcursor (hcounted rfl), hoffsets, ← hstdout, ← hstderr]
    dsimp only
    rw [readStream_eq_page, readStream_eq_page]

theorem Serves.step (hserves : s.Serves h) (choose : ℕ → Stream) (e : LogEvent)
    (hfits : ∀ a, ((h.step e).outputs.of a).length ≤ s.maxBytes) :
    (s.step choose e).Serves (h.step e) ∧ (s.step choose e).maxBytes = s.maxBytes ∧
      (s.step choose e).record.isPersistent = s.record.isPersistent := by
  obtain ⟨maxBytes, record, offsets, client⟩ := s
  cases record with
  | memory stdout stderr =>
    obtain ⟨hstdout, hstderr, hmax, hmax'⟩ := hserves
    cases e with
    | output b chunk =>
      cases b with
      | stdout =>
        exact ⟨⟨hstdout.append chunk, hstderr, (stdout.maxBytes_append chunk).trans hmax, hmax'⟩,
          rfl, rfl⟩
      | stderr =>
        exact ⟨⟨hstdout, hstderr.append chunk, hmax, (stderr.maxBytes_append chunk).trans hmax'⟩,
          rfl, rfl⟩
    | created | counted | call => exact ⟨⟨hstdout, hstderr, hmax, hmax'⟩, rfl, rfl⟩
  | persistent stdoutPath stderrPath cursorPath =>
    obtain ⟨hstdout, hstderr, rfl, hcursor⟩ := hserves
    cases e with
    | output b chunk =>
      cases b with
      | stdout =>
        have hle := hfits .stdout
        refine ⟨⟨?_, hstderr, ?_, nofun⟩, rfl, rfl⟩
        · rw [Option.getD_some, appendBounded, hstdout]
          exact if_pos hle
        · show (_ + chunk.length, _) = ((h.outputs.stdout ++ chunk).length, h.outputs.stderr.length)
          rw [List.length_append]
      | stderr =>
        have hle := hfits .stderr
        refine ⟨⟨hstdout, ?_, ?_, nofun⟩, rfl, rfl⟩
        · rw [Option.getD_some, appendBounded, hstderr]
          exact if_pos hle
        · show (_, _ + chunk.length) = (h.outputs.stdout.length, (h.outputs.stderr ++ chunk).length)
          rw [List.length_append]
    | created => exact ⟨⟨hstdout, hstderr, rfl, hcursor⟩, rfl, rfl⟩
    | counted => exact ⟨⟨hstdout, hstderr, rfl, fun _ => rfl⟩, rfl, rfl⟩
    | call => exact ⟨⟨hstdout, hstderr, rfl, hcursor⟩, rfl, rfl⟩

theorem run_concat (maxBytes : ℕ) (persistent : Bool) (choose : ℕ → Stream) (events : List LogEvent)
    (e : LogEvent) : run maxBytes persistent choose (events ++ [e]) =
      (run maxBytes persistent choose events).step choose e :=
  List.foldl_concat ..

theorem run_follows (maxBytes : ℕ) (persistent : Bool) (choose : ℕ → Stream) {events : List LogEvent}
    (hfits : ∀ a, ((History.ofEvents events).outputs.of a).length ≤ maxBytes)
    (hsettled : persistent = true → (History.ofEvents events).settled = true) :
    (run maxBytes persistent choose events).Serves (History.ofEvents events) ∧
      (run maxBytes persistent choose events).maxBytes = maxBytes ∧
      (run maxBytes persistent choose events).record.isPersistent = persistent ∧
      (run maxBytes persistent choose events).client =
        follow choose (History.ofEvents events).calls := by
  induction events using List.reverseRecOn with
  | nil =>
    cases persistent with
    | false => exact ⟨⟨TailBuffer.holds_create _, TailBuffer.holds_create _, rfl, rfl⟩, rfl, rfl, rfl⟩
    | true => exact ⟨⟨rfl, rfl, rfl, fun _ => rfl⟩, rfl, rfl, rfl⟩
  | append_singleton events e ih =>
    rw [History.ofEvents_concat] at hfits hsettled ⊢
    rw [run_concat]
    have hfits' (a : Stream) := ((History.prefix_step (History.ofEvents events) e a).length_le).trans
      (hfits a)
    obtain ⟨hserves, hmax, hpersistent, hclient⟩ :=
      ih hfits' fun h => History.settled_of_step (hsettled h)
    obtain ⟨hserves', hmax', hpersistent'⟩ := hserves.step choose e (hmax.symm ▸ hfits)
    refine ⟨hserves', hmax'.trans hmax, hpersistent'.trans hpersistent, ?_⟩
    cases e with
    | call =>
      have hlogs := hserves.logs_eq (hmax.symm ▸ hfits') (fun h =>
        (Bool.and_eq_true_iff.mp (hsettled (hpersistent.symm.trans h))).2)
      rw [step, History.step]
      dsimp only
      rw [hlogs, follow_concat, hclient]
    | output | created | counted =>
      unfold step
      dsimp only
      split <;> exact hclient

/-- A client of a process of which no output is lost can choose its cursors so that it sees every byte
once, if and only if the outputs are balanced between any two calls. -/
theorem coveredOnce_iff (maxBytes : ℕ) (persistent : Bool) (texts : Stream → List Char) {events : List LogEvent}
    (htext : ∀ a, (History.ofEvents events).outputs.of a <+: encode (texts a))
    (hfits : ∀ a, ((History.ofEvents events).outputs.of a).length ≤ maxBytes)
    (hsettled : persistent = true → (History.ofEvents events).settled = true) :
    (∃ choose, CoveredOnce (History.ofEvents events).calls
        (run maxBytes persistent choose events).client.calls) ↔
      ∀ o o', [o, o'] <:+: (History.ofEvents events).calls → Balanced o o' := by
  rw [← exists_coveredOnce_iff (History.streamed_ofEvents htext)]
  refine exists_congr fun choose => ?_
  rw [(run_follows maxBytes persistent choose hfits hsettled).2.2.2]

def bothStreams : List LogEvent :=
  [.created, .counted, .output .stdout [0x61, 0x62, 0x63], .output .stderr [0x64], .counted, .call,
    .output .stdout [0x65], .output .stderr [0x66], .counted, .call]

theorem coveredOnce_iff_example :
    (∃ choose, CoveredOnce (History.ofEvents bothStreams).calls
        (run 8 true choose bothStreams).client.calls) ↔
      ∀ o o', [o, o'] <:+: (History.ofEvents bothStreams).calls → Balanced o o' :=
  coveredOnce_iff 8 true (fun | .stdout => ['a', 'b', 'c', 'e'] | .stderr => ['d', 'f'])
    (fun a => by cases a <;> exact ⟨[], by decide⟩) (fun a => by cases a <;> decide) fun _ => by decide

/-- No cursor reads on where both streams have gone on. -/
theorem not_coveredOnce_run : ¬ ∀ (maxBytes : ℕ) (persistent : Bool) (texts : Stream → List Char)
    (events : List LogEvent),
    (∀ a, (History.ofEvents events).outputs.of a <+: encode (texts a)) →
    (∀ a, ((History.ofEvents events).outputs.of a).length ≤ maxBytes) →
    (persistent = true → (History.ofEvents events).settled = true) →
      ∃ choose, CoveredOnce (History.ofEvents events).calls
        (run maxBytes persistent choose events).client.calls := by
  intro h
  have htext : ∀ a, (History.ofEvents bothStreams).outputs.of a <+:
      encode ((fun | .stdout => ['a', 'b', 'c', 'e'] | .stderr => ['d', 'f'] : Stream → List Char) a) :=
    fun a => by cases a <;> exact ⟨[], by decide⟩
  have hfits : ∀ a, ((History.ofEvents bothStreams).outputs.of a).length ≤ 8 :=
    fun a => by cases a <;> decide
  obtain ⟨choose, honce⟩ := h 8 false _ bothStreams htext hfits nofun
  rw [(run_follows 8 false choose hfits nofun).2.2.2] at honce
  have hbalanced := CoveredOnce.balanced [] [] honce
    (History.streamed_ofEvents htext)
  obtain hsame | hinside := hbalanced .stderr (by decide +kernel)
  · exact absurd hsame (by decide +kernel)
  · exact absurd hinside (by decide +kernel)

end LoggedProcess

end Process
