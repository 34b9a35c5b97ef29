import ChatgptSystem.Foundations.Lines

/-!
# Requests as lines

The host reads its requests as lines of bytes, which arrive in chunks of any size: `NDJSONFramer` of
`NDJSONFramer.swift` cuts the chunks into frames, and `NDJSONHostServer` of `NDJSONHostServer.swift`
answers them.

* `NDJSONFramer.append`, `NDJSONFramer.finish`, `NDJSONHostServer.run` — the source's functions;
* `deliver` — the frames that are handed out for a sequence of chunks, and how it ends;
* `Steady` — the streams whose frames do not depend on the chunks;
* `deliver_independent_iff_steady` — only for these are framing and answers independent of them.
-/

open Lines (newline carriageReturn dropReturn length_dropReturn)

namespace NDJSON

/-! ## The framer -/

inductive NDJSONFramingError where
  | lineTooLarge
  | emptyLine
  | incompleteFrame
  deriving DecidableEq, Repr

structure NDJSONFramer where
  buffer : Bytes
  maxLineBytes : ℕ
  /-- `precondition(maxLineBytes > 0)`. -/
  maxLineBytes_pos : 0 < maxLineBytes

/-- The loop of `append`: what is left in the buffer, and the frames, unless a line is refused. -/
def takeFrames (maxLineBytes : ℕ) (buffer : Bytes) (frames : List Bytes) :
    Bytes × Except NDJSONFramingError (List Bytes) :=
  match _h : Lines.first newline buffer with
  | some found =>
    let line := dropReturn found.1
    if line = [] then (found.2, .error .emptyLine)
    else if line.length > maxLineBytes then (found.2, .error .lineTooLarge)
    else takeFrames maxLineBytes found.2 (frames ++ [line])
  | none =>
    if buffer.length > maxLineBytes then (buffer, .error .lineTooLarge) else (buffer, .ok frames)
termination_by buffer.length
decreasing_by exact Lines.length_of_first _h

namespace NDJSONFramer

def new (maxLineBytes : ℕ) (h : 0 < maxLineBytes) : NDJSONFramer :=
  { buffer := [], maxLineBytes, maxLineBytes_pos := h }

def append (framer : NDJSONFramer) (data : Bytes) :
    NDJSONFramer × Except NDJSONFramingError (List Bytes) :=
  let taken := takeFrames framer.maxLineBytes (framer.buffer ++ data) []
  ({ framer with buffer := taken.1 }, taken.2)

def finish (framer : NDJSONFramer) : Except NDJSONFramingError Unit :=
  if framer.buffer = [] then .ok () else .error .incompleteFrame

end NDJSONFramer

/-- The frames that are handed out for the chunks of a stream, and how the stream ends. -/
def deliver : NDJSONFramer → List Bytes → List Bytes × Except NDJSONFramingError Unit
  | framer, [] => ([], framer.finish)
  | framer, chunk :: chunks =>
    match framer.append chunk with
    | (_, .error e) => ([], .error e)
    | (framer, .ok frames) => (frames ++ (deliver framer chunks).1, (deliver framer chunks).2)

/-! ## The server -/

/-- What the server calls: the decoder of requests, the service with its state, and the encoder of
responses. -/
structure HostService (σ Request Response : Type) where
  decodeStrict : Bytes → Option Request
  handle : Request → σ → Response × σ
  shutdown : σ → σ
  requestId : Response → String
  /-- `ComputerProtocolResponse.failure(requestId:code:message:)`. -/
  failure : (requestId code message : String) → Response
  /-- `JSONEncoder().encode`, which may throw. -/
  encode : Response → Option Bytes

namespace NDJSONHostServer

def maxRequestLineBytes : ℕ := 262144
def maxResponseBytes : ℕ := 12582912
def readChunkBytes : ℕ := 4096

variable {σ Request Response : Type} (service : HostService σ Request Response)

/-- The bytes of a response of at most `maxBytes`; `none` where the source throws. -/
def encodeBounded (response : Response) (maxBytes : ℕ) : Option Bytes := do
  let encoded ← service.encode response
  if encoded.length > maxBytes then
    let fallbackData ← service.encode (service.failure (service.requestId response)
      "COMPUTER_OUTPUT_LIMIT" "Computer runtime output exceeded the limit.")
    guard (fallbackData.length ≤ maxBytes)
    return fallbackData
  else return encoded

def outputLimitResponse : Bytes :=
  Bytes.ascii ("\x7b\"protocolVersion\":1,\"requestId\":\"unknown\",\"ok\":false,\"error\":\x7b" ++
    "\"code\":\"COMPUTER_OUTPUT_LIMIT\",\"message\":\"Computer runtime output exceeded the " ++
    "limit.\"\x7d\x7d")

def responseData (frame : Bytes) (state : σ) : Bytes × σ :=
  let answered := match service.decodeStrict frame with
    | some request => service.handle request state
    | none => (service.failure "unknown" "COMPUTER_PROTOCOL_INVALID"
        "Invalid computer runtime request.", state)
  ((encodeBounded service answered.1 maxResponseBytes).getD outputLimitResponse, answered.2)

/-- `for frame in frames`: the output, and the state of the service. -/
def answer : List Bytes → σ → Bytes × σ
  | [], state => ([], state)
  | frame :: frames, state =>
    let response := responseData service frame state
    let later := answer frames response.2
    (response.1 ++ [newline] ++ later.1, later.2)

/-- The loop over the chunks that are read; an empty one is the end of the input. -/
def runLoop : NDJSONFramer → List Bytes → σ → Bytes × Except NDJSONFramingError Unit × σ
  | framer, [], state => ([], framer.finish, state)
  | framer, chunk :: chunks, state =>
    if chunk = [] then ([], framer.finish, state)
    else match framer.append chunk with
      | (_, .error e) => ([], .error e, state)
      | (framer, .ok frames) =>
        let answered := answer service frames state
        let later := runLoop framer chunks answered.2
        (answered.1 ++ later.1, later.2.1, later.2.2)

/-- The output for the chunks that are read, how the run ends, and the state of the service. -/
def run (chunks : List Bytes) (state : σ) : Bytes × Except NDJSONFramingError Unit × σ :=
  let ended := runLoop service (.new maxRequestLineBytes (by decide)) chunks state
  (ended.1, ended.2.1, service.shutdown ended.2.2)

end NDJSONHostServer

/-! ## Lines that are accepted -/

/-- The line is handed out as a frame when it is read with its terminator. -/
def Accepted (maxLineBytes : ℕ) (line : Bytes) : Prop :=
  dropReturn line ≠ [] ∧ (dropReturn line).length ≤ maxLineBytes

instance (maxLineBytes : ℕ) (line : Bytes) : Decidable (Accepted maxLineBytes line) :=
  inferInstanceAs (Decidable (_ ∧ _))

def refusal (line : Bytes) : NDJSONFramingError :=
  if dropReturn line = [] then .emptyLine else .lineTooLarge

/-- The stream has no complete line, or its first line is refused, or all its lines are accepted
and none of them is over the limit before its carriage return is dropped. -/
def Steady (maxLineBytes : ℕ) (stream : Bytes) : Prop :=
  match Lines.lines newline stream with
  | [] => True
  | line :: lines => ¬ Accepted maxLineBytes line ∨
      (∀ l ∈ line :: lines, Accepted maxLineBytes l ∧ l.length ≤ maxLineBytes) ∧
        (Lines.rest newline stream).length ≤ maxLineBytes

variable {maxLineBytes : ℕ}

theorem takeFrames_rest {buffer : Bytes} (h : newline ∉ buffer) (frames : List Bytes) :
    takeFrames maxLineBytes buffer frames =
      if buffer.length > maxLineBytes then (buffer, .error .lineTooLarge)
      else (buffer, .ok frames) := by
  rw [takeFrames, Lines.first_of_notMem h]

theorem takeFrames_line {line : Bytes} (h : newline ∉ line) (stream : Bytes) (frames : List Bytes) :
    takeFrames maxLineBytes (line ++ newline :: stream) frames =
      if Accepted maxLineBytes line then
        takeFrames maxLineBytes stream (frames ++ [dropReturn line])
      else (stream, .error (refusal line)) := by
  rw [takeFrames, Lines.first_line h]
  simp only [Accepted, refusal]
  by_cases hempty : dropReturn line = []
  · simp [hempty]
  · by_cases hlarge : (dropReturn line).length > maxLineBytes
    · simp [hempty, hlarge, Nat.not_le.mpr hlarge]
    · simp [hempty, hlarge]

theorem takeFrames_of_accepted {buffer : Bytes}
    (hlines : ∀ line ∈ Lines.lines newline buffer, Accepted maxLineBytes line)
    (hrest : (Lines.rest newline buffer).length ≤ maxLineBytes) (frames : List Bytes) :
    takeFrames maxLineBytes buffer frames = (Lines.rest newline buffer,
      .ok (frames ++ (Lines.lines newline buffer).map dropReturn)) := by
  induction buffer using Lines.induction (z := newline) generalizing frames with
  | hrest buffer h =>
    rw [Lines.rest_of_notMem h] at hrest ⊢
    rw [takeFrames_rest h, if_neg (Nat.not_lt.mpr hrest), Lines.lines_of_notMem h]
    simp
  | hline line stream h ih =>
    rw [Lines.lines_line h] at hlines ⊢
    rw [Lines.rest_line h] at hrest ⊢
    rw [takeFrames_line h, if_pos (hlines line List.mem_cons_self),
      ih (fun l hl => hlines l (List.mem_cons_of_mem _ hl)) hrest]
    simp

theorem takeFrames_of_refused {buffer : Bytes}
    (h : (∃ line ∈ Lines.lines newline buffer, ¬ Accepted maxLineBytes line) ∨
      (Lines.rest newline buffer).length > maxLineBytes) (frames : List Bytes) :
    ∃ e, (takeFrames maxLineBytes buffer frames).2 = .error e := by
  induction buffer using Lines.induction (z := newline) generalizing frames with
  | hrest buffer hnone =>
    rw [Lines.lines_of_notMem hnone, Lines.rest_of_notMem hnone] at h
    rcases h with ⟨line, hline, -⟩ | hlarge
    · cases hline
    · exact ⟨.lineTooLarge, by rw [takeFrames_rest hnone, if_pos hlarge]⟩
  | hline line stream hnone ih =>
    rw [takeFrames_line hnone]
    split
    next haccepted =>
      refine ih ?_ _
      rw [Lines.lines_line hnone, Lines.rest_line hnone] at h
      refine h.imp_left fun ⟨l, hl, hrefused⟩ => ⟨l, ?_, hrefused⟩
      rcases List.mem_cons.mp hl with rfl | hl
      · exact absurd haccepted hrefused
      · exact hl
    next => exact ⟨_, rfl⟩

/-! ## Steady streams -/

section Steady

variable {framer : NDJSONFramer} {chunks : List Bytes} {stream : Bytes}

variable (framer) in
theorem deliver_of_no_line (hstream : framer.buffer ++ chunks.flatten = stream)
    (hnone : newline ∉ stream) (hbuffer : framer.buffer.length ≤ framer.maxLineBytes) :
    deliver framer chunks = ([], if stream.length > framer.maxLineBytes then .error .lineTooLarge
      else if stream = [] then .ok () else .error .incompleteFrame) := by
  induction chunks generalizing framer with
  | nil =>
    rw [List.flatten_nil, List.append_nil] at hstream
    rw [hstream] at hbuffer
    rw [if_neg (Nat.not_lt.mpr hbuffer)]
    simp only [deliver, NDJSONFramer.finish, hstream]
  | cons chunk chunks ih =>
    rw [List.flatten_cons, ← List.append_assoc] at hstream
    have hread : newline ∉ framer.buffer ++ chunk := fun hmem =>
      hnone (hstream ▸ List.mem_append_left _ hmem)
    have hlength : (framer.buffer ++ chunk).length ≤ stream.length := by
      rw [← hstream, @List.length_append _ (framer.buffer ++ chunk)]
      omega
    simp only [deliver, NDJSONFramer.append, takeFrames_rest hread]
    by_cases hlarge : (framer.buffer ++ chunk).length > framer.maxLineBytes
    · rw [if_pos hlarge, if_pos (by omega)]
    · rw [if_neg hlarge]
      simp only [ih { framer with buffer := framer.buffer ++ chunk } hstream
        (Nat.le_of_not_lt hlarge), List.nil_append]

variable (framer) in
theorem deliver_of_refused {line later : Bytes} (hline : newline ∉ line)
    (hrefused : ¬ Accepted framer.maxLineBytes line)
    (hstream : framer.buffer ++ chunks.flatten = line ++ newline :: later)
    (hnone : newline ∉ framer.buffer) : deliver framer chunks = ([], .error (refusal line)) := by
  induction chunks generalizing framer with
  | nil =>
    rw [List.flatten_nil, List.append_nil] at hstream
    exact absurd (hstream ▸ List.mem_append_right _ List.mem_cons_self) hnone
  | cons chunk chunks ih =>
    rw [List.flatten_cons, ← List.append_assoc] at hstream
    by_cases hread : newline ∈ framer.buffer ++ chunk
    · obtain ⟨first, more, hfirst, hnewline⟩ := List.eq_append_cons_of_mem hread
      rw [hfirst, List.append_assoc, List.cons_append] at hstream
      obtain ⟨rfl, -⟩ := Bytes.terminated_inj hnewline hline hstream
      simp only [deliver, NDJSONFramer.append, hfirst, takeFrames_line hline, if_neg hrefused]
    · simp only [deliver, NDJSONFramer.append, takeFrames_rest hread]
      by_cases hlarge : (framer.buffer ++ chunk).length > framer.maxLineBytes
      · -- the part that has been read is over the limit already, so the line is not an empty one
        have hlength := Lines.length_le_of_append hread hstream
        have hreturn := length_dropReturn line
        have hpos := framer.maxLineBytes_pos
        rw [if_pos hlarge, refusal, if_neg fun hempty => by rw [hempty] at hreturn; simp at hreturn; omega]
      · rw [if_neg hlarge]
        simp only [ih { framer with buffer := framer.buffer ++ chunk } hrefused hstream
          hread, List.nil_append]

variable (framer) in
theorem deliver_of_accepted (hstream : framer.buffer ++ chunks.flatten = stream)
    (hnone : newline ∉ framer.buffer)
    (hlines : ∀ line ∈ Lines.lines newline stream,
      Accepted framer.maxLineBytes line ∧ line.length ≤ framer.maxLineBytes)
    (hrest : (Lines.rest newline stream).length ≤ framer.maxLineBytes) :
    deliver framer chunks = ((Lines.lines newline stream).map dropReturn,
      if Lines.rest newline stream = [] then .ok () else .error .incompleteFrame) := by
  induction chunks generalizing framer stream with
  | nil =>
    rw [List.flatten_nil, List.append_nil] at hstream
    rw [← hstream, Lines.lines_of_notMem hnone, Lines.rest_of_notMem hnone]
    rfl
  | cons chunk chunks ih =>
    rw [List.flatten_cons, ← List.append_assoc] at hstream
    subst hstream
    have hbuffer : (Lines.rest newline (framer.buffer ++ chunk)).length ≤ framer.maxLineBytes :=
      Lines.length_rest_le (fun line hline => (hlines line hline).2) hrest
    rw [Lines.lines_append (framer.buffer ++ chunk)] at hlines ⊢
    rw [Lines.rest_append (framer.buffer ++ chunk)] at hrest ⊢
    have htaken := takeFrames_of_accepted (fun line hline =>
      (hlines line (List.mem_append_left _ hline)).1) hbuffer []
    have hlater := ih { framer with buffer := Lines.rest newline (framer.buffer ++ chunk) }
      rfl (Lines.notMem_rest _) (fun line hline => hlines line (List.mem_append_right _ hline)) hrest
    simp only [deliver, NDJSONFramer.append, htaken, hlater, List.nil_append, List.map_append]

end Steady

/-! ## Independence of the chunks -/

/-- The frames and the end of a stream do not depend on the chunks it arrives in. -/
def FramesIndependent (maxLineBytes : ℕ) (h : 0 < maxLineBytes) (stream : Bytes) : Prop :=
  ∀ chunks chunks' : List Bytes, chunks.flatten = stream → chunks'.flatten = stream →
    deliver (.new maxLineBytes h) chunks = deliver (.new maxLineBytes h) chunks'

/-- Chunks as `readChunk` returns them before the end of the input. -/
def Read (chunks : List Bytes) (stream : Bytes) : Prop :=
  (∀ chunk ∈ chunks, chunk ≠ [] ∧ chunk.length ≤ NDJSONHostServer.readChunkBytes) ∧
    chunks.flatten = stream

/-- Nor do the answers of the server, whatever service it is run with. -/
def AnswersIndependent (stream : Bytes) : Prop :=
  ∀ {σ Request Response : Type} (service : HostService σ Request Response) (state : σ)
    (chunks chunks' : List Bytes), Read chunks stream → Read chunks' stream →
    NDJSONHostServer.run service chunks state = NDJSONHostServer.run service chunks' state

theorem framesIndependent_of_steady {h : 0 < maxLineBytes} {stream : Bytes}
    (hsteady : Steady maxLineBytes stream) : FramesIndependent maxLineBytes h stream := by
  intro chunks chunks' hchunks hchunks'
  have hboth : ∀ {result}, (∀ {chunks : List Bytes}, chunks.flatten = stream →
      deliver (.new maxLineBytes h) chunks = result) →
      deliver (.new maxLineBytes h) chunks = deliver (.new maxLineBytes h) chunks' :=
    fun hall => (hall hchunks).trans (hall hchunks').symm
  unfold Steady at hsteady
  split at hsteady
  next hnone =>
    exact hboth fun hstream => deliver_of_no_line (.new maxLineBytes h) hstream
      (Lines.notMem_of_lines_eq_nil hnone) (Nat.zero_le _)
  next line lines hlines =>
    rcases hsteady with hrefused | ⟨haccepted, hrest⟩
    · obtain ⟨hline, later, rfl, -⟩ := Lines.eq_of_lines_eq_cons hlines
      exact hboth fun hstream => deliver_of_refused (.new maxLineBytes h) hline hrefused
        hstream List.not_mem_nil
    · rw [← hlines] at haccepted
      exact hboth fun hstream => deliver_of_accepted (.new maxLineBytes h) hstream
        List.not_mem_nil haccepted hrest

theorem deliver_fst_of_refused (framer : NDJSONFramer) (chunk : Bytes)
    (h : (∃ line ∈ Lines.lines newline (framer.buffer ++ chunk),
        ¬ Accepted framer.maxLineBytes line) ∨
      (Lines.rest newline (framer.buffer ++ chunk)).length > framer.maxLineBytes)
    (chunks : List Bytes) : (deliver framer (chunk :: chunks)).1 = [] := by
  obtain ⟨e, he⟩ := takeFrames_of_refused h []
  simp only [deliver, NDJSONFramer.append, he]

theorem deliver_fst_of_accepted (framer : NDJSONFramer) (chunk : Bytes)
    (hlines : ∀ line ∈ Lines.lines newline (framer.buffer ++ chunk),
      Accepted framer.maxLineBytes line)
    (hrest : (Lines.rest newline (framer.buffer ++ chunk)).length ≤ framer.maxLineBytes)
    (hsome : Lines.lines newline (framer.buffer ++ chunk) ≠ []) (chunks : List Bytes) :
    (deliver framer (chunk :: chunks)).1 ≠ [] := by
  simp only [deliver, NDJSONFramer.append, takeFrames_of_accepted hlines hrest, List.nil_append]
  exact List.append_ne_nil_of_left_ne_nil (by simpa using hsome) _

theorem steady_of_framesIndependent {h : 0 < maxLineBytes} {stream : Bytes}
    (hframes : FramesIndependent maxLineBytes h stream) : Steady maxLineBytes stream := by
  unfold Steady
  split
  next => trivial
  next line lines hlines =>
    by_contra hsteady
    obtain ⟨haccepted, hover⟩ := not_or.mp hsteady
    rw [not_not] at haccepted
    rw [← hlines] at hover
    by_cases hall : (∀ l ∈ Lines.lines newline stream, Accepted maxLineBytes l) ∧
        (Lines.rest newline stream).length ≤ maxLineBytes
    · -- every line is accepted, so one of them is over the limit with its carriage return only
      obtain ⟨l, hl, hlarge⟩ : ∃ l ∈ Lines.lines newline stream, l.length > maxLineBytes := by
        by_contra hnone
        refine hover ⟨fun l hl => ⟨hall.1 l hl, ?_⟩, hall.2⟩
        exact Nat.le_of_not_lt fun hlarge => hnone ⟨l, hl, hlarge⟩
      obtain ⟨hnewline, before, after, hstream, hrest, -⟩ := Lines.exists_of_mem_lines hl
      have hone := deliver_fst_of_accepted (.new maxLineBytes h) stream hall.1
        hall.2 (by rw [NDJSONFramer.new, List.nil_append, hlines]; exact List.cons_ne_nil _ _) []
      have htwo := deliver_fst_of_refused (.new maxLineBytes h) (before ++ l)
        (.inr (by
          rw [NDJSONFramer.new, List.nil_append, Lines.rest_append, hrest, List.nil_append,
            Lines.rest_of_notMem hnewline]
          exact hlarge)) [newline :: after]
      rw [hframes [before ++ l, newline :: after] [stream] (by simp [hstream]) (by simp)] at htwo
      exact hone htwo
    · obtain ⟨hnewline, later, hstream, -⟩ := Lines.eq_of_lines_eq_cons hlines
      have hone := deliver_fst_of_refused (.new maxLineBytes h) stream (by
        rw [NDJSONFramer.new, List.nil_append]
        by_contra hnone
        obtain ⟨hfine, hrest⟩ := not_or.mp hnone
        exact hall ⟨fun l hl => by_contra fun hrefused => hfine ⟨l, hl, hrefused⟩,
          Nat.le_of_not_lt hrest⟩) []
      have hfirst : Lines.lines newline (line ++ [newline]) = [line] := by
        rw [Lines.lines_line hnewline]
        rfl
      have hnothing : Lines.rest newline (line ++ [newline]) = [] := Lines.rest_line hnewline []
      have htwo := deliver_fst_of_accepted (.new maxLineBytes h) (line ++ [newline])
        (by
          rw [NDJSONFramer.new, List.nil_append, hfirst]
          exact fun l hl => List.mem_singleton.mp hl ▸ haccepted)
        (by
          rw [NDJSONFramer.new, List.nil_append, hnothing]
          exact Nat.zero_le _)
        (by
          rw [NDJSONFramer.new, List.nil_append, hfirst]
          exact List.cons_ne_nil _ _) [later]
      rw [hframes [line ++ [newline], later] [stream] (by simp [hstream]) (by simp)] at htwo
      exact htwo hone

section Server

variable {σ Request Response : Type} (service : HostService σ Request Response)

theorem answer_append (frames frames' : List Bytes) (state : σ) :
    NDJSONHostServer.answer service (frames ++ frames') state =
      let answered := NDJSONHostServer.answer service frames state
      let later := NDJSONHostServer.answer service frames' answered.2
      (answered.1 ++ later.1, later.2) := by
  induction frames generalizing state with
  | nil => rfl
  | cons frame frames ih =>
    simp only [List.cons_append, NDJSONHostServer.answer, ih, List.append_assoc]

theorem runLoop_eq_answer {chunks : List Bytes} (hchunks : ∀ chunk ∈ chunks, chunk ≠ [])
    (framer : NDJSONFramer) (state : σ) :
    NDJSONHostServer.runLoop service framer chunks state =
      let answered := NDJSONHostServer.answer service (deliver framer chunks).1 state
      (answered.1, (deliver framer chunks).2, answered.2) := by
  induction chunks generalizing framer state with
  | nil => rfl
  | cons chunk chunks ih =>
    rw [NDJSONHostServer.runLoop, if_neg (hchunks chunk List.mem_cons_self), deliver]
    split
    next => rfl
    next framer frames _ =>
      simp only [ih (fun c hc => hchunks c (List.mem_cons_of_mem _ hc)), answer_append]

end Server

theorem answersIndependent_of_steady {stream : Bytes}
    (hsteady : Steady NDJSONHostServer.maxRequestLineBytes stream) :
    AnswersIndependent stream := by
  intro σ Request Response service state chunks chunks' ⟨hread, hchunks⟩ ⟨hread', hchunks'⟩
  have hframes := framesIndependent_of_steady (h := by decide) hsteady chunks chunks' hchunks hchunks'
  simp only [NDJSONHostServer.run, runLoop_eq_answer service fun c hc => (hread c hc).1,
    runLoop_eq_answer service fun c hc => (hread' c hc).1, hframes]

/-- Framing is independent of the chunks for the steady streams and for no others, and for a
stream that is steady under the limit of the server its answers are, too. -/
theorem deliver_independent_iff_steady (maxLineBytes : ℕ) (h : 0 < maxLineBytes)
    (stream : Bytes) : (FramesIndependent maxLineBytes h stream ∧
      (maxLineBytes = NDJSONHostServer.maxRequestLineBytes → AnswersIndependent stream)) ↔
      Steady maxLineBytes stream := by
  refine ⟨fun hframes => steady_of_framesIndependent hframes.1, fun hsteady => ⟨?_, ?_⟩⟩
  · exact framesIndependent_of_steady hsteady
  · rintro rfl
    exact answersIndependent_of_steady hsteady

/-- Two lines and the start of a third one are cut into the same frames in every way. -/
theorem deliver_independent_iff_steady_lines :
    FramesIndependent 4 (by decide) [0x5B, 0x5D, 0x0A, 0x31, 0x32, 0x0D, 0x0A, 0x5B] :=
  ((deliver_independent_iff_steady 4 (by decide) _).mpr (by
    simp [Steady, Accepted, Lines.lines, Lines.rest, Lines.split, dropReturn, newline,
      carriageReturn])).1

theorem frame_before_oversized_line :
    deliver (.new 4 (by decide)) [[0x5B, 0x5D, 0x0A], [0x31, 0x32, 0x33, 0x34, 0x35, 0x0A]] =
      ([[0x5B, 0x5D]], .error .lineTooLarge) ∧
    deliver (.new 4 (by decide)) [[0x5B, 0x5D, 0x0A, 0x31, 0x32, 0x33, 0x34, 0x35, 0x0A]] =
      ([], .error .lineTooLarge) := by
  simp [deliver, NDJSONFramer.append, NDJSONFramer.new, takeFrames, Lines.first, dropReturn,
    newline, carriageReturn]

theorem line_of_maximum_length :
    deliver (.new 4 (by decide)) [[0x31, 0x32, 0x33, 0x34, 0x0D, 0x0A]] =
      ([[0x31, 0x32, 0x33, 0x34]], .ok ()) ∧
    deliver (.new 4 (by decide)) [[0x31, 0x32, 0x33, 0x34, 0x0D], [0x0A]] =
      ([], .error .lineTooLarge) := by
  simp [deliver, NDJSONFramer.append, NDJSONFramer.finish, NDJSONFramer.new, takeFrames,
    Lines.first, dropReturn, newline, carriageReturn]

/-- The chunks decide which frames are delivered, and whether a line is accepted. -/
theorem chunks_decide_frames :
    ¬ FramesIndependent 4 (by decide) [0x5B, 0x5D, 0x0A, 0x31, 0x32, 0x33, 0x34, 0x35, 0x0A] ∧
      ¬ FramesIndependent 4 (by decide) [0x31, 0x32, 0x33, 0x34, 0x0D, 0x0A] := by
  refine ⟨fun h => ?_, fun h => ?_⟩
  · have hsame := h [[0x5B, 0x5D, 0x0A], [0x31, 0x32, 0x33, 0x34, 0x35, 0x0A]]
      [[0x5B, 0x5D, 0x0A, 0x31, 0x32, 0x33, 0x34, 0x35, 0x0A]] rfl rfl
    rw [frame_before_oversized_line.1, frame_before_oversized_line.2] at hsame
    simp at hsame
  · have hsame := h [[0x31, 0x32, 0x33, 0x34, 0x0D, 0x0A]] [[0x31, 0x32, 0x33, 0x34, 0x0D], [0x0A]]
      rfl rfl
    rw [line_of_maximum_length.1, line_of_maximum_length.2] at hsame
    simp at hsame

end NDJSON
