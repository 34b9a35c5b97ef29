import ChatgptSystem.Computer.ComputerErrors
import ChatgptSystem.Foundations.Lines
import Mathlib.Logic.Function.Basic
import Mathlib.Algebra.Order.Field.Rat

/-!
# The client of the native host

`ComputerNativeClient` of `computer/computer-native-client.ts` sends requests to the helper process
and matches its responses to them. A ticket stands for the promise that `request` returns.

* `ClientState` — the fields of the client, the timers that are armed, and what has become of the
  tickets;
* `request`, `handleData`, `poison`, `finishClose`, … — the methods;
* `Event`, `run` — what may happen to a client, in any order;
* `client_settles` — every ticket is settled once, with the response to its own request or with an
  error, however the responses are cut into chunks.
-/

open Lines (newline dropReturn)

namespace Computer

/-- A response that `nativeResponseSchema` accepts. -/
inductive NativeResponse (V : Type) where
  | success (requestId : String) (result : V)
  | failure (requestId code message : String) (details : Option NativeRecoveryDetails)

def NativeResponse.requestId {V : Type} : NativeResponse V → String
  | .success requestId _ => requestId
  | .failure requestId _ _ _ => requestId

/-- The limits of a client, and the decoder of responses: the decoding of UTF-8, `JSON.parse` and
`nativeResponseSchema.safeParse`. -/
structure ClientConfig (V : Type) where
  decode : Bytes → Option (NativeResponse V)
  maxRequestBytes : ℕ
  maxResponseBytes : ℕ
  maxRequestBytes_pos : 0 < maxRequestBytes
  maxResponseBytes_pos : 0 < maxResponseBytes

inductive Settlement (V : Type) where
  /-- Resolved by the response with this identifier. -/
  | resolved (requestId : String) (result : V)
  | rejected (error : ComputerError)

structure PendingRequest where
  requestId : String
  ticket : ℕ

structure ClientState (V : Type) where
  /-- The map of pending requests, in the order they were sent. -/
  pending : List PendingRequest
  /-- The tickets whose timers are armed. -/
  timers : List ℕ
  buffer : Bytes
  closedError : Option ComputerError
  /-- The errors that `onFatal` was called with. -/
  fatal : List ComputerError
  /-- The number of calls of `request`. -/
  issued : ℕ
  /-- The identifiers that were sent. -/
  sent : ℕ → Option String
  settled : List (ℕ × Settlement V)

namespace ClientState

variable {V : Type}

def initial : ClientState V :=
  { pending := [], timers := [], buffer := [], closedError := none, fatal := [], issued := 0
    sent := fun _ => none, settled := [] }

/-- What the promise of a ticket has been settled with, the first time first. -/
def settlements (s : ClientState V) (ticket : ℕ) : List (Settlement V) :=
  (s.settled.filter fun entry => entry.1 = ticket).map Prod.snd

def settle (s : ClientState V) (ticket : ℕ) (settlement : Settlement V) : ClientState V :=
  { s with settled := s.settled ++ [(ticket, settlement)] }

def reject (s : ClientState V) (ticket : ℕ) (code : ComputerErrorCode) : ClientState V :=
  s.settle ticket (.rejected { code })

/-! ## The methods -/

def finishClose (s : ClientState V) (error : ComputerError) (notifyFatal : Bool) : ClientState V :=
  if s.closedError.isSome then s
  else
    { s with
      closedError := some error
      buffer := []
      pending := []
      timers := s.timers.filter fun ticket => ticket ∉ s.pending.map PendingRequest.ticket
      settled := s.settled ++ s.pending.map fun request => (request.ticket, .rejected error)
      fatal := if notifyFatal then s.fatal ++ [error] else s.fatal }

def poison (s : ClientState V) (code : ComputerErrorCode) : ClientState V :=
  s.finishClose { code } true

/-- The arguments of a call of `request`, with the identifier that the factory returns, the bytes
of `JSON.stringify`, unless it throws, and whether `stdin.write` throws. -/
structure RequestCall where
  /-- `none` for a number that is not an integer. -/
  timeoutMs : Option ℤ
  requestId : String
  line : Option Bytes
  writeThrows : Bool

def request (config : ClientConfig V) (call : RequestCall) (s : ClientState V) : ClientState V :=
  let ticket := s.issued
  let s := { s with issued := ticket + 1 }
  match s.closedError with
  | some error => s.settle ticket (.rejected error)
  | none =>
    if call.timeoutMs.all (· ≤ 0) then s.reject ticket .COMPUTER_PROTOCOL_INVALID
    else if call.requestId = "" ∨ call.requestId ∈ s.pending.map PendingRequest.requestId then
      (s.poison .COMPUTER_PROTOCOL_INVALID).reject ticket .COMPUTER_PROTOCOL_INVALID
    else match call.line with
      | none => s.reject ticket .COMPUTER_PROTOCOL_INVALID
      | some line =>
        if line.length > config.maxRequestBytes then s.reject ticket .COMPUTER_PROTOCOL_INVALID
        else
          let s := { s with
            timers := s.timers ++ [ticket]
            pending := s.pending ++ [⟨call.requestId, ticket⟩]
            sent := Function.update s.sent ticket (some call.requestId) }
          if call.writeThrows then s.poison .COMPUTER_UNAVAILABLE else s

/-- The settlement a response stands for; `none` if its error code is unknown. -/
def settlementOf : NativeResponse V → Option (Settlement V)
  | .success requestId result => some (.resolved requestId result)
  | .failure _ code _ details => (ComputerErrorCode.ofText? code).map fun code =>
      .rejected { code, details := details.map .native }

def answerOf (config : ClientConfig V) (frame : Bytes) (pending : List PendingRequest) :
    Option (PendingRequest × Settlement V) := do
  let response ← config.decode frame
  let request ← pending.find? fun request => request.requestId = response.requestId
  let settlement ← settlementOf response
  return (request, settlement)

def handleFrame (config : ClientConfig V) (frame : Bytes) (s : ClientState V) : ClientState V :=
  match answerOf config frame s.pending with
  | none => s.poison .COMPUTER_PROTOCOL_INVALID
  | some (request, settlement) =>
    { s with
      pending := s.pending.eraseP fun other => other.requestId = request.requestId
      timers := s.timers.filter fun ticket => ticket ≠ request.ticket
      settled := s.settled ++ [(request.ticket, settlement)] }

theorem length_buffer_finishClose_le (s : ClientState V) (error : ComputerError)
    (notifyFatal : Bool) : (s.finishClose error notifyFatal).buffer.length ≤ s.buffer.length := by
  unfold finishClose
  split
  · exact Nat.le_refl _
  · exact Nat.zero_le _

theorem length_buffer_handleFrame_le (config : ClientConfig V) (frame : Bytes)
    (s : ClientState V) : (s.handleFrame config frame).buffer.length ≤ s.buffer.length := by
  unfold handleFrame
  split
  · exact length_buffer_finishClose_le ..
  · exact Nat.le_refl _

def drainFrames (config : ClientConfig V) (s : ClientState V) : ClientState V :=
  if s.closedError.isSome then s
  else match _h : Lines.first newline s.buffer with
    | none =>
      if s.buffer.length > config.maxResponseBytes then s.poison .COMPUTER_PROTOCOL_INVALID else s
    | some found =>
      if found.1.length > config.maxResponseBytes then s.poison .COMPUTER_PROTOCOL_INVALID
      else if dropReturn found.1 = [] then
        { s with buffer := found.2 }.poison .COMPUTER_PROTOCOL_INVALID
      else drainFrames config (handleFrame config (dropReturn found.1) { s with buffer := found.2 })
termination_by s.buffer.length
decreasing_by
  exact Nat.lt_of_le_of_lt (length_buffer_handleFrame_le ..) (Lines.length_of_first _h)

def handleData (config : ClientConfig V) (chunk : Bytes) (s : ClientState V) : ClientState V :=
  if s.closedError.isSome then s
  else drainFrames config { s with buffer := s.buffer ++ chunk }

end ClientState

/-! ## Runs -/

inductive ClientEvent where
  | request (call : ClientState.RequestCall)
  | data (chunk : Bytes)
  | streamError
  | streamEnd
  /-- The timer of a ticket fires, if it is armed. -/
  | timeout (ticket : ℕ)
  /-- The callback of `stdin.write` is called with an error. -/
  | writeError
  | close (error : ComputerError)

variable {V : Type}

def clientStep (config : ClientConfig V) (s : ClientState V) : ClientEvent → ClientState V
  | .request call => s.request config call
  | .data chunk => s.handleData config chunk
  | .streamError => s.poison .COMPUTER_UNAVAILABLE
  | .streamEnd => s.poison .COMPUTER_UNAVAILABLE
  | .timeout ticket =>
    if ticket ∈ s.timers then
      { s with timers := s.timers.filter fun armed => armed ≠ ticket }.poison .COMPUTER_TIMEOUT
    else s
  | .writeError => s.poison .COMPUTER_UNAVAILABLE
  | .close error => s.finishClose error false

def clientRun (config : ClientConfig V) (s : ClientState V) (events : List ClientEvent) :
    ClientState V :=
  events.foldl (clientStep config) s

/-! ## What holds between the events -/

/-- A ticket that has been given out is settled once or pending, and pending requests have armed
timers. -/
structure ClientInv (config : ClientConfig V) (s : ClientState V) : Prop where
  once : ∀ t, (s.settled.map Prod.fst).count t + (s.pending.map PendingRequest.ticket).count t =
    if t < s.issued then 1 else 0
  armed : ∀ t, t ∈ s.timers ↔ t ∈ s.pending.map PendingRequest.ticket
  own : ∀ request ∈ s.pending, s.sent request.ticket = some request.requestId
  answered : ∀ t requestId result, (t, .resolved requestId result) ∈ s.settled →
    s.sent t = some requestId ∧ ∃ frame, config.decode frame = some (.success requestId result)
  closed : s.closedError.isSome = true → s.pending = []

def ClientState.MidLine (config : ClientConfig V) (s : ClientState V) : Prop :=
  newline ∉ s.buffer ∧ s.buffer.length ≤ config.maxResponseBytes

namespace ClientInv

variable {config : ClientConfig V} {s : ClientState V}

theorem initial : ClientInv config (.initial : ClientState V) where
  once := fun t => by simp [ClientState.initial]
  armed := fun t => by simp [ClientState.initial]
  own := fun request h => by cases h
  answered := fun t requestId result h => by cases h
  closed := fun _ => rfl

section

variable (h : ClientInv config s)

include h

theorem lt_of_count_pos {t : ℕ}
    (ht : 0 < (s.settled.map Prod.fst).count t + (s.pending.map PendingRequest.ticket).count t) :
    t < s.issued := by
  by_contra hlt
  rw [h.once t, if_neg hlt] at ht
  exact Nat.lt_irrefl _ ht

theorem once_succ (t : ℕ) :
    (s.settled.map Prod.fst).count t + (s.pending.map PendingRequest.ticket).count t +
      (if s.issued == t then 1 else 0) = if t < s.issued + 1 then 1 else 0 := by
  rw [h.once t]
  rcases Nat.lt_trichotomy t s.issued with hlt | rfl | hgt
  · simp [hlt, Nat.ne_of_gt hlt, Nat.lt_succ_of_lt hlt]
  · simp
  · simp [Nat.not_lt_of_gt hgt, Nat.ne_of_lt hgt, Nat.not_lt.mpr (Nat.succ_le_of_lt hgt)]

theorem lt_of_pending {request : PendingRequest} (hmem : request ∈ s.pending) :
    request.ticket < s.issued :=
  h.lt_of_count_pos (Nat.add_pos_right _ (List.count_pos_iff.mpr (List.mem_map_of_mem hmem)))

theorem lt_of_settled {entry : ℕ × Settlement V} (hmem : entry ∈ s.settled) : entry.1 < s.issued :=
  h.lt_of_count_pos (Nat.add_pos_left (List.count_pos_iff.mpr (List.mem_map_of_mem hmem)) _)

theorem finishClose (error : ComputerError) (notifyFatal : Bool) :
    ClientInv config (s.finishClose error notifyFatal) := by
  unfold ClientState.finishClose
  split
  · exact h
  · refine ⟨fun t => ?_, fun t => ?_, fun _ hrequest => absurd hrequest List.not_mem_nil,
      fun t requestId result hmem => ?_, fun _ => rfl⟩
    · have hmap : (s.pending.map fun request =>
          (request.ticket, (.rejected error : Settlement V))).map Prod.fst =
          s.pending.map PendingRequest.ticket := by
        rw [List.map_map]
        rfl
      rw [List.map_append, hmap, List.count_append, List.map_nil, List.count_nil, Nat.add_zero]
      exact h.once t
    · simp [h.armed t]
    · rcases List.mem_append.mp hmem with hold | hnew
      · exact h.answered t requestId result hold
      · obtain ⟨request, -, heq⟩ := List.mem_map.mp hnew
        cases heq

theorem poison (code : ComputerErrorCode) : ClientInv config (s.poison code) :=
  h.finishClose _ _

theorem issue_reject (error : ComputerError) :
    ClientInv config ({ s with issued := s.issued + 1 }.settle s.issued (.rejected error)) where
  once := fun t => by
    have hnext := h.once_succ t
    show ((s.settled ++ [(s.issued, (.rejected error : Settlement V))]).map Prod.fst).count t +
      (s.pending.map PendingRequest.ticket).count t = if t < s.issued + 1 then 1 else 0
    simp only [List.map_append, List.count_append, List.map_cons, List.map_nil,
      List.count_singleton]
    omega
  armed := h.armed
  own := h.own
  answered := fun t requestId result hmem => by
    rcases List.mem_append.mp hmem with hold | hnew
    · exact h.answered t requestId result hold
    · cases List.mem_singleton.mp hnew
  closed := h.closed

theorem issue_pending (hopen : s.closedError = none) (requestId : String) :
    ClientInv config { s with
      issued := s.issued + 1
      timers := s.timers ++ [s.issued]
      pending := s.pending ++ [⟨requestId, s.issued⟩]
      sent := Function.update s.sent s.issued (some requestId) } where
  once := fun t => by
    have hnext := h.once_succ t
    show (s.settled.map Prod.fst).count t +
      ((s.pending ++ [(⟨requestId, s.issued⟩ : PendingRequest)]).map PendingRequest.ticket).count t =
      if t < s.issued + 1 then 1 else 0
    simp only [List.map_append, List.count_append, List.map_cons, List.map_nil,
      List.count_singleton]
    omega
  armed := fun t => by
    simp [h.armed t]
  own := fun request hrequest => by
    show Function.update s.sent s.issued (some requestId) request.ticket = some request.requestId
    rcases List.mem_append.mp hrequest with hold | hnew
    · rw [Function.update_of_ne (Nat.ne_of_lt (h.lt_of_pending hold))]
      exact h.own request hold
    · rw [List.mem_singleton.mp hnew, Function.update_self]
  answered := fun t requestId' result hmem => by
    show Function.update s.sent s.issued (some requestId) t = some requestId' ∧ _
    rw [Function.update_of_ne (Nat.ne_of_lt (h.lt_of_settled hmem))]
    exact h.answered t requestId' result hmem
  closed := fun hclosed => by
    rw [hopen] at hclosed
    cases hclosed

theorem request (call : ClientState.RequestCall) : ClientInv config (s.request config call) := by
  unfold ClientState.request
  simp only
  split
  next error hclosed => exact h.issue_reject error
  next hopen =>
    split
    · exact h.issue_reject _
    split
    · -- the client is poisoned before the new promise is rejected
      have hpoisoned := (h.poison .COMPUTER_PROTOCOL_INVALID).issue_reject
        { code := .COMPUTER_PROTOCOL_INVALID }
      simpa [ClientState.poison, ClientState.finishClose, ClientState.reject, ClientState.settle,
        hopen] using hpoisoned
    split
    · exact h.issue_reject _
    split
    · exact h.issue_reject _
    split
    · exact (h.issue_pending hopen _).poison _
    · exact h.issue_pending hopen _

theorem settle_found {found : PendingRequest → Bool} {request : PendingRequest}
    (hfind : s.pending.find? found = some request) {settlement : Settlement V}
    (hanswer : ∀ requestId result, settlement = .resolved requestId result →
      request.requestId = requestId ∧
        ∃ frame, config.decode frame = some (.success requestId result)) :
    ClientInv config { s with
      pending := s.pending.eraseP found
      timers := s.timers.filter fun ticket => ticket ≠ request.ticket
      settled := s.settled ++ [(request.ticket, settlement)] } := by
  obtain ⟨hfound, before, after, hpending, hbefore⟩ := List.find?_eq_some_iff_append.mp hfind
  have herase : s.pending.eraseP found = before ++ after := by
    rw [hpending, List.eraseP_append_right _ (by simpa using hbefore),
      List.eraseP_cons_of_pos hfound]
  have hsplit : s.pending.map PendingRequest.ticket =
      before.map PendingRequest.ticket ++ request.ticket :: after.map PendingRequest.ticket := by
    rw [hpending, List.map_append, List.map_cons]
  refine ⟨fun t => ?_, fun t => ?_, fun other hother => ?_, fun t requestId result hmem => ?_,
    fun hclosed => ?_⟩
  · have hold := h.once t
    show ((s.settled ++ [(request.ticket, settlement)]).map Prod.fst).count t +
      ((s.pending.eraseP found).map PendingRequest.ticket).count t = if t < s.issued then 1 else 0
    rw [← hold, herase, hsplit]
    simp only [List.map_append, List.count_append, List.map_cons, List.map_nil, List.count_cons,
      List.count_nil]
    omega
  · have hold := h.once request.ticket
    rw [hsplit] at hold
    simp only [List.count_append, List.count_cons_self] at hold
    -- the ticket is pending once only
    have hbefore : request.ticket ∉ before.map PendingRequest.ticket := fun hmem => by
      have := List.count_pos_iff.mpr hmem
      split at hold <;> omega
    have hafter : request.ticket ∉ after.map PendingRequest.ticket := fun hmem => by
      have := List.count_pos_iff.mpr hmem
      split at hold <;> omega
    show t ∈ s.timers.filter _ ↔ t ∈ (s.pending.eraseP found).map PendingRequest.ticket
    rw [List.mem_filter, h.armed t, herase, hsplit, List.map_append, List.mem_append,
      List.mem_append, List.mem_cons, decide_eq_true_iff]
    constructor
    · rintro ⟨hmem | rfl | hmem, hne⟩
      · exact .inl hmem
      · exact absurd rfl hne
      · exact .inr hmem
    · rintro (hmem | hmem)
      · exact ⟨.inl hmem, fun heq => hbefore (heq ▸ hmem)⟩
      · exact ⟨.inr (.inr hmem), fun heq => hafter (heq ▸ hmem)⟩
  · exact h.own other (List.mem_of_mem_eraseP hother)
  · rcases List.mem_append.mp hmem with hold | hnew
    · exact h.answered t requestId result hold
    · obtain ⟨rfl, heq⟩ := Prod.mk.inj (List.mem_singleton.mp hnew)
      obtain ⟨rfl, hframe⟩ := hanswer requestId result heq.symm
      exact ⟨h.own request (List.mem_of_find?_eq_some hfind), hframe⟩
  · have hnone := h.closed hclosed
    rw [hnone] at hfind
    cases hfind

theorem handleFrame (frame : Bytes) : ClientInv config (s.handleFrame config frame) := by
  unfold ClientState.handleFrame
  split
  · exact h.poison _
  next request settlement hanswer =>
    obtain ⟨response, hresponse, hrest⟩ := Option.bind_eq_some_iff.mp hanswer
    obtain ⟨found, hfind, hrest⟩ := Option.bind_eq_some_iff.mp hrest
    obtain ⟨settled, hsettlement, heq⟩ := Option.bind_eq_some_iff.mp hrest
    cases heq
    have hid : request.requestId = response.requestId := by simpa using List.find?_some hfind
    rw [← hid] at hfind
    refine h.settle_found hfind fun requestId result heq => ?_
    subst heq
    cases response with
    | success id value =>
      cases hsettlement
      exact ⟨hid, frame, hresponse⟩
    | failure id code message details =>
      obtain ⟨code, -, heq⟩ := Option.map_eq_some_iff.mp hsettlement
      cases heq

theorem setBuffer (buffer : Bytes) : ClientInv config { s with buffer } :=
  ⟨h.once, h.armed, h.own, h.answered, h.closed⟩

theorem drainFrames : ClientInv config (s.drainFrames config) := by
  fun_induction ClientState.drainFrames config s with
  | case1 s hclosed => exact h
  | case2 s hopen hfirst hlarge => exact h.poison _
  | case3 s hopen hfirst hlarge => exact h
  | case4 s hopen found hfirst hlarge => exact h.poison _
  | case5 s hopen found hfirst hlarge hempty => exact (h.setBuffer _).poison _
  | case6 s hopen found hfirst hlarge hempty ih => exact ih ((h.setBuffer _).handleFrame _)

theorem handleData (chunk : Bytes) : ClientInv config (s.handleData config chunk) := by
  unfold ClientState.handleData
  split
  · exact h
  · exact (h.setBuffer _).drainFrames

theorem timeout_eq_poison {t : ℕ} (ht : t ∈ s.timers) (code : ComputerErrorCode) :
    { s with timers := s.timers.filter fun armed => armed ≠ t }.poison code = s.poison code := by
  have hpending := (h.armed t).mp ht
  unfold ClientState.poison ClientState.finishClose
  split
  next hclosed =>
    rw [h.closed hclosed] at hpending
    cases hpending
  next =>
    congr 1
    rw [List.filter_filter]
    refine List.filter_congr fun armed harmed => ?_
    by_cases heq : armed = t
    · simp [heq, hpending]
    · simp [heq]

theorem step (event : ClientEvent) : ClientInv config (clientStep config s event) := by
  cases event with
  | request call => exact h.request call
  | data chunk => exact h.handleData chunk
  | streamError => exact h.poison _
  | streamEnd => exact h.poison _
  | timeout ticket =>
    simp only [clientStep]
    split
    next ht =>
      rw [h.timeout_eq_poison ht]
      exact h.poison _
    next => exact h
  | writeError => exact h.poison _
  | close error => exact h.finishClose error false

theorem run (events : List ClientEvent) : ClientInv config (clientRun config s events) := by
  induction events generalizing s with
  | nil => exact h
  | cons event events ih => exact ih (h.step event)

end

end ClientInv

/-! ## Chunks -/

namespace ClientState

variable {config : ClientConfig V} {s : ClientState V}

theorem finishClose_of_closed (h : s.closedError.isSome = true) (error : ComputerError)
    (notifyFatal : Bool) : s.finishClose error notifyFatal = s := if_pos h

theorem poison_setBuffer (h : s.closedError = none) (buffer : Bytes) (code : ComputerErrorCode) :
    { s with buffer }.poison code = s.poison code := by
  simp [poison, finishClose, h]

theorem isSome_poison (code : ComputerErrorCode) :
    (s.poison code).closedError.isSome = true := by
  unfold poison finishClose
  split
  next h => exact h
  next => rfl

variable (config) in
theorem handleFrame_setBuffer (h : s.closedError = none) (frame buffer : Bytes) :
    ((s.handleFrame config frame).closedError = none ∧
      { s with buffer }.handleFrame config frame =
        { s.handleFrame config frame with buffer }) ∨
    ((s.handleFrame config frame).closedError.isSome = true ∧
      { s with buffer }.handleFrame config frame = s.handleFrame config frame) := by
  cases hanswer : answerOf config frame s.pending with
  | none =>
    right
    simp only [handleFrame, hanswer]
    exact ⟨isSome_poison _, poison_setBuffer h buffer _⟩
  | some answer =>
    left
    simp only [handleFrame, hanswer]
    exact ⟨h, trivial⟩

theorem drainFrames_of_closed (h : s.closedError.isSome = true) : s.drainFrames config = s := by
  rw [drainFrames, if_pos h]

theorem drainFrames_rest (h : s.closedError = none) (hnone : newline ∉ s.buffer) :
    s.drainFrames config = if s.buffer.length > config.maxResponseBytes then
      s.poison .COMPUTER_PROTOCOL_INVALID else s := by
  rw [drainFrames, if_neg (by simp [h]), Lines.first_of_notMem hnone]

theorem drainFrames_line (h : s.closedError = none) {line : Bytes} (hline : newline ∉ line)
    {stream : Bytes} (hbuffer : s.buffer = line ++ newline :: stream) :
    s.drainFrames config =
      if line.length > config.maxResponseBytes ∨ dropReturn line = [] then
        s.poison .COMPUTER_PROTOCOL_INVALID
      else ({ s with buffer := stream }.handleFrame config (dropReturn line)).drainFrames config := by
  rw [drainFrames, if_neg (by simp [h]), hbuffer, Lines.first_line hline]
  by_cases hlarge : line.length > config.maxResponseBytes
  · simp [hlarge]
  · by_cases hempty : dropReturn line = []
    · simp [hlarge, hempty, poison_setBuffer h]
    · simp [hlarge, hempty]

theorem handleData_of_closed (h : s.closedError.isSome = true) (chunk : Bytes) :
    s.handleData config chunk = s := if_pos h

theorem handleData_drainFrames (h : s.closedError = none) (after : Bytes) :
    (s.drainFrames config).handleData config after =
      { s with buffer := s.buffer ++ after }.drainFrames config := by
  generalize hstream : s.buffer = stream
  induction stream using Lines.induction (z := newline) generalizing s with
  | hrest stream hnone =>
    subst hstream
    rw [drainFrames_rest h hnone]
    split
    next hlarge =>
      -- the beginning of the line is too long already, and so is the line
      rw [handleData_of_closed (isSome_poison _)]
      by_cases hafter : newline ∈ s.buffer ++ after
      · obtain ⟨line, more, hline, hfirst⟩ := List.eq_append_cons_of_mem hafter
        have hlength := Lines.length_le_of_append hnone hline
        rw [drainFrames_line (s := { s with buffer := s.buffer ++ after }) h hfirst hline,
          if_pos (.inl (by omega))]
        exact (poison_setBuffer h _ _).symm
      · have hlength : (s.buffer ++ after).length > config.maxResponseBytes := by
          rw [List.length_append]
          omega
        rw [drainFrames_rest (s := { s with buffer := s.buffer ++ after }) h hafter,
          if_pos hlength]
        exact (poison_setBuffer h _ _).symm
    next => rw [handleData, if_neg (by simp [h])]
  | hline line stream hnone ih =>
    have hbuffer : s.buffer ++ after = line ++ newline :: (stream ++ after) := by
      rw [hstream, List.append_assoc, List.cons_append]
    rw [drainFrames_line h hnone hstream, ← hstream,
      drainFrames_line (s := { s with buffer := s.buffer ++ after }) h hnone hbuffer]
    split
    · rw [handleData_of_closed (isSome_poison _)]
      exact (poison_setBuffer h _ _).symm
    · rcases handleFrame_setBuffer config h (dropReturn line) stream with
        ⟨hopen, hframe⟩ | ⟨hclosed, hframe⟩
      · rcases handleFrame_setBuffer config h (dropReturn line) (stream ++ after) with
          ⟨-, hframe'⟩ | ⟨hclosed, -⟩
        · rw [hframe, hframe']
          exact ih hopen rfl
        · simp [hopen] at hclosed
      · rcases handleFrame_setBuffer config h (dropReturn line) (stream ++ after) with
          ⟨hopen, -⟩ | ⟨-, hframe'⟩
        · simp [hopen] at hclosed
        · rw [hframe, hframe', drainFrames_of_closed hclosed, handleData_of_closed hclosed]

theorem handleData_append (before after : Bytes) :
    (s.handleData config before).handleData config after =
      s.handleData config (before ++ after) := by
  cases hclosed : s.closedError with
  | some error =>
    have h : s.closedError.isSome = true := by rw [hclosed]; rfl
    rw [handleData_of_closed h, handleData_of_closed h, handleData_of_closed h]
  | none =>
    have h : ∀ chunk, s.handleData config chunk =
        { s with buffer := s.buffer ++ chunk }.drainFrames config := fun chunk => by
      rw [handleData, if_neg (by simp [hclosed])]
    rw [h before, h (before ++ after),
      handleData_drainFrames (s := { s with buffer := s.buffer ++ before }) hclosed,
      List.append_assoc]

theorem handleData_nil (h : s.MidLine config) : s.handleData config [] = s := by
  cases hclosed : s.closedError with
  | some error => exact handleData_of_closed (by rw [hclosed]; rfl) []
  | none =>
    rw [handleData, if_neg (by simp [hclosed])]
    simp only [List.append_nil]
    rw [drainFrames_rest hclosed h.1, if_neg (Nat.not_lt.mpr h.2)]

theorem midLine_finishClose (h : s.MidLine config) (error : ComputerError) (notifyFatal : Bool) :
    (s.finishClose error notifyFatal).MidLine config := by
  unfold finishClose
  split
  · exact h
  · exact ⟨List.not_mem_nil, Nat.zero_le _⟩

theorem midLine_poison (h : s.closedError = none) (code : ComputerErrorCode) :
    (s.poison code).MidLine config := by
  rw [← poison_setBuffer h []]
  exact midLine_finishClose (s := { s with buffer := [] }) ⟨List.not_mem_nil, Nat.zero_le _⟩ _ _

theorem midLine_drainFrames (h : s.closedError.isSome = true → s.MidLine config) :
    (s.drainFrames config).MidLine config := by
  fun_induction drainFrames config s with
  | case1 s hclosed => exact h hclosed
  | case2 s hopen hfirst hlarge => exact midLine_poison (by simpa using hopen) _
  | case3 s hopen hfirst hlarge =>
    refine ⟨fun hmem => ?_, Nat.le_of_not_lt hlarge⟩
    obtain ⟨line, more, hline, hnone⟩ := List.eq_append_cons_of_mem hmem
    rw [hline, Lines.first_line hnone] at hfirst
    cases hfirst
  | case4 s hopen found hfirst hlarge => exact midLine_poison (by simpa using hopen) _
  | case5 s hopen found hfirst hlarge hempty =>
    exact midLine_poison (s := { s with buffer := found.2 }) (by simpa using hopen) _
  | case6 s hopen found hfirst hlarge hempty ih =>
    refine ih fun hclosed => ?_
    unfold handleFrame at hclosed ⊢
    split
    · exact midLine_poison (s := { s with buffer := found.2 }) (by simpa using hopen) _
    next hanswer =>
      rw [hanswer] at hclosed
      exact absurd hclosed hopen

theorem midLine_handleData (h : s.MidLine config) (chunk : Bytes) :
    (s.handleData config chunk).MidLine config := by
  unfold handleData
  split
  · exact h
  next hopen => exact midLine_drainFrames fun hclosed => absurd hclosed hopen

theorem midLine_request (h : s.MidLine config) (call : RequestCall) :
    (s.request config call).MidLine config := by
  have hnew : ∀ {t : ClientState V}, t.buffer = s.buffer → t.MidLine config := fun hbuffer => by
    rw [MidLine, hbuffer]
    exact h
  have hpoison : ∀ {t : ClientState V} {code}, t.buffer = s.buffer → (t.poison code).MidLine config :=
    fun hbuffer => midLine_finishClose (hnew hbuffer) _ _
  unfold request
  simp only
  split
  · exact hnew rfl
  split
  · exact hnew rfl
  split
  · -- the client is poisoned, and the new promise is rejected
    exact hpoison (t := { s with issued := s.issued + 1 }) rfl
  split
  · exact hnew rfl
  split
  · exact hnew rfl
  split
  · exact hpoison rfl
  · exact hnew rfl

theorem midLine_step (h : s.MidLine config) (event : ClientEvent) :
    (clientStep config s event).MidLine config := by
  cases event with
  | request call => exact midLine_request h call
  | data chunk => exact midLine_handleData h chunk
  | timeout ticket =>
    simp only [clientStep]
    split
    · have hcleared : { s with timers := s.timers.filter fun armed => armed ≠ ticket }.MidLine config :=
        h
      exact midLine_finishClose hcleared _ _
    · exact h
  | _ => exact midLine_finishClose h _ _

theorem foldl_handleData (h : s.MidLine config) (chunks : List Bytes) :
    chunks.foldl (fun s chunk => s.handleData config chunk) s =
      s.handleData config chunks.flatten := by
  induction chunks generalizing s with
  | nil => rw [List.flatten_nil, handleData_nil h, List.foldl_nil]
  | cons chunk chunks ih =>
    rw [List.foldl_cons, List.flatten_cons, ← handleData_append, ih (midLine_handleData h chunk)]

end ClientState

/-! ## Every request settles once -/

section Settling

variable {config : ClientConfig V} {s : ClientState V}

theorem length_settlements (s : ClientState V) (t : ℕ) :
    (s.settlements t).length = (s.settled.map Prod.fst).count t := by
  rw [ClientState.settlements, List.length_map, List.count, List.countP_map,
    List.countP_eq_length_filter]
  rfl

theorem mem_settlements {t : ℕ} {settlement : Settlement V} :
    settlement ∈ s.settlements t ↔ (t, settlement) ∈ s.settled := by
  simp [ClientState.settlements]

theorem ClientInv.length_settlements_eq (h : ClientInv config s) {t : ℕ} (ht : t < s.issued) :
    (s.settlements t).length = if t ∈ s.timers then 0 else 1 := by
  have hcount := h.once t
  rw [if_pos ht] at hcount
  rw [length_settlements]
  by_cases harmed : t ∈ s.timers
  · rw [if_pos harmed]
    have hpending := List.count_pos_iff.mpr ((h.armed t).mp harmed)
    omega
  · rw [if_neg harmed]
    have hpending := List.count_eq_zero_of_not_mem fun hmem => harmed ((h.armed t).mpr hmem)
    omega

theorem ClientInv.timers_of_closed (h : ClientInv config s)
    (hclosed : s.closedError.isSome = true) (t : ℕ) : t ∉ s.timers := fun hmem => by
  have hpending := (h.armed t).mp hmem
  rw [h.closed hclosed] at hpending
  cases hpending

variable (config) in
theorem step_of_closed (hclosed : s.closedError.isSome = true) (event : ClientEvent) :
    (clientStep config s event).closedError.isSome = true ∧
      ∀ t requestId result, (t, .resolved requestId result) ∈ (clientStep config s event).settled →
        (t, .resolved requestId result) ∈ s.settled := by
  have hfinish : ∀ error notifyFatal, s.finishClose error notifyFatal = s := fun error notifyFatal =>
    ClientState.finishClose_of_closed hclosed error notifyFatal
  cases event with
  | request call =>
    obtain ⟨error, herror⟩ := Option.isSome_iff_exists.mp hclosed
    simp only [clientStep, ClientState.request, herror]
    refine ⟨by simp [ClientState.settle], fun t requestId result hmem => ?_⟩
    rcases List.mem_append.mp hmem with hold | hnew
    · exact hold
    · cases List.mem_singleton.mp hnew
  | data chunk =>
    rw [clientStep, ClientState.handleData_of_closed hclosed]
    exact ⟨hclosed, fun _ _ _ h => h⟩
  | timeout ticket =>
    simp only [clientStep]
    split
    · rw [ClientState.poison, ClientState.finishClose_of_closed]
      · exact ⟨hclosed, fun _ _ _ h => h⟩
      · exact hclosed
    · exact ⟨hclosed, fun _ _ _ h => h⟩
  | _ =>
    simp only [clientStep, ClientState.poison, hfinish]
    exact ⟨hclosed, fun _ _ _ h => h⟩

theorem run_of_closed (hclosed : s.closedError.isSome = true) (events : List ClientEvent) :
    ∀ t requestId result, (t, .resolved requestId result) ∈ (clientRun config s events).settled →
      (t, .resolved requestId result) ∈ s.settled := by
  induction events generalizing s with
  | nil => exact fun _ _ _ h => h
  | cons event events ih =>
    obtain ⟨hlater, hsettled⟩ := step_of_closed config hclosed event
    exact fun t requestId result hmem => hsettled t requestId result (ih hlater t requestId result hmem)

theorem midLine_run (h : s.MidLine config) (events : List ClientEvent) :
    (clientRun config s events).MidLine config := by
  induction events generalizing s with
  | nil => exact h
  | cons event events ih => exact ih (ClientState.midLine_step h event)

/-- Whatever happens to a client, in any order: a request is settled once, unless its timer is
still armed, and then the timer will settle it; what it is resolved with is a response to its own
identifier; nothing is resolved once the client is closed; and it makes no difference how a
stream is cut into chunks. -/
theorem client_settles (config : ClientConfig V) (events : List ClientEvent) :
    let s := clientRun config .initial events
    (∀ t < s.issued, (s.settlements t).length ≤ 1 ∧
      (t ∉ s.timers → (s.settlements t).length = 1)) ∧
    (∀ t ∈ s.timers, ∀ other < s.issued,
      ((clientStep config s (.timeout t)).settlements other).length = 1) ∧
    (∀ t requestId result, .resolved requestId result ∈ s.settlements t →
      s.sent t = some requestId ∧ ∃ frame, config.decode frame = some (.success requestId result)) ∧
    (s.closedError.isSome = true → (∀ t, t ∉ s.timers) ∧
      ∀ later t requestId result,
        .resolved requestId result ∈ (clientRun config s later).settlements t →
        .resolved requestId result ∈ s.settlements t) ∧
    (∀ chunks chunks' : List Bytes, chunks.flatten = chunks'.flatten →
      clientRun config s (chunks.map .data) = clientRun config s (chunks'.map .data)) := by
  intro s
  have hinv : ClientInv config s := ClientInv.initial.run events
  have hline : s.MidLine config := midLine_run ⟨List.not_mem_nil, Nat.zero_le _⟩ events
  refine ⟨fun t ht => ?_, fun t ht other hother => ?_, fun t requestId result hmem => ?_,
    fun hclosed => ⟨hinv.timers_of_closed hclosed, fun later t requestId result hmem => ?_⟩,
    fun chunks chunks' hflatten => ?_⟩
  · rw [hinv.length_settlements_eq ht]
    refine ⟨by split <;> omega, fun harmed => if_neg harmed⟩
  · -- the timer poisons the client, which settles all that are pending
    have hlater := hinv.step (.timeout t)
    have hclosed : (clientStep config s (.timeout t)).closedError.isSome = true := by
      rw [clientStep, if_pos ht]
      exact ClientState.isSome_poison _
    have hissued : (clientStep config s (.timeout t)).issued = s.issued := by
      rw [clientStep, if_pos ht, ClientState.poison, ClientState.finishClose]
      split <;> rfl
    rw [hlater.length_settlements_eq (by rwa [hissued]),
      if_neg (hlater.timers_of_closed hclosed other)]
  · exact hinv.answered t requestId result (mem_settlements.mp hmem)
  · exact mem_settlements.mpr (run_of_closed hclosed later t requestId result
      (mem_settlements.mp hmem))
  · have hfold : ∀ chunks : List Bytes, clientRun config s (chunks.map .data) =
        s.handleData config chunks.flatten := fun chunks => by
      rw [clientRun, List.foldl_map]
      exact ClientState.foldl_handleData hline chunks
    rw [hfold, hfold, hflatten]

end Settling

end Computer
