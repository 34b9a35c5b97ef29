import ChatgptSystem.Computer.ComputerJsRunnerSupervisor

/-!
# How a program's run settles

The calls of `ComputerJsRunnerSupervisor.run`, with their listeners, timers and continuations in any
order.

* `Completes`, `Settles` — what a result has to come from, and how a call is to settle;
* `Phase` — how far a call is, which every event keeps (`Phase.step`);
* `settles_of_run` — a call settles once, after its child, and leaves nothing armed;
* `rests_of_run` — a call waits for four events of its own at most, and can settle once it is over.
-/

namespace Computer

namespace JsRunner

variable {Result : Type}

/-! ## What is to be -/

def RunEvent.chunk? (target : Output) : RunEvent → Option Bytes
  | .output target' chunk => if target' = target then some chunk else none
  | _ => none

def outputOf (target : Output) (events : List RunEvent) : List Bytes :=
  events.filterMap (RunEvent.chunk? target)

def RunEvent.disturbs : RunEvent → Bool
  | .message _ | .rpcEnded (some _) | .error | .abort | .timeout => true
  | _ => false

def RunEvent.ends : RunEvent → Bool
  | .message (some .rpc) => false
  | .close => true
  | event => event.disturbs

/-- One valid `complete`, and nothing else that ends a program, came in these events, and this is
what they make the result. -/
structure Completes (maxOutputBytes : ℕ) (parse : String → Option Result) (json : Option String)
    (seen : List RunEvent) (result : ComputerJsRunnerResult Result) : Prop where
  events : ∃ before after, seen = before ++ .message (some (.complete json)) :: after ∧
    (∀ event ∈ before, event.ends = false) ∧ ∀ event ∈ after, event.disturbs = false
  parsed : parseResult parse json = some result.result
  stdout : result.stdout = Text.decode (outputOf .stdout seen).flatten
  stderr : result.stderr = Text.decode (outputOf .stderr seen).flatten
  limit : outputSize (outputOf .stdout seen) + outputSize (outputOf .stderr seen) +
    resultBytes json ≤ maxOutputBytes

/-- Nothing is left to be done: no promise, no timer of `terminateOnce`, and a child that has been
killed has closed. -/
structure Quiescent (s : RunState Result) : Prop where
  waitedClosed : waitedClosed s = none
  continued : continued s = none
  graceElapsed : ∀ sent, graceElapsed sent s = none
  killed : s.termination = .killed → s.closed = true

/-- A call settles once and cleanly. -/
structure Settles (maxOutputBytes : ℕ) (parse : String → Option Result) (events : List RunEvent)
    (s : RunState Result) : Prop where
  atMostOnce : s.settlements.length ≤ 1
  ended : s.settlements ≠ [] → s.closed = true ∨
    s.termination = .rejected ∧ ∃ signal, (signal, false) ∈ s.signals
  disarmed : s.settlements ≠ [] → s.timer = false ∧ s.listening = false ∧
    s.termination ≠ .graceful ∧ s.termination ≠ .refused
  resolved : ∀ result, .resolved result ∈ s.settlements → ∃ json seen rest,
    events = seen ++ .continued :: rest ∧ Completes maxOutputBytes parse json seen result
  settled : Quiescent s → s.closed = true ∨ s.terminal = true ∨ s.completing = true →
    s.settlements ≠ []

/-! ## How far a call is -/

variable {maxOutputBytes : ℕ} {parse : String → Option Result} {events : List RunEvent}
  {s t : RunState Result} {json : Option String} {result : Option Result}

structure Running (maxOutputBytes : ℕ) (events : List RunEvent) (s : RunState Result) : Prop where
  terminal : s.terminal = false
  completing : s.completing = false
  closed : s.closed = false
  quiet : ∀ event ∈ events, event.ends = false
  stdout : s.stdout = outputOf .stdout events
  stderr : s.stderr = outputOf .stderr events
  bytes : s.outputBytes =
    outputSize (outputOf .stdout events) + outputSize (outputOf .stderr events)
  limit : s.outputBytes ≤ maxOutputBytes
  continuations : s.continuations = []
  settlements : s.settlements = []

/-- The program is complete, and its child is being ended. -/
structure Completing (maxOutputBytes : ℕ) (parse : String → Option Result)
    (json : Option String) (result : Option Result) (events : List RunEvent)
    (s : RunState Result) : Prop where
  terminal : s.terminal = false
  completing : s.completing = true
  timer : s.timer = false
  begun : s.termination ≠ .idle
  earned : Completes maxOutputBytes parse json events (collect result s)
  stdout : s.stdout = outputOf .stdout events
  stderr : s.stderr = outputOf .stderr events
  bytes : s.outputBytes = outputSize (outputOf .stdout events) +
    outputSize (outputOf .stderr events) + resultBytes json
  continuations : s.continuations = [.complete result]
  settlements : s.settlements = []

/-- The call is going to fail, once its child has been ended. -/
structure Failing (s : RunState Result) : Prop where
  terminal : s.terminal = true
  timer : s.timer = false
  listening : s.listening = false
  begun : s.termination ≠ .idle
  continuations : ∃ error, s.continuations = [.failure error] ∨
    ∃ result, s.continuations = [.complete result, .failure error]
  settlements : s.settlements = []

structure Settled (maxOutputBytes : ℕ) (parse : String → Option Result) (events : List RunEvent)
    (settlement : Settlement Result) (s : RunState Result) : Prop where
  terminal : s.terminal = true
  timer : s.timer = false
  listening : s.listening = false
  ended : s.termination = .resolved ∨ s.termination = .rejected
  continuations : s.continuations = []
  settlements : s.settlements = [settlement]
  earned : ∀ result, settlement = .resolved result → ∃ json seen rest,
    events = seen ++ .continued :: rest ∧ Completes maxOutputBytes parse json seen result

inductive Phase (maxOutputBytes : ℕ) (parse : String → Option Result) (events : List RunEvent)
    (s : RunState Result) : Prop
  | running (h : Running maxOutputBytes events s)
  | completing (json : Option String) (result : Option Result)
      (h : Completing maxOutputBytes parse json result events s)
  | failing (h : Failing s)
  | settled (settlement : Settlement Result)
      (h : Settled maxOutputBytes parse events settlement s)

/-! ## The phases -/

structure Live (s : RunState Result) : Prop where
  terminal : s.terminal = false
  continuations : s.continuations = [] ∨ ∃ result, s.continuations = [.complete result]
  settlements : s.settlements = []

theorem Running.live (h : Running maxOutputBytes events s) : Live s :=
  ⟨h.terminal, .inl h.continuations, h.settlements⟩

theorem Completing.live (h : Completing maxOutputBytes parse json result events s) : Live s :=
  ⟨h.terminal, .inr ⟨result, h.continuations⟩, h.settlements⟩

theorem finishError_of_terminal (h : s.terminal = true) (sent : Bool) (error : ComputerErrorCode) :
    finishError sent error s = s := by
  rw [finishError, if_pos h]

theorem Live.failing (h : Live s) (sent : Bool) (error : ComputerErrorCode) :
    Failing (finishError sent error s) := by
  rw [finishError, if_neg (by rw [h.terminal]; exact Bool.false_ne_true)]
  generalize hguards : detachRequestGuards { s with terminal := true } = guarded
  have hcontinuations : guarded.continuations = s.continuations := hguards ▸ rfl
  obtain ⟨termination, signals, heq, hbegun, -⟩ := exists_terminate sent guarded
  dsimp only
  rw [heq, hcontinuations]
  refine ⟨hguards ▸ rfl, hguards ▸ rfl, hguards ▸ rfl, hbegun, ⟨error, ?_⟩,
    hguards ▸ h.settlements⟩
  rcases h.continuations with hnone | ⟨result, hcomplete⟩
  · left
    dsimp only
    rw [hnone, List.nil_append]
  · right
    refine ⟨result, ?_⟩
    dsimp only
    rw [hcomplete, List.singleton_append]

/-- What an event leaves alone that is only about the child. -/
structure Keeps (s t : RunState Result) : Prop where
  terminal : t.terminal = s.terminal
  completing : t.completing = s.completing
  outputBytes : t.outputBytes = s.outputBytes
  stdout : t.stdout = s.stdout
  stderr : t.stderr = s.stderr
  timer : t.timer = s.timer
  listening : t.listening = s.listening
  continuations : t.continuations = s.continuations
  settlements : t.settlements = s.settlements
  begun : s.termination ≠ .idle → t.termination ≠ .idle
  ended : s.termination = .resolved ∨ s.termination = .rejected → t.termination = s.termination

theorem Keeps.refl (s : RunState Result) : Keeps s s :=
  ⟨rfl, rfl, rfl, rfl, rfl, rfl, rfl, rfl, rfl, id, fun _ => rfl⟩

theorem Keeps.live (h : Keeps s t) (hs : Live s) : Live t :=
  ⟨h.terminal.trans hs.terminal, h.continuations ▸ hs.continuations,
    h.settlements.trans hs.settlements⟩

theorem keeps_terminate (sent : Bool) (s : RunState Result) : Keeps s (terminate sent s) := by
  obtain ⟨termination, signals, heq, hbegun, hsame⟩ := exists_terminate sent s
  rw [heq]
  refine ⟨rfl, rfl, rfl, rfl, rfl, rfl, rfl, rfl, rfl, fun _ => hbegun, fun hended => hsame ?_⟩
  rcases hended with h | h <;> rw [h] <;> exact Termination.noConfusion

variable {sent : Bool} {event : RunEvent}

theorem keeps_graceElapsed (h : graceElapsed sent s = some t) :
    Keeps s t ∧ t.closed = s.closed := by
  rw [graceElapsed] at h
  split at h
  · cases h
  split at h
  next hgraceful =>
    obtain rfl := Option.some.inj h
    refine ⟨⟨rfl, rfl, rfl, rfl, rfl, rfl, rfl, rfl, rfl, fun _ => ?_, fun hended => ?_⟩,
      rfl⟩
    · cases sent <;> exact Termination.noConfusion
    · rw [hgraceful] at hended
      simp at hended
  next hrefused =>
    obtain rfl := Option.some.inj h
    refine ⟨⟨rfl, rfl, rfl, rfl, rfl, rfl, rfl, rfl, rfl, fun _ => Termination.noConfusion,
      fun hended => ?_⟩, rfl⟩
    rw [hrefused] at hended
    simp at hended
  next => cases h

theorem keeps_resolved (hopen : ¬ (s.termination = .resolved ∨ s.termination = .rejected))
    (h : some { s with termination := .resolved } = some t) :
    Keeps s t ∧ t.closed = s.closed := by
  obtain rfl := Option.some.inj h
  exact ⟨⟨rfl, rfl, rfl, rfl, rfl, rfl, rfl, rfl, rfl, fun _ => Termination.noConfusion,
    fun hended => absurd hended hopen⟩, rfl⟩

theorem keeps_waitedClosed (h : waitedClosed s = some t) : Keeps s t ∧ t.closed = s.closed := by
  rw [waitedClosed] at h
  split at h
  · split at h
    · exact keeps_resolved (by simp [*]) h
    · exact keeps_resolved (by simp [*]) h
    · exact keeps_resolved (by simp [*]) h
    · cases h
  · cases h

theorem outputOf_concat {target : Output} (h : event.chunk? target = none) :
    outputOf target (events ++ [event]) = outputOf target events := by
  simp [outputOf, List.filterMap_append, h]

theorem forall_mem_concat {P : RunEvent → Prop} (h : ∀ e ∈ events, P e) (hevent : P event) :
    ∀ e ∈ events ++ [event], P e := by
  intro e he
  rcases List.mem_append.mp he with he | he
  · exact h e he
  · exact List.mem_singleton.mp he ▸ hevent

theorem Settled.concat {settlement : Settlement Result}
    (h : Settled maxOutputBytes parse events settlement s) (event : RunEvent) :
    Settled maxOutputBytes parse (events ++ [event]) settlement s :=
  { h with
    earned result hresult := by
      obtain ⟨json, seen, rest, heq, hcompletes⟩ := h.earned result hresult
      exact ⟨json, seen, rest ++ [event], by rw [heq, List.append_assoc, List.cons_append],
        hcompletes⟩ }

theorem Completes.concat {result : ComputerJsRunnerResult Result}
    (h : Completes maxOutputBytes parse json events result) (hcalm : event.disturbs = false)
    (hchunk : ∀ target, event.chunk? target = none) :
    Completes maxOutputBytes parse json (events ++ [event]) result where
  events := by
    obtain ⟨before, after, heq, hbefore, hafter⟩ := h.events
    exact ⟨before, after ++ [event], by rw [heq, List.append_assoc, List.cons_append], hbefore,
      forall_mem_concat hafter hcalm⟩
  parsed := h.parsed
  stdout := by rw [outputOf_concat (hchunk _), h.stdout]
  stderr := by rw [outputOf_concat (hchunk _), h.stderr]
  limit := by
    rw [outputOf_concat (hchunk _), outputOf_concat (hchunk _)]
    exact h.limit

section

variable (h : Phase maxOutputBytes parse events s)

include h

theorem Phase.keep (hkeeps : Keeps s t)
    (hquiet : s.terminal = false → s.completing = false →
      event.ends = false ∧ t.closed = s.closed)
    (hcalm : s.terminal = false → s.completing = true → event.disturbs = false)
    (hchunk : s.terminal = false → ∀ target, event.chunk? target = none) :
    Phase maxOutputBytes parse (events ++ [event]) t := by
  cases h with
  | running h =>
    obtain ⟨hends, hclosed⟩ := hquiet h.terminal h.completing
    have hchunk := hchunk h.terminal
    exact .running {
      terminal := hkeeps.terminal.trans h.terminal
      completing := hkeeps.completing.trans h.completing
      closed := hclosed.trans h.closed
      quiet := forall_mem_concat h.quiet hends
      stdout := by rw [hkeeps.stdout, h.stdout, outputOf_concat (hchunk _)]
      stderr := by rw [hkeeps.stderr, h.stderr, outputOf_concat (hchunk _)]
      bytes := by
        rw [hkeeps.outputBytes, h.bytes, outputOf_concat (hchunk _), outputOf_concat (hchunk _)]
      limit := hkeeps.outputBytes ▸ h.limit
      continuations := hkeeps.continuations.trans h.continuations
      settlements := hkeeps.settlements.trans h.settlements }
  | completing json result h =>
    have hchunk := hchunk h.terminal
    have hcollect : collect result t = collect result s := by
      rw [collect, hkeeps.stdout, hkeeps.stderr, collect]
    exact .completing json result {
      terminal := hkeeps.terminal.trans h.terminal
      completing := hkeeps.completing.trans h.completing
      timer := hkeeps.timer.trans h.timer
      begun := hkeeps.begun h.begun
      earned := hcollect ▸ h.earned.concat (hcalm h.terminal h.completing) hchunk
      stdout := by rw [hkeeps.stdout, h.stdout, outputOf_concat (hchunk _)]
      stderr := by rw [hkeeps.stderr, h.stderr, outputOf_concat (hchunk _)]
      bytes := by
        rw [hkeeps.outputBytes, h.bytes, outputOf_concat (hchunk _), outputOf_concat (hchunk _)]
      continuations := hkeeps.continuations.trans h.continuations
      settlements := hkeeps.settlements.trans h.settlements }
  | failing h =>
    exact .failing {
      terminal := hkeeps.terminal.trans h.terminal
      timer := hkeeps.timer.trans h.timer
      listening := hkeeps.listening.trans h.listening
      begun := hkeeps.begun h.begun
      continuations := hkeeps.continuations ▸ h.continuations
      settlements := hkeeps.settlements.trans h.settlements }
  | settled settlement h =>
    have h := h.concat event
    exact .settled settlement {
      terminal := hkeeps.terminal.trans h.terminal
      timer := hkeeps.timer.trans h.timer
      listening := hkeeps.listening.trans h.listening
      ended := hkeeps.ended h.ended ▸ h.ended
      continuations := hkeeps.continuations.trans h.continuations
      settlements := hkeeps.settlements.trans h.settlements
      earned := h.earned }

theorem Phase.over (hkeeps : Keeps s t) (hterminal : s.terminal = true) (event : RunEvent) :
    Phase maxOutputBytes parse (events ++ [event]) t := by
  have hno : s.terminal ≠ false := by rw [hterminal]; exact Bool.noConfusion
  exact h.keep hkeeps (fun hopen => absurd hopen hno) (fun hopen => absurd hopen hno)
    fun hopen => absurd hopen hno

theorem Phase.live (hterminal : s.terminal = false) : Live s := by
  cases h with
  | running h => exact h.live
  | completing json result h => exact h.live
  | failing h => exact absurd (h.terminal.symm.trans hterminal) Bool.noConfusion
  | settled settlement h => exact absurd (h.terminal.symm.trans hterminal) Bool.noConfusion

theorem Phase.fail (hkeeps : Keeps s t) (event : RunEvent) (sent : Bool)
    (error : ComputerErrorCode) :
    Phase maxOutputBytes parse (events ++ [event]) (finishError sent error t) := by
  cases hterminal : s.terminal with
  | true =>
    rw [finishError_of_terminal (hkeeps.terminal.trans hterminal)]
    exact h.over hkeeps hterminal event
  | false => exact .failing ((hkeeps.live (h.live hterminal)).failing sent error)

end

theorem outputOf_append_output (target : Output) (chunk : Bytes) (other : Output) :
    outputOf other (events ++ [.output target chunk]) =
      if target = other then outputOf other events ++ [chunk] else outputOf other events := by
  rw [outputOf, List.filterMap_append]
  split
  next h => simp [RunEvent.chunk?, h, outputOf]
  next h => simp [RunEvent.chunk?, h, outputOf]

theorem outputSize_concat (chunks : List Bytes) (chunk : Bytes) :
    outputSize (chunks ++ [chunk]) = outputSize chunks + chunk.length := by
  simp [outputSize]

theorem outputSize_append_output (target : Output) (chunk : Bytes) :
    outputSize (outputOf .stdout (events ++ [.output target chunk])) +
        outputSize (outputOf .stderr (events ++ [.output target chunk])) =
      outputSize (outputOf .stdout events) + outputSize (outputOf .stderr events) +
        chunk.length := by
  rw [outputOf_append_output, outputOf_append_output]
  cases target with
  | stdout =>
    rw [if_pos rfl, if_neg Output.noConfusion, outputSize_concat]
    omega
  | stderr =>
    rw [if_neg Output.noConfusion, if_pos rfl, outputSize_concat]
    omega

theorem appendOutput_eq {target : Output} {chunk : Bytes} (sent : Bool)
    (hterminal : s.terminal = false) (hlimit : s.outputBytes + chunk.length ≤ maxOutputBytes)
    (hout : s.stdout = outputOf .stdout events) (herr : s.stderr = outputOf .stderr events) :
    appendOutput maxOutputBytes sent target chunk s = { s with
      outputBytes := s.outputBytes + chunk.length
      stdout := outputOf .stdout (events ++ [.output target chunk])
      stderr := outputOf .stderr (events ++ [.output target chunk]) } := by
  rw [appendOutput, if_neg (by rw [hterminal]; exact Bool.false_ne_true),
    outputOf_append_output, outputOf_append_output]
  dsimp only
  rw [if_neg (Nat.not_lt.mpr hlimit)]
  cases target with
  | stdout => rw [if_pos rfl, if_neg Output.noConfusion, ← hout, ← herr]
  | stderr => rw [if_neg Output.noConfusion, if_pos rfl, ← hout, ← herr]

theorem Live.failing_appendOutput (h : Live s) {target : Output} {chunk : Bytes} (sent : Bool)
    (hlimit : ¬ s.outputBytes + chunk.length ≤ maxOutputBytes) :
    Failing (appendOutput maxOutputBytes sent target chunk s) := by
  rw [appendOutput, if_neg (by rw [h.terminal]; exact Bool.false_ne_true)]
  dsimp only
  rw [if_pos (Nat.lt_of_not_le hlimit)]
  refine Live.failing ?_ sent _
  exact ⟨h.terminal, h.continuations, h.settlements⟩

theorem Phase.output (h : Phase maxOutputBytes parse events s) (target : Output) (chunk : Bytes)
    (sent : Bool) :
    Phase maxOutputBytes parse (events ++ [.output target chunk])
      (appendOutput maxOutputBytes sent target chunk s) := by
  cases hterminal : s.terminal with
  | true =>
    rw [appendOutput, if_pos hterminal]
    exact h.over (.refl s) hterminal _
  | false =>
    by_cases hlimit : s.outputBytes + chunk.length ≤ maxOutputBytes
    · cases h with
      | running h =>
        rw [appendOutput_eq sent hterminal hlimit h.stdout h.stderr]
        exact .running {
          terminal := h.terminal, completing := h.completing, closed := h.closed
          quiet := forall_mem_concat h.quiet rfl
          stdout := rfl, stderr := rfl
          bytes := by rw [outputSize_append_output, ← h.bytes]
          limit := hlimit
          continuations := h.continuations, settlements := h.settlements }
      | completing json result h =>
        rw [appendOutput_eq sent hterminal hlimit h.stdout h.stderr]
        have hbytes : s.outputBytes + chunk.length =
            outputSize (outputOf .stdout (events ++ [.output target chunk])) +
              outputSize (outputOf .stderr (events ++ [.output target chunk])) +
              resultBytes json := by
          rw [outputSize_append_output, h.bytes]
          omega
        obtain ⟨before, after, heq, hbefore, hafter⟩ := h.earned.events
        exact .completing json result {
          terminal := h.terminal, completing := h.completing, timer := h.timer, begun := h.begun
          earned :=
            { events := ⟨before, after ++ [.output target chunk],
                by rw [heq, List.append_assoc, List.cons_append], hbefore,
                forall_mem_concat hafter rfl⟩
              parsed := h.earned.parsed, stdout := rfl, stderr := rfl, limit := hbytes ▸ hlimit }
          stdout := rfl, stderr := rfl, bytes := hbytes
          continuations := h.continuations, settlements := h.settlements }
      | failing h => exact absurd (h.terminal.symm.trans hterminal) Bool.noConfusion
      | settled settlement h => exact absurd (h.terminal.symm.trans hterminal) Bool.noConfusion
    · exact .failing ((h.live hterminal).failing_appendOutput sent hlimit)

theorem Running.finishSuccess (h : Running maxOutputBytes events s) (resultJson : Option String)
    (sent : Bool) :
    Phase maxOutputBytes parse (events ++ [.message (some (.complete resultJson))])
      (finishSuccess maxOutputBytes parse sent resultJson s) := by
  have hchunk : ∀ target, (RunEvent.message (some (.complete resultJson))).chunk? target = none :=
    fun _ => rfl
  rw [JsRunner.finishSuccess,
    if_neg (by rw [h.terminal, h.completing]; exact Bool.false_ne_true)]
  split
  next hlimit => exact .failing (h.live.failing sent _)
  next hlimit =>
    split
    next hparse => exact .failing (h.live.failing sent _)
    next result hparse =>
      dsimp only
      generalize hopen : { s with
        outputBytes := s.outputBytes + resultBytes resultJson
        completing := true
        timer := false } = opened
      obtain ⟨termination, signals, heq, hbegun, -⟩ := exists_terminate sent opened
      rw [heq]
      subst hopen
      have hbytes : s.outputBytes + resultBytes resultJson =
          outputSize (outputOf .stdout (events ++ [.message (some (.complete resultJson))])) +
            outputSize (outputOf .stderr (events ++ [.message (some (.complete resultJson))])) +
            resultBytes resultJson := by
        rw [outputOf_concat (hchunk _), outputOf_concat (hchunk _), h.bytes]
      exact .completing resultJson result {
        terminal := h.terminal, completing := rfl, timer := rfl, begun := hbegun
        earned :=
          { events := ⟨events, [], rfl, h.quiet, List.forall_mem_nil _⟩
            parsed := hparse
            stdout := by rw [outputOf_concat (hchunk _), ← h.stdout]; rfl
            stderr := by rw [outputOf_concat (hchunk _), ← h.stderr]; rfl
            limit := hbytes ▸ Nat.le_of_not_lt hlimit }
        stdout := by rw [outputOf_concat (hchunk _), ← h.stdout]
        stderr := by rw [outputOf_concat (hchunk _), ← h.stderr]
        bytes := hbytes
        continuations := by
          dsimp only
          rw [h.continuations, List.nil_append]
        settlements := h.settlements }

section

variable (h : Phase maxOutputBytes parse events s)

include h

theorem Phase.message (parsed : Option RunnerMessage) (sent : Bool) :
    Phase maxOutputBytes parse (events ++ [.message parsed])
      (onMessage maxOutputBytes parse sent parsed s) := by
  unfold onMessage
  split
  next hterminal => exact h.over (.refl s) hterminal _
  next hterminal =>
    split
    next => exact h.fail (.refl s) _ sent _
    next hcompleting =>
      split
      next => exact h.fail (.refl s) _ sent _
      next resultJson =>
        cases h with
        | running h => exact h.finishSuccess resultJson sent
        | completing json result h => exact absurd h.completing hcompleting
        | failing h => exact absurd h.terminal hterminal
        | settled settlement h => exact absurd h.terminal hterminal
      next => exact h.fail (.refl s) _ sent _
      next =>
        refine h.keep ⟨rfl, rfl, rfl, rfl, rfl, rfl, rfl, rfl, rfl, id, fun _ => rfl⟩
          (fun _ _ => ⟨rfl, rfl⟩) (fun _ h => absurd h hcompleting) fun _ _ => rfl

theorem Phase.close (sent : Bool) :
    Phase maxOutputBytes parse (events ++ [.close]) (onClose sent s) := by
  have hkeeps : Keeps s { s with closed := true } :=
    ⟨rfl, rfl, rfl, rfl, rfl, rfl, rfl, rfl, rfl, id, fun _ => rfl⟩
  rw [onClose]
  dsimp only
  split
  next => exact h.fail hkeeps _ sent _
  next hover =>
    refine h.keep hkeeps (fun hterminal hcompleting => ?_) (fun _ _ => rfl) fun _ _ => rfl
    rw [hterminal, hcompleting] at hover
    exact absurd rfl hover

theorem Phase.proceed {success : Bool} {continuation : Continuation Result}
    {rest : List (Continuation Result)}
    (hended : s.termination = .resolved ∨ s.termination = .rejected)
    (hcontinuations : s.continuations = continuation :: rest) :
    Phase maxOutputBytes parse (events ++ [.continued])
      (proceed success continuation { s with continuations := rest }) := by
  cases h with
  | running h =>
    rw [h.continuations] at hcontinuations
    cases hcontinuations
  | completing json result h =>
    rw [h.continuations] at hcontinuations
    obtain ⟨rfl, rfl⟩ := List.cons.inj hcontinuations
    rw [JsRunner.proceed, if_neg (by rw [h.terminal]; exact Bool.false_ne_true)]
    cases success with
    | true =>
      refine .settled (.resolved (collect result s))
        ⟨rfl, rfl, rfl, hended, rfl, ?_, fun earned hearned => ⟨json, events, [], rfl, ?_⟩⟩
      · dsimp only [detachRequestGuards]
        rw [h.settlements, List.nil_append]
        rfl
      · obtain rfl := Settlement.resolved.inj hearned
        exact h.earned
    | false =>
      refine .settled (.rejected .COMPUTER_JS_FAILED) ⟨rfl, rfl, rfl, hended, rfl, ?_, nofun⟩
      dsimp only [detachRequestGuards]
      rw [h.settlements, List.nil_append]
      rfl
  | failing h =>
    obtain ⟨error, hfailure | ⟨result, hboth⟩⟩ := h.continuations
    · rw [hfailure] at hcontinuations
      obtain ⟨rfl, rfl⟩ := List.cons.inj hcontinuations
      refine .settled (.rejected error)
        ⟨h.terminal, h.timer, h.listening, hended, rfl, ?_, nofun⟩
      dsimp only [JsRunner.proceed]
      rw [h.settlements, List.nil_append]
    · rw [hboth] at hcontinuations
      obtain ⟨rfl, rfl⟩ := List.cons.inj hcontinuations
      rw [JsRunner.proceed, if_pos h.terminal]
      exact .failing
        ⟨h.terminal, h.timer, h.listening, h.begun, ⟨error, .inl rfl⟩, h.settlements⟩
  | settled settlement h =>
    rw [h.continuations] at hcontinuations
    cases hcontinuations

theorem Phase.step (ht : runner maxOutputBytes parse s (event, sent) = some t) :
    Phase maxOutputBytes parse (events ++ [event]) t := by
  cases event with
  | output target chunk =>
    obtain rfl := Option.some.inj ht
    exact h.output target chunk sent
  | message parsed =>
    obtain rfl := Option.some.inj ht
    exact h.message parsed sent
  | rpcEnded failure =>
    simp only [runner] at ht
    split at ht
    · cases ht
    · have hkeeps : Keeps s { s with pendingRpcs := s.pendingRpcs - 1 } :=
        ⟨rfl, rfl, rfl, rfl, rfl, rfl, rfl, rfl, rfl, id, fun _ => rfl⟩
      cases failure with
      | none =>
        obtain rfl := Option.some.inj ht
        exact h.keep hkeeps (fun _ _ => ⟨rfl, rfl⟩) (fun _ _ => rfl) fun _ _ => rfl
      | some error =>
        obtain rfl := Option.some.inj ht
        exact h.fail hkeeps _ sent error
  | error =>
    obtain rfl := Option.some.inj ht
    exact h.fail (.refl s) _ sent _
  | close =>
    simp only [runner] at ht
    split at ht
    · cases ht
    · obtain rfl := Option.some.inj ht
      exact h.close sent
  | abort =>
    simp only [runner] at ht
    split at ht
    · obtain rfl := Option.some.inj ht
      exact h.fail (.refl s) _ sent _
    · cases ht
  | timeout =>
    simp only [runner] at ht
    split at ht
    · obtain rfl := Option.some.inj ht
      exact h.fail (.refl s) _ sent _
    · cases ht
  | supervisorClose =>
    simp only [runner] at ht
    split at ht
    · obtain rfl := Option.some.inj ht
      exact h.keep (.refl s) (fun _ _ => ⟨rfl, rfl⟩) (fun _ _ => rfl) fun _ _ => rfl
    · obtain rfl := Option.some.inj ht
      refine h.keep (keeps_terminate sent s) (fun _ _ => ⟨rfl, ?_⟩) (fun _ _ => rfl)
        fun _ _ => rfl
      obtain ⟨termination, signals, heq, -⟩ := exists_terminate sent s
      rw [heq]
  | graceElapsed =>
    obtain ⟨hkeeps, hclosed⟩ := keeps_graceElapsed ht
    exact h.keep hkeeps (fun _ _ => ⟨rfl, hclosed⟩) (fun _ _ => rfl) fun _ _ => rfl
  | waitedClosed =>
    obtain ⟨hkeeps, hclosed⟩ := keeps_waitedClosed ht
    exact h.keep hkeeps (fun _ _ => ⟨rfl, hclosed⟩) (fun _ _ => rfl) fun _ _ => rfl
  | continued =>
    simp only [runner, continued] at ht
    split at ht
    next hresolved hcontinuations =>
      obtain rfl := Option.some.inj ht
      exact h.proceed (.inl hresolved) hcontinuations
    next hrejected hcontinuations =>
      obtain rfl := Option.some.inj ht
      exact h.proceed (.inr hrejected) hcontinuations
    next => cases ht

end

theorem phase_run {options : ComputerJsRunnerSupervisorOptions} {closing : Bool}
    {request : ComputerJsRunnerRequest} {spawned : Spawned}
    (h : run options closing request spawned sent = .ok s) :
    Phase options.maxOutputBytes parse [] s ∧ Signalled s := by
  have hrunning : ∀ timer listening, Running options.maxOutputBytes []
      ({ initial with timer := timer, listening := listening } : RunState Result) := fun _ _ =>
    ⟨rfl, rfl, rfl, nofun, rfl, rfl, rfl, Nat.zero_le _, rfl, rfl⟩
  have hsignalled : ∀ timer listening,
      Signalled ({ initial with timer := timer, listening := listening } : RunState Result) :=
    fun _ _ => ⟨nofun, nofun⟩
  unfold run at h
  split at h
  · cases h
  split at h
  · cases h
  split at h
  · cases h
  · cases h
  · dsimp only at h
    split at h
    · obtain rfl := Except.ok.inj h
      exact ⟨.failing ((hrunning _ false).live.failing sent _),
        (hsignalled _ false).finishError sent _⟩
    · obtain rfl := Except.ok.inj h
      exact ⟨.running (hrunning _ _), hsignalled _ _⟩

theorem Phase.follow {events : List (RunEvent × Bool)} {seen : List RunEvent}
    (h : Phase maxOutputBytes parse seen s) (hsignalled : Signalled s)
    (hfollow : Machine.follow (runner maxOutputBytes parse) events s = some t) :
    Phase maxOutputBytes parse (seen ++ events.map Prod.fst) t ∧ Signalled t := by
  induction events generalizing seen s with
  | nil =>
    obtain rfl := Option.some.inj hfollow
    rw [List.map_nil, List.append_nil]
    exact ⟨h, hsignalled⟩
  | cons entry events ih =>
    obtain ⟨event, sent⟩ := entry
    obtain ⟨middle, hstep, hfollow⟩ := Option.bind_eq_some_iff.mp hfollow
    have := ih (h.step hstep) (hsignalled.step hstep) hfollow
    rwa [List.append_assoc] at this

/-! ## How a call ends -/

/-- The events that the call waits for by itself: a timer, or its turn after a promise. -/
def RunEvent.isOwn : RunEvent → Bool
  | .graceElapsed | .waitedClosed | .continued => true
  | _ => false

/-- Nothing more is expected of the program. -/
def Over (s : RunState Result) : Prop :=
  s.closed = true ∨ s.terminal = true ∨ s.completing = true

/-- How many of its own events there can still be. -/
def remaining (s : RunState Result) : ℕ :=
  (match s.termination with
    | .graceful => 2
    | .refused | .killed => 1
    | .idle | .resolved | .rejected => 0) + s.continuations.length

/-- What an event of its own leaves of a call. -/
structure OwnStep (s t : RunState Result) : Prop where
  remaining : remaining t < remaining s
  closed : t.closed = s.closed
  ended : Over s → Over t

theorem OwnStep.proceed {success : Bool} {continuation : Continuation Result}
    {rest : List (Continuation Result)} (h : s.continuations = continuation :: rest) :
    OwnStep s (JsRunner.proceed success continuation { s with continuations := rest }) := by
  have hless : JsRunner.remaining { s with continuations := rest } < JsRunner.remaining s := by
    rw [JsRunner.remaining, JsRunner.remaining, h, List.length_cons]
    exact Nat.lt_succ_self _
  cases continuation with
  | failure error => exact ⟨hless, rfl, id⟩
  | complete result =>
    rw [JsRunner.proceed]
    split
    · exact ⟨hless, rfl, id⟩
    · exact ⟨hless, rfl, fun _ => .inr (.inl rfl)⟩

theorem ownStep (hevent : event.isOwn = true)
    (h : runner maxOutputBytes parse s (event, sent) = some t) : OwnStep s t := by
  cases event
  case graceElapsed =>
    simp only [runner, graceElapsed] at h
    split at h
    · cases h
    split at h
    next hgraceful =>
      obtain rfl := Option.some.inj h
      exact ⟨by cases sent <;> simp [remaining, hgraceful], rfl, id⟩
    next hrefused =>
      obtain rfl := Option.some.inj h
      exact ⟨by simp [remaining, hrefused], rfl, id⟩
    next => cases h
  case waitedClosed =>
    simp only [runner, waitedClosed] at h
    split at h
    · split at h
      case h_1 hwaits | h_2 hwaits | h_3 hwaits =>
        obtain rfl := Option.some.inj h
        exact ⟨by simp [remaining, hwaits], rfl, id⟩
      case h_4 => cases h
    · cases h
  case continued =>
    simp only [runner, continued] at h
    split at h
    case h_1 hcontinuations | h_2 hcontinuations =>
      obtain rfl := Option.some.inj h
      exact .proceed hcontinuations
    case h_3 => cases h
  all_goals cases hevent

theorem length_own_le {own : List (RunEvent × Bool)} (hown : ∀ entry ∈ own, entry.1.isOwn = true)
    (h : Machine.follow (runner maxOutputBytes parse) own s = some t) :
    own.length + remaining t ≤ remaining s := by
  induction own generalizing s with
  | nil =>
    obtain rfl := Option.some.inj h
    exact (Nat.zero_add _).le
  | cons entry own ih =>
    obtain ⟨hfirst, hrest⟩ := List.forall_mem_cons.mp hown
    obtain ⟨middle, hstep, hfollow⟩ := Option.bind_eq_some_iff.mp h
    have hless := (ownStep hfirst hstep).remaining
    have hle := ih hrest hfollow
    rw [List.length_cons]
    omega

theorem Quiescent.continuations (h : Quiescent s) (hbegun : s.termination ≠ .idle) :
    s.continuations = [] := by
  have hwaited := h.waitedClosed
  have hgrace := h.graceElapsed true
  have hcontinued := h.continued
  rw [JsRunner.waitedClosed] at hwaited
  rw [JsRunner.graceElapsed] at hgrace
  rw [JsRunner.continued] at hcontinued
  cases hclosed : s.closed with
  | true =>
    rw [if_pos hclosed] at hwaited
    cases htermination : s.termination with
    | idle => exact absurd htermination hbegun
    | graceful | refused | killed =>
      rw [htermination] at hwaited
      cases hwaited
    | resolved | rejected =>
      cases hcontinuations : s.continuations with
      | nil => rfl
      | cons continuation rest =>
        rw [htermination, hcontinuations] at hcontinued
        cases hcontinued
  | false =>
    rw [if_neg (by rw [hclosed]; exact Bool.false_ne_true)] at hgrace
    cases htermination : s.termination with
    | idle => exact absurd htermination hbegun
    | graceful | refused =>
      rw [htermination] at hgrace
      cases hgrace
    | killed => exact absurd (h.killed htermination) (by rw [hclosed]; exact Bool.false_ne_true)
    | resolved | rejected =>
      cases hcontinuations : s.continuations with
      | nil => rfl
      | cons continuation rest =>
        rw [htermination, hcontinuations] at hcontinued
        cases hcontinued

theorem Phase.settled_of_quiescent (h : Phase maxOutputBytes parse events s)
    (hrest : Quiescent s) (hover : s.closed = true ∨ s.terminal = true ∨ s.completing = true) :
    s.settlements ≠ [] := by
  cases h with
  | running h =>
    rw [h.closed, h.terminal, h.completing] at hover
    simp at hover
  | completing json result h =>
    have := hrest.continuations h.begun
    rw [h.continuations] at this
    cases this
  | failing h =>
    have := hrest.continuations h.begun
    obtain ⟨error, hfailure | ⟨result, hboth⟩⟩ := h.continuations
    · rw [hfailure] at this
      cases this
    · rw [hboth] at this
      cases this
  | settled settlement h =>
    rw [h.settlements]
    exact List.cons_ne_nil _ _

theorem Phase.settled_of_ne_nil (h : Phase maxOutputBytes parse events s)
    (hsettled : s.settlements ≠ []) :
    ∃ settlement, Settled maxOutputBytes parse events settlement s := by
  cases h with
  | running h => exact absurd h.settlements hsettled
  | completing json result h => exact absurd h.settlements hsettled
  | failing h => exact absurd h.settlements hsettled
  | settled settlement h => exact ⟨settlement, h⟩

/-- Some of its own events, and the `close` of its child, settle the call. -/
def CanSettle (maxOutputBytes : ℕ) (parse : String → Option Result) (s : RunState Result) : Prop :=
  ∃ rest t, (∀ entry ∈ rest, RunEvent.isOwn entry.1 = true ∨ entry.1 = .close) ∧
    Machine.follow (runner maxOutputBytes parse) rest s = some t ∧ t.settlements ≠ []

theorem Phase.canSettle (h : Phase maxOutputBytes parse events s) (hover : Over s) :
    CanSettle maxOutputBytes parse s := by
  -- The events that are left: its own ones, and the `close` of the child.
  induction hn : remaining s + (if s.closed then 0 else 1) using Nat.strong_induction_on
    generalizing s events with
  | _ n ih =>
    have hnext : ∀ {event sent t}, runner maxOutputBytes parse s (event, sent) = some t →
        (event.isOwn = true ∨ event = .close) → Over t →
        remaining t + (if t.closed then 0 else 1) < n → CanSettle maxOutputBytes parse s := by
      intro event sent t hstep hevent hover hless
      obtain ⟨rest, u, hrest, hfollow, hsettled⟩ := ih _ hless (h.step hstep) hover rfl
      exact ⟨(event, sent) :: rest, u, List.forall_mem_cons.mpr ⟨hevent, hrest⟩,
        Option.bind_eq_some_iff.mpr ⟨t, hstep, hfollow⟩, hsettled⟩
    have hown : ∀ {event sent t}, event.isOwn = true →
        runner maxOutputBytes parse s (event, sent) = some t →
        CanSettle maxOutputBytes parse s := by
      intro event sent t hevent hstep
      have hkept := ownStep hevent hstep
      refine hnext hstep (.inl hevent) (hkept.ended hover) ?_
      rw [hkept.closed, ← hn]
      exact Nat.add_lt_add_right hkept.remaining _
    by_cases hrest : Quiescent s
    · exact ⟨[], s, nofun, rfl, h.settled_of_quiescent hrest hover⟩
    cases hwaited : waitedClosed s with
    | some t => exact @hown .waitedClosed true t rfl hwaited
    | none =>
    cases hcontinued : continued s with
    | some t => exact @hown .continued true t rfl hcontinued
    | none =>
    by_cases hgrace : ∀ sent, graceElapsed sent s = none
    · -- Nothing but the `close` of a child that has been killed is left.
      have hkilled : s.termination = .killed ∧ s.closed = false := by
        by_contra hnot
        exact hrest ⟨hwaited, hcontinued, hgrace, fun hkilled =>
          by_contra fun hopen => hnot ⟨hkilled, (Bool.not_eq_true _).mp hopen⟩⟩
      have hclose : runner maxOutputBytes parse s (.close, true) =
          some { s with closed := true } := by
        rcases hover with hclosed | hterminal | hcompleting
        · cases hkilled.2.symm.trans hclosed
        · simp [runner, onClose, hkilled.2, hterminal]
        · simp [runner, onClose, hkilled.2, hcompleting]
      refine hnext hclose (.inr rfl) (.inl rfl) ?_
      rw [← hn, hkilled.2]
      exact Nat.lt_succ_self _
    · obtain ⟨sent, hsome⟩ := not_forall.mp hgrace
      obtain ⟨t, ht⟩ := Option.ne_none_iff_exists'.mp hsome
      exact @hown .graceElapsed sent t rfl ht

/-- A call settles once and cleanly, whatever happens in whichever order. -/
theorem settles_of_run {options : ComputerJsRunnerSupervisorOptions} {closing : Bool}
    {request : ComputerJsRunnerRequest} {spawned : Spawned} {sent : Bool} {begun : RunState Result}
    {events : List (RunEvent × Bool)}
    (hrun : run options closing request spawned sent = .ok begun)
    (hfollow : Machine.follow (runner options.maxOutputBytes parse) events begun = some s) :
    Settles options.maxOutputBytes parse (events.map Prod.fst) s := by
  obtain ⟨hbegun, hsignalled⟩ := phase_run hrun
  obtain ⟨hphase, hsignalled⟩ := hbegun.follow hsignalled hfollow
  rw [List.nil_append] at hphase
  refine ⟨?_, fun hne => ?_, fun hne => ?_, fun result hresult => ?_, fun hrest hover =>
    hphase.settled_of_quiescent hrest hover⟩
  · by_cases hne : s.settlements = []
    · rw [hne]
      exact Nat.zero_le 1
    · obtain ⟨settlement, h⟩ := hphase.settled_of_ne_nil hne
      rw [h.settlements]
      exact le_rfl
  · obtain ⟨settlement, h⟩ := hphase.settled_of_ne_nil hne
    rcases h.ended with hresolved | hrejected
    · exact .inl (hsignalled.closed hresolved)
    · exact .inr ⟨hrejected, hsignalled.refused (.inr hrejected)⟩
  · obtain ⟨settlement, h⟩ := hphase.settled_of_ne_nil hne
    refine ⟨h.timer, h.listening, ?_⟩
    rcases h.ended with hended | hended <;> rw [hended] <;>
      exact ⟨Termination.noConfusion, Termination.noConfusion⟩
  · obtain ⟨settlement, h⟩ := hphase.settled_of_ne_nil (List.ne_nil_of_mem hresult)
    rw [h.settlements, List.mem_singleton] at hresult
    exact h.earned result hresult.symm

/-- A program that writes and is complete, and whose child closes when it is asked to. -/
theorem settles_completed :
    Settles 10 (fun json => if json = "1" then some 1 else none)
      [.output .stdout [104], .message (some (.complete (some "1"))), .output .stdout [105],
        .close, .waitedClosed, .continued]
      { terminal := true, completing := true, outputBytes := 3, stdout := [[104], [105]]
        stderr := [], pendingRpcs := 0, timer := false, listening := false, closed := true
        termination := .resolved, signals := [(.SIGTERM, true)], continuations := []
        settlements := [.resolved ⟨['h', 'i'], [], some 1⟩] } := by
  have hfollow : Machine.follow (runner 10 fun json => if json = "1" then some 1 else none)
      [(.output .stdout [104], true), (.message (some (.complete (some "1"))), true),
        (.output .stdout [105], true), (.close, true), (.waitedClosed, true), (.continued, true)]
      ({ initial with timer := true, listening := true } : RunState ℕ) = some
        { terminal := true, completing := true, outputBytes := 3, stdout := [[104], [105]]
          stderr := [], pendingRpcs := 0, timer := false, listening := false, closed := true
          termination := .resolved, signals := [(.SIGTERM, true)], continuations := []
          settlements := [.resolved ⟨['h', 'i'], [], some 1⟩] } := by
    decide
  have hrun : run ⟨1000, 10⟩ false ⟨"return 1", some 5000, some false⟩ .child true =
      .ok ({ initial with timer := true, listening := true } : RunState ℕ) := rfl
  exact settles_of_run hrun hfollow

theorem Phase.remaining_le (h : Phase maxOutputBytes parse events s) : remaining s ≤ 4 := by
  have hcontinuations : s.continuations.length ≤ 2 := by
    cases h with
    | running h => simp [h.continuations]
    | completing json result h => simp [h.continuations]
    | failing h => obtain ⟨error, h | ⟨result, h⟩⟩ := h.continuations <;> simp [h]
    | settled settlement h => simp [h.continuations]
  rw [remaining]
  split <;> omega

/-- At any time of a run, a call can go through four events of its own at most before something
else happens to it, and once it is over it can settle by them and the `close` of its child. -/
theorem rests_of_run {options : ComputerJsRunnerSupervisorOptions} {closing : Bool}
    {request : ComputerJsRunnerRequest} {spawned : Spawned} {sent : Bool} {begun : RunState Result}
    {events : List (RunEvent × Bool)}
    (hrun : run options closing request spawned sent = .ok begun)
    (hfollow : Machine.follow (runner options.maxOutputBytes parse) events begun = some s) :
    (∀ own t, (∀ entry ∈ own, RunEvent.isOwn entry.1 = true) →
      Machine.follow (runner options.maxOutputBytes parse) own s = some t → own.length ≤ 4) ∧
    (Over s → CanSettle options.maxOutputBytes parse s) := by
  obtain ⟨hbegun, hsignalled⟩ := phase_run hrun
  obtain ⟨hphase, -⟩ := hbegun.follow hsignalled hfollow
  refine ⟨fun own t hown h => ?_, hphase.canSettle⟩
  have hlength := length_own_le hown h
  have hle := hphase.remaining_le
  omega

theorem rests_of_run_example : CanSettle 10 (fun _ => some 1)
    ({ initial with
        terminal := true, termination := .graceful, signals := [(.SIGTERM, true)]
        continuations := [.failure .COMPUTER_JS_FAILED] } : RunState ℕ) := by
  have hrun : run ⟨1000, 10⟩ false ⟨"return 1", some 5000, none⟩ .child true =
      .ok ({ initial with timer := true } : RunState ℕ) := rfl
  exact (rests_of_run hrun (show Machine.follow (runner 10 fun _ => some 1)
    [(.error, true)] _ = some _ from rfl)).2 (.inr (.inl rfl))

end JsRunner

end Computer
