import ChatgptSystem.Core.Utf8Boundary
import Mathlib.Algebra.GroupWithZero.Nat

/-!
# The mirror of a terminal session on disk

`TerminalMirror.append` (`terminal/terminal-mirror.ts`): the output of a session is appended to its log
file, one text after the other, and the log is cut where it has become too long.

* `TerminalMirror` — the log of a session, what waits in its chain, and how far the first of it is;
* `step` — one operation on the log, or an event between two of them;
* `Bounded` — what a completed append leaves;
* `CutFits` — the texts that are cut to an end that fits;
* `bounded_iff` — the log is bounded along a run as long as each text that is cut fits.
-/

namespace Text

variable {front back text : List Char} {n keep : ℕ}

/-! ## The end of a text in code units -/

theorem length_cons (c : Char) (text : List Char) :
    length (c :: text) = (codeUnits c).length + length text := by
  rw [length, List.flatMap_cons, List.length_append]
  rfl

theorem length_append (front back : List Char) :
    length (front ++ back) = length front + length back := by
  rw [length, List.flatMap_append, List.length_append]
  rfl

theorem length_codeUnits (c : Char) : (codeUnits c).length = 1 ∨ (codeUnits c).length = 2 := by
  unfold codeUnits
  split
  · exact .inl rfl
  · exact .inr rfl

def extraBytes (c : Char) : ℕ :=
  if c.toNat < 0x80 then 0 else if c.toNat < 0x800 then 1 else 2

theorem length_utf8EncodeChar (c : Char) :
    (String.utf8EncodeChar c).length = (codeUnits c).length + extraBytes c := by
  have hval : c.val.toNat = c.toNat := rfl
  unfold String.utf8EncodeChar codeUnits extraBytes
  dsimp only
  rw [hval]
  generalize c.toNat = v
  repeat' split
  all_goals first | omega | simp only [List.length_cons, List.length_nil]

theorem length_encode (text : List Char) :
    (encode text).length = length text + (text.map extraBytes).sum := by
  induction text with
  | nil => rfl
  | cons c text ih =>
    rw [encode_cons, List.length_append, length_utf8EncodeChar, ih, length_cons, List.map_cons,
      List.sum_cons]
    omega

theorem dropUnits_cases (h : n ≤ length text) :
    (∃ front back, text = front ++ back ∧ length front = n ∧ dropUnits n text = back) ∨
      ∃ front c back, text = front ++ c :: back ∧ length front + 1 = n ∧
        (codeUnits c).length = 2 ∧ dropUnits n text = '\uFFFD' :: back := by
  induction text generalizing n with
  | nil =>
    obtain rfl : n = 0 := Nat.le_zero.mp h
    exact .inl ⟨[], [], rfl, rfl, rfl⟩
  | cons c text ih =>
    cases n with
    | zero => exact .inl ⟨[], c :: text, rfl, rfl, rfl⟩
    | succ n =>
      rw [length_cons] at h
      rw [dropUnits]
      split
      next hle =>
        obtain ⟨front, back, rfl, hfront, hdrop⟩ | ⟨front, d, back, rfl, hfront, hd, hdrop⟩ :=
          ih (n := n + 1 - (codeUnits c).length) (by omega)
        · exact .inl ⟨c :: front, back, rfl, by rw [length_cons]; omega, hdrop⟩
        · exact .inr ⟨c :: front, d, back, rfl, by rw [length_cons]; omega, hd, hdrop⟩
      next hgt =>
        have hc := length_codeUnits c
        exact .inr ⟨[], c, text, rfl, by show 0 + 1 = n + 1; omega, by omega, rfl⟩

theorem dropUnits_append (front back : List Char) :
    dropUnits (length front) (front ++ back) = back := by
  induction front with
  | nil => exact dropUnits.eq_1 back
  | cons c front ih =>
    have hpos := List.length_pos_of_ne_nil (codeUnits_ne_nil c)
    rw [length_cons, List.cons_append]
    obtain ⟨n, hn⟩ : ∃ n, (codeUnits c).length + length front = n + 1 :=
      ⟨(codeUnits c).length + length front - 1, by omega⟩
    rw [hn, dropUnits, if_pos (by omega), ← hn, Nat.add_sub_cancel_left, ih]

theorem length_sliceEnd_le (keep : ℕ) (text : List Char) :
    (sliceEnd keep text).length ≤ text.length := by
  rw [sliceEnd]
  obtain ⟨front, back, htext, -, hback⟩ | ⟨front, c, back, htext, -, -, hback⟩ :=
    dropUnits_cases (Nat.sub_le (length text) keep)
  · rw [hback, htext, List.length_append]
    exact Nat.le_add_left _ _
  · rw [hback, htext, List.length_append, List.length_cons, List.length_cons]
    exact Nat.le_add_left _ _

theorem sliceEnd_append (hback : length back = keep) : sliceEnd keep (front ++ back) = back := by
  rw [sliceEnd, length_append, hback, Nat.add_sub_cancel, dropUnits_append]

theorem exists_of_sliceEnd_suffix (hkeep : keep ≤ length text) (h : sliceEnd keep text <:+ text) :
    ∃ front, text = front ++ sliceEnd keep text ∧ length (sliceEnd keep text) = keep := by
  obtain ⟨front, back, rfl, hfront, hback⟩ | ⟨front, c, back, rfl, hfront, hc, hback⟩ :=
    dropUnits_cases (Nat.sub_le (length text) keep)
  · rw [sliceEnd, hback]
    rw [length_append] at hfront hkeep
    exact ⟨front, rfl, by omega⟩
  · -- The half of a character is replaced, and the replacement has another number of code units.
    rw [sliceEnd, hback] at h
    obtain ⟨front', hfront'⟩ := h
    obtain ⟨-, hcons⟩ := List.append_inj' hfront' rfl
    obtain ⟨rfl, -⟩ := List.cons.inj hcons
    exact absurd hc (by decide)

end Text

namespace Terminal

open Text

/-! ## The log of a session -/

inductive MirrorWork where
  | start
  | append (data : List Char)
  deriving DecidableEq

inductive MirrorPhase where
  | idle
  /-- The text is appended; the size of the log is asked for next. -/
  | appended
  /-- The log is too long and is read next. -/
  | exceeded
  /-- The log was read; its end is written next. -/
  | read (raw : List Char)
  /-- An append has returned. -/
  | completed
  deriving DecidableEq

structure TerminalMirror where
  log : Option Bytes
  chain : List MirrorWork
  phase : MirrorPhase
  /-- The whole output of the session, up to the last text that was appended. -/
  output : List Char
  deriving DecidableEq

inductive MirrorEvent where
  | start
  | append (data : List Char)
  /-- The next operation of the chain. -/
  | next
  /-- The log is removed, as by the `prune` of another session. -/
  | removed
  deriving DecidableEq

namespace TerminalMirror

def initial : TerminalMirror := ⟨none, [], .idle, []⟩

variable (maxFileBytes : ℕ)

def keep : ℕ := max 1 (maxFileBytes / 2)

def begin (s : TerminalMirror) : TerminalMirror :=
  match s.chain with
  | [] => s
  | .start :: chain => { s with log := some (s.log.getD []), chain, phase := .idle }
  | .append data :: chain =>
    { log := some (s.log.getD [] ++ encode data), chain, phase := .appended,
      output := s.output ++ data }

/-- The next operation of `append`. Where the log is gone it fails, and the failure is ignored. -/
def next (s : TerminalMirror) : TerminalMirror :=
  match s.phase with
  | .idle | .completed => s.begin
  | .appended =>
    match s.log with
    | none => { s with phase := .idle }
    | some bytes =>
      if bytes.length ≤ maxFileBytes then { s with phase := .completed }
      else { s with phase := .exceeded }
  | .exceeded =>
    match s.log with
    | none => { s with phase := .idle }
    | some bytes => { s with phase := .read (decode bytes) }
  | .read raw =>
    { s with log := some (encode (sliceEnd (keep maxFileBytes) raw)), phase := .completed }

def step (s : TerminalMirror) : MirrorEvent → TerminalMirror
  | .start => { s with chain := s.chain ++ [.start] }
  | .append data => if data = [] then s else { s with chain := s.chain ++ [.append data] }
  | .next => s.next maxFileBytes
  | .removed => { s with log := none, phase := if s.phase = .completed then .idle else s.phase }

def run (events : List MirrorEvent) : TerminalMirror :=
  events.foldl (step maxFileBytes) initial

/-! ## The bound -/

/-- The log takes at most `maxFileBytes` bytes and is an end of the output once an append has
completed. -/
def Bounded (s : TerminalMirror) : Prop :=
  s.phase = .completed → ∃ text, s.log = some (encode text) ∧ (encode text).length ≤ maxFileBytes ∧
    text <:+ s.output

/-- The last code units of the text begin between two characters, and their characters do not take too
many more bytes than code units. -/
def CutFits (raw : List Char) : Prop :=
  ∃ front back, raw = front ++ back ∧ length back = keep maxFileBytes ∧
    keep maxFileBytes + (back.map extraBytes).sum ≤ maxFileBytes

def Fits (s : TerminalMirror) (e : MirrorEvent) : Prop :=
  e = .next → ∀ raw, s.phase = .read raw → CutFits maxFileBytes raw

variable {maxFileBytes : ℕ} {s : TerminalMirror}

/-- The log is an end of the output, and so is the text that was read from it; a text is read only
where the log is too long. -/
structure Inv (maxFileBytes : ℕ) (s : TerminalMirror) : Prop where
  log : ∀ bytes ∈ s.log, ∃ text, bytes = encode text ∧ text <:+ s.output
  exceeded : s.phase = .exceeded → ∀ bytes ∈ s.log, maxFileBytes < bytes.length
  read : ∀ raw, s.phase = .read raw → raw <:+ s.output ∧ maxFileBytes < (encode raw).length
  completed : Bounded maxFileBytes s

theorem inv_initial (maxFileBytes : ℕ) : Inv maxFileBytes initial :=
  ⟨nofun, nofun, nofun, nofun⟩

theorem Inv.begin (h : Inv maxFileBytes s) : Inv maxFileBytes s.begin := by
  unfold TerminalMirror.begin
  split
  next => exact h
  next chain hchain =>
    refine ⟨fun bytes hbytes => ?_, nofun, nofun, nofun⟩
    cases hlog : s.log with
    | none =>
      rw [hlog] at hbytes
      exact ⟨[], (Option.mem_some_iff.mp hbytes).symm, List.nil_suffix⟩
    | some bytes' =>
      rw [hlog] at hbytes
      exact h.log bytes (hlog ▸ hbytes)
  next data chain hchain =>
    refine ⟨fun bytes hbytes => ?_, nofun, nofun, nofun⟩
    obtain rfl := Option.mem_some_iff.mp hbytes
    cases hlog : s.log with
    | none => exact ⟨data, rfl, s.output, rfl⟩
    | some bytes =>
      obtain ⟨text, rfl, front, hfront⟩ := h.log bytes hlog
      refine ⟨text ++ data, (encode_append text data).symm, front, ?_⟩
      rw [← hfront, List.append_assoc]

theorem sliceEnd_bounded_iff {raw output : List Char} (hsuffix : raw <:+ output)
    (hlong : maxFileBytes < (encode raw).length) :
    (∃ text, encode (sliceEnd (keep maxFileBytes) raw) = encode text ∧
      (encode text).length ≤ maxFileBytes ∧ text <:+ output) ↔ CutFits maxFileBytes raw := by
  constructor
  · rintro ⟨text, htext, hle, hend⟩
    obtain rfl := encode_injective htext
    have hkeep : keep maxFileBytes ≤ length raw := by
      by_contra hshort
      rw [sliceEnd, Nat.sub_eq_zero_of_le (Nat.le_of_not_le hshort), dropUnits.eq_1] at hle
      exact absurd hle (Nat.not_le.mpr hlong)
    have hraw : sliceEnd (keep maxFileBytes) raw <:+ raw :=
      List.suffix_of_suffix_length_le hend hsuffix (length_sliceEnd_le _ raw)
    obtain ⟨front, hfront, hlength⟩ := exists_of_sliceEnd_suffix hkeep hraw
    rw [length_encode, hlength] at hle
    exact ⟨front, _, hfront, hlength, hle⟩
  · rintro ⟨front, back, rfl, hback, hle⟩
    refine ⟨back, by rw [sliceEnd_append hback], ?_, (List.suffix_append front back).trans hsuffix⟩
    rwa [length_encode, hback]

theorem Inv.step (h : Inv maxFileBytes s) (e : MirrorEvent)
    (hbounded : Bounded maxFileBytes (s.step maxFileBytes e)) :
    Inv maxFileBytes (s.step maxFileBytes e) := by
  cases e with
  | start => exact ⟨h.log, h.exceeded, h.read, h.completed⟩
  | append data =>
    rw [TerminalMirror.step]
    split
    · exact h
    · exact ⟨h.log, h.exceeded, h.read, h.completed⟩
  | removed =>
    refine ⟨nofun, fun _ => nofun, fun raw hraw => ?_, hbounded⟩
    dsimp only [TerminalMirror.step] at hraw ⊢
    split at hraw
    · exact absurd hraw nofun
    · exact h.read raw hraw
  | next =>
    rw [TerminalMirror.step] at hbounded ⊢
    rw [TerminalMirror.next] at hbounded ⊢
    cases hphase : s.phase with
    | idle => exact h.begin
    | completed => exact h.begin
    | appended =>
      have hkept := h.log
      cases hlog : s.log with
      | none => exact ⟨nofun, nofun, nofun, nofun⟩
      | some bytes =>
        rw [hphase, hlog] at hbounded
        rw [hlog] at hkept
        dsimp only at hbounded ⊢
        split
        next hle =>
          rw [if_pos hle] at hbounded
          exact ⟨hkept, nofun, nofun, hbounded⟩
        next hgt =>
          refine ⟨hkept, fun _ bytes' hbytes' => ?_, nofun, nofun⟩
          obtain rfl := Option.mem_some_iff.mp hbytes'
          exact Nat.lt_of_not_le hgt
    | exceeded =>
      have hkept := h.log
      cases hlog : s.log with
      | none => exact ⟨nofun, nofun, nofun, nofun⟩
      | some bytes =>
        rw [hlog] at hkept
        refine ⟨hkept, nofun, fun raw hraw => ?_, nofun⟩
        obtain rfl := MirrorPhase.read.inj hraw
        obtain ⟨text, rfl, hsuffix⟩ := h.log bytes hlog
        rw [decode_encode]
        exact ⟨hsuffix, h.exceeded hphase _ hlog⟩
    | read raw =>
      rw [hphase] at hbounded
      refine ⟨fun bytes hbytes => ?_, nofun, nofun, hbounded⟩
      obtain rfl := Option.mem_some_iff.mp hbytes
      obtain ⟨text, htext, -, hend⟩ := hbounded rfl
      exact ⟨text, Option.some.inj htext, hend⟩

theorem Inv.bounded_step_iff (h : Inv maxFileBytes s) (e : MirrorEvent) :
    Bounded maxFileBytes (s.step maxFileBytes e) ↔ Fits maxFileBytes s e := by
  cases e with
  | start => exact iff_of_true h.completed nofun
  | append data =>
    refine iff_of_true ?_ nofun
    rw [TerminalMirror.step]
    split
    · exact h.completed
    · exact h.completed
  | removed =>
    refine iff_of_true (fun hphase => ?_) nofun
    dsimp only [TerminalMirror.step] at hphase
    split at hphase
    next => exact absurd hphase nofun
    next hne => exact absurd hphase hne
  | next =>
    rw [TerminalMirror.step, TerminalMirror.next]
    cases hphase : s.phase with
    | idle => exact iff_of_true h.begin.completed fun _ raw hraw => absurd (hphase ▸ hraw) nofun
    | completed => exact iff_of_true h.begin.completed fun _ raw hraw => absurd (hphase ▸ hraw) nofun
    | appended =>
      refine iff_of_true ?_ fun _ raw hraw => absurd (hphase ▸ hraw) nofun
      cases hlog : s.log with
      | none => exact nofun
      | some bytes =>
        dsimp only
        split
        next hle =>
          obtain ⟨text, rfl, hsuffix⟩ := h.log bytes hlog
          exact fun _ => ⟨text, rfl, hle, hsuffix⟩
        next => exact nofun
    | exceeded =>
      refine iff_of_true ?_ fun _ raw hraw => absurd (hphase ▸ hraw) nofun
      cases s.log with
      | none => exact nofun
      | some bytes => exact nofun
    | read raw =>
      obtain ⟨hsuffix, hlong⟩ := h.read raw hphase
      have hiff := sliceEnd_bounded_iff hsuffix hlong
      constructor
      · rintro hbounded - raw' hraw'
        obtain rfl := MirrorPhase.read.inj (hphase ▸ hraw')
        obtain ⟨text, htext, hrest⟩ := hbounded rfl
        exact hiff.mp ⟨text, Option.some.inj htext, hrest⟩
      · intro hfits _
        obtain ⟨text, htext, hrest⟩ := hiff.mpr (hfits rfl raw hphase)
        exact ⟨text, congrArg some htext, hrest⟩

theorem run_concat (maxFileBytes : ℕ) (events : List MirrorEvent) (e : MirrorEvent) :
    run maxFileBytes (events ++ [e]) = (run maxFileBytes events).step maxFileBytes e :=
  List.foldl_concat ..

theorem Inv.run {events : List MirrorEvent}
    (h : ∀ past, past <+: events → Bounded maxFileBytes (run maxFileBytes past)) :
    Inv maxFileBytes (run maxFileBytes events) := by
  induction events using List.reverseRecOn with
  | nil => exact inv_initial maxFileBytes
  | append_singleton events e ih =>
    have hbounded := h _ List.prefix_rfl
    rw [run_concat] at hbounded ⊢
    exact (ih fun past hpast => h past (hpast.trans (List.prefix_append ..))).step e hbounded

end TerminalMirror

end Terminal
