import ChatgptSystem.Core.Utf8Boundary
import Mathlib.Algebra.GroupWithZero.Nat

/-!
# The output buffer of a terminal session

`TerminalOutputBuffer` (`terminal/terminal-output-buffer.ts`): the last output of a session, in
chunks that are numbered from one on, and at most a number of bytes of it.

* `utf8Tail` — the end of a text, cut between two characters;
* `append`, `read` — a new chunk, and the chunks behind a sequence number;
* `Holds` — what the chunks are of the texts that were appended;
* `Retains` — what a buffer is of the output, kept by every append;
* `givesBack_of_run` — what is read after any appends.
-/

namespace Terminal

open Text

structure TerminalOutputRead where
  data : List Char
  bytes : ℕ
  nextSequence : ℕ
  truncatedBefore : Bool
  deriving DecidableEq

structure TerminalOutputChunk where
  sequence : ℕ
  data : List Char
  bytes : ℕ
  prefixTruncated : Bool
  deriving DecidableEq

structure Utf8Tail where
  data : List Char
  bytes : ℕ
  truncated : Bool

/-- The end of the text that takes at most `maxBytes` bytes. -/
def utf8Tail (value : List Char) (maxBytes : ℕ) : Utf8Tail :=
  let encoded := encode value
  if encoded.length ≤ maxBytes then ⟨value, encoded.length, false⟩
  else
    let tail := (encoded.drop (encoded.length - maxBytes)).dropWhile isContinuation
    ⟨decode tail, tail.length, true⟩

structure TerminalOutputBuffer where
  maxBytes : ℕ
  positive : 0 < maxBytes
  chunks : List TerminalOutputChunk
  sequence : ℕ
  retainedBytes : ℕ

namespace TerminalOutputBuffer

/-- `new TerminalOutputBuffer(maxBytes)`. -/
def create (maxBytes : ℕ) : Except String TerminalOutputBuffer :=
  if h : 0 < maxBytes then .ok ⟨maxBytes, h, [], 0, 0⟩
  else .error "Terminal output byte limit must be a positive integer."

/-- The oldest chunks are removed while there are too many bytes, but for the last one. -/
def evict (maxBytes : ℕ) : List TerminalOutputChunk → ℕ → List TerminalOutputChunk × ℕ
  | removed :: next :: rest, retained =>
    if retained > maxBytes then evict maxBytes (next :: rest) (retained - removed.bytes)
    else (removed :: next :: rest, retained)
  | chunks, retained => (chunks, retained)

def append (buffer : TerminalOutputBuffer) (data : List Char) : TerminalOutputBuffer :=
  if data = [] then buffer
  else
    let sequence := buffer.sequence + 1
    let tail := utf8Tail data buffer.maxBytes
    -- Nothing in front of a text that was cut is kept.
    let chunks := if tail.truncated then [] else buffer.chunks
    let retainedBytes := if tail.truncated then 0 else buffer.retainedBytes
    let chunk := ⟨sequence, tail.data, tail.bytes, tail.truncated⟩
    let (chunks, retainedBytes) :=
      evict buffer.maxBytes (chunks ++ [chunk]) (retainedBytes + tail.bytes)
    { buffer with chunks, sequence, retainedBytes }

def read (buffer : TerminalOutputBuffer) (afterSequence : ℕ) : Except String TerminalOutputRead :=
  if afterSequence > buffer.sequence then
    .error "Terminal output sequence is ahead of the current stream."
  else
    match buffer.chunks.filter (afterSequence < ·.sequence) with
    | [] => .ok ⟨[], 0, buffer.sequence, false⟩
    | first :: rest =>
      let truncatedBefore := decide (afterSequence < first.sequence - 1) ||
        (first.prefixTruncated && decide (afterSequence < first.sequence))
      let data := (first :: rest).flatMap (·.data)
      .ok ⟨data, (encode data).length, buffer.sequence, truncatedBefore⟩

def appendAll (buffer : TerminalOutputBuffer) (texts : List (List Char)) : TerminalOutputBuffer :=
  texts.foldl append buffer

end TerminalOutputBuffer

/-! ## The end of a text -/

theorem utf8Tail_spec (value : List Char) (maxBytes : ℕ) :
    (utf8Tail value maxBytes).bytes = (encode (utf8Tail value maxBytes).data).length ∧
      (utf8Tail value maxBytes).bytes ≤ maxBytes ∧ (utf8Tail value maxBytes).data <:+ value ∧
      ((utf8Tail value maxBytes).truncated = false → (utf8Tail value maxBytes).data = value) := by
  unfold utf8Tail
  dsimp only
  split
  next h => exact ⟨rfl, h, List.suffix_rfl, fun _ => rfl⟩
  next h =>
    obtain ⟨continued, front, back, hvalue, hdrop, hcontinued, -⟩ :=
      exists_of_drop (List.take_append_drop ((encode value).length - maxBytes) (encode value)).symm
    have htail : ((encode value).drop ((encode value).length - maxBytes)).dropWhile isContinuation =
        encode back := by rw [hdrop, dropWhile_encode hcontinued]
    dsimp only
    rw [htail, decode_encode]
    refine ⟨rfl, ?_, ⟨front, hvalue.symm⟩, nofun⟩
    have hlength := congrArg List.length hdrop
    rw [List.length_drop, List.length_append] at hlength
    omega

namespace TerminalOutputBuffer

variable {maxBytes k s : ℕ} {chunks : List TerminalOutputChunk} {texts : List (List Char)}

/-! ## What the chunks hold -/

structure IsChunk (sequence : ℕ) (text : List Char) (chunk : TerminalOutputChunk) : Prop where
  sequence_eq : chunk.sequence = sequence
  bytes_eq : chunk.bytes = (encode chunk.data).length
  suffix : chunk.data <:+ text
  exact : chunk.prefixTruncated = false → chunk.data = text

/-- The chunks are the texts behind the number `k`, each in its place. -/
def Holds : ℕ → List TerminalOutputChunk → List (List Char) → Prop
  | _, [], [] => True
  | k, chunk :: chunks, text :: texts => IsChunk (k + 1) text chunk ∧ Holds (k + 1) chunks texts
  | _, _, _ => False

def Whole (chunks : List TerminalOutputChunk) : Prop :=
  ∀ chunk ∈ chunks.tail, chunk.prefixTruncated = false

section

variable (h : Holds k chunks texts)

include h

theorem Holds.length_eq : chunks.length = texts.length := by
  induction chunks generalizing k texts with
  | nil =>
    cases texts with
    | nil => rfl
    | cons text texts => exact absurd h id
  | cons chunk chunks ih =>
    cases texts with
    | nil => exact absurd h id
    | cons text texts => rw [List.length_cons, List.length_cons, ih h.2]

theorem Holds.concat {chunk : TerminalOutputChunk} {text : List Char}
    (hchunk : IsChunk (k + texts.length + 1) text chunk) :
    Holds k (chunks ++ [chunk]) (texts ++ [text]) := by
  induction chunks generalizing k texts with
  | nil =>
    cases texts with
    | nil => exact ⟨hchunk, trivial⟩
    | cons text texts => exact absurd h id
  | cons first chunks ih =>
    cases texts with
    | nil => exact absurd h id
    | cons text' texts =>
      refine ⟨h.1, ih h.2 ?_⟩
      rwa [List.length_cons, show k + (texts.length + 1) = k + 1 + texts.length by omega] at hchunk

theorem Holds.drop (n : ℕ) (hn : n ≤ chunks.length) :
    Holds (k + n) (chunks.drop n) (texts.drop n) := by
  induction n generalizing k chunks texts with
  | zero => exact h
  | succ n ih =>
    cases chunks with
    | nil => exact absurd hn (by simp)
    | cons chunk chunks =>
      cases texts with
      | nil => exact absurd h id
      | cons text texts =>
        rw [List.drop_succ_cons, List.drop_succ_cons, Nat.add_comm n, ← Nat.add_assoc]
        exact ih h.2 (Nat.le_of_succ_le_succ hn)

theorem Holds.filter : chunks.filter (fun chunk => s < chunk.sequence) = chunks.drop (s - k) := by
  induction chunks generalizing k texts with
  | nil => rw [List.drop_nil]; rfl
  | cons chunk chunks ih =>
    cases texts with
    | nil => exact absurd h id
    | cons text texts =>
      rw [List.filter_cons, h.1.sequence_eq, ih h.2]
      by_cases hs : s < k + 1
      · rw [if_pos (decide_eq_true hs), show s - k = 0 by omega, show s - (k + 1) = 0 by omega]
        rfl
      · rw [if_neg (by simpa using hs), show s - k = s - (k + 1) + 1 by omega, List.drop_succ_cons]

theorem Holds.flatMap_eq (hwhole : ∀ chunk ∈ chunks, chunk.prefixTruncated = false) :
    chunks.flatMap (·.data) = texts.flatten := by
  induction chunks generalizing k texts with
  | nil =>
    cases texts with
    | nil => rfl
    | cons text texts => exact absurd h id
  | cons chunk chunks ih =>
    cases texts with
    | nil => exact absurd h id
    | cons text texts =>
      rw [List.flatMap_cons, List.flatten_cons, h.1.exact (hwhole chunk List.mem_cons_self),
        ih h.2 fun chunk hchunk => hwhole chunk (List.mem_cons_of_mem _ hchunk)]

theorem Holds.flatMap_suffix (hwhole : Whole chunks) :
    chunks.flatMap (·.data) <:+ texts.flatten := by
  cases chunks with
  | nil => exact List.nil_suffix
  | cons chunk chunks =>
    cases texts with
    | nil => exact absurd h id
    | cons text texts =>
      rw [List.flatMap_cons, List.flatten_cons, h.2.flatMap_eq hwhole]
      obtain ⟨front, hfront⟩ := h.1.suffix
      exact ⟨front, by rw [← List.append_assoc, hfront]⟩

end

def bytesOf (chunks : List TerminalOutputChunk) : ℕ := (chunks.map (·.bytes)).sum

/-- What a buffer is of the texts that were appended: `dropped` are those of which nothing is left. -/
structure Retains (buffer : TerminalOutputBuffer) (dropped kept : List (List Char)) : Prop where
  holds : Holds dropped.length buffer.chunks kept
  whole : Whole buffer.chunks
  sequence_eq : buffer.sequence = dropped.length + kept.length
  /-- The last text is not dropped as a whole. -/
  last : kept = [] → dropped = []
  retained_eq : buffer.retainedBytes = bytesOf buffer.chunks
  retained_le : buffer.retainedBytes ≤ buffer.maxBytes

/-! ## A step -/

theorem evict_spec (retained : ℕ) (hretained : retained = bytesOf chunks)
    (hlast : ∀ chunk ∈ chunks.getLast?, chunk.bytes ≤ maxBytes) :
    ∃ n, (evict maxBytes chunks retained).1 = chunks.drop n ∧ n ≤ chunks.length ∧
      (chunks ≠ [] → n < chunks.length) ∧
      (evict maxBytes chunks retained).2 = bytesOf (chunks.drop n) ∧
      (evict maxBytes chunks retained).2 ≤ maxBytes := by
  induction chunks generalizing retained with
  | nil => exact ⟨0, rfl, le_rfl, absurd rfl, hretained, hretained.trans_le (Nat.zero_le _)⟩
  | cons removed chunks ih =>
    cases chunks with
    | nil =>
      have hbytes := hlast removed rfl
      refine ⟨0, rfl, Nat.zero_le _, fun _ => Nat.one_pos, hretained, ?_⟩
      rw [bytesOf, List.map_singleton, List.sum_singleton] at hretained
      exact hretained.trans_le hbytes
    | cons next rest =>
      rw [evict]
      split
      · rw [bytesOf, List.map_cons, List.sum_cons] at hretained
        obtain ⟨n, hchunks, hn, hn', hbytes, hle⟩ := ih (retained - removed.bytes)
          (by rw [hretained, Nat.add_sub_cancel_left]; rfl)
          (fun chunk hchunk => hlast chunk (by rwa [List.getLast?_cons_cons]))
        exact ⟨n + 1, hchunks, Nat.succ_le_succ hn, fun _ => Nat.succ_lt_succ (hn' nofun), hbytes, hle⟩
      next h =>
        exact ⟨0, rfl, Nat.zero_le _, fun _ => Nat.succ_pos _, hretained, Nat.le_of_not_gt h⟩

variable {buffer : TerminalOutputBuffer} {dropped kept : List (List Char)}

theorem retains_evict {sequence retained : ℕ} (positive : 0 < maxBytes)
    (dropped : List (List Char)) {kept : List (List Char)}
    (hholds : Holds dropped.length chunks kept) (hwhole : Whole chunks)
    (hsequence : sequence = dropped.length + kept.length) (hkept : kept ≠ [])
    (hretained : retained = bytesOf chunks)
    (hlast : ∀ chunk ∈ chunks.getLast?, chunk.bytes ≤ maxBytes) :
    ∃ dropped' kept', dropped ++ kept = dropped' ++ kept' ∧
      Retains ⟨maxBytes, positive, (evict maxBytes chunks retained).1, sequence,
        (evict maxBytes chunks retained).2⟩ dropped' kept' := by
  obtain ⟨n, hchunks, hn, hn', hbytes, hle⟩ := evict_spec retained hretained hlast
  have hlength := hholds.length_eq
  have hne : chunks ≠ [] := by
    rintro rfl
    exact hkept (List.eq_nil_of_length_eq_zero hlength.symm)
  have hn'' := hn' hne
  have hkeptLength : (kept.drop n).length = kept.length - n := List.length_drop
  have hdropped : (dropped ++ kept.take n).length = dropped.length + n := by
    rw [List.length_append, List.length_take_of_le (by omega)]
  refine ⟨dropped ++ kept.take n, kept.drop n, ?_, ?_⟩
  · rw [List.append_assoc, List.take_append_drop]
  · refine ⟨?_, ?_, ?_, fun h => ?_, ?_, hle⟩
    · rw [hdropped, hchunks]
      exact hholds.drop n hn
    · intro chunk hchunk
      rw [hchunks, List.tail_drop, Nat.add_comm, ← List.drop_drop, List.drop_one] at hchunk
      exact hwhole chunk (List.mem_of_mem_drop hchunk)
    · rw [hdropped, hkeptLength]
      exact hsequence.trans (by omega)
    · have hzero := congrArg List.length h
      rw [hkeptLength, List.length_nil] at hzero
      omega
    · rw [hchunks]
      exact hbytes

theorem Retains.append {data : List Char} (h : Retains buffer dropped kept) (hdata : data ≠ []) :
    ∃ dropped' kept', dropped ++ kept ++ [data] = dropped' ++ kept' ∧
      Retains (buffer.append data) dropped' kept' := by
  obtain ⟨hbytes, hle, hsuffix, hexact⟩ := utf8Tail_spec data buffer.maxBytes
  rw [TerminalOutputBuffer.append, if_neg hdata]
  dsimp only
  have hlast (chunks : List TerminalOutputChunk) : ∀ chunk ∈ (chunks ++ [(⟨buffer.sequence + 1,
      (utf8Tail data buffer.maxBytes).data, (utf8Tail data buffer.maxBytes).bytes,
      (utf8Tail data buffer.maxBytes).truncated⟩ : TerminalOutputChunk)]).getLast?,
      chunk.bytes ≤ buffer.maxBytes := by
    intro chunk hchunk
    rw [List.getLast?_concat, Option.mem_some_iff] at hchunk
    exact hchunk ▸ hle
  cases htruncated : (utf8Tail data buffer.maxBytes).truncated with
  | true =>
    -- The chunk is the only one.
    have hchunk : IsChunk ((dropped ++ kept).length + 1) data ⟨buffer.sequence + 1,
        (utf8Tail data buffer.maxBytes).data, (utf8Tail data buffer.maxBytes).bytes, true⟩ :=
      ⟨by rw [h.sequence_eq, List.length_append], hbytes, hsuffix, nofun⟩
    have hlast' := hlast []
    rw [htruncated] at hlast'
    exact retains_evict buffer.positive (dropped ++ kept) ⟨hchunk, trivial⟩ nofun
      (by rw [h.sequence_eq, List.length_append]; rfl) (List.cons_ne_nil data [])
      (by rw [bytesOf]; simp) hlast'
  | false =>
    have hchunk : IsChunk (dropped.length + kept.length + 1) data ⟨buffer.sequence + 1,
        (utf8Tail data buffer.maxBytes).data, (utf8Tail data buffer.maxBytes).bytes, false⟩ :=
      ⟨by rw [h.sequence_eq], hbytes, hsuffix, fun _ => hexact htruncated⟩
    have hlast' := hlast buffer.chunks
    rw [htruncated] at hlast'
    have hwhole : Whole (buffer.chunks ++ [⟨buffer.sequence + 1,
        (utf8Tail data buffer.maxBytes).data, (utf8Tail data buffer.maxBytes).bytes, false⟩]) := by
      intro chunk hmem
      cases hchunks : buffer.chunks with
      | nil => exact absurd (hchunks ▸ hmem) List.not_mem_nil
      | cons first rest =>
        rw [hchunks, List.cons_append, List.tail_cons, List.mem_append, List.mem_singleton] at hmem
        obtain hmem | rfl := hmem
        · exact h.whole chunk (by rwa [hchunks])
        · rfl
    have hsequence : buffer.sequence + 1 = dropped.length + (kept ++ [data]).length := by
      rw [List.length_append, List.length_singleton, ← Nat.add_assoc, h.sequence_eq]
    have hretained : buffer.retainedBytes + (utf8Tail data buffer.maxBytes).bytes =
        bytesOf (buffer.chunks ++ [⟨buffer.sequence + 1, (utf8Tail data buffer.maxBytes).data,
          (utf8Tail data buffer.maxBytes).bytes, false⟩]) := by
      rw [bytesOf, List.map_append, List.sum_append, ← bytesOf, h.retained_eq]
      rfl
    obtain ⟨dropped', kept', heq, hretains⟩ := retains_evict buffer.positive dropped
      (h.holds.concat hchunk) hwhole hsequence
      (List.append_ne_nil_of_right_ne_nil kept (List.cons_ne_nil data [])) hretained hlast'
    exact ⟨dropped', kept', by rw [List.append_assoc, heq], hretains⟩

/-! ## A run -/

def numbered (texts : List (List Char)) : List (List Char) := texts.filter (· ≠ [])

theorem retains_create (positive : 0 < maxBytes) : Retains ⟨maxBytes, positive, [], 0, 0⟩ [] [] :=
  ⟨trivial, nofun, rfl, fun _ => rfl, rfl, Nat.zero_le _⟩

theorem Retains.appendAll (h : Retains buffer dropped kept) (texts : List (List Char)) :
    ∃ dropped' kept', dropped ++ kept ++ numbered texts = dropped' ++ kept' ∧
      Retains (buffer.appendAll texts) dropped' kept' := by
  induction texts generalizing buffer dropped kept with
  | nil => exact ⟨dropped, kept, List.append_nil _, h⟩
  | cons data texts ih =>
    by_cases hdata : data = []
    · obtain ⟨dropped', kept', heq, hretains⟩ := ih h
      refine ⟨dropped', kept', ?_, ?_⟩
      · rwa [numbered, List.filter_cons_of_neg (by simpa using hdata)]
      · rwa [TerminalOutputBuffer.appendAll, List.foldl_cons, TerminalOutputBuffer.append, if_pos hdata]
    · obtain ⟨dropped₁, kept₁, heq₁, hretains₁⟩ := h.append hdata
      obtain ⟨dropped', kept', heq, hretains⟩ := ih hretains₁
      refine ⟨dropped', kept', ?_, hretains⟩
      rw [← heq, ← heq₁, numbered, List.filter_cons_of_pos (by simpa using hdata), List.append_assoc _ [data]]
      rfl

theorem Retains.read (h : Retains buffer dropped kept) (hs : s ≤ buffer.sequence) :
    ∃ result, buffer.read s = .ok result ∧ result.nextSequence = buffer.sequence ∧
      result.bytes = (encode result.data).length ∧
      (result.truncatedBefore = true ∧ result.data <:+ ((dropped ++ kept).drop s).flatten ∨
        result.truncatedBefore = false ∧ result.data = ((dropped ++ kept).drop s).flatten) := by
  have hlength := h.holds.length_eq
  have hsequence := h.sequence_eq
  rw [TerminalOutputBuffer.read, if_neg (Nat.not_lt_of_le hs), h.holds.filter]
  by_cases hdropped : s < dropped.length
  · -- A text behind the number has been dropped.
    rw [Nat.sub_eq_zero_of_le hdropped.le, List.drop_zero]
    have hkept : kept ≠ [] := fun hkept => by
      rw [h.last hkept] at hdropped
      exact absurd hdropped (Nat.not_lt_zero s)
    have hdrop : ((dropped ++ kept).drop s).flatten = (dropped.drop s).flatten ++ kept.flatten := by
      rw [List.drop_append_of_le_length hdropped.le, List.flatten_append]
    have hdata := (h.holds.flatMap_suffix h.whole).trans (List.suffix_append (dropped.drop s).flatten _)
    rw [← hdrop] at hdata
    cases hchunks : buffer.chunks with
    | nil =>
      rw [hchunks] at hlength
      exact absurd (List.eq_nil_of_length_eq_zero hlength.symm) hkept
    | cons first rest =>
      obtain ⟨text, kept, rfl⟩ := List.exists_cons_of_ne_nil hkept
      have hholds := h.holds
      rw [hchunks] at hholds hdata
      refine ⟨_, rfl, rfl, rfl, .inl ⟨?_, hdata⟩⟩
      rw [Bool.or_eq_true, decide_eq_true_eq, hholds.1.sequence_eq]
      exact .inl hdropped
  · have hdrop : (dropped ++ kept).drop s = kept.drop (s - dropped.length) := by
      rw [List.drop_append, List.drop_eq_nil_of_le (by omega), List.nil_append]
    have hholds := h.holds.drop (s - dropped.length) (by omega)
    have hwhole : Whole (buffer.chunks.drop (s - dropped.length)) := by
      intro chunk hchunk
      rw [List.tail_drop, Nat.add_comm, ← List.drop_drop, List.drop_one] at hchunk
      exact h.whole chunk (List.mem_of_mem_drop hchunk)
    rw [hdrop]
    cases hchunks : buffer.chunks.drop (s - dropped.length) with
    | nil =>
      have hnil := hholds.length_eq
      rw [hchunks] at hnil
      rw [List.eq_nil_of_length_eq_zero hnil.symm]
      exact ⟨_, rfl, rfl, rfl, .inr ⟨rfl, rfl⟩⟩
    | cons first rest =>
      rw [hchunks] at hholds hwhole
      have hsuffix := hholds.flatMap_suffix hwhole
      refine ⟨_, rfl, rfl, rfl, ?_⟩
      -- The first chunk is that of the next number, so only a cut in it loses output.
      have hfirst : first.sequence = s + 1 := by
        cases hkept : kept.drop (s - dropped.length) with
        | nil =>
          rw [hkept] at hholds
          exact absurd hholds id
        | cons text kept =>
          rw [hkept] at hholds
          rw [hholds.1.sequence_eq]
          omega
      have hearlier : decide (s < first.sequence - 1) = false := by
        rw [hfirst, Nat.add_sub_cancel]
        exact decide_eq_false (lt_irrefl s)
      have hlater : decide (s < first.sequence) = true := by
        rw [hfirst]
        exact decide_eq_true s.lt_succ_self
      rw [hearlier, hlater, Bool.false_or, Bool.and_true]
      cases htruncated : first.prefixTruncated with
      | true => exact .inl ⟨rfl, hsuffix⟩
      | false =>
        refine .inr ⟨rfl, hholds.flatMap_eq fun chunk hchunk => ?_⟩
        obtain rfl | hchunk := List.mem_cons.mp hchunk
        · exact htruncated
        · exact hwhole chunk hchunk

theorem Holds.bytesOf_eq (h : Holds k chunks texts) :
    bytesOf chunks = (chunks.map fun chunk => (encode chunk.data).length).sum := by
  induction chunks generalizing k texts with
  | nil => rfl
  | cons chunk chunks ih =>
    cases texts with
    | nil => exact absurd h id
    | cons text texts =>
      rw [bytesOf, List.map_cons, List.sum_cons, ← bytesOf, ih h.2, h.1.bytes_eq]
      rfl

theorem maxBytes_appendAll (buffer : TerminalOutputBuffer) (texts : List (List Char)) :
    (buffer.appendAll texts).maxBytes = buffer.maxBytes := by
  induction texts generalizing buffer with
  | nil => rfl
  | cons data texts ih =>
    refine (ih _).trans ?_
    rw [TerminalOutputBuffer.append]
    split <;> rfl

/-- The buffer gives back the output: a read returns the texts behind a sequence number, or the end of
them if it says so. -/
structure GivesBack (buffer : TerminalOutputBuffer) (maxBytes : ℕ) (texts : List (List Char)) :
    Prop where
  sequence_eq : buffer.sequence = texts.length
  retained_eq : buffer.retainedBytes =
    (buffer.chunks.map fun chunk => (encode chunk.data).length).sum
  retained_le : buffer.retainedBytes ≤ maxBytes
  read : ∀ s ≤ buffer.sequence, ∃ result, buffer.read s = .ok result ∧
    result.nextSequence = buffer.sequence ∧ result.bytes = (encode result.data).length ∧
    (result.truncatedBefore = true ∧ result.data <:+ (texts.drop s).flatten ∨
      result.truncatedBefore = false ∧ result.data = (texts.drop s).flatten)

/-- A buffer gives back the output after any appends. -/
theorem givesBack_of_run {buffer : TerminalOutputBuffer} {maxBytes : ℕ}
    (hcreate : create maxBytes = .ok buffer) (texts : List (List Char)) :
    GivesBack (buffer.appendAll texts) maxBytes (numbered texts) := by
  obtain ⟨hpositive, rfl⟩ : ∃ h, ⟨maxBytes, h, [], 0, 0⟩ = buffer := by
    rw [create] at hcreate
    split at hcreate
    next h => exact ⟨h, Except.ok.inj hcreate⟩
    next => exact absurd hcreate nofun
  obtain ⟨dropped, kept, heq, h⟩ := (retains_create hpositive).appendAll texts
  rw [List.append_nil, List.nil_append] at heq
  refine ⟨?_, ?_, ?_, fun s hs => ?_⟩
  · rw [h.sequence_eq, heq, List.length_append]
  · rw [h.retained_eq, h.holds.bytesOf_eq]
  · have hle := h.retained_le
    rwa [maxBytes_appendAll] at hle
  · rw [heq]
    exact h.read hs

theorem givesBack_of_run_example :
    GivesBack (appendAll ⟨5, by decide, [], 0, 0⟩ ["ab".toList, [], "cé€".toList]) 5
      ["ab".toList, "cé€".toList] :=
  givesBack_of_run rfl ["ab".toList, [], "cé€".toList]

end TerminalOutputBuffer

end Terminal
