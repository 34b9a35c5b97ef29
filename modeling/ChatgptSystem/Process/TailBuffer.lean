import ChatgptSystem.Core.Utf8Boundary

/-!
# The output of a process in memory

`TailBuffer` (`process/process-supervisor.ts`): the last bytes of a stream, read by a cursor that
counts the bytes of the whole stream.

* `append`, `snapshot` — a chunk of the stream, and what a read returns;
* `Polling` — a stream and a client who passes the cursor of each read to the next one;
* `pages_iff` — when the reads page through the stream.
-/

namespace Process

open Text

structure TailBuffer where
  maxBytes : ℕ
  value : Bytes
  wasTruncated : Bool
  totalBytes : ℕ
  deriving DecidableEq

structure Snapshot where
  content : List Char
  bytes : ℕ
  truncated : Bool
  nextCursor : Option ℕ
  deriving DecidableEq

namespace TailBuffer

/-- `new TailBuffer(maxBytes)`. -/
def create (maxBytes : ℕ) : TailBuffer := ⟨maxBytes, [], false, 0⟩

def append (buffer : TailBuffer) (chunk : Bytes) : TailBuffer :=
  if chunk.length = 0 then buffer
  else
    let totalBytes := buffer.totalBytes + chunk.length
    let combined := buffer.value ++ chunk
    if combined.length ≤ buffer.maxBytes then { buffer with totalBytes, value := combined }
    else
      { buffer with
        totalBytes
        wasTruncated := true
        value := combined.drop (combined.length - buffer.maxBytes) }

def snapshot (buffer : TailBuffer) : Option ℕ → Snapshot
  | none =>
    let span := completeUtf8Span buffer.value
    let content := (buffer.value.take span.2).drop span.1
    ⟨decode content, content.length, buffer.wasTruncated, none⟩
  | some cursor =>
    let firstAvailable := buffer.totalBytes - buffer.value.length
    let start := max cursor firstAvailable
    let offset := start - firstAvailable
    let available := buffer.value.drop offset
    let span := completeUtf8Span available
    let content := (available.take span.2).drop span.1
    ⟨decode content, content.length, decide (cursor < firstAvailable) || buffer.wasTruncated,
      some (buffer.totalBytes - (available.length - span.2))⟩

/-! ## What is kept of a stream -/

def dropped (buffer : TailBuffer) (stream : Bytes) : ℕ := stream.length - buffer.value.length

structure Holds (buffer : TailBuffer) (stream : Bytes) : Prop where
  value_eq : buffer.value = stream.drop (stream.length - buffer.maxBytes)
  total_eq : buffer.totalBytes = stream.length
  truncated_eq : buffer.wasTruncated = decide (buffer.maxBytes < stream.length)

variable {buffer : TailBuffer} {stream chunk : Bytes}

theorem holds_create (maxBytes : ℕ) : Holds (create maxBytes) [] :=
  ⟨List.drop_nil.symm, rfl, (decide_eq_false (Nat.not_lt_zero _)).symm⟩

theorem maxBytes_append (buffer : TailBuffer) (chunk : Bytes) :
    (buffer.append chunk).maxBytes = buffer.maxBytes := by
  rw [append]
  split
  · rfl
  · dsimp only
    split <;> rfl

theorem Holds.append (h : Holds buffer stream) (chunk : Bytes) :
    Holds (buffer.append chunk) (stream ++ chunk) := by
  have hvalue : buffer.value.length = min stream.length buffer.maxBytes := by
    rw [h.value_eq, List.length_drop]
    omega
  rw [TailBuffer.append]
  split
  next hchunk =>
    rw [List.eq_nil_of_length_eq_zero hchunk, List.append_nil]
    exact h
  next hchunk =>
    dsimp only
    split
    next hle =>
      rw [List.length_append] at hle
      have hfits : (stream ++ chunk).length ≤ buffer.maxBytes := by
        rw [List.length_append]
        omega
      have hwhole : stream.length ≤ buffer.maxBytes :=
        (Nat.le_add_right _ _).trans (List.length_append ▸ hfits)
      refine ⟨?_, by rw [h.total_eq, List.length_append], ?_⟩
      · dsimp only
        rw [h.value_eq, Nat.sub_eq_zero_of_le hwhole, Nat.sub_eq_zero_of_le hfits]
        rfl
      · dsimp only
        rw [h.truncated_eq, decide_eq_false (Nat.not_lt.mpr hwhole),
          decide_eq_false (Nat.not_lt.mpr hfits)]
    next hgt =>
      rw [List.length_append] at hgt
      refine ⟨?_, ?_, ?_⟩
      · have hcombined : buffer.value ++ chunk =
            (stream ++ chunk).drop (stream.length - buffer.maxBytes) := by
          rw [List.drop_append_of_le_length (Nat.sub_le _ _), ← h.value_eq]
        dsimp only
        rw [hcombined, List.drop_drop, List.length_drop, List.length_append]
        congr 1
        omega
      · dsimp only
        rw [h.total_eq, List.length_append]
      · refine (decide_eq_true ?_).symm
        dsimp only
        rw [List.length_append]
        omega

theorem Holds.dropped_eq (h : Holds buffer stream) :
    buffer.dropped stream = stream.length - buffer.maxBytes := by
  rw [dropped, h.value_eq, List.length_drop]
  omega

/-! ## A read -/

/-- A read from the position `p` on returns the characters of the text that are whole there. -/
structure Reads (text : List Char) (stream : Bytes) (p : ℕ) (result : Snapshot) (next : ℕ) : Prop where
  next_eq : result.nextCursor = some next
  inOrder : p + result.bytes ≤ next
  next_le : next ≤ stream.length
  bytes_eq : result.bytes = (encode result.content).length
  /-- The content stands in the text, right before the next cursor. -/
  whole : result.content ≠ [] → ∃ before rest, text = before ++ result.content ++ rest ∧
    (encode before).length + result.bytes = next
  complete : ∀ k c, BeginsAt text k c → p ≤ k → k + (String.utf8EncodeChar c).length ≤ stream.length →
    next ≤ k + result.bytes ∧ k + (String.utf8EncodeChar c).length ≤ next
  /-- A character that is not whole yet is left to the next read. -/
  later : ∀ k c, BeginsAt text k c → p ≤ k → stream.length < k + (String.utf8EncodeChar c).length →
    next ≤ k

theorem Holds.snapshot_eq (h : Holds buffer stream) (cursor : ℕ) {continued begun : Bytes}
    (content : List Char) (hcontinued : Continued continued) (hbegun : Begun begun)
    (havailable : stream.drop (max cursor (buffer.dropped stream)) =
      continued ++ encode content ++ begun) :
    buffer.snapshot (some cursor) = ⟨content, (encode content).length,
      decide (cursor < buffer.dropped stream) || decide (buffer.maxBytes < stream.length),
      some (stream.length - begun.length)⟩ := by
  have hoffset : buffer.value.drop (max cursor (buffer.dropped stream) - buffer.dropped stream) =
      continued ++ encode content ++ begun := by
    rw [← havailable, h.value_eq, List.drop_drop, h.dropped_eq]
    congr 1
    omega
  obtain ⟨hcontent, hrest⟩ := completeUtf8Span_content hcontinued hbegun rfl
  unfold snapshot
  dsimp only
  rw [h.total_eq, ← dropped, hoffset, hcontent, hrest, decode_encode, h.truncated_eq]

theorem Holds.truncated_iff (h : Holds buffer stream) (cursor : ℕ) :
    (buffer.snapshot (some cursor)).truncated = true ↔
      cursor < buffer.dropped stream ∨ buffer.maxBytes < stream.length := by
  unfold snapshot
  dsimp only
  rw [h.total_eq, h.truncated_eq, ← dropped, Bool.or_eq_true, decide_eq_true_iff, decide_eq_true_iff]

variable {text : List Char} {cursor : ℕ}

theorem Holds.reads (h : Holds buffer stream) (hstream : stream <+: encode text)
    (hcursor : cursor ≤ stream.length) :
    ∃ next, Reads text stream (max cursor (buffer.dropped stream)) (buffer.snapshot (some cursor))
      next := by
  have hp : max cursor (buffer.dropped stream) ≤ stream.length := max_le hcursor (Nat.sub_le _ _)
  have hsnapshot {continued begun : Bytes} {content : List Char} (hcontinued : Continued continued)
    (hbegun : Begun begun) (havailable) :=
    h.snapshot_eq cursor content hcontinued hbegun havailable
  generalize max cursor (buffer.dropped stream) = p at hp hsnapshot ⊢
  obtain ⟨z, hz⟩ := hstream
  obtain ⟨front, begun, back, rfl, rfl, hbegun, hback⟩ := exists_of_take hz.symm
  rw [List.length_append] at hp
  by_cases hle : p ≤ (encode front).length
  · -- The read begins before the end of the last whole character.
    obtain ⟨continued, skipped, content, rfl, hdrop, hcontinued, hlength, hskipped⟩ :=
      exists_of_drop_le begun hle
    rw [hsnapshot hcontinued hbegun hdrop]
    have hend : (encode (skipped ++ content) ++ begun).length - begun.length =
        (encode skipped).length + (encode content).length := by
      rw [List.length_append, Nat.add_sub_cancel, encode_append, List.length_append]
    rw [hend]
    refine ⟨_, rfl, by dsimp only; omega, ?_, rfl, fun _ => ⟨skipped, back, rfl, rfl⟩, ?_, ?_⟩
    · rw [encode_append, List.length_append, List.length_append]
      omega
    · intro k c hk hpk hwhole
      have hlow : (encode skipped).length ≤ k := by
        rw [List.append_assoc] at hk
        obtain ⟨hk, -⟩ | ⟨j, rfl, -⟩ := hk.append
        · exact absurd hpk (Nat.not_le.mpr (hskipped k c hk))
        · exact Nat.le_add_right _ _
      rw [List.length_append] at hwhole
      obtain ⟨-, hk⟩ | ⟨j, rfl, hj⟩ := hk.append
      · rw [encode_append, List.length_append] at hk
        exact ⟨Nat.add_le_add_right hlow _, hk⟩
      · have hlong := (hj.begun hbegun hback).1
        omega
    · intro k c hk hpk hpart
      rw [List.length_append] at hpart
      rw [← List.length_append, ← encode_append]
      obtain ⟨-, hk⟩ | ⟨j, rfl, -⟩ := hk.append
      · omega
      · exact Nat.le_add_right _ _
  · -- Only a part of a character that is not whole yet is available.
    have hcontinued := continued_of_drop hbegun (Nat.lt_of_not_le hle)
    have hdrop : (encode front ++ begun).drop p =
        (encode front ++ begun).drop p ++ encode [] ++ [] := by
      rw [List.append_nil]
      exact (List.append_nil _).symm
    rw [hsnapshot hcontinued begun_nil hdrop]
    refine ⟨_, rfl, ?_, Nat.sub_le _ _, rfl, absurd rfl, ?_, ?_⟩
    · rw [List.length_append]
      exact hp
    · intro k c hk hpk hwhole
      rw [List.length_append] at hwhole
      obtain ⟨-, hk⟩ | ⟨j, rfl, hj⟩ := hk.append
      · omega
      · have hlong := (hj.begun hbegun hback).1
        omega
    · intro k c hk hpk hpart
      rw [List.length_append] at hpart ⊢
      obtain ⟨-, hk⟩ | ⟨j, rfl, hj⟩ := hk.append
      · omega
      · obtain rfl | hlong := (hj.begun hbegun hback).2
        · omega
        · rw [List.length_nil]
          omega

end TailBuffer

/-! ## Paging through a stream -/

inductive PollEvent where
  | append (chunk : Bytes)
  | read
  deriving DecidableEq

/-- A stream and its reads, each with the cursor that the one before it returned. -/
structure Polling where
  buffer : TailBuffer
  /-- All that was appended. -/
  stream : Bytes
  cursor : ℕ
  reads : List Snapshot
  deriving DecidableEq

namespace Polling

def initial (maxBytes : ℕ) : Polling := ⟨.create maxBytes, [], 0, []⟩

def page (s : Polling) : Snapshot := s.buffer.snapshot (some s.cursor)

def step (s : Polling) : PollEvent → Polling
  | .append chunk => { s with buffer := s.buffer.append chunk, stream := s.stream ++ chunk }
  | .read => { s with cursor := s.page.nextCursor.getD s.cursor, reads := s.reads ++ [s.page] }

def run (maxBytes : ℕ) (events : List PollEvent) : Polling :=
  events.foldl step (initial maxBytes)

def appended (events : List PollEvent) : Bytes :=
  events.flatMap fun
    | .append chunk => chunk
    | .read => []

def dropped (s : Polling) : ℕ := s.buffer.dropped s.stream

/-- One of the reads has returned the `n` bytes from the position `k` on. -/
def Returned (reads : List Snapshot) (k n : ℕ) : Prop :=
  ∃ read ∈ reads, ∃ next, read.nextCursor = some next ∧ next ≤ k + read.bytes ∧ k + n ≤ next

/-- The next read is the next page of the text: it returns whole characters that no read has returned,
behind those that were returned, so that all characters which the buffer holds have been returned, and
it says whether something behind its cursor is lost. -/
structure IsPage (text : List Char) (s : Polling) (next : ℕ) : Prop where
  next_eq : s.page.nextCursor = some next
  inOrder : s.cursor + s.page.bytes ≤ next
  once : ∀ earlier ∈ s.reads, ∀ n ∈ earlier.nextCursor, n + s.page.bytes ≤ next
  next_le : next ≤ s.stream.length
  bytes_eq : s.page.bytes = (encode s.page.content).length
  whole : s.page.content ≠ [] → ∃ before rest, text = before ++ s.page.content ++ rest ∧
    (encode before).length + s.page.bytes = next
  retained : ∀ k c, BeginsAt text k c → s.dropped ≤ k →
    k + (String.utf8EncodeChar c).length ≤ s.stream.length →
      Returned (s.reads ++ [s.page]) k (String.utf8EncodeChar c).length
  truncated : s.page.truncated = true ↔ s.cursor < s.dropped

/-- Nothing was lost, or more than what the buffer holds has come since the cursor. -/
def Exact (maxBytes : ℕ) (s : Polling) : Prop :=
  s.stream.length ≤ maxBytes ∨ s.cursor + maxBytes < s.stream.length

variable {text : List Char} {s : Polling} {maxBytes : ℕ}

/-- The cursor is that of the last read, and all characters before it that are in the buffer have been
returned. -/
structure Inv (text : List Char) (maxBytes : ℕ) (s : Polling) : Prop where
  holds : s.buffer.Holds s.stream
  maxBytes_eq : s.buffer.maxBytes = maxBytes
  cursor_le : s.cursor ≤ s.stream.length
  earlier : ∀ read ∈ s.reads, ∀ n ∈ read.nextCursor, n ≤ s.cursor
  returned : ∀ k c, BeginsAt text k c → s.dropped ≤ k → k < s.cursor →
    Returned s.reads k (String.utf8EncodeChar c).length

theorem inv_initial (text : List Char) (maxBytes : ℕ) : Inv text maxBytes (initial maxBytes) :=
  ⟨TailBuffer.holds_create maxBytes, rfl, le_rfl, nofun,
    fun _ _ _ _ h => absurd h (Nat.not_lt_zero _)⟩

theorem Returned.mono {reads reads' : List Snapshot} {k n : ℕ} (h : Returned reads k n)
    (hsubset : ∀ read ∈ reads, read ∈ reads') : Returned reads' k n := by
  obtain ⟨read, hread, hreturned⟩ := h
  exact ⟨read, hsubset read hread, hreturned⟩

section

variable (h : Inv text maxBytes s)

include h

theorem Inv.append (chunk : Bytes) : Inv text maxBytes (s.step (.append chunk)) := by
  have hholds := h.holds.append chunk
  refine ⟨hholds, (s.buffer.maxBytes_append chunk).trans h.maxBytes_eq, ?_, h.earlier,
    fun k c hk hdropped => h.returned k c hk ?_⟩
  · exact h.cursor_le.trans (List.length_append ▸ Nat.le_add_right _ _)
  · refine le_trans ?_ hdropped
    rw [dropped, h.holds.dropped_eq, dropped]
    show _ ≤ TailBuffer.dropped (s.buffer.append chunk) (s.stream ++ chunk)
    rw [hholds.dropped_eq, s.buffer.maxBytes_append, List.length_append]
    omega

theorem Inv.reads (hstream : s.stream <+: encode text) :
    ∃ next, TailBuffer.Reads text s.stream (max s.cursor s.dropped) s.page next :=
  h.holds.reads hstream h.cursor_le

theorem Inv.returned_page {next : ℕ}
    (hreads : TailBuffer.Reads text s.stream (max s.cursor s.dropped) s.page next) {k : ℕ}
    {c : Char} (hk : BeginsAt text k c) (hdropped : s.dropped ≤ k)
    (hwhole : s.cursor ≤ k → k + (String.utf8EncodeChar c).length ≤ s.stream.length) :
    Returned (s.reads ++ [s.page]) k (String.utf8EncodeChar c).length := by
  by_cases hcursor : s.cursor ≤ k
  · obtain ⟨hlow, hhigh⟩ := hreads.complete k c hk (max_le hcursor hdropped) (hwhole hcursor)
    exact ⟨_, List.mem_append_right _ List.mem_cons_self, next, hreads.next_eq, hlow, hhigh⟩
  · exact (h.returned k c hk hdropped (Nat.lt_of_not_le hcursor)).mono
      fun read hread => List.mem_append_left _ hread

theorem Inv.read (hstream : s.stream <+: encode text) : Inv text maxBytes (s.step .read) := by
  obtain ⟨next, hreads⟩ := h.reads hstream
  have hcursor : (s.step .read).cursor = next := by
    rw [step]
    dsimp only
    rw [hreads.next_eq]
    rfl
  have hle : s.cursor ≤ next :=
    (le_max_left _ _).trans ((Nat.le_add_right _ _).trans hreads.inOrder)
  refine ⟨h.holds, h.maxBytes_eq, hcursor ▸ hreads.next_le, fun read hread n hn => ?_,
    fun k c hk hdropped hlt => ?_⟩
  · rw [hcursor]
    obtain hread | hread := List.mem_append.mp hread
    · exact (h.earlier read hread n hn).trans hle
    · obtain rfl := List.mem_singleton.mp hread
      rw [hreads.next_eq, Option.mem_some_iff] at hn
      exact hn.ge
  · -- A character that is not whole stands behind the cursor.
    rw [hcursor] at hlt
    refine h.returned_page hreads hk hdropped fun hge => ?_
    by_contra hpart
    have hnext := hreads.later k c hk (max_le hge hdropped) (Nat.lt_of_not_le hpart)
    exact absurd hlt (Nat.not_lt.mpr hnext)

theorem Inv.isPage_iff (hstream : s.stream <+: encode text) :
    (∃ next, IsPage text s next) ↔ Exact maxBytes s := by
  obtain ⟨next, hreads⟩ := h.reads hstream
  have hflag : s.page.truncated = true ↔ s.cursor < s.dropped ∨ maxBytes < s.stream.length :=
    h.maxBytes_eq ▸ h.holds.truncated_iff s.cursor
  have hdropped : s.dropped = s.stream.length - maxBytes := by
    rw [dropped, h.holds.dropped_eq, h.maxBytes_eq]
  rw [hdropped] at hflag
  constructor
  · rintro ⟨next', hpage⟩
    have htruncated := hpage.truncated
    rw [hflag, hdropped] at htruncated
    rw [Exact]
    omega
  · intro hexact
    have hle := (Nat.add_le_add_right (le_max_left s.cursor s.dropped) s.page.bytes).trans
      hreads.inOrder
    refine ⟨next, hreads.next_eq, hle, fun earlier hearlier n hn => ?_, hreads.next_le,
      hreads.bytes_eq, hreads.whole, fun k c hk hkept hwhole => ?_, ?_⟩
    · exact (Nat.add_le_add_right (h.earlier earlier hearlier n hn) _).trans hle
    · exact h.returned_page hreads hk hkept fun _ => hwhole
    · rw [hflag, hdropped]
      rw [Exact] at hexact
      omega

end

theorem run_concat (maxBytes : ℕ) (events : List PollEvent) (e : PollEvent) :
    run maxBytes (events ++ [e]) = (run maxBytes events).step e :=
  List.foldl_concat ..

theorem stream_run (maxBytes : ℕ) (events : List PollEvent) :
    (run maxBytes events).stream = appended events := by
  induction events using List.reverseRecOn with
  | nil => rfl
  | append_singleton events e ih =>
    rw [run_concat, appended, List.flatMap_append, ← appended, ← ih]
    cases e with
    | append chunk => exact congrArg _ (List.append_nil chunk).symm
    | read => exact (List.append_nil _).symm

theorem appended_mono {past events : List PollEvent} (h : past <+: events) :
    appended past <+: appended events := by
  obtain ⟨rest, rfl⟩ := h
  exact ⟨appended rest, List.flatMap_append.symm⟩

theorem inv_run (maxBytes : ℕ) {events : List PollEvent} (hstream : appended events <+: encode text) :
    Inv text maxBytes (run maxBytes events) := by
  induction events using List.reverseRecOn with
  | nil => exact inv_initial text maxBytes
  | append_singleton events e ih =>
    have hpast := (appended_mono (List.prefix_append events [e])).trans hstream
    rw [run_concat]
    cases e with
    | append chunk => exact (ih hpast).append chunk
    | read => exact (ih hpast).read (by rwa [stream_run])

/-- The reads page through a text that is appended in any chunks, if and only if each of them is made
before anything was lost, or where something behind its cursor was. -/
theorem pages_iff (maxBytes : ℕ) {events : List PollEvent} (hstream : appended events <+: encode text) :
    (∀ past, past ++ [.read] <+: events → ∃ next, IsPage text (run maxBytes past) next) ↔
      ∀ past, past ++ [.read] <+: events → Exact maxBytes (run maxBytes past) := by
  refine forall₂_congr fun past hpast => ?_
  have hstream := (appended_mono ((List.prefix_append past [.read]).trans hpast)).trans hstream
  exact (inv_run maxBytes hstream).isPage_iff (by rwa [stream_run])

theorem pages_iff_example :
    (∀ past, past ++ [.read] <+: [.append [0x61, 0xE2], .read, .append [0x82, 0xAC], .read] →
      ∃ next, IsPage ['a', '€'] (run 3 past) next) ↔
        ∀ past, past ++ [.read] <+: [.append [0x61, 0xE2], .read, .append [0x82, 0xAC], .read] →
          Exact 3 (run 3 past) :=
  pages_iff 3 ⟨[], by decide⟩

/-- A read that has lost nothing says that it has, since the buffer was full once. -/
theorem not_isPage_run : ¬ ∀ (maxBytes : ℕ) (text : List Char) (events : List PollEvent),
    appended events <+: encode text → ∀ past, past ++ [.read] <+: events →
      ∃ next, IsPage text (run maxBytes past) next := by
  intro h
  obtain ⟨next, hpage⟩ := h 1 ['a', 'b', 'c'] [.append [0x61, 0x62], .read, .append [0x63], .read]
    ⟨[], by decide⟩ [.append [0x61, 0x62], .read, .append [0x63]] List.prefix_rfl
  have htruncated := hpage.truncated.mp (by decide +kernel)
  exact absurd htruncated (by decide +kernel)

end Polling

end Process
