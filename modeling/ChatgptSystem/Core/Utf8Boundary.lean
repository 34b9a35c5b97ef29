import ChatgptSystem.Core.Utf8

/-!
# Boundaries of characters in UTF-8

`completeUtf8Span` (`core/utf8-boundary.ts`) and what it finds in a part of encoded text.

* `exists_of_utf8EncodeChar` — the shape of a character: a first byte, and bytes that continue it;
* `exists_of_encode_append` — where a cut through encoded text goes;
* `dropWhile_encode`, `completeUtf8Span_eq` — the cut parts of characters at both ends are left out;
* `BeginsAt` — the position of a character, before, behind and at a cut;
* `exists_of_drop_le`, `continued_of_drop` — what is left of streamed text behind a position;
* `wholeText` — the whole characters of a stream.
-/

namespace Text

/-- A character's number of bytes, by its first one. -/
def sequenceLength (lead : UInt8) : ℕ :=
  if lead < 0x80 then 1
  else if lead &&& 0xE0 = 0xC0 then 2
  else if lead &&& 0xF0 = 0xE0 then 3
  else if lead &&& 0xF8 = 0xF0 then 4
  else 1

def isContinuation (byte : UInt8) : Bool := byte &&& 0xC0 = 0x80

/-- The last character's first byte from the position `from_` on: its position and value. -/
def lastLead (bytes : Bytes) (from_ : ℕ) : Option (ℕ × UInt8) :=
  match (bytes.drop from_).reverse.dropWhile isContinuation with
  | [] => none
  | lead :: before => some (from_ + before.length, lead)

/-- `completeUtf8Span`: where the whole characters begin and end. -/
def completeUtf8Span (bytes : Bytes) : ℕ × ℕ :=
  let start := ((bytes.take 3).takeWhile isContinuation).length
  match lastLead bytes (max start (bytes.length - 4)) with
  | none => (start, bytes.length)
  | some (index, lead) =>
    if index + sequenceLength lead > bytes.length then (start, index) else (start, bytes.length)

/-! ## The bytes of a character -/

theorem isContinuation_ofNat {n : ℕ} (h : n < 256) :
    isContinuation (UInt8.ofNat n) = (decide (128 ≤ n) && decide (n < 192)) := by
  revert n
  decide +kernel

theorem sequenceLength_ofNat {n : ℕ} (h : n < 256) : sequenceLength (UInt8.ofNat n) =
    if n < 192 then 1 else if n < 224 then 2 else if n < 240 then 3 else if n < 248 then 4
    else 1 := by
  revert n
  decide +kernel

theorem isContinuation_add {n : ℕ} (h : n < 64) : isContinuation (UInt8.ofNat (n + 128)) = true := by
  rw [isContinuation_ofNat (by omega)]
  simp only [Bool.and_eq_true, decide_eq_true_eq]
  omega

theorem isContinuation_of_large {n : ℕ} (h : 192 ≤ n) (h' : n < 256) :
    isContinuation (UInt8.ofNat n) = false := by
  rw [isContinuation_ofNat h']
  simp only [Bool.and_eq_false_iff, decide_eq_false_iff_not]
  omega

structure IsCharacter (lead : UInt8) (rest : Bytes) : Prop where
  begins : isContinuation lead = false
  continues : ∀ byte ∈ rest, isContinuation byte = true
  length_eq : sequenceLength lead = rest.length + 1
  length_le : rest.length ≤ 3

theorem exists_of_utf8EncodeChar (c : Char) :
    ∃ lead rest, String.utf8EncodeChar c = lead :: rest ∧ IsCharacter lead rest := by
  have hvalid : c.val.toNat < 0x110000 := by
    have hchar : c.toNat < 0xD800 ∨ (0xDFFF < c.toNat ∧ c.toNat < 0x110000) := c.valid
    have hval : c.val.toNat = c.toNat := rfl
    omega
  have hmod (k : ℕ) : k % 64 < 64 := Nat.mod_lt _ (by decide)
  unfold String.utf8EncodeChar
  dsimp only
  generalize c.val.toNat = v at hvalid
  split
  next h =>
    refine ⟨_, [], rfl, ?_, nofun, ?_, by decide⟩
    · rw [isContinuation_ofNat (by omega)]
      simp only [Bool.and_eq_false_iff, decide_eq_false_iff_not]
      omega
    · rw [sequenceLength_ofNat (by omega), if_pos (by omega)]
      rfl
  split
  next h =>
    refine ⟨_, _, rfl, isContinuation_of_large (by omega) (by omega), ?_, ?_, by simp⟩
    · simp only [List.mem_cons, List.not_mem_nil, or_false, forall_eq]
      exact isContinuation_add (hmod _)
    · rw [sequenceLength_ofNat (by omega), if_neg (by omega), if_pos (by omega)]
      rfl
  split
  next h =>
    refine ⟨_, _, rfl, isContinuation_of_large (by omega) (by omega), ?_, ?_, by simp⟩
    · simp only [List.mem_cons, List.not_mem_nil, or_false, forall_eq_or_imp, forall_eq]
      exact ⟨isContinuation_add (hmod _), isContinuation_add (hmod _)⟩
    · rw [sequenceLength_ofNat (by omega), if_neg (by omega), if_neg (by omega), if_pos (by omega)]
      rfl
  next h =>
    refine ⟨_, _, rfl, isContinuation_of_large (by omega) (by omega), ?_, ?_, by simp⟩
    · simp only [List.mem_cons, List.not_mem_nil, or_false, forall_eq_or_imp, forall_eq]
      exact ⟨isContinuation_add (hmod _), isContinuation_add (hmod _), isContinuation_add (hmod _)⟩
    · rw [sequenceLength_ofNat (by omega), if_neg (by omega), if_neg (by omega), if_neg (by omega),
        if_pos (by omega)]
      rfl

/-! ## Cuts through encoded text -/

variable {x y : Bytes} {text : List Char}

theorem encode_cons (c : Char) (text : List Char) :
    encode (c :: text) = String.utf8EncodeChar c ++ encode text := List.flatMap_cons

theorem encode_append (first second : List Char) :
    encode (first ++ second) = encode first ++ encode second := List.flatMap_append

/-- Bytes at the end of a character, of which the first ones are missing. -/
structure Continued (bytes : Bytes) : Prop where
  continues : ∀ byte ∈ bytes, isContinuation byte = true
  length_le : bytes.length ≤ 3

/-- Bytes at the beginning of a character, of which the last ones are missing. -/
def Begun (bytes : Bytes) : Prop :=
  bytes = [] ∨ ∃ lead rest, bytes = lead :: rest ∧ isContinuation lead = false ∧
    (∀ byte ∈ rest, isContinuation byte = true) ∧ rest.length + 1 < sequenceLength lead ∧
    rest.length ≤ 2

theorem continued_nil : Continued [] := ⟨nofun, by decide⟩

theorem begun_nil : Begun [] := .inl rfl

theorem exists_of_encode_append (h : encode text = x ++ y) :
    (∃ front back, text = front ++ back ∧ x = encode front ∧ y = encode back) ∨
      ∃ front c back lead begun continued, text = front ++ c :: back ∧
        String.utf8EncodeChar c = lead :: begun ++ continued ∧ continued ≠ [] ∧
        x = encode front ++ lead :: begun ∧ y = continued ++ encode back := by
  induction text generalizing x with
  | nil =>
    obtain ⟨rfl, rfl⟩ := List.append_eq_nil_iff.mp h.symm
    exact .inl ⟨[], [], rfl, rfl, rfl⟩
  | cons c text ih =>
    rw [encode_cons] at h
    obtain ⟨z, rfl, hz⟩ | ⟨z, hz, rfl⟩ := List.append_eq_append_iff.mp h
    · -- The cut is behind the first character.
      obtain ⟨front, back, rfl, rfl, rfl⟩ |
        ⟨front, d, back, lead, begun, continued, rfl, hd, hne, rfl, rfl⟩ := ih hz
      · exact .inl ⟨c :: front, back, rfl, (encode_cons ..).symm, rfl⟩
      · refine .inr ⟨c :: front, d, back, lead, begun, continued, rfl, hd, hne, ?_, rfl⟩
        rw [encode_cons, List.append_assoc]
    · cases x with
      | nil => exact .inl ⟨[], c :: text, rfl, rfl, by rw [encode_cons, hz, List.nil_append]⟩
      | cons lead begun =>
        by_cases hzne : z = []
        · subst hzne
          refine .inl ⟨[c], text, rfl, ?_, List.nil_append _⟩
          rw [encode_cons, hz, List.append_nil]
          exact (List.append_nil _).symm
        · exact .inr ⟨[], c, text, lead, begun, z, rfl, hz, hzne, rfl, rfl⟩

theorem continued_of_char {c : Char} {lead : UInt8} {begun continued : Bytes}
    (h : String.utf8EncodeChar c = lead :: begun ++ continued) (hne : continued ≠ []) :
    Continued continued ∧ Begun (lead :: begun) := by
  obtain ⟨lead', rest, hc, hchar⟩ := exists_of_utf8EncodeChar c
  rw [hc, List.cons_append] at h
  obtain ⟨rfl, rfl⟩ := List.cons.inj h
  have hpos := List.length_pos_of_ne_nil hne
  have hlength := hchar.length_eq
  have hle := hchar.length_le
  rw [List.length_append] at hlength hle
  refine ⟨⟨fun byte hbyte => hchar.continues byte (List.mem_append_right _ hbyte), by omega⟩,
    .inr ⟨_, _, rfl, hchar.begins,
      fun byte hbyte => hchar.continues byte (List.mem_append_left _ hbyte), by omega, by omega⟩⟩

theorem isContinuation_head {byte : UInt8} {rest : Bytes} (h : encode text = byte :: rest) :
    isContinuation byte = false := by
  cases text with
  | nil => exact absurd h nofun
  | cons c text =>
    obtain ⟨lead, rest', hc, hchar⟩ := exists_of_utf8EncodeChar c
    rw [encode_cons, hc, List.cons_append] at h
    exact (List.cons.inj h).1 ▸ hchar.begins

theorem exists_of_drop (h : encode text = x ++ y) : ∃ continued front back,
    text = front ++ back ∧ y = continued ++ encode back ∧ Continued continued ∧
      encode front = x ++ continued := by
  obtain ⟨front, back, htext, rfl, rfl⟩ |
    ⟨front, c, back, lead, begun, continued, htext, hc, hne, rfl, rfl⟩ := exists_of_encode_append h
  · exact ⟨[], front, back, htext, rfl, continued_nil, (List.append_nil _).symm⟩
  · refine ⟨continued, front ++ [c], back, ?_, rfl, (continued_of_char hc hne).1, ?_⟩
    · rw [htext, List.append_assoc]
      rfl
    · rw [encode_append, encode_cons, hc, show encode [] = [] from rfl, List.append_nil,
        List.append_assoc]

theorem exists_of_take (h : encode text = x ++ y) : ∃ front begun back,
    text = front ++ back ∧ x = encode front ++ begun ∧ Begun begun ∧ encode back = begun ++ y := by
  obtain ⟨front, back, htext, rfl, rfl⟩ |
    ⟨front, c, back, lead, begun, continued, htext, hc, hne, rfl, rfl⟩ := exists_of_encode_append h
  · exact ⟨front, [], back, htext, (List.append_nil _).symm, begun_nil, rfl⟩
  · refine ⟨front, lead :: begun, c :: back, htext, rfl, (continued_of_char hc hne).2, ?_⟩
    rw [encode_cons, hc, List.append_assoc]

theorem takeWhile_append_encode {continued rest : Bytes}
    (h : ∀ byte ∈ continued, isContinuation byte = true)
    (hrest : ∀ byte ∈ rest.head?, isContinuation byte = false) :
    (continued ++ rest).takeWhile isContinuation = continued ∧
      (continued ++ rest).dropWhile isContinuation = rest := by
  rw [List.takeWhile_append_of_pos h, List.dropWhile_append_of_pos h]
  cases rest with
  | nil => exact ⟨List.append_nil _, rfl⟩
  | cons byte rest =>
    have hbyte := hrest byte rfl
    rw [List.takeWhile_cons_of_neg (by rw [hbyte]; nofun), List.dropWhile_cons_of_neg (by rw [hbyte]; nofun)]
    exact ⟨List.append_nil _, rfl⟩

theorem dropWhile_encode {continued : Bytes} (h : Continued continued) :
    (continued ++ encode text).dropWhile isContinuation = encode text := by
  refine (takeWhile_append_encode h.continues fun byte hbyte => ?_).2
  obtain ⟨rest, hrest⟩ := List.head?_eq_some_iff.mp hbyte
  exact isContinuation_head hrest

/-! ## The whole characters -/

theorem head_append_begun {begun : Bytes} (h : Begun begun) :
    ∀ byte ∈ (encode text ++ begun).head?, isContinuation byte = false := by
  intro byte hbyte
  cases htext : encode text with
  | cons first rest =>
    rw [htext, List.cons_append, List.head?_cons, Option.mem_some_iff] at hbyte
    exact hbyte ▸ isContinuation_head htext
  | nil =>
    rw [htext, List.nil_append] at hbyte
    obtain rfl | ⟨lead, rest, rfl, hlead, -⟩ := h
    · exact absurd hbyte nofun
    · rw [List.head?_cons, Option.mem_some_iff] at hbyte
      exact hbyte ▸ hlead

theorem lastLead_eq {before rest : Bytes} {lead : UInt8} {k : ℕ} (hk : k ≤ before.length)
    (hlead : isContinuation lead = false) (hrest : ∀ byte ∈ rest, isContinuation byte = true) :
    lastLead (before ++ lead :: rest) k = some (before.length, lead) := by
  have hdrop : (before ++ lead :: rest).drop k = before.drop k ++ lead :: rest :=
    List.drop_append_of_le_length hk
  have hreverse : ((before ++ lead :: rest).drop k).reverse.dropWhile isContinuation =
      lead :: (before.drop k).reverse := by
    rw [hdrop, List.reverse_append, List.reverse_cons, List.append_assoc, List.singleton_append]
    refine (takeWhile_append_encode ?_ ?_).2
    · exact fun byte hbyte => hrest byte (List.mem_reverse.mp hbyte)
    · rintro byte hbyte
      rw [List.head?_cons, Option.mem_some_iff] at hbyte
      exact hbyte ▸ hlead
  rw [lastLead, hreverse]
  dsimp only
  rw [List.length_reverse, List.length_drop, Nat.add_sub_cancel' hk]

theorem completeUtf8Span_eq {continued begun : Bytes} (hcontinued : Continued continued)
    (hbegun : Begun begun) : completeUtf8Span (continued ++ encode text ++ begun) =
      (continued.length, continued.length + (encode text).length) := by
  have hle := hcontinued.length_le
  have hstart : (((continued ++ encode text ++ begun).take 3).takeWhile isContinuation).length =
      continued.length := by
    rw [List.append_assoc, List.take_append, List.take_of_length_le hle,
      (takeWhile_append_encode hcontinued.continues _).1]
    intro byte hbyte
    rw [List.head?_take] at hbyte
    split at hbyte
    · exact absurd hbyte nofun
    · exact head_append_begun hbegun byte hbyte
  unfold completeUtf8Span
  rw [hstart]
  dsimp only
  obtain rfl | ⟨lead, rest, rfl, hlead, hrest, hlong, hshort⟩ := hbegun
  · -- The last character, if there is one, is whole.
    rw [List.append_nil]
    cases text using List.reverseRecOn with
    | nil =>
      have hnone : lastLead (continued ++ encode []) (max continued.length
          ((continued ++ encode []).length - 4)) = none := by
        rw [lastLead, List.drop_eq_nil_of_le]
        · rfl
        · rw [show encode [] = [] from rfl, List.append_nil]
          exact le_max_left _ _
      rw [hnone, List.length_append]
    | append_singleton text c =>
      obtain ⟨lead, rest, hc, hchar⟩ := exists_of_utf8EncodeChar c
      have hbytes : continued ++ encode (text ++ [c]) = continued ++ encode text ++ lead :: rest := by
        rw [encode_append, encode_cons, hc, show encode [] = [] from rfl, List.append_nil,
          List.append_assoc]
      have hlength := hchar.length_eq
      have hrest := hchar.length_le
      have hbound : max continued.length ((continued ++ encode text ++ lead :: rest).length - 4) ≤
          (continued ++ encode text).length := by
        simp only [List.length_append, List.length_cons]
        omega
      rw [← List.length_append, hbytes, lastLead_eq hbound hchar.begins hchar.continues]
      dsimp only
      rw [if_neg]
      simp only [hlength, List.length_append, List.length_cons]
      omega
  · have hbound : max continued.length ((continued ++ encode text ++ lead :: rest).length - 4) ≤
        (continued ++ encode text).length := by
      simp only [List.length_append, List.length_cons]
      omega
    rw [lastLead_eq hbound hlead hrest]
    dsimp only
    rw [if_pos, ← List.length_append]
    simp only [List.length_append, List.length_cons]
    omega

theorem completeUtf8Span_content {continued begun : Bytes} (hcontinued : Continued continued)
    (hbegun : Begun begun) (hx : x = continued ++ encode text ++ begun) :
    (x.take (completeUtf8Span x).2).drop (completeUtf8Span x).1 = encode text ∧
      x.length - (completeUtf8Span x).2 = begun.length := by
  rw [hx, completeUtf8Span_eq hcontinued hbegun, ← List.length_append, List.take_left, List.drop_left,
    List.length_append, Nat.add_sub_cancel_left]
  exact ⟨rfl, rfl⟩

/-! ## The positions of characters -/

/-- The character `c` of the text begins at the byte `k`. -/
def BeginsAt (text : List Char) (k : ℕ) (c : Char) : Prop :=
  ∃ before rest, text = before ++ c :: rest ∧ (encode before).length = k

theorem BeginsAt.append {front back : List Char} {k : ℕ} {c : Char}
    (h : BeginsAt (front ++ back) k c) :
    BeginsAt front k c ∧ k + (String.utf8EncodeChar c).length ≤ (encode front).length ∨
      ∃ j, k = (encode front).length + j ∧ BeginsAt back j c := by
  obtain ⟨before, rest, htext, rfl⟩ := h
  obtain ⟨between, rfl, hback⟩ | ⟨between, rfl, hfront⟩ := List.append_eq_append_iff.mp htext
  · refine .inr ⟨(encode between).length, ?_, between, rest, hback, rfl⟩
    rw [encode_append, List.length_append]
  · cases between with
    | nil =>
      refine .inr ⟨0, ?_, [], rest, hfront.symm, rfl⟩
      rw [List.append_nil, Nat.add_zero]
    | cons d between =>
      obtain ⟨rfl, -⟩ := List.cons.inj hfront
      refine .inl ⟨⟨before, between, rfl, rfl⟩, ?_⟩
      rw [encode_append, encode_cons, List.length_append, List.length_append]
      omega

theorem BeginsAt.begun {back : List Char} {begun z : Bytes} {j : ℕ} {c : Char}
    (h : BeginsAt back j c) (hbegun : Begun begun) (hback : encode back = begun ++ z) :
    begun.length < j + (String.utf8EncodeChar c).length ∧ (j = 0 ∨ begun.length < j) := by
  -- The first character is longer than what has begun of it.
  have hfirst {d : Char} {rest : List Char} (hcons : back = d :: rest) :
      begun.length < (String.utf8EncodeChar d).length := by
    obtain ⟨lead, tail, hd, hchar⟩ := exists_of_utf8EncodeChar d
    obtain rfl | ⟨lead', tail', rfl, -, -, hlong, -⟩ := hbegun
    · rw [hd]
      exact Nat.succ_pos _
    · rw [hcons, encode_cons, hd, List.cons_append, List.cons_append] at hback
      obtain ⟨rfl, -⟩ := List.cons.inj hback
      rw [hd, List.length_cons, List.length_cons, ← hchar.length_eq]
      exact hlong
  obtain ⟨before, rest, hcons, rfl⟩ := h
  cases before with
  | nil => exact ⟨(hfirst hcons).trans_le (Nat.le_add_left _ _), .inl rfl⟩
  | cons d before =>
    have hlt := hfirst hcons
    rw [encode_cons, List.length_append]
    omega

theorem BeginsAt.continued {front : List Char} {x continued : Bytes} {k : ℕ} {c : Char}
    (h : BeginsAt front k c) (hfront : encode front = x ++ continued) (hcontinued : Continued continued) :
    k < x.length := by
  by_contra hge
  obtain ⟨before, rest, rfl, rfl⟩ := h
  obtain ⟨lead, tail, hc, hchar⟩ := exists_of_utf8EncodeChar c
  rw [encode_append, encode_cons, hc] at hfront
  have hmem : lead ∈ continued := by
    obtain ⟨between, rfl, hrest⟩ | ⟨between, hbefore, rfl⟩ := List.append_eq_append_iff.mp hfront
    · rw [List.length_append] at hge
      obtain rfl := List.eq_nil_of_length_eq_zero (by omega : between.length = 0)
      rw [List.nil_append] at hrest
      exact hrest ▸ List.mem_cons_self
    · exact List.mem_append_right _ List.mem_cons_self
  exact absurd (hcontinued.continues lead hmem) (by rw [hchar.begins]; nofun)

theorem exists_of_drop_le {streamed : List Char} {p : ℕ} (begun : Bytes)
    (h : p ≤ (encode streamed).length) :
    ∃ continued skipped content, streamed = skipped ++ content ∧
      (encode streamed ++ begun).drop p = continued ++ encode content ++ begun ∧
      Continued continued ∧ (encode skipped).length = p + continued.length ∧
      ∀ k c, BeginsAt skipped k c → k < p := by
  obtain ⟨continued, skipped, content, rfl, hdrop, hcontinued, hskipped⟩ :=
    exists_of_drop (List.take_append_drop p (encode streamed)).symm
  have hlength : ((encode (skipped ++ content)).take p).length = p := List.length_take_of_le h
  refine ⟨continued, skipped, content, rfl, ?_, hcontinued, ?_, fun k c hk => ?_⟩
  · rw [List.drop_append_of_le_length h, hdrop]
  · rw [hskipped, List.length_append, hlength]
  · exact hlength ▸ hk.continued hskipped hcontinued

theorem continued_of_drop {streamed : List Char} {begun : Bytes} {p : ℕ} (hbegun : Begun begun)
    (h : (encode streamed).length < p) : Continued ((encode streamed ++ begun).drop p) := by
  obtain ⟨n, rfl⟩ : ∃ n, p = (encode streamed).length + (n + 1) :=
    ⟨p - (encode streamed).length - 1, by omega⟩
  rw [List.drop_append, List.drop_eq_nil_of_le (Nat.le_add_right _ _), List.nil_append,
    Nat.add_sub_cancel_left]
  obtain rfl | ⟨lead, rest, rfl, -, hrest, -, hshort⟩ := hbegun
  · rw [List.drop_nil]
    exact continued_nil
  · rw [List.drop_succ_cons]
    refine ⟨fun byte hbyte => hrest byte (List.mem_of_mem_drop hbyte), ?_⟩
    rw [List.length_drop]
    omega

/-! ## The whole characters of a stream -/

theorem length_encode_le {front : List Char} (h : front <+: text) :
    (encode front).length ≤ (encode text).length := by
  obtain ⟨rest, rfl⟩ := h
  rw [encode_append, List.length_append]
  exact Nat.le_add_right _ _

theorem length_encode_dropLast_lt (h : text ≠ []) :
    (encode text.dropLast).length < (encode text).length := by
  obtain ⟨lead, rest, hc, -⟩ := exists_of_utf8EncodeChar (text.getLast h)
  have htext := congrArg encode (List.dropLast_concat_getLast h)
  rw [encode_append, encode_cons, hc, show encode [] = [] from rfl] at htext
  rw [← htext, List.length_append, List.append_nil, List.length_cons]
  omega

theorem eq_of_length_encode_lt {front : List Char} (h : front <+: text)
    (hlt : (encode text.dropLast).length < (encode front).length) : front = text := by
  obtain ⟨rest, rfl⟩ := h
  cases rest using List.reverseRecOn with
  | nil => exact (List.append_nil front).symm
  | append_singleton rest c =>
    rw [← List.append_assoc, List.dropLast_concat] at hlt
    exact absurd (length_encode_le (List.prefix_append front rest)) (Nat.not_le.mpr hlt)

def wholeText (stream : Bytes) : List Char := decode (stream.take (completeUtf8Span stream).2)

theorem wholeText_eq {begun : Bytes} (hbegun : Begun begun) :
    wholeText (encode text ++ begun) = text := by
  have hspan : completeUtf8Span ([] ++ encode text ++ begun) = _ :=
    completeUtf8Span_eq continued_nil hbegun
  rw [List.nil_append, List.length_nil, Nat.zero_add] at hspan
  rw [wholeText, hspan, List.take_left, decode_encode]

theorem exists_of_streamed {stream : Bytes} (h : stream <+: encode text) :
    ∃ begun, stream = encode (wholeText stream) ++ begun ∧ Begun begun ∧ wholeText stream <+: text ∧
      ∀ front, front <+: text → (encode front).length ≤ stream.length →
        front <+: wholeText stream := by
  obtain ⟨z, hz⟩ := h
  obtain ⟨whole, begun, back, rfl, rfl, hbegun, hback⟩ := exists_of_take hz.symm
  rw [wholeText_eq hbegun]
  refine ⟨begun, rfl, hbegun, List.prefix_append .., fun front hfront hle => ?_⟩
  obtain hwhole | hlonger := List.prefix_or_prefix_of_prefix hfront (List.prefix_append whole back)
  · exact hwhole
  obtain ⟨between, rfl⟩ := hlonger
  cases between with
  | nil => exact (List.append_nil whole).symm ▸ List.prefix_rfl
  | cons c between =>
    -- Not all of this character has been streamed.
    obtain ⟨rest, hrest⟩ := (List.prefix_append_right_inj whole).mp hfront
    have hback' : BeginsAt back 0 c := ⟨[], between ++ rest, hrest.symm, rfl⟩
    have hlong := (hback'.begun hbegun hback).1
    rw [encode_append, encode_cons, List.length_append, List.length_append, List.length_append] at hle
    omega

end Text
