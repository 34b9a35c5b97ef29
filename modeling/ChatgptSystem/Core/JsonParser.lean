import ChatgptSystem.Core.Json
import Mathlib.Data.List.Basic
import Mathlib.Data.List.TakeWhile
import Mathlib.Logic.Basic

/-!
# Reading JSON text

`JSON.parse`, for text whose numbers are written as integers.

* `parseValue`, `parse` — a value at the start of a text, and a text that is one value;
* `parse_stringify` — reading inverts `stringify`;
* `stringify_injective` — no two values have the same text.
-/

namespace Json

/-! ## The reader -/

def isSpace (c : Char) : Bool := c == ' ' || c == '\t' || c == '\n' || c == '\r'

def skipSpace (text : List Char) : List Char := text.dropWhile isSpace

def hexValue (c : Char) : Option ℕ :=
  if '0' ≤ c ∧ c ≤ '9' then some (c.toNat - 48)
  else if 'a' ≤ c ∧ c ≤ 'f' then some (c.toNat - 87)
  else if 'A' ≤ c ∧ c ≤ 'F' then some (c.toNat - 55)
  else none

/-- The code unit of a `\u` escape. -/
def hexUnit (a b c d : Char) : Option ℕ := do
  let a ← hexValue a
  let b ← hexValue b
  let c ← hexValue c
  let d ← hexValue d
  some (((a * 16 + b) * 16 + c) * 16 + d)

def unescape : Char → Option Char
  | '"' => some '"'
  | '\\' => some '\\'
  | '/' => some '/'
  | 'b' => some (Char.ofNat 8)
  | 'f' => some (Char.ofNat 12)
  | 'n' => some '\n'
  | 'r' => some '\r'
  | 't' => some '\t'
  | _ => none

/-- A character as it stands in a string literal, or the code unit of an escape. -/
abbrev Piece : Type := Char ⊕ ℕ

def Piece.char : Piece → Char
  | .inl c => c
  | .inr unit => if unit.isValidChar then Char.ofNat unit else '\uFFFD'

/-- The characters of a literal: two escapes that are the halves of one character are put
together, and a half on its own is replaced. -/
def joinPieces : List Piece → List Char
  | .inr high :: .inr low :: rest =>
    if 0xD800 ≤ high ∧ high < 0xDC00 ∧ 0xDC00 ≤ low ∧ low < 0xE000 then
      Char.ofNat (0x10000 + (high - 0xD800) * 0x400 + (low - 0xDC00)) :: joinPieces rest
    else Piece.char (.inr high) :: joinPieces (.inr low :: rest)
  | piece :: rest => piece.char :: joinPieces rest
  | [] => []

def parsePieces : List Char → Option (List Piece × List Char)
  | '"' :: rest => some ([], rest)
  | '\\' :: 'u' :: a :: b :: c :: d :: rest => do
    let unit ← hexUnit a b c d
    let (pieces, rest) ← parsePieces rest
    some (.inr unit :: pieces, rest)
  | '\\' :: c :: rest => do
    let c ← unescape c
    let (pieces, rest) ← parsePieces rest
    some (.inl c :: pieces, rest)
  | c :: rest =>
    if c.toNat < 0x20 then none
    else do
      let (pieces, rest) ← parsePieces rest
      some (.inl c :: pieces, rest)
  | [] => none

def parseString (text : List Char) : Option (String × List Char) :=
  (parsePieces text).map fun (pieces, rest) => (String.ofList (joinPieces pieces), rest)

def parseNat (text : List Char) : Option (ℕ × List Char) :=
  match text.takeWhile Char.isDigit with
  | [] => none
  | '0' :: _ :: _ => none
  | digits => some (Nat.ofDigitChars 10 digits 0, text.dropWhile Char.isDigit)

def parseNumber : List Char → Option (Json × List Char)
  | '-' :: text => (parseNat text).map fun (n, rest) => (.number (-(n : ℤ)), rest)
  | text => (parseNat text).map fun (n, rest) => (.number n, rest)

mutual

def parseValue : ℕ → List Char → Option (Json × List Char)
  | 0, _ => none
  | fuel + 1, text =>
    match skipSpace text with
    | 'n' :: 'u' :: 'l' :: 'l' :: rest => some (.null, rest)
    | 't' :: 'r' :: 'u' :: 'e' :: rest => some (.bool true, rest)
    | 'f' :: 'a' :: 'l' :: 's' :: 'e' :: rest => some (.bool false, rest)
    | '"' :: rest => (parseString rest).map fun (text, rest) => (.string text, rest)
    | '[' :: rest =>
      match skipSpace rest with
      | ']' :: rest => some (.array [], rest)
      | rest => do
        let (item, rest) ← parseValue fuel rest
        let (items, rest) ← parseItems fuel rest
        some (.array (item :: items), rest)
    | '\x7b' :: rest =>
      match skipSpace rest with
      | '\x7d' :: rest => some (.object [], rest)
      | rest => do
        let (member, rest) ← parseMember fuel rest
        let (members, rest) ← parseMembers fuel rest
        some (.object (member :: members), rest)
    | text => parseNumber text

def parseItems : ℕ → List Char → Option (List Json × List Char)
  | 0, _ => none
  | fuel + 1, text =>
    match skipSpace text with
    | ']' :: rest => some ([], rest)
    | ',' :: rest => do
      let (item, rest) ← parseValue fuel rest
      let (items, rest) ← parseItems fuel rest
      some (item :: items, rest)
    | _ => none

def parseMember : ℕ → List Char → Option ((String × Json) × List Char)
  | 0, _ => none
  | fuel + 1, text =>
    match skipSpace text with
    | '"' :: rest => do
      let (name, rest) ← parseString rest
      match skipSpace rest with
      | ':' :: rest => do
        let (value, rest) ← parseValue fuel rest
        some ((name, value), rest)
      | _ => none
    | _ => none

/-- The members after the first one, and what follows the object. -/
def parseMembers : ℕ → List Char → Option (List (String × Json) × List Char)
  | 0, _ => none
  | fuel + 1, text =>
    match skipSpace text with
    | '\x7d' :: rest => some ([], rest)
    | ',' :: rest => do
      let (member, rest) ← parseMember fuel rest
      let (members, rest) ← parseMembers fuel rest
      some (member :: members, rest)
    | _ => none

end

def parse (text : List Char) : Option Json :=
  match parseValue (2 * text.length + 1) text with
  | some (value, rest) => if skipSpace rest = [] then some value else none
  | none => none

/-! ## Strings -/

def piece (c : Char) : Piece :=
  if c.toNat < 0x20 ∧ c.toNat ∉ [0x8, 0xC, 0xA, 0xD, 0x9] then .inr c.toNat else .inl c

theorem hexValue_digitChar : ∀ n < 16, hexValue (Nat.digitChar n) = some n := by decide

theorem hexUnit_hex4 {n : ℕ} (h : n < 0x10000) : ∃ a b c d, hex4 n = [a, b, c, d] ∧
    hexUnit a b c d = some n := by
  refine ⟨_, _, _, _, rfl, ?_⟩
  rw [hexUnit, hexValue_digitChar _ (Nat.mod_lt _ (by decide)),
    hexValue_digitChar _ (Nat.mod_lt _ (by decide)), hexValue_digitChar _ (Nat.mod_lt _ (by decide)),
    hexValue_digitChar _ (Nat.mod_lt _ (by decide))]
  show some _ = some n
  congr 1
  omega

theorem parsePieces_escape (c : Char) (rest : List Char) : parsePieces (escape c ++ rest) =
    (parsePieces rest).map fun (pieces, rest) => (piece c :: pieces, rest) := by
  have hbind : ∀ p : Piece, ((parsePieces rest).bind fun x => some (p :: x.1, x.2)) =
      (parsePieces rest).map fun (pieces, rest) => (p :: pieces, rest) := fun p => by
    cases parsePieces rest <;> rfl
  have hc : c = Char.ofNat c.toNat := (Char.ofNat_toNat c).symm
  unfold escape
  split
  -- the characters with an escape of their own
  iterate 7
    next h =>
      rw [h] at hc
      subst hc
      exact hbind _
  next n h22 h5c h8 hc' ha hd h9 =>
    split
    next hn =>
      obtain ⟨x, y, z, w, hhex, hunit⟩ := hexUnit_hex4 (n := c.toNat) (by omega)
      have hpiece : piece c = .inr c.toNat := if_pos ⟨hn, by
        simp only [List.mem_cons, List.not_mem_nil, or_false, not_or]
        exact ⟨h8, hc', ha, hd, h9⟩⟩
      rw [hhex, hpiece]
      show parsePieces ('\\' :: 'u' :: x :: y :: z :: w :: rest) = _
      rw [parsePieces, hunit]
      exact hbind _
    next hn =>
      have hpiece : piece c = .inl c := if_neg fun h => hn h.1
      have hquote : c ≠ '"' := fun heq => h22 (heq ▸ rfl)
      have hslash : c ≠ '\\' := fun heq => h5c (heq ▸ rfl)
      rw [hpiece, List.singleton_append, parsePieces, if_neg hn]
      · exact hbind _
      · exact hquote
      · exact fun _ _ _ _ _ heq => absurd heq hslash
      · exact fun _ _ heq => absurd heq hslash

theorem parsePieces_quote (text rest : List Char) :
    parsePieces (text.flatMap escape ++ '"' :: rest) = some (text.map piece, rest) := by
  induction text with
  | nil => rfl
  | cons c text ih =>
    rw [List.flatMap_cons, List.append_assoc, parsePieces_escape, ih]
    rfl

theorem joinPieces_map (text : List Char) : joinPieces (text.map piece) = text := by
  have hchar : ∀ c, (piece c).char = c := fun c => by
    unfold piece
    split
    next h =>
      have hvalid : c.toNat.isValidChar := c.valid
      rw [Piece.char, if_pos hvalid, Char.ofNat_toNat]
    next => rfl
  induction text with
  | nil => rfl
  | cons c text ih =>
    have hcons : joinPieces (piece c :: text.map piece) =
        (piece c).char :: joinPieces (text.map piece) := by
      rw [joinPieces.eq_def (piece c :: text.map piece)]
      split
      next high low rest heq =>
        obtain ⟨hhigh, hrest⟩ := List.cons.inj heq
        have hsmall : high < 0x20 := by
          unfold piece at hhigh
          split at hhigh
          next h =>
            obtain rfl := Sum.inr.inj hhigh
            exact h.1
          next => cases hhigh
        rw [if_neg (by omega), hhigh, hrest]
      next heq =>
        obtain ⟨rfl, rfl⟩ := List.cons.inj heq
        rfl
      next heq => cases heq
    rw [List.map_cons, hcons, hchar, ih]

theorem parseString_quote (text : String) (rest : List Char) :
    parseString (text.toList.flatMap escape ++ '"' :: rest) = some (text, rest) := by
  rw [parseString, parsePieces_quote, Option.map_some]
  dsimp only
  rw [joinPieces_map, String.ofList_toList]

/-! ## Numbers -/

def NoDigit (rest : List Char) : Prop := ∀ c ∈ rest.head?, c.isDigit = false

theorem toDigits_zero_cons {n : ℕ} {c : Char} {later : List Char} :
    Nat.toDigits 10 n ≠ '0' :: c :: later := by
  induction n using Nat.strongRecOn generalizing c later with
  | ind n ih =>
    intro h
    rcases Nat.lt_or_ge n 10 with hlt | hge
    · rw [Nat.toDigits_of_lt_base hlt] at h
      exact absurd (congrArg List.length h) (by simp)
    · rw [Nat.toDigits_of_base_le (by decide) hge] at h
      cases hdigits : Nat.toDigits 10 (n / 10) with
      | nil => exact Nat.toDigits_ne_nil hdigits
      | cons d digits =>
        rw [hdigits] at h
        obtain ⟨rfl, -⟩ := List.cons.inj h
        cases digits with
        | cons d digits => exact ih (n / 10) (by omega) hdigits
        | nil =>
          -- a single zero in front belongs to a number below ten
          have hzero := Nat.ofDigitChars_toDigits (b := 10) (n := n / 10) (by decide) (by decide)
          rw [hdigits] at hzero
          simp [Nat.ofDigitChars] at hzero
          omega

variable {rest : List Char}

theorem parseNat_toDigits (n : ℕ) (hrest : NoDigit rest) :
    parseNat (Nat.toDigits 10 n ++ rest) = some (n, rest) := by
  have hdigits : ∀ c ∈ Nat.toDigits 10 n, c.isDigit = true := fun c hc =>
    Nat.isDigit_of_mem_toDigits (by decide) (by decide) hc
  have htake : (Nat.toDigits 10 n ++ rest).takeWhile Char.isDigit = Nat.toDigits 10 n := by
    rw [List.takeWhile_append_of_pos hdigits]
    cases rest with
    | nil => simp
    | cons c rest => rw [List.takeWhile_cons_of_neg (by simp [hrest c rfl]), List.append_nil]
  have hdrop : (Nat.toDigits 10 n ++ rest).dropWhile Char.isDigit = rest := by
    rw [List.dropWhile_append_of_pos hdigits]
    cases rest with
    | nil => rfl
    | cons c rest => rw [List.dropWhile_cons_of_neg (by simp [hrest c rfl])]
  rw [parseNat, htake, hdrop]
  split
  next h => exact absurd h Nat.toDigits_ne_nil
  next h => exact absurd h toDigits_zero_cons
  next => rw [Nat.ofDigitChars_toDigits (by decide) (by decide)]

theorem parseNumber_toString (value : ℤ) (hrest : NoDigit rest) :
    parseNumber ((toString value).toList ++ rest) = some (.number value, rest) := by
  rw [Int.toString_eq_repr]
  cases value with
  | ofNat n =>
    have htext : (Int.ofNat n).repr.toList = Nat.toDigits 10 n := Nat.toList_repr
    rw [htext]
    cases hdigits : Nat.toDigits 10 n with
    | nil => exact absurd hdigits Nat.toDigits_ne_nil
    | cons d digits =>
      have hd : d ≠ '-' := by
        rintro rfl
        have := Nat.isDigit_of_mem_toDigits (c := '-') (n := n) (b := 10) (by decide) (by decide)
          (hdigits ▸ List.mem_cons_self)
        revert this
        decide
      have hparse := parseNat_toDigits n hrest
      rw [hdigits] at hparse
      rw [List.cons_append, parseNumber]
      · rw [← List.cons_append, hparse]
        rfl
      · exact fun _ heq => hd (List.cons.inj heq).1
  | negSucc n =>
    have htext : (Int.negSucc n).repr.toList = '-' :: Nat.toDigits 10 (n + 1) := by
      rw [← Nat.toList_repr]
      show ("-" ++ (n + 1).repr).toList = _
      rw [String.toList_append]
      rfl
    rw [htext, List.cons_append, parseNumber, parseNat_toDigits (n + 1) hrest]
    rfl

theorem toString_head (value : ℤ) : ∃ c later, (toString value).toList = c :: later ∧
    (c = '-' ∨ c.isDigit = true) := by
  rw [Int.toString_eq_repr]
  cases value with
  | ofNat n =>
    have htext : (Int.ofNat n).repr.toList = Nat.toDigits 10 n := Nat.toList_repr
    cases hdigits : Nat.toDigits 10 n with
    | nil => exact absurd hdigits Nat.toDigits_ne_nil
    | cons d digits =>
      exact ⟨d, digits, htext.trans hdigits, .inr (Nat.isDigit_of_mem_toDigits (by decide) (by decide)
        (hdigits ▸ List.mem_cons_self))⟩
  | negSucc n =>
    refine ⟨'-', (n + 1).repr.toList, ?_, .inl rfl⟩
    show ("-" ++ (n + 1).repr).toList = _
    rw [String.toList_append]
    rfl

theorem ne_of_sign {c d : Char} (hc : c = '-' ∨ c.isDigit = true)
    (hd : d ∈ [' ', '\t', '\n', '\r', '"', '[', ']', '\x7b', '\x7d', 'n', 't', 'f']) : c ≠ d := by
  have hall : [' ', '\t', '\n', '\r', '"', '[', ']', '\x7b', '\x7d', 'n', 't', 'f'].all
      (fun d => d ≠ '-' ∧ d.isDigit = false) = true := by decide
  obtain ⟨hsign, hdigit⟩ := of_decide_eq_true (List.all_eq_true.mp hall d hd)
  rintro rfl
  rcases hc with rfl | hc
  · exact hsign rfl
  · rw [hdigit] at hc
    cases hc

/-! ## Values -/

theorem skipSpace_cons {c : Char} (h : isSpace c = false) (rest : List Char) :
    skipSpace (c :: rest) = c :: rest :=
  List.dropWhile_cons_of_neg (by simp [h])

theorem skipSpace_newline (depth : ℕ) (rest : List Char) :
    skipSpace (newline depth ++ rest) = skipSpace rest := by
  refine List.dropWhile_append_of_pos fun c hc => ?_
  rcases List.mem_cons.mp hc with rfl | hc
  · rfl
  · rw [List.eq_of_mem_replicate hc]
    rfl

theorem parseValue_bracket (fuel : ℕ) (rest : List Char) : parseValue (fuel + 1) ('[' :: rest) =
    match skipSpace rest with
    | ']' :: rest => some (.array [], rest)
    | rest => (parseValue fuel rest).bind fun item =>
      (parseItems fuel item.2).bind fun items => some (.array (item.1 :: items.1), items.2) := rfl

theorem parseValue_brace (fuel : ℕ) (rest : List Char) : parseValue (fuel + 1) ('\x7b' :: rest) =
    match skipSpace rest with
    | '\x7d' :: rest => some (.object [], rest)
    | rest => (parseMember fuel rest).bind fun member =>
      (parseMembers fuel member.2).bind fun members =>
        some (.object (member.1 :: members.1), members.2) := rfl

theorem parseItems_comma (fuel : ℕ) (rest : List Char) : parseItems (fuel + 1) (',' :: rest) =
    (parseValue fuel rest).bind fun item =>
      (parseItems fuel item.2).bind fun items => some (item.1 :: items.1, items.2) := rfl

theorem parseMembers_comma (fuel : ℕ) (rest : List Char) : parseMembers (fuel + 1) (',' :: rest) =
    (parseMember fuel rest).bind fun member =>
      (parseMembers fuel member.2).bind fun members => some (member.1 :: members.1, members.2) := rfl

theorem parseMember_quote (fuel : ℕ) (rest : List Char) : parseMember (fuel + 1) ('"' :: rest) =
    (parseString rest).bind fun name =>
      match skipSpace name.2 with
      | ':' :: rest => (parseValue fuel rest).bind fun value => some ((name.1, value.1), value.2)
      | _ => none := rfl

section

variable {text text' : List Char} (h : skipSpace text = skipSpace text')

include h

theorem parseValue_congr (fuel : ℕ) : parseValue fuel text = parseValue fuel text' := by
  cases fuel with
  | zero => rw [parseValue, parseValue]
  | succ fuel => rw [parseValue, parseValue, h]

theorem parseMember_congr (fuel : ℕ) : parseMember fuel text = parseMember fuel text' := by
  cases fuel with
  | zero => rw [parseMember, parseMember]
  | succ fuel => rw [parseMember, parseMember, h]

theorem parseItems_congr (fuel : ℕ) : parseItems fuel text = parseItems fuel text' := by
  cases fuel with
  | zero => rw [parseItems, parseItems]
  | succ fuel => rw [parseItems, parseItems, h]

theorem parseMembers_congr (fuel : ℕ) : parseMembers fuel text = parseMembers fuel text' := by
  cases fuel with
  | zero => rw [parseMembers, parseMembers]
  | succ fuel => rw [parseMembers, parseMembers, h]

end

theorem stringify_head (value : Json) (depth : ℕ) : ∃ c later, value.stringify depth = c :: later ∧
    isSpace c = false ∧ c ≠ ']' := by
  cases value with
  | null => exact ⟨_, _, rfl, rfl, by decide⟩
  | bool value => cases value <;> exact ⟨_, _, rfl, rfl, by decide⟩
  | string text => exact ⟨_, _, rfl, rfl, by decide⟩
  | array items => cases items <;> rw [stringify] <;> exact ⟨_, _, rfl, rfl, by decide⟩
  | object members => cases members <;> rw [stringify] <;> exact ⟨_, _, rfl, rfl, by decide⟩
  | number value =>
    obtain ⟨c, later, htext, hc⟩ := toString_head value
    refine ⟨c, later, htext, ?_, ne_of_sign hc (by decide)⟩
    simp [isSpace, ne_of_sign hc (show ' ' ∈ _ by decide), ne_of_sign hc (show '\t' ∈ _ by decide),
      ne_of_sign hc (show '\n' ∈ _ by decide), ne_of_sign hc (show '\r' ∈ _ by decide)]

theorem skipSpace_stringify (value : Json) (depth : ℕ) (rest : List Char) :
    skipSpace (value.stringify depth ++ rest) = value.stringify depth ++ rest := by
  obtain ⟨c, later, htext, hspace, -⟩ := stringify_head value depth
  rw [htext, List.cons_append, skipSpace_cons hspace]

mutual

def size : Json → ℕ
  | .array (item :: items) => 1 + size item + sizeItems items
  | .object (member :: members) => 1 + sizeMember member + sizeMembers members
  | _ => 1

def sizeItems : List Json → ℕ
  | [] => 1
  | item :: items => 1 + size item + sizeItems items

def sizeMember : String × Json → ℕ
  | (_, value) => 1 + size value

def sizeMembers : List (String × Json) → ℕ
  | [] => 1
  | member :: members => 1 + sizeMember member + sizeMembers members

end

theorem parseValue_number {fuel : ℕ} (value : ℤ) (hrest : NoDigit rest) :
    parseValue (fuel + 1) ((toString value).toList ++ rest) = some (.number value, rest) := by
  have hskip := skipSpace_stringify (.number value) 0 rest
  rw [stringify] at hskip
  have hparse := parseNumber_toString value hrest
  obtain ⟨c, later, htext, hc⟩ := toString_head value
  rw [htext, List.cons_append] at hskip hparse ⊢
  rw [parseValue, hskip]
  -- a value of any other kind starts with a character that no number starts with
  split <;> first
    | exact hparse
    | next heq => exact absurd (List.cons.inj heq).1 (ne_of_sign hc (by decide))

theorem noDigit_items (items : List Json) (depth depth' : ℕ) (rest : List Char) :
    NoDigit (stringifyItems depth items ++ newline depth' ++ rest) := by
  cases items with
  | nil =>
    rintro _ ⟨⟩
    rfl
  | cons item items =>
    rw [stringifyItems]
    rintro _ ⟨⟩
    rfl

theorem noDigit_members (members : List (String × Json)) (depth depth' : ℕ) (rest : List Char) :
    NoDigit (stringifyMembers depth members ++ newline depth' ++ rest) := by
  cases members with
  | nil =>
    rintro _ ⟨⟩
    rfl
  | cons member members =>
    rw [stringifyMembers]
    rintro _ ⟨⟩
    rfl

mutual

theorem parseValue_stringify (value : Json) (depth : ℕ) {n : ℕ} {rest : List Char}
    (hfuel : size value ≤ n) (hrest : NoDigit rest) :
    parseValue n (value.stringify depth ++ rest) = some (value, rest) := by
  obtain _ | n := n
  · exfalso
    unfold size at hfuel
    split at hfuel <;> omega
  match value with
  | .null => rfl
  | .bool true => rfl
  | .bool false => rfl
  | .number value => exact parseValue_number value hrest
  | .string text =>
    rw [parseValue, skipSpace_stringify, stringify, quote]
    show Option.map _ (parseString (_ ++ ['"'] ++ rest)) = _
    rw [List.append_assoc, List.singleton_append, parseString_quote]
    rfl
  | .array [] => rfl
  | .array (item :: items) =>
    rw [size] at hfuel
    obtain ⟨c, later, htext, hspace, hclose⟩ := stringify_head item (depth + 1)
    have hitem := parseValue_stringify item (depth + 1) (n := n) (by omega)
      (noDigit_items items (depth + 1) depth (']' :: rest))
    have hitems := parseItems_stringify items (depth + 1) depth (n := n) rest (by omega)
    have hsplit : (Json.array (item :: items)).stringify depth ++ rest = '[' :: (newline (depth + 1) ++
        (item.stringify (depth + 1) ++
          (stringifyItems (depth + 1) items ++ newline depth ++ ']' :: rest))) := by
      rw [stringify]
      simp only [List.cons_append, List.append_assoc, List.nil_append]
    rw [htext, List.cons_append] at hitem
    rw [hsplit, parseValue_bracket, skipSpace_newline, htext, List.cons_append,
      skipSpace_cons hspace]
    split
    next heq => exact absurd (List.cons.inj heq).1 hclose
    next =>
      rw [hitem]
      show Option.bind (parseItems n _) _ = _
      rw [hitems]
      rfl
  | .object [] => rfl
  | .object (member :: members) =>
    rw [size] at hfuel
    have hmember := parseMember_stringify member (depth + 1) (n := n) (by omega)
      (noDigit_members members (depth + 1) depth ('\x7d' :: rest))
    have hmembers := parseMembers_stringify members (depth + 1) depth (n := n) rest (by omega)
    have hsplit : (Json.object (member :: members)).stringify depth ++ rest =
        '\x7b' :: (newline (depth + 1) ++ (stringifyMember (depth + 1) member ++
          (stringifyMembers (depth + 1) members ++ newline depth ++ '\x7d' :: rest))) := by
      rw [stringify]
      simp only [List.cons_append, List.append_assoc, List.nil_append]
    obtain ⟨name, value⟩ := member
    have hquote : skipSpace (stringifyMember (depth + 1) (name, value) ++
        (stringifyMembers (depth + 1) members ++ newline depth ++ '\x7d' :: rest)) =
        stringifyMember (depth + 1) (name, value) ++
        (stringifyMembers (depth + 1) members ++ newline depth ++ '\x7d' :: rest) := rfl
    rw [hsplit, parseValue_brace, skipSpace_newline, hquote]
    refine (congrArg (Option.bind · _) hmember).trans ?_
    show Option.bind (parseMembers n _) _ = _
    rw [hmembers]
    rfl

theorem parseItems_stringify (items : List Json) (depth depth' : ℕ) {n : ℕ} (rest : List Char)
    (hfuel : sizeItems items ≤ n) :
    parseItems n (stringifyItems depth items ++ newline depth' ++ ']' :: rest) =
      some (items, rest) := by
  obtain _ | n := n
  · exfalso
    unfold sizeItems at hfuel
    split at hfuel <;> omega
  match items with
  | [] =>
    rw [stringifyItems, List.nil_append, parseItems_congr (skipSpace_newline _ _)]
    rfl
  | item :: items =>
    rw [sizeItems] at hfuel
    have hitem := parseValue_stringify item depth (n := n) (by omega)
      (noDigit_items items depth depth' (']' :: rest))
    have hitems := parseItems_stringify items depth depth' (n := n) rest (by omega)
    have hsplit : stringifyItems depth (item :: items) ++ newline depth' ++ ']' :: rest =
        ',' :: (newline depth ++ (item.stringify depth ++
          (stringifyItems depth items ++ newline depth' ++ ']' :: rest))) := by
      rw [stringifyItems]
      simp only [List.cons_append, List.append_assoc]
    rw [hsplit, parseItems_comma, parseValue_congr (skipSpace_newline _ _), hitem]
    show Option.bind (parseItems n _) _ = _
    rw [hitems]
    rfl

theorem parseMember_stringify (member : String × Json) (depth : ℕ) {n : ℕ} {rest : List Char}
    (hfuel : sizeMember member ≤ n) (hrest : NoDigit rest) :
    parseMember n (stringifyMember depth member ++ rest) = some (member, rest) := by
  obtain _ | n := n
  · exfalso
    unfold sizeMember at hfuel
    omega
  obtain ⟨name, value⟩ := member
  rw [sizeMember] at hfuel
  have hvalue := parseValue_stringify value depth (n := n) (by omega) hrest
  have hspace : parseValue n (' ' :: (value.stringify depth ++ rest)) =
      parseValue n (value.stringify depth ++ rest) := parseValue_congr (by rfl) n
  have hsplit : stringifyMember depth (name, value) ++ rest = '"' :: (name.toList.flatMap escape ++
      '"' :: ':' :: ' ' :: (value.stringify depth ++ rest)) := by
    rw [stringifyMember, quote]
    simp only [List.cons_append, List.append_assoc, List.nil_append]
  rw [hsplit, parseMember_quote, parseString_quote]
  show Option.bind (parseValue n _) _ = _
  rw [hspace, hvalue]
  rfl

theorem parseMembers_stringify (members : List (String × Json)) (depth depth' : ℕ) {n : ℕ}
    (rest : List Char) (hfuel : sizeMembers members ≤ n) :
    parseMembers n (stringifyMembers depth members ++ newline depth' ++ '\x7d' :: rest) =
      some (members, rest) := by
  obtain _ | n := n
  · exfalso
    unfold sizeMembers at hfuel
    split at hfuel <;> omega
  match members with
  | [] =>
    rw [stringifyMembers, List.nil_append, parseMembers_congr (skipSpace_newline _ _)]
    rfl
  | member :: members =>
    rw [sizeMembers] at hfuel
    have hmember := parseMember_stringify member depth (n := n) (by omega)
      (noDigit_members members depth depth' ('\x7d' :: rest))
    have hmembers := parseMembers_stringify members depth depth' (n := n) rest (by omega)
    have hsplit : stringifyMembers depth (member :: members) ++ newline depth' ++ '\x7d' :: rest =
        ',' :: (newline depth ++ (stringifyMember depth member ++
          (stringifyMembers depth members ++ newline depth' ++ '\x7d' :: rest))) := by
      rw [stringifyMembers]
      simp only [List.cons_append, List.append_assoc]
    rw [hsplit, parseMembers_comma, parseMember_congr (skipSpace_newline _ _), hmember]
    show Option.bind (parseMembers n _) _ = _
    rw [hmembers]
    rfl

end

/-! ## Texts -/

mutual

theorem size_le (value : Json) (depth : ℕ) : size value ≤ (value.stringify depth).length := by
  match value with
  | .array (item :: items) =>
    have hitem := size_le item (depth + 1)
    have hitems := sizeItems_le items (depth + 1)
    rw [size, stringify]
    simp only [List.length_append, List.length_cons, newline]
    omega
  | .object (member :: members) =>
    have hmember := sizeMember_le member (depth + 1)
    have hmembers := sizeMembers_le members (depth + 1)
    rw [size, stringify]
    simp only [List.length_append, List.length_cons, newline]
    omega
  | .null | .bool true | .bool false | .number _ | .string _ | .array [] | .object [] =>
    obtain ⟨c, later, htext, -⟩ := stringify_head _ depth
    rw [htext]
    exact Nat.le_add_left 1 _

theorem sizeItems_le (items : List Json) (depth : ℕ) :
    sizeItems items ≤ 1 + (stringifyItems depth items).length := by
  match items with
  | [] => exact Nat.le_refl 1
  | item :: items =>
    have hitem := size_le item depth
    have hitems := sizeItems_le items depth
    rw [sizeItems, stringifyItems]
    simp only [List.length_append, List.length_cons, newline]
    omega

theorem sizeMember_le (member : String × Json) (depth : ℕ) :
    sizeMember member ≤ (stringifyMember depth member).length := by
  obtain ⟨name, value⟩ := member
  have hvalue := size_le value depth
  rw [sizeMember, stringifyMember]
  simp only [List.length_append, List.length_cons, quote]
  omega

theorem sizeMembers_le (members : List (String × Json)) (depth : ℕ) :
    sizeMembers members ≤ 1 + (stringifyMembers depth members).length := by
  match members with
  | [] => exact Nat.le_refl 1
  | member :: members =>
    have hmember := sizeMember_le member depth
    have hmembers := sizeMembers_le members depth
    rw [sizeMembers, stringifyMembers]
    simp only [List.length_append, List.length_cons, newline]
    omega

end

theorem parse_stringify (value : Json) (depth : ℕ) (hrest : ∀ c ∈ rest, isSpace c) :
    parse (value.stringify depth ++ rest) = some value := by
  have hdigit : NoDigit rest := fun c hc => by
    have hall : ∀ d, isSpace d = true → d.isDigit = false := fun d hd => by
      simp only [isSpace, Bool.or_eq_true, beq_iff_eq] at hd
      rcases hd with ((rfl | rfl) | rfl) | rfl <;> rfl
    exact hall c (hrest c (List.mem_of_head? hc))
  have hsize := size_le value depth
  have hskip : skipSpace rest = [] := List.dropWhile_eq_nil_iff.mpr hrest
  rw [parse, parseValue_stringify value depth _ hdigit]
  · exact if_pos hskip
  · rw [List.length_append]
    omega

theorem stringify_injective (depth : ℕ) {value value' : Json}
    (h : value.stringify depth = value'.stringify depth) : value = value' := by
  have hleft : parse (value.stringify depth ++ []) = some value := parse_stringify value depth nofun
  have hright : parse (value'.stringify depth ++ []) = some value' := parse_stringify value' depth nofun
  rw [h, hright] at hleft
  exact (Option.some.inj hleft).symm

example : (parse "\x7b \"a\": [1, -20, \"x\\u0041\\n\"], \"b\": \x7b\x7d \x7d\n".toList).map (beq
    (.object [("a", .array [.number 1, .number (-20), .string "xA\n"]), ("b", .object [])])) =
    some true := by
  decide +kernel

end Json
