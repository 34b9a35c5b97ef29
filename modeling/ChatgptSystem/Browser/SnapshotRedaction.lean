import ChatgptSystem.Core.Json
import ChatgptSystem.Core.Text
import Mathlib.Data.List.Chain
import Mathlib.Data.List.Forall2
import Mathlib.Data.List.TakeWhile

/-!
# Redaction of page snapshots

What the browser service takes out of an accessibility snapshot before it leaves the runtime
(`browser-service.ts`): the inline value of every editable element and the lines nested below it.

* `editableAriaValue`, `namesEditableRole` — the two regular expressions;
* `redactEditableSnapshotValues` — the rewriting of a snapshot, line by line;
* `AriaHeader`, `EditableElement`, `Snapshot` — the snapshots that are rewritten;
* `redact_eq_iff` — which snapshots keep what the user has typed out of the output.
-/

namespace Browser

open Text (isWhiteSpace)

/-! ## The expressions -/

/-- The characters that `.` does not match. -/
def isLineTerminator (c : Char) : Bool :=
  c == '\n' || c == '\r' || c.toNat == 0x2028 || c.toNat == 0x2029

/-- The characters of a word in `\b`. -/
def isWordCharacter (c : Char) : Bool := c.isAlphanum || c == '_'

/-- `\s+`: what follows the white space. -/
def spaces : List Char → Option (List Char)
  | [] => none
  | c :: rest => if isWhiteSpace c then some (rest.dropWhile isWhiteSpace) else none

def EDITABLE_ROLES : List (List Char) :=
  ["textbox".toList, "searchbox".toList, "combobox".toList, "spinbutton".toList]

/-- `(?:textbox|searchbox|combobox|spinbutton)`, in upper or lower case. No role starts with
another one, so there is one way to match. -/
def editableRole (text : List Char) : Option (List Char) :=
  (EDITABLE_ROLES.find? fun role => (text.take role.length).map Char.toLower = role).map
    fun role => text.drop role.length

/-- `\s*-\s+(?:textbox|searchbox|combobox|spinbutton)`. -/
def editableStart (line : List Char) : Option (List Char) :=
  match line.dropWhile isWhiteSpace with
  | '-' :: rest => (spaces rest).bind editableRole
  | _ => none

/-- `\s+"[^"]*"`. -/
def quotedName (text : List Char) : Option (List Char) :=
  match spaces text with
  | some ('"' :: rest) =>
    match rest.dropWhile (· != '"') with
    | '"' :: after => some after
    | _ => none
  | _ => none

/-- `\s+\[[^\]]+\]`. -/
def ariaAttribute (text : List Char) : Option (List Char) :=
  match spaces text with
  | some ('[' :: c :: rest) =>
    if c = ']' then none
    else match rest.dropWhile (· != ']') with
      | ']' :: after => some after
      | _ => none
  | _ => none

/-- `(?:\s+\[[^\]]+\])*`, with at most `fuel` attributes. What follows must not start with white
space for the expression to match, so that giving an attribute back is of no use. -/
def ariaAttributes : ℕ → List Char → List Char
  | 0, text => text
  | fuel + 1, text =>
    match ariaAttribute text with
    | some rest => ariaAttributes fuel rest
    | none => text

/-- The captured group of `EDITABLE_ARIA_VALUE`: what follows it. -/
def editableHeader (line : List Char) : Option (List Char) :=
  (editableStart line).map fun rest =>
    let rest := (quotedName rest).getD rest
    ariaAttributes rest.length rest

/-- `EDITABLE_ARIA_VALUE`: the group that is captured in a line that matches. -/
def editableAriaValue (line : List Char) : Option (List Char) :=
  match editableHeader line with
  | some (':' :: value) =>
    if value.all fun c => !isLineTerminator c then some (line.take (line.length - (value.length + 1)))
    else none
  | _ => none

/-- `/^\s*-\s+(?:textbox|searchbox|combobox|spinbutton)\b/i`. -/
def namesEditableRole (line : List Char) : Bool :=
  (editableStart line).any fun rest => !rest.head?.any isWordCharacter

/-! ## The rewriting -/

/-- `line.length - line.trimStart().length`. -/
def indent (line : List Char) : ℕ := (line.takeWhile isWhiteSpace).length

/-- `line.replace(EDITABLE_ARIA_VALUE, "$1")`. -/
def sanitize (line : List Char) : List Char := (editableAriaValue line).getD line

def redactLines (editableIndent : Option ℕ) : List (List Char) → List (List Char)
  | [] => []
  | line :: lines =>
    if editableIndent.any (· < indent line) then redactLines editableIndent lines
    else
      let sanitized := sanitize line
      sanitized ::
        redactLines (if sanitized ≠ line ∨ namesEditableRole line then some (indent line) else none)
          lines

def redactEditableSnapshotValues (snapshot : List Char) : List Char :=
  ['\n'].intercalate (redactLines none (snapshot.splitOn '\n'))

/-! ## Snapshots -/

structure Gap where
  text : List Char
  spaces : ∀ c ∈ text, isWhiteSpace c = true
  nonempty : text ≠ []

structure AriaAttribute where
  gap : Gap
  body : List Char
  nonempty : body ≠ []
  closed : ']' ∉ body

/-- The line of an editable element up to its value. -/
structure AriaHeader where
  indent : List Char
  spaces : ∀ c ∈ indent, isWhiteSpace c = true
  gap : Gap
  role : List Char
  editable : role.map Char.toLower ∈ EDITABLE_ROLES
  /-- The characters between the quotes of the accessible name. -/
  name : Option (Gap × List Char)
  attributes : List AriaAttribute

def AriaAttribute.text (a : AriaAttribute) : List Char := a.gap.text ++ '[' :: a.body ++ [']']

def AriaHeader.nameText (header : AriaHeader) : List Char :=
  match header.name with
  | none => []
  | some (gap, name) => gap.text ++ '"' :: name ++ ['"']

def AriaHeader.text (header : AriaHeader) : List Char :=
  header.indent ++ '-' :: header.gap.text ++ header.role ++ header.nameText ++
    header.attributes.flatMap AriaAttribute.text

def AriaHeader.Escaped (header : AriaHeader) : Prop :=
  ∀ gap name, header.name = some (gap, name) → ∃ text : List Char, name = text.flatMap Json.escape

def AriaHeader.Plain (header : AriaHeader) : Prop :=
  ∀ gap name, header.name = some (gap, name) → '"' ∉ name

/-- An editable element of a page: its header, the inline value and the nested child lines. -/
structure EditableElement where
  header : AriaHeader
  escaped : header.Escaped
  headerLine : '\n' ∉ header.text
  value : Option (List Char)
  valueLine : ∀ text ∈ value, '\n' ∉ text
  children : List (List Char)
  nested : ∀ line ∈ children, '\n' ∉ line ∧ header.indent.length < indent line

/-- Another line. Lines nested below it stand with it if it names an editable role all the same. -/
structure OtherElement where
  line : List Char
  lineLine : '\n' ∉ line
  children : List (List Char)
  nested : ∀ child ∈ children, '\n' ∉ child ∧ indent line < indent child
  opens : children ≠ [] → namesEditableRole line = true

inductive SnapshotItem where
  | editable (element : EditableElement)
  | other (element : OtherElement)

def EditableElement.line (element : EditableElement) : List Char :=
  element.header.text ++ element.value.elim [] (':' :: ·)

namespace SnapshotItem

def line : SnapshotItem → List Char
  | .editable element => element.line
  | .other element => element.line

def children : SnapshotItem → List (List Char)
  | .editable element => element.children
  | .other element => element.children

/-- Two elements are the same up to the value and the child lines of an editable one. -/
def SameSkeleton : SnapshotItem → SnapshotItem → Prop
  | .editable a, .editable b => a.header = b.header
  | .other a, .other b => a = b
  | _, _ => False

def Recognised : SnapshotItem → Prop
  | .editable element => element.value.isSome →
    ∃ captured, editableAriaValue element.line = some captured ∧
      captured.length ≤ element.header.text.length
  | .other _ => True

end SnapshotItem

/-- A page snapshot. A line that is nested below an editable element is one of its child lines. -/
structure Snapshot where
  items : List SnapshotItem
  nonempty : items ≠ []
  ordered : items.IsChain fun a b => namesEditableRole a.line = true → indent b.line ≤ indent a.line

namespace Snapshot

def text (snapshot : Snapshot) : List Char :=
  ['\n'].intercalate (snapshot.items.flatMap fun item => item.line :: item.children)

/-- The snapshots differ in the values and the child lines of editable elements only. -/
def SameSkeleton (a b : Snapshot) : Prop := List.Forall₂ SnapshotItem.SameSkeleton a.items b.items

def Recognised (snapshot : Snapshot) : Prop := ∀ item ∈ snapshot.items, item.Recognised

end Snapshot

/-! ## What the expressions match -/

section Runs

variable {p : Char → Bool} {run rest text : List Char}

theorem dropWhile_run (hrun : ∀ c ∈ run, p c = true) (hrest : ∀ c ∈ rest.head?, p c = false) :
    (run ++ rest).dropWhile p = rest := by
  rw [List.dropWhile_append_of_pos hrun]
  cases rest with
  | nil => rfl
  | cons c rest => rw [List.dropWhile_cons_of_neg (by simp [hrest c rfl])]

theorem exists_run (p : Char → Bool) (text : List Char) : ∃ run, text = run ++ text.dropWhile p ∧
    (∀ c ∈ run, p c = true) ∧ ∀ c ∈ (text.dropWhile p).head?, p c = false := by
  refine ⟨text.takeWhile p, List.takeWhile_append_dropWhile.symm,
    fun c hc => List.mem_takeWhile_imp hc, fun c hc => ?_⟩
  have := List.head?_dropWhile_not p text
  rw [Option.mem_def.mp hc] at this
  simpa using this

end Runs

section Parts

variable {text rest : List Char}

theorem spaces_gap (gap : Gap) (hrest : ∀ c ∈ rest.head?, isWhiteSpace c = false) :
    spaces (gap.text ++ rest) = some rest := by
  obtain ⟨_ | ⟨c, run⟩, hspaces, hne⟩ := gap
  · exact absurd rfl hne
  · rw [List.cons_append, spaces, if_pos (hspaces c List.mem_cons_self),
      dropWhile_run (fun c hc => hspaces c (List.mem_cons_of_mem _ hc)) hrest]

theorem exists_gap_of_spaces (h : spaces text = some rest) : ∃ gap : Gap, text = gap.text ++ rest := by
  match text with
  | c :: later =>
    rw [spaces] at h
    split at h
    next hc =>
      obtain rfl := Option.some.inj h
      obtain ⟨run, hlater, hrun, -⟩ := exists_run isWhiteSpace later
      refine ⟨⟨c :: run, ?_, List.cons_ne_nil _ _⟩, by rw [List.cons_append, ← hlater]⟩
      exact List.forall_mem_cons.mpr ⟨hc, hrun⟩
    next => cases h

theorem spaces_eq_none (htext : ∀ c ∈ text.head?, isWhiteSpace c = false) : spaces text = none := by
  cases text with
  | nil => rfl
  | cons c rest => rw [spaces, if_neg (by simp [htext c rfl])]

theorem editableRole_append {role : List Char} (hrole : role.map Char.toLower ∈ EDITABLE_ROLES) :
    editableRole (role ++ rest) = some rest := by
  have hunique : ∀ a ∈ EDITABLE_ROLES, ∀ b ∈ EDITABLE_ROLES, a <+: b → a = b := by decide
  have hlength : role.length = (role.map Char.toLower).length := (List.length_map _).symm
  have hfind : EDITABLE_ROLES.find?
      (fun r => ((role ++ rest).take r.length).map Char.toLower = r) = some (role.map Char.toLower) := by
    obtain ⟨found, hfound⟩ : ∃ found, EDITABLE_ROLES.find?
        (fun r => ((role ++ rest).take r.length).map Char.toLower = r) = some found := by
      refine Option.isSome_iff_exists.mp (List.find?_isSome.mpr ⟨_, hrole, ?_⟩)
      rw [← hlength, List.take_left]
      exact decide_eq_true rfl
    -- the role that is found is another beginning of the same text
    have htaken : ((role ++ rest).take found.length).map Char.toLower = found := by
      simpa using List.find?_some hfound
    have hfoundPrefix : found <+: (role ++ rest).map Char.toLower := by
      rw [← htaken, List.map_take]
      exact List.take_prefix _ _
    have hrolePrefix : role.map Char.toLower <+: (role ++ rest).map Char.toLower := by
      rw [List.map_append]
      exact List.prefix_append _ _
    have hmem := List.mem_of_find?_eq_some hfound
    rw [hfound]
    rcases List.prefix_or_prefix_of_prefix hfoundPrefix hrolePrefix with hle | hle
    · rw [hunique _ hmem _ hrole hle]
    · rw [hunique _ hrole _ hmem hle]
  rw [editableRole, hfind, Option.map_some, List.length_map, List.drop_left]

theorem exists_role_of_editableRole (h : editableRole text = some rest) :
    ∃ role : List Char, role.map Char.toLower ∈ EDITABLE_ROLES ∧ text = role ++ rest := by
  obtain ⟨role, hfind, rfl⟩ := Option.map_eq_some_iff.mp h
  have htaken : (text.take role.length).map Char.toLower = role := by
    simpa using List.find?_some hfind
  refine ⟨text.take role.length, ?_, (List.take_append_drop _ _).symm⟩
  rw [htaken]
  exact List.mem_of_find?_eq_some hfind

theorem quotedName_append (gap : Gap) (rest : List Char) {name : List Char} (hname : '"' ∉ name) :
    quotedName (gap.text ++ '"' :: name ++ '"' :: rest) = some rest := by
  have hspaces : spaces (gap.text ++ '"' :: (name ++ '"' :: rest)) = some ('"' :: (name ++ '"' :: rest)) :=
    spaces_gap gap (by simp [isWhiteSpace])
  have hdrop : (name ++ '"' :: rest).dropWhile (· != '"') = '"' :: rest :=
    dropWhile_run (fun c hc => by simpa using fun heq : c = '"' => hname (heq ▸ hc)) (by simp)
  rw [quotedName, List.append_assoc, List.cons_append, hspaces]
  simp only [hdrop]

theorem exists_name_of_quotedName (h : quotedName text = some rest) :
    ∃ (gap : Gap) (name : List Char), '"' ∉ name ∧ text = gap.text ++ '"' :: name ++ '"' :: rest := by
  unfold quotedName at h
  split at h
  next later hspaces =>
    split at h
    next after hdrop =>
      obtain rfl := Option.some.inj h
      obtain ⟨gap, rfl⟩ := exists_gap_of_spaces hspaces
      obtain ⟨name, hlater, hname, -⟩ := exists_run (· != '"') later
      refine ⟨gap, name, fun hmem => by simpa using hname _ hmem, ?_⟩
      rw [hdrop] at hlater
      rw [hlater, List.append_assoc, List.cons_append]
    next => cases h
  next => cases h

theorem ariaAttribute_append (a : AriaAttribute) : ariaAttribute (a.text ++ rest) = some rest := by
  obtain ⟨gap, _ | ⟨c, body⟩, hne, hclosed⟩ := a
  · exact absurd rfl hne
  obtain ⟨hc, hbody⟩ := not_or.mp fun h => hclosed (List.mem_cons.mpr h)
  have hspaces : spaces (gap.text ++ '[' :: (c :: body ++ ']' :: rest)) =
      some ('[' :: (c :: body ++ ']' :: rest)) := spaces_gap gap (by simp [isWhiteSpace])
  have hdrop : (body ++ ']' :: rest).dropWhile (· != ']') = ']' :: rest :=
    dropWhile_run (fun d hd => by simpa using fun heq : d = ']' => hbody (heq ▸ hd)) (by simp)
  have htext : (AriaAttribute.mk gap (c :: body) hne hclosed).text ++ rest =
      gap.text ++ '[' :: (c :: body ++ ']' :: rest) := by simp [AriaAttribute.text]
  rw [ariaAttribute, htext, hspaces]
  simp only [List.cons_append, if_neg (Ne.symm hc), hdrop]

theorem exists_attribute_of_ariaAttribute (h : ariaAttribute text = some rest) :
    ∃ a : AriaAttribute, text = a.text ++ rest := by
  unfold ariaAttribute at h
  split at h
  next c later hspaces =>
    split at h
    next => cases h
    next hc =>
      split at h
      next after hdrop =>
        obtain rfl := Option.some.inj h
        obtain ⟨gap, rfl⟩ := exists_gap_of_spaces hspaces
        obtain ⟨body, hlater, hbody, -⟩ := exists_run (· != ']') later
        refine ⟨⟨gap, c :: body, List.cons_ne_nil _ _, ?_⟩, ?_⟩
        · rintro (_ | ⟨_, hmem⟩)
          · exact hc rfl
          · simpa using hbody _ hmem
        · rw [hdrop] at hlater
          simp [AriaAttribute.text, ← hlater]
      next => cases h
  next => cases h

theorem ariaAttributes_append (attributes : List AriaAttribute) (rest : List Char) {fuel : ℕ}
    (hfuel : attributes.length ≤ fuel) :
    ariaAttributes fuel (attributes.flatMap AriaAttribute.text ++ ':' :: rest) = ':' :: rest := by
  induction attributes generalizing fuel with
  | nil =>
    cases fuel with
    | zero => rfl
    | succ fuel =>
      have hnone : ariaAttribute (':' :: rest) = none := by
        rw [ariaAttribute, spaces_eq_none (by simp [isWhiteSpace])]
      rw [List.flatMap_nil, List.nil_append, ariaAttributes]
      simp only [hnone]
  | cons a attributes ih =>
    cases fuel with
    | zero => cases hfuel
    | succ fuel =>
      rw [List.flatMap_cons, List.append_assoc, ariaAttributes]
      simp only [ariaAttribute_append]
      exact ih (Nat.le_of_succ_le_succ hfuel)

theorem exists_attributes_of_ariaAttributes {fuel : ℕ} (h : ariaAttributes fuel text = rest) :
    ∃ attributes : List AriaAttribute, text = attributes.flatMap AriaAttribute.text ++ rest := by
  induction fuel generalizing text with
  | zero => exact ⟨[], h⟩
  | succ fuel ih =>
    rw [ariaAttributes] at h
    split at h
    next later hlater =>
      obtain ⟨a, rfl⟩ := exists_attribute_of_ariaAttribute hlater
      obtain ⟨attributes, rfl⟩ := ih h
      exact ⟨a :: attributes, by simp⟩
    next => exact ⟨[], h⟩

end Parts

/-! ## Headers -/

section Headers

variable {header header' : AriaHeader} {line value value' : List Char}

theorem length_le_length_flatMap_text (attributes : List AriaAttribute) :
    attributes.length ≤ (attributes.flatMap AriaAttribute.text).length := by
  induction attributes with
  | nil => exact Nat.zero_le _
  | cons a attributes ih =>
    rw [List.flatMap_cons, List.length_append, List.length_cons, AriaAttribute.text]
    simp only [List.length_append, List.length_cons]
    omega

theorem AriaHeader.text_append (header : AriaHeader) (rest : List Char) :
    header.text ++ rest = header.indent ++ '-' :: (header.gap.text ++ (header.role ++
      (header.nameText ++ (header.attributes.flatMap AriaAttribute.text ++ rest)))) := by
  simp [AriaHeader.text]

theorem toLower_of_isWhiteSpace {c : Char} (h : isWhiteSpace c = true) : c.toLower = c := by
  unfold Char.toLower
  split
  next hupper =>
    have hleast : 65 ≤ c.toNat := hupper.1
    have hmost : c.toNat ≤ 90 := hupper.2
    simp [isWhiteSpace] at h
    omega
  next => rfl

theorem head_role (header : AriaHeader) (rest : List Char) :
    ∀ c ∈ (header.role ++ rest).head?, isWhiteSpace c = false := by
  have hletter : ∀ role ∈ EDITABLE_ROLES, role ≠ [] ∧ ∀ c ∈ role, isWhiteSpace c = false := by decide
  obtain ⟨hne, hsolid⟩ := hletter _ header.editable
  cases hrole : header.role with
  | nil => simp [hrole] at hne
  | cons c role =>
    rintro _ ⟨⟩
    have hlower := hsolid c.toLower (by simp [hrole])
    by_contra hspace
    rw [Bool.not_eq_false] at hspace
    rw [toLower_of_isWhiteSpace hspace, hspace] at hlower
    cases hlower

theorem editableStart_header (header : AriaHeader) (rest : List Char) :
    editableStart (header.text ++ rest) =
      some (header.nameText ++ (header.attributes.flatMap AriaAttribute.text ++ rest)) := by
  rw [editableStart, header.text_append, dropWhile_run header.spaces (by simp [isWhiteSpace])]
  simp only [spaces_gap header.gap (head_role header _), Option.bind_some,
    editableRole_append header.editable]

theorem quotedName_attributes (attributes : List AriaAttribute) (value : List Char) :
    quotedName (attributes.flatMap AriaAttribute.text ++ ':' :: value) = none := by
  cases attributes with
  | nil => rw [List.flatMap_nil, List.nil_append, quotedName, spaces_eq_none (by simp [isWhiteSpace])]
  | cons a attributes =>
    have htext : (a :: attributes).flatMap AriaAttribute.text ++ ':' :: value = a.gap.text ++
        '[' :: (a.body ++ ']' :: (attributes.flatMap AriaAttribute.text ++ ':' :: value)) := by
      simp [AriaAttribute.text]
    rw [quotedName, htext, spaces_gap a.gap (by simp [isWhiteSpace])]
    split
    next h => simp at h
    next => rfl

theorem editableHeader_eq_some_iff : editableHeader line = some (':' :: value) ↔
    ∃ header : AriaHeader, header.Plain ∧ line = header.text ++ ':' :: value := by
  constructor
  · intro h
    obtain ⟨start, hstart, hend⟩ := Option.map_eq_some_iff.mp h
    unfold editableStart at hstart
    split at hstart
    next dash hdash =>
      obtain ⟨indent, hline, hindent, -⟩ := exists_run isWhiteSpace line
      obtain ⟨later, hlater, hrole⟩ := Option.bind_eq_some_iff.mp hstart
      obtain ⟨gap, rfl⟩ := exists_gap_of_spaces hlater
      obtain ⟨role, hmem, rfl⟩ := exists_role_of_editableRole hrole
      rw [hdash] at hline
      cases hname : quotedName start with
      | none =>
        rw [hname] at hend
        obtain ⟨attributes, rfl⟩ := exists_attributes_of_ariaAttributes hend
        exact ⟨⟨indent, hindent, gap, role, hmem, none, attributes⟩, nofun,
          by rw [hline]; simp [AriaHeader.text, AriaHeader.nameText]⟩
      | some after =>
        rw [hname] at hend
        obtain ⟨nameGap, name, hquote, rfl⟩ := exists_name_of_quotedName hname
        obtain ⟨attributes, rfl⟩ := exists_attributes_of_ariaAttributes hend
        refine ⟨⟨indent, hindent, gap, role, hmem, some (nameGap, name), attributes⟩, ?_,
          by rw [hline]; simp [AriaHeader.text, AriaHeader.nameText]⟩
        rintro _ _ ⟨⟩
        exact hquote
    next => cases hstart
  · rintro ⟨header, hplain, rfl⟩
    have hfuel : header.attributes.length ≤
        (header.attributes.flatMap AriaAttribute.text ++ ':' :: value).length :=
      (length_le_length_flatMap_text _).trans (by simp)
    have hattributes := ariaAttributes_append header.attributes value hfuel
    rw [editableHeader, editableStart_header, Option.map_some]
    cases hname : header.name with
    | none =>
      simp only [AriaHeader.nameText, hname, List.nil_append, quotedName_attributes, Option.getD_none,
        hattributes]
    | some named =>
      obtain ⟨gap, name⟩ := named
      have hquoted := quotedName_append gap
        (header.attributes.flatMap AriaAttribute.text ++ ':' :: value) (hplain _ _ hname)
      have htext : gap.text ++ '"' :: name ++ ['"'] ++ (header.attributes.flatMap AriaAttribute.text ++
          ':' :: value) = gap.text ++ '"' :: name ++ '"' ::
            (header.attributes.flatMap AriaAttribute.text ++ ':' :: value) := by simp
      simp only [AriaHeader.nameText, hname, htext, hquoted, Option.getD_some, hattributes]

theorem editableAriaValue_eq_some_iff {captured : List Char} :
    editableAriaValue line = some captured ↔ ∃ (header : AriaHeader) (value : List Char),
      header.Plain ∧ captured = header.text ∧ line = header.text ++ ':' :: value ∧
        ∀ c ∈ value, isLineTerminator c = false := by
  constructor
  · intro h
    unfold editableAriaValue at h
    split at h
    next value hheader =>
      obtain ⟨header, hplain, rfl⟩ := editableHeader_eq_some_iff.mp hheader
      split at h
      next hvalue =>
        refine ⟨header, value, hplain, ?_, rfl, by simpa using hvalue⟩
        rw [← Option.some.inj h]
        simp
      next => cases h
    next => cases h
  · rintro ⟨header, value, hplain, rfl, rfl, hvalue⟩
    have hall : (value.all fun c => !isLineTerminator c) = true := by simpa using hvalue
    rw [editableAriaValue, editableHeader_eq_some_iff.mpr ⟨header, hplain, rfl⟩]
    simp [hall]

theorem value_unique (hplain : header.Plain) (hplain' : header'.Plain)
    (h : header.text ++ ':' :: value = header'.text ++ ':' :: value') : value = value' := by
  have hone : editableHeader (header.text ++ ':' :: value) = some (':' :: value) :=
    editableHeader_eq_some_iff.mpr ⟨header, hplain, rfl⟩
  rw [h, editableHeader_eq_some_iff.mpr ⟨header', hplain', rfl⟩] at hone
  simpa using hone.symm

theorem sanitize_isPrefix (line : List Char) : sanitize line <+: line := by
  cases h : editableAriaValue line with
  | none => rw [sanitize, h, Option.getD_none]
  | some captured =>
    obtain ⟨header, value, -, rfl, rfl, -⟩ := editableAriaValue_eq_some_iff.mp h
    rw [sanitize, h, Option.getD_some]
    exact List.prefix_append _ _

theorem sanitize_of_captured {text captured : List Char}
    (h : editableAriaValue (text ++ ':' :: value) = some captured)
    (hlength : captured.length ≤ text.length) :
    sanitize (text ++ ':' :: value) = sanitize text := by
  obtain ⟨header, later, hplain, rfl, hline, hlater⟩ := editableAriaValue_eq_some_iff.mp h
  have htext : text.take header.text.length = header.text := by
    have := congrArg (List.take header.text.length) hline
    rwa [List.take_append_of_le_length hlength, List.take_left] at this
  have hsplit : text = header.text ++ text.drop header.text.length := by
    conv_lhs => rw [← List.take_append_drop header.text.length text, htext]
  rw [sanitize, h, Option.getD_some]
  cases hrest : text.drop header.text.length with
  | nil =>
    -- the whole header is captured: nothing of it is left for a value
    rw [hrest, List.append_nil] at hsplit
    cases hheader : editableAriaValue text with
    | none => rw [sanitize, hheader, Option.getD_none, hsplit]
    | some short =>
      obtain ⟨header', value', hplain', rfl, hshort, -⟩ := editableAriaValue_eq_some_iff.mp hheader
      have hboth : header'.text ++ ':' :: (value' ++ ':' :: value) = header.text ++ ':' :: value := by
        rw [← hsplit, hshort, List.append_assoc, List.cons_append]
      have := congrArg List.length (value_unique hplain' hplain hboth)
      simp at this
      omega
  | cons c rest =>
    have hcolon : c :: (rest ++ ':' :: value) = ':' :: later := by
      rw [hsplit, hrest, List.append_assoc] at hline
      exact List.append_cancel_left hline
    obtain ⟨rfl, rfl⟩ := List.cons.inj hcolon
    have hshort : editableAriaValue text = some header.text :=
      editableAriaValue_eq_some_iff.mpr ⟨header, rest, hplain, rfl, by rw [hsplit, hrest],
        fun c hc => hlater c (List.mem_append_left _ hc)⟩
    rw [sanitize, hshort, Option.getD_some]

theorem sanitize_of_not_captured {text : List Char}
    (h : ¬ ∃ captured, editableAriaValue (text ++ ':' :: value) = some captured ∧
      captured.length ≤ text.length) :
    sanitize (text ++ ':' :: value) ≠ sanitize text := by
  intro heq
  have hheader := (sanitize_isPrefix text).length_le
  rw [← heq] at hheader
  cases hline : editableAriaValue (text ++ ':' :: value) with
  | none =>
    rw [sanitize, hline, Option.getD_none, List.length_append, List.length_cons] at hheader
    omega
  | some captured =>
    rw [sanitize, hline, Option.getD_some] at hheader
    exact h ⟨captured, hline, hheader⟩

theorem isWordCharacter_of_isWhiteSpace {c : Char} (h : isWhiteSpace c = true) :
    isWordCharacter c = false := by
  simp only [isWhiteSpace, Bool.or_eq_true, Bool.and_eq_true, decide_eq_true_eq, beq_iff_eq] at h
  simp only [isWordCharacter, Char.isAlphanum, Text.isAlpha_eq, Char.isDigit, ge_iff_le,
    UInt32.le_iff_toNat_le, Bool.or_eq_false_iff, Bool.and_eq_false_iff, decide_eq_false_iff_not,
    beq_eq_false_iff_ne]
  have hval : c.val.toNat = c.toNat := rfl
  have hunderscore : c = '_' → c.toNat = 95 := fun heq => heq ▸ rfl
  simp only [Char.reduceVal, UInt32.reduceToNat, hval]
  refine ⟨⟨⟨?_, ?_⟩, ?_⟩, fun heq => ?_⟩
  · omega
  · omega
  · omega
  · have := hunderscore heq
    omega

theorem head_gap (gap : Gap) (rest : List Char) :
    (gap.text ++ rest).head?.any isWordCharacter = false := by
  obtain ⟨_ | ⟨c, run⟩, hspaces, hne⟩ := gap
  · exact absurd rfl hne
  · exact isWordCharacter_of_isWhiteSpace (hspaces c List.mem_cons_self)

theorem namesEditableRole_header (header : AriaHeader) (rest : List Char)
    (hrest : rest.head?.any isWordCharacter = false) :
    namesEditableRole (header.text ++ rest) = true := by
  rw [namesEditableRole, editableStart_header, Option.any_some, Bool.not_eq_true', AriaHeader.nameText]
  split
  next =>
    cases header.attributes with
    | cons a attributes =>
      simp only [List.nil_append, List.flatMap_cons, AriaAttribute.text, List.append_assoc]
      exact head_gap a.gap _
    | nil => exact hrest
  next gap name _ =>
    simp only [List.append_assoc]
    exact head_gap gap _

theorem indent_header (header : AriaHeader) (rest : List Char) :
    indent (header.text ++ rest) = header.indent.length := by
  rw [indent, header.text_append, List.takeWhile_append_of_pos header.spaces,
    List.takeWhile_cons_of_neg (by simp [isWhiteSpace]), List.append_nil]

theorem sanitize_of_not_editable (h : namesEditableRole line = false) : sanitize line = line := by
  cases hline : editableAriaValue line with
  | none => rw [sanitize, hline, Option.getD_none]
  | some captured =>
    obtain ⟨header, value, -, rfl, rfl, -⟩ := editableAriaValue_eq_some_iff.mp hline
    rw [namesEditableRole_header header _ (by simp [isWordCharacter])] at h
    cases h

end Headers

/-! ## Whole snapshots -/

namespace SnapshotItem

variable {item item' : SnapshotItem}

theorem line_editable (element : EditableElement) :
    ∃ rest, element.line = element.header.text ++ rest ∧ rest.head?.any isWordCharacter = false := by
  cases hvalue : element.value with
  | none => exact ⟨[], by rw [EditableElement.line, hvalue]; rfl, rfl⟩
  | some value => exact ⟨':' :: value, by rw [EditableElement.line, hvalue]; rfl, by simp [isWordCharacter]⟩

theorem namesEditableRole_editable (element : EditableElement) :
    namesEditableRole (SnapshotItem.editable element).line = true := by
  obtain ⟨rest, hline, hrest⟩ := line_editable element
  rw [line, hline, namesEditableRole_header _ _ hrest]

theorem indent_editable (element : EditableElement) :
    indent (SnapshotItem.editable element).line = element.header.indent.length := by
  obtain ⟨rest, hline, -⟩ := line_editable element
  rw [line, hline, indent_header]

theorem notMem_line (item : SnapshotItem) : '\n' ∉ item.line := by
  cases item with
  | other element => exact element.lineLine
  | editable element =>
    rw [line, EditableElement.line]
    cases hvalue : element.value with
    | none => simpa using element.headerLine
    | some value => simpa using ⟨element.headerLine, element.valueLine value hvalue⟩

theorem notMem_children (item : SnapshotItem) : ∀ child ∈ item.children, '\n' ∉ child := by
  cases item with
  | other element => exact fun child hchild => (element.nested child hchild).1
  | editable element => exact fun child hchild => (element.nested child hchild).1

theorem indent_lt_children (item : SnapshotItem) :
    ∀ child ∈ item.children, indent item.line < indent child := by
  cases item with
  | other element => exact fun child hchild => (element.nested child hchild).2
  | editable element =>
    rw [indent_editable]
    exact fun child hchild => (element.nested child hchild).2

theorem children_of_not_editable (h : namesEditableRole item.line = false) : item.children = [] := by
  cases item with
  | other element =>
    by_contra hne
    have := element.opens hne
    rw [line] at h
    rw [h] at this
    cases this
  | editable element =>
    rw [namesEditableRole_editable] at h
    cases h

end SnapshotItem

theorem redactLines_children {bound : ℕ} {children lines : List (List Char)}
    (h : ∀ child ∈ children, bound < indent child) :
    redactLines (some bound) (children ++ lines) = redactLines (some bound) lines := by
  induction children with
  | nil => rfl
  | cons child children ih =>
    obtain ⟨hchild, hlater⟩ := List.forall_mem_cons.mp h
    rw [List.cons_append, redactLines, if_pos (by simpa using hchild), ih hlater]

theorem redactLines_items {items : List SnapshotItem} {editableIndent : Option ℕ}
    (hordered : items.IsChain fun a b => namesEditableRole a.line = true → indent b.line ≤ indent a.line)
    (hopen : ∀ bound ∈ editableIndent, ∀ item ∈ items.head?, indent item.line ≤ bound) :
    redactLines editableIndent (items.flatMap fun item => item.line :: item.children) =
      items.map fun item => sanitize item.line := by
  induction items generalizing editableIndent with
  | nil => rfl
  | cons item items ih =>
    have hshown : ¬ editableIndent.any (· < indent item.line) = true := by
      cases editableIndent with
      | none => exact Bool.false_ne_true
      | some bound => simpa using hopen bound rfl item rfl
    rw [List.flatMap_cons, List.cons_append, redactLines, if_neg hshown, List.map_cons]
    dsimp only
    congr 1
    cases hnames : namesEditableRole item.line with
    | true =>
      rw [if_pos (.inr rfl), redactLines_children item.indent_lt_children]
      refine ih hordered.tail fun bound hbound next hnext => ?_
      obtain rfl := Option.mem_some.mp hbound
      exact (List.isChain_cons.mp hordered).1 next hnext hnames
    | false =>
      rw [if_neg (by simp [sanitize_of_not_editable hnames]),
        SnapshotItem.children_of_not_editable hnames, List.nil_append]
      exact ih hordered.tail (by simp)

theorem Snapshot.redact_text (snapshot : Snapshot) : redactEditableSnapshotValues snapshot.text =
    ['\n'].intercalate (snapshot.items.map fun item => sanitize item.line) := by
  have hlines : ∀ line ∈ snapshot.items.flatMap fun item => item.line :: item.children,
      '\n' ∉ line := by
    intro line hline
    obtain ⟨item, -, hmem⟩ := List.mem_flatMap.mp hline
    rcases List.mem_cons.mp hmem with rfl | hchild
    · exact item.notMem_line
    · exact item.notMem_children line hchild
  have hne : (snapshot.items.flatMap fun item => item.line :: item.children) ≠ [] := by
    obtain ⟨item, items, hitems⟩ := List.exists_cons_of_ne_nil snapshot.nonempty
    simp [hitems]
  rw [redactEditableSnapshotValues, Snapshot.text, List.splitOn_intercalate _ hlines hne,
    redactLines_items snapshot.ordered (by simp)]

theorem Snapshot.redact_eq_iff_map {a b : Snapshot} :
    redactEditableSnapshotValues a.text = redactEditableSnapshotValues b.text ↔
      (a.items.map fun item => sanitize item.line) = b.items.map fun item => sanitize item.line := by
  have hlines : ∀ (s : Snapshot), ∀ line ∈ s.items.map fun item => sanitize item.line, '\n' ∉ line := by
    intro s line hline
    obtain ⟨item, -, rfl⟩ := List.mem_map.mp hline
    exact fun hmem => item.notMem_line ((sanitize_isPrefix _).subset hmem)
  have hne : ∀ s : Snapshot, (s.items.map fun item => sanitize item.line) ≠ [] := fun s =>
    by simpa using s.nonempty
  rw [a.redact_text, b.redact_text]
  refine ⟨fun h => ?_, congrArg _⟩
  rw [← List.splitOn_intercalate _ (hlines a) (hne a), h, List.splitOn_intercalate _ (hlines b) (hne b)]

namespace SnapshotItem

variable {a b item : SnapshotItem}

def blank : SnapshotItem → SnapshotItem
  | .editable element =>
    .editable { element with value := none, valueLine := nofun, children := [], nested := nofun }
  | .other element => .other element

theorem indent_blank (item : SnapshotItem) : indent item.blank.line = indent item.line := by
  cases item with
  | other element => rfl
  | editable element => rw [blank, indent_editable, indent_editable]

theorem namesEditableRole_blank (item : SnapshotItem) :
    namesEditableRole item.blank.line = namesEditableRole item.line := by
  cases item with
  | other element => rfl
  | editable element => rw [blank, namesEditableRole_editable, namesEditableRole_editable]

theorem line_blank (element : EditableElement) :
    (SnapshotItem.editable element).blank.line = element.header.text :=
  List.append_nil _

theorem blank_eq_of_sameSkeleton (h : a.SameSkeleton b) : a.blank.line = b.blank.line := by
  cases a with
  | editable a =>
    cases b with
    | editable b =>
      have hheader : a.header = b.header := h
      rw [line_blank, line_blank, hheader]
    | other b => exact h.elim
  | other a =>
    cases b with
    | editable b => exact h.elim
    | other b =>
      have hother : a = b := h
      rw [hother]

theorem sameSkeleton_blank (item : SnapshotItem) : item.SameSkeleton item.blank := by
  cases item <;> rfl

theorem recognised_blank (item : SnapshotItem) : item.blank.Recognised := by
  cases item with
  | editable element => exact nofun
  | other element => trivial

theorem sanitize_blank_iff : sanitize item.line = sanitize item.blank.line ↔ item.Recognised := by
  cases item with
  | other element => exact ⟨fun _ => trivial, fun _ => rfl⟩
  | editable element =>
    rw [line_blank]
    cases hvalue : element.value with
    | none =>
      have hline : (SnapshotItem.editable element).line = element.header.text := by
        rw [line, EditableElement.line, hvalue]
        exact List.append_nil _
      rw [hline, Recognised, hvalue]
      exact ⟨fun _ => nofun, fun _ => rfl⟩
    | some value =>
      have hline : element.line = element.header.text ++ ':' :: value := by
        rw [EditableElement.line, hvalue, Option.elim_some]
      rw [line, Recognised, hline, hvalue]
      constructor
      · intro h _
        by_contra hcaptured
        exact sanitize_of_not_captured hcaptured h
      · intro h
        obtain ⟨captured, hcaptured, hlength⟩ := h rfl
        exact sanitize_of_captured hcaptured hlength

end SnapshotItem

namespace Snapshot

def blank (snapshot : Snapshot) : Snapshot where
  items := snapshot.items.map SnapshotItem.blank
  nonempty := by simpa using snapshot.nonempty
  ordered := by
    refine (List.isChain_map _).mpr (snapshot.ordered.imp fun a b h hnames => ?_)
    rw [SnapshotItem.namesEditableRole_blank] at hnames
    rw [SnapshotItem.indent_blank, SnapshotItem.indent_blank]
    exact h hnames

theorem sameSkeleton_blank (snapshot : Snapshot) : snapshot.SameSkeleton snapshot.blank :=
  List.forall₂_map_right_iff.mpr (List.forall₂_same.mpr fun item _ => item.sameSkeleton_blank)

theorem recognised_blank (snapshot : Snapshot) : snapshot.blank.Recognised := by
  intro item hitem
  obtain ⟨original, -, rfl⟩ := List.mem_map.mp hitem
  exact original.recognised_blank

theorem blank_text_eq_of_sameSkeleton {a b : Snapshot} (h : a.SameSkeleton b) :
    (a.blank.items.map fun item => sanitize item.line) =
      b.blank.items.map fun item => sanitize item.line := by
  rw [blank, blank, List.map_map, List.map_map]
  refine List.forall₂_eq_eq_eq ▸ List.forall₂_map_left_iff.mpr (List.forall₂_map_right_iff.mpr ?_)
  exact h.imp fun _ _ hitem => congrArg sanitize (SnapshotItem.blank_eq_of_sameSkeleton hitem)

theorem sanitize_blank_iff {snapshot : Snapshot} :
    (snapshot.items.map fun item => sanitize item.line) =
      (snapshot.blank.items.map fun item => sanitize item.line) ↔ snapshot.Recognised := by
  rw [blank, List.map_map, List.map_inj_left]
  exact forall₂_congr fun _ _ => SnapshotItem.sanitize_blank_iff

end Snapshot

/-- `- textbox "\"PIN\""`. -/
def quotedHeader : AriaHeader where
  indent := []
  spaces := nofun
  gap := ⟨[' '], by decide, by decide⟩
  role := "textbox".toList
  editable := by decide
  name := some (⟨[' '], by decide, by decide⟩, "\\\"PIN\\\"".toList)
  attributes := []

def oneField (value : List Char) (h : '\n' ∉ value) : Snapshot where
  items := [.editable {
    header := quotedHeader
    escaped := by
      rintro _ _ ⟨⟩
      exact ⟨"\"PIN\"".toList, rfl⟩
    headerLine := by decide
    value := some value
    valueLine := by
      rintro _ ⟨⟩
      exact h
    children := []
    nested := nofun }]
  nonempty := List.cons_ne_nil _ _
  ordered := .singleton _

end Browser
