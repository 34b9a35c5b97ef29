import ChatgptSystem.Native.ActionParsing

/-!
# The target parser of the host service

`ComputerHostService` has a parser of targets of its own, for the requests `resolve_target` and
`resolve_targets`.

* `HostService.parseTarget` — the parser;
* `HostService.parseTarget_eq` — it is the parser of the action service;
* `HostService.hasEmptyObjectParams` — the check of `observe`, which the host answers itself.
-/

namespace Computer

namespace HostService

def maxStructuredTextCharacters : ℕ := 4096

section Parsers

variable (breaking : CharacterBreaking)

def isValidTargetString (value : String) : Bool :=
  !value.isEmpty && breaking.count value ≤ maxStructuredTextCharacters

def required (object : Members) (key : String) : Parsed JSONValue :=
  Parsed.ofOption (object.lookup key)

def parseRequiredString (object : Members) (key : String) : Parsed String := do
  let raw ← required object key
  raw.string?

def parseOptionalName : Option JSONValue → Parsed (Option String)
  | some rawName => do
    let value ← rawName.string?
    Parsed.require (isValidTargetString breaking value)
    pure (some value)
  | none => pure none

def parseOptionalExact : Option JSONValue → Parsed Bool
  | none => pure false
  | some value => value.bool?

def parseTargetScope (value : JSONValue) : Parsed NativeTargetScope := do
  let object ← value.object?
  let kind ← parseRequiredString object "by"
  match kind with
  | "index" => do
    Parsed.require (onlyKeys object ["by", "snapshotId", "index"])
    let snapshotId ← parseRequiredString object "snapshotId"
    Parsed.require (isValidTargetString breaking snapshotId)
    let rawIndex ← required object "index"
    let rawIndex ← rawIndex.number?
    let index ← parseIndex rawIndex
    pure (.index snapshotId index)
  | "role" => do
    Parsed.require (onlyKeys object ["by", "role", "name", "exact"])
    let role ← parseRequiredString object "role"
    Parsed.require (isValidTargetString breaking role)
    let isExact ← parseOptionalExact (object.lookup "exact")
    let name ← parseOptionalName breaking (object.lookup "name")
    pure (.role role name isExact)
  | _ => .rejected

def applyTargetScope (target : NativeTarget) : Option JSONValue → Parsed NativeTarget
  | none => pure target
  | some rawScope => do
    let scope ← parseTargetScope breaking rawScope
    pure (.scoped target scope)

def textKey (kind : String) : String := if kind = "label" then "label" else "text"

def textTarget (kind text : String) (isExact : Bool) : NativeTarget :=
  match kind with
  | "text" => .text text isExact
  | "ocrText" => .ocrText text isExact
  | _ => .label text isExact

def parseTarget (value : JSONValue) : Parsed NativeTarget := do
  let object ← value.object?
  let kind ← parseRequiredString object "by"
  match kind with
  | "index" => do
    Parsed.require (onlyKeys object ["by", "snapshotId", "index"])
    let snapshotId ← parseRequiredString object "snapshotId"
    Parsed.require (isValidTargetString breaking snapshotId)
    let rawIndex ← required object "index"
    let rawIndex ← rawIndex.number?
    let index ← parseIndex rawIndex
    pure (.index snapshotId index)
  | "role" => do
    Parsed.require (onlyKeys object ["by", "role", "name", "exact", "within"])
    let role ← parseRequiredString object "role"
    Parsed.require (isValidTargetString breaking role)
    let isExact ← parseOptionalExact (object.lookup "exact")
    let name ← parseOptionalName breaking (object.lookup "name")
    applyTargetScope breaking (.role role name isExact) (object.lookup "within")
  | "text" | "ocrText" | "label" => do
    Parsed.require (onlyKeys object ["by", textKey kind, "exact", "within"])
    let text ← parseRequiredString object (textKey kind)
    Parsed.require (isValidTargetString breaking text)
    let isExact ← parseOptionalExact (object.lookup "exact")
    applyTargetScope breaking (textTarget kind text isExact) (object.lookup "within")
  | "point" => do
    Parsed.require (sameKeys object ["by", "x", "y"])
    let x ← required object "x"
    let x ← x.number?
    let y ← required object "y"
    let y ← y.number?
    pure (.point x y)
  | _ => .rejected

def hasEmptyObjectParams : JSONValue → Bool
  | .object members => members.isEmpty
  | _ => false

/-! ## The two parsers of targets -/

theorem parseTarget_eq (value : JSONValue) :
    parseTarget breaking value = ActionService.parseTarget breaking value := by
  unfold parseTarget ActionService.parseTarget
  congr 1
  funext object
  show (parseRequiredString object "by" >>= _) = (parseRequiredString object "by" >>= _)
  congr 1
  funext kind
  split <;> first
    | rfl
    | split <;> first | rfl | contradiction

end Parsers

end HostService

end Computer
