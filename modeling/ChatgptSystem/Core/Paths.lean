import ChatgptSystem.Foundations.FileTree

/-!
# Paths

The functions of `node:path` that the path policy uses, on the components of POSIX paths. A
normalised absolute path is the list of its names, so a path with `.`, `..` or an empty
component cannot be built.

* `Name` — a path component other than `.` and `..`;
* `parse`, `resolve`, `relative`, `isInside` — from input strings to the containment test;
* `isInside_iff` — the test on relative paths is the prefix order of names.
-/

open FileTree

def IsName (text : String) : Prop :=
  text ≠ "" ∧ text ≠ "." ∧ text ≠ ".." ∧ '/' ∉ text.toList

instance (text : String) : Decidable (IsName text) :=
  inferInstanceAs (Decidable (_ ∧ _ ∧ _ ∧ _))

structure Name where
  text : String
  isName : IsName text
  deriving DecidableEq

def Name.hasNul (n : Name) : Bool := n.text.toList.contains '\x00'

/-- A normalised absolute path: the names on the way from the root. -/
abbrev AbsPath : Type := List Name

namespace Paths

def segments : List Char → List (List Char)
  | [] => [[]]
  | c :: rest =>
    if c = '/' then [] :: segments rest
    else match segments rest with
      | [] => [[c]]
      | s :: ss => (c :: s) :: ss

/-- The meaning of a piece: nothing and `.` stay, `..` goes up, anything else is a name. -/
def component (segment : List Char) : Comp Name :=
  if h : IsName (String.ofList segment) then .name ⟨String.ofList segment, h⟩
  else if segment = ['.', '.'] then .parent
  else .here

def parse (input : String) : List (Comp Name) :=
  (segments input.toList).map component

def isAbsolute (input : String) : Bool :=
  input.toList.head? = some '/'

/-- `path.resolve(base, suffix)` for a relative suffix; `..` is resolved in the text. -/
def resolve (base : AbsPath) (suffix : List (Comp Name)) : AbsPath :=
  suffix.foldl (fun path c =>
    match c with
    | .here => path
    | .parent => path.dropLast
    | .name n => path ++ [n]) base

def dirname (path : AbsPath) : AbsPath := path.dropLast

/-- `path.relative` of two absolute paths. -/
def relative : AbsPath → AbsPath → List (Comp Name)
  | a :: base, b :: path =>
    if a = b then relative base path
    else ((a :: base).map fun _ => .parent) ++ (b :: path).map .name
  | base, path => (base.map fun _ => .parent) ++ path.map .name

/-- `isInside`: the relative path is empty, or starts with neither `../` nor is `..`. The
relative path of two absolute paths is never absolute. -/
def isInside (root candidate : AbsPath) : Bool :=
  match relative root candidate with
  | [] => true
  | first :: _ => first ≠ .parent

theorem isInside_iff {root candidate : AbsPath} :
    isInside root candidate = true ↔ root <+: candidate := by
  induction root, candidate using relative.induct with
  | case1 base path b ih =>
    rw [List.cons_prefix_cons]
    simpa [isInside, relative] using ih
  | case2 a base b path hab => simp [isInside, relative, hab, List.cons_prefix_cons]
  | case3 base path hcons =>
    cases base with
    | nil => cases path <;> simp [isInside, relative]
    | cons a base =>
      cases path with
      | nil => simp [isInside, relative]
      | cons b path => exact absurd rfl (hcons a base b path rfl)

theorem relative_append (base rest : AbsPath) :
    relative base (base ++ rest) = rest.map .name := by
  induction base with
  | nil => cases rest <;> simp [relative]
  | cons a base ih => simpa [relative] using ih

theorem resolve_names (base rest : AbsPath) : resolve base (rest.map .name) = base ++ rest := by
  unfold resolve
  induction rest generalizing base with
  | nil => simp
  | cons n rest ih => simpa using ih (base ++ [n])

def componentText : Comp Name → List Char
  | .here => ['.']
  | .parent => ['.', '.']
  | .name n => n.text.toList

def render (comps : List (Comp Name)) : List Char :=
  List.intercalate ['/'] (comps.map componentText)

def text (path : AbsPath) : List Char := '/' :: render (path.map .name)

theorem segments_name {name : List Char} (hname : '/' ∉ name) : segments name = [name] := by
  induction name with
  | nil => rfl
  | cons c name ih =>
    have hc : c ≠ '/' := fun h => hname (by simp [h])
    rw [segments, if_neg hc, ih fun h => hname (List.mem_cons_of_mem c h)]

theorem segments_append {name rest : List Char} (hname : '/' ∉ name) :
    segments (name ++ '/' :: rest) = name :: segments rest := by
  induction name with
  | nil => simp [segments]
  | cons c name ih =>
    have hc : c ≠ '/' := fun h => hname (by simp [h])
    rw [List.cons_append, segments, if_neg hc, ih fun h => hname (List.mem_cons_of_mem c h)]

theorem segments_render {path : AbsPath} (hpath : path ≠ []) :
    segments (render (path.map .name)) = path.map fun n => n.text.toList := by
  induction path with
  | nil => exact absurd rfl hpath
  | cons n path ih =>
    cases path with
    | nil => simpa [render, componentText] using segments_name n.isName.2.2.2
    | cons m path =>
      have htail := ih (List.cons_ne_nil m path)
      have hrender : render ((n :: m :: path).map .name) =
          n.text.toList ++ '/' :: render ((m :: path).map .name) := by
        simp [render, componentText, List.intercalate]
      rw [hrender, segments_append n.isName.2.2.2, htail]
      rfl

theorem resolve_text (path : AbsPath) : resolve [] (parse (String.ofList (text path))) = path := by
  rw [parse, String.toList_ofList, text, segments, if_pos rfl]
  by_cases hpath : path = []
  · rw [hpath]
    rfl
  have hnames : (path.map fun n => n.text.toList).map component = path.map .name := by
    rw [List.map_map]
    refine List.map_congr_left fun n _ => ?_
    rw [Function.comp, component, String.ofList_toList, dif_pos n.isName]
  rw [segments_render hpath, List.map_cons, hnames]
  exact resolve_names [] path

theorem text_injective : Function.Injective text := fun p q h => by
  rw [← resolve_text p, h, resolve_text]

end Paths
