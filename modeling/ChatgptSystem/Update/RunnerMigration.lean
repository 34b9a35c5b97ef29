import ChatgptSystem.Foundations.Regex
import ChatgptSystem.Update.AutoUpdateRun

/-!
# The runner of the daily driver

`migrateRunnerToStable` (`scripts/auto-update-runtime.mjs`): the property list that starts the daily
driver may name the runner of a release, and shall name the one behind the stable path.

* `migrateRunnerToStable` — one textual replacement in the text of the property list;
* `Plist` — a property list as its string elements and the text between them;
* `Plist.migrated` — the list in which every runner of a release is replaced, as a whole value;
* `migrates_iff` — the lists and stable paths for which the replacement is that.
-/

open FileTree

namespace RunnerMigration

/-! ## The replacement -/

/-- The runner's path in the home directory, in front of the name of a release. -/
def releasesPath : List Char := "/.chatgpt-system/runtime/releases/".toList

def runnerPath : List Char := "/scripts/daily-driver-runner.mjs".toList

/-- `[0-9a-f]`. -/
def isHexDigit (c : Char) : Bool := ('a' ≤ c && c ≤ 'f') || ('0' ≤ c && c ≤ '9')

/-- `pattern`. -/
def runnerPattern : Regex :=
  .seq (Regex.literal releasesPath) (.seq (.many isHexDigit 7 (some 40)) (Regex.literal runnerPath))

structure Migration where
  changed : Bool
  plist : List Char
  deriving DecidableEq

/-- `stableRunner.replace(/^\//, "/")`. -/
def leadingSlash : List Char → List Char
  | '/' :: rest => '/' :: rest
  | text => text

def migrateRunnerToStable (plistText stableRunner : List Char) : Migration :=
  if runnerPattern.test plistText then
    ⟨true, runnerPattern.replaceFirst (leadingSlash stableRunner) plistText⟩
  else ⟨false, plistText⟩

/-- `stableRunnerPath`, for a runtime directory that is an absolute path. -/
def stableRunnerPath (runtimeDir : AbsPath) : List Char :=
  Paths.text (Paths.resolve runtimeDir (Paths.parse
    "chatgpt-system-main/scripts/daily-driver-runner.mjs"))

/-! ## Texts in XML -/

/-- How `xmlEscape` writes a character. -/
def entity (c : Char) : List Char :=
  if c = '&' then "&amp;".toList
  else if c = '<' then "&lt;".toList
  else if c = '>' then "&gt;".toList
  else if c = '"' then "&quot;".toList
  else if c = '\x27' then "&apos;".toList
  else [c]

def xmlEscape (value : List Char) : List Char := value.flatMap entity

def number (base : ℕ) (digit : Char → Option ℕ) (digits : List Char) : Option ℕ :=
  if digits = [] then none
  else digits.foldl (fun n d => n.bind fun n => (digit d).map (base * n + ·)) (some 0)

def decimalDigit (c : Char) : Option ℕ := if c.isDigit then some (c.toNat - '0'.toNat) else none

def hexadecimalDigit (c : Char) : Option ℕ :=
  if c.isDigit then some (c.toNat - '0'.toNat)
  else if 'a' ≤ c && c ≤ 'f' then some (c.toNat - 'a'.toNat + 10)
  else if 'A' ≤ c && c ≤ 'F' then some (c.toNat - 'A'.toNat + 10)
  else none

def reference (name : List Char) : Option Char :=
  if name = "amp".toList then some '&'
  else if name = "lt".toList then some '<'
  else if name = "gt".toList then some '>'
  else if name = "quot".toList then some '"'
  else if name = "apos".toList then some '\x27'
  else match name with
    | '#' :: 'x' :: digits => (number 16 hexadecimalDigit digits).map Char.ofNat
    | '#' :: digits => (number 10 decimalDigit digits).map Char.ofNat
    | _ => none

/-- The value of a text, of which a reference may have begun. What is no reference stands for
itself. -/
def unescapeFrom : Option (List Char) → List Char → List Char
  | none, [] => []
  | none, c :: rest => if c = '&' then unescapeFrom (some []) rest else c :: unescapeFrom none rest
  | some name, [] => '&' :: name
  | some name, c :: rest =>
    if c = ';' then
      match reference name with
      | some d => d :: unescapeFrom none rest
      | none => '&' :: name ++ ';' :: unescapeFrom none rest
    else unescapeFrom (some (name ++ [c])) rest

def xmlUnescape (text : List Char) : List Char := unescapeFrom none text

/-! ## Property lists -/

/-- The value of a string element as it stands in the text: no other element is in it. -/
structure StringValue where
  text : List Char
  noElement : '<' ∉ text

/-- A property list: its string elements, each with the text in front of it, and the text behind the
last one. -/
structure Plist where
  elements : List (List Char × StringValue)
  tail : List Char

def string : List Char := "string".toList

def stringElement (value rest : List Char) : List Char :=
  '<' :: (string ++ '>' :: (value ++ '<' :: ('/' :: string ++ '>' :: rest)))

def elementsText (elements : List (List Char × StringValue)) (tail : List Char) : List Char :=
  elements.foldr (fun element rest => element.1 ++ stringElement element.2.text rest) tail

def Plist.text (plist : Plist) : List Char := elementsText plist.elements plist.tail

def releaseOf (path : List Char) : Option (List Char) :=
  (path.dropPrefix? releasesPath).bind (·.dropSuffix? runnerPath)

/-- The runner of a release, as a path from the home directory with a slash in front. -/
def isRunner (path : List Char) : Bool :=
  (releaseOf path).any fun sha => AutoUpdate.isReleaseDirName (String.ofList sha)

def isRunnerPath (path : List Char) : Bool :=
  path.head? = some '/' && path.tails.any isRunner

def StringValue.namesRunner (value : StringValue) : Bool := isRunnerPath (xmlUnescape value.text)

variable {c : Char}

theorem mem_entity {d : Char} (h : d ∈ entity c) : d ≠ '<' ∧ (d = '/' → c = '/') := by
  unfold entity at h
  split_ifs at h with hamp hlt hgt hquot hapos
  all_goals try (subst c; revert d; decide)
  rw [List.mem_singleton] at h
  subst h
  exact ⟨hlt, id⟩

theorem notMem_xmlEscape (value : List Char) : '<' ∉ xmlEscape value := by
  intro h
  obtain ⟨c, -, hc⟩ := List.mem_flatMap.mp h
  exact (mem_entity hc).1 rfl

def StringValue.migrated (value : StringValue) (stable : List Char) : StringValue :=
  if value.namesRunner then ⟨xmlEscape stable, notMem_xmlEscape stable⟩ else value

/-- The property list in which the stable path is the value of every element that names the runner
of a release. -/
def Plist.migrated (plist : Plist) (stable : List Char) : Plist where
  elements := plist.elements.map fun element => (element.1, element.2.migrated stable)
  tail := plist.tail

/-- The replacement migrates the property list, says whether it had to, and is done. -/
structure Migrates (plist : Plist) (stable : List Char) : Prop where
  plist_eq : (migrateRunnerToStable plist.text stable).plist = (plist.migrated stable).text
  changed_iff : (migrateRunnerToStable plist.text stable).changed = true ↔
    ∃ element ∈ plist.elements, element.2.namesRunner = true
  settled : migrateRunnerToStable (migrateRunnerToStable plist.text stable).plist stable =
    ⟨false, (migrateRunnerToStable plist.text stable).plist⟩

structure NoRunner (plist : Plist) : Prop where
  noText : ¬Regex.Occurs (isRunner ·) plist.text
  noValue : ∀ element ∈ plist.elements, element.2.namesRunner = false

/-- The property list names one runner of a release, and nothing stands in front of it in its
element. -/
def SoleRunner (plist : Plist) : Prop :=
  ∃ front markup value back, plist.elements = front ++ (markup, value) :: back ∧
    isRunner value.text ∧ NoRunner ⟨front, markup⟩ ∧ NoRunner ⟨back, plist.tail⟩

/-- A path that is the same text in XML and in a replacement, and has no runner of a release in it. -/
structure Plain (stable : List Char) : Prop where
  noEntity : ∀ c ∈ stable, entity c = [c]
  noToken : ∀ c, Regex.special c ≠ none → ¬['$', c] <:+: stable
  noRunner : ¬Regex.Occurs (isRunner ·) stable

/-! ## The paths of the runners -/

variable {path m : List Char}

theorem isReleaseDirName_iff {sha : List Char} :
    AutoUpdate.isReleaseDirName (String.ofList sha) = true ↔
      (∀ c ∈ sha, isHexDigit c) ∧ 7 ≤ sha.length ∧ sha.length ≤ 40 := by
  unfold AutoUpdate.isReleaseDirName Text.matchesHex
  rw [String.toList_ofList]
  simp only [Bool.false_and, Bool.or_false, Bool.and_eq_true, decide_eq_true_eq, List.all_eq_true]
  exact and_comm

theorem isRunner_iff : isRunner path = true ↔
    ∃ sha, AutoUpdate.isReleaseDirName (String.ofList sha) = true ∧
      path = releasesPath ++ sha ++ runnerPath := by
  unfold isRunner releaseOf
  simp only [Option.any_eq_true, Option.bind_eq_some_iff, List.dropPrefix?_eq_some_iff,
    List.dropSuffix?_eq_some_iff, beq_iff_eq]
  constructor
  · rintro ⟨sha, ⟨_, ⟨_, rfl, rfl⟩, _, rfl, rfl⟩, hsha⟩
    exact ⟨sha, hsha, (List.append_assoc ..).symm⟩
  · rintro ⟨sha, hsha, rfl⟩
    exact ⟨sha, ⟨sha ++ runnerPath, ⟨_, List.append_assoc .., rfl⟩, _, rfl, rfl⟩, hsha⟩

theorem recognises_runnerPattern : runnerPattern.Recognises (isRunner ·) := by
  intro before text m rest
  refine ((Regex.recognises_literal _).seq ((Regex.recognises_many _ _ _).seq
    (Regex.recognises_literal _)) before text m rest).trans (and_congr_left' ?_)
  refine Iff.trans ?_ isRunner_iff.symm
  constructor
  · rintro ⟨_, _, rfl, ⟨sha, _, hsha, rfl, rfl⟩, rfl⟩
    exact ⟨sha, isReleaseDirName_iff.mpr hsha, (List.append_assoc ..).symm⟩
  · rintro ⟨sha, hsha, rfl⟩
    exact ⟨_, _, rfl, ⟨sha, _, isReleaseDirName_iff.mp hsha, rfl, rfl⟩, List.append_assoc ..⟩

theorem slash_notMem {sha : List Char} (h : ∀ c ∈ sha, isHexDigit c) : '/' ∉ sha :=
  fun hc => absurd (h _ hc) (by decide)

theorem isRunner_code {n : List Char} (hm : isRunner m = true) (hn : isRunner n = true)
    (h : m <+: n) : m = n := by
  obtain ⟨sha, hsha, rfl⟩ := isRunner_iff.mp hm
  obtain ⟨sha', hsha', rfl⟩ := isRunner_iff.mp hn
  obtain ⟨t, ht⟩ := h
  rw [List.append_assoc, List.append_assoc, List.append_assoc, List.append_cancel_left_eq] at ht
  -- The name of the release ends at the next slash.
  have hslash := slash_notMem (isReleaseDirName_iff.mp hsha).1
  have hslash' := slash_notMem (isReleaseDirName_iff.mp hsha').1
  rw [(Regex.append_cons_inj hslash hslash' ht).1]

def isPathCharacter (c : Char) : Bool := c.isAlphanum || c == '/' || c == '.' || c == '-'

theorem isPathCharacter_of_mem (hm : isRunner m = true) (hc : c ∈ m) :
    isPathCharacter c = true := by
  obtain ⟨sha, hsha, rfl⟩ := isRunner_iff.mp hm
  rw [List.mem_append, List.mem_append] at hc
  obtain (hc | hc) | hc := hc
  · exact (by decide : ∀ c ∈ releasesPath, isPathCharacter c = true) c hc
  · have hhex := (isReleaseDirName_iff.mp hsha).1 c hc
    simp only [isHexDigit, Bool.or_eq_true, Bool.and_eq_true, decide_eq_true_eq] at hhex
    simp only [isPathCharacter, Char.isAlphanum, Text.isAlpha_eq, Char.isDigit,
      Bool.or_eq_true, Bool.and_eq_true, decide_eq_true_eq]
    obtain ⟨ha, hf⟩ | ⟨h0, h9⟩ := hhex
    · exact .inl (.inl (.inl (.inl (.inr ⟨ha, UInt32.le_trans hf (by decide)⟩))))
    · exact .inl (.inl (.inl (.inr ⟨h0, h9⟩)))
  · exact (by decide : ∀ c ∈ runnerPath, isPathCharacter c = true) c hc

theorem notMem_of_isRunner (hc : isPathCharacter c = false) (m : List Char)
    (hm : isRunner m = true) : c ∉ m :=
  fun h => absurd (isPathCharacter_of_mem hm h) (by rw [hc]; nofun)

theorem exists_of_isRunner (hm : isRunner m = true) :
    (∃ y, m = '/' :: '.' :: y) ∧ ∃ x, m = x ++ ['s'] := by
  obtain ⟨sha, -, rfl⟩ := isRunner_iff.mp hm
  exact ⟨⟨_, rfl⟩, releasesPath ++ sha ++ "/scripts/daily-driver-runner.mj".toList, by
    rw [List.append_assoc _ _ ['s']]
    rfl⟩

theorem eq_nil_of_isRunner {x y : List Char} (hm : isRunner (x ++ '/' :: '.' :: y) = true) :
    x = [] := by
  obtain ⟨sha, hsha, hpath⟩ := isRunner_iff.mp hm
  have hhex := (isReleaseDirName_iff.mp hsha).1
  -- Behind the first character no slash is in front of a dot.
  have hchain : (releasesPath.tail ++ (sha ++ runnerPath)).IsChain
      fun a b => a = '/' → b ≠ '.' := by
    refine List.isChain_append.mpr ⟨by decide, List.isChain_append.mpr ⟨?_, by decide, ?_⟩, ?_⟩
    · exact (List.pairwise_of_forall_mem_list fun a ha _ _ (hslash : a = '/') =>
        absurd (hslash ▸ ha) (slash_notMem hhex)).isChain
    · rintro a ha _ - rfl
      exact absurd (List.mem_of_getLast? ha) (slash_notMem hhex)
    · rintro a - b hb - rfl
      cases sha with
      | nil => exact absurd hb (by decide)
      | cons c sha =>
        obtain rfl := Option.some.inj hb
        exact absurd (hhex '.' List.mem_cons_self) (by decide)
  cases x with
  | nil => rfl
  | cons c x =>
    have htail : x ++ '/' :: '.' :: y = releasesPath.tail ++ (sha ++ runnerPath) :=
      (List.cons.inj (hpath.trans (List.append_assoc ..))).2
    rw [← htail, List.isChain_append_cons_cons] at hchain
    exact absurd rfl (hchain.2.1 rfl)

/-! ## Escaped texts -/

variable {text rest value : List Char}

theorem xmlEscape_append (first second : List Char) :
    xmlEscape (first ++ second) = xmlEscape first ++ xmlEscape second :=
  List.flatMap_append

theorem xmlEscape_eq_self (h : ∀ c ∈ value, entity c = [c]) : xmlEscape value = value := by
  rw [xmlEscape, List.flatMap_congr h]
  exact List.flatMap_singleton' value

theorem entity_of_isPathCharacter (h : isPathCharacter c = true) : entity c = [c] := by
  unfold entity
  split_ifs with hamp hlt hgt hquot hapos
  all_goals first | rfl | (subst c; exact absurd h (by decide))

theorem xmlEscape_of_isRunner (hm : isRunner m = true) : xmlEscape m = m :=
  xmlEscape_eq_self fun _ hc => entity_of_isPathCharacter (isPathCharacter_of_mem hm hc)

theorem occurs_xmlEscape (h : Regex.Occurs (isRunner ·) value) :
    Regex.Occurs (isRunner ·) (xmlEscape value) := by
  obtain ⟨front, m, back, rfl, hm⟩ := h
  refine ⟨xmlEscape front, m, xmlEscape back, ?_, hm⟩
  rw [xmlEscape_append, xmlEscape_append, xmlEscape_of_isRunner hm]

theorem xmlUnescape_cons (hc : c ≠ '&') : xmlUnescape (c :: rest) = c :: xmlUnescape rest := by
  rw [xmlUnescape, unescapeFrom, if_neg hc]
  rfl

theorem xmlUnescape_append (h : '&' ∉ text) :
    xmlUnescape (text ++ rest) = text ++ xmlUnescape rest := by
  induction text with
  | nil => rfl
  | cons c text ih =>
    rw [List.mem_cons, not_or] at h
    rw [List.cons_append, xmlUnescape_cons (Ne.symm h.1), ih h.2]
    rfl

theorem xmlUnescape_xmlEscape_append :
    xmlUnescape (xmlEscape value ++ rest) = value ++ xmlUnescape rest := by
  induction value with
  | nil => rfl
  | cons c value ih =>
    have hentity : xmlUnescape (entity c ++ (xmlEscape value ++ rest)) =
        c :: xmlUnescape (xmlEscape value ++ rest) := by
      unfold entity
      split_ifs with hamp hlt hgt hquot hapos
      all_goals first | (subst c; rfl) | exact xmlUnescape_cons hamp
    rw [xmlEscape, List.flatMap_cons, List.append_assoc]
    exact hentity.trans (by rw [ih, List.cons_append])

theorem xmlUnescape_xmlEscape : xmlUnescape (xmlEscape value) = value := by
  have h : xmlUnescape (xmlEscape value ++ []) = value ++ [] := xmlUnescape_xmlEscape_append
  rwa [List.append_nil, List.append_nil] at h

theorem exists_of_xmlEscape_slash (h : xmlEscape value = text ++ '/' :: rest) :
    ∃ first, text = xmlEscape first := by
  induction value generalizing text with
  | nil => exact absurd h (by simp [xmlEscape])
  | cons c value ih =>
    rw [xmlEscape, List.flatMap_cons] at h
    obtain ⟨x, rfl, hx⟩ | ⟨x, hentity, hx⟩ := List.append_eq_append_iff.mp h
    · obtain ⟨first, rfl⟩ := ih hx
      exact ⟨c :: first, rfl⟩
    · cases x with
      | nil =>
        rw [List.append_nil] at hentity
        exact ⟨[c], by rw [← hentity, xmlEscape, List.flatMap_singleton]⟩
      | cons d x =>
        obtain ⟨rfl, -⟩ := List.cons.inj hx
        -- A slash in a text for one character is this character.
        obtain rfl := (mem_entity (c := c) (hentity ▸ List.mem_append_right _ List.mem_cons_self)).2 rfl
        have hnil : text = [] := by
          have hlength := congrArg List.length hentity
          rw [show entity '/' = ['/'] from rfl, List.length_append] at hlength
          exact List.eq_nil_of_length_eq_zero (by simp at hlength; omega)
        exact ⟨[], hnil⟩

theorem exists_of_xmlEscape_append (h : xmlEscape value = text ++ rest) :
    ∃ cut last, rest = cut ++ xmlEscape last ∧ '&' ∉ cut ∧ last <:+ value := by
  induction value generalizing text with
  | nil =>
    obtain ⟨-, rfl⟩ := List.append_eq_nil_iff.mp h.symm
    exact ⟨[], [], rfl, List.not_mem_nil, List.suffix_rfl⟩
  | cons c value ih =>
    rw [xmlEscape, List.flatMap_cons] at h
    obtain ⟨x, rfl, hx⟩ | ⟨x, hentity, rfl⟩ := List.append_eq_append_iff.mp h
    · obtain ⟨cut, last, hrest, hcut, hlast⟩ := ih hx
      exact ⟨cut, last, hrest, hcut, hlast.trans (List.suffix_cons c value)⟩
    · cases text with
      | nil =>
        refine ⟨[], c :: value, ?_, List.not_mem_nil, List.suffix_rfl⟩
        rw [List.nil_append] at hentity
        rw [← hentity]
        rfl
      | cons d text =>
        refine ⟨x, value, rfl, fun hx => ?_, List.suffix_cons c value⟩
        -- An ampersand is only at the front of a reference.
        have htail : '&' ∈ (entity c).tail := by
          rw [hentity]
          exact List.mem_append_right _ hx
        unfold entity at htail
        split_ifs at htail
        all_goals first | exact absurd htail (by decide) | exact absurd htail List.not_mem_nil

/-! ## The replacement text and the escaped path -/

open Regex (Token templateTokens expand)

/-- A part of a path that is the same text in XML and in a replacement. -/
def IsPlain (token : Token) : Prop := ∃ c, token = .literal c ∧ entity c = [c]

theorem exists_of_entity (h : entity c ≠ [c]) :
    (∃ x, entity c = x ++ [';']) ∧ c ≠ ';' ∧ c ≠ '$' := by
  unfold entity at h ⊢
  split_ifs at h ⊢ with hamp hlt hgt hquot hapos
  · exact ⟨⟨"&amp".toList, rfl⟩, by subst c; decide, by subst c; decide⟩
  · exact ⟨⟨"&lt".toList, rfl⟩, by subst c; decide, by subst c; decide⟩
  · exact ⟨⟨"&gt".toList, rfl⟩, by subst c; decide, by subst c; decide⟩
  · exact ⟨⟨"&quot".toList, rfl⟩, by subst c; decide, by subst c; decide⟩
  · exact ⟨⟨"&apos".toList, rfl⟩, by subst c; decide, by subst c; decide⟩
  · exact absurd rfl h

theorem last_ne {x y z : List Char} {k : ℕ} (hc : c ≠ ';') (hc' : c ≠ '$') :
    x ++ [c] ≠ y ++ (z ++ [';']) ++ List.replicate k '$' := by
  intro h
  cases k with
  | zero =>
    rw [List.replicate_zero, List.append_nil, ← List.append_assoc] at h
    exact hc (List.cons.inj (List.append_inj' h rfl).2).1
  | succ k =>
    rw [List.replicate_succ', ← List.append_assoc] at h
    exact hc' (List.cons.inj (List.append_inj' h rfl).2).1

theorem isPlain_of_expand {front m back x y : List Char} {tokens : List Token} {k : ℕ}
    (hchain : tokens.IsChain fun a b => a = .literal '$' → b ≠ .dollar)
    (hkind : ∀ token ∈ tokens, token ≠ .front ∧ token ≠ .back) (hm : isRunner m = true)
    (hc : c ≠ '$') (hk : k ≠ 0 → tokens.getLast? ≠ some (.literal '$'))
    (h : x ++ [c] ++ tokens.flatMap (Token.text front m back) =
      y ++ tokens.flatMap (fun token => xmlEscape token.source) ++ List.replicate k '$') :
    k = 0 ∧ ∀ token ∈ tokens, IsPlain token := by
  induction tokens using List.reverseRecOn generalizing k with
  | nil =>
    cases k with
    | zero => exact ⟨rfl, nofun⟩
    | succ k =>
      rw [List.flatMap_nil, List.append_nil, List.replicate_succ', ← List.append_assoc] at h
      exact absurd (List.cons.inj (List.append_inj' h rfl).2).1 hc
  | append_singleton tokens token ih =>
    obtain ⟨htokens, -, hlast⟩ := List.isChain_append.mp hchain
    have hkind' : ∀ token ∈ tokens, token ≠ .front ∧ token ≠ .back := fun token htoken =>
      hkind token (List.mem_append_left _ htoken)
    rw [List.flatMap_append, List.flatMap_append, List.flatMap_singleton, List.flatMap_singleton,
      ← List.append_assoc, ← List.append_assoc] at h
    cases token with
    | literal d =>
      rw [Token.text, Token.source, xmlEscape, List.flatMap_singleton] at h
      by_cases hd : entity d = [d]
      · rw [hd] at h
        cases k with
        | zero =>
          rw [List.replicate_zero, List.append_nil] at h
          obtain ⟨-, hplain⟩ := ih (k := 0) htokens hkind' (absurd rfl)
            (by rw [List.replicate_zero, List.append_nil]; exact (List.append_inj' h rfl).1)
          refine ⟨rfl, fun token htoken => ?_⟩
          obtain htoken | htoken := List.mem_append.mp htoken
          · exact hplain token htoken
          · exact ⟨d, List.mem_singleton.mp htoken, hd⟩
        | succ k =>
          rw [List.replicate_succ', ← List.append_assoc] at h
          obtain rfl := (List.cons.inj (List.append_inj' h rfl).2).1
          exact absurd List.getLast?_concat (hk k.succ_ne_zero)
      · obtain ⟨⟨z, hz⟩, hsemicolon, hdollar⟩ := exists_of_entity hd
        rw [hz] at h
        exact absurd h (last_ne hsemicolon hdollar)
    | dollar =>
      -- The dollar signs at the end are one more than before.
      rw [Token.text, Token.source, show xmlEscape ['$', '$'] = ['$', '$'] from rfl] at h
      have hlonger : y ++ tokens.flatMap (fun token => xmlEscape token.source) ++ ['$', '$'] ++
          List.replicate k '$' =
          y ++ tokens.flatMap (fun token => xmlEscape token.source) ++
            List.replicate (k + 1) '$' ++ ['$'] := by
        rw [List.append_assoc, List.append_assoc _ _ ['$'], ← List.replicate_succ']
        rfl
      obtain ⟨hzero, -⟩ := ih (k := k + 1) htokens hkind'
        (fun _ hlast' => hlast _ hlast' .dollar rfl rfl rfl) (List.append_inj' (h.trans hlonger) rfl).1
      exact absurd hzero k.succ_ne_zero
    | matched =>
      obtain ⟨-, z, rfl⟩ := exists_of_isRunner hm
      rw [Token.text, Token.source, ← List.append_assoc,
        show xmlEscape ['$', '&'] = "$&amp".toList ++ [';'] from rfl] at h
      exact absurd h (last_ne (by decide) (by decide))
    | front => exact absurd rfl (hkind .front (List.mem_append_right _ List.mem_cons_self)).1
    | back => exact absurd rfl (hkind .back (List.mem_append_right _ List.mem_cons_self)).2

theorem plain_of_expand {front m back home rest : List Char} (hm : isRunner m = true)
    (hfront : '<' ∈ front) (hback : '<' ∈ back)
    (h : home ++ expand front m back ('/' :: rest) = xmlEscape ('/' :: rest)) :
    home = [] ∧ (∀ c ∈ '/' :: rest, entity c = [c]) ∧
      ∀ c, Regex.special c ≠ none → ¬['$', c] <:+: '/' :: rest := by
  have htokens : templateTokens ('/' :: rest) = .literal '/' :: templateTokens rest :=
    Regex.templateTokens_cons (by decide)
  -- An escaped text has no element in it.
  have hkind : ∀ token ∈ templateTokens rest, token ≠ .front ∧ token ≠ .back := by
    have hmem : ∀ token ∈ templateTokens rest, '<' ∉ token.text front m back := by
      intro token htoken hlt
      refine notMem_xmlEscape ('/' :: rest) (h ▸ List.mem_append_right _ ?_)
      rw [expand, htokens]
      exact List.mem_flatMap.mpr ⟨token, List.mem_cons_of_mem _ htoken, hlt⟩
    exact fun token htoken => ⟨by rintro rfl; exact hmem _ htoken hfront,
      by rintro rfl; exact hmem _ htoken hback⟩
  have hsource : xmlEscape rest =
      (templateTokens rest).flatMap fun token => xmlEscape token.source := by
    conv_lhs => rw [← Regex.flatMap_source rest]
    exact List.flatMap_assoc
  have hparts : home ++ ['/'] ++ (templateTokens rest).flatMap (Token.text front m back) =
      ['/'] ++ xmlEscape rest := by
    rw [expand, htokens] at h
    rw [List.append_assoc]
    exact h
  obtain ⟨-, hplain⟩ := isPlain_of_expand (x := home) (y := ['/']) (c := '/') (k := 0)
    (Regex.isChain_templateTokens rest) hkind hm (by decide) (absurd rfl)
    (by rw [List.replicate_zero, List.append_nil, hparts, hsource])
  have hliteral : ∀ token ∈ templateTokens ('/' :: rest), ∃ c, token = .literal c := by
    rw [htokens]
    rintro token htoken
    obtain rfl | htoken := List.mem_cons.mp htoken
    · exact ⟨'/', rfl⟩
    · exact (hplain token htoken).imp fun c hc => hc.1
  have hnoToken : ∀ c, Regex.special c ≠ none → ¬['$', c] <:+: '/' :: rest :=
    fun c hc => Regex.not_infix_of_literal hliteral hc
  have hnoEntity : ∀ c ∈ '/' :: rest, entity c = [c] := by
    intro c hc
    obtain rfl | hc := List.mem_cons.mp hc
    · rfl
    · rw [← Regex.flatMap_source rest] at hc
      obtain ⟨token, htoken, hc⟩ := List.mem_flatMap.mp hc
      obtain ⟨d, rfl, hd⟩ := hplain token htoken
      rwa [List.mem_singleton.mp hc]
  refine ⟨?_, hnoEntity, hnoToken⟩
  rw [Regex.expand_eq_self hnoToken, xmlEscape_eq_self hnoEntity] at h
  exact List.append_left_eq_self.mp h

/-! ## The match and the elements -/

variable {elements front back : List (List Char × StringValue)} {markup tail : List Char}
  {element : StringValue} {before : Option Char}

theorem elementsText_cons : elementsText ((markup, element) :: elements) tail =
    markup ++ stringElement element.text (elementsText elements tail) := rfl

theorem elementsText_append : elementsText (front ++ (markup, element) :: back) tail =
    elementsText front markup ++ stringElement element.text (elementsText back tail) := by
  induction front with
  | nil => rfl
  | cons first front ih =>
    rw [List.cons_append, elementsText_cons, elementsText_cons, ih]
    simp only [stringElement, List.append_assoc, List.cons_append]

theorem stringElement_inj {value' rest' : List Char} (hvalue : '<' ∉ value) (hvalue' : '<' ∉ value')
    (h : stringElement value rest = stringElement value' rest') : value = value' ∧ rest = rest' := by
  simp only [stringElement, List.append_cancel_left_eq, List.cons.injEq, true_and] at h
  obtain ⟨rfl, hrest⟩ := Regex.append_cons_inj hvalue hvalue' h
  simp only [List.append_cancel_left_eq, List.cons.injEq, true_and] at hrest
  exact ⟨rfl, hrest⟩

theorem not_occurs_of_notMem (h : '.' ∉ text) : ¬Regex.Occurs (isRunner ·) text := by
  rintro ⟨front, m, back, rfl, hm⟩
  obtain ⟨⟨y, rfl⟩, -⟩ := exists_of_isRunner hm
  simp at h

theorem occurs_stringElement : Regex.Occurs (isRunner ·) (markup ++ stringElement value rest) ↔
    Regex.Occurs (isRunner ·) markup ∨ Regex.Occurs (isRunner ·) value ∨
      Regex.Occurs (isRunner ·) rest := by
  have hlt := notMem_of_isRunner (c := '<') (by decide)
  have hgt := notMem_of_isRunner (c := '>') (by decide)
  rw [stringElement, Regex.occurs_append_cons hlt, Regex.occurs_append_cons hgt,
    Regex.occurs_append_cons hlt, Regex.occurs_append_cons hgt,
    or_iff_right (not_occurs_of_notMem (by decide : '.' ∉ string)),
    or_iff_right (not_occurs_of_notMem (by decide : '.' ∉ '/' :: string))]

theorem search_of_value {p r : List Char} (hmarkup : ¬Regex.Occurs (isRunner ·) markup)
    (h : runnerPattern.search (some '>') value = some (p, m, r)) :
    runnerPattern.search before (markup ++ stringElement value rest) =
      some (markup ++ '<' :: (string ++ '>' :: p), m, r ++ '<' :: ('/' :: string ++ '>' :: rest)) := by
  have hlt := notMem_of_isRunner (c := '<') (by decide)
  have hgt := notMem_of_isRunner (c := '>') (by decide)
  have hopen : ¬Regex.Occurs (isRunner ·) string := not_occurs_of_notMem (by decide)
  rw [stringElement, Regex.search_skip recognises_runnerPattern hlt hmarkup,
    Regex.search_skip recognises_runnerPattern hgt hopen,
    Regex.search_append recognises_runnerPattern (fun _ _ => isRunner_code) hlt h]
  rfl

theorem search_of_rest (hmarkup : ¬Regex.Occurs (isRunner ·) markup)
    (hvalue : ¬Regex.Occurs (isRunner ·) value) :
    runnerPattern.search before (markup ++ stringElement value rest) =
      (runnerPattern.search (some '>') rest).map fun found =>
        (markup ++ stringElement value found.1, found.2) := by
  have hlt := notMem_of_isRunner (c := '<') (by decide)
  have hgt := notMem_of_isRunner (c := '>') (by decide)
  have hopen : ¬Regex.Occurs (isRunner ·) string := not_occurs_of_notMem (by decide)
  have hclose : ¬Regex.Occurs (isRunner ·) ('/' :: string) := not_occurs_of_notMem (by decide)
  rw [stringElement, Regex.search_skip recognises_runnerPattern hlt hmarkup,
    Regex.search_skip recognises_runnerPattern hgt hopen,
    Regex.search_skip recognises_runnerPattern hlt hvalue,
    Regex.search_skip recognises_runnerPattern hgt hclose]
  simp only [Option.map_map]
  rfl

theorem search_of_isRunner (hm : isRunner m = true) :
    runnerPattern.search before m = some ([], m, []) := by
  have hhead : (runnerPattern.allMatches before m).head? = some (m, []) :=
    (Regex.head_eq_some_iff recognises_runnerPattern fun _ _ => isRunner_code).mpr
      ⟨hm, (List.append_nil m).symm⟩
  cases m with
  | nil => rw [Regex.search, hhead]; rfl
  | cons c m => rw [Regex.search, hhead]

/-! ## The values that name a runner -/

theorem namesRunner_iff : element.namesRunner = true ↔ ∃ home m, isRunner m = true ∧
    xmlUnescape element.text = home ++ m ∧ (home ++ m).head? = some '/' := by
  unfold StringValue.namesRunner isRunnerPath
  simp only [Bool.and_eq_true, decide_eq_true_eq, List.any_eq_true, List.mem_tails]
  constructor
  · rintro ⟨hslash, m, ⟨home, hhome⟩, hm⟩
    exact ⟨home, m, hm, hhome.symm, hhome ▸ hslash⟩
  · rintro ⟨home, m, hm, hvalue, hslash⟩
    exact ⟨hvalue ▸ hslash, m, ⟨home, hvalue.symm⟩, hm⟩

theorem namesRunner_of_isRunner (hm : isRunner element.text = true) :
    element.namesRunner = true := by
  refine namesRunner_iff.mpr ⟨[], element.text, hm, ?_, ?_⟩
  · have hplain : xmlUnescape (element.text ++ []) = element.text ++ [] :=
      xmlUnescape_append (notMem_of_isRunner (by decide) _ hm)
    rwa [List.append_nil] at hplain
  · obtain ⟨⟨y, hy⟩, -⟩ := exists_of_isRunner hm
    rw [hy]
    rfl

theorem occurs_of_namesRunner {stable : List Char} (htext : element.text = xmlEscape stable)
    (h : element.namesRunner = true) : Regex.Occurs (isRunner ·) stable := by
  obtain ⟨home, m, hm, hvalue, -⟩ := namesRunner_iff.mp h
  rw [htext, xmlUnescape_xmlEscape] at hvalue
  exact ⟨home, m, [], by rw [hvalue, List.append_nil], hm⟩

theorem eq_nil_of_runners {x y n r : List Char} (hm : isRunner m = true) (hn : isRunner n = true)
    (h : x ++ m ++ r = y ++ n) (hr : ¬Regex.Occurs (isRunner ·) r) : r = [] := by
  have hsame (hnm : n = m ++ r) : r = [] := by
    have hmn := isRunner_code hm hn ⟨r, hnm.symm⟩
    rw [← hmn] at hnm
    exact List.self_eq_append_right.mp hnm
  obtain ⟨w, rfl⟩ | ⟨w, rfl⟩ :=
    List.suffix_or_suffix_of_suffix (List.suffix_append y n) ⟨x ++ m, h⟩
  · exact absurd ⟨w, n, [], by rw [List.append_nil], hn⟩ hr
  · rw [← List.append_assoc] at h
    have hw := List.append_cancel_right h
    obtain ⟨z, rfl⟩ | ⟨z, rfl⟩ :=
      List.suffix_or_suffix_of_suffix (List.suffix_append x m) ⟨y, hw.symm⟩
    · -- The last path has the earlier one in it, which is so at its front only.
      obtain ⟨⟨t, rfl⟩, -⟩ := exists_of_isRunner hm
      rw [List.append_assoc] at hn
      obtain rfl := eq_nil_of_isRunner hn
      exact hsame rfl
    · -- The last path begins in the earlier one.
      obtain ⟨⟨t, ht⟩, -⟩ := exists_of_isRunner hn
      match w with
      | [] => exact absurd ⟨[], r, [], by rw [List.append_nil, List.nil_append], hn⟩ hr
      | [c] =>
        obtain ⟨-, u, hu⟩ := exists_of_isRunner hm
        obtain rfl := (List.cons.inj ht).1
        exact absurd (List.cons.inj (List.append_inj' hu rfl).2).1 (by decide)
      | c :: d :: w =>
        obtain ⟨rfl, htail⟩ := List.cons.inj ht
        obtain ⟨rfl, -⟩ := List.cons.inj htail
        obtain rfl := eq_nil_of_isRunner hm
        exact hsame rfl

theorem eq_nil_of_namesRunner {home r rest stable : List Char} (hm : isRunner m = true)
    (htext : element.text = home ++ m ++ r) (h : element.namesRunner = true)
    (hstable : xmlEscape stable = home ++ '/' :: rest ++ r)
    (hno : ¬Regex.Occurs (isRunner ·) (xmlEscape stable)) : r = [] := by
  obtain ⟨first, rfl⟩ := exists_of_xmlEscape_slash
    (hstable.trans (by rw [List.append_assoc, List.cons_append]))
  obtain ⟨cut, last, rfl, hcut, hlast⟩ := exists_of_xmlEscape_append hstable
  obtain ⟨home, n, hn, hvalue, -⟩ := namesRunner_iff.mp h
  -- References are only in what the stable path has in common with the value.
  have hvalue' : first ++ m ++ (cut ++ last) = home ++ n := by
    have hlast' : xmlUnescape (cut ++ xmlEscape last) = cut ++ xmlUnescape (xmlEscape last) :=
      xmlUnescape_append hcut
    rw [htext, List.append_assoc, xmlUnescape_xmlEscape_append,
      xmlUnescape_append (notMem_of_isRunner (by decide) _ hm), hlast', xmlUnescape_xmlEscape] at hvalue
    rw [List.append_assoc, hvalue]
  have hnoLast : ¬Regex.Occurs (isRunner ·) last := fun hoccurs =>
    hno (occurs_xmlEscape (by obtain ⟨w, rfl⟩ := hlast; exact hoccurs.mono_left w))
  have hnoRest : ¬Regex.Occurs (isRunner ·) (cut ++ xmlEscape last) := fun hoccurs =>
    hno (hstable ▸ hoccurs.mono_left _)
  -- The runner's path at the end goes over the last part, so nothing there is escaped.
  have hplain : xmlEscape last = last := by
    have hsuffix : last <:+ home ++ n := ⟨first ++ m ++ cut, by rw [← hvalue', List.append_assoc _ cut]⟩
    obtain ⟨w, rfl⟩ | ⟨w, rfl⟩ :=
      List.suffix_or_suffix_of_suffix (List.suffix_append home n) hsuffix
    · exact absurd ⟨w, n, [], by rw [List.append_nil], hn⟩ hnoLast
    · exact xmlEscape_eq_self fun c hc => entity_of_isPathCharacter
        (isPathCharacter_of_mem hn (List.mem_append_right _ hc))
  rw [hplain] at hnoRest ⊢
  exact eq_nil_of_runners hm hn hvalue' hnoRest

/-! ## The migrated property list -/

variable {stable : List Char}

def migratedElements (stable : List Char) (elements : List (List Char × StringValue)) :
    List (List Char × StringValue) :=
  elements.map fun element => (element.1, element.2.migrated stable)

theorem text_migrated (plist : Plist) :
    (plist.migrated stable).text = elementsText (migratedElements stable plist.elements) plist.tail :=
  rfl

theorem migrated_of_namesRunner (h : element.namesRunner = true) :
    (element.migrated stable).text = xmlEscape stable := by
  rw [StringValue.migrated, if_pos h]

theorem migrated_of_not (h : element.namesRunner = false) : element.migrated stable = element := by
  rw [StringValue.migrated, h]
  rfl

theorem migratedElements_eq_self (h : ∀ element ∈ elements, element.2.namesRunner = false) :
    migratedElements stable elements = elements := by
  refine (List.map_congr_left fun element helement => ?_).trans (List.map_id elements)
  rw [migrated_of_not (h element helement)]
  rfl

theorem stringElement_append : stringElement value text ++ rest =
    stringElement value (text ++ rest) := by
  simp only [stringElement, List.append_assoc, List.cons_append]

theorem noRunner_cons : NoRunner ⟨(markup, element) :: elements, tail⟩ ↔
    ¬Regex.Occurs (isRunner ·) markup ∧ ¬Regex.Occurs (isRunner ·) element.text ∧
      element.namesRunner = false ∧ NoRunner ⟨elements, tail⟩ := by
  have htext : Plist.text ⟨(markup, element) :: elements, tail⟩ =
      markup ++ stringElement element.text (elementsText elements tail) := rfl
  constructor
  · rintro ⟨hno, hvalue⟩
    rw [htext, occurs_stringElement, not_or, not_or] at hno
    exact ⟨hno.1, hno.2.1, hvalue _ List.mem_cons_self, hno.2.2,
      fun element helement => hvalue element (List.mem_cons_of_mem _ helement)⟩
  · rintro ⟨hmarkup, helement, hnames, hno, hvalue⟩
    refine ⟨?_, fun element' helement' => ?_⟩
    · rw [htext, occurs_stringElement, not_or, not_or]
      exact ⟨hmarkup, helement, hno⟩
    · obtain rfl | helement' := List.mem_cons.mp helement'
      · exact hnames
      · exact hvalue element' helement'

theorem namesRunner_of_text_eq (hno : ¬Regex.Occurs (isRunner ·) (element.migrated stable).text)
    (h : element.text = (element.migrated stable).text) : element.namesRunner = false := by
  by_contra hnames
  rw [Bool.not_eq_false] at hnames
  rw [migrated_of_namesRunner hnames] at hno h
  exact hno (occurs_xmlEscape (occurs_of_namesRunner h hnames))

theorem noRunner_of_text_eq
    (hno : ¬Regex.Occurs (isRunner ·) (elementsText (migratedElements stable elements) tail))
    (h : elementsText elements tail = elementsText (migratedElements stable elements) tail) :
    NoRunner ⟨elements, tail⟩ := by
  refine ⟨fun hoccurs => hno (h ▸ hoccurs), ?_⟩
  induction elements with
  | nil => exact nofun
  | cons first elements ih =>
    obtain ⟨markup, element⟩ := first
    rw [migratedElements, List.map_cons, elementsText_cons] at hno h
    rw [occurs_stringElement, not_or, not_or] at hno
    rw [elementsText_cons, List.append_cancel_left_eq] at h
    obtain ⟨htext, hrest⟩ := stringElement_inj element.noElement (element.migrated stable).noElement h
    intro element' helement'
    obtain rfl | helement' := List.mem_cons.mp helement'
    · exact namesRunner_of_text_eq hno.2.1 htext
    · exact ih hno.2.2 hrest element' helement'

theorem count_stringElement :
    (stringElement value rest).count '<' = value.count '<' + rest.count '<' + 2 := by
  have hname := (by decide : string.count '<' = 0)
  simp only [stringElement, List.count_append, List.count_cons, hname]
  simp
  omega

theorem count_migratedElements : (elementsText (migratedElements stable elements) tail).count '<' =
    (elementsText elements tail).count '<' := by
  induction elements with
  | nil => rfl
  | cons first elements ih =>
    obtain ⟨markup, element⟩ := first
    have hold := List.count_eq_zero_of_not_mem element.noElement
    have hnew := List.count_eq_zero_of_not_mem (element.migrated stable).noElement
    rw [migratedElements, List.map_cons, elementsText_cons, elementsText_cons, ← migratedElements]
    simp only [List.count_append, count_stringElement, ih, hold, hnew]

theorem exists_of_replaced {a m c E : List Char}
    (hsearch : runnerPattern.search before (elementsText elements tail) = some (a, m, c))
    (hno : ¬Regex.Occurs (isRunner ·) (elementsText (migratedElements stable elements) tail))
    (h : a ++ E ++ c = elementsText (migratedElements stable elements) tail) :
    ∃ front markup element back home r, elements = front ++ (markup, element) :: back ∧
      NoRunner ⟨front, markup⟩ ∧ element.namesRunner = true ∧ element.text = home ++ m ++ r ∧
      '<' ∈ a ∧ '<' ∈ c ∧ ¬Regex.Occurs (isRunner ·) (xmlEscape stable) ∧
      ¬Regex.Occurs (isRunner ·) (elementsText (migratedElements stable back) tail) ∧
      stringElement (home ++ E ++ r) (elementsText back tail) =
        stringElement (xmlEscape stable) (elementsText (migratedElements stable back) tail) := by
  induction elements generalizing a before with
  | nil =>
    obtain ⟨htail, hm⟩ := Regex.search_eq_some recognises_runnerPattern hsearch
    exact absurd ⟨a, m, c, htail, hm⟩ hno
  | cons first elements ih =>
    obtain ⟨markup, element⟩ := first
    rw [migratedElements, List.map_cons, elementsText_cons, ← migratedElements] at hno h
    rw [occurs_stringElement, not_or, not_or] at hno
    rw [elementsText_cons] at hsearch
    obtain ⟨hmarkup, hvalue, hrest⟩ := hno
    cases hfound : runnerPattern.search (some '>') element.text with
    | some found =>
      -- The first match is in this value.
      obtain ⟨home, n, r⟩ := found
      rw [search_of_value hmarkup hfound] at hsearch
      cases hsearch
      obtain ⟨htext, hm⟩ := Regex.search_eq_some recognises_runnerPattern hfound
      have hnames : element.namesRunner = true := by
        by_contra hnames
        rw [Bool.not_eq_true] at hnames
        rw [migrated_of_not hnames] at hvalue
        exact hvalue ⟨home, m, r, htext, hm⟩
      rw [migrated_of_namesRunner hnames] at hvalue h
      refine ⟨[], markup, element, elements, home, r, rfl, ⟨hmarkup, nofun⟩, hnames, htext,
        List.mem_append_right _ List.mem_cons_self, List.mem_append_right _ List.mem_cons_self, hvalue,
        hrest, ?_⟩
      refine List.append_cancel_left (Eq.trans ?_ h)
      simp only [stringElement, List.append_assoc, List.cons_append]
    | none =>
      have hno := (Regex.search_eq_none_iff recognises_runnerPattern _).mp hfound
      rw [search_of_rest hmarkup hno] at hsearch
      obtain ⟨⟨a, found⟩, hfound', heq⟩ := Option.map_eq_some_iff.mp hsearch
      cases heq
      rw [List.append_assoc, List.append_assoc, List.append_cancel_left_eq, stringElement_append] at h
      obtain ⟨htext, hback⟩ :=
        stringElement_inj element.noElement (element.migrated stable).noElement h
      obtain ⟨front, markup', element', back, home, r, rfl, hfront, hnames, htext', -, hc, hmatch⟩ :=
        ih hfound' hrest (by rw [List.append_assoc, hback])
      exact ⟨(markup, element) :: front, markup', element', back, home, r, rfl,
        noRunner_cons.mpr ⟨hmarkup, hno, namesRunner_of_text_eq hvalue htext, hfront⟩, hnames, htext',
        List.mem_append_right _ List.mem_cons_self, hc, hmatch⟩

/-! ## Where the replacement migrates -/

variable {plist : Plist}

theorem leadingSlash_eq (text : List Char) : leadingSlash text = text := by
  unfold leadingSlash
  split <;> rfl

theorem migrateRunnerToStable_of_none (h : ¬Regex.Occurs (isRunner ·) text) :
    migrateRunnerToStable text stable = ⟨false, text⟩ := by
  rw [migrateRunnerToStable, Regex.test,
    (Regex.search_eq_none_iff recognises_runnerPattern _).mpr h]
  rfl

theorem migrateRunnerToStable_of_some {a m c : List Char}
    (h : runnerPattern.search none text = some (a, m, c)) :
    migrateRunnerToStable text stable = ⟨true, a ++ Regex.expand a m c stable ++ c⟩ := by
  rw [migrateRunnerToStable, Regex.test, Regex.replaceFirst, h, leadingSlash_eq]
  rfl

theorem NoRunner.migrates (h : NoRunner plist) : Migrates plist stable := by
  have hsame : (plist.migrated stable).text = plist.text := by
    rw [text_migrated, migratedElements_eq_self h.noValue]
    rfl
  have hmigrate : migrateRunnerToStable plist.text stable = ⟨false, plist.text⟩ :=
    migrateRunnerToStable_of_none h.noText
  refine ⟨by rw [hmigrate, hsame], ?_, by rw [hmigrate, hmigrate]⟩
  rw [hmigrate]
  refine iff_of_false nofun ?_
  rintro ⟨element, helement, hnames⟩
  rw [h.noValue element helement] at hnames
  exact absurd hnames nofun

theorem SoleRunner.migrates (h : SoleRunner plist) (hplain : Plain stable) :
    Migrates plist stable := by
  obtain ⟨elements, tail⟩ := plist
  obtain ⟨front, markup, element, back, rfl, hm, hfront, hback⟩ := h
  have hnames := namesRunner_of_isRunner hm
  have htext : (Plist.migrated ⟨front ++ (markup, element) :: back, tail⟩ stable).text =
      elementsText front markup ++ stringElement stable (elementsText back tail) := by
    rw [text_migrated, migratedElements, List.map_append, List.map_cons, elementsText_append,
      migrated_of_namesRunner hnames, xmlEscape_eq_self hplain.noEntity, ← migratedElements,
      ← migratedElements, migratedElements_eq_self hfront.noValue,
      migratedElements_eq_self hback.noValue]
  have hmigrate : migrateRunnerToStable (Plist.text ⟨front ++ (markup, element) :: back, tail⟩) stable =
      ⟨true, (Plist.migrated ⟨front ++ (markup, element) :: back, tail⟩ stable).text⟩ := by
    have hmarkup : ¬Regex.Occurs (isRunner ·) (elementsText front markup) := hfront.noText
    rw [htext, Plist.text, elementsText_append, migrateRunnerToStable_of_some
      (search_of_value hmarkup (search_of_isRunner hm)), Regex.expand_eq_self hplain.noToken]
    simp only [stringElement, List.append_assoc, List.cons_append, List.nil_append]
  have hdone : ¬Regex.Occurs (isRunner ·)
      (Plist.migrated ⟨front ++ (markup, element) :: back, tail⟩ stable).text := by
    rw [htext, occurs_stringElement, not_or, not_or]
    exact ⟨hfront.noText, hplain.noRunner, hback.noText⟩
  refine ⟨by rw [hmigrate], ?_, by rw [hmigrate, migrateRunnerToStable_of_none hdone]⟩
  rw [hmigrate]
  exact iff_of_true rfl ⟨(markup, element), List.mem_append_right _ List.mem_cons_self, hnames⟩

theorem noRunner_or_soleRunner {rest : List Char} (h : Migrates plist ('/' :: rest)) :
    NoRunner plist ∨ SoleRunner plist ∧ Plain ('/' :: rest) := by
  cases hsearch : runnerPattern.search none plist.text with
  | none =>
    have hno := (Regex.search_eq_none_iff recognises_runnerPattern _).mp hsearch
    refine .inl ⟨hno, fun element helement => ?_⟩
    by_contra hnames
    rw [Bool.not_eq_false] at hnames
    have hchanged := h.changed_iff.mpr ⟨element, helement, hnames⟩
    rw [migrateRunnerToStable_of_none hno] at hchanged
    exact absurd hchanged nofun
  | some found =>
    obtain ⟨a, m, c⟩ := found
    obtain ⟨-, hm⟩ := Regex.search_eq_some recognises_runnerPattern hsearch
    have hresult := h.plist_eq
    have hsettled := h.settled
    rw [hresult] at hsettled
    rw [migrateRunnerToStable_of_some hsearch, text_migrated] at hresult
    -- The second migration found nothing, so no runner is left in the text.
    have hno : ¬Regex.Occurs (isRunner ·) (plist.migrated ('/' :: rest)).text := by
      rw [← Regex.search_eq_none_iff recognises_runnerPattern none]
      cases hagain : runnerPattern.search none (plist.migrated ('/' :: rest)).text with
      | none => rfl
      | some found =>
        rw [migrateRunnerToStable_of_some hagain] at hsettled
        cases congrArg Migration.changed hsettled
    obtain ⟨front, markup, element, back, home, r, helements, hfront, hnames, htext, ha, hc, hstable,
      hrest, hvalue⟩ := exists_of_replaced hsearch hno hresult
    -- The replaced value has no element in it, as there are as many as before.
    have hcount := congrArg (List.count '<') hvalue
    simp only [count_stringElement, count_migratedElements,
      List.count_eq_zero_of_not_mem (notMem_xmlEscape ('/' :: rest))] at hcount
    have hnoElement : '<' ∉ home ++ Regex.expand a m c ('/' :: rest) ++ r :=
      List.count_eq_zero.mp (by omega)
    obtain ⟨hreplaced, hback⟩ := stringElement_inj hnoElement (notMem_xmlEscape _) hvalue
    have hexpand : Regex.expand a m c ('/' :: rest) =
        '/' :: (Regex.templateTokens rest).flatMap (Regex.Token.text a m c) := by
      rw [Regex.expand, Regex.templateTokens_cons (by decide)]
      rfl
    have hr : r = [] := eq_nil_of_namesRunner hm htext hnames
      (hreplaced.symm.trans (by rw [hexpand])) hstable
    rw [hr, List.append_nil] at hreplaced htext
    obtain ⟨rfl, hnoEntity, hnoToken⟩ := plain_of_expand hm ha hc hreplaced
    refine .inr ⟨⟨front, markup, element, back, helements, by rwa [htext], hfront,
      noRunner_of_text_eq hrest hback⟩, hnoEntity, hnoToken, ?_⟩
    rwa [xmlEscape_eq_self hnoEntity] at hstable

theorem migrates_iff (plist : Plist) (stable : List Char) (habsolute : stable.head? = some '/') :
    Migrates plist stable ↔ NoRunner plist ∨ SoleRunner plist ∧ Plain stable := by
  obtain ⟨rest, rfl⟩ := List.head?_eq_some_iff.mp habsolute
  constructor
  · exact noRunner_or_soleRunner
  · rintro (h | ⟨h, hplain⟩)
    · exact h.migrates
    · exact h.migrates hplain

def examplePlist (value : String) (h : '<' ∉ value.toList) : Plist :=
  ⟨[([], ⟨value.toList, h⟩)], []⟩

theorem migrates_iff_example :
    Migrates (examplePlist "/.chatgpt-system/runtime/releases/c8e069b/scripts/daily-driver-runner.mjs"
      (by decide)) "/opt/runner.mjs".toList := by
  refine (migrates_iff _ _ (by decide)).mpr (.inr ⟨⟨[], [], _, [], rfl, by decide +kernel, ?_, ?_⟩, ?_⟩)
  · exact ⟨not_occurs_of_notMem (by decide), nofun⟩
  · exact ⟨not_occurs_of_notMem (by decide), nofun⟩
  · have hdollar (c : Char) : ¬['$', c] <:+: "/opt/runner.mjs".toList := fun h =>
      absurd (h.subset List.mem_cons_self) (by decide)
    exact ⟨by decide, fun c _ => hdollar c,
      (Regex.search_eq_none_iff recognises_runnerPattern none).mp (by decide +kernel)⟩

/-- The daily driver's own property list, with the runtime directory in the home directory. -/
def dailyDriver : Plist :=
  examplePlist "/Users/dogan/.chatgpt-system/runtime/releases/c8e069b/scripts/daily-driver-runner.mjs"
    (by decide)

theorem migrates_counterexample :
    let stable := stableRunnerPath
      (Paths.resolve [] (Paths.parse "/Users/dogan/.chatgpt-system/runtime"))
    (migrateRunnerToStable dailyDriver.text stable).plist =
      ("<string>/Users/dogan/Users/dogan/.chatgpt-system/runtime/chatgpt-system-main" ++
        "/scripts/daily-driver-runner.mjs</string>").toList ∧ ¬Migrates dailyDriver stable := by
  refine ⟨by decide +kernel, fun h => ?_⟩
  exact absurd h.plist_eq (by decide +kernel)

end RunnerMigration
