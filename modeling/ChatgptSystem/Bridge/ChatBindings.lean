import ChatgptSystem.Core.PlainObject
import ChatgptSystem.Core.Text
import Mathlib.Data.List.DropRight
import Mathlib.Data.List.Flatten
import Mathlib.Data.List.Sort

/-!
# Chat bindings

Which project a chat is bound to, as the bridge keeps it in a file: an object that names the
project of each chat, read and written anew with every call.

* `bind`, `read` — the calls, on the stored object; `readPayload`, `pruneBindings`;
* `after` — the stored object after some calls of `bind`;
* `BehavesAsMap` — what a bounded map promises of one chat;
* `behavesAsMap_iff` — which chats the promises are kept for.
-/

namespace ChatBindings

def MAX_CHAT_BINDINGS : ℕ := 200
def MAX_CHAT_ID_CHARS : ℕ := 128
def MAX_CHAT_ALIAS_CHARS : ℕ := 128

/-- `[A-Za-z0-9._-]` -/
def isChatIdChar (c : Char) : Bool :=
  ('A' ≤ c && c ≤ 'Z') || ('a' ≤ c && c ≤ 'z') || ('0' ≤ c && c ≤ '9') ||
    c = '.' || c = '_' || c = '-'

/-- `CHAT_ID_PATTERN` -/
def isChatId (text : List Char) : Bool :=
  1 ≤ text.length && text.length ≤ MAX_CHAT_ID_CHARS && text.all isChatIdChar

def normalizeChatId (value : List Char) : List Char :=
  let trimmed := Text.slice MAX_CHAT_ID_CHARS (Text.trim value)
  if isChatId trimmed then trimmed else []

/-- An entry. The time is that of the text in `boundAt`, in milliseconds: in the years 0 to 9999,
the texts are in the order of time. -/
structure ChatBindingEntry where
  aliasName : List Char
  boundAt : ℕ
  deriving DecidableEq

/-- The own properties of the object `bindings`. -/
abbrev Bindings : Type := List (List Char × ChatBindingEntry)

/-- The object `bindings`: its own properties, and its prototype if that has been replaced. -/
structure ChatBindingsPayload where
  bindings : Bindings
  proto : Option ChatBindingEntry

inductive ChatBindingsError where
  | error (message : String)
  /-- A member of something that has no members. -/
  | typeError
  deriving DecidableEq

inductive Member where
  | entry (entry : ChatBindingEntry)
  /-- A value that is inherited and has no `alias`. -/
  | inherited
  | undefined

/-- The properties of `Object.prototype`. -/
def objectPrototypeNames : List String := ["constructor", "__defineGetter__", "__defineSetter__",
  "hasOwnProperty", "__lookupGetter__", "__lookupSetter__", "isPrototypeOf",
  "propertyIsEnumerable", "toString", "valueOf", "__proto__", "toLocaleString"]

namespace ChatBindingsPayload

def emptyPayload : ChatBindingsPayload := ⟨[], none⟩

/-- `payload.bindings[chatId] = entry` -/
def assign (payload : ChatBindingsPayload) (chatId : List Char) (entry : ChatBindingEntry) :
    ChatBindingsPayload :=
  -- This name is no property of its own but sets the prototype.
  if chatId = "__proto__".toList then { payload with proto := some entry }
  else { payload with bindings := PlainObject.set chatId entry payload.bindings }

/-- `payload.bindings[chatId]` -/
def member (payload : ChatBindingsPayload) (chatId : List Char) : Member :=
  match payload.bindings.lookup chatId with
  | some entry => .entry entry
  | none =>
    match payload.proto with
    | some entry =>
      if chatId = "__proto__".toList then .entry entry
      else if chatId = "alias".toList ∨ chatId = "boundAt".toList then .inherited
      else if String.ofList chatId ∈ objectPrototypeNames then .inherited
      else .undefined
    | none =>
      if String.ofList chatId ∈ objectPrototypeNames then .inherited else .undefined

end ChatBindingsPayload

open ChatBindingsPayload (emptyPayload)

def pruneBindings (payload : ChatBindingsPayload) : ChatBindingsPayload :=
  let entries := payload.bindings
  if entries.length ≤ MAX_CHAT_BINDINGS then payload
  else
    let sorted := entries.insertionSort fun left right => left.2.boundAt ≤ right.2.boundAt
    let removed := (sorted.take (entries.length - MAX_CHAT_BINDINGS)).map Prod.fst
    { payload with bindings := PlainObject.delete removed payload.bindings }

/-- One round of the loop over the properties of the file. -/
def readProperty (payload : ChatBindingsPayload) (property : List Char × ChatBindingEntry) :
    ChatBindingsPayload :=
  let chatId := normalizeChatId property.1
  let aliasName := Text.trim property.2.aliasName
  if chatId = [] ∨ aliasName = [] then payload
  else payload.assign chatId ⟨Text.slice MAX_CHAT_ALIAS_CHARS aliasName, property.2.boundAt⟩

/-- Read the file, if there is one. It holds the own properties of the object that was written. -/
def readPayload (file : Option Bindings) : ChatBindingsPayload :=
  (file.getD []).foldl readProperty emptyPayload

/-- A call of `bind`, and the time it reads from the clock. -/
structure BindCall where
  rawChatId : List Char
  rawAlias : List Char
  now : ℕ

/-- The file a call of `bind` leaves, if it returns. -/
def bind (file : Option Bindings) (call : BindCall) : Except ChatBindingsError Bindings :=
  let chatId := normalizeChatId call.rawChatId
  let aliasName := Text.slice MAX_CHAT_ALIAS_CHARS (Text.trim call.rawAlias)
  if chatId = [] then .error (.error "Chat binding requires a valid chat id.")
  else if aliasName = [] then .error (.error "Chat binding requires a non-empty alias.")
  else .ok (pruneBindings ((readPayload file).assign chatId ⟨aliasName, call.now⟩)).bindings

def read (file : Option Bindings) (rawChatId : List Char) :
    Except ChatBindingsError (Option (List Char)) :=
  let chatId := normalizeChatId rawChatId
  if chatId = [] then .ok none
  else match (readPayload file).member chatId with
    | .undefined => .ok none
    | .inherited => .error .typeError
    | .entry entry =>
      let aliasName := Text.slice MAX_CHAT_ALIAS_CHARS (Text.trim entry.aliasName)
      .ok (if aliasName = [] then none else some aliasName)

/-- The file after calls of `bind`, one after another; there is none at first. -/
def after (calls : List BindCall) : Option Bindings :=
  calls.foldl (fun file call => match bind file call with
    | .ok file => some file
    | .error _ => file) none

/-! ## A bounded map -/

/-- The calls come in the order of time, each with an alias of at most 128 characters. -/
structure Orderly (calls : List BindCall) : Prop where
  ordered : calls.Pairwise fun call later => call.now ≤ later.now
  bounded : ∀ call ∈ calls, Text.length call.rawAlias ≤ MAX_CHAT_ALIAS_CHARS

structure BehavesAsMap (calls : List BindCall) (chatId : List Char) : Prop where
  answers : ∃ answer, read (after calls) chatId = .ok answer
  unbound : (∀ call ∈ calls, normalizeChatId call.rawChatId ≠ chatId) →
    read (after calls) chatId = .ok none
  bound : ∀ earlier call file, calls = earlier ++ [call] → bind (after earlier) call = .ok file →
    normalizeChatId call.rawChatId = chatId →
    read (after calls) chatId = .ok (some (Text.trim call.rawAlias))
  /-- A call for another chat removes an entry only if all places are taken, and then one of the
  oldest. -/
  others : ∀ earlier call, calls = earlier ++ [call] → normalizeChatId call.rawChatId ≠ chatId →
    read (after calls) chatId = read (after earlier) chatId ∨
      read (after calls) chatId = .ok none ∧
        ((after earlier).getD []).length = MAX_CHAT_BINDINGS ∧
        ∃ entry, (chatId, entry) ∈ (after earlier).getD [] ∧ entry.boundAt ≤ call.now ∧
          ∀ property ∈ (after earlier).getD [], entry.boundAt ≤ property.2.boundAt

/-- All places are taken by entries of the given time, and the chat is an array index that is
enumerated before them. -/
def ComesFirst (own : Bindings) (chatId : List Char) (now : ℕ) : Prop :=
  own.length = MAX_CHAT_BINDINGS ∧ (∀ property ∈ own, property.2.boundAt = now) ∧
    ∃ n, PlainObject.arrayIndex? chatId = some n ∧
      ∀ property ∈ own, ∀ m, PlainObject.arrayIndex? property.1 = some m → n < m

/-! ## Texts -/

theorem toNat_of_isChatIdChar {c : Char} (h : isChatIdChar c = true) :
    0x2D ≤ c.toNat ∧ c.toNat ≤ 0x7A := by
  have hle : ∀ a b : Char, a ≤ b ↔ a.toNat ≤ b.toNat := fun _ _ => Iff.rfl
  have heq : ∀ a b : Char, a = b ↔ a.toNat = b.toNat := fun _ _ => Char.toNat_inj.symm
  have hbounds : 'a'.toNat = 0x61 ∧ 'z'.toNat = 0x7A ∧ '0'.toNat = 0x30 ∧ '9'.toNat = 0x39 ∧
      'A'.toNat = 0x41 ∧ 'Z'.toNat = 0x5A ∧ '.'.toNat = 0x2E ∧ '_'.toNat = 0x5F ∧
      '-'.toNat = 0x2D := by decide
  simp only [isChatIdChar, Bool.or_eq_true, Bool.and_eq_true, decide_eq_true_eq, hle, heq] at h
  omega

theorem isWhiteSpace_of_isChatIdChar {c : Char} (h : isChatIdChar c = true) :
    Text.isWhiteSpace c = false := by
  have hrange := toNat_of_isChatIdChar h
  simp only [Text.isWhiteSpace, Bool.or_eq_false_iff, Bool.and_eq_false_iff,
    decide_eq_false_iff_not, beq_eq_false_iff_ne]
  omega

theorem trim_trim (text : List Char) : Text.trim (Text.trim text) = Text.trim text := by
  have hstart : (Text.trim text).dropWhile Text.isWhiteSpace = Text.trim text := by
    refine List.dropWhile_eq_self_iff.mpr fun hpos => ?_
    have hbegin : Text.trim text <+: text.dropWhile Text.isWhiteSpace :=
      List.rdropWhile_prefix Text.isWhiteSpace _
    have hne : text.dropWhile Text.isWhiteSpace ≠ [] :=
      List.length_pos_iff.mp (hpos.trans_le hbegin.length_le)
    rw [hbegin.getElem hpos, ← List.head_eq_getElem hne,
      List.head_dropWhile_not Text.isWhiteSpace hne]
    exact Bool.false_ne_true
  rw [Text.trim, hstart]
  exact List.rdropWhile_idempotent Text.isWhiteSpace _

theorem length_trim_le (text : List Char) : Text.length (Text.trim text) ≤ Text.length text := by
  have hsub : (Text.trim text).Sublist text :=
    (List.rdropWhile_prefix Text.isWhiteSpace _).sublist.trans (List.dropWhile_sublist _)
  exact (hsub.flatMap Text.codeUnits).length_le

theorem length_of_isChatId {text : List Char} (h : isChatId text = true) :
    Text.length text ≤ MAX_CHAT_ID_CHARS := by
  simp only [isChatId, Bool.and_eq_true, decide_eq_true_eq, List.all_eq_true] at h
  obtain ⟨⟨-, hlength⟩, hall⟩ := h
  have hunits : Text.length text = text.length := by
    clear hlength
    induction text with
    | nil => rfl
    | cons c text ih =>
      have hc := toNat_of_isChatIdChar (hall c List.mem_cons_self)
      rw [Text.length, List.flatMap_cons, List.length_append, Text.codeUnits, if_pos (by omega),
        List.length_cons]
      exact (Nat.add_comm _ _).trans
        (congrArg (· + 1) (ih fun c hmem => hall c (List.mem_cons_of_mem _ hmem)))
  rwa [hunits]

theorem normalizeChatId_of_isChatId {text : List Char} (h : isChatId text = true) :
    normalizeChatId text = text := by
  have hall : ∀ c ∈ text, isChatIdChar c = true :=
    List.all_eq_true.mp (Bool.and_eq_true_iff.mp h).2
  have htrim : Text.trim text = text :=
    Text.trim_eq_self fun c hc => isWhiteSpace_of_isChatIdChar (hall c hc)
  rw [normalizeChatId, htrim, Text.slice_eq_self (length_of_isChatId h), if_pos h]

theorem isChatId_normalizeChatId {value : List Char} (h : normalizeChatId value ≠ []) :
    isChatId (normalizeChatId value) = true := by
  unfold normalizeChatId at h ⊢
  dsimp only at h ⊢
  split at h
  next hid => rwa [if_pos hid]
  next => exact absurd rfl h

/-! ## What the file holds -/

def stored (calls : List BindCall) : Bindings := (after calls).getD []

/-- The entries of the stored object are such as `bind` makes them. -/
structure Kept (calls : List BindCall) (own : Bindings) : Prop where
  enumerated : PlainObject.Enumerated own
  room : own.length ≤ MAX_CHAT_BINDINGS
  validId : ∀ property ∈ own, isChatId property.1 = true
  ownName : ∀ property ∈ own, property.1 ≠ "__proto__".toList
  trimmed : ∀ property ∈ own, Text.trim property.2.aliasName = property.2.aliasName ∧
    property.2.aliasName ≠ [] ∧ Text.length property.2.aliasName ≤ MAX_CHAT_ALIAS_CHARS
  call : ∀ property ∈ own, ∃ call ∈ calls,
    normalizeChatId call.rawChatId = property.1 ∧ property.2.boundAt = call.now

theorem ne_nil_of_isChatId {text : List Char} (h : isChatId text = true) : text ≠ [] := by
  rintro rfl
  exact absurd h (by decide)

namespace Kept

variable {calls : List BindCall} {own : Bindings} {file : Option Bindings}

theorem readProperty_eq (h : Kept calls own) {property : List Char × ChatBindingEntry}
    (hmem : property ∈ own) (object : Bindings) :
    readProperty ⟨object, none⟩ property =
      ⟨PlainObject.set property.1 property.2 object, none⟩ := by
  obtain ⟨htrim, hne, hlength⟩ := h.trimmed property hmem
  have hid := h.validId property hmem
  have hnone : ¬ (property.1 = [] ∨ property.2.aliasName = []) :=
    not_or.mpr ⟨ne_nil_of_isChatId hid, hne⟩
  unfold readProperty
  simp only [normalizeChatId_of_isChatId hid, htrim, Text.slice_eq_self hlength, if_neg hnone]
  rw [ChatBindingsPayload.assign, if_neg (h.ownName property hmem)]

theorem readPayload_eq (h : Kept calls own) (hfile : file.getD [] = own) :
    readPayload file = ⟨own, none⟩ := by
  have hfold : ∀ properties object, properties ⊆ own →
      properties.foldl readProperty ⟨object, none⟩ = ⟨properties.foldl (fun object property =>
        PlainObject.set property.1 property.2 object) object, none⟩ := by
    intro properties
    induction properties with
    | nil => exact fun _ _ => rfl
    | cons property properties ih =>
      intro object hsub
      obtain ⟨hmem, hsub⟩ := List.cons_subset.mp hsub
      rw [List.foldl_cons, h.readProperty_eq hmem, ih _ hsub]
      rfl
  rw [readPayload, hfile, emptyPayload, hfold own [] (List.Subset.refl own),
    h.enumerated.foldl_set]

theorem read_eq (h : Kept calls own) (hfile : file.getD [] = own) {chatId : List Char}
    (hid : isChatId chatId = true) (hname : String.ofList chatId ∉ objectPrototypeNames) :
    read file chatId = .ok ((own.lookup chatId).map ChatBindingEntry.aliasName) := by
  unfold read
  simp only [normalizeChatId_of_isChatId hid, if_neg (ne_nil_of_isChatId hid),
    h.readPayload_eq hfile, ChatBindingsPayload.member]
  cases hlookup : own.lookup chatId with
  | none => simp [hname]
  | some entry =>
    obtain ⟨htrim, hne, hlength⟩ := h.trimmed _ (h.enumerated.lookup_eq_some_iff.mp hlookup)
    simp only [htrim, Text.slice_eq_self hlength, if_neg hne, Option.map_some]

end Kept

/-! ## Pruning -/

def pruned (own : Bindings) : Bindings := (pruneBindings ⟨own, none⟩).bindings

theorem pruned_subset (own : Bindings) : pruned own ⊆ own := by
  unfold pruned pruneBindings
  dsimp only
  split
  · exact List.Subset.refl own
  · exact List.filter_subset_self _

theorem pruned_cases {own : Bindings} (h : own.length ≤ MAX_CHAT_BINDINGS + 1) :
    (own.length ≤ MAX_CHAT_BINDINGS ∧ pruned own = own) ∨
      own.length = MAX_CHAT_BINDINGS + 1 ∧ ∃ oldest ∈ own,
        pruned own = PlainObject.delete [oldest.1] own ∧
        (∀ property ∈ own, oldest.2.boundAt ≤ property.2.boundAt) ∧
        ((∀ property ∈ own, ∀ property' ∈ own, property.2.boundAt = property'.2.boundAt) →
          own.head? = some oldest) := by
  by_cases hroom : own.length ≤ MAX_CHAT_BINDINGS
  · exact .inl ⟨hroom, by rw [pruned, pruneBindings, if_pos hroom]⟩
  have hlength : own.length = MAX_CHAT_BINDINGS + 1 := by omega
  let before : List Char × ChatBindingEntry → List Char × ChatBindingEntry → Prop :=
    fun left right => left.2.boundAt ≤ right.2.boundAt
  have hperm := List.perm_insertionSort before own
  have hsorted : (own.insertionSort before).Pairwise before := by
    have : Std.Total before := ⟨fun a b => Nat.le_total _ _⟩
    have : IsTrans _ before := ⟨fun a b c => Nat.le_trans⟩
    exact List.pairwise_insertionSort before own
  cases hsort : own.insertionSort before with
  | nil => simp [← hperm.length_eq, hsort] at hroom
  | cons oldest rest =>
    rw [hsort] at hperm hsorted
    refine .inr ⟨hlength, oldest, hperm.mem_iff.mp List.mem_cons_self, ?_, ?_, ?_⟩
    · rw [pruned, pruneBindings, if_neg hroom]
      have hone : own.length - MAX_CHAT_BINDINGS = 1 := by omega
      show PlainObject.delete (((own.insertionSort before).take _).map Prod.fst) own = _
      rw [hone, hsort]
      rfl
    · intro property hproperty
      rcases List.mem_cons.mp (hperm.mem_iff.mpr hproperty) with rfl | hmem
      · exact Nat.le_refl _
      · exact (List.pairwise_cons.mp hsorted).1 property hmem
    · intro hsame
      have hordered : own.Pairwise before := List.pairwise_iff_forall_sublist.mpr
        fun {a b} hab => (hsame a (hab.subset (by simp)) b (hab.subset (by simp))).le
      rw [hordered.insertionSort_eq] at hsort
      rw [hsort, List.head?_cons]

/-! ## One call -/

section Step

variable {earlier : List BindCall} {call : BindCall} {own : Bindings} {file : Option Bindings}

theorem bind_cases (h : Kept earlier own) (hfile : file.getD [] = own)
    (hbounded : Text.length call.rawAlias ≤ MAX_CHAT_ALIAS_CHARS) :
    ((∃ e, bind file call = .error e) ∧
        (normalizeChatId call.rawChatId = [] ∨ Text.trim call.rawAlias = [])) ∨
      Text.trim call.rawAlias ≠ [] ∧ isChatId (normalizeChatId call.rawChatId) = true ∧
        bind file call = .ok (if normalizeChatId call.rawChatId = "__proto__".toList then own
          else pruned (PlainObject.set (normalizeChatId call.rawChatId)
            ⟨Text.trim call.rawAlias, call.now⟩ own)) := by
  have hslice := Text.slice_eq_self ((length_trim_le call.rawAlias).trans hbounded)
  unfold bind
  simp only [hslice, h.readPayload_eq hfile]
  split
  next hid => exact .inl ⟨⟨_, rfl⟩, .inl hid⟩
  next hid =>
    split
    next hne => exact .inl ⟨⟨_, rfl⟩, .inr hne⟩
    next hne =>
      refine .inr ⟨hne, isChatId_normalizeChatId hid, congrArg Except.ok ?_⟩
      unfold ChatBindingsPayload.assign
      split
      next => rw [pruneBindings, if_pos h.room]
      next => rfl

theorem stored_append (earlier : List BindCall) (call : BindCall) :
    stored (earlier ++ [call]) = match bind (after earlier) call with
      | .ok file => file
      | .error _ => stored earlier := by
  rw [stored, after, List.foldl_append, List.foldl_cons, List.foldl_nil]
  show Option.getD (match bind (after earlier) call with
    | .ok file => some file
    | .error _ => after earlier) [] = _
  cases bind (after earlier) call <;> rfl

theorem Kept.mono (h : Kept earlier own) (call : BindCall) : Kept (earlier ++ [call]) own :=
  { h with
    call := fun property hproperty =>
      let ⟨call, hcall, hid⟩ := h.call property hproperty
      ⟨call, List.mem_append_left _ hcall, hid⟩ }

theorem length_set_le (h : Kept earlier own) (chatId : List Char) (entry : ChatBindingEntry) :
    (PlainObject.set chatId entry own).length ≤ MAX_CHAT_BINDINGS + 1 := by
  have hroom := h.room
  by_cases hmem : ∃ old, (chatId, old) ∈ own
  · rw [PlainObject.length_set_of_mem hmem]
    omega
  · rw [PlainObject.length_set_of_notMem (not_exists.mp hmem)]
    omega

theorem Kept.pruned_set (h : Kept earlier own)
    (hbounded : Text.length call.rawAlias ≤ MAX_CHAT_ALIAS_CHARS)
    (hne : Text.trim call.rawAlias ≠ [])
    (hid : ChatBindings.isChatId (normalizeChatId call.rawChatId) = true)
    (hproto : normalizeChatId call.rawChatId ≠ "__proto__".toList) :
    Kept (earlier ++ [call]) (pruned (PlainObject.set (normalizeChatId call.rawChatId)
      ⟨Text.trim call.rawAlias, call.now⟩ own)) := by
  have henumerated := h.enumerated.set (normalizeChatId call.rawChatId)
    ⟨Text.trim call.rawAlias, call.now⟩
  have hall : ∀ property ∈ PlainObject.set (normalizeChatId call.rawChatId)
      ⟨Text.trim call.rawAlias, call.now⟩ own,
      property = (normalizeChatId call.rawChatId, ⟨Text.trim call.rawAlias, call.now⟩) ∨
        property ∈ own := by
    rintro ⟨key, entry⟩ hmem
    rcases PlainObject.mem_set.mp hmem with ⟨rfl, rfl⟩ | ⟨-, hown⟩
    · exact .inl rfl
    · exact .inr hown
  obtain ⟨hkept, hsub, hroom⟩ : PlainObject.Enumerated (pruned (PlainObject.set
        (normalizeChatId call.rawChatId) ⟨Text.trim call.rawAlias, call.now⟩ own)) ∧
      pruned (PlainObject.set (normalizeChatId call.rawChatId)
        ⟨Text.trim call.rawAlias, call.now⟩ own) ⊆ PlainObject.set
        (normalizeChatId call.rawChatId) ⟨Text.trim call.rawAlias, call.now⟩ own ∧
      (pruned (PlainObject.set (normalizeChatId call.rawChatId)
        ⟨Text.trim call.rawAlias, call.now⟩ own)).length ≤ MAX_CHAT_BINDINGS := by
    rcases pruned_cases (length_set_le h _ ⟨Text.trim call.rawAlias, call.now⟩) with
      ⟨hroom, heq⟩ | ⟨hlength, oldest, holdest, heq, -, -⟩
    · rw [heq]
      exact ⟨henumerated, List.Subset.refl _, hroom⟩
    · rw [heq]
      refine ⟨henumerated.delete _, List.filter_subset_self _, Nat.le_of_lt_succ ?_⟩
      rw [← Nat.succ_eq_add_one] at hlength
      rw [← hlength, PlainObject.delete, List.length_filter_lt_length_iff_exists]
      exact ⟨oldest, holdest, by simp⟩
  refine ⟨hkept, hroom, fun property hmem => ?_, fun property hmem => ?_, fun property hmem => ?_,
    fun property hmem => ?_⟩ <;> rcases hall property (hsub hmem) with rfl | hown
  · exact hid
  · exact h.validId property hown
  · exact hproto
  · exact h.ownName property hown
  · exact ⟨trim_trim _, hne, (length_trim_le _).trans hbounded⟩
  · exact h.trimmed property hown
  · exact ⟨call, List.mem_append_right _ List.mem_cons_self, rfl, rfl⟩
  · exact (h.mono call).call property hown

end Step

/-! ## All calls -/

theorem Orderly.front {earlier : List BindCall} {call : BindCall}
    (h : Orderly (earlier ++ [call])) : Orderly earlier :=
  ⟨(List.pairwise_append.mp h.ordered).1,
    fun call hcall => h.bounded call (List.mem_append_left _ hcall)⟩

theorem kept {calls : List BindCall} (h : Orderly calls) : Kept calls (stored calls) := by
  induction calls using List.reverseRecOn with
  | nil => exact ⟨.nil, Nat.zero_le _, nofun, nofun, nofun, nofun⟩
  | append_singleton earlier call ih =>
    have hearlier := ih h.front
    have hbounded := h.bounded call (List.mem_append_right _ List.mem_cons_self)
    rw [stored_append]
    rcases bind_cases hearlier rfl hbounded with ⟨⟨e, herror⟩, -⟩ | ⟨hne, hid, hok⟩
    · rw [herror]
      exact hearlier.mono call
    · rw [hok]
      split_ifs with hproto
      · exact hearlier.mono call
      · exact hearlier.pruned_set hbounded hne hid hproto

theorem boundAt_le {earlier : List BindCall} {call : BindCall} (h : Orderly (earlier ++ [call]))
    {property : List Char × ChatBindingEntry} (hmem : property ∈ stored earlier) :
    property.2.boundAt ≤ call.now := by
  obtain ⟨before, hbefore, -, htime⟩ := (kept h.front).call property hmem
  rw [htime]
  exact (List.pairwise_append.mp h.ordered).2.2 before hbefore call List.mem_cons_self

section Newest

variable {own : Bindings} {chatId : List Char} {entry : ChatBindingEntry}

theorem absent_of_full (hroom : own.length ≤ MAX_CHAT_BINDINGS)
    (hlength : (PlainObject.set chatId entry own).length = MAX_CHAT_BINDINGS + 1) :
    (∀ property ∈ own, property.1 ≠ chatId) ∧ own.length = MAX_CHAT_BINDINGS := by
  have habsent : ∀ w, (chatId, w) ∉ own := fun w hw => by
    rw [PlainObject.length_set_of_mem ⟨w, hw⟩] at hlength
    omega
  rw [PlainObject.length_set_of_notMem habsent] at hlength
  exact ⟨fun property hproperty heq => habsent property.2 (heq ▸ hproperty), Nat.succ.inj hlength⟩

theorem newest_notMem (h : ComesFirst own chatId entry.boundAt) :
    (chatId, entry) ∉ pruned (PlainObject.set chatId entry own) := by
  obtain ⟨hfull, hsame, n, hn, hfirst⟩ := h
  have habsent : ∀ w, (chatId, w) ∉ own := fun w hw => Nat.lt_irrefl n (hfirst _ hw n hn)
  have hbehind : ∀ property ∈ own, ¬ PlainObject.Precedes property.1 chatId := by
    intro property hproperty
    unfold PlainObject.Precedes
    cases hm : PlainObject.arrayIndex? property.1 with
    | none => simp [hn]
    | some m => simpa [hn] using (hfirst property hproperty m hm).le
  rw [PlainObject.set_of_not_precedes habsent hbehind]
  have hlength : ((chatId, entry) :: own).length = MAX_CHAT_BINDINGS + 1 :=
    congrArg (· + 1) hfull
  have hall : ∀ property ∈ (chatId, entry) :: own, property.2.boundAt = entry.boundAt := by
    intro property hproperty
    rcases List.mem_cons.mp hproperty with rfl | hown
    · rfl
    · exact hsame property hown
  rcases pruned_cases hlength.le with ⟨hroom, -⟩ | ⟨-, oldest, -, hpruned, -, hhead⟩
  · omega
  · obtain rfl := Option.some.inj (hhead fun property hproperty property' hproperty' =>
      (hall property hproperty).trans (hall property' hproperty').symm)
    rw [hpruned]
    exact fun hmem => (PlainObject.mem_delete.mp hmem).2 List.mem_cons_self

theorem comesFirst_of_notMem (h : PlainObject.Enumerated own)
    (hroom : own.length ≤ MAX_CHAT_BINDINGS)
    (hyoung : ∀ property ∈ own, property.2.boundAt ≤ entry.boundAt)
    (hnot : (chatId, entry) ∉ pruned (PlainObject.set chatId entry own)) :
    ComesFirst own chatId entry.boundAt := by
  have henumerated := h.set chatId entry
  have hnew : (chatId, entry) ∈ PlainObject.set chatId entry own :=
    PlainObject.mem_set.mpr (.inl ⟨rfl, rfl⟩)
  have hlength : (PlainObject.set chatId entry own).length ≤ MAX_CHAT_BINDINGS + 1 := by
    by_cases hmem : ∃ w, (chatId, w) ∈ own
    · rw [PlainObject.length_set_of_mem hmem]
      omega
    · rw [PlainObject.length_set_of_notMem (not_exists.mp hmem)]
      omega
  rcases pruned_cases hlength with ⟨-, hpruned⟩ | ⟨hlength, oldest, holdest, hpruned, hleast, hhead⟩
  · rw [hpruned] at hnot
    exact absurd hnew hnot
  have hkey : oldest.1 = chatId := by
    by_contra hother
    rw [hpruned] at hnot
    exact hnot (PlainObject.mem_delete.mpr ⟨hnew, by simpa using Ne.symm hother⟩)
  obtain rfl : oldest = (chatId, entry) :=
    Prod.ext hkey (henumerated.eq_of_mem (hkey ▸ holdest) hnew)
  obtain ⟨hne, hfull⟩ := absent_of_full hroom hlength
  have hsame : ∀ property ∈ own, property.2.boundAt = entry.boundAt := fun property hproperty =>
    Nat.le_antisymm (hyoung property hproperty)
      (hleast property (PlainObject.mem_set.mpr (.inr ⟨hne property hproperty, hproperty⟩)))
  have hall : ∀ property ∈ PlainObject.set chatId entry own,
      property.2.boundAt = entry.boundAt := by
    rintro ⟨key, w⟩ hproperty
    rcases PlainObject.mem_set.mp hproperty with ⟨-, rfl⟩ | ⟨-, hown⟩
    · rfl
    · exact hsame _ hown
  obtain ⟨rest, hrest⟩ : ∃ rest, PlainObject.set chatId entry own = (chatId, entry) :: rest :=
    List.head?_eq_some_iff.mp (hhead fun property hproperty property' hproperty' =>
      (hall property hproperty).trans (hall property' hproperty').symm)
  have hbehind : ∀ property ∈ own, PlainObject.Precedes chatId property.1 := by
    intro property hproperty
    have hmem : property ∈ PlainObject.set chatId entry own :=
      PlainObject.mem_set.mpr (.inr ⟨hne property hproperty, hproperty⟩)
    rw [hrest] at hmem henumerated
    rcases List.mem_cons.mp hmem with rfl | hmem
    · exact absurd rfl (hne _ hproperty)
    · exact (List.pairwise_cons.mp henumerated).1 property hmem
  refine ⟨hfull, hsame, ?_⟩
  cases hindex : PlainObject.arrayIndex? chatId with
  | none =>
    -- Any other key goes behind the entries that are there.
    have hbefore : ∀ property ∈ own, PlainObject.Precedes property.1 chatId := by
      intro property hproperty
      by_contra hprecedes
      obtain ⟨-, n, hn⟩ := PlainObject.precedes_of_not hprecedes (hne property hproperty)
      rw [hindex] at hn
      cases hn
    rw [PlainObject.set_of_precedes hbefore] at hrest
    cases own with
    | nil => cases hfull
    | cons property own =>
      obtain ⟨rfl, -⟩ := List.cons.inj hrest
      exact absurd rfl (hne _ List.mem_cons_self)
  | some n =>
    refine ⟨n, rfl, fun property hproperty m hm => ?_⟩
    have hprecedes := hbehind property hproperty
    unfold PlainObject.Precedes at hprecedes
    simpa [hindex, hm] using hprecedes

end Newest

/-! ## The promises -/

def PrunesItself (file : Option Bindings) (call : BindCall) : Prop :=
  Text.trim call.rawAlias ≠ [] ∧
    ComesFirst (file.getD []) (normalizeChatId call.rawChatId) call.now

variable {chatId : List Char}

theorem ne_proto (hname : String.ofList chatId ∉ objectPrototypeNames) :
    chatId ≠ "__proto__".toList := by
  rintro rfl
  exact hname (by decide)

theorem read_stored {calls : List BindCall} (h : Orderly calls) (hid : isChatId chatId = true)
    (hname : String.ofList chatId ∉ objectPrototypeNames) :
    read (after calls) chatId =
      .ok (((stored calls).lookup chatId).map ChatBindingEntry.aliasName) :=
  (kept h).read_eq rfl hid hname

theorem lookup_congr {own own' : Bindings} (h : PlainObject.Enumerated own)
    (h' : PlainObject.Enumerated own')
    (hsame : ∀ entry, (chatId, entry) ∈ own ↔ (chatId, entry) ∈ own') :
    own.lookup chatId = own'.lookup chatId := by
  refine Option.ext fun entry => ?_
  rw [h.lookup_eq_some_iff, h'.lookup_eq_some_iff, hsame]

theorem lookup_eq_none {own : Bindings} (h : PlainObject.Enumerated own)
    (habsent : ∀ entry, (chatId, entry) ∉ own) : own.lookup chatId = none := by
  cases hlookup : own.lookup chatId with
  | none => rfl
  | some entry => exact absurd (h.lookup_eq_some_iff.mp hlookup) (habsent entry)

section Last

variable {earlier : List BindCall} {call : BindCall}

theorem read_bound (h : Orderly (earlier ++ [call])) {file : Bindings}
    (hok : bind (after earlier) call = .ok file)
    (hname : String.ofList (normalizeChatId call.rawChatId) ∉ objectPrototypeNames) :
    read (after (earlier ++ [call])) (normalizeChatId call.rawChatId) =
        .ok (some (Text.trim call.rawAlias)) ↔ ¬ PrunesItself (after earlier) call := by
  have hearlier := kept h.front
  have hbounded := h.bounded call (List.mem_append_right _ List.mem_cons_self)
  rcases bind_cases hearlier rfl hbounded with ⟨⟨e, herror⟩, -⟩ | ⟨hne, hid, hbind⟩
  · rw [herror] at hok
    cases hok
  rw [if_neg (ne_proto hname)] at hbind
  have hstored := stored_append earlier call
  rw [hbind] at hstored
  rw [read_stored h hid hname]
  have henumerated := (kept h).enumerated
  dsimp only at hstored
  rw [hstored] at henumerated ⊢
  constructor
  · rintro hread ⟨-, hfirst⟩
    rw [lookup_eq_none henumerated] at hread
    · cases hread
    · intro entry hentry
      rcases PlainObject.mem_set.mp (pruned_subset _ hentry) with ⟨-, rfl⟩ | ⟨hother, -⟩
      · exact newest_notMem hfirst hentry
      · exact hother rfl
  · intro hnot
    have hmem : (normalizeChatId call.rawChatId, ⟨Text.trim call.rawAlias, call.now⟩) ∈
        pruned (PlainObject.set (normalizeChatId call.rawChatId)
          ⟨Text.trim call.rawAlias, call.now⟩ (stored earlier)) := by
      by_contra hmem
      exact hnot ⟨hne, comesFirst_of_notMem hearlier.enumerated hearlier.room
        (fun property hproperty => boundAt_le h hproperty) hmem⟩
    rw [henumerated.lookup_eq_some_iff.mpr hmem]
    rfl

theorem read_other (h : Orderly (earlier ++ [call])) {chatId : List Char}
    (hid : isChatId chatId = true) (hname : String.ofList chatId ∉ objectPrototypeNames)
    (hother : normalizeChatId call.rawChatId ≠ chatId) :
    read (after (earlier ++ [call])) chatId = read (after earlier) chatId ∨
      read (after (earlier ++ [call])) chatId = .ok none ∧
        (stored earlier).length = MAX_CHAT_BINDINGS ∧
        ∃ entry, (chatId, entry) ∈ stored earlier ∧ entry.boundAt ≤ call.now ∧
          ∀ property ∈ stored earlier, entry.boundAt ≤ property.2.boundAt := by
  have hearlier := kept h.front
  have hbounded := h.bounded call (List.mem_append_right _ List.mem_cons_self)
  have hstored := stored_append earlier call
  have henumerated := (kept h).enumerated
  rw [read_stored h hid hname, read_stored h.front hid hname]
  rcases bind_cases hearlier rfl hbounded with ⟨⟨e, herror⟩, -⟩ | ⟨hne, -, hbind⟩
  · rw [herror] at hstored
    exact .inl (by rw [hstored])
  rw [hbind] at hstored
  dsimp only at hstored
  split_ifs at hstored with hproto
  · exact .inl (by rw [hstored])
  rw [hstored] at henumerated ⊢
  generalize hentry : (⟨Text.trim call.rawAlias, call.now⟩ : ChatBindingEntry) = entry
    at henumerated ⊢
  have hkeep : ∀ w, (chatId, w) ∈ PlainObject.set (normalizeChatId call.rawChatId) entry
      (stored earlier) ↔ (chatId, w) ∈ stored earlier := fun w => by
    rw [PlainObject.mem_set]
    simp [hother.symm]
  rcases pruned_cases (length_set_le hearlier (normalizeChatId call.rawChatId) entry) with
    ⟨-, hpruned⟩ | ⟨hlength, oldest, holdest, hpruned, hleast, -⟩
  · rw [hpruned] at henumerated ⊢
    exact .inl (by rw [lookup_congr henumerated hearlier.enumerated hkeep])
  · rw [hpruned] at henumerated ⊢
    by_cases hkey : oldest.1 = chatId
    · have hmem : (chatId, oldest.2) ∈ stored earlier := (hkeep oldest.2).mp (hkey ▸ holdest)
      have hyoung := @boundAt_le _ _ h (chatId, oldest.2) hmem
      obtain ⟨hne, hfull⟩ := absent_of_full hearlier.room hlength
      refine .inr ⟨?_, hfull, oldest.2, hmem, hyoung, fun property hproperty => ?_⟩
      · rw [lookup_eq_none henumerated]
        · rfl
        · exact fun w hw => (PlainObject.mem_delete.mp hw).2 (by simp [hkey])
      · exact hleast property
          (PlainObject.mem_set.mpr (.inr ⟨hne property hproperty, hproperty⟩))
    · refine .inl ?_
      rw [lookup_congr henumerated hearlier.enumerated fun w => ?_]
      rw [PlainObject.mem_delete, hkeep]
      simp [Ne.symm hkey]

end Last

theorem read_inherited (hid : isChatId chatId = true)
    (hname : String.ofList chatId ∈ objectPrototypeNames) :
    read (after []) chatId = .error .typeError := by
  have hmember : (readPayload (after [])).member chatId = .inherited := by
    show (if String.ofList chatId ∈ objectPrototypeNames then Member.inherited
      else Member.undefined) = .inherited
    rw [if_pos hname]
  unfold read
  simp only [normalizeChatId_of_isChatId hid, if_neg (ne_nil_of_isChatId hid), hmember]

theorem Orderly.of_prefix {calls earlier : List BindCall} (h : Orderly calls)
    (hearlier : earlier <+: calls) : Orderly earlier :=
  ⟨h.ordered.sublist hearlier.sublist, fun call hcall => h.bounded call (hearlier.subset hcall)⟩

/-- The promises are kept, at every time, for the chats that `Object.prototype` has no name for and
whose entries are not removed by the calls that make them. -/
theorem behavesAsMap_iff {calls : List BindCall} (h : Orderly calls) {chatId : List Char}
    (hid : isChatId chatId = true) :
    (∀ earlier, earlier <+: calls → BehavesAsMap earlier chatId) ↔
      String.ofList chatId ∉ objectPrototypeNames ∧
        ∀ earlier call later, calls = earlier ++ call :: later →
          normalizeChatId call.rawChatId = chatId → ¬ PrunesItself (after earlier) call := by
  constructor
  · intro hbehaves
    have hname : String.ofList chatId ∉ objectPrototypeNames := fun hname => by
      obtain ⟨answer, hanswer⟩ := (hbehaves [] List.nil_prefix).answers
      rw [read_inherited hid hname] at hanswer
      cases hanswer
    refine ⟨hname, ?_⟩
    rintro earlier call later rfl rfl hprunes
    have hprefix : earlier ++ [call] <+: earlier ++ call :: later := ⟨later, by simp⟩
    have horderly := h.of_prefix hprefix
    have hbounded := horderly.bounded call (List.mem_append_right _ List.mem_cons_self)
    rcases bind_cases (kept horderly.front) rfl hbounded with ⟨-, hempty | hempty⟩ | ⟨-, -, hok⟩
    · exact ne_nil_of_isChatId hid hempty
    · exact hprunes.1 hempty
    · exact (read_bound horderly hok hname).mp
        ((hbehaves _ hprefix).bound earlier call _ rfl hok rfl) hprunes
  · rintro ⟨hname, hprunes⟩ calls' ⟨later, rfl⟩
    have horderly := h.of_prefix (List.prefix_append calls' later)
    have hread := read_stored horderly hid hname
    refine ⟨⟨_, hread⟩, fun hnever => ?_, ?_, ?_⟩
    · rw [hread, lookup_eq_none (kept horderly).enumerated]
      · rfl
      · intro entry hentry
        obtain ⟨call, hcall, heq, -⟩ := (kept horderly).call _ hentry
        exact hnever call hcall heq
    · rintro earlier call file rfl hok rfl
      exact (read_bound horderly hok hname).mpr (hprunes earlier call later (by simp) rfl)
    · rintro earlier call rfl hother
      exact read_other horderly hid hname hother

theorem behavesAsMap_iff_chat :
    (∀ earlier, earlier <+: [⟨" chat-1".toList, "alpha ".toList, 0⟩] →
      BehavesAsMap earlier "chat-1".toList) ↔
      "chat-1" ∉ objectPrototypeNames ∧ ∀ earlier call later,
        [⟨" chat-1".toList, "alpha ".toList, 0⟩] = earlier ++ call :: later →
          normalizeChatId call.rawChatId = "chat-1".toList →
            ¬ PrunesItself (after earlier) call :=
  behavesAsMap_iff ⟨List.pairwise_singleton _ _, by decide⟩ (by decide)

/-- A chat named `constructor` cannot be read, and what is bound to `__proto__` is lost. -/
theorem not_behavesAsMap_inherited :
    (isChatId "constructor".toList = true ∧ ¬ BehavesAsMap [] "constructor".toList) ∧
      isChatId "__proto__".toList = true ∧
        Orderly [⟨"__proto__".toList, "alpha".toList, 0⟩] ∧
        ¬ BehavesAsMap [⟨"__proto__".toList, "alpha".toList, 0⟩] "__proto__".toList := by
  refine ⟨⟨by decide, ?_⟩, by decide, ⟨List.pairwise_singleton _ _, by decide⟩, ?_⟩
  · intro h
    obtain ⟨answer, hanswer⟩ := h.answers
    rw [show read (after []) "constructor".toList = .error .typeError by decide] at hanswer
    cases hanswer
  · intro h
    obtain ⟨answer, hanswer⟩ := h.answers
    rw [show read (after [⟨"__proto__".toList, "alpha".toList, 0⟩]) "__proto__".toList =
      .error .typeError by decide] at hanswer
    cases hanswer

end ChatBindings
