import Mathlib.Algebra.Order.BigOperators.Group.List
import Mathlib.Data.List.Induction
import Mathlib.Data.List.Nodup
import Mathlib.Algebra.GroupWithZero.Nat

/-!
# Lists cut at a limit

A list is read from its front until a budget is used up, and what is found in its elements is
cut at a number.

* `Budget.within` — the longest beginning whose total weight stays within a budget;
* `Budget.gather` — what becomes of the elements while there are slots and room left, each cut to
  that room; `Budget.gather_gather_iff` — when gathering twice is gathering once;
* `Budget.take_eraseDups_iff` — cutting a list loses nothing to repetitions exactly if what is
  kept has none;
* `Budget.nodup_take_flatMap_iff` — when what is found in elements that may repeat has none.
-/

namespace Budget

variable {α β κ : Type*}

section Weights

variable (weight : α → ℕ)

def total (l : List α) : ℕ := (l.map weight).sum

/-- The longest beginning of a list whose total weight is not above a number. -/
def within : ℕ → List α → List α
  | _, [] => []
  | room, a :: rest => if weight a ≤ room then a :: within (room - weight a) rest else []

variable {weight} {room : ℕ} {a : α} {done rest l : List α}

@[simp]
theorem total_nil : total weight [] = 0 := rfl

@[simp]
theorem total_cons : total weight (a :: l) = weight a + total weight l := List.sum_cons

@[simp]
theorem total_append : total weight (done ++ rest) = total weight done + total weight rest := by
  simp [total]

theorem within_append (h : total weight done ≤ room) :
    within weight room (done ++ rest) = done ++ within weight (room - total weight done) rest := by
  induction done generalizing room with
  | nil => simp
  | cons a done ih =>
    rw [total_cons] at h
    rw [List.cons_append, within, if_pos (by omega), ih (by omega), List.cons_append, total_cons,
      Nat.sub_sub]

theorem within_eq_self (h : total weight l ≤ room) : within weight room l = l := by
  have happend : within weight room (l ++ []) = _ := within_append h
  simpa [within] using happend

theorem within_eq_of_lt (h : total weight done ≤ room) (ha : room < total weight done + weight a) :
    within weight room (done ++ a :: rest) = done := by
  rw [within_append h, within, if_neg (by omega), List.append_nil]

variable (weight) in
theorem isPrefix_within (room : ℕ) (l : List α) : within weight room l <+: l := by
  induction l generalizing room with
  | nil => exact List.prefix_rfl
  | cons a rest ih =>
    rw [within]
    split
    · exact List.cons_prefix_cons.mpr ⟨rfl, ih _⟩
    · exact List.nil_prefix

variable (weight) in
theorem total_within_le (room : ℕ) (l : List α) : total weight (within weight room l) ≤ room := by
  induction l generalizing room with
  | nil => exact Nat.zero_le room
  | cons a rest ih =>
    rw [within]
    split
    next hfits =>
      have hle := ih (room - weight a)
      rw [total_cons]
      omega
    next => exact Nat.zero_le room

theorem lt_of_within (h : l = within weight room l ++ a :: rest) :
    room < total weight (within weight room l) + weight a := by
  by_contra hfits
  have hle := total_within_le weight room l
  have hnext : within weight room l = within weight room l ++
      a :: within weight (room - total weight (within weight room l) - weight a) rest := by
    conv_lhs => rw [h, within_append hle, within, if_pos (by omega)]
  have hlength := congrArg List.length hnext
  simp at hlength

end Weights

/-! ## Gathering -/

section Gathering

variable (cut : ℕ → α → Option β) (weight : β → ℕ)

/-- What becomes of the elements of a list, as long as there are slots. Each is cut to the room that
the ones before it have left. -/
def gather : ℕ → ℕ → List α → List β
  | _, _, [] => []
  | slots, room, a :: rest =>
    if slots = 0 then []
    else match cut room a with
      | none => gather slots room rest
      | some b => b :: gather (slots - 1) (room - weight b) rest

/-- An element is come to while there are slots, with so much room left. -/
inductive Reached : ℕ → ℕ → List α → α → ℕ → Prop
  | here {slots room : ℕ} {a : α} {rest : List α} (hslots : slots ≠ 0) :
      Reached slots room (a :: rest) a room
  | passed {slots room room' : ℕ} {a a' : α} {rest : List α} (hslots : slots ≠ 0)
      (hcut : cut room a = none) (h : Reached slots room rest a' room') :
      Reached slots room (a :: rest) a' room'
  | taken {slots room room' : ℕ} {a a' : α} {b : β} {rest : List α} (hslots : slots ≠ 0)
      (hcut : cut room a = some b) (h : Reached (slots - 1) (room - weight b) rest a' room') :
      Reached slots room (a :: rest) a' room'

variable {cut weight} {slots room : ℕ} {a : α} {b : β} {l : List α}

theorem gather_noSlots : gather cut weight 0 room l = [] := by
  cases l <;> rfl

theorem gather_cons_of_none (h : cut room a = none) :
    gather cut weight slots room (a :: l) = gather cut weight slots room l := by
  rw [gather, h]
  split
  next hslots => rw [hslots, gather_noSlots]
  next => rfl

theorem gather_cons_of_some (hslots : slots ≠ 0) (h : cut room a = some b) :
    gather cut weight slots room (a :: l) =
      b :: gather cut weight (slots - 1) (room - weight b) l := by
  rw [gather, if_neg hslots, h]

theorem length_gather_le : (gather cut weight slots room l).length ≤ slots := by
  induction l generalizing slots room with
  | nil => exact Nat.zero_le slots
  | cons a rest ih =>
    rw [gather]
    split
    next => exact Nat.zero_le slots
    next hslots =>
      split
      next => exact ih
      next b _ =>
        have hle := @ih (slots - 1) (room - weight b)
        rw [List.length_cons]
        omega

theorem total_gather_le (h : ∀ room a b, cut room a = some b → weight b ≤ room) :
    total weight (gather cut weight slots room l) ≤ room := by
  induction l generalizing slots room with
  | nil => exact Nat.zero_le room
  | cons a rest ih =>
    rw [gather]
    split
    next => exact Nat.zero_le room
    next =>
      split
      next => exact ih
      next b hcut =>
        have hle := @ih (slots - 1) (room - weight b)
        have hfits := h room a b hcut
        rw [total_cons]
        omega

theorem gather_zero (h : ∀ a, cut 0 a = none) : gather cut weight slots 0 l = [] := by
  induction l with
  | nil => rfl
  | cons a rest ih => rw [gather_cons_of_none (h a), ih]

theorem exists_sublist_gather : ∃ chosen : List α, chosen.Sublist l ∧
    List.Forall₂ (fun a b => ∃ room, cut room a = some b) chosen
      (gather cut weight slots room l) := by
  induction l generalizing slots room with
  | nil => exact ⟨[], .slnil, .nil⟩
  | cons a rest ih =>
    rw [gather]
    split
    next => exact ⟨[], List.nil_sublist _, .nil⟩
    next =>
      split
      next =>
        obtain ⟨chosen, hsublist, hcuts⟩ := @ih slots room
        exact ⟨chosen, hsublist.cons a, hcuts⟩
      next b hcut =>
        obtain ⟨chosen, hsublist, hcuts⟩ := @ih (slots - 1) (room - weight b)
        exact ⟨a :: chosen, hsublist.cons_cons a, .cons ⟨room, hcut⟩ hcuts⟩

theorem exists_cut_of_mem_gather (h : b ∈ gather cut weight slots room l) :
    ∃ a room, cut room a = some b := by
  obtain ⟨chosen, -, hcuts⟩ := @exists_sublist_gather _ _ cut weight slots room l
  obtain ⟨i, hi, rfl⟩ := List.getElem_of_mem h
  exact ⟨_, hcuts.get (hcuts.length_eq ▸ hi) hi⟩

end Gathering

section Twice

variable {cut : ℕ → α → Option α} {weight : α → ℕ} {slots room : ℕ} {l : List α}

theorem length_gather_le_length : (gather cut weight slots room l).length ≤ l.length := by
  obtain ⟨chosen, hsublist, hcuts⟩ := @exists_sublist_gather _ _ cut weight slots room l
  exact hcuts.length_eq ▸ hsublist.length_le

/-- What has been gathered is gathered again as it is, exactly if each cut leaves alone what it has
made. -/
theorem gather_gather_iff :
    gather cut weight slots room (gather cut weight slots room l) = gather cut weight slots room l ↔
      ∀ a r b, Reached cut weight slots room l a r → cut r a = some b → cut r b = some b := by
  induction l generalizing slots room with
  | nil => exact ⟨fun _ _ _ _ h => (nomatch h), fun _ => rfl⟩
  | cons a rest ih =>
    by_cases hslots : slots = 0
    · rw [hslots, gather_noSlots]
      refine ⟨fun _ a' r b h => ?_, fun _ => rfl⟩
      cases h <;> contradiction
    cases hcut : cut room a with
    | none =>
      rw [gather_cons_of_none hcut]
      refine ih.trans ⟨fun h a' r b hreached hb => ?_, fun h a' r b hreached => ?_⟩
      · cases hreached with
        | here => cases hcut.symm.trans hb
        | passed _ _ hrest => exact h a' r b hrest hb
        | taken _ htaken => cases hcut.symm.trans htaken
      · exact h a' r b (.passed hslots hcut hreached)
    | some b =>
      rw [gather_cons_of_some hslots hcut]
      constructor
      · intro h a' r b' hreached hb'
        cases hagain : cut room b with
        | none =>
          -- what is gathered again is shorter then
          rw [gather_cons_of_none hagain] at h
          have hlength := congrArg List.length h
          have hle := @length_gather_le_length _ cut weight slots room
            (gather cut weight (slots - 1) (room - weight b) rest)
          rw [List.length_cons] at hlength
          omega
        | some again =>
          rw [gather_cons_of_some hslots hagain] at h
          obtain ⟨rfl, hrest⟩ := List.cons.inj h
          cases hreached with
          | here =>
            obtain rfl := Option.some.inj (hcut.symm.trans hb')
            exact hagain
          | passed _ hpassed => cases hcut.symm.trans hpassed
          | taken _ htaken hreached =>
            obtain rfl := Option.some.inj (hcut.symm.trans htaken)
            exact ih.mp hrest a' r b' hreached hb'
      · intro h
        rw [gather_cons_of_some hslots (h a room b (.here hslots) hcut)]
        rw [ih.mpr fun a' r b' hreached => h a' r b' (.taken hslots hcut hreached)]

end Twice

/-! ## Repetitions -/

section Repetitions

variable [BEq β] [LawfulBEq β]

theorem nodup_eraseDups (l : List β) : l.eraseDups.Nodup := by
  induction hlength : l.length using Nat.strongRecOn generalizing l with
  | ind n ih =>
    cases l with
    | nil => exact List.nodup_nil
    | cons b l =>
      rw [List.eraseDups_cons, List.nodup_cons]
      refine ⟨by simp, ih _ ?_ _ rfl⟩
      have hfilter := List.length_filter_le (fun c => !c == b) l
      rw [← hlength, List.length_cons]
      omega

theorem eraseDups_eq_self {l : List β} (h : l.Nodup) : l.eraseDups = l := by
  induction l with
  | nil => rfl
  | cons b l ih =>
    obtain ⟨hb, hl⟩ := List.nodup_cons.mp h
    have hfilter : l.filter (fun c => !c == b) = l := by
      refine List.filter_eq_self.mpr fun c hc => ?_
      have hne : c ≠ b := fun heq => hb (heq ▸ hc)
      simpa using hne
    rw [List.eraseDups_cons, hfilter, ih hl]

/-- A list that is cut is cut from the list without its repetitions exactly if nothing that is
kept is repeated. -/
theorem take_eraseDups_iff (n : ℕ) (l : List β) :
    l.take n = l.eraseDups.take n ↔ (l.take n).Nodup := by
  constructor
  · intro h
    rw [h]
    exact (nodup_eraseDups l).sublist (List.take_sublist _ _)
  · intro h
    have hsplit : l.eraseDups = l.take n ++ ((l.drop n).removeAll (l.take n)).eraseDups := by
      conv_lhs => rw [← List.take_append_drop n l, List.eraseDups_append, eraseDups_eq_self h]
    rcases Nat.le_total n l.length with hn | hn
    · rw [hsplit, List.take_left' (List.length_take_of_le hn)]
    · rw [hsplit, List.drop_of_length_le hn, List.take_of_length_le hn]
      simp [List.take_of_length_le hn, List.removeAll]

end Repetitions

/-- What is found in the elements of a list, cut at a number, has no repetitions exactly if the
elements that repeat an earlier one have nothing or come too late. -/
theorem nodup_take_flatMap_iff {key : α → κ} {f : α → List β} {l : List α} (n : ℕ)
    (hnodup : ∀ a ∈ l, (f a).Nodup) (hsame : ∀ a ∈ l, ∀ b ∈ l, key a = key b → f a = f b)
    (hdiff : ∀ a ∈ l, ∀ b ∈ l, key a ≠ key b → (f a).Disjoint (f b)) :
    ((l.flatMap f).take n).Nodup ↔ ∀ before a after, l = before ++ a :: after →
      key a ∈ before.map key → f a = [] ∨ n ≤ (before.flatMap f).length := by
  constructor
  · rintro h before a after rfl hkey
    obtain ⟨b, hb, heq⟩ := List.mem_map.mp hkey
    have hfound : f b = f a :=
      hsame b (List.mem_append_left _ hb) a (List.mem_append_right _ List.mem_cons_self) heq
    by_contra hno
    obtain ⟨hne, hroom⟩ := not_or.mp hno
    obtain ⟨x, xs, hx⟩ := List.exists_cons_of_ne_nil hne
    -- the first thing found in the repeated element is kept, and it was found before
    rw [List.flatMap_append, List.take_append, List.flatMap_cons, hx, List.cons_append,
      List.take_of_length_le (by omega)] at h
    obtain ⟨k, hk⟩ := Nat.exists_eq_add_of_lt (Nat.lt_of_not_le hroom)
    have hk : n - (before.flatMap f).length = k + 1 := by omega
    rw [hk, List.take_succ_cons] at h
    have hmem : x ∈ before.flatMap f :=
      List.mem_flatMap.mpr ⟨b, hb, by rw [hfound, hx]; exact List.mem_cons_self⟩
    exact (List.disjoint_of_nodup_append h) hmem List.mem_cons_self
  · intro h
    suffices hdone : ∀ done rest, l = done ++ rest → ((done.flatMap f).take n).Nodup from
      hdone l [] (List.append_nil l).symm
    intro done
    induction done using List.reverseRecOn with
    | nil => exact fun _ _ => by simp
    | append_singleton done a ih =>
      rintro rest hl
      rw [List.append_assoc, List.singleton_append] at hl
      have hprevious := ih (a :: rest) hl
      rw [List.flatMap_append, List.flatMap_singleton, List.take_append]
      by_cases hkey : key a ∈ done.map key
      · rcases h done a rest hl hkey with hnil | hroom
        · simpa [hnil] using hprevious
        · rw [Nat.sub_eq_zero_of_le hroom, List.take_zero, List.append_nil]
          exact hprevious
      · have ha : a ∈ l := hl ▸ List.mem_append_right _ List.mem_cons_self
        refine List.Nodup.append hprevious
          ((hnodup a ha).sublist (List.take_sublist _ _)) ?_
        intro x hx hxa
        obtain ⟨b, hb, hxb⟩ := List.mem_flatMap.mp (List.mem_of_mem_take hx)
        have hne : key b ≠ key a := fun heq => hkey (heq ▸ List.mem_map_of_mem hb)
        exact hdiff b (hl ▸ List.mem_append_left _ hb) a ha hne hxb (List.mem_of_mem_take hxa)

end Budget
