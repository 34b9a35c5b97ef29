import Mathlib.Data.List.Infix

/-!
# Mailboxes

A mailbox takes in messages and hands out all that are waiting at once; a message that has been
handed out stays in the box until a new one needs its place. `Holds` relates the box to the
contents that were ever sent to it and to those that have not been handed out since.

* `Holds` — what the box holds;
* `Holds.push`, `Holds.handOut`, `Holds.evict` — its operations.
-/

namespace Mailbox

variable {μ γ : Type} {content : μ → γ} {isRead : μ → Bool} {bound : ℕ} {sent waiting : List γ}
  {box : List μ}

/-- The box holds some of what was sent, in order, and ends with all that is waiting, which are
its unread messages. -/
structure Holds (content : μ → γ) (isRead : μ → Bool) (bound : ℕ) (sent waiting : List γ)
    (box : List μ) : Prop where
  sublist : (box.map content).Sublist sent
  parts : ∃ handed unread, box = handed ++ unread ∧ (∀ m ∈ handed, isRead m = true) ∧
    (∀ m ∈ unread, isRead m = false) ∧ unread.map content = waiting
  length : box.length ≤ bound

theorem holds_nil (sent : List γ) : Holds content isRead bound sent [] [] where
  sublist := List.nil_sublist sent
  parts := ⟨[], [], rfl, by simp, by simp, rfl⟩
  length := Nat.zero_le bound

section

variable (h : Holds content isRead bound sent waiting box)

include h

theorem Holds.suffix : waiting <:+ box.map content := by
  obtain ⟨handed, unread, rfl, -, -, rfl⟩ := h.parts
  rw [List.map_append]
  exact List.suffix_append _ _

theorem Holds.waiting_eq_nil (hread : ∀ m ∈ box, isRead m = true) : waiting = [] := by
  obtain ⟨handed, unread, rfl, -, hunread, rfl⟩ := h.parts
  rw [List.map_eq_nil_iff, List.eq_nil_iff_forall_not_mem]
  intro m hm
  have hboth := (hread m (List.mem_append_right handed hm)).symm.trans (hunread m hm)
  exact Bool.noConfusion hboth

/-- A new message waits behind the others. -/
theorem Holds.push {m : μ} (hm : isRead m = false) (hroom : box.length < bound) :
    Holds content isRead bound (sent ++ [content m]) (waiting ++ [content m]) (box ++ [m]) where
  sublist := by
    rw [List.map_append]
    exact h.sublist.append (List.Sublist.refl _)
  parts := by
    obtain ⟨handed, unread, rfl, hhanded, hunread, rfl⟩ := h.parts
    refine ⟨handed, unread ++ [m], List.append_assoc _ _ _, hhanded, fun m' hm' => ?_, by simp⟩
    rcases List.mem_append.mp hm' with hold | hnew
    · exact hunread m' hold
    · rw [List.mem_singleton.mp hnew, hm]
  length := by
    rw [List.length_append, List.length_singleton]
    exact hroom

/-- Handing out marks every message as read. -/
theorem Holds.handOut {mark : μ → μ} (hcontent : ∀ m, content (mark m) = content m)
    (hmark : ∀ m, isRead (mark m) = true) :
    Holds content isRead bound sent [] (box.map mark) where
  sublist := by
    rw [List.map_map, show content ∘ mark = content from funext hcontent]
    exact h.sublist
  parts := ⟨box.map mark, [], (List.append_nil _).symm, by simp [hmark], by simp, rfl⟩
  length := by
    rw [List.length_map]
    exact h.length

/-- The oldest message that has been read gives its place to another one. -/
theorem Holds.evict (hread : box.any isRead = true) :
    Holds content isRead bound sent waiting (box.eraseP isRead) ∧
      (box.eraseP isRead).length < bound := by
  have hlength : (box.eraseP isRead).length + 1 = box.length := by
    obtain ⟨m, hm, hread⟩ := List.any_eq_true.mp hread
    rw [List.length_eraseP_of_mem hm hread]
    exact Nat.sub_add_cancel (List.length_pos_of_mem hm)
  refine ⟨⟨(List.eraseP_sublist.map content).trans h.sublist, ?_, ?_⟩, ?_⟩
  · obtain ⟨handed, unread, rfl, hhanded, hunread, rfl⟩ := h.parts
    -- the message that goes is one of those handed out
    obtain ⟨m, hm, hread⟩ := List.any_eq_true.mp hread
    have hold : m ∈ handed := by
      refine (List.mem_append.mp hm).resolve_right fun hnew => ?_
      exact Bool.noConfusion (hread.symm.trans (hunread m hnew))
    refine ⟨handed.eraseP isRead, unread, List.eraseP_append_left hread unread hold,
      fun m' hm' => hhanded m' (List.mem_of_mem_eraseP hm'), hunread, rfl⟩
  · exact List.eraseP_sublist.length_le.trans h.length
  · rw [← Nat.add_one_le_iff, hlength]
    exact h.length

end

end Mailbox
