import Mathlib.Data.List.Basic
import Mathlib.Algebra.BigOperators.Group.List.Basic
import Mathlib.Algebra.GroupWithZero.Nat
import Mathlib.Order.Bounds.Defs

/-!
# Chunking

A list is cut into chunks in one pass. What has a size is never cut, and a chunk is closed when the
next element would take it over the limit.

* `Packing` — the closed chunks, the open one and how much of the limit it has used;
* `Packing.put`, `Packing.close` — one element, and the end;
* `Packed` — what the pass keeps; `isLeast_close` — no fewer chunks are enough.
-/

namespace Chunking

variable {α : Type}

structure Packing (α : Type) where
  chunks : List (List α)
  current : List α
  used : ℕ

namespace Packing

def empty : Packing α := { chunks := [], current := [], used := 0 }

/-- The open chunk is closed. -/
def flush (packing : Packing α) : Packing α :=
  { chunks := packing.chunks ++ [packing.current], current := [], used := 0 }

def append (size : α → ℕ) (packing : Packing α) (a : α) : Packing α :=
  { packing with current := packing.current ++ [a], used := packing.used + size a }

/-- The next element. -/
def put (size : α → ℕ) (limit : ℕ) (packing : Packing α) (a : α) : Packing α :=
  if packing.used + size a > limit ∧ packing.current ≠ [] then packing.flush.append size a
  else packing.append size a

/-- The chunks, once there are no more elements. -/
def close (packing : Packing α) : List (List α) :=
  if packing.current ≠ [] then packing.chunks ++ [packing.current] else packing.chunks

end Packing

open Packing

/-- How much of the limit a chunk uses. -/
def total (size : α → ℕ) (chunk : List α) : ℕ := (chunk.map size).sum

variable {size : α → ℕ} {limit : ℕ} {taken : List α} {packing : Packing α}

theorem total_append (a b : List α) : total size (a ++ b) = total size a + total size b := by
  rw [total, List.map_append, List.sum_append, total, total]

theorem counted_append (h : packing.used = total size packing.current) (a : α) :
    (packing.append size a).used = total size (packing.append size a).current := by
  rw [Packing.append, total_append, h]
  rfl

/-- The pass has taken these elements, and its counter is in step with the open chunk. -/
structure Packed (size : α → ℕ) (limit : ℕ) (taken : List α) (packing : Packing α) : Prop where
  taken : packing.chunks.flatten ++ packing.current = taken
  counted : packing.used = total size packing.current
  closed : ∀ chunk ∈ packing.chunks, chunk ≠ [] ∧ total size chunk ≤ limit
  fits : packing.used ≤ limit

theorem packed_empty : Packed size limit [] Packing.empty where
  taken := rfl
  counted := rfl
  closed := fun _ h => absurd h List.not_mem_nil
  fits := Nat.zero_le _

theorem Packed.append (h : Packed size limit taken packing) {a : α}
    (hfits : packing.used + size a ≤ limit) :
    Packed size limit (taken ++ [a]) (packing.append size a) where
  taken := by rw [← h.taken, List.append_assoc]; rfl
  counted := counted_append h.counted a
  closed := h.closed
  fits := hfits

theorem Packed.flush (h : Packed size limit taken packing) (hopen : packing.current ≠ []) :
    Packed size limit taken packing.flush where
  taken := by
    rw [← h.taken]
    simp only [Packing.flush, List.flatten_append, List.flatten_singleton, List.append_nil]
  counted := rfl
  closed := by
    intro chunk hchunk
    rcases List.mem_append.mp hchunk with hchunk | hchunk
    · exact h.closed chunk hchunk
    · obtain rfl := List.mem_singleton.mp hchunk
      exact ⟨hopen, h.counted ▸ h.fits⟩
  fits := Nat.zero_le _

theorem Packed.put (h : Packed size limit taken packing) {a : α} (ha : size a ≤ limit) :
    Packed size limit (taken ++ [a]) (packing.put size limit a) := by
  rw [Packing.put]
  split
  next hfull => exact (h.flush hfull.2).append (by rw [Packing.flush, Nat.zero_add]; exact ha)
  next hroom =>
    refine h.append ?_
    by_cases hopen : packing.current = []
    · -- the counter of an open chunk without elements is zero
      rw [h.counted, hopen]
      exact (Nat.zero_add _).trans_le ha
    · exact Nat.not_lt.mp fun hover => hroom ⟨hover, hopen⟩

theorem packed_foldl (elements : List α) (helements : ∀ a ∈ elements, size a ≤ limit) :
    ∀ {taken packing}, Packed size limit taken packing →
      Packed size limit (taken ++ elements) (elements.foldl (put size limit) packing) := by
  induction elements with
  | nil =>
    intro taken packing h
    rw [List.append_nil]
    exact h
  | cons a elements ih =>
    intro taken packing h
    have hput := h.put (helements a List.mem_cons_self)
    have hrest := ih (fun b hb => helements b (List.mem_cons_of_mem a hb)) hput
    rw [List.append_assoc, List.singleton_append] at hrest
    exact hrest

theorem Packed.flatten_close (h : Packed size limit taken packing) :
    packing.close.flatten = taken := by
  rw [Packing.close]
  split
  next => rw [List.flatten_append, List.flatten_singleton, h.taken]
  next hclosed => rw [← h.taken, not_not.mp hclosed, List.append_nil]

theorem Packed.mem_close (h : Packed size limit taken packing) {chunk : List α}
    (hchunk : chunk ∈ packing.close) : chunk ≠ [] ∧ total size chunk ≤ limit := by
  rw [Packing.close] at hchunk
  split at hchunk
  next hopen =>
    rcases List.mem_append.mp hchunk with hchunk | hchunk
    · exact h.closed chunk hchunk
    · obtain rfl := List.mem_singleton.mp hchunk
      exact ⟨hopen, h.counted ▸ h.fits⟩
  next => exact h.closed chunk hchunk

/-- The pass comes to no more chunks than any other cutting of what is left, even if that begins
before the open chunk. -/
theorem length_close_le {elements before : List α} {others : List (List α)}
    (hopen : packing.current ≠ []) (hcounted : packing.used = total size packing.current)
    (hflatten : others.flatten = before ++ packing.current ++ elements)
    (hothers : ∀ chunk ∈ others, total size chunk ≤ limit) :
    (elements.foldl (put size limit) packing).close.length ≤
      packing.chunks.length + others.length := by
  induction elements generalizing packing before others with
  | nil =>
    rw [List.foldl_nil, Packing.close, if_pos hopen, List.length_append]
    refine Nat.add_le_add_left (List.length_pos_of_ne_nil ?_) _
    rintro rfl
    simp [hopen] at hflatten
  | cons a elements ih =>
    rw [List.foldl_cons, Packing.put]
    split
    next hfull =>
      -- The first of the other chunks ends before `a`, too.
      cases others with
      | nil => simp at hflatten
      | cons first others =>
      obtain ⟨later, hrest⟩ : ∃ later, others.flatten = later ++ [a] ++ elements := by
        rw [List.flatten_cons] at hflatten
        rcases List.append_eq_append_iff.mp hflatten with ⟨later, -, h⟩ | ⟨beyond, hfirst, h⟩
        · exact ⟨later, by simpa using h⟩
        · cases beyond with
          | nil => exact ⟨[], h.symm⟩
          | cons b beyond =>
            obtain ⟨rfl, -⟩ := List.cons_eq_cons.mp h
            have hlong := hothers first List.mem_cons_self
            have hone : total size (a :: beyond) = size a + total size beyond := List.sum_cons
            rw [hfirst, total_append, total_append, hone, ← hcounted] at hlong
            omega
      refine (ih (List.cons_ne_nil _ _) (counted_append rfl a) hrest fun chunk hchunk =>
        hothers chunk (List.mem_cons_of_mem _ hchunk)).trans_eq ?_
      simp only [Packing.append, Packing.flush, List.length_append, List.length_cons,
        List.length_nil]
      omega
    next =>
      have hflatten' : others.flatten = before ++ (packing.append size a).current ++ elements := by
        rw [hflatten, Packing.append]
        simp
      exact ih (by simp [Packing.append]) (counted_append hcounted a) hflatten' hothers

/-- The pass comes to as few chunks as the limit allows. -/
theorem isLeast_close {elements : List α} (helements : ∀ a ∈ elements, size a ≤ limit) :
    IsLeast {n | ∃ chunks : List (List α), chunks.flatten = elements ∧
      (∀ chunk ∈ chunks, total size chunk ≤ limit) ∧ chunks.length = n}
      (elements.foldl (put size limit) Packing.empty).close.length := by
  have hpacked := packed_foldl elements helements packed_empty
  refine ⟨⟨_, hpacked.flatten_close, fun chunk hchunk => (hpacked.mem_close hchunk).2, rfl⟩, ?_⟩
  rintro _ ⟨others, hflatten, hothers, rfl⟩
  cases elements with
  | nil => exact Nat.zero_le _
  | cons a elements =>
    have hopened : Packing.empty.put size limit a = Packing.empty.append size a :=
      if_neg fun h => h.2 rfl
    have hflatten' : others.flatten = [] ++ (Packing.empty.append size a).current ++ elements :=
      hflatten
    rw [List.foldl_cons, hopened]
    exact (length_close_le (List.cons_ne_nil _ _) (counted_append rfl a) hflatten' hothers).trans_eq
      (Nat.zero_add _)

end Chunking
