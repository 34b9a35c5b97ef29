import ChatgptSystem.Foundations.Schedule
import ChatgptSystem.Native.InputController
import Mathlib.Analysis.Real.Sqrt
import Mathlib.Algebra.Order.Round

/-!
# The pointer trajectory over exact numbers

The loops of `PointerTrajectory.samples` and of `moveMouseWithinLane` with the traps of their
unsigned arithmetic, and that none of them is met when `Double` is taken as ℝ.

* `samplesOrTrap` — the trajectory; `followSamplesOrTrap`, `moveMouseOrTrap` — who follows it;
* `Smooth` — a trajectory that can be followed: it leads from the start to the target, never goes
  back and never takes long;
* `smooth_samples` — every trajectory is one.
-/

open Interleaving Schedule

noncomputable instance : DoubleArithmetic ℝ where
  decimal mantissa digits := mantissa / 10 ^ digits
  add := (· + ·)
  sub := (· - ·)
  mul := (· * ·)
  div := (· / ·)
  hypot x y := √(x ^ 2 + y ^ 2)
  rounded x := roundAway x
  le x y := decide (x ≤ y)
  lt x y := decide (x < y)
  eq x y := decide (x = y)
  isFinite _ := true
  toUInt64 x := ⌊x⌋₊

namespace InputControl

open DoubleArithmetic

/-! ## The loops -/

section Loops

variable {D : Type} [DoubleArithmetic D]

theorem sampleStepNanoseconds_pos : 0 < sampleStepNanoseconds := by
  rw [sampleStepNanoseconds]
  omega

/-- The sample at an offset strictly between the first one and the last. -/
def sampleAt (start target : ComputerPoint D) (duration offset : ℕ) : PointerTrajectorySample D :=
  let dx := sub target.x start.x
  let dy := sub target.y start.y
  let t := div (decimal offset 0) (decimal duration 0)
  let eased := mul (mul t t) (sub (decimal 3 0) (mul (decimal 2 0) t))
  { point := ⟨add start.x (mul dx eased), add start.y (mul dy eased)⟩
    offsetNanoseconds := offset }

/-- The `while` loop of `samples`; `none` where the addition of two `UInt64` traps. -/
def appendSamples (start target : ComputerPoint D) (duration offset : ℕ)
    (result : List (PointerTrajectorySample D)) : Option (List (PointerTrajectorySample D)) :=
  if offset < duration then
    if offset + sampleStepNanoseconds < 2 ^ 64 then
      appendSamples start target duration (offset + sampleStepNanoseconds)
        (result ++ [sampleAt start target duration offset])
    else none
  else some result
termination_by duration - offset
decreasing_by
  have hstep := sampleStepNanoseconds_pos
  omega

/-- `PointerTrajectory.samples` with its loop; `none` where an addition traps. -/
def PointerTrajectory.samplesOrTrap (start target : ComputerPoint D) (mode : PointerMotionMode) :
    Option (Except InputError (List (PointerTrajectorySample D))) :=
  if !(start.isFinite && target.isFinite) then some (.error .unavailable)
  else if mode = .instant ∨ (eq start.x target.x && eq start.y target.y) then
    some (.ok [⟨start, 0⟩, ⟨target, 0⟩])
  else
    let duration := durationNanoseconds start target mode
    (appendSamples start target duration sampleStepNanoseconds [⟨start, 0⟩]).map fun result =>
      .ok (result ++ [⟨target, duration⟩])

theorem offset_lt_iff (duration i : ℕ) :
    (i + 1) * sampleStepNanoseconds < duration ↔ i < (duration - 1) / sampleStepNanoseconds := by
  rw [sampleStepNanoseconds]
  omega

theorem appendSamples_eq (start target : ComputerPoint D) {duration : ℕ}
    (hfits : duration + sampleStepNanoseconds ≤ 2 ^ 64) : ∀ (left i : ℕ) (result),
    i + left = (duration - 1) / sampleStepNanoseconds →
      appendSamples start target duration ((i + 1) * sampleStepNanoseconds) result =
        some (result ++ ((List.range' i left).map fun k => (k + 1) * sampleStepNanoseconds).map
          (sampleAt start target duration)) := by
  intro left
  induction left with
  | zero =>
    intro i result hleft
    have hend : ¬ (i + 1) * sampleStepNanoseconds < duration := by
      rw [offset_lt_iff]
      omega
    rw [appendSamples, if_neg hend, List.range'_zero, List.map_nil, List.map_nil, List.append_nil]
  | succ left ih =>
    intro i result hleft
    have hlt : (i + 1) * sampleStepNanoseconds < duration := by
      rw [offset_lt_iff]
      omega
    have hsum : (i + 1) * sampleStepNanoseconds + sampleStepNanoseconds < 2 ^ 64 := by omega
    have hnext : (i + 1) * sampleStepNanoseconds + sampleStepNanoseconds =
        (i + 1 + 1) * sampleStepNanoseconds := by ring
    rw [appendSamples, if_pos hlt, if_pos hsum, hnext, ih (i + 1) _ (by omega),
      List.range'_succ, List.map_cons, List.map_cons, List.append_assoc, List.singleton_append]

theorem samplesOrTrap_eq {start target : ComputerPoint D} {mode : PointerMotionMode}
    (hfits : durationNanoseconds start target mode + sampleStepNanoseconds ≤ 2 ^ 64) :
    PointerTrajectory.samplesOrTrap start target mode =
      some (PointerTrajectory.samples start target mode) := by
  rw [PointerTrajectory.samplesOrTrap, PointerTrajectory.samples]
  split
  · rfl
  · split
    · rfl
    · have hloop := appendSamples_eq start target hfits _ 0 [⟨start, 0⟩] (Nat.zero_add _)
      rw [Nat.zero_add, Nat.one_mul, ← List.range_eq_range'] at hloop
      dsimp only
      rw [hloop]
      rfl

/-- The loop of `moveMouseWithinLane`; it ends with `none` where the subtraction traps. -/
def followSamplesOrTrap (dragButton : Option ComputerMouseButton) (contextGuard : Bool) :
    ℕ → List (PointerTrajectorySample D) → InputM D (Option Unit)
  | _, [] => pure (some ())
  | previousOffset, sample :: samples => do
    checkCancellation
    match trappingSub sample.offsetNanoseconds previousOffset with
    | none => pure none
    | some delay =>
      if delay > 0 then
        checkSafety
        sleep delay
        checkSafety
      checkCancellation
      verifyContext contextGuard
      emitActionEvent (.mouseMove sample.point dragButton) (some sample.point)
      followSamplesOrTrap dragButton contextGuard sample.offsetNanoseconds samples

/-- `moveMouseWithinLane`; it ends with `none` where its arithmetic traps. -/
def moveMouseOrTrap (target : ComputerPoint D) (mode : PointerMotionMode)
    (dragButton : Option ComputerMouseButton) (contextGuard : Bool) :
    InputM D (Option (ComputerActionResult D)) := do
  checkCancellation
  validate target
  let start ← pointerPosition
  match PointerTrajectory.samplesOrTrap start target mode with
  | none => pure none
  | some outcome =>
    let samples ← orThrow outcome
    match ← followSamplesOrTrap dragButton contextGuard 0 (samples.drop 1) with
    | none => pure none
    | some _ =>
      waitForPointerToSettle target
      pure (some { state := "completed", pointer := some target })

omit [DoubleArithmetic D] in
theorem followSamplesOrTrap_eq (dragButton : Option ComputerMouseButton) (contextGuard : Bool) :
    ∀ (samples : List (PointerTrajectorySample D)) (previousOffset : ℕ),
      (previousOffset :: samples.map (·.offsetNanoseconds)).Pairwise (· ≤ ·) →
      followSamplesOrTrap dragButton contextGuard previousOffset samples =
        (followSamples dragButton contextGuard previousOffset samples).bind fun _ =>
          .pure (some ()) := by
  intro samples
  induction samples with
  | nil => exact fun _ _ => rfl
  | cons sample samples ih =>
    intro previousOffset hsorted
    have hle : previousOffset ≤ sample.offsetNanoseconds :=
      List.rel_of_pairwise_cons hsorted List.mem_cons_self
    have hrest := ih sample.offsetNanoseconds hsorted.of_cons
    simp only [followSamplesOrTrap, followSamples, trappingSub_of_le hle, hrest,
      Program.bind_eq]
    split <;> simp only [Program.bind_assoc]

theorem moveMouseOrTrap_eq {target : ComputerPoint D} {mode : PointerMotionMode}
    (hsamples : ∀ start, PointerTrajectory.samplesOrTrap start target mode =
      some (PointerTrajectory.samples start target mode))
    (hsorted : ∀ start samples, PointerTrajectory.samples start target mode = .ok samples →
      (0 :: (samples.drop 1).map (·.offsetNanoseconds)).Pairwise (· ≤ ·))
    (dragButton : Option ComputerMouseButton) (contextGuard : Bool) :
    moveMouseOrTrap target mode dragButton contextGuard =
      (moveMouseWithinLane target mode dragButton contextGuard).bind fun result =>
        .pure (some result) := by
  have hfollow : ∀ start, ((orThrow (PointerTrajectory.samples start target mode)).bind
      fun samples => (followSamplesOrTrap dragButton contextGuard 0 (samples.drop 1)).bind fun
        | none => .pure none
        | some _ => (waitForPointerToSettle target).bind fun _ =>
            .pure (some { state := "completed", pointer := some target })) =
      (orThrow (PointerTrajectory.samples start target mode)).bind fun samples =>
        (followSamples dragButton contextGuard 0 (samples.drop 1)).bind fun _ =>
          (waitForPointerToSettle target).bind fun _ =>
            .pure (some (⟨"completed", some target⟩ : ComputerActionResult D)) := by
    intro start
    cases hcase : PointerTrajectory.samples start target mode with
    | error error => rfl
    | ok samples =>
      simp only [orThrow, Program.ofExcept, Program.bind]
      rw [followSamplesOrTrap_eq dragButton contextGuard _ 0 (hsorted start samples hcase),
        Program.bind_assoc]
      rfl
  simp only [moveMouseOrTrap, moveMouseWithinLane, hsamples, Program.bind_eq, Program.bind_assoc]
  congr 1
  funext _
  congr 1
  funext _
  congr 1
  funext start
  exact hfollow start

end Loops

/-! ## The trajectory -/

section Exact

variable {start target : ComputerPoint ℝ} {mode : PointerMotionMode}

/-- The point of the segment from `start` to `target` at a progress between `0` and `1`. -/
def along (start target : ComputerPoint ℝ) (progress : ℝ) : ComputerPoint ℝ :=
  { x := start.x + (target.x - start.x) * progress
    y := start.y + (target.y - start.y) * progress }

/-- A trajectory that leads from the start to the target on a straight line, without ever going
back in space or time, in at most 350 milliseconds. -/
structure Smooth (start target : ComputerPoint ℝ) (samples : List (PointerTrajectorySample ℝ)) :
    Prop where
  first : samples.head? = some ⟨start, 0⟩
  last : samples.getLast?.map (·.point) = some target
  offsets : (samples.map (·.offsetNanoseconds)).Pairwise (· ≤ ·)
  short : ∀ sample ∈ samples, sample.offsetNanoseconds ≤ 350000000
  progress : ∃ progress : List ℝ, samples.map (·.point) = progress.map (along start target) ∧
    progress.Pairwise (· ≤ ·) ∧ ∀ p ∈ progress, 0 ≤ p ∧ p ≤ 1

theorem along_zero : along start target 0 = start := by
  simp only [along, mul_zero, add_zero]

theorem along_one : along start target 1 = target := by
  simp only [along, mul_one, add_sub_cancel]

theorem durationNanoseconds_le : durationNanoseconds start target mode ≤ 350000000 := by
  have hmin : ∀ b : ℝ, minimum (decimal 350 0) b ≤ 350 := by
    intro b
    have h350 : (decimal 350 0 : ℝ) = 350 := by
      change ((350 : ℕ) : ℝ) / 10 ^ 0 = 350
      norm_num
    rw [minimum, h350]
    split
    next hlt => exact (of_decide_eq_true hlt).le
    next => exact le_rfl
  rw [durationNanoseconds]
  refine Nat.floor_le_of_le ?_
  have hmillion : (decimal 1000000 0 : ℝ) = 1000000 := by
    change ((1000000 : ℕ) : ℝ) / 10 ^ 0 = 1000000
    norm_num
  rw [hmillion]
  calc minimum (decimal 350 0) _ * (1000000 : ℝ)
      ≤ 350 * 1000000 := mul_le_mul_of_nonneg_right (hmin _) (by norm_num)
    _ = ((350000000 : ℕ) : ℝ) := by norm_num

theorem decimal_zero (n : ℕ) : (decimal n 0 : ℝ) = n := by
  change (n : ℝ) / 10 ^ 0 = n
  rw [pow_zero, div_one]

theorem sampleAt_point (duration offset : ℕ) :
    (sampleAt start target duration offset).point =
      along start target (smoothstep ((offset : ℝ) / duration)) := by
  simp only [sampleAt, decimal_zero]
  rfl

theorem mem_sampleOffsets {duration offset : ℕ} (h : offset ∈ sampleOffsets duration) :
    offset < duration := by
  obtain ⟨i, hi, rfl⟩ := List.mem_map.mp h
  exact (offset_lt_iff duration i).mpr (List.mem_range.mp hi)

theorem pairwise_sampleOffsets (duration : ℕ) : (sampleOffsets duration).Pairwise (· ≤ ·) := by
  refine List.pairwise_map.mpr (List.pairwise_lt_range.imp fun {i j} hlt => ?_)
  exact Nat.mul_le_mul_right _ (Nat.succ_le_succ hlt.le)

theorem smoothstep_offset_le {duration offset other : ℕ} (hle : offset ≤ other)
    (hother : other < duration) :
    smoothstep ((offset : ℝ) / duration) ≤ smoothstep ((other : ℝ) / duration) := by
  have hpos : (0 : ℝ) < duration := Nat.cast_pos.mpr (by omega)
  refine smoothstep_mono (div_nonneg (Nat.cast_nonneg _) hpos.le) ?_ ?_
  · exact div_le_div_of_nonneg_right (Nat.cast_le.mpr hle) hpos.le
  · exact (div_le_one hpos).mpr (Nat.cast_le.mpr hother.le)

theorem smoothstep_offset_mem {duration offset : ℕ} (hoffset : offset < duration) :
    0 ≤ smoothstep ((offset : ℝ) / duration) ∧ smoothstep ((offset : ℝ) / duration) ≤ 1 := by
  have hpos : (0 : ℝ) < duration := Nat.cast_pos.mpr (by omega)
  have hle : (offset : ℝ) / duration ≤ 1 :=
    (div_le_one hpos).mpr (Nat.cast_le.mpr hoffset.le)
  exact ⟨smoothstep_nonneg hle,
    smoothstep_le_one (div_nonneg (Nat.cast_nonneg _) hpos.le) hle⟩

theorem pairwise_between {α : Type} [Preorder α] {low high : α} {l : List α}
    (hsorted : l.Pairwise (· ≤ ·)) (hlow : ∀ a ∈ l, low ≤ a) (hhigh : ∀ a ∈ l, a ≤ high)
    (hle : low ≤ high) : (low :: l ++ [high]).Pairwise (· ≤ ·) := by
  refine List.pairwise_append.mpr ⟨List.pairwise_cons.mpr ⟨hlow, hsorted⟩,
    List.pairwise_singleton _ _, fun a ha b hb => ?_⟩
  obtain rfl := List.mem_singleton.mp hb
  rcases List.mem_cons.mp ha with rfl | ha
  · exact hle
  · exact hhigh a ha

theorem smooth_pair : Smooth start target [⟨start, 0⟩, ⟨target, 0⟩] where
  first := rfl
  last := rfl
  offsets := List.pairwise_cons.mpr ⟨fun _ h => (List.mem_singleton.mp h).ge,
    List.pairwise_singleton _ _⟩
  short := by
    intro sample hsample
    rcases List.mem_pair.mp hsample with rfl | rfl <;> exact Nat.zero_le _
  progress := by
    refine ⟨[0, 1], ?_, ?_, ?_⟩
    · simp only [List.map_cons, List.map_nil, along_zero, along_one]
    · exact List.pairwise_pair.mpr zero_le_one
    · intro p hp
      rcases List.mem_pair.mp hp with rfl | rfl
      · exact ⟨le_rfl, zero_le_one⟩
      · exact ⟨zero_le_one, le_rfl⟩

theorem smooth_sampled {duration : ℕ} (hshort : duration ≤ 350000000) :
    Smooth start target (⟨start, 0⟩ ::
      (sampleOffsets duration).map (sampleAt start target duration) ++ [⟨target, duration⟩]) where
  first := rfl
  last := by rw [List.getLast?_concat]; rfl
  offsets := by
    have hmap : ((sampleOffsets duration).map (sampleAt start target duration)).map
        (·.offsetNanoseconds) = sampleOffsets duration := by
      rw [List.map_map]
      exact List.map_id _
    rw [List.map_append, List.map_cons, hmap]
    exact pairwise_between (pairwise_sampleOffsets duration) (fun _ _ => Nat.zero_le _)
      (fun _ hoffset => (mem_sampleOffsets hoffset).le) (Nat.zero_le _)
  short := by
    intro sample hsample
    rcases List.mem_append.mp hsample with hsample | hsample
    · rcases List.mem_cons.mp hsample with rfl | hsample
      · exact Nat.zero_le _
      · obtain ⟨offset, hoffset, rfl⟩ := List.mem_map.mp hsample
        exact (mem_sampleOffsets hoffset).le.trans hshort
    · obtain rfl := List.mem_singleton.mp hsample
      exact hshort
  progress := by
    refine ⟨0 :: (sampleOffsets duration).map (fun offset : ℕ =>
      smoothstep ((offset : ℝ) / duration)) ++ [1], ?_, ?_, ?_⟩
    · simp only [List.map_append, List.map_cons, List.map_nil, List.map_map, along_zero, along_one]
      congr 2
      exact List.map_congr_left fun offset _ => sampleAt_point duration offset
    · refine pairwise_between ?_ ?_ ?_ zero_le_one
      · refine List.pairwise_map.mpr ((pairwise_sampleOffsets duration).imp_of_mem ?_)
        exact fun _ hother hle => smoothstep_offset_le hle (mem_sampleOffsets hother)
      · exact List.forall_mem_map.mpr fun offset hoffset =>
          (smoothstep_offset_mem (mem_sampleOffsets hoffset)).1
      · exact List.forall_mem_map.mpr fun offset hoffset =>
          (smoothstep_offset_mem (mem_sampleOffsets hoffset)).2
    · intro p hp
      rcases List.mem_append.mp hp with hp | hp
      · rcases List.mem_cons.mp hp with rfl | hp
        · exact ⟨le_rfl, zero_le_one⟩
        · obtain ⟨offset, hoffset, rfl⟩ := List.mem_map.mp hp
          exact smoothstep_offset_mem (mem_sampleOffsets hoffset)
      · obtain rfl := List.mem_singleton.mp hp
        exact ⟨zero_le_one, le_rfl⟩

theorem exists_samples (start target : ComputerPoint ℝ) (mode : PointerMotionMode) :
    ∃ samples, PointerTrajectory.samples start target mode = .ok samples ∧
      Smooth start target samples := by
  rw [PointerTrajectory.samples]
  have hfinite : (start.isFinite && target.isFinite) = true := rfl
  rw [hfinite]
  simp only [Bool.not_true, Bool.false_eq_true, if_false]
  split
  · exact ⟨_, rfl, smooth_pair⟩
  · exact ⟨_, rfl, smooth_sampled durationNanoseconds_le⟩

theorem samplesOrTrap_exact (start target : ComputerPoint ℝ) (mode : PointerMotionMode) :
    PointerTrajectory.samplesOrTrap start target mode =
      some (PointerTrajectory.samples start target mode) := by
  refine samplesOrTrap_eq ?_
  have hshort := @durationNanoseconds_le start target mode
  rw [sampleStepNanoseconds]
  omega

/-- The trajectory between any two points is computed without a trap and is smooth, and who
follows it meets no trap either. -/
theorem smooth_samples (target : ComputerPoint ℝ) (mode : PointerMotionMode) :
    (∀ start, ∃ samples, PointerTrajectory.samplesOrTrap start target mode = some (.ok samples) ∧
      Smooth start target samples) ∧
    ∀ dragButton contextGuard, moveMouseOrTrap target mode dragButton contextGuard =
      (moveMouseWithinLane target mode dragButton contextGuard).bind fun result =>
        .pure (some result) := by
  refine ⟨fun start => ?_, moveMouseOrTrap_eq (fun start => samplesOrTrap_exact start target mode)
    fun start samples heq => ?_⟩
  · obtain ⟨samples, heq, hsmooth⟩ := exists_samples start target mode
    exact ⟨samples, (samplesOrTrap_exact start target mode).trans (congrArg some heq), hsmooth⟩
  · obtain ⟨samples', heq', hsmooth⟩ := exists_samples start target mode
    obtain rfl := Except.ok.inj (heq'.symm.trans heq)
    have hfirst := hsmooth.first
    have hsorted := hsmooth.offsets
    cases samples' with
    | nil => cases hfirst
    | cons sample samples =>
      obtain rfl := Option.some.inj hfirst
      exact hsorted

end Exact

end InputControl
