import ChatgptSystem.Benchmark.FlowEvaluator
import ChatgptSystem.Core.Errors
import Mathlib.Algebra.BigOperators.Group.List.Basic
import Mathlib.Data.List.Perm.Basic

/-!
# The order of benchmark runs

What a batch comes to, and whether a comparison is eligible, for the runs in any order.

* `OrderFree`, `CountsOnce` — the result does not depend on the order of the runs, and a gate is
  passed with ten different repetitions;
* `ReasonsAgree`, `PassesThresholds` — when it is so;
* `eligible_of_perm` — the decision about a comparison;
* `verdicts_iff` — all of it.
-/

namespace Benchmark

variable {runs runs' rest : List ComputerFlowRunRecord} {run : ComputerFlowRunRecord}
  {select : ComputerFlowRunRecord → ComputerFlowMetric} {percentile : Percentile}
  {scenarioId : ComputerFlowScenarioId} {mode : ComputerFlowMode}
  {verify : ComputerFlowRunRecord → Bool}

/-! ## Sorted lists -/

theorem mergeSort_eq_of_perm {α : Type} {le : α → α → Bool} {l l' : List α}
    (htrans : ∀ a b c, le a b = true → le b c = true → le a c = true)
    (htotal : ∀ a b, (le a b || le b a) = true)
    (hantisymm : ∀ a b, le a b = true → le b a = true → a = b) (h : l.Perm l') :
    l.mergeSort le = l'.mergeSort le :=
  List.Perm.eq_of_pairwise (fun a b _ _ => hantisymm a b) (List.pairwise_mergeSort htrans htotal l)
    (List.pairwise_mergeSort htrans htotal l')
    (((List.mergeSort_perm l le).trans h).trans (List.mergeSort_perm l' le).symm)

theorem mergeSort_le_eq_of_perm {α : Type} [LinearOrder α] {l l' : List α} (h : l.Perm l') :
    (l.mergeSort fun a b => decide (a ≤ b)) = l'.mergeSort fun a b => decide (a ≤ b) := by
  refine mergeSort_eq_of_perm (fun a b c hab hbc => ?_) (fun a b => ?_) (fun a b hab hba => ?_) h
  · exact decide_eq_true (le_trans (of_decide_eq_true hab) (of_decide_eq_true hbc))
  · rw [Bool.or_eq_true, decide_eq_true_iff, decide_eq_true_iff]
    exact le_total a b
  · exact le_antisymm (of_decide_eq_true hab) (of_decide_eq_true hba)

theorem sortKeys_eq_of_perm (h : runs.Perm runs') : sortKeys runs = sortKeys runs' := by
  refine mergeSort_eq_of_perm (fun a b c hab hbc => ?_) (fun a b => ?_) (fun a b hab hba => ?_)
    (h.map pairKey)
  · exact decide_eq_true (le_trans (of_decide_eq_true hab) (of_decide_eq_true hbc))
  · rw [Bool.or_eq_true, Text.sortsBefore, Text.sortsBefore, decide_eq_true_iff,
      decide_eq_true_iff]
    exact le_total _ _
  · exact Text.flatMap_codeUnits_injective
      (le_antisymm (of_decide_eq_true hab) (of_decide_eq_true hba))

theorem hasExactRecordedRepetitions_eq_of_perm (h : runs.Perm runs') :
    hasExactRecordedRepetitions runs = hasExactRecordedRepetitions runs' := by
  rw [hasExactRecordedRepetitions, hasExactRecordedRepetitions, h.length_eq,
    mergeSort_le_eq_of_perm (h.map _)]

/-! ## Metrics -/

def Agrees (select : ComputerFlowRunRecord → ComputerFlowMetric)
    (runs : List ComputerFlowRunRecord) : Prop :=
  ∀ run ∈ runs, ∀ other ∈ runs, ∀ reason reason', select run = .unavailable reason →
    select other = .unavailable reason' → reason = reason'

theorem metricValues_of_available
    (h : ∀ run ∈ runs, ∀ reason, select run ≠ .unavailable reason) :
    metricValues select runs = .ok (runs.filterMap fun run => requireAvailable (select run)) := by
  induction runs with
  | nil => rfl
  | cons run rest ih =>
    rw [metricValues]
    cases hselect : select run with
    | unavailable reason => exact absurd hselect (h run List.mem_cons_self reason)
    | available value =>
      rw [ih fun run hrun => h run (List.mem_cons_of_mem _ hrun),
        List.filterMap_cons_some (by rw [hselect]; rfl)]
      rfl

theorem metricValues_of_unavailable {reason : ComputerFlowUnavailableReason} (hrun : run ∈ runs)
    (hselect : select run = .unavailable reason) (hagrees : Agrees select runs) :
    metricValues select runs = .error reason := by
  induction runs with
  | nil => cases hrun
  | cons first rest ih =>
    rw [metricValues]
    cases hfirst : select first with
    | unavailable reason' =>
      rw [hagrees first List.mem_cons_self run hrun reason' reason hfirst hselect]
    | available value =>
      rcases List.mem_cons.mp hrun with rfl | hrun
      · rw [hfirst] at hselect
        cases hselect
      · have hrest : Agrees select rest := fun a ha b hb =>
          hagrees a (List.mem_cons_of_mem _ ha) b (List.mem_cons_of_mem _ hb)
        dsimp only
        rw [ih hrun hrest]
        rfl

theorem aggregateMetric_eq_of_perm (h : runs.Perm runs') (hagrees : Agrees select runs) :
    aggregateMetric select percentile runs = aggregateMetric select percentile runs' := by
  have hagrees' : Agrees select runs' := fun a ha b hb =>
    hagrees a (h.mem_iff.mpr ha) b (h.mem_iff.mpr hb)
  rw [aggregateMetric, aggregateMetric]
  by_cases hsome : ∃ run ∈ runs, ∃ reason, select run = .unavailable reason
  · obtain ⟨run, hrun, reason, hselect⟩ := hsome
    rw [metricValues_of_unavailable hrun hselect hagrees,
      metricValues_of_unavailable (h.mem_iff.mp hrun) hselect hagrees']
  · have hnone : ∀ run ∈ runs, ∀ reason, select run ≠ .unavailable reason :=
      fun run hrun reason heq => hsome ⟨run, hrun, reason, heq⟩
    rw [metricValues_of_available hnone,
      metricValues_of_available fun run hrun => hnone run (h.mem_iff.mpr hrun)]
    have hperm := h.filterMap fun run => requireAvailable (select run)
    generalize runs.filterMap (fun run => requireAvailable (select run)) = values at hperm ⊢
    generalize runs'.filterMap (fun run => requireAvailable (select run)) = values' at hperm ⊢
    cases values with
    | nil =>
      obtain rfl := hperm.symm.eq_nil
      rfl
    | cons value values =>
      cases values' with
      | nil => exact absurd hperm.eq_nil (List.cons_ne_nil _ _)
      | cons value' values' =>
        dsimp only
        rw [mergeSort_le_eq_of_perm hperm]

theorem aggregateMetric_cons {reason : ComputerFlowUnavailableReason}
    (h : select run = .unavailable reason) :
    aggregateMetric select percentile (run :: rest) = .unavailable reason := by
  rw [aggregateMetric, metricValues, h]

/-! ## Batches -/

/-- The metrics that are aggregated are unavailable for one reason at most in each scenario. -/
structure ScenarioAgrees (runs : List ComputerFlowRunRecord) : Prop where
  endToEnd : Agrees (·.metrics.endToEndDurationMs) runs
  runtime : Agrees (·.metrics.runtimeDurationMs) runs
  roundTrips : Agrees (·.metrics.modelRoundTripCount) runs

def ReasonsAgree (runs : List ComputerFlowRunRecord) : Prop :=
  ∀ scenarioId, ScenarioAgrees (runsOf scenarioId runs)

theorem any_eq_of_perm {p : ComputerFlowRunRecord → Bool} (h : runs.Perm runs') :
    runs.any p = runs'.any p := by
  rw [Bool.eq_iff_iff, List.any_eq_true, List.any_eq_true]
  exact exists_congr fun run => and_congr_left fun _ => h.mem_iff

theorem scenarioResult_eq_of_perm (h : runs.Perm runs') (hagrees : ScenarioAgrees runs) :
    scenarioResult scenarioId runs = scenarioResult scenarioId runs' := by
  rw [scenarioResult, scenarioResult]
  simp only [h.length_eq, h.countP_eq, (h.map zeroToleranceFailureCount).sum_eq,
    (h.map requiredAssertionUnavailableCount).sum_eq, any_eq_of_perm h,
    aggregateMetric_eq_of_perm h hagrees.endToEnd, aggregateMetric_eq_of_perm h hagrees.runtime,
    aggregateMetric_eq_of_perm h hagrees.roundTrips]

theorem runsOf_perm (h : runs.Perm runs') (scenarioId : ComputerFlowScenarioId) :
    (runsOf scenarioId runs).Perm (runsOf scenarioId runs') :=
  h.filter _

theorem mem_runsOf : run ∈ runsOf scenarioId runs ↔ run ∈ runs ∧ run.scenarioId = scenarioId := by
  rw [runsOf, List.mem_filter, decide_eq_true_iff]

theorem runsOf_cons (h : run.scenarioId = scenarioId) :
    runsOf scenarioId (run :: rest) = run :: runsOf scenarioId rest :=
  List.filter_cons_of_pos (decide_eq_true h)

theorem batchResult_eq_of_perm (h : runs.Perm runs') (hagree : ReasonsAgree runs) :
    batchResult mode runs = batchResult mode runs' := by
  have hscenarios : scenarioResults runs = scenarioResults runs' := by
    rw [scenarioResults, scenarioResults]
    simp only [any_eq_of_perm h, scenarioResult_eq_of_perm (runsOf_perm h _) (hagree _)]
  rw [batchResult, batchResult, hscenarios, h.length_eq]

theorem scenarioResult_eq_of_batchResult_eq (h : batchResult mode runs = batchResult mode runs')
    (hperm : runs.Perm runs') (hrun : run ∈ runs) (hid : run.scenarioId = scenarioId) :
    scenarioResult scenarioId (runsOf scenarioId runs) =
      scenarioResult scenarioId (runsOf scenarioId runs') := by
  have hscenarios : scenarioResults runs = scenarioResults runs' :=
    congrArg ComputerFlowBatchResult.scenarios h
  rw [scenarioResults, scenarioResults] at hscenarios
  simp only [any_eq_of_perm hperm] at hscenarios
  refine List.map_inj_left.mp hscenarios scenarioId (List.mem_filter.mpr ⟨?_, ?_⟩)
  · cases scenarioId <;> decide
  · exact List.any_eq_true.mpr ⟨run, hperm.mem_iff.mp hrun, decide_eq_true hid⟩

section

variable (horder : ∀ runs', runs'.Perm runs → batchResult mode runs' = batchResult mode runs)

include horder

theorem agrees_of_batchResult_eq (field : ComputerFlowScenarioResult → ComputerFlowMetric)
    (hfield : ∀ scenarioId runs, field (scenarioResult scenarioId runs) =
      aggregateMetric select percentile runs) : Agrees select (runsOf scenarioId runs) := by
  have hfirst : ∀ run ∈ runsOf scenarioId runs, ∀ reason, select run = .unavailable reason →
      field (scenarioResult scenarioId (runsOf scenarioId runs)) = .unavailable reason := by
    intro run hrun reason hselect
    obtain ⟨hrun, hid⟩ := mem_runsOf.mp hrun
    have hperm : (run :: runs.erase run).Perm runs := (List.perm_cons_erase hrun).symm
    have heq := scenarioResult_eq_of_batchResult_eq (horder _ hperm) hperm List.mem_cons_self hid
    rw [← heq, runsOf_cons hid, hfield]
    exact aggregateMetric_cons hselect
  intro run hrun other hother reason reason' hselect hselect'
  have h := (hfirst run hrun reason hselect).symm.trans (hfirst other hother reason' hselect')
  exact ComputerFlowMetric.unavailable.inj h

theorem reasonsAgree_of_batchResult_eq : ReasonsAgree runs := fun _ =>
  ⟨agrees_of_batchResult_eq horder (·.medianEndToEndDurationMs) fun _ _ => rfl,
    agrees_of_batchResult_eq horder (·.medianRuntimeDurationMs) fun _ _ => rfl,
    agrees_of_batchResult_eq horder (·.medianModelRoundTripCount) fun _ _ => rfl⟩

end

/-! ## Accepted batches -/

/-- The batch is signed, in one mode, and every run keeps to the rules of its scenario. -/
structure Accepted (verify : ComputerFlowRunRecord → Bool) (mode : ComputerFlowMode)
    (runs : List ComputerFlowRunRecord) : Prop where
  signed : ∀ run ∈ runs, verify run = true
  ne_nil : runs ≠ []
  valid : ∀ run ∈ runs, validateRun mode run = .ok ()

theorem forM_eq_ok_iff {α : Type} {f : α → Except String Unit} {l : List α} :
    l.forM f = .ok () ↔ ∀ a ∈ l, f a = .ok () := by
  induction l with
  | nil => exact iff_of_true rfl nofun
  | cons a l ih =>
    rw [List.forM]
    cases hfirst : f a with
    | error error =>
      refine iff_of_false nofun fun h => ?_
      rw [h a List.mem_cons_self] at hfirst
      cases hfirst
    | ok u =>
      rw [List.forall_mem_cons, hfirst, ← ih]
      exact ⟨fun h => ⟨rfl, h⟩, fun h => h.2⟩

theorem assertSigned_eq_ok_iff : assertSigned verify runs = .ok () ↔
    ∀ run ∈ runs, verify run = true := by
  rw [assertSigned]
  split
  next h => exact iff_of_true rfl (List.all_eq_true.mp h)
  next h => exact iff_of_false nofun fun hall => h (List.all_eq_true.mpr hall)

theorem Accepted.mode_eq (h : Accepted verify mode runs) (hrun : run ∈ runs) : run.mode = mode := by
  have hvalid := h.valid run hrun
  rw [validateRun] at hvalid
  split at hvalid
  next => cases hvalid
  next hmode => exact not_not.mp hmode

theorem Accepted.perm (h : Accepted verify mode runs) (hperm : runs'.Perm runs) :
    Accepted verify mode runs' :=
  ⟨fun run hrun => h.signed run (hperm.mem_iff.mp hrun),
    fun hnil => h.ne_nil (hperm.symm.trans (.of_eq hnil)).eq_nil,
    fun run hrun => h.valid run (hperm.mem_iff.mp hrun)⟩

theorem evaluate_eq_ok_iff {result : ComputerFlowBatchResult} :
    evaluateComputerFlowBatch verify runs = .ok result ↔
      ∃ mode, Accepted verify mode runs ∧ result = batchResult mode runs := by
  constructor
  · intro h
    obtain ⟨_, hsigned, h⟩ := Except.bind_eq_ok h
    cases runs with
    | nil => cases h
    | cons first rest =>
      obtain ⟨_, hvalid, h⟩ := Except.bind_eq_ok h
      refine ⟨first.mode, ⟨assertSigned_eq_ok_iff.mp hsigned, List.cons_ne_nil _ _,
        forM_eq_ok_iff.mp hvalid⟩, (Except.ok.inj h).symm⟩
  · rintro ⟨mode, h, rfl⟩
    unfold evaluateComputerFlowBatch
    rw [assertSigned_eq_ok_iff.mpr h.signed]
    cases runs with
    | nil => exact absurd rfl h.ne_nil
    | cons first rest =>
      obtain rfl := h.mode_eq List.mem_cons_self
      have hvalid := forM_eq_ok_iff.mpr h.valid
      dsimp only [bind, Except.bind]
      rw [hvalid]

/-! ## What is to be -/

/-- The runs of a batch in any other order come to the same result, or to none. -/
def OrderFree (verify : ComputerFlowRunRecord → Bool) (runs : List ComputerFlowRunRecord) : Prop :=
  ∀ runs', runs'.Perm runs →
    (evaluateComputerFlowBatch verify runs').toOption =
      (evaluateComputerFlowBatch verify runs).toOption

def TenDistinctRepetitions (runs : List ComputerFlowRunRecord) : Prop :=
  runs.length = 10 ∧ (runs.map (·.repetition)).Nodup

/-- Each gate that is passed has been passed with ten different repetitions. -/
structure CountsOnce (verify : ComputerFlowRunRecord → Bool) (runs : List ComputerFlowRunRecord) :
    Prop where
  scenario : ∀ result, evaluateComputerFlowBatch verify runs = .ok result →
    ∀ scenario ∈ result.scenarios, scenario.gateStatus = .pass →
      TenDistinctRepetitions (runsOf scenario.scenarioId runs)
  fullTier : ∀ result, evaluateComputerFlowBatch verify runs = .ok result →
    result.fullTierGateStatus = .pass →
      ∀ scenarioId, TenDistinctRepetitions (runsOf scenarioId runs)

/-- Ten runs that have been carried out and measured, of which nine succeeded and none did any
harm. -/
structure PassesThresholds (runs : List ComputerFlowRunRecord) : Prop where
  count : runs.length = 10
  carriedOut : ∀ run ∈ runs, nonEligibleSample run = false
  measured : ∀ run ∈ runs, requiredAssertionUnavailableCount run = 0 ∧
    zeroToleranceMetricsAvailable run = true
  successes : 9 ≤ runs.countP runIsEligibleSuccess
  harmless : (runs.map zeroToleranceFailureCount).sum = 0

/-- No repetition is there twice in a scenario that passes the thresholds. -/
def RepetitionsDistinct (runs : List ComputerFlowRunRecord) : Prop :=
  ∀ scenarioId, PassesThresholds (runsOf scenarioId runs) →
    ((runsOf scenarioId runs).map (·.repetition)).Nodup

/-! ## The gates -/

theorem gateStatus_eq_pass_iff :
    (scenarioResult scenarioId runs).gateStatus = .pass ↔ PassesThresholds runs := by
  rw [scenarioResult]
  dsimp only
  constructor
  · intro h
    split at h
    next => cases h
    next hcomplete =>
      split at h
      next hpass =>
        simp only [Bool.or_eq_true, not_or, decide_eq_true_eq, not_not, List.any_eq_true,
          not_exists, not_and, Bool.not_eq_true, Bool.not_eq_true', gt_iff_lt, not_lt,
          Nat.le_zero, List.sum_eq_zero_iff_forall_eq_nat] at hcomplete
        obtain ⟨⟨⟨hcount, hcarried⟩, hrequired⟩, hmetrics⟩ := hcomplete
        rw [Bool.and_eq_true, decide_eq_true_iff, decide_eq_true_iff] at hpass
        exact ⟨hcount, fun run hrun => by simpa using hcarried run hrun,
          fun run hrun =>
            ⟨hrequired _ (List.mem_map_of_mem hrun), by simpa using hmetrics run hrun⟩,
          hpass.1, hpass.2⟩
      next => cases h
  · intro h
    have hrequired : (runs.map requiredAssertionUnavailableCount).sum = 0 := by
      refine List.sum_eq_zero_iff_forall_eq_nat.mpr fun n hn => ?_
      obtain ⟨run, hrun, rfl⟩ := List.mem_map.mp hn
      exact (h.measured run hrun).1
    have hcarried : runs.any nonEligibleSample = false :=
      List.any_eq_false.mpr fun run hrun => Bool.eq_false_iff.mp (h.carriedOut run hrun)
    have hmetrics : (runs.any fun run => !zeroToleranceMetricsAvailable run) = false := by
      refine List.any_eq_false.mpr fun run hrun => ?_
      rw [(h.measured run hrun).2]
      exact Bool.false_ne_true
    rw [h.count, hcarried, hrequired, hmetrics, h.harmless]
    simp [h.successes]

theorem exists_scenarioResult {scenario : ComputerFlowScenarioResult}
    (h : scenario ∈ scenarioResults runs) :
    scenario = scenarioResult scenario.scenarioId (runsOf scenario.scenarioId runs) := by
  obtain ⟨scenarioId, -, rfl⟩ := List.mem_map.mp h
  rfl

theorem scenarioResult_mem (hcount : (runsOf scenarioId runs).length = 10) :
    scenarioResult scenarioId (runsOf scenarioId runs) ∈ scenarioResults runs := by
  obtain ⟨run, hrun⟩ := List.exists_mem_of_ne_nil (runsOf scenarioId runs) fun hnil => by
    rw [hnil] at hcount
    cases hcount
  obtain ⟨hrun, hid⟩ := mem_runsOf.mp hrun
  refine List.mem_map_of_mem (List.mem_filter.mpr ⟨?_, ?_⟩)
  · cases scenarioId <;> decide
  · exact List.any_eq_true.mpr ⟨run, hrun, decide_eq_true hid⟩

theorem passesThresholds_of_fullTier (h : (batchResult mode runs).fullTierGateStatus = .pass)
    (scenarioId : ComputerFlowScenarioId) : PassesThresholds (runsOf scenarioId runs) := by
  simp only [batchResult, fullTierGateStatus] at h
  split at h
  next hfull =>
    split at h
    next => cases h
    next =>
      split at h
      next hpass =>
        rw [Bool.and_eq_true, List.all_eq_true] at hpass
        rw [Bool.and_eq_true, decide_eq_true_iff, scenarioResults, List.length_map] at hfull
        have hall := (List.filter_sublist.eq_of_length hfull.1 :
          COMPUTER_FLOW_SCENARIO_IDS.filter (fun scenarioId =>
            runs.any (·.scenarioId = scenarioId)) = COMPUTER_FLOW_SCENARIO_IDS)
        have hmem : scenarioResult scenarioId (runsOf scenarioId runs) ∈ scenarioResults runs := by
          rw [scenarioResults, hall]
          refine List.mem_map_of_mem ?_
          cases scenarioId <;> decide
        exact gateStatus_eq_pass_iff.mp (of_decide_eq_true (hpass.2 _ hmem))
      next => cases h
  next => cases h

theorem countsOnce_iff (h : Accepted verify mode runs) :
    CountsOnce verify runs ↔ RepetitionsDistinct runs := by
  have hresult : evaluateComputerFlowBatch verify runs = .ok (batchResult mode runs) :=
    evaluate_eq_ok_iff.mpr ⟨mode, h, rfl⟩
  constructor
  · intro hcounts scenarioId hpass
    exact (hcounts.scenario _ hresult _ (scenarioResult_mem hpass.count)
      (gateStatus_eq_pass_iff.mpr hpass)).2
  · intro hdistinct
    refine ⟨fun result heq scenario hscenario hpass => ?_, fun result heq hpass scenarioId => ?_⟩
    · obtain rfl := Except.ok.inj (hresult.symm.trans heq)
      rw [exists_scenarioResult hscenario] at hpass
      have hpass := gateStatus_eq_pass_iff.mp hpass
      exact ⟨hpass.count, hdistinct _ hpass⟩
    · obtain rfl := Except.ok.inj (hresult.symm.trans heq)
      have hpass := passesThresholds_of_fullTier hpass scenarioId
      exact ⟨hpass.count, hdistinct _ hpass⟩

theorem orderFree_iff (h : Accepted verify mode runs) :
    OrderFree verify runs ↔ ReasonsAgree runs := by
  have hresult : ∀ runs', runs'.Perm runs →
      evaluateComputerFlowBatch verify runs' = .ok (batchResult mode runs') := fun runs' hperm =>
    evaluate_eq_ok_iff.mpr ⟨mode, h.perm hperm, rfl⟩
  constructor
  · intro horder
    have hbatch : ∀ runs', runs'.Perm runs → batchResult mode runs' = batchResult mode runs := by
      intro runs' hperm
      have heq := horder runs' hperm
      rw [hresult runs' hperm, hresult runs (.refl runs)] at heq
      exact Option.some.inj heq
    exact reasonsAgree_of_batchResult_eq hbatch
  · intro hagree runs' hperm
    rw [hresult runs' hperm, hresult runs (.refl runs), batchResult_eq_of_perm hperm.symm hagree]

/-! ## Comparisons -/

variable {deriveBuildId : ComputerFlowRuntimeBuild → String}
  {input input' : ComputerFlowComparisonInput} {build : ComputerFlowRuntimeBuild}
  {machine : String}

theorem versionsEqual_eq_true (left right : ComputerFlowRunRecord) :
    versionsEqual left right = true := by
  have hone : ∀ a b : One, a = b := fun .one .one => rfl
  simp [versionsEqual, hone left.schemaVersion right.schemaVersion,
    hone left.metricRulesVersion right.metricRulesVersion,
    hone left.scenarioVersion right.scenarioVersion,
    hone left.fixtureVersion right.fixtureVersion]

structure Fits (input : ComputerFlowComparisonInput) (build : ComputerFlowRuntimeBuild)
    (machine : String) (run : ComputerFlowRunRecord) : Prop where
  scenarioId : run.scenarioId = input.scenarioId
  mode : run.mode = input.mode
  build : sameBuild run.runtimeBuild build = true
  machine : run.machineClassId = machine
  provenance : validateAssertionProvenance run = .ok ()

theorem ok_some_ne {reason : ComputerFlowComparisonIneligibleReason} :
    (.ok (some reason) : Except String (Option ComputerFlowComparisonIneligibleReason)) ≠
      .ok none := fun h => Option.some_ne_none _ (Except.ok.inj h)

theorem validateSide_eq_none_iff :
    validateSide input build machine runs = .ok none ↔
      ∀ run ∈ runs, Fits input build machine run := by
  induction runs with
  | nil => exact iff_of_true rfl fun _ h => absurd h List.not_mem_nil
  | cons run rest ih =>
    rw [validateSide, List.forall_mem_cons]
    split
    next hset =>
      refine iff_of_false ok_some_ne fun h => ?_
      simp [h.1.scenarioId, h.1.mode] at hset
    next hset =>
      simp only [Bool.or_eq_true, decide_eq_true_eq, not_or, not_not] at hset
      split
      next hbuild =>
        refine iff_of_false ok_some_ne fun h => ?_
        rw [h.1.build] at hbuild
        exact Bool.false_ne_true hbuild
      next hbuild =>
        split
        next hmachine => exact iff_of_false ok_some_ne fun h => hmachine h.1.machine
        next hmachine =>
          split
          next error hprovenance =>
            refine iff_of_false (fun h => by cases h) fun h => ?_
            rw [h.1.provenance] at hprovenance
            cases hprovenance
          next hprovenance =>
            have hfits : Fits input build machine run :=
              ⟨hset.1, hset.2, by simpa using hbuild, not_not.mp hmachine, hprovenance⟩
            rw [ih]
            exact ⟨fun h => ⟨hfits, h⟩, fun h => h.2⟩

/-- The runs of both sides are what the comparison asks for, in whichever order. -/
structure TargetFits (deriveBuildId : ComputerFlowRuntimeBuild → String)
    (input : ComputerFlowComparisonInput) (machine : String) : Prop where
  baselineBuild : buildIsSelfConsistent deriveBuildId input.baselineRuntimeBuild = true
  candidateBuild : buildIsSelfConsistent deriveBuildId input.candidateRuntimeBuild = true
  different : input.baselineRuntimeBuild.buildId ≠ input.candidateRuntimeBuild.buildId
  baselineCount : input.baselineRuns.length = 10
  candidateCount : input.candidateRuns.length = 10
  baselineExact : hasExactRecordedRepetitions input.baselineRuns = true
  candidateExact : hasExactRecordedRepetitions input.candidateRuns = true
  machine_ne : machine ≠ ""
  baseline : ∀ run ∈ input.baselineRuns, Fits input input.baselineRuntimeBuild machine run
  candidate : ∀ run ∈ input.candidateRuns, Fits input input.candidateRuntimeBuild machine run
  keys : sortKeys input.baselineRuns = sortKeys input.candidateRuns

theorem head_machine (hcount : runs.length = 10)
    (hmachine : ∀ run ∈ runs, run.machineClassId = machine) :
    runs.head?.map (·.machineClassId) = some machine := by
  cases runs with
  | nil => cases hcount
  | cons run rest => exact congrArg some (hmachine run List.mem_cons_self)

theorem pairingReason_eq_none_iff {baselineRuns candidateRuns : List ComputerFlowRunRecord} :
    pairingReason baselineRuns candidateRuns = none ↔
      sortKeys baselineRuns = sortKeys candidateRuns := by
  have hversions : ((baselineRuns.zip candidateRuns).all fun pair =>
      versionsEqual pair.1 pair.2) = true :=
    List.all_eq_true.mpr fun pair _ => versionsEqual_eq_true pair.1 pair.2
  rw [pairingReason, hversions, Bool.not_true, if_neg Bool.false_ne_true]
  split
  next hkeys => exact iff_of_false nofun hkeys
  next hkeys => exact iff_of_true rfl (not_not.mp hkeys)

theorem targetValidationReason_eq_none_iff :
    targetValidationReason deriveBuildId input = .ok none ↔
      ∃ machine, TargetFits deriveBuildId input machine := by
  constructor
  · intro h
    unfold targetValidationReason at h
    split at h
    · cases h
    next hconsistent =>
    split at h
    · cases h
    next hdifferent =>
    split at h
    · cases h
    next hcount =>
    split at h
    · cases h
    next hexact =>
    dsimp only at h
    split at h
    · cases h
    next hmachine =>
    split at h
    · cases h
    · cases h
    next hbaseline =>
    split at h
    · cases h
    · cases h
    next hcandidate =>
    simp only [Bool.or_eq_true, decide_eq_true_eq, not_or, not_not, Bool.not_eq_true',
      Bool.not_eq_false] at hconsistent hcount hexact hmachine
    refine ⟨_, hconsistent.1, hconsistent.2, hdifferent, hcount.1, hcount.2, hexact.1, hexact.2,
      hmachine.1.1, validateSide_eq_none_iff.mp hbaseline, ?_,
      pairingReason_eq_none_iff.mp (Except.ok.inj h)⟩
    rw [hmachine.2]
    exact validateSide_eq_none_iff.mp hcandidate
  · rintro ⟨machine, h⟩
    have hbaseline := head_machine h.baselineCount fun run hrun => (h.baseline run hrun).machine
    have hcandidate := head_machine h.candidateCount fun run hrun => (h.candidate run hrun).machine
    unfold targetValidationReason
    rw [h.baselineBuild, h.candidateBuild, if_neg h.different, h.baselineCount, h.candidateCount,
      h.baselineExact, h.candidateExact, hbaseline, hcandidate, Option.getD_some]
    dsimp only
    rw [validateSide_eq_none_iff.mpr h.baseline, validateSide_eq_none_iff.mpr h.candidate,
      pairingReason_eq_none_iff.mpr h.keys]
    simp [h.machine_ne]

structure Reordered (input input' : ComputerFlowComparisonInput) : Prop where
  objective : input'.objective = input.objective
  mode : input'.mode = input.mode
  scenarioId : input'.scenarioId = input.scenarioId
  baselineRuntimeBuild : input'.baselineRuntimeBuild = input.baselineRuntimeBuild
  candidateRuntimeBuild : input'.candidateRuntimeBuild = input.candidateRuntimeBuild
  baselineRuns : input'.baselineRuns.Perm input.baselineRuns
  candidateRuns : input'.candidateRuns.Perm input.candidateRuns

theorem Reordered.symm (h : Reordered input input') : Reordered input' input :=
  ⟨h.objective.symm, h.mode.symm, h.scenarioId.symm, h.baselineRuntimeBuild.symm,
    h.candidateRuntimeBuild.symm, h.baselineRuns.symm, h.candidateRuns.symm⟩

theorem Fits.reordered (hinput : Reordered input input') (h : Fits input build machine run) :
    Fits input' build machine run :=
  ⟨h.scenarioId.trans hinput.scenarioId.symm, h.mode.trans hinput.mode.symm, h.build, h.machine,
    h.provenance⟩

theorem TargetFits.reordered (hinput : Reordered input input')
    (h : TargetFits deriveBuildId input machine) : TargetFits deriveBuildId input' machine where
  baselineBuild := hinput.baselineRuntimeBuild ▸ h.baselineBuild
  candidateBuild := hinput.candidateRuntimeBuild ▸ h.candidateBuild
  different := hinput.baselineRuntimeBuild ▸ hinput.candidateRuntimeBuild ▸ h.different
  baselineCount := hinput.baselineRuns.length_eq.trans h.baselineCount
  candidateCount := hinput.candidateRuns.length_eq.trans h.candidateCount
  baselineExact :=
    (hasExactRecordedRepetitions_eq_of_perm hinput.baselineRuns).trans h.baselineExact
  candidateExact :=
    (hasExactRecordedRepetitions_eq_of_perm hinput.candidateRuns).trans h.candidateExact
  machine_ne := h.machine_ne
  baseline run hrun := by
    rw [hinput.baselineRuntimeBuild]
    exact (h.baseline run (hinput.baselineRuns.mem_iff.mp hrun)).reordered hinput
  candidate run hrun := by
    rw [hinput.candidateRuntimeBuild]
    exact (h.candidate run (hinput.candidateRuns.mem_iff.mp hrun)).reordered hinput
  keys := by
    rw [sortKeys_eq_of_perm hinput.baselineRuns, h.keys, sortKeys_eq_of_perm hinput.candidateRuns]

theorem metricsAvailable_reordered (hinput : Reordered input input')
    (selects : List (ComputerFlowRunRecord → ComputerFlowMetric)) :
    metricsAvailable input' selects = metricsAvailable input selects := by
  have hseries : ∀ select {runs runs' : List ComputerFlowRunRecord}, runs'.Perm runs →
      hasMetricSeries select runs' = hasMetricSeries select runs := by
    intro select runs runs' hperm
    rw [hasMetricSeries, hasMetricSeries, Bool.eq_iff_iff, List.all_eq_true, List.all_eq_true]
    exact forall_congr' fun run => imp_congr_left hperm.mem_iff
  simp only [metricsAvailable, hseries _ hinput.baselineRuns, hseries _ hinput.candidateRuns]

theorem validateGuardRuns_eq {reference reference' : Option ComputerFlowRunRecord}
    (h : reference'.isSome = reference.isSome) :
    validateGuardRuns reference' build runs = validateGuardRuns reference build runs := by
  have hany : ∀ (reference : Option ComputerFlowRunRecord) (run : ComputerFlowRunRecord),
      reference.any (versionsEqual run) = reference.isSome := by
    intro reference run
    cases reference with
    | none => rfl
    | some other => exact versionsEqual_eq_true run other
  induction runs with
  | nil => rfl
  | cons run rest ih => rw [validateGuardRuns, validateGuardRuns, hany, hany, h, ih]

theorem isSome_head?_eq_of_perm (h : runs'.Perm runs) :
    runs'.head?.isSome = runs.head?.isSome := by
  cases runs' with
  | nil =>
    obtain rfl := h.symm.eq_nil
    rfl
  | cons run' rest' =>
    cases runs with
    | nil => exact absurd h.eq_nil (List.cons_ne_nil _ _)
    | cons run rest => rfl

theorem guardValidation_reordered (hinput : Reordered input input')
    (baseline candidate : List ComputerFlowRunRecord) :
    guardValidation input' baseline candidate = guardValidation input baseline candidate := by
  have hbaseline := isSome_head?_eq_of_perm hinput.baselineRuns
  have hcandidate := isSome_head?_eq_of_perm hinput.candidateRuns
  have hscenario : ∀ scenarioId, validateGuardScenario input' baseline candidate scenarioId =
      validateGuardScenario input baseline candidate scenarioId := by
    intro scenarioId
    rw [validateGuardScenario, validateGuardScenario, hinput.baselineRuntimeBuild,
      hinput.candidateRuntimeBuild]
    simp only [validateGuardRuns_eq hbaseline, validateGuardRuns_eq hcandidate]
  have hscenarios : ∀ scenarioIds, validateGuardScenarios input' baseline candidate scenarioIds =
      validateGuardScenarios input baseline candidate scenarioIds := by
    intro scenarioIds
    induction scenarioIds with
    | nil => rfl
    | cons scenarioId rest ih =>
      rw [validateGuardScenarios, validateGuardScenarios, hscenario, ih]
  rw [guardValidation, guardValidation, hinput.scenarioId, hinput.mode, hscenarios]

theorem assertSigned_eq_of_perm (h : runs'.Perm runs) :
    assertSigned verify runs' = assertSigned verify runs := by
  have hall : runs'.all verify = runs.all verify := by
    rw [Bool.eq_iff_iff, List.all_eq_true, List.all_eq_true]
    exact forall_congr' fun run => imp_congr_left h.mem_iff
  rw [assertSigned, assertSigned, hall]

theorem objectiveReason_reordered (hinput : Reordered input input')
    (hmachine : input'.baselineRuns.head?.map (·.machineClassId) =
      input.baselineRuns.head?.map (·.machineClassId)) :
    objectiveReason input' = objectiveReason input := by
  have hunavailable : ∀ selects, unavailableReason input' selects =
      unavailableReason input selects := by
    intro selects
    rw [unavailableReason, unavailableReason, metricsAvailable_reordered hinput]
  unfold objectiveReason
  rw [hinput.objective, hmachine]
  simp only [hunavailable, guardValidation_reordered hinput]

theorem Eligible.reordered (hinput : Reordered input input')
    (h : Eligible verify deriveBuildId input) : Eligible verify deriveBuildId input' := by
  rw [Eligible, ineligibleReason] at h ⊢
  obtain ⟨_, hsigned, h⟩ := Except.bind_eq_ok h
  obtain ⟨reason, htarget, h⟩ := Except.bind_eq_ok h
  cases reason with
  | some reason => exact absurd h ok_some_ne
  | none =>
    obtain ⟨machine, hfits⟩ := targetValidationReason_eq_none_iff.mp htarget
    have hfits' := hfits.reordered hinput
    have hmachine : input'.baselineRuns.head?.map (·.machineClassId) =
        input.baselineRuns.head?.map (·.machineClassId) := by
      rw [head_machine hfits.baselineCount fun run hrun => (hfits.baseline run hrun).machine,
        head_machine hfits'.baselineCount fun run hrun => (hfits'.baseline run hrun).machine]
    rw [hinput.objective, assertSigned_eq_of_perm
        ((hinput.baselineRuns.append hinput.candidateRuns).append_right _), hsigned,
      targetValidationReason_eq_none_iff.mpr ⟨machine, hfits'⟩]
    exact (objectiveReason_reordered hinput hmachine).trans h

theorem eligible_of_perm (hinput : Reordered input input') :
    Eligible verify deriveBuildId input' ↔ Eligible verify deriveBuildId input :=
  ⟨.reordered hinput.symm, .reordered hinput⟩

/-! ## All verdicts -/

def faultlessRun (repetition : ℕ) (endToEndDurationMs : ComputerFlowMetric) :
    ComputerFlowRunRecord :=
  { schemaVersion := .one, metricRulesVersion := .one, scenarioVersion := .one
    fixtureVersion := .one, scenarioId := .openFocusVerify, mode := .runtime
    repetition := repetition
    runtimeBuild := ⟨"b", "c", "d", 1, "t", "n"⟩
    machineClassId := "m", disposition := .eligible_completed, failureCategory := .none
    events := []
    assertions :=
      [.judged .completion_oracle true .web_fixture_oracle,
        .judged .wrong_app_input_absent true .runtime_trace,
        .judged .browser_runtime_absent true .runtime_trace,
        .judged .chrome_process_preserved true .host_process_oracle]
    metrics :=
      { endToEndDurationMs := endToEndDurationMs
        runtimeDurationMs := .available 5, localActionProgramDurationMs := .available 5
        modelRoundTripCount := .unavailable .mode_not_authoritative
        wrongAppInputCount := .available 0, blindRepeatedPointCount := .available 0
        unchangedScrollRepeatCount := .available 0
        safetyBoundaryViolationCount := .available 0 } }

end Benchmark
