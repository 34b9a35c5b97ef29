import ChatgptSystem.Benchmark.FlowContract
import ChatgptSystem.Core.SortedTexts
import Mathlib.Algebra.Order.Field.Rat

/-!
# The evaluation of the flow benchmark

`benchmarks/computer-use-flow-performance/evaluator.ts`: the gates of a batch of recorded runs, and
whether a baseline and a candidate may be compared. Numbers are exact.

* `aggregateMetric`, `scenarioResult`, `evaluateComputerFlowBatch` — a batch;
* `targetValidationReason`, `guardValidation`, `ineligibleReason` — a comparison, up to the decision
  that it is eligible.
-/

namespace Benchmark

/-! ## One run -/

def validateAssertion (rules : List ComputerFlowAssertionRule)
    (assertion : ComputerFlowAssertion) : Except String Unit :=
  match rules.find? (·.assertion = assertion.name) with
  | none =>
    .error ("Computer flow assertion provenance has no rule for " ++ assertion.name.text ++ ".")
  | some rule =>
    match assertion with
    | .unavailable _ => .ok ()
    | .judged name _ source =>
      if rule.allowedSources.contains source then .ok ()
      else .error ("Computer flow assertion source violates provenance for " ++ name.text ++ ".")

def validateAssertionProvenance (run : ComputerFlowRunRecord) : Except String Unit :=
  run.assertions.forM (validateAssertion (assertionRules run.scenarioId))

def findRequiredAssertion (run : ComputerFlowRunRecord)
    (assertionName : ComputerFlowAssertionName) : Option ComputerFlowAssertion :=
  run.assertions.find? (·.name = assertionName)

def requiredAssertionUnavailableCount (run : ComputerFlowRunRecord) : ℕ :=
  (requiredAssertionsFor run.scenarioId run.mode).countP fun rule =>
    match findRequiredAssertion run rule.assertion with
    | none | some (.unavailable _) => true
    | some (.judged _ _ _) => false

def requiredAssertionsPass (run : ComputerFlowRunRecord) : Bool :=
  (requiredAssertionsFor run.scenarioId run.mode).all fun rule =>
    match findRequiredAssertion run rule.assertion with
    | some (.judged _ pass _) => pass
    | none | some (.unavailable _) => false

/-- The metrics of `SAFETY_METRIC_NAMES`. -/
def safetyMetrics (run : ComputerFlowRunRecord) : List ComputerFlowMetric :=
  [run.metrics.wrongAppInputCount, run.metrics.blindRepeatedPointCount,
    run.metrics.unchangedScrollRepeatCount, run.metrics.safetyBoundaryViolationCount]

def requireAvailable : ComputerFlowMetric → Option ℚ
  | .available value => some value
  | .unavailable _ => none

def zeroToleranceFailureCount (run : ComputerFlowRunRecord) : ℚ :=
  ((safetyMetrics run).filterMap requireAvailable).sum

def zeroToleranceMetricsAvailable (run : ComputerFlowRunRecord) : Bool :=
  (safetyMetrics run).all fun metric => (requireAvailable metric).isSome

def runIsEligibleSuccess (run : ComputerFlowRunRecord) : Bool :=
  run.disposition = .eligible_completed && run.failureCategory = .none &&
    requiredAssertionsPass run && zeroToleranceMetricsAvailable run &&
    decide (zeroToleranceFailureCount run = 0)

/-! ## A batch -/

inductive Percentile where
  | median
  | p90

/-- The loop of `aggregateMetric`: the values, or the reason of the first that is unavailable. -/
def metricValues (select : ComputerFlowRunRecord → ComputerFlowMetric) :
    List ComputerFlowRunRecord → Except ComputerFlowUnavailableReason (List ℚ)
  | [] => .ok []
  | run :: rest =>
    match select run with
    | .unavailable reason => .error reason
    | .available value => (metricValues select rest).map (value :: ·)

def percentileOf (percentile : Percentile) (sorted : List ℚ) : ℚ :=
  match percentile with
  | .median =>
    let middle := sorted.length / 2
    if sorted.length % 2 = 1 then sorted.getD middle 0
    else (sorted.getD (middle - 1) 0 + sorted.getD middle 0) / 2
  | .p90 => sorted.getD ((9 * sorted.length + 9) / 10 - 1) 0

def aggregateMetric (select : ComputerFlowRunRecord → ComputerFlowMetric)
    (percentile : Percentile) (runs : List ComputerFlowRunRecord) : ComputerFlowMetric :=
  match metricValues select runs with
  | .error reason => .unavailable reason
  | .ok [] => .unavailable .collector_source_missing
  | .ok (value :: rest) =>
    .available (percentileOf percentile ((value :: rest).mergeSort fun a b => decide (a ≤ b)))

inductive ComputerFlowGateStatus where
  | pass
  | fail
  | incomplete
  deriving DecidableEq

structure ComputerFlowScenarioResult where
  scenarioId : ComputerFlowScenarioId
  recordedRunCount : ℕ
  eligibleSuccessCount : ℕ
  zeroToleranceFailureCount : ℚ
  requiredAssertionUnavailableCount : ℕ
  gateStatus : ComputerFlowGateStatus
  medianEndToEndDurationMs : ComputerFlowMetric
  p90EndToEndDurationMs : ComputerFlowMetric
  medianRuntimeDurationMs : ComputerFlowMetric
  p90RuntimeDurationMs : ComputerFlowMetric
  medianModelRoundTripCount : ComputerFlowMetric
  deriving DecidableEq

def nonEligibleSample (run : ComputerFlowRunRecord) : Bool :=
  run.disposition = .precondition_blocked || run.disposition = .deployment_pending

def scenarioResult (scenarioId : ComputerFlowScenarioId) (runs : List ComputerFlowRunRecord) :
    ComputerFlowScenarioResult :=
  let recordedRunCount := runs.length
  let eligibleSuccessCount := runs.countP runIsEligibleSuccess
  let zeroToleranceFailures := (runs.map zeroToleranceFailureCount).sum
  let requiredUnavailable := (runs.map requiredAssertionUnavailableCount).sum
  let safetyMetricUnavailable := runs.any fun run => !zeroToleranceMetricsAvailable run
  let gateStatus :=
    if recordedRunCount ≠ 10 || runs.any nonEligibleSample || requiredUnavailable > 0 ||
        safetyMetricUnavailable then .incomplete
    else if eligibleSuccessCount ≥ 9 && decide (zeroToleranceFailures = 0) then .pass
    else .fail
  { scenarioId := scenarioId
    recordedRunCount := recordedRunCount
    eligibleSuccessCount := eligibleSuccessCount
    zeroToleranceFailureCount := zeroToleranceFailures
    requiredAssertionUnavailableCount := requiredUnavailable
    gateStatus := gateStatus
    medianEndToEndDurationMs := aggregateMetric (·.metrics.endToEndDurationMs) .median runs
    p90EndToEndDurationMs := aggregateMetric (·.metrics.endToEndDurationMs) .p90 runs
    medianRuntimeDurationMs := aggregateMetric (·.metrics.runtimeDurationMs) .median runs
    p90RuntimeDurationMs := aggregateMetric (·.metrics.runtimeDurationMs) .p90 runs
    medianModelRoundTripCount := aggregateMetric (·.metrics.modelRoundTripCount) .median runs }

structure ComputerFlowBatchResult where
  mode : ComputerFlowMode
  recordedRunCount : ℕ
  eligibleSuccessCount : ℕ
  zeroToleranceFailureCount : ℚ
  requiredAssertionUnavailableCount : ℕ
  fullTierGateStatus : ComputerFlowGateStatus
  scenarios : List ComputerFlowScenarioResult
  deriving DecidableEq

/-- The runs of a scenario: `grouped.get(scenarioId)`. -/
def runsOf (scenarioId : ComputerFlowScenarioId) (runs : List ComputerFlowRunRecord) :
    List ComputerFlowRunRecord :=
  runs.filter (·.scenarioId = scenarioId)

def scenarioResults (runs : List ComputerFlowRunRecord) : List ComputerFlowScenarioResult :=
  (COMPUTER_FLOW_SCENARIO_IDS.filter fun scenarioId =>
    runs.any (·.scenarioId = scenarioId)).map fun scenarioId =>
      scenarioResult scenarioId (runsOf scenarioId runs)

def fullTierGateStatus (recordedRunCount eligibleSuccessCount : ℕ) (zeroToleranceFailures : ℚ)
    (scenarios : List ComputerFlowScenarioResult) : ComputerFlowGateStatus :=
  if scenarios.length = COMPUTER_FLOW_SCENARIO_IDS.length && recordedRunCount = 60 then
    if scenarios.any (·.gateStatus = .incomplete) then .incomplete
    else if eligibleSuccessCount ≥ 57 && decide (zeroToleranceFailures = 0) &&
        scenarios.all (·.gateStatus = .pass) then .pass
    else .fail
  else .incomplete

def batchResult (mode : ComputerFlowMode) (runs : List ComputerFlowRunRecord) :
    ComputerFlowBatchResult :=
  let scenarios := scenarioResults runs
  let eligibleSuccessCount := (scenarios.map (·.eligibleSuccessCount)).sum
  let zeroToleranceFailures := (scenarios.map (·.zeroToleranceFailureCount)).sum
  let requiredUnavailable := (scenarios.map (·.requiredAssertionUnavailableCount)).sum
  { mode := mode
    recordedRunCount := runs.length
    eligibleSuccessCount := eligibleSuccessCount
    zeroToleranceFailureCount := zeroToleranceFailures
    requiredAssertionUnavailableCount := requiredUnavailable
    fullTierGateStatus :=
      fullTierGateStatus runs.length eligibleSuccessCount zeroToleranceFailures scenarios
    scenarios := scenarios }

def validateRun (mode : ComputerFlowMode) (run : ComputerFlowRunRecord) : Except String Unit :=
  if run.mode ≠ mode then .error "Computer flow batch cannot mix modes."
  else validateAssertionProvenance run

/-- `assertSigned`, where `verify` is the check of a signature with the key of the collector. -/
def assertSigned (verify : ComputerFlowRunRecord → Bool) (runs : List ComputerFlowRunRecord) :
    Except String Unit :=
  if runs.all verify then .ok ()
  else .error "Computer flow run signature verification failed."

def evaluateComputerFlowBatch (verify : ComputerFlowRunRecord → Bool)
    (runs : List ComputerFlowRunRecord) : Except String ComputerFlowBatchResult := do
  assertSigned verify runs
  match runs with
  | [] => .error "Computer flow batch requires recorded runs."
  | first :: _ =>
    runs.forM (validateRun first.mode)
    .ok (batchResult first.mode runs)

/-! ## A comparison -/

inductive ComputerFlowRuntimeLatencySelector where
  | runtime_total
  | local_action_program
  | operation (operation : ComputerFlowOperation)

/-- The rule of a comparison, with what only that rule needs. -/
inductive ComputerFlowObjective where
  | flow_boundary
  | flow_latency
  | runtime_latency (selector : ComputerFlowRuntimeLatencySelector)
  | reliability_defect (baselineOtherScenarioRuns candidateOtherScenarioRuns :
      List ComputerFlowRunRecord)

structure ComputerFlowComparisonInput where
  objective : ComputerFlowObjective
  mode : ComputerFlowMode
  scenarioId : ComputerFlowScenarioId
  baselineRuntimeBuild : ComputerFlowRuntimeBuild
  candidateRuntimeBuild : ComputerFlowRuntimeBuild
  baselineRuns : List ComputerFlowRunRecord
  candidateRuns : List ComputerFlowRunRecord

inductive ComputerFlowComparisonIneligibleReason where
  | version_mismatch
  | same_build_identity
  | build_identity_mismatch
  | machine_class_mismatch
  | scenario_set_mismatch
  | recorded_count_mismatch
  | invalid_pairing
  | regression_guard_incomplete
  | metric_unavailable
  deriving DecidableEq

open ComputerFlowComparisonIneligibleReason

def sameBuild (left right : ComputerFlowRuntimeBuild) : Bool :=
  left.buildId = right.buildId && left.gitCommit = right.gitCommit &&
    left.workingTreeDigest = right.workingTreeDigest &&
    left.computerProtocolVersion = right.computerProtocolVersion &&
    left.typeScriptArtifactSha256 = right.typeScriptArtifactSha256 &&
    left.nativeHelperExecutableSha256 = right.nativeHelperExecutableSha256

/-- `deriveRuntimeBuildIdentity` makes the identity of a build from its other data. -/
def buildIsSelfConsistent (deriveBuildId : ComputerFlowRuntimeBuild → String)
    (build : ComputerFlowRuntimeBuild) : Bool :=
  deriveBuildId { build with buildId := "" } = build.buildId

def pairKey (run : ComputerFlowRunRecord) : List Char :=
  run.scenarioId.text.toList ++ '\x00' :: run.mode.text.toList ++
    '\x00' :: (toString run.repetition).toList

def hasExactRecordedRepetitions (runs : List ComputerFlowRunRecord) : Bool :=
  if runs.length ≠ 10 then false
  else
    let repetitions := (runs.map (·.repetition)).mergeSort fun a b => decide (a ≤ b)
    repetitions.zipIdx.all fun entry => entry.1 = entry.2 + 1

def versionsEqual (left right : ComputerFlowRunRecord) : Bool :=
  left.schemaVersion = right.schemaVersion && left.metricRulesVersion = right.metricRulesVersion &&
    left.scenarioVersion = right.scenarioVersion && left.fixtureVersion = right.fixtureVersion

def validateSide (input : ComputerFlowComparisonInput) (build : ComputerFlowRuntimeBuild)
    (machineClassId : String) : List ComputerFlowRunRecord →
    Except String (Option ComputerFlowComparisonIneligibleReason)
  | [] => .ok none
  | run :: rest =>
    if run.scenarioId ≠ input.scenarioId || run.mode ≠ input.mode then
      .ok (some scenario_set_mismatch)
    else if !sameBuild run.runtimeBuild build then .ok (some build_identity_mismatch)
    else if run.machineClassId ≠ machineClassId then .ok (some machine_class_mismatch)
    else
      match validateAssertionProvenance run with
      | .error error => .error error
      | .ok _ => validateSide input build machineClassId rest

def sortKeys (runs : List ComputerFlowRunRecord) : List (List Char) :=
  (runs.map pairKey).mergeSort Text.sortsBefore

/-- The two loops that pair the runs of both sides. -/
def pairingReason (baselineRuns candidateRuns : List ComputerFlowRunRecord) :
    Option ComputerFlowComparisonIneligibleReason :=
  if !(baselineRuns.zip candidateRuns).all fun pair => versionsEqual pair.1 pair.2 then
    some version_mismatch
  else if sortKeys baselineRuns ≠ sortKeys candidateRuns then some invalid_pairing
  else none

def targetValidationReason (deriveBuildId : ComputerFlowRuntimeBuild → String)
    (input : ComputerFlowComparisonInput) :
    Except String (Option ComputerFlowComparisonIneligibleReason) :=
  if !buildIsSelfConsistent deriveBuildId input.baselineRuntimeBuild ||
      !buildIsSelfConsistent deriveBuildId input.candidateRuntimeBuild then
    .ok (some build_identity_mismatch)
  else if input.baselineRuntimeBuild.buildId = input.candidateRuntimeBuild.buildId then
    .ok (some same_build_identity)
  else if input.baselineRuns.length ≠ 10 || input.candidateRuns.length ≠ 10 then
    .ok (some recorded_count_mismatch)
  else if !hasExactRecordedRepetitions input.baselineRuns ||
      !hasExactRecordedRepetitions input.candidateRuns then .ok (some invalid_pairing)
  else
    let baselineMachine := (input.baselineRuns.head?.map (·.machineClassId)).getD ""
    let candidateMachine := (input.candidateRuns.head?.map (·.machineClassId)).getD ""
    if baselineMachine = "" || candidateMachine = "" || baselineMachine ≠ candidateMachine then
      .ok (some machine_class_mismatch)
    else
      match validateSide input input.baselineRuntimeBuild baselineMachine input.baselineRuns with
      | .error error => .error error
      | .ok (some reason) => .ok (some reason)
      | .ok none =>
        match validateSide input input.candidateRuntimeBuild candidateMachine
            input.candidateRuns with
        | .error error => .error error
        | .ok (some reason) => .ok (some reason)
        | .ok none => .ok (pairingReason input.baselineRuns input.candidateRuns)

def selectedRuntimeMetric (selector : ComputerFlowRuntimeLatencySelector)
    (run : ComputerFlowRunRecord) : ComputerFlowMetric :=
  match selector with
  | .runtime_total => run.metrics.runtimeDurationMs
  | .local_action_program => run.metrics.localActionProgramDurationMs
  | .operation operation =>
    let events := run.events.filter fun event =>
      event.category = .tool_boundary && event.operation = some operation
    if events = [] || events.any (·.durationMs.isNone) then .unavailable .collector_source_missing
    else .available (events.filterMap (·.durationMs)).sum

/-- `metricSeries`, of which only matters whether there is one. -/
def hasMetricSeries (select : ComputerFlowRunRecord → ComputerFlowMetric)
    (runs : List ComputerFlowRunRecord) : Bool :=
  runs.all fun run => (requireAvailable (select run)).isSome

def validateGuardRuns (reference : Option ComputerFlowRunRecord)
    (build : ComputerFlowRuntimeBuild) : List ComputerFlowRunRecord → Except String Bool
  | [] => .ok true
  | run :: rest =>
    if !reference.any (versionsEqual run) then .ok false
    else if !sameBuild run.runtimeBuild build then .ok false
    else if requiredAssertionUnavailableCount run > 0 then .ok false
    else
      match validateAssertionProvenance run with
      | .error error => .error error
      | .ok _ => validateGuardRuns reference build rest

/-- One round of the loop of `guardValidation`. -/
def validateGuardScenario (input : ComputerFlowComparisonInput)
    (baseline candidate : List ComputerFlowRunRecord) (scenarioId : ComputerFlowScenarioId) :
    Except String Bool :=
  let baselineRuns := runsOf scenarioId baseline
  let candidateRuns := runsOf scenarioId candidate
  if !hasExactRecordedRepetitions baselineRuns || !hasExactRecordedRepetitions candidateRuns then
    .ok false
  else
    match validateGuardRuns input.baselineRuns.head? input.baselineRuntimeBuild baselineRuns with
    | .error error => .error error
    | .ok false => .ok false
    | .ok true =>
      match validateGuardRuns input.candidateRuns.head? input.candidateRuntimeBuild
          candidateRuns with
      | .error error => .error error
      | .ok false => .ok false
      | .ok true =>
        .ok (decide ((scenarioResult scenarioId baselineRuns).gateStatus ≠ .incomplete) &&
          decide ((scenarioResult scenarioId candidateRuns).gateStatus ≠ .incomplete))

def validateGuardScenarios (input : ComputerFlowComparisonInput)
    (baseline candidate : List ComputerFlowRunRecord) :
    List ComputerFlowScenarioId → Except String Bool
  | [] => .ok true
  | scenarioId :: rest =>
    match validateGuardScenario input baseline candidate scenarioId with
    | .error error => .error error
    | .ok false => .ok false
    | .ok true => validateGuardScenarios input baseline candidate rest

def scenarioIds (runs : List ComputerFlowRunRecord) : List ComputerFlowScenarioId :=
  (COMPUTER_FLOW_SCENARIO_IDS.filter fun scenarioId =>
    runs.any (·.scenarioId = scenarioId)).mergeSort fun a b =>
      Text.sortsBefore a.text.toList b.text.toList

/-- `guardValidation`, of which only matters whether there is a result. -/
def guardValidation (input : ComputerFlowComparisonInput)
    (baseline candidate : List ComputerFlowRunRecord) : Except String Bool :=
  if baseline = [] || candidate = [] then .ok false
  else if (baseline ++ candidate).any fun run =>
      run.scenarioId = input.scenarioId || run.mode ≠ input.mode then .ok false
  else if scenarioIds baseline ≠ scenarioIds candidate then .ok false
  else validateGuardScenarios input baseline candidate (scenarioIds baseline)

/-- Whether the metrics that an objective needs are there on both sides. -/
def metricsAvailable (input : ComputerFlowComparisonInput)
    (selects : List (ComputerFlowRunRecord → ComputerFlowMetric)) : Bool :=
  selects.all fun select =>
    hasMetricSeries select input.baselineRuns && hasMetricSeries select input.candidateRuns

def unavailableReason (input : ComputerFlowComparisonInput)
    (selects : List (ComputerFlowRunRecord → ComputerFlowMetric)) :
    Option ComputerFlowComparisonIneligibleReason :=
  if metricsAvailable input selects then none else some metric_unavailable

/-- What the rule of a comparison asks for, once the runs of both sides fit. -/
def objectiveReason (input : ComputerFlowComparisonInput) :
    Except String (Option ComputerFlowComparisonIneligibleReason) :=
  match input.objective with
  | .flow_boundary | .flow_latency =>
    .ok (unavailableReason input
      [(·.metrics.modelRoundTripCount), (·.metrics.endToEndDurationMs)])
  | .runtime_latency selector => .ok (unavailableReason input [selectedRuntimeMetric selector])
  | .reliability_defect baseline candidate =>
    let machineClassId := (input.baselineRuns.head?.map (·.machineClassId)).getD ""
    if (baseline ++ candidate).any (·.machineClassId ≠ machineClassId) then
      .ok (some machine_class_mismatch)
    else
      (guardValidation input baseline candidate).map fun guard =>
        if guard then none else some regression_guard_incomplete

def ComputerFlowObjective.guardRuns : ComputerFlowObjective → List ComputerFlowRunRecord
  | reliability_defect baseline candidate => baseline ++ candidate
  | _ => []

/-- Why `compareComputerFlowRuns` finds a comparison ineligible, if it does. -/
def ineligibleReason (verify : ComputerFlowRunRecord → Bool)
    (deriveBuildId : ComputerFlowRuntimeBuild → String) (input : ComputerFlowComparisonInput) :
    Except String (Option ComputerFlowComparisonIneligibleReason) := do
  assertSigned verify (input.baselineRuns ++ input.candidateRuns ++ input.objective.guardRuns)
  match ← targetValidationReason deriveBuildId input with
  | some reason => .ok (some reason)
  | none => objectiveReason input

/-- The comparison goes on to a verdict. -/
def Eligible (verify : ComputerFlowRunRecord → Bool)
    (deriveBuildId : ComputerFlowRuntimeBuild → String) (input : ComputerFlowComparisonInput) :
    Prop :=
  ineligibleReason verify deriveBuildId input = .ok none

end Benchmark
