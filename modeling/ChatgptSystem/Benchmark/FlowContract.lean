import Mathlib.Data.Rat.Defs

/-!
# The records of the flow benchmark

The run records of `benchmarks/computer-use-flow-performance/contract.ts`, with what is evaluated of
them, and the rules for the assertions of each scenario (`scenarios.ts`).

* `ComputerFlowRunRecord` — a recorded run;
* `assertionRules`, `requiredAssertionsFor` — which assertions a scenario asks for, and who may
  make them.
-/

namespace Benchmark

/-! ## Names -/

inductive ComputerFlowScenarioId where
  | openFocusVerify
  | batchedMultiControlForm
  | scopedNestedScrolling
  | staleDynamicTargetRecovery
  | weakAxOcrVisualPoint
  | nativeMacosFixtureWorkflow
  deriving DecidableEq

namespace ComputerFlowScenarioId

def text : ComputerFlowScenarioId → String
  | openFocusVerify => "open-focus-verify"
  | batchedMultiControlForm => "batched-multi-control-form"
  | scopedNestedScrolling => "scoped-nested-scrolling"
  | staleDynamicTargetRecovery => "stale-dynamic-target-recovery"
  | weakAxOcrVisualPoint => "weak-ax-ocr-visual-point"
  | nativeMacosFixtureWorkflow => "native-macos-fixture-workflow"

end ComputerFlowScenarioId

open ComputerFlowScenarioId

def COMPUTER_FLOW_SCENARIO_IDS : List ComputerFlowScenarioId :=
  [openFocusVerify, batchedMultiControlForm, scopedNestedScrolling, staleDynamicTargetRecovery,
    weakAxOcrVisualPoint, nativeMacosFixtureWorkflow]

inductive ComputerFlowMode where
  | runtime
  | agent
  deriving DecidableEq

def ComputerFlowMode.text : ComputerFlowMode → String
  | runtime => "runtime"
  | agent => "agent"

inductive ComputerFlowOperation where
  | health
  | observe
  | screenshot
  | pointer_position
  | open_app
  | focus_app
  | move_mouse
  | click
  | double_click
  | drag
  | scroll
  | scroll_until_visible
  | type_text
  | press_key
  | release_inputs
  | wait
  | wait_for_frontmost
  | wait_for_text
  | wait_until_changed
  | run
  | run_js
  deriving DecidableEq

inductive ComputerFlowEventCategory where
  | workflow_start
  | tool_boundary
  | observation
  | screenshot
  | physical_action
  | verification
  | replan
  | takeover
  | workflow_end
  deriving DecidableEq

inductive ComputerFlowAssertionName where
  | completion_oracle
  | recovery_contract_satisfied
  | wrong_app_input_absent
  | post_takeover_input_absent
  | blind_point_repeat_absent
  | unchanged_scroll_repeat_absent
  | false_verified_absent
  | safety_boundary_violation_absent
  | browser_runtime_absent
  | chrome_process_preserved
  deriving DecidableEq

namespace ComputerFlowAssertionName

def text : ComputerFlowAssertionName → String
  | completion_oracle => "completion_oracle"
  | recovery_contract_satisfied => "recovery_contract_satisfied"
  | wrong_app_input_absent => "wrong_app_input_absent"
  | post_takeover_input_absent => "post_takeover_input_absent"
  | blind_point_repeat_absent => "blind_point_repeat_absent"
  | unchanged_scroll_repeat_absent => "unchanged_scroll_repeat_absent"
  | false_verified_absent => "false_verified_absent"
  | safety_boundary_violation_absent => "safety_boundary_violation_absent"
  | browser_runtime_absent => "browser_runtime_absent"
  | chrome_process_preserved => "chrome_process_preserved"

end ComputerFlowAssertionName

inductive ComputerFlowAssertionSource where
  | web_fixture_oracle
  | native_fixture_oracle
  | host_process_oracle
  | runtime_result
  | runtime_trace
  | trusted_mcp_trace
  deriving DecidableEq

inductive ComputerFlowRunDisposition where
  | eligible_completed
  | precondition_blocked
  | deployment_pending
  | invalid
  deriving DecidableEq

inductive ComputerFlowFailureCategory where
  | none
  | stale
  | focus
  | takeover
  | permission
  | precondition
  | timeout
  | unavailable
  | target_not_found
  | target_ambiguous
  | needs_replan
  | verification_failed
  | protocol_invalid
  | action_failed
  | output_limit
  | js_forbidden
  | collector_invalid
  deriving DecidableEq

inductive ComputerFlowUnavailableReason where
  | mode_not_authoritative
  | missing_turn_correlation
  | collector_source_missing
  | lossy_audit_source
  | precondition_blocked
  | deployment_pending
  deriving DecidableEq

inductive One where
  | one
  deriving DecidableEq

/-! ## Records -/

inductive ComputerFlowMetric where
  | available (value : ℚ)
  | unavailable (reason : ComputerFlowUnavailableReason)
  deriving DecidableEq

structure ComputerFlowRuntimeBuild where
  buildId : String
  gitCommit : String
  workingTreeDigest : String
  computerProtocolVersion : ℕ
  typeScriptArtifactSha256 : String
  nativeHelperExecutableSha256 : String
  deriving DecidableEq

structure ComputerFlowEvent where
  category : ComputerFlowEventCategory
  operation : Option ComputerFlowOperation
  durationMs : Option ℚ
  deriving DecidableEq

inductive ComputerFlowAssertion where
  /-- The status is `pass` or `fail`. -/
  | judged (assertion : ComputerFlowAssertionName) (pass : Bool)
      (source : ComputerFlowAssertionSource)
  | unavailable (assertion : ComputerFlowAssertionName)
  deriving DecidableEq

def ComputerFlowAssertion.name : ComputerFlowAssertion → ComputerFlowAssertionName
  | judged assertion _ _ => assertion
  | unavailable assertion => assertion

structure ComputerFlowMetrics where
  endToEndDurationMs : ComputerFlowMetric
  runtimeDurationMs : ComputerFlowMetric
  localActionProgramDurationMs : ComputerFlowMetric
  modelRoundTripCount : ComputerFlowMetric
  wrongAppInputCount : ComputerFlowMetric
  blindRepeatedPointCount : ComputerFlowMetric
  unchangedScrollRepeatCount : ComputerFlowMetric
  safetyBoundaryViolationCount : ComputerFlowMetric
  deriving DecidableEq

structure ComputerFlowRunRecord where
  schemaVersion : One
  metricRulesVersion : One
  scenarioVersion : One
  fixtureVersion : One
  scenarioId : ComputerFlowScenarioId
  mode : ComputerFlowMode
  repetition : ℕ
  runtimeBuild : ComputerFlowRuntimeBuild
  machineClassId : String
  disposition : ComputerFlowRunDisposition
  failureCategory : ComputerFlowFailureCategory
  events : List ComputerFlowEvent
  assertions : List ComputerFlowAssertion
  metrics : ComputerFlowMetrics
  deriving DecidableEq

/-! ## The rules of the scenarios -/

structure ComputerFlowAssertionRule where
  assertion : ComputerFlowAssertionName
  allowedSources : List ComputerFlowAssertionSource
  runtimeRequired : Bool
  agentRequired : Bool

open ComputerFlowAssertionName ComputerFlowAssertionSource

def rule (assertion : ComputerFlowAssertionName)
    (allowedSources : List ComputerFlowAssertionSource) : ComputerFlowAssertionRule :=
  { assertion := assertion, allowedSources := allowedSources, runtimeRequired := true
    agentRequired := true }

/-- The `assertionRules` of `COMPUTER_FLOW_SCENARIOS`. -/
def assertionRules : ComputerFlowScenarioId → List ComputerFlowAssertionRule
  | openFocusVerify =>
    [rule completion_oracle [web_fixture_oracle],
     rule wrong_app_input_absent [runtime_trace],
     rule browser_runtime_absent [runtime_trace, trusted_mcp_trace],
     rule chrome_process_preserved [host_process_oracle]]
  | batchedMultiControlForm =>
    [rule completion_oracle [web_fixture_oracle],
     rule wrong_app_input_absent [runtime_trace],
     rule false_verified_absent [runtime_result],
     rule safety_boundary_violation_absent [runtime_trace, trusted_mcp_trace],
     rule browser_runtime_absent [runtime_trace, trusted_mcp_trace]]
  | scopedNestedScrolling =>
    [rule completion_oracle [web_fixture_oracle],
     rule unchanged_scroll_repeat_absent [web_fixture_oracle, runtime_trace, trusted_mcp_trace],
     rule wrong_app_input_absent [runtime_trace],
     rule browser_runtime_absent [runtime_trace, trusted_mcp_trace]]
  | staleDynamicTargetRecovery =>
    [rule completion_oracle [web_fixture_oracle],
     rule recovery_contract_satisfied [runtime_trace, trusted_mcp_trace],
     rule wrong_app_input_absent [runtime_trace],
     rule false_verified_absent [runtime_result],
     rule safety_boundary_violation_absent [runtime_trace, trusted_mcp_trace],
     rule browser_runtime_absent [runtime_trace, trusted_mcp_trace]]
  | weakAxOcrVisualPoint =>
    [rule completion_oracle [web_fixture_oracle],
     rule recovery_contract_satisfied [runtime_trace, trusted_mcp_trace],
     rule blind_point_repeat_absent [web_fixture_oracle, runtime_trace],
     rule false_verified_absent [runtime_result],
     rule wrong_app_input_absent [runtime_trace],
     rule browser_runtime_absent [runtime_trace, trusted_mcp_trace]]
  | nativeMacosFixtureWorkflow =>
    [rule completion_oracle [native_fixture_oracle],
     rule wrong_app_input_absent [runtime_trace],
     rule post_takeover_input_absent [runtime_trace],
     rule false_verified_absent [runtime_result],
     rule safety_boundary_violation_absent [runtime_trace, trusted_mcp_trace],
     rule browser_runtime_absent [runtime_trace, trusted_mcp_trace]]

def requiredAssertionsFor (scenarioId : ComputerFlowScenarioId) (mode : ComputerFlowMode) :
    List ComputerFlowAssertionRule :=
  (assertionRules scenarioId).filter fun rule =>
    match mode with
    | .runtime => rule.runtimeRequired
    | .agent => rule.agentRequired

end Benchmark
