import Mathlib.Data.Nat.Notation

/-!
# Errors of the computer runtime

`computer/computer-errors.ts`: the error codes with their messages, and the details an error may
carry.
-/

namespace Computer

/-- The keys of `COMPUTER_ERROR_MESSAGES`. -/
inductive ComputerErrorCode where
  | COMPUTER_DISABLED
  | COMPUTER_UNAVAILABLE
  | COMPUTER_PERMISSION_REQUIRED
  | COMPUTER_PROTOCOL_INVALID
  | COMPUTER_TIMEOUT
  | COMPUTER_TARGET_NOT_FOUND
  | COMPUTER_TARGET_AMBIGUOUS
  | COMPUTER_STALE_SNAPSHOT
  | COMPUTER_FOCUS_FAILED
  | COMPUTER_ACTION_FAILED
  | COMPUTER_USER_TAKEOVER
  | COMPUTER_NEEDS_REPLAN
  | COMPUTER_OUTPUT_LIMIT
  | COMPUTER_JS_DISABLED
  | COMPUTER_JS_FAILED
  | COMPUTER_JS_TIMEOUT
  | JEV_TARGETING_UNAVAILABLE
  | JEV_TARGETING_FAILED
  deriving DecidableEq, Repr

open ComputerErrorCode

namespace ComputerErrorCode

def all : List (String × ComputerErrorCode) :=
  [("COMPUTER_DISABLED", COMPUTER_DISABLED),
   ("COMPUTER_UNAVAILABLE", COMPUTER_UNAVAILABLE),
   ("COMPUTER_PERMISSION_REQUIRED", COMPUTER_PERMISSION_REQUIRED),
   ("COMPUTER_PROTOCOL_INVALID", COMPUTER_PROTOCOL_INVALID),
   ("COMPUTER_TIMEOUT", COMPUTER_TIMEOUT),
   ("COMPUTER_TARGET_NOT_FOUND", COMPUTER_TARGET_NOT_FOUND),
   ("COMPUTER_TARGET_AMBIGUOUS", COMPUTER_TARGET_AMBIGUOUS),
   ("COMPUTER_STALE_SNAPSHOT", COMPUTER_STALE_SNAPSHOT),
   ("COMPUTER_FOCUS_FAILED", COMPUTER_FOCUS_FAILED),
   ("COMPUTER_ACTION_FAILED", COMPUTER_ACTION_FAILED),
   ("COMPUTER_USER_TAKEOVER", COMPUTER_USER_TAKEOVER),
   ("COMPUTER_NEEDS_REPLAN", COMPUTER_NEEDS_REPLAN),
   ("COMPUTER_OUTPUT_LIMIT", COMPUTER_OUTPUT_LIMIT),
   ("COMPUTER_JS_DISABLED", COMPUTER_JS_DISABLED),
   ("COMPUTER_JS_FAILED", COMPUTER_JS_FAILED),
   ("COMPUTER_JS_TIMEOUT", COMPUTER_JS_TIMEOUT),
   ("JEV_TARGETING_UNAVAILABLE", JEV_TARGETING_UNAVAILABLE),
   ("JEV_TARGETING_FAILED", JEV_TARGETING_FAILED)]

/-- `isComputerErrorCode`, with the code that the string is. -/
def ofText? (value : String) : Option ComputerErrorCode :=
  (all.find? fun entry => entry.1 = value).map (·.2)

def message : ComputerErrorCode → String
  | COMPUTER_DISABLED => "Computer Runtime is disabled."
  | COMPUTER_UNAVAILABLE => "Computer Runtime is unavailable."
  | COMPUTER_PERMISSION_REQUIRED => "Computer Runtime permission is required."
  | COMPUTER_PROTOCOL_INVALID => "Computer Runtime protocol is invalid."
  | COMPUTER_TIMEOUT => "Computer operation timed out."
  | COMPUTER_TARGET_NOT_FOUND => "Computer target was not found."
  | COMPUTER_TARGET_AMBIGUOUS => "Computer target is ambiguous."
  | COMPUTER_STALE_SNAPSHOT => "Computer snapshot is stale."
  | COMPUTER_FOCUS_FAILED => "Computer focus verification failed."
  | COMPUTER_ACTION_FAILED => "Computer action failed."
  | COMPUTER_USER_TAKEOVER => "User took over computer input."
  | COMPUTER_NEEDS_REPLAN => "Computer operation needs replanning."
  | COMPUTER_OUTPUT_LIMIT => "Computer Runtime output exceeded the limit."
  | COMPUTER_JS_DISABLED => "Full-host computer JavaScript is disabled."
  | COMPUTER_JS_FAILED => "Full-host computer JavaScript failed."
  | COMPUTER_JS_TIMEOUT => "Full-host computer JavaScript timed out."
  | JEV_TARGETING_UNAVAILABLE => "Jev semantic targeting is disabled or not configured."
  | JEV_TARGETING_FAILED => "Jev semantic targeting request failed."

end ComputerErrorCode

inductive RecommendedRecovery where
  | observe
  | scopeTarget
  | scroll
  | screenshot
  | none
  deriving DecidableEq, Repr

structure NativeRecoveryDetails where
  candidateCount : ℕ
  scopeResolved : Bool
  activeScrollContainerCount : ℕ
  recommendedRecovery : RecommendedRecovery
  deriving DecidableEq, Repr

structure RunFailureDetails where
  failedStepIndex : ℕ
  failedActionType : String
  completedCount : ℕ
  actionCount : ℕ
  deriving DecidableEq, Repr

inductive ComputerErrorDetails where
  | native (details : NativeRecoveryDetails)
  | run (details : RunFailureDetails)
  deriving DecidableEq, Repr

structure ComputerError where
  code : ComputerErrorCode
  details : Option ComputerErrorDetails := none
  deriving DecidableEq, Repr

def ComputerError.message (error : ComputerError) : String := error.code.message

end Computer
