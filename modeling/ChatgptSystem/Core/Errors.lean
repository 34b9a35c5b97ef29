/-!
# Errors

The application errors of `core/errors.ts` that the modelled services throw, each with the
message it is built from, and the file-system error codes of Node.js that pass through them.
-/

inductive Errno where
  | ENOENT
  | EEXIST
  | ENOTDIR
  | EISDIR
  | ENOTEMPTY
  | ELOOP
  | EINVAL
  | EBUSY
  | EBADF
  /-- A path with a NUL character. -/
  | ERR_INVALID_ARG_VALUE
  deriving DecidableEq, Repr

/-- What an `await` may throw: an application error or a file-system error. -/
inductive AppError where
  | policy (message : String)
  | notFound (message : String)
  | conflict (message : String)
  | limit (message : String)
  | recoveryRequired (message : String)
  | authorityDenied (message : String)
  | projectResumeRequired (message : String)
  | localVerificationRequired (message : String)
  | localVerificationStale (message : String)
  | worktreeNotClean (message : String)
  | mainPushDenied (message : String)
  /-- An application error of another code. -/
  | other (code message : String)
  | errno (code : Errno)
  deriving DecidableEq, Repr

namespace AppError

/-- The `code` property the error is reported with. -/
def code : AppError → String
  | .policy _ => "POLICY_DENIED"
  | .notFound _ => "NOT_FOUND"
  | .conflict _ => "CONFLICT"
  | .limit _ => "LIMIT_EXCEEDED"
  | .recoveryRequired _ => "RECOVERY_REQUIRED"
  | .authorityDenied _ => "AUTHORITY_DENIED"
  | .projectResumeRequired _ => "PROJECT_RESUME_REQUIRED"
  | .localVerificationRequired _ => "LOCAL_VERIFICATION_REQUIRED"
  | .localVerificationStale _ => "LOCAL_VERIFICATION_STALE"
  | .worktreeNotClean _ => "WORKTREE_NOT_CLEAN"
  | .mainPushDenied _ => "MAIN_PUSH_DENIED"
  | .other code _ => code
  | .errno _ => "INTERNAL_ERROR"

end AppError

theorem Except.bind_eq_ok {ε α β : Type} {x : Except ε α} {f : α → Except ε β} {b : β}
    (h : (x >>= f) = .ok b) : ∃ a, x = .ok a ∧ f a = .ok b := by
  cases x with
  | error e => cases h
  | ok a => exact ⟨a, rfl, h⟩
