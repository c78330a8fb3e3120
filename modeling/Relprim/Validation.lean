import Relprim.Checks

/-!
validation.py. A result cannot be built unless it passes its own checks, so these
are fields of it. A validator is a callback of the user and may raise.
-/
namespace Relprim

structure ValidationResult where
  valid : Bool
  validatorName : String
  reason : Option String := none
  name_ok : isBlank validatorName = false := by decide
  invalid_reason : valid = false → ∃ r, reason = some r ∧ r ≠ "" := by simp
  valid_reason : valid = true → reason = none := by simp

/-- The value being validated: that of a primary attempt or of a fallback candidate. -/
inductive Occasion where
  | attempt (number : ℕ)
  | candidate (index : ℕ)
  deriving DecidableEq

abbrev Validator (V : Type) := Occasion → V → Except Exc ValidationResult

structure ValidationPolicy (V : Type) where
  validators : List (Validator V)
  validators_ok : validators ≠ []

namespace ValidationPolicy
variable {V : Type}

/-- The loop of `validate`; `result` is the latest result. -/
def validateAll (occasion : Occasion) (value : V) :
    List (Validator V) → Option ValidationResult → Except Exc ValidationResult
  | [], some result => .ok result
  | [], none => .error (runtimeError "ValidationPolicy has no validators.")
  | validator :: rest, _ => do
    let result ← validator occasion value
    if !result.valid then return result
    validateAll occasion value rest (some result)

def validate (p : ValidationPolicy V) (occasion : Occasion) (value : V) :
    Except Exc ValidationResult :=
  validateAll occasion value p.validators none

end ValidationPolicy

def validationError (result : ValidationResult) : Exc :=
  let name := result.validatorName
  let reason := match result.reason with
    | some r => if r = "" then "Validation failed." else r
    | none => "Validation failed."
  validationFailedError s!"Validation failed in '{name}': {reason}" name reason

end Relprim
