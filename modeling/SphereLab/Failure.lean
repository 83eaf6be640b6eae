import SphereLab.Decimal.Style
import SphereLab.Text.Quoted

/-!
# Failures

Whatever goes wrong in a run ends as a `Failure`: an exit code and a message.  Four codes
have a meaning of their own --- bad input, bad data, failed output, failed outside program
--- and every module that can fail says in an inductive type of causes what went wrong, and
turns a cause into a failure in one place.
-/

namespace SphereLab

/-- What ends a run: the exit code and the message for the user. -/
structure Failure where
  code : Nat
  message : String
  deriving DecidableEq, Repr

namespace Failure

/-- Invalid arguments, or files that are missing or cannot be read. -/
def input (message : String) : Failure := ⟨2, message⟩

/-- Malformed headers or tables, or tables that do not fit together. -/
def data (message : String) : Failure := ⟨3, message⟩

/-- A computation that failed, or a result that could not be written. -/
def output (message : String) : Failure := ⟨4, message⟩

/-- An outside program that could not be started or did not succeed. -/
def external (message : String) : Failure := ⟨5, message⟩

/-- A run that breaks off in the middle, for want of a result to go on with. -/
def broken : Failure := ⟨101, "there is no result to go on with"⟩

/-- The failure with its fields named, for diagnosis. -/
def describe (f : Failure) : String :=
  "AppError \x7b exit_code: " ++ naturalText f.code ++ ", message: " ++
    quoteMessage f.message ++ " \x7d"

end Failure

end SphereLab
