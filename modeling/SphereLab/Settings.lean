import SphereLab.Decimal.Numeral
import SphereLab.Failure
import SphereLab.Text.Blank

/-!
# Settings

Settings come from variables by name.  A command line overrides them, and they override what
the library does by itself.  A variable whose value is blank counts as not set.
-/

namespace SphereLab

/-- What the variables say. -/
structure Settings where
  /-- The folder of the simulation programs. -/
  binFolder : Option String
  /-- The folder of outputs and figures. -/
  figsFolder : Option String
  /-- The folder of the output files of sweeps. -/
  dataFolder : Option String
  /-- The memory that a job asks for, in megabytes. -/
  memory : Nat
  deriving DecidableEq, Repr

namespace Settings

/-- The memory that a job asks for unless something else is said. -/
def standardMemory : Nat := 60

/-- The value of a variable without the blanks around it, unless nothing is left. -/
def valueOf (lookup : String → Option String) (name : String) : Option String :=
  match lookup name with
  | none => none
  | some raw =>
    let value := trimBlank raw.toList
    if value.isEmpty then none else some (String.ofList value)

/-- The failure of a memory request that is no natural number below `2 ^ 32`. -/
def badMemory (value : String) : Failure :=
  .input ("SMC_SRUN_MEM must be a whole number of MB, got '" ++ value ++ "'.")

/-- The memory request. -/
def memoryOf (lookup : String → Option String) : Except Failure Nat :=
  match valueOf lookup "SMC_SRUN_MEM" with
  | none => .ok standardMemory
  | some value =>
    match readNatural? (Nat.pow 2 32) value.toList with
    | some n => .ok n
    | none => .error (badMemory value)

/-- The settings that a lookup of variables gives. -/
def ofLookup (lookup : String → Option String) : Except Failure Settings :=
  match memoryOf lookup with
  | .error e => .error e
  | .ok memory =>
    .ok ⟨valueOf lookup "SMC_BIN_DIR", valueOf lookup "SMC_FIGS_DIR",
      valueOf lookup "SMC_DATA_DIR", memory⟩

end Settings

end SphereLab
