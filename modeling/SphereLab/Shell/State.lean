import SphereLab.Decimal.Numeral
import SphereLab.Decimal.Style
import SphereLab.Outside
import SphereLab.Shell.Command

/-!
# The state of a shell

What a shell knows while it carries out a text: the directory and the folder it is in, its
parameters and functions, the status of the last command, what is left to read, and what has
been printed.

A shell hands to the programs that it starts only those variables that it got itself or that
it exports; the others are hidden from them.
-/

namespace SphereLab

namespace Shell

/-- How a shell deals with what may be a mistake. -/
structure Options where
  /-- Does it end at the first command that fails? -/
  strict : Bool
  /-- Does it end at a parameter that is not set? -/
  allSet : Bool
  deriving DecidableEq, Repr

/-- A variable as it was: its value, if it had one, and whether it was hidden. -/
structure Kept where
  name : String
  value : Option String
  isHidden : Bool
  deriving DecidableEq, Repr

/-- The state of a shell. -/
structure State where
  directory : Directory
  /-- The folder that paths are seen from. -/
  folder : Place
  /-- The name that the shell was called by. -/
  name : String
  arguments : List String
  /-- Names and their values. -/
  bindings : List (String × String)
  /-- The variables that programs do not get. -/
  hidden : List String
  functions : List (String × Command)
  /-- The variables that a function has to put back. -/
  kept : List Kept
  /-- The script that is carried out when the shell ends. -/
  farewell : String
  options : Options
  /-- The line of the command that is being carried out. -/
  line : Nat
  /-- Why the shell has to end, if a word could not be expanded. -/
  fault : Option String
  /-- The status of the last command; zero is success. -/
  status : Nat
  /-- What is left to read. -/
  input : String
  /-- What was printed, in order. -/
  printed : List (Stream × String)

namespace State

/-- What a shell prints for its own number. -/
def ownNumber : String := "4242"

/-- A shell in the working folder of a directory, with variables. -/
def start (d : Directory) (bindings : List (String × String)) : State :=
  { directory := d
    folder := d.home
    name := "sh"
    arguments := []
    bindings := bindings
    hidden := []
    functions := []
    kept := []
    farewell := ""
    options := ⟨false, false⟩
    line := 1
    fault := none
    status := 0
    input := ""
    printed := [] }

/-! ## Prints and statuses -/

/-- The text printed to a stream. -/
def textOn (s : State) (stream : Stream) : String :=
  String.join ((s.printed.filter fun p => p.1 == stream).map (·.2))

/-- The state after a text has been printed. -/
def print (s : State) (stream : Stream) (text : String) : State :=
  { s with printed := s.printed ++ [(stream, text)] }

/-- The state with a status. -/
def withStatus (s : State) (status : Nat) : State := { s with status := status }

/-! ## Variables -/

/-- The state after a variable has been set; a new one is hidden. -/
def setVariable (s : State) (name value : String) : State :=
  { s with
    bindings := (name, value) :: s.bindings.filter fun v => v.1 != name
    hidden := if (s.bindings.lookup name).isSome then s.hidden else name :: s.hidden }

/-- The state after a variable has been handed to programs. -/
def exportVariable (s : State) (name : String) : State :=
  { s with hidden := s.hidden.filter (· != name) }

/-- The state without a variable. -/
def unsetVariable (s : State) (name : String) : State :=
  { s with bindings := s.bindings.filter fun v => v.1 != name }

/-- A variable as it is. -/
def keep (s : State) (name : String) : Kept :=
  ⟨name, s.bindings.lookup name, s.hidden.contains name⟩

/-- The state with a variable as it was. -/
def putBack (s : State) (k : Kept) : State :=
  let s := match k.value with
    | some value => s.setVariable k.name value
    | none => s.unsetVariable k.name
  let s := s.exportVariable k.name
  if k.isHidden then { s with hidden := k.name :: s.hidden } else s

/-! ## Parameters -/

/-- What stands between the arguments when they are put together. -/
def joint (s : State) : String :=
  String.ofList (((s.bindings.lookup "IFS").getD " ").toList.take 1)

/-- The value of a parameter. -/
def valueOf (s : State) (name : String) : Option String :=
  match name with
  | "#" => some (naturalText s.arguments.length)
  | "?" => some (naturalText s.status)
  | "$" => some ownNumber
  | "@" => some (" ".intercalate s.arguments)
  | "*" => some (s.joint.intercalate s.arguments)
  | "!" | "-" => some ""
  | "0" => some s.name
  | _ =>
    if !name.isEmpty && name.all Char.isDigit then s.arguments[Numeral.ofDigits name.toList - 1]?
    else s.bindings.lookup name

/-! ## Other shells -/

/-- What a shell that is started from this one begins with. -/
def forChild (s : State) (name : String) (arguments : List String) : State :=
  { s with
    name := name
    arguments := arguments
    bindings := s.bindings.filter fun v => !s.hidden.contains v.1
    hidden := []
    functions := []
    kept := []
    farewell := ""
    options := ⟨false, false⟩
    line := 1
    fault := none
    status := 0 }

/-- The state after what another shell, started from this one, has done. -/
def afterChild (s child : State) : State :=
  { s with directory := child.directory, input := child.input, printed := child.printed }

end State

end Shell

end SphereLab
