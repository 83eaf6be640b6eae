import SphereLab.Directory
import SphereLab.Failure

/-!
# Work in a directory

A computation that reads and changes a directory and may fail.  What it had written before it
failed stays: a failure ends the work, it does not undo it.
-/

namespace SphereLab

/-- A computation in a directory that may fail. -/
abbrev Filing (α : Type) := ExceptT Failure (StateM Directory) α

namespace Filing

/-- Look at the directory, without changing it. -/
def look {α : Type} (f : Directory → Except Failure α) : Filing α := fun d => (f d, d)

/-- Change the directory, or leave it alone and fail. -/
def change (f : Directory → Except Failure Directory) : Filing Unit := fun d =>
  match f d with
  | .ok changed => (.ok (), changed)
  | .error e => (.error e, d)

/-- Carry the work out in a directory. -/
def carryOut {α : Type} (work : Filing α) (d : Directory) : Except Failure α × Directory := work d

@[simp] theorem carryOut_look {α : Type} (f : Directory → Except Failure α) (d : Directory) :
    (look f).carryOut d = (f d, d) := rfl

/-- The failure to create a folder. -/
def uncreatable (path : String) (e : PathError) : Failure :=
  .output ("Failed to create '" ++ path ++ "': " ++ e.message)

/-- The failure to write a file. -/
def unwritable (path : String) (e : PathError) : Failure :=
  .output ("Failed to write '" ++ path ++ "': " ++ e.message)

/-- Create a folder, with those on the way. -/
def createFolder (path : String) : Filing Unit :=
  change fun d => (d.createFolders path).mapError (uncreatable path)

/-- The result that a computation needs to go on. -/
def need {α : Type} (result : Option α) : Filing α :=
  look fun _ => match result with
    | some a => .ok a
    | none => .error .broken

/-- Write a text to a file. -/
def write (path text : String) : Filing Unit :=
  change fun d => (d.writeText path text).mapError (unwritable path)

end Filing

end SphereLab
