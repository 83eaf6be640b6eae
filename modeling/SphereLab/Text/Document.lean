import SphereLab.Decimal.Style
import SphereLab.Text.Quoted

/-!
# Exported documents

A document is a tree of named values, written with two spaces for each level and one member
on a line.  Numbers are written with their shortest digits; a number that is not finite is
written as `null`.
-/

namespace SphereLab

/-- A value in a document. -/
inductive Document where
  | text (value : String)
  | number (value : Float)
  | natural (value : Nat)
  | flag (value : Bool)
  | list (members : List Document)
  | record (fields : List (String × Document))

namespace Document

/-- The blanks in front of a line at a depth. -/
def indent (depth : Nat) : String := String.ofList (List.replicate (2 * depth) ' ')

/-- Members between brackets, one on a line; no members at all stay on the line. -/
def enclose (left right : String) (depth : Nat) (members : List String) : String :=
  if members.isEmpty then left ++ right
  else
    left ++ "\n" ++ ",\n".intercalate (members.map (indent (depth + 1) ++ ·)) ++ "\n" ++
      indent depth ++ right

mutual

/-- The text of a value at a depth. -/
def render (depth : Nat) : Document → String
  | .text s => quoteDocument s
  | .number v => Style.document.text v
  | .natural n => naturalText n
  | .flag b => if b then "true" else "false"
  | .list ms => enclose "[" "]" depth (renderMembers (depth + 1) ms)
  | .record fs => enclose "\x7b" "\x7d" depth (renderFields (depth + 1) fs)

/-- The texts of the members of a list. -/
def renderMembers (depth : Nat) : List Document → List String
  | [] => []
  | m :: ms => render depth m :: renderMembers depth ms

/-- The texts of the fields of a record. -/
def renderFields (depth : Nat) : List (String × Document) → List String
  | [] => []
  | (name, m) :: fs =>
    (quoteDocument name ++ ": " ++ render depth m) :: renderFields depth fs

end

end Document

end SphereLab
