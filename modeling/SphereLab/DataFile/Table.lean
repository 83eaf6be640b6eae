import SphereLab.Decimal.Numeral
import SphereLab.Directory
import SphereLab.Failure

/-!
# Numeric tables

A table file has one row a line, with numerals between blanks.  What follows a `#` is a
comment, and lines without a numeral are skipped.  All rows have to be of one width.
-/

namespace SphereLab

/-- A table: the rows from top to bottom, all with `width` entries. -/
structure Table where
  width : Nat
  rows : List (List Float)

namespace Table

/-! ## Parsing -/

/-- What is wrong with the text of a table.  Lines are counted from one. -/
inductive Fault where
  | noRows
  | badToken (line : Nat) (token : String)
  | ragged (line expected found : Nat)
  deriving DecidableEq, Repr

/-- The failure that a fault of a file amounts to. -/
def Fault.failure (source : String) : Fault → Failure
  | .noRows => .data (source ++ ": no data rows")
  | .badToken line token =>
    .data (source ++ ":" ++ naturalText line ++ ": could not parse `" ++ token ++
      "` as a number")
  | .ragged line expected found =>
    .data (source ++ ":" ++ naturalText line ++ ": expected " ++ naturalText expected ++
      " columns, found " ++ naturalText found)

/-- The tokens of a line: its words before the first `#`. -/
def tokens (line : List Char) : List (List Char) := words (line.takeWhile (· != '#'))

/-- The values of a line's tokens; the first token that is no numeral is a fault. -/
def readTokens (line : Nat) : List (List Char) → Except Fault (List Float)
  | [] => .ok []
  | token :: rest =>
    match readDouble? token with
    | none => .error (.badToken line (String.ofList token))
    | some v => (readTokens line rest).map (v :: ·)

/-- The rows of numbered lines, where the rows before have the given width. -/
def readLines (width : Option Nat) : List (Nat × List Char) → Except Fault (List (List Float))
  | [] => .ok []
  | (line, text) :: rest =>
    match tokens text with
    | [] => readLines width rest
    | ts =>
      match readTokens line ts with
      | .error e => .error e
      | .ok row =>
        match width with
        | some w =>
          if row.length = w then (readLines width rest).map (row :: ·)
          else .error (.ragged line w row.length)
        | none => (readLines (some row.length) rest).map (row :: ·)

/-- The lines of a text, counted from one. -/
def numberedLines (text : String) : List (Nat × List Char) :=
  (lines text.toList).mapIdx fun i line => (i + 1, line)

/-- Parse a table. -/
def parse (text : String) : Except Fault Table :=
  match readLines none (numberedLines text) with
  | .error e => .error e
  | .ok [] => .error .noRows
  | .ok (row :: rows) => .ok ⟨row.length, row :: rows⟩

/-! ## Entries -/

/-- The number of rows. -/
def height (t : Table) : Nat := t.rows.length

/-- The entry in a row and a column. -/
def get? (t : Table) (row column : Nat) : Option Float :=
  t.rows[row]?.bind (·[column]?)

/-- A column was asked for that the table does not have. -/
structure NoColumn where
  column : Nat
  width : Nat

/-- The failure that a missing column amounts to. -/
def NoColumn.failure (e : NoColumn) : Failure :=
  .data ("Column " ++ naturalText e.column ++ " requested but the table has only " ++
    naturalText e.width ++ " columns")

/-- A column from top to bottom. -/
def column (t : Table) (c : Nat) : Except NoColumn (List Float) :=
  if c < t.width then .ok (t.rows.filterMap (·[c]?)) else .error ⟨c, t.width⟩

/-! ## Files -/

/-- The failure to read a file. -/
def unreadable (path : String) (e : PathError) : Failure :=
  .input ("Failed to read '" ++ path ++ "': " ++ e.message)

/-- The table in a file. -/
def load (d : Directory) (path : String) : Except Failure Table :=
  match d.readText path with
  | .error e => .error (unreadable path e)
  | .ok text => (parse text).mapError (Fault.failure path)

end Table

end SphereLab
