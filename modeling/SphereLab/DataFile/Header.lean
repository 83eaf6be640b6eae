import SphereLab.DataFile.Table

/-!
# Headers of data files

A line that starts with `#` and has a colon is an entry of the header: a key before the first
colon, a value behind it, both without the blanks, tabs and marks around them.  Any other line
says nothing.  Of two entries with one key the later counts: a simulation that goes on writes
its totals again.
-/

namespace SphereLab

/-- The value of a header entry. -/
inductive HeaderValue where
  | number (value : Float)
  | tuple (values : List Float)
  | text (value : String)

/-- A header: its entries by key, each key once. -/
structure Header where
  entries : List (String × HeaderValue)

/-! ## Values -/

namespace HeaderValue

/-- The inside of a text in parentheses. -/
def inside? (cs : List Char) : Option (List Char) :=
  match cs with
  | '(' :: rest => if rest.getLast? = some ')' then some rest.dropLast else none
  | _ => none

/-- The members of a list with commas, where empty ones do not count. -/
def members (cs : List Char) : List (List Char) :=
  ((splitAt ',' cs).map trimBlank).filter (!·.isEmpty)

/-- Read a value: a numeral, a list of numerals in parentheses, or else a text. -/
def parse (cs : List Char) : HeaderValue :=
  match readDouble? cs with
  | some v => .number v
  | none =>
    match (inside? cs).bind fun inner => (members inner).mapM readDouble? with
    | some vs => .tuple vs
    | none => .text (String.ofList cs)

/-- The number that a value is. -/
def number? : HeaderValue → Option Float
  | .number v => some v
  | _ => none

/-- A value as a message shows it. -/
def describe : HeaderValue → String
  | .number v => "Number(" ++ Style.exact.text v ++ ")"
  | .tuple vs => "Tuple([" ++ ", ".intercalate (vs.map Style.exact.text) ++ "])"
  | .text s => "Text(" ++ quoteMessage s ++ ")"

end HeaderValue

/-! ## Lines -/

namespace Header

/-- The characters around keys and values that do not belong to them. -/
def isMark (c : Char) : Bool := c == ' ' || c == '#' || c == '\t'

/-- The entry on a line. -/
def entryOnLine (line : List Char) : Option (String × HeaderValue) :=
  match line with
  | '#' :: _ =>
    match splitFirst ':' line with
    | (before, some behind) =>
      let key := trimWhere isMark before
      if key.isEmpty then none
      else some (String.ofList key, HeaderValue.parse (trimWhere isMark behind))
    | (_, none) => none
  | _ => none

/-- The header with an entry put in, in place of an earlier one with its key. -/
def put (h : Header) (entry : String × HeaderValue) : Header :=
  ⟨entry :: h.entries.filter fun kept => kept.1 != entry.1⟩

/-- The header that lines make up. -/
def ofLines (ls : List (List Char)) : Header :=
  (ls.filterMap entryOnLine).foldl put ⟨[]⟩

/-- Parse the header of a text. -/
def parse (text : String) : Header := ofLines (lines text.toList)

/-- The value of a key. -/
def get? (h : Header) (key : String) : Option HeaderValue := h.entries.lookup key

/-- The number of keys. -/
def size (h : Header) : Nat := h.entries.length

/-! ## Numbers -/

/-- Why a header has no number for a key. -/
inductive Fault where
  | missing (key : String)
  | notNumber (key : String) (value : HeaderValue)

/-- The failure that a fault in a file amounts to. -/
def Fault.failure (source : String) : Fault → Failure
  | .missing key => .data ("Missing header entry `" ++ key ++ "` in '" ++ source ++ "'")
  | .notNumber key value =>
    .data ("Header entry `" ++ key ++ "` in '" ++ source ++ "' is not a number: " ++
      value.describe)

/-- The number of a key. -/
def number (h : Header) (key : String) : Except Fault Float :=
  match h.get? key with
  | none => .error (.missing key)
  | some (.number v) => .ok v
  | some value => .error (.notNumber key value)

/-- The header of a file. -/
def load (d : Directory) (path : String) : Except Failure Header :=
  match d.readText path with
  | .error e => .error (Table.unreadable path e)
  | .ok text => .ok (parse text)

end Header

end SphereLab
