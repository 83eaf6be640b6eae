import SphereLab.Text.Blank

/-!
# Files of variables

A file can give values to variables, a line for each: a name, an equals sign, and a value.
Values may be quoted, weakly or strongly, and a value in quotes may go on over several lines.
A dollar sign outside strong quotes stands for the value of a variable: one from outside, or
one that the file has given before.

The first line that is not of this form ends the reading; what stands before it counts.
-/

namespace SphereLab

namespace Variables

/-! ## Lines -/

/-- Where reading is within a line. -/
inductive Place where
  | bare
  | blank
  | escape
  | weak
  | weakEscape
  | strong
  | strongEscape
  deriving DecidableEq, Repr

/-- Where reading is after one more character. -/
def Place.after (c : Char) : Place → Place
  | .escape => .bare
  | .weakEscape => .weak
  | .strongEscape => .strong
  | .weak => if c == '\\' then .weakEscape else if c == '"' then .bare else .weak
  | .strong => if c == '\\' then .strongEscape else if c == '\'' then .bare else .strong
  | .blank =>
    if c == '\\' then .escape else if c == '"' then .weak else if c == '\'' then .strong else .bare
  | .bare =>
    if c == '\\' then .escape else if c == '"' then .weak else if c == '\'' then .strong
    else if isBlank c && c != '\n' && c != '\r' then .blank else .bare

/-- The characters of a line up to a comment, and where reading is at its end; at a comment it
is nowhere. -/
def scanLine (place : Place) : List Char → List Char × Option Place
  | [] => ([], some place)
  | c :: rest =>
    if place == .blank && c == '#' then ([], none)
    else
      let (line, place) := scanLine (place.after c) rest
      (c :: line, place)

/-- A line without the characters that end it. -/
def withoutEnd (line : List Char) : List Char :=
  match line.reverse with
  | '\n' :: '\r' :: rest => rest.reverse
  | '\n' :: rest => rest.reverse
  | _ => line

/-- Lines joined where a quotation goes on, and whether the text ends within one; `before` is
what has been read of one. -/
def joinLines (before : List Char) (place : Place) :
    List (List Char) → List (List Char) × Bool
  | [] => ([], place != .bare)
  | line :: rest =>
    let all := before ++ line
    if (all.dropWhile isBlank).head? == some '#' then
      let (ls, broken) := joinLines [] .bare rest
      ([] :: ls, broken)
    else
      match scanLine place line with
      | (kept, none) =>
        let (ls, broken) := joinLines [] .bare rest
        ((before ++ kept) :: ls, broken)
      | (_, some .bare) =>
        let (ls, broken) := joinLines [] .bare rest
        (withoutEnd all :: ls, broken)
      | (_, some place) => joinLines all place rest

/-- The lines of a text, each with the line feed that ends it. -/
def rawLines (text : List Char) : List (List Char) :=
  let pieces := splitAt '\n' text
  pieces.dropLast.map (· ++ ['\n']) ++ (pieces.getLast?.filter fun l => !l.isEmpty).toList

/-! ## Values -/

/-- The name that a dollar sign has begun, and whether it stands in braces. -/
structure Pending where
  name : List Char
  braced : Bool

/-- How far a value has been read. -/
structure Reading where
  output : List Char
  strong : Bool
  weak : Bool
  escaped : Bool
  /-- The value has ended; only a comment may follow. -/
  ended : Bool
  pending : Option Pending

/-- One character of a value that begins, ends or continues it; an escaped character is
literal. -/
def Reading.plain (r : Reading) (c : Char) : Reading :=
  if c == '$' then { r with pending := some ⟨[], false⟩ }
  else if r.weak then
    if c == '"' then { r with weak := false }
    else if c == '\\' then { r with escaped := true }
    else { r with output := r.output ++ [c] }
  else if c == '\'' then { r with strong := true }
  else if c == '"' then { r with weak := true }
  else if c == '\\' then { r with escaped := true }
  else if c == ' ' || c == '\t' then { r with ended := true }
  else { r with output := r.output ++ [c] }

/-- Is a character a letter or a digit?  Beyond the Latin alphabet every letter-like character
counts. -/
def isWordChar (c : Char) : Bool := c.isAlphanum || (127 < c.toNat && !isBlank c)

/-- The value that has been read, at its end; there is none within quotes or braces. -/
def Reading.value? (lookup : List Char → List Char) (r : Reading) : Option (List Char) :=
  match r.pending with
  | some p =>
    if p.braced || r.strong || r.weak then none else some (r.output ++ lookup p.name)
  | none => if r.strong || r.weak then none else some r.output

/-- Read a value to its end. -/
def readValue (lookup : List Char → List Char) (r : Reading) : List Char → Option (List Char)
  | [] => r.value? lookup
  | c :: rest =>
    if r.ended then
      if c == ' ' || c == '\t' then readValue lookup r rest
      else if c == '#' then r.value? lookup
      else none
    else if r.escaped then
      let r := { r with escaped := false }
      if ['\\', '\'', '"', '$', ' '].contains c then
        readValue lookup { r with output := r.output ++ [c] } rest
      else if c == 'n' then readValue lookup { r with output := r.output ++ ['\n'] } rest
      else none
    else if r.strong then
      readValue lookup
        (if c == '\'' then { r with strong := false } else { r with output := r.output ++ [c] })
        rest
    else
      match r.pending with
      | none => readValue lookup (r.plain c) rest
      | some p =>
        let ended := { r with output := r.output ++ lookup p.name, pending := none }
        if isWordChar c then
          readValue lookup { r with pending := some { p with name := p.name ++ [c] } } rest
        else if p.braced then
          if c == '\x7d' then readValue lookup ended rest
          else readValue lookup { r with pending := some { p with name := p.name ++ [c] } } rest
        else if c == '\x7b' && p.name.isEmpty then
          readValue lookup { r with pending := some { p with braced := true } } rest
        else if c == '$' then readValue lookup { ended with pending := some ⟨[], false⟩ } rest
        else readValue lookup { ended with output := ended.output ++ [c] } rest

/-! ## Entries -/

/-- A name at the beginning of a text, and what follows it. -/
def name? (cs : List Char) : Option (List Char × List Char) :=
  match cs with
  | c :: _ =>
    if c.isAlpha || c == '_' then
      let isNameChar (c : Char) : Bool := c.isAlphanum || c == '_' || c == '.'
      some (cs.takeWhile isNameChar, cs.dropWhile isNameChar)
    else none
  | [] => none

/-- A text without the blanks that it begins with. -/
def skipBlanks (cs : List Char) : List Char := cs.dropWhile isBlank

/-- A name and what follows the equals sign behind it.  The word `export` may stand first. -/
def assignment? (cs : List Char) : Option (List Char × List Char) := do
  let (name, rest) ← name? cs
  match skipBlanks rest with
  | '=' :: rest => return (name, rest)
  | rest =>
    if name == ['e', 'x', 'p', 'o', 'r', 't'] then
      let (name, rest) ← name? rest
      match skipBlanks rest with
      | '=' :: rest => return (name, rest)
      | _ => none
    else none

/-- What a line says: nothing, or the value of a variable.  A line of no proper form has no
result. -/
def entry? (lookup : List Char → List Char) (line : List Char) :
    Option (Option (String × String)) :=
  let cs := skipBlanks (line.reverse.dropWhile isBlank).reverse
  if cs.isEmpty || cs.head? == some '#' then some none
  else do
    let (name, rest) ← assignment? cs
    let rest := skipBlanks rest
    if rest.isEmpty || rest.head? == some '#' then return some (String.ofList name, "")
    let value ← readValue lookup ⟨[], false, false, false, false, none⟩ rest
    return some (String.ofList name, String.ofList value)

/-- The variables that lines give, where `outside` are those from outside and `given` are those
that the lines before have given. -/
def ofLines (outside given : List (String × String)) :
    List (List Char) → List (String × String)
  | [] => given
  | line :: rest =>
    let lookup (name : List Char) : List Char :=
      (((outside.lookup (String.ofList name)) <|> (given.lookup (String.ofList name))).getD
        "").toList
    match entry? lookup line with
    | none => given
    | some none => ofLines outside given rest
    | some (some (name, value)) =>
      ofLines
        (if (outside.lookup name).isSome then outside else outside ++ [(name, value)])
        ((name, value) :: given.filter fun g => g.1 != name) rest

/-- The variables from outside, together with those that a text gives and that are not there
yet. -/
def extend (outside : List (String × String)) (text : String) : List (String × String) :=
  let lines := (joinLines [] .bare (rawLines text.toList)).1
  let given := ofLines outside [] lines
  outside ++ given.reverse.filter fun g => (outside.lookup g.1).isNone

end Variables

end SphereLab
