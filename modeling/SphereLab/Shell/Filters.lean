import SphereLab.Shell.LineExpression
import SphereLab.Shell.Tools

/-!
# Tools for texts

The system's programs that take texts, from files or from what is left to read, and print what
they make of them: lines chosen, ordered, cut, counted or changed.
-/

namespace SphereLab

namespace Shell

namespace Filters

/-! ## Texts and lines -/

/-- The lines of a text. -/
def linesOf (text : String) : List (List Char) :=
  let pieces := splitAt '\n' text.toList
  if pieces.getLast? == some [] then pieces.dropLast else pieces

/-- A text of lines. -/
def ofLines (lines : List (List Char)) : String :=
  String.ofList (lines.flatMap fun line => line ++ ['\n'])

/-- The texts of some files with their paths, or what is left to read; a file that cannot be
read is complained about. -/
def textsOf (name : String) (paths : List String) (s : State) : List (String × String) × State :=
  (if paths.isEmpty then ["-"] else paths).foldl (fun (texts, s) path =>
    match Tools.textOf path s with
    | .ok (text, s) => (texts ++ [(path, text)], s)
    | .error message => (texts, s.complain (name ++ ": " ++ message))) ([], s.succeed)

/-- A tool that prints what becomes of the text of some files. -/
def onText (name : String) (paths : List String) (f : String → String) (s : State) : State :=
  let (texts, s) := textsOf name paths s
  s.print .out (f (String.join (texts.map (·.2))))

/-- A tool that prints what becomes of the lines of some files. -/
def onLines (name : String) (paths : List String) (f : List (List Char) → List (List Char))
    (s : State) : State :=
  onText name paths (fun text => ofLines (f (linesOf text))) s

/-- The value of an option that is joined to its letter or stands behind it, and the other
arguments. -/
def takeOption (letter : Char) : List String → Option String × List String
  | [] => (none, [])
  | a :: rest =>
    if a == String.ofList ['-', letter] then (rest.head?, rest.tail)
    else if a.startsWith (String.ofList ['-', letter]) then
      (some (String.ofList (a.toList.drop 2)), rest)
    else
      let (value, others) := takeOption letter rest
      (value, a :: others)

/-! ## Choosing lines -/

/-- The number of lines or characters that a tool is asked for: characters or not, from that
place on or not, and the other arguments. -/
def countOption (arguments : List String) : Bool × Bool × Nat × List String :=
  let (characters, others) := takeOption 'c' arguments
  let (lines, others) := takeOption 'n' others
  let (short, others) : Option String × List String :=
    match others with
    | a :: rest =>
      if a.startsWith "-" && (a.toList.drop 1).all Char.isDigit && a.length > 1 then
        (some (String.ofList (a.toList.drop 1)), rest)
      else (none, others)
    | [] => (none, [])
  let count := (characters <|> lines <|> short).getD "10"
  (characters.isSome, count.startsWith "+", ((integer? count).getD 10).natAbs, others)

/-- Print the beginning of a text. -/
def head : Tool := fun arguments s =>
  let (characters, _, count, paths) := countOption arguments
  if characters then
    onText "head" paths (fun text => String.ofList (text.toList.take count)) s
  else onLines "head" paths (·.take count) s

/-- Print the end of a text. -/
def tail : Tool := fun arguments s =>
  let (characters, fromPlace, count, paths) := countOption arguments
  let last {α : Type} (xs : List α) : List α :=
    if fromPlace then xs.drop (count - 1) else xs.drop (xs.length - count)
  if characters then onText "tail" paths (fun text => String.ofList (last text.toList)) s
  else onLines "tail" paths last s

/-- Print the lines that an expression fits, or the others. -/
def grep : Tool := fun arguments s =>
  let (options, others) := Tools.splitOptions arguments
  let fold (line : List Char) : List Char :=
    if options.contains 'i' then line.map Char.toLower else line
  let expression :=
    let text := String.ofList (fold (others.headD "").toList)
    if options.contains 'F' then LineExpression.literal text
    else LineExpression.parse (options.contains 'E') text
  let (texts, s) := textsOf "grep" others.tail s
  let chosen := texts.flatMap fun (path, text) =>
    ((linesOf text).filter fun line =>
      expression.occursIn (fold line) != options.contains 'v').map fun line =>
        if texts.length > 1 then path.toList ++ ':' :: line else line
  let s :=
    if options.contains 'q' then s
    else if options.contains 'c' then s.print .out (naturalText chosen.length ++ "\n")
    else s.print .out (ofLines chosen)
  if s.status != 0 then s.withStatus 2 else s.withStatus (if chosen.isEmpty then 1 else 0)

/-! ## Ordering lines -/

/-- The number that a line begins with. -/
def leadingValue (line : List Char) : Float :=
  let cs := line.dropWhile Char.isWhitespace
  let (negative, digits) : Bool × List Char :=
    match cs with
    | '-' :: rest => (true, rest)
    | _ => (false, cs)
  let value := (readDouble? (digits.takeWhile fun c => c.isDigit || c == '.')).getD 0
  if negative then -value else value

/-- A list without the members that equal the one before, each with its number of
occurrences. -/
def runs (lines : List (List Char)) : List (Nat × List Char) :=
  lines.foldr (fun line more =>
    match more with
    | (n, next) :: rest => if next == line then (n + 1, next) :: rest else (1, line) :: more
    | [] => [(1, line)]) []

/-- Print lines in order. -/
def sort : Tool := fun arguments s =>
  let (options, paths) := Tools.splitOptions arguments
  let before (a b : List Char) : Bool :=
    if options.contains 'n' && leadingValue a != leadingValue b then
      leadingValue a < leadingValue b
    else decide (String.ofList a ≤ String.ofList b)
  onLines "sort" paths (fun lines =>
    let sorted := lines.mergeSort before
    let sorted := if options.contains 'u' then (runs sorted).map (·.2) else sorted
    if options.contains 'r' then sorted.reverse else sorted) s

/-- Print one of each run of equal lines. -/
def uniq : Tool := fun arguments s =>
  let (options, paths) := Tools.splitOptions arguments
  onLines "uniq" paths (fun lines => (runs lines).map fun (n, line) =>
    if options.contains 'c' then (alignRight 7 (naturalText n)).toList ++ ' ' :: line
    else line) s

/-! ## Counting -/

/-- Print how many lines, words and characters there are. -/
def wc : Tool := fun arguments s =>
  let (options, paths) := Tools.splitOptions arguments
  let wanted (c : Char) : Bool := options.isEmpty || options.contains c
  let counts (text : String) : List Nat :=
    (if wanted 'l' then [lineFeeds text.toList] else []) ++
      (if wanted 'w' then [(words text.toList).length] else []) ++
      (if wanted 'c' then [text.utf8ByteSize] else [])
  let (texts, s) := textsOf "wc" paths s
  s.print .out (String.join (texts.map fun (path, text) =>
    let numbers := (counts text).map naturalText
    let body :=
      match numbers with
      | [one] => one
      | several => " ".intercalate (several.map (alignRight (if paths.isEmpty then 7 else 1)))
    body ++ (if paths.isEmpty then "" else " " ++ path) ++ "\n"))

/-! ## Changing characters -/

/-- The characters of a set that ranges and classes describe. -/
def characterSet : Nat → List Char → List Char
  | 0, _ => []
  | _ + 1, [] => []
  | fuel + 1, '[' :: ':' :: rest =>
    let name := String.ofList (rest.takeWhile (· != ':'))
    let members :=
      match name with
      | "upper" => charactersFrom 'A' 'Z'
      | "lower" => charactersFrom 'a' 'z'
      | "digit" => charactersFrom '0' '9'
      | "alpha" => charactersFrom 'A' 'Z' ++ charactersFrom 'a' 'z'
      | "alnum" => charactersFrom '0' '9' ++ charactersFrom 'A' 'Z' ++ charactersFrom 'a' 'z'
      | _ => ['\t', '\n', '\x0b', '\x0c', '\r', ' ']
    members ++ characterSet fuel ((rest.dropWhile (· != ':')).drop 2)
  | fuel + 1, a :: '-' :: b :: rest => charactersFrom a b ++ characterSet fuel rest
  | fuel + 1, a :: rest => a :: characterSet fuel rest
where
  /-- The characters of a range. -/
  charactersFrom (a b : Char) : List Char :=
    (List.range (b.toNat + 1 - a.toNat)).map fun i => Char.ofNat (a.toNat + i)

/-- Replace characters by those in the same place of another set, delete them, or let one stand
for several in a row. -/
def tr : Tool := fun arguments s =>
  let (options, sets) := Tools.splitOptions arguments
  let set (i : Nat) : List Char :=
    let text := (Tools.unescaped ((sets[i]?).getD "")).1
    characterSet (text.length + 1) text.toList
  let old := set 0
  let new := set 1
  let other (c : Char) : Char := (new[(old.idxOf c)]?).getD (new.getLastD c)
  let isOld (c : Char) : Bool := old.contains c != options.contains 'c'
  let squeeze (cs : List Char) (squeezed : Char → Bool) : List Char :=
    cs.foldr (fun c more => if more.head? == some c && squeezed c then more else c :: more) []
  onText "tr" [] (fun text =>
    let cs := text.toList
    String.ofList
      (if options.contains 'd' then cs.filter fun c => !isOld c
      else if new.isEmpty then squeeze cs isOld
      else
        let changed := cs.map fun c => if isOld c then other c else c
        if options.contains 's' then squeeze changed new.contains else changed)) s

/-! ## Cutting lines -/

/-- Is a position, counted from one, in a list of positions and ranges? -/
def isListed (list : String) (position : Nat) : Bool :=
  (splitAt ',' list.toList).any fun item =>
    match splitFirst '-' item with
    | (one, none) => Numeral.ofDigits one == position
    | (first, some last) =>
      (first.isEmpty || Numeral.ofDigits first ≤ position) &&
        (last.isEmpty || position ≤ Numeral.ofDigits last)

/-- The members of a list at the positions that are listed. -/
def listed {α : Type} (list : String) (xs : List α) : List α :=
  (xs.mapIdx fun i x => (i, x)).filterMap fun (i, x) => if isListed list (i + 1) then some x else none

/-- Print parts of lines. -/
def cut : Tool := fun arguments s =>
  let (mark, others) := takeOption 'd' arguments
  let (characters, others) := takeOption 'c' others
  let (fields, paths) := takeOption 'f' others
  let sep := ((mark.getD "\t").toList.head?).getD '\t'
  onLines "cut" paths (fun lines => lines.map fun line =>
    match characters, fields with
    | some list, _ => listed list line
    | none, some list =>
      if line.contains sep then joinWith [sep] (listed list (splitAt sep line)) else line
    | none, none => line) s

/-! ## Editing lines -/

/-- Which lines an editing command is for. -/
inductive Address where
  | every
  | line (number : Nat)
  | last
  | fitting (e : LineExpression)

/-- What is done with a line. -/
inductive Edit where
  | print
  | delete
  | substitute (e : LineExpression) (replacement : List Char) (everywhere printed : Bool)

/-- The text up to a separator that no backslash protects, and what follows it. -/
def upTo (sep : Char) : List Char → List Char × List Char
  | [] => ([], [])
  | '\\' :: c :: rest =>
    let (inside, behind) := upTo sep rest
    (if c == sep then c :: inside else '\\' :: c :: inside, behind)
  | c :: rest =>
    if c == sep then ([], rest)
    else
      let (inside, behind) := upTo sep rest
      (c :: inside, behind)

/-- An editing command, and what follows it. -/
def editOf (extended : Bool) (cs : List Char) : Option ((Address × Edit) × List Char) :=
  let cs := cs.dropWhile fun c => c == ' ' || c == ';' || c == '\n'
  let (address, cs) : Address × List Char :=
    match cs with
    | '$' :: rest => (.last, rest)
    | '/' :: rest =>
      let (inside, behind) := upTo '/' rest
      (.fitting (.parse extended (String.ofList inside)), behind)
    | c :: _ =>
      if c.isDigit then
        (.line (Numeral.ofDigits (cs.takeWhile Char.isDigit)), cs.dropWhile Char.isDigit)
      else (.every, cs)
    | [] => (.every, [])
  match cs with
  | 'p' :: rest => some ((address, .print), rest)
  | 'd' :: rest => some ((address, .delete), rest)
  | 's' :: sep :: rest =>
    let (inside, rest) := upTo sep rest
    let (replacement, rest) := upTo sep rest
    let flags := rest.takeWhile Char.isAlphanum
    some ((address, .substitute (.parse extended (String.ofList inside)) replacement
      (flags.contains 'g') (flags.contains 'p')), rest.drop flags.length)
  | _ => none

/-- The editing commands of a script. -/
def editsOf (extended : Bool) : Nat → List Char → List (Address × Edit)
  | 0, _ => []
  | fuel + 1, cs =>
    match editOf extended cs with
    | some (edit, rest) => edit :: editsOf extended fuel rest
    | none => []

/-- Is an editing command for a line? -/
def Address.covers (a : Address) (number : Nat) (isLast : Bool) (line : List Char) : Bool :=
  match a with
  | .every => true
  | .line n => n == number
  | .last => isLast
  | .fitting e => e.occursIn line

/-- The lines that editing makes of a line; the flag says whether the line itself is printed. -/
def edited (number : Nat) (isLast quiet : Bool) :
    List (Address × Edit) → List Char → List (List Char)
  | [], line => if quiet then [] else [line]
  | (address, edit) :: rest, line =>
    if !address.covers number isLast line then edited number isLast quiet rest line
    else
      match edit with
      | .print => line :: edited number isLast quiet rest line
      | .delete => []
      | .substitute e replacement everywhere printed =>
        let changed := e.replace everywhere replacement (line.length + 2) line
        (if printed && e.occursIn line then [changed] else []) ++
          edited number isLast quiet rest changed

/-- The lines that a script makes of lines. -/
def editLines (quiet : Bool) (edits : List (Address × Edit)) (lines : List (List Char)) :
    List (List Char) :=
  (lines.mapIdx fun i line => edited (i + 1) (i + 1 == lines.length) quiet edits line).flatten

/-- The values of all options with a letter, and the other arguments. -/
def takeOptions (letter : Char) : Nat → List String → List String × List String
  | 0, arguments => ([], arguments)
  | fuel + 1, arguments =>
    match takeOption letter arguments with
    | (some value, others) =>
      let (values, others) := takeOptions letter fuel others
      (value :: values, others)
    | (none, others) => ([], others)

/-- Edit lines by a script; files are changed in place if that is asked for. -/
def sed : Tool := fun arguments s =>
  let (scripts, others) := takeOptions 'e' arguments.length arguments
  let (options, others) := Tools.splitOptions others
  let extended := options.contains 'E' || options.contains 'r'
  let text := if scripts.isEmpty then others.headD "" else "\n".intercalate scripts
  let paths := if scripts.isEmpty then others.tail else others
  let edits := editsOf extended (text.length + 1) text.toList
  let edit := editLines (options.contains 'n') edits
  if options.contains 'i' then
    s.forEach (fun path s =>
      match Tools.textOf path s with
      | .ok (text, s) =>
        s.tryChange ("sed: couldn't open file " ++ path)
          (s.directory.writeFrom s.folder path (.text (ofLines (edit (linesOf text)))))
      | .error message => (s.complain ("sed: can't read " ++ message)).withStatus 2) paths
  else onLines "sed" paths edit s

/-! ## Other tools -/

/-- Print what is left to read, and write it to files. -/
def tee : Tool := fun arguments s =>
  let (options, paths) := Tools.splitOptions arguments
  let text := s.input
  ({ s with input := "" }.print .out text).forEach (fun path s =>
    match options.contains 'a', s.placeOf path, s.entryOf path with
    | true, .ok place, .ok (.file _ _) => { s with directory := s.directory.appendAt place text }
    | _, _, _ =>
      s.tryChange ("tee: " ++ path) (s.directory.writeFrom s.folder path (.text text))) paths

/-- Print the value of an expression of one operator, and succeed unless it is zero or
nothing. -/
def expr : Tool := fun arguments s =>
  let number (a : String) : Int := (integer? a).getD 0
  let value : String :=
    match arguments with
    | ["length", a] => naturalText a.length
    | [a, ":", b] => naturalText (((LineExpression.parse false b).lengthAt a.toList).getD 0)
    | [a, "+", b] => integerText (number a + number b)
    | [a, "-", b] => integerText (number a - number b)
    | [a, "*", b] => integerText (number a * number b)
    | [a, "/", b] => integerText (Int.tdiv (number a) (number b))
    | [a, "%", b] => integerText (Int.tmod (number a) (number b))
    | [a, "=", b] => if a == b then "1" else "0"
    | [a, "!=", b] => if a == b then "0" else "1"
    | [a, "<", b] => if number a < number b then "1" else "0"
    | [a, ">", b] => if number a > number b then "1" else "0"
    | [a, "<=", b] => if number a ≤ number b then "1" else "0"
    | [a, ">=", b] => if number a ≥ number b then "1" else "0"
    | [a] => a
    | _ => ""
  (s.print .out (value ++ "\n")).withStatus (if value == "0" || value.isEmpty then 1 else 0)

/-- Compare two files, and say nothing. -/
def compareFiles : Tool := fun arguments s =>
  match (Tools.splitOptions arguments).2 with
  | [a, b] =>
    match s.entryOf a, s.entryOf b with
    | .ok (.file (.text x) _), .ok (.file (.text y) _) => s.withStatus (if x == y then 0 else 1)
    | _, _ => s.withStatus 2
  | _ => s.withStatus 2

/-- The tools by name. -/
def all : List (String × Tool) :=
  [("head", head), ("tail", tail), ("grep", grep), ("sort", sort), ("uniq", uniq), ("wc", wc),
   ("tr", tr), ("cut", cut), ("sed", sed), ("tee", tee), ("expr", expr), ("cmp", compareFiles)]

end Filters

end Shell

end SphereLab
