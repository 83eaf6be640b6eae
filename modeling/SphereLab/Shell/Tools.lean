import SphereLab.Decimal.General
import SphereLab.PathText
import SphereLab.Shell.Expansion

/-!
# Tools of the shell

The programs that every shell text can count on: those that the shell carries out itself, and
the system's programs for files and texts.  A tool takes its arguments and a state to the state
afterwards, with its status.
-/

namespace SphereLab

namespace Shell

/-- A tool: what its arguments do to a state. -/
abbrev Tool := List String → State → State

namespace State

/-- The state after a message and a failure. -/
def complain (s : State) (message : String) : State :=
  (s.print .err (message ++ "\n")).withStatus 1

/-- The state after a message of the shell about the line that it is on. -/
def report (s : State) (message : String) : State :=
  s.print .err (s.name ++ ": " ++ naturalText s.line ++ ": " ++ message ++ "\n")

/-- The state after a success. -/
def succeed (s : State) : State := s.withStatus 0

/-- The state after a change of the directory, or after a message about why there is none. -/
def tryChange (s : State) (message : String) (d : Except PathError Directory) : State :=
  match d with
  | .ok d => { s with directory := d }
  | .error e =>
    s.complain (message ++ ": " ++ String.ofList (e.message.toList.takeWhile (· != '(')).dropLast)

/-- The place of a path in the folder of the shell. -/
def placeOf (s : State) (path : String) : Except PathError Place :=
  s.directory.placeFrom s.folder path

/-- The entry of a path in the folder of the shell. -/
def entryOf (s : State) (path : String) : Except PathError Entry :=
  s.directory.entryFrom s.folder path

/-- Use a tool on each of some arguments; the status is that of a failure, if there is one. -/
def forEach (s : State) (f : String → State → State) (arguments : List String) : State :=
  arguments.foldl (fun s a => f a s) s.succeed

end State

namespace Tools

/-! ## Printing -/

/-- The value of up to some octal digits, and what follows them. -/
def octal (count : Nat) (cs : List Char) : Nat × List Char :=
  let digits := (cs.takeWhile fun c => '0' ≤ c && c ≤ '7').take count
  (digits.foldl (fun n c => 8 * n + (c.toNat - 48)) 0, cs.drop digits.length)

/-- A text with what its backslashes stand for; the flag says whether it goes on to its end. -/
def unescape : Nat → List Char → List Char × Bool
  | 0, cs => (cs, true)
  | _ + 1, [] => ([], true)
  | fuel + 1, '\\' :: c :: rest =>
    let simple := [('n', '\n'), ('t', '\t'), ('r', '\r'), ('\\', '\\'), ('a', '\x07'),
      ('b', '\x08'), ('f', '\x0c'), ('v', '\x0b')].lookup c
    match simple with
    | some d =>
      let (more, whole) := unescape fuel rest
      (d :: more, whole)
    | none =>
      if c == 'c' then ([], false)
      else if '0' ≤ c && c ≤ '7' then
        let (n, behind) := octal 3 (if c == '0' then rest else c :: rest)
        let (more, whole) := unescape fuel behind
        (Char.ofNat n :: more, whole)
      else
        let (more, whole) := unescape fuel rest
        ('\\' :: c :: more, whole)
  | fuel + 1, c :: rest =>
    let (more, whole) := unescape fuel rest
    (c :: more, whole)

/-- A text with what its backslashes stand for. -/
def unescaped (text : String) : String × Bool :=
  let (cs, whole) := unescape (text.length + 1) text.toList
  (String.ofList cs, whole)

/-- Print the arguments with blanks between. -/
def echo : Tool := fun arguments s =>
  let bare := arguments.head? == some "-n"
  let (text, whole) := unescaped (" ".intercalate (if bare then arguments.tail else arguments))
  (s.print .out (text ++ if bare || !whole then "" else "\n")).succeed

/-- A text in a field of a width, on the left if it says so. -/
def inField (left zeros : Bool) (width : Nat) (text : String) : String :=
  if left then text ++ String.ofList (List.replicate (width - text.length) ' ')
  else if zeros then fillZeros width text
  else alignRight width text

/-- The digits of a number to a base. -/
def digitsText (base : Nat) (n : Int) : String :=
  String.ofList (Nat.toDigits base (n % (Nat.pow 2 64 : Nat)).toNat)

/-- A double in scientific notation whose exponent has a sign and two digits at least. -/
def exponentText (places : Nat) (x : Float) : String :=
  match splitFirst 'e' (scientificText places x).toList with
  | (significand, some ('-' :: digits)) =>
    String.ofList (significand ++ ['e', '-'] ++ List.replicate (2 - digits.length) '0' ++ digits)
  | (significand, some digits) =>
    String.ofList (significand ++ ['e', '+'] ++ List.replicate (2 - digits.length) '0' ++ digits)
  | (text, none) => String.ofList text

/-- The text of an argument under a directive. -/
def directiveText (kind : Char) (places : Option Nat) (argument : String) : String :=
  let number := (readDouble? argument.toList).getD 0
  let whole := (parameterNumber? argument).getD 0
  match kind with
  | 'd' | 'i' => integerText whole
  | 'u' => digitsText 10 whole
  | 'x' => digitsText 16 whole
  | 'X' => (digitsText 16 whole).toUpper
  | 'o' => digitsText 8 whole
  | 'e' => exponentText (places.getD 6) number
  | 'f' => fixedText (places.getD 6) number
  | 'g' => generalText (places.getD 6) number
  | 'c' => argument.take 1 |>.toString
  | 'b' => (unescaped argument).1
  | _ => match places with
    | some n => argument.take n |>.toString
    | none => argument

/-- A format with arguments put in, and the arguments that are left. -/
def format : Nat → List Char → List String → List Char × List String
  | 0, _, arguments => ([], arguments)
  | _ + 1, [], arguments => ([], arguments)
  | fuel + 1, '%' :: '%' :: rest, arguments =>
    let (more, left) := format fuel rest arguments
    ('%' :: more, left)
  | fuel + 1, '%' :: rest, arguments =>
    let flags := rest.takeWhile fun c => ['-', '0', '+', ' ', '#'].contains c
    let rest := rest.drop flags.length
    let width := rest.takeWhile Char.isDigit
    let rest := rest.drop width.length
    let (places, rest) :=
      match rest with
      | '.' :: behind =>
        (some (Numeral.ofDigits (behind.takeWhile Char.isDigit)), behind.dropWhile Char.isDigit)
      | _ => (none, rest)
    match rest with
    | [] => ([], arguments)
    | kind :: rest =>
      let text := inField (flags.contains '-') (flags.contains '0') (Numeral.ofDigits width)
        (directiveText kind places (arguments.headD ""))
      let (more, left) := format fuel rest arguments.tail
      (text.toList ++ more, left)
  | fuel + 1, c :: rest, arguments =>
    let (more, left) := format fuel rest arguments
    (c :: more, left)

/-- A format used again and again until no arguments are left. -/
def formatAll (cs : List Char) : Nat → List String → List Char
  | 0, _ => []
  | fuel + 1, arguments =>
    let (text, left) := format (cs.length + 1) cs arguments
    if left.isEmpty || left.length == arguments.length then text
    else text ++ formatAll cs fuel left

/-- Print arguments by a format. -/
def printf : Tool := fun arguments s =>
  match arguments with
  | [] => s.withStatus 2
  | first :: rest =>
    let cs := (unescaped first).1.toList
    (s.print .out (String.ofList (formatAll cs (rest.length + 1) rest))).succeed

/-! ## Tests -/

/-- Does a test of one argument hold? -/
def holdsOne (s : State) (operator argument : String) : Bool :=
  match operator, s.entryOf argument with
  | "-n", _ => !argument.isEmpty
  | "-z", _ => argument.isEmpty
  | "-d", .ok .folder => true
  | "-x", .ok (.file _ executable) => executable
  | "-s", .ok (.file (.text t) _) => !t.isEmpty
  | "-f", .ok (.file _ _) => true
  | "-e", .ok _ | "-r", .ok _ | "-w", .ok _ | "-x", .ok .folder | "-s", .ok _ => true
  | _, _ => false

/-- The operators of tests of two arguments. -/
def testOperators : List String :=
  ["=", "==", "!=", "-eq", "-ne", "-lt", "-le", "-gt", "-ge", "<", ">"]

/-- Does a test of two arguments hold?  A text that should be a number and is none is wrong. -/
def holdsTwo (a operator b : String) : Except String Bool := do
  let number (text : String) : Except String Int :=
    match integer? text with
    | some n => .ok n
    | none => .error ("Illegal number: " ++ text)
  match operator with
  | "=" | "==" => return a == b
  | "!=" => return a != b
  | "<" => return decide (a < b)
  | ">" => return decide (b < a)
  | "-eq" => return (← number a) == (← number b)
  | "-ne" => return (← number a) != (← number b)
  | "-lt" => return decide ((← number a) < (← number b))
  | "-le" => return decide ((← number a) ≤ (← number b))
  | "-gt" => return decide ((← number b) < (← number a))
  | _ => return decide ((← number b) ≤ (← number a))

/-- The value of a test without operators between tests, and what follows it. -/
def holdsPrimary (s : State) : List String → Except String (Bool × List String)
  | [] => .ok (false, [])
  | [a] => .ok (!a.isEmpty, [])
  | a :: operator :: b :: rest =>
    if testOperators.contains operator then (holdsTwo a operator b).map (·, rest)
    else if a.startsWith "-" && a.length == 2 then .ok (holdsOne s a operator, b :: rest)
    else .ok (!a.isEmpty, operator :: b :: rest)
  | [operator, a] =>
    if operator.startsWith "-" && operator.length == 2 then .ok (holdsOne s operator a, [])
    else .error (operator ++ ": unexpected operator")

/-- The value of a test, and what follows it.  The level is that of `-o`, of `-a`, or of a
single test. -/
def holdsFrom (s : State) : Nat → Nat → List String → Except String (Bool × List String)
  | 0, _, arguments => .ok (false, arguments)
  | fuel + 1, 0, arguments => do
    let (first, rest) ← holdsFrom s fuel 1 arguments
    match rest with
    | "-o" :: rest =>
      let (second, rest) ← holdsFrom s fuel 0 rest
      return (first || second, rest)
    | _ => return (first, rest)
  | fuel + 1, 1, arguments => do
    let (first, rest) ← holdsFrom s fuel 2 arguments
    match rest with
    | "-a" :: rest =>
      let (second, rest) ← holdsFrom s fuel 1 rest
      return (first && second, rest)
    | _ => return (first, rest)
  | fuel + 1, level + 2, arguments => do
    match arguments with
    | "!" :: a :: rest =>
      if testOperators.contains a && rest.length == 1 then holdsPrimary s arguments
      else
        let (value, rest) ← holdsFrom s fuel (level + 2) (a :: rest)
        return (!value, rest)
    | "(" :: a :: rest =>
      if testOperators.contains a then holdsPrimary s arguments
      else
        let (value, rest) ← holdsFrom s fuel 0 (a :: rest)
        return (value, rest.drop 1)
    | _ => holdsPrimary s arguments

/-- Succeed if a test holds; the name is for messages. -/
def testAs (name : String) : Tool := fun arguments s =>
  match holdsFrom s (4 * arguments.length + 4) 0 arguments with
  | .ok (value, []) => s.withStatus (if value then 0 else 1)
  | .ok (_, a :: _) => (s.report (name ++ ": " ++ a ++ ": unexpected operator")).withStatus 2
  | .error message => (s.report (name ++ ": " ++ message)).withStatus 2

/-- Succeed if a test holds. -/
def test : Tool := testAs "test"

/-- Succeed if a test between brackets holds. -/
def bracket : Tool := fun arguments s =>
  if arguments.getLast? == some "]" then testAs "[" arguments.dropLast s
  else (s.report "[: missing ]").withStatus 2

/-! ## The shell itself -/

/-- Drop arguments of the shell; more than there are end it. -/
def shift : Tool := fun arguments s =>
  let count := ((arguments.head?).bind integer?).getD 1 |>.toNat
  if s.arguments.length < count then
    (s.withStatus 2).withFault (some "shift: can't shift that many")
  else { s with arguments := s.arguments.drop count }.succeed

/-- Go to another folder. -/
def cd : Tool := fun arguments s =>
  let path := (arguments.head? <|> s.bindings.lookup "HOME").getD ""
  match s.placeOf path, s.entryOf path with
  | .ok place, .ok .folder => { s with folder := place }.succeed
  | _, _ => (s.report ("cd: can't cd to " ++ path)).withStatus 2

/-- Options with some of them turned on or off by letters. -/
def Options.turned (o : Options) (on : Bool) (letters : List Char) : Options :=
  { strict := if letters.contains 'e' then on else o.strict
    allSet := if letters.contains 'u' then on else o.allSet }

/-- The letter of an option with a long name. -/
def optionLetter (name : String) : List Char :=
  match name with
  | "errexit" => ['e']
  | "nounset" => ['u']
  | _ => []

/-- Set options, or the arguments of the shell. -/
def set : Tool := fun arguments s =>
  match arguments with
  | "--" :: rest => { s with arguments := rest }.succeed
  | [] => s.succeed
  | first :: rest =>
    if first.startsWith "-" || first.startsWith "+" then
      let letters := first.toList.drop 1 ++
        (if first.toList.contains 'o' then rest.flatMap optionLetter else [])
      { s with options := Options.turned s.options (first.startsWith "-") letters }.succeed
    else { s with arguments := first :: rest }.succeed

/-- Set variables by assignments, and do something with each of their names. -/
def assignAll (f : String → State → State) : Tool := fun arguments s =>
  s.forEach (fun a s =>
    let name := a.toList.takeWhile (· != '=')
    let s := f (String.ofList name) s
    match a.toList.drop name.length with
    | _ :: value => f (String.ofList name) (s.setVariable (String.ofList name) (String.ofList value))
    | [] => s) arguments

/-- Hand variables to programs. -/
def exportAll : Tool := assignAll fun name s => s.exportVariable name

/-- Set variables. -/
def readonly : Tool := assignAll fun _ s => s

/-- Make variables a function's own. -/
def localAll : Tool := assignAll fun name s =>
  if s.kept.any (·.name == name) then s else { s with kept := s.keep name :: s.kept }

/-- Forget variables. -/
def unset : Tool := fun arguments s =>
  match arguments with
  | "-f" :: rest =>
    { s with functions := s.functions.filter fun f => !rest.contains f.1 }.succeed
  | _ => s.forEach (fun a s => s.unsetVariable a) (arguments.filter fun a => !a.startsWith "-")

/-- Say what is carried out when the shell ends. -/
def trap : Tool := fun arguments s =>
  match arguments with
  | script :: events =>
    if events.contains "EXIT" || events.contains "0" then
      { s with farewell := if script == "-" then "" else script }.succeed
    else s.succeed
  | [] => s.succeed

/-! ## Reading a line -/

/-- The characters of a line with those marked that a backslash protects, what follows the
line, and whether it was complete. -/
def logicalLine (raw : Bool) : List Char → List Glyph × List Char × Bool
  | [] => ([], [], false)
  | '\\' :: c :: rest =>
    if raw then
      if c == '\n' then ([('\\', false)], rest, true)
      else
        let (line, behind, whole) := logicalLine raw rest
        (('\\', false) :: (c, false) :: line, behind, whole)
    else
      let (line, behind, whole) := logicalLine raw rest
      (if c == '\n' then line else (c, true) :: line, behind, whole)
  | c :: rest =>
    if c == '\n' then ([], rest, true)
    else
      let (line, behind, whole) := logicalLine raw rest
      ((c, false) :: line, behind, whole)

/-- The fields of a line for a number of names, of which the last takes what is left. -/
def lineFields (seps : List Char) : Nat → List Glyph → List (List Glyph)
  | 0, _ => []
  | left + 1, gs =>
    let soft (g : Glyph) : Bool := !g.2 && seps.contains g.1 && isSoft g.1
    let separates (g : Glyph) : Bool := !g.2 && seps.contains g.1
    let gs := gs.dropWhile soft
    if left = 0 then [(gs.reverse.dropWhile soft).reverse]
    else
      let field := gs.takeWhile fun g => !separates g
      let behind := (gs.drop field.length).dropWhile soft
      let behind := if (behind.head?.map separates).getD false then behind.tail else behind
      field :: lineFields seps left behind

/-- Read a line into variables.  A line without an end is read, but is no success. -/
def readLine : Tool := fun arguments s =>
  let names := arguments.filter fun a => !a.startsWith "-"
  let (line, rest, whole) := logicalLine (arguments.contains "-r") s.input.toList
  let fields := (lineFields (separators s) names.length line).map textOfGlyphs
  let s := (names.zip fields).foldl (fun s v => s.setVariable v.1 v.2) { s with input := String.ofList rest }
  s.withStatus (if whole then 0 else 1)

/-! ## Files -/

/-- The arguments that are options, and those that are not. -/
def splitOptions (arguments : List String) : List Char × List String :=
  let isOption (a : String) : Bool := a.startsWith "-" && a.length > 1
  (((arguments.filter isOption).flatMap fun a => a.toList.drop 1),
    (arguments.filter fun a => !isOption a))

/-- Create files that are not there. -/
def touch : Tool := fun arguments s =>
  s.forEach (fun a s =>
    match s.entryOf a with
    | .ok _ => s
    | .error _ =>
      s.tryChange ("touch: cannot touch '" ++ a ++ "'")
        (s.directory.writeFrom s.folder a (.text ""))) (splitOptions arguments).2

/-- Create folders, with those on the way if asked to. -/
def mkdir : Tool := fun arguments s =>
  let (options, paths) := splitOptions arguments
  s.forEach (fun a s =>
    let message := "mkdir: cannot create directory '" ++ a ++ "'"
    if options.contains 'p' then
      s.tryChange message
        (s.directory.createAlong (Directory.origin s.folder a) (Directory.pieces a))
    else
      match s.entryOf a with
      | .ok _ => s.tryChange message (.error .exists)
      | .error _ =>
        s.tryChange message ((s.placeOf a).map fun place => s.directory.put place .folder)) paths

/-- Remove files, and folders if asked to. -/
def rm : Tool := fun arguments s =>
  let (options, paths) := splitOptions arguments
  let tree := options.contains 'r' || options.contains 'R'
  s.forEach (fun a s =>
    let message := "rm: cannot remove '" ++ a ++ "'"
    match s.placeOf a, s.entryOf a with
    | .ok place, .ok .folder =>
      if tree then { s with directory := s.directory.eraseTree place }
      else s.tryChange message (.error .isDirectory)
    | .ok place, .ok _ => { s with directory := s.directory.erase place }
    | .error e, _ | _, .error e =>
      if options.contains 'f' then s else s.tryChange message (.error e)) paths

/-- Remove empty folders. -/
def rmdir : Tool := fun arguments s =>
  s.forEach (fun a s =>
    let message := "rmdir: failed to remove '" ++ a ++ "'"
    match s.placeOf a, s.entryOf a with
    | .ok place, .ok .folder =>
      if (s.directory.namesIn place).isEmpty then
        { s with directory := s.directory.erase place }
      else s.complain (message ++ ": Directory not empty")
    | .error e, _ | _, .error e => s.tryChange message (.error e)
    | _, _ => s.tryChange message (.error .notDirectory)) (splitOptions arguments).2

/-- The path of a copy: a folder takes a file under its own name. -/
def copyPath (s : State) (source target : String) : String :=
  match s.entryOf target with
  | .ok .folder => joinPath target ((PathText.fileName? source).getD source)
  | _ => target

/-- The state with the right to run the file at a path. -/
def withRight (executable : Bool) (path : String) (s : State) : State :=
  match s.placeOf path, s.entryOf path with
  | .ok place, .ok (.file contents _) =>
    { s with directory := s.directory.put place (.file contents executable) }
  | _, _ => s

/-- Copy files, or move them. -/
def copy (name : String) (moving : Bool) : Tool := fun arguments s =>
  let paths := (splitOptions arguments).2
  let target := paths.getLastD ""
  s.forEach (fun source s =>
    match s.entryOf source, s.placeOf source with
    | .ok (.file contents executable), .ok place =>
      let path := copyPath s source target
      let s := s.tryChange (name ++ ": cannot create regular file '" ++ target ++ "'")
        (s.directory.writeFrom s.folder path contents)
      let s := if executable then withRight true path s else s
      if moving && s.status == 0 then { s with directory := s.directory.erase place } else s
    | .error e, _ => s.tryChange (name ++ ": cannot stat '" ++ source ++ "'") (.error e)
    | _, _ => s.complain (name ++ ": -r not specified; omitting directory '" ++ source ++ "'"))
    paths.dropLast

/-- Does a change of rights let a file be run, or not, or leave that as it is? -/
def rightOf (mode : String) : Option Bool :=
  match mode.toList with
  | owner :: _ =>
    if owner.isDigit then
      some (((mode.toList.drop (mode.length - 3)).head?.map fun c => c.toNat % 2 == 1).getD false)
    else if !mode.contains 'x' then none
    else if mode.contains '+' || mode.contains '=' then some true
    else some false
  | [] => none

/-- Change the rights to run files. -/
def chmod : Tool := fun arguments s =>
  match arguments.filter fun a => a != "-R" with
  | mode :: paths =>
    s.forEach (fun path s =>
      match s.entryOf path with
      | .error e => s.tryChange ("chmod: cannot access '" ++ path ++ "'") (.error e)
      | .ok _ => match rightOf mode with
        | some executable => withRight executable path s
        | none => s) paths
  | [] => s.withStatus 1

/-- The text of a file for a tool; a dash stands for what is left to read. -/
def textOf (path : String) (s : State) : Except String (String × State) :=
  if path == "-" then .ok (s.input, { s with input := "" })
  else
    match s.entryOf path with
    | .ok (.file (.text t) _) => .ok (t, s)
    | .ok .folder => .error (path ++ ": Is a directory")
    | .ok _ => .ok ("", s)
    | .error _ => .error (path ++ ": No such file or directory")

/-- Print files, or what is left to read. -/
def cat : Tool := fun arguments s =>
  s.forEach (fun a s =>
    match textOf a s with
    | .ok (t, s) => s.print .out t
    | .error message => s.complain ("cat: " ++ message))
    (if arguments.isEmpty then ["-"] else arguments)

/-- Print the names in folders. -/
def ls : Tool := fun arguments s =>
  let paths := (splitOptions arguments).2
  s.forEach (fun a s =>
    match s.placeOf a, s.entryOf a with
    | .ok place, .ok .folder =>
      s.print .out (String.join (((s.directory.namesIn place).filter fun n =>
        !n.startsWith ".").map (· ++ "\n")))
    | .ok _, .ok _ => s.print .out (a ++ "\n")
    | .error e, _ | _, .error e =>
      (s.tryChange ("ls: cannot access '" ++ a ++ "'") (.error e)).withStatus 2)
    (if paths.isEmpty then ["."] else paths)

/-- Print the last name of a path, without an ending. -/
def basename : Tool := fun arguments s =>
  let name := (PathText.fileName? (arguments.headD "")).getD (arguments.headD "")
  let ending := (arguments[1]?).getD ""
  let bare := if name.endsWith ending && name != ending then
      (name.toList.take (name.length - ending.length)) else name.toList
  (s.print .out (String.ofList bare ++ "\n")).succeed

/-- Print what stands before the last name of a path. -/
def dirname : Tool := fun arguments s =>
  let parent := (PathText.parent? (arguments.headD "")).getD "."
  (s.print .out ((if parent.isEmpty then "." else parent) ++ "\n")).succeed

/-- Print the numbers of a range. -/
def seq : Tool := fun arguments s =>
  let numbers := arguments.map fun a => (integer? a).getD 0
  let (first, step, last) : Int × Int × Int :=
    match numbers with
    | [last] => (1, 1, last)
    | [first, last] => (first, 1, last)
    | [first, step, last] => (first, step, last)
    | _ => (1, 1, 0)
  let count := if step ≤ 0 then 0 else ((last - first) / step + 1).toNat
  (s.print .out (String.join ((List.range (min count 100000)).map fun (i : Nat) =>
    integerText (first + step * i) ++ "\n"))).succeed

/-! ## Tables -/

/-- A tool that succeeds. -/
def succeeds : Tool := fun _ s => s.succeed

/-- The tools of the shell itself. -/
def own : List (String × Tool) :=
  [(":", succeeds), ("true", succeeds), ("false", fun _ s => s.withStatus 1), ("echo", echo),
   ("printf", printf), ("test", test), ("[", bracket), ("shift", shift), ("cd", cd),
   ("set", set), ("export", exportAll), ("readonly", readonly), ("local", localAll),
   ("unset", unset), ("read", readLine), ("wait", succeeds), ("umask", succeeds),
   ("trap", trap), ("ulimit", succeeds), ("hash", succeeds), ("times", succeeds),
   ("pwd", fun _ s => (s.print .out ("/" ++ "/".intercalate s.folder ++ "\n")).succeed)]

/-- The names of tools whose failed redirections end the shell. -/
def special : List String :=
  [":", ".", "break", "continue", "eval", "exec", "exit", "export", "readonly", "return", "set",
   "shift", "trap", "unset"]

/-- The system's programs, apart from the shell. -/
def system : List (String × Tool) :=
  [("true", succeeds), ("false", fun _ s => s.withStatus 1), ("echo", echo), ("printf", printf),
   ("test", test), ("[", bracket), ("touch", touch), ("mkdir", mkdir), ("rm", rm),
   ("rmdir", rmdir), ("cp", copy "cp" false), ("mv", copy "mv" true), ("cat", cat), ("ls", ls),
   ("sleep", succeeds), ("basename", basename), ("dirname", dirname), ("seq", seq),
   ("sync", succeeds), ("date", succeeds), ("chmod", chmod)]

/-- The names under which the system has a shell. -/
def shells : List String := ["sh", "dash", "bash"]

end Tools

end Shell

end SphereLab
