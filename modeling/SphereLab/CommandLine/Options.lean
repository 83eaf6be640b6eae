import SphereLab.Text.Blank

/-!
# Reading command lines

A command line is read against a tree of commands.  Each command has options with long names,
some with a letter too, and either further commands below it or places for values of its own.

An option takes no value, one, or as many as follow; a value that begins with a dash has to be
joined to its option.  Options are judged when what belongs to them is complete, so of two
mistakes the one that is complete first decides, and a request for help counts as soon as it
is read.  What a command below says is judged before what the command above it says.
-/

namespace SphereLab

namespace CommandLine

/-! ## Commands and their options -/

/-- What an option takes, or what it asks for. -/
inductive Takes where
  | nothing
  | one
  | many
  | help
  | version
  deriving DecidableEq, Repr

/-- An option. -/
structure Flag where
  name : String
  letter : Option Char
  takes : Takes
  required : Bool
  /-- Is a value acceptable? -/
  accepts : String → Bool

/-- A command: its options, the values that it takes by themselves, and the commands below. -/
inductive Command where
  | mk (flags : List Flag) (values : Option Flag) (commands : List (String × Command))

namespace Command

/-- The options of a command. -/
def flags : Command → List Flag
  | mk flags _ _ => flags

/-- What stands for the values that a command takes by themselves. -/
def values : Command → Option Flag
  | mk _ values _ => values

/-- The commands below a command. -/
def commands : Command → List (String × Command)
  | mk _ _ commands => commands

/-- The option with a name. -/
def flagNamed? (c : Command) (name : String) : Option Flag := c.flags.find? (·.name == name)

/-- The option with a letter. -/
def flagLettered? (c : Command) (letter : Char) : Option Flag :=
  c.flags.find? (·.letter == some letter)

end Command

/-! ## Results -/

/-- Why a command line is not carried out. -/
inductive Refusal where
  | help
  | version
  | usage
  deriving DecidableEq, Repr

/-- The options of one command with their values, by name. -/
abbrev Bindings := List (String × List String)

/-- A command line that was read: the names of the commands, and the options of each, from the
lowest command up. -/
structure Parsed where
  path : List String
  levels : List Bindings

namespace Parsed

/-- The values of an option; the lowest command that has it counts. -/
def valuesOf? (p : Parsed) (name : String) : Option (List String) :=
  p.levels.findSome? (·.lookup name)

/-- The only value of an option. -/
def valueOf? (p : Parsed) (name : String) : Option String := (p.valuesOf? name).bind (·.head?)

/-- Is an option there? -/
def has (p : Parsed) (name : String) : Bool := (p.valuesOf? name).isSome

end Parsed

/-! ## Reading -/

/-- How far the options of one command have been read. -/
structure Progress where
  /-- The options that are complete. -/
  bindings : Bindings
  /-- An option and the values it has so far. -/
  pending : Option (Flag × List String)
  /-- Does the pending option take the next value? -/
  awaiting : Bool
  /-- Is everything a value from here on? -/
  literal : Bool

/-- The beginning. -/
def Progress.none : Progress := ⟨[], .none, false, false⟩

namespace Progress

/-- Complete an option with values.  Only an option that takes many may come again. -/
def complete (p : Progress) (flag : Flag) (values : List String) : Except Refusal Progress :=
  if !values.all flag.accepts || (values.isEmpty && flag.takes != .nothing) then .error .usage
  else
    match p.bindings.lookup flag.name with
    | .none => .ok { p with bindings := p.bindings ++ [(flag.name, values)] }
    | some before =>
      if flag.takes == .many then
        .ok { p with bindings := p.bindings.map fun b =>
          if b.1 == flag.name then (b.1, before ++ values) else b }
      else .error .usage

/-- Complete the option that is pending. -/
def settle (p : Progress) : Except Refusal Progress :=
  match p.pending with
  | .none => .ok p
  | some (flag, values) => { p with pending := .none }.complete flag values

/-- An option without a value of its own. -/
def switch (p : Progress) (flag : Flag) : Except Refusal Progress :=
  match p.settle with
  | .error e => .error e
  | .ok p =>
    match flag.takes with
    | .help => .error .help
    | .version => .error .version
    | _ => { p with awaiting := false }.complete flag []

/-- An option that takes values, with a value joined to it or not. -/
def valued (p : Progress) (flag : Flag) (joined : Option String) : Except Refusal Progress :=
  match p.settle, joined with
  | .error e, _ => .error e
  | .ok p, some value => { p with awaiting := false }.complete flag [value]
  | .ok p, .none => .ok { p with pending := some (flag, []), awaiting := true }

/-- Does an option take values? -/
def takesValues (flag : Flag) : Bool := flag.takes == .one || flag.takes == .many

/-- An option by its long name, with a value behind an equals sign or not. -/
def long (c : Command) (p : Progress) (body : List Char) : Except Refusal Progress :=
  let (name, joined) := splitFirst '=' body
  match c.flagNamed? (String.ofList name), joined with
  | .none, _ => .error .usage
  | some flag, _ =>
    if takesValues flag then p.valued flag (joined.map String.ofList)
    else if joined.isSome then .error .usage
    else p.switch flag

/-- Options by their letters; the first that takes values takes the rest as one. -/
def letters (c : Command) (p : Progress) : List Char → Except Refusal Progress
  | [] => .ok p
  | letter :: rest =>
    match c.flagLettered? letter with
    | .none => .error .usage
    | some flag =>
      if takesValues flag then
        match rest with
        | [] => p.valued flag .none
        | '=' :: value => p.valued flag (some (String.ofList value))
        | _ => p.valued flag (some (String.ofList rest))
      else
        match p.switch flag with
        | .error e => .error e
        | .ok p => p.letters c rest

/-- A value for the pending option. -/
def feed (p : Progress) (value : String) : Progress :=
  match p.pending with
  | some (flag, values) =>
    { p with pending := some (flag, values ++ [value]), awaiting := flag.takes == .many }
  | .none => p

/-- A value by itself. -/
def standing (c : Command) (p : Progress) (value : String) : Except Refusal Progress :=
  match c.values with
  | .none => .error .usage
  | some flag =>
    if (p.pending.map (·.1.name)) == some flag.name then
      .ok { p.feed value with awaiting := false }
    else
      match p.settle with
      | .error e => .error e
      | .ok p => .ok { p with pending := some (flag, [value]), awaiting := false }

/-- One piece of a command line that names no command. -/
def step (c : Command) (p : Progress) (piece : String) : Except Refusal Progress :=
  if p.literal then p.standing c piece
  else if piece == "--" then .ok { p with literal := true }
  else
    match piece.toList with
    | '-' :: '-' :: body => p.long c body
    | '-' :: a :: rest => p.letters c (a :: rest)
    | _ => if p.awaiting then .ok (p.feed piece) else p.standing c piece

/-- The options of a command at its end.  A command that needs one below it asks for help if
nothing at all was said. -/
def finish (c : Command) (below : Bool) (p : Progress) : Except Refusal Bindings :=
  match p.settle with
  | .error e => .error e
  | .ok p =>
    if !c.commands.isEmpty && !below then .error (if p.bindings.isEmpty then .help else .usage)
    else if (c.flags ++ c.values.toList).any fun f =>
        f.required && (p.bindings.lookup f.name).isNone then .error .usage
    else .ok p.bindings

end Progress

/-- The answer to a question about a command by its names. -/
def helpAbout (c : Command) : List String → Refusal
  | [] => .help
  | name :: rest =>
    match c.commands.lookup name with
    | some lower => helpAbout lower rest
    | .none => if name == "help" && rest.isEmpty && !c.commands.isEmpty then .help else .usage

/-- Read the rest of a command line. -/
def readFrom (c : Command) (p : Progress) : List String → Except Refusal Parsed
  | [] => (p.finish c false).map fun bindings => ⟨[], [bindings]⟩
  | piece :: rest =>
    if !p.literal && !p.awaiting && (c.commands.lookup piece).isSome then
      match c.commands.lookup piece with
      | .none => .error .usage
      | some lower =>
        match readFrom lower .none rest with
        | .error e => .error e
        | .ok parsed =>
          (p.finish c true).map fun bindings =>
            ⟨piece :: parsed.path, parsed.levels ++ [bindings]⟩
    else if !p.literal && !p.awaiting && piece == "help" && !c.commands.isEmpty then
      .error (helpAbout c rest)
    else
      match p.step c piece with
      | .error e => .error e
      | .ok p => readFrom c p rest

/-- Read a command line. -/
def read (c : Command) (pieces : List String) : Except Refusal Parsed := readFrom c .none pieces

end CommandLine

end SphereLab
