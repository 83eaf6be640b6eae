import SphereLab.Shell.Expansion
import SphereLab.Shell.Program
import SphereLab.Shell.Reading

/-!
# Carrying out shell texts

A command takes a state to the state afterwards, and to how things go on: with the next
command, with the end of the shell, of a function or of a loop.  A shell that starts another
one goes on with the directory and the printed text of the other, but with variables and a
folder of its own.

A text can ask for a loop that never ends, so commands are carried out with a budget.  A shell
that has used it up ends.
-/

namespace SphereLab

namespace Shell

/-- Where a stream goes. -/
inductive Destination where
  | stream (value : Stream)
  | file (place : Place)
  | nowhere

/-- Where the streams of a command go. -/
structure Routes where
  out : Destination
  err : Destination
  /-- What there is to read, if it is not what the shell reads. -/
  input : Option String

/-- How things go on after a command. -/
inductive Flow where
  | next
  | leave
  /-- The function that is being called ends. -/
  | finish
  /-- The shell was ended by a signal. -/
  | killed (signal : Nat)
  /-- Some loops are left. -/
  | breakOff (loops : Nat)
  /-- Some loops are left, and the one around them goes on. -/
  | goOn (loops : Nat)
  /-- Streams are sent elsewhere from here on. -/
  | reroute (routes : Routes)

/-- A way of carrying commands out. -/
abbrev Carry := Command → State → State × Flow

/-! ## Redirections -/

/-- The streams of the shell itself. -/
def Routes.own : Routes := ⟨.stream .out, .stream .err, none⟩

/-- The routes with a stream sent elsewhere. -/
def Routes.send (r : Routes) (stream : Nat) (d : Destination) : Routes :=
  match stream with
  | 1 => { r with out := d }
  | 2 => { r with err := d }
  | _ => r

/-- The reason why a file cannot be created. -/
def creationText : PathError → String
  | .notFound => "Directory nonexistent"
  | .isDirectory => "Is a directory"
  | .notDirectory => "Not a directory"
  | _ => "Permission denied"

/-- Open a file to write to; what was in it is kept or not. -/
def openFile (keep : Bool) (path : String) (s : State) : Except String (Destination × State) :=
  if path == "/dev/null" then .ok (.nowhere, s)
  else if path == "/dev/stdout" then .ok (.stream .out, s)
  else if path == "/dev/stderr" then .ok (.stream .err, s)
  else
    let failure (e : PathError) := "cannot create " ++ path ++ ": " ++ creationText e
    match s.placeOf path, s.entryOf path with
    | .ok place, .ok (.file _ _) =>
      if keep then .ok (.file place, s)
      else
        match s.directory.writeFrom s.folder path (.text "") with
        | .ok d => .ok (.file place, { s with directory := d })
        | .error e => .error (failure e)
    | .ok place, _ =>
      match s.directory.writeFrom s.folder path (.text "") with
      | .ok d => .ok (.file place, { s with directory := d })
      | .error e => .error (failure e)
    | .error e, _ => .error (failure e)

/-- Carry a redirection out. -/
def openRoute (outputOf : Printer) (r : Redirection) (routes : Routes) (s : State) :
    Except (String × State) (Routes × State) :=
  let (target, s) := expandText outputOf r.target s
  match r.direction with
  | .write | .append =>
    match openFile (r.direction == .append) target s with
    | .ok (d, s) => .ok (routes.send r.stream d, s)
    | .error message => .error (message, s)
  | .follow =>
    match target with
    | "1" => .ok (routes.send r.stream routes.out, s)
    | "2" => .ok (routes.send r.stream routes.err, s)
    | _ => .ok (routes.send r.stream .nowhere, s)
  | .document => .ok ({ routes with input := some target }, s)
  | .read =>
    match s.entryOf target with
    | .ok (.file (.text text) _) => .ok ({ routes with input := some text }, s)
    | .ok _ => .ok ({ routes with input := some "" }, s)
    | .error _ => .error ("cannot open " ++ target ++ ": No such file", s)

/-- Carry redirections out, one after another. -/
def openRoutes (outputOf : Printer) :
    List Redirection → Routes → State → Except (String × State) (Routes × State)
  | [], routes, s => .ok (routes, s)
  | r :: rest, routes, s =>
    match openRoute outputOf r routes s with
    | .ok (routes, s) => openRoutes outputOf rest routes s
    | .error e => .error e

/-- The state after a printed text has gone where its stream goes. -/
def deliver (routes : Routes) (s : State) (printed : Stream × String) : State :=
  match (match printed.1 with | .out => routes.out | .err => routes.err) with
  | .stream stream => s.print stream printed.2
  | .file place => { s with directory := s.directory.appendAt place printed.2 }
  | .nowhere => s

/-- Carry something out with its streams sent elsewhere. -/
def withRoutes (routes : Routes) (body : State → State × Flow) (s : State) : State × Flow :=
  let (after, flow) := body { s with printed := [], input := routes.input.getD s.input }
  let delivered := after.printed.foldl (deliver routes) { after with printed := s.printed }
  ({ delivered with input := if routes.input.isSome then s.input else after.input }, flow)

/-! ## Shells within shells -/

/-- Carry out commands one after another, each in a shell that goes on. -/
def runCommands (run : Carry) : List Command → State → State × Flow
  | [], s => (s, .next)
  | c :: rest, s =>
    match run c s with
    | (s, .next) => runCommands run rest s
    | (s, .reroute routes) => withRoutes routes (runCommands run rest) s
    | other => other

/-- Carry a text out. -/
def runText (run : Carry) (text : String) (s : State) : State × Flow :=
  let script := scriptOf text
  match runCommands run script.commands s, script.fault with
  | (s, .next), some (line, fault) =>
    (({ s with line := line }.report ("Syntax error: " ++ fault.message)).withStatus 2, .leave)
  | other, _ => other

/-- How a shell ended. -/
def endingOf (s : State) : Flow → Ending
  | .killed signal => .signal signal
  | _ => .code (s.status % 256)

/-- The state after the last script of a shell that ends, which keeps its status unless the
script ends the shell with another one. -/
def sayFarewell (run : Carry) (s : State) (flow : Flow) : State × Flow :=
  match flow with
  | .killed signal => (s, .killed signal)
  | _ =>
    if s.farewell.isEmpty then (s, flow)
    else
      match runText run s.farewell { s with farewell := "" } with
      | (after, .leave) => (after, .leave)
      | (after, .killed signal) => (after, .killed signal)
      | (after, _) => (after.withStatus s.status, .next)

/-- Carry a text out in a shell of its own, with a name and arguments. -/
def runChild (run : Carry) (text name : String) (arguments : List String) (strict : Bool)
    (s : State) : State × Ending :=
  let start := { s.forChild name arguments with options := ⟨strict, false⟩ }
  let (child, flow) := runText run text start
  let (child, flow) := sayFarewell run child flow
  let ending := endingOf child flow
  ((s.afterChild child).withStatus ending.status, ending)

/-- What a shell that is called as a program does with its arguments. -/
def runShellCall (run : Carry) (arguments : List String) (s : State) : State × Ending :=
  match arguments with
  | "-c" :: text :: rest => runChild run text (rest.headD "sh") rest.tail false s
  | "-e" :: "-c" :: text :: rest => runChild run text (rest.headD "sh") rest.tail true s
  | "-ec" :: text :: rest => runChild run text (rest.headD "sh") rest.tail true s
  | path :: rest =>
    match s.entryOf path with
    | .ok (.file (.text text) _) => runChild run text path rest false s
    | _ =>
      (((s.print .err ("sh: 0: cannot open " ++ path ++ ": No such file\n"))).withStatus 2,
        .code 2)
  | [] => runChild run s.input "sh" [] false { s with input := "" }

/-- Run a program with arguments. -/
def runExecutable (run : Carry) (e : Executable) (arguments : List String) (s : State) :
    State × Ending :=
  match e with
  | .tool f =>
    let after := f arguments s
    ((s.afterChild after).withStatus after.status, .code after.status)
  | .shell => runShellCall run arguments s
  | .script path text strict => runChild run text path arguments strict s

/-- What the script of a word prints. -/
def printerOf (run : Carry) : Printer := fun script s =>
  let (child, flow) := runText run script { s with printed := [], farewell := "" }
  let errors := child.printed.filter fun p => p.1 == .err
  (child.textOn .out,
    ({ s.afterChild child with printed := s.printed ++ errors }).withStatus
      (endingOf child flow).status)

/-! ## Calls -/

/-- What the shell says about a program that was ended by a signal. -/
def State.mourn (s : State) : Ending → State
  | .code _ => s
  | .signal n =>
    if Ending.unsaid.contains n then s else s.print .err (Ending.words n ++ "\n")

/-- Call a program by name. -/
def callProgram (run : Carry) (name : String) (arguments : List String) (s : State) :
    State × Flow :=
  match findExecutable s name with
  | .ok e =>
    let (after, ending) := runExecutable run e arguments s
    (after.mourn ending, .next)
  | .error .notFound => ((s.report (name ++ ": not found")).withStatus 127, .next)
  | .error .denied => ((s.report (name ++ ": Permission denied")).withStatus 126, .next)
  | .error .badFormat =>
    match s.entryOf name with
    | .ok (.file (.text text) _) => ((runChild run text name arguments false s).1, .next)
    | _ => ((s.report (name ++ ": Exec format error")).withStatus 126, .next)

/-- Call a program with other variables beside those that there are. -/
def callWith (run : Carry) : List String → State → State × Flow
  | [], s => (s.succeed, .next)
  | a :: rest, s =>
    match assignment? [.text a false] with
    | some (name, _) =>
      let s := s.setVariable name (String.ofList (a.toList.drop (name.length + 1)))
      callWith run rest (s.exportVariable name)
    | none => callProgram run a rest s

/-- Call a function.  Its arguments are those of the shell while it lasts, and the variables of
its own are put back afterwards. -/
def callFunction (run : Carry) (body : Command) (arguments : List String) (s : State) :
    State × Flow :=
  let (after, flow) := run body { s with arguments := arguments, kept := [] }
  let after := after.kept.foldl State.putBack after
  ({ after with arguments := s.arguments, kept := s.kept },
    match flow with
    | .finish => .next
    | flow => flow)

/-- The number that a call names, if it names one. -/
def countOf (arguments : List String) : Nat := ((arguments.head?.bind integer?).getD 1).toNat

/-- Send a signal; only a signal to the shell itself does anything. -/
def kill (arguments : List String) (s : State) : State × Flow :=
  let (signal, targets) : Option Nat × List String :=
    match arguments with
    | "-s" :: name :: rest => (Ending.signalOf name, rest)
    | first :: rest =>
      if first.startsWith "-" then (Ending.signalOf (String.ofList (first.toList.drop 1)), rest)
      else (some 15, arguments)
    | [] => (some 15, [])
  match signal with
  | none =>
    let letter := (arguments.headD "").toList.drop 1 |>.take 1
    ((s.report ("kill: Illegal option -" ++ String.ofList letter)).withStatus 2, .next)
  | some n =>
    if targets.contains State.ownNumber then
      if Ending.harmless.contains n then (s.succeed, .next) else (s, .killed n)
    else (s.withStatus 1, .next)

/-- Say whether names can be called, and how. -/
def findNames (arguments : List String) (s : State) : State :=
  s.forEach (fun name s =>
    let known := (s.functions.lookup name).isSome || (Tools.own.lookup name).isSome ||
      Tools.special.contains name
    if known then s.print .out (name ++ "\n")
    else
      match findExecutable s name with
      | .ok _ => s.print .out ((if name.contains '/' then name else "/usr/bin/" ++ name) ++ "\n")
      | .error _ => s.withStatus 127) arguments

/-- End with the status that an argument gives, or with the last one. -/
def leaveWith (name : String) (flow : Flow) (arguments : List String) (s : State) :
    State × Flow :=
  match arguments with
  | [] => (s, flow)
  | first :: _ =>
    match integer? first with
    | some n =>
      if n < 0 then ((s.report (name ++ ": Illegal number: " ++ first)).withStatus 2, .leave)
      else (s.withStatus (n.toNat % 256), flow)
    | none => ((s.report (name ++ ": Illegal number: " ++ first)).withStatus 2, .leave)

/-- Call a function, a tool of the shell, what changes the flow, or a program. -/
def call (run : Carry) (name : String) (arguments : List String) (s : State) : State × Flow :=
  match name, arguments with
  | "exit", _ => leaveWith name .leave arguments s
  | "return", _ => leaveWith name .finish arguments s
  | "break", _ => (s.succeed, .breakOff (countOf arguments))
  | "continue", _ => (s.succeed, .goOn (countOf arguments))
  | "eval", _ => runText run (" ".intercalate arguments) s.succeed
  | "exec", [] => (s.succeed, .next)
  | "exec", first :: rest => ((callProgram run first rest s).1, .leave)
  | ".", path :: _ =>
    match s.entryOf path with
    | .ok (.file (.text text) _) =>
      match runText run text s.succeed with
      | (s, .finish) => (s, .next)
      | other => other
    | _ => ((s.report (".: cannot open " ++ path ++ ": No such file")).withStatus 2, .leave)
  | _, _ =>
    match s.functions.lookup name, Tools.own.lookup name with
    | some body, _ => callFunction run body arguments s
    | none, some tool => (tool arguments s, .next)
    | none, none =>
      match name, arguments with
      | "kill", _ => kill arguments s
      | "command", "-v" :: names => (findNames names s, .next)
      | "command", first :: rest =>
        match Tools.own.lookup first with
        | some tool => (tool rest s, .next)
        | none => callProgram run first rest s
      | "env", _ => callWith run arguments s
      | _, _ => callProgram run name arguments s

/-- End a shell that has a reason to. -/
def orFault (outcome : State × Flow) : State × Flow :=
  match outcome.1.fault with
  | none => outcome
  | some message =>
    (({ outcome.1 with fault := none }.report message).withStatus 2, .leave)

/-- Does a word hold a script? -/
def printsScript (w : Word) : Bool :=
  w.any fun
    | .output _ _ => true
    | _ => false

/-- The values of assignments, each with those before it, and the state afterwards. -/
def expandAssignments (outputOf : Printer) :
    List (String × Word) → State → List (String × String) × State
  | [], s => ([], s)
  | (name, w) :: rest, s =>
    let (value, s) := expandText outputOf w s
    let (more, after) := expandAssignments outputOf rest (s.setVariable name value)
    ((name, value) :: more, { after with bindings := s.bindings, hidden := s.hidden })

/-- The state after variables have been set. -/
def setAll (assignments : List (String × String)) (s : State) : State :=
  assignments.foldl (fun s a => s.setVariable a.1 a.2) s

/-- Call a program with variables of its own, which programs get. -/
def withVariables (values : List (String × String)) (body : State → State × Flow) (s : State) :
    State × Flow :=
  let kept := values.map fun v => s.keep v.1
  let (after, flow) := body (values.foldl (fun s v => s.exportVariable v.1) (setAll values s))
  (kept.foldl State.putBack after, flow)

/-- Carry out a program call whose words have been expanded. -/
def expandedCall (run : Carry) (values : List (String × String)) (scripted : Bool)
    (fields : List String) (routes : Routes) (s : State) : State × Flow :=
  match fields with
  | [] =>
    let s := setAll values s
    (if scripted then s else s.succeed, .next)
  | ["exec"] => ((setAll values s).succeed, .reroute routes)
  | name :: arguments =>
    let body := fun s => orFault (call run name arguments s)
    if Tools.special.contains name then withRoutes routes body (setAll values s)
    else withRoutes routes (withVariables values body) s

/-- Carry out a program call with its assignments and redirections. -/
def simple (run : Carry) (line : Nat) (assignments : List (String × Word))
    (ws : List Word) (rs : List Redirection) (s : State) : State × Flow :=
  let outputOf := printerOf run
  let (fields, s) := expandWords outputOf ws { s with line := line }
  let (values, s) := expandAssignments outputOf assignments s
  if s.fault.isSome then orFault (s, .next)
  else
    match openRoutes outputOf rs .own s with
    | .error (message, s) =>
      ((s.report message).withStatus 2,
        if (fields.head?.map Tools.special.contains).getD false then .leave else .next)
    | .ok (routes, s) =>
      expandedCall run values (assignments.any fun a => printsScript a.2) fields routes s

/-! ## Commands -/

/-- Carry a command out in a shell of its own that goes on with this one. -/
def inSubshell (run : Carry) (c : Command) (s : State) : State × Flow :=
  let (child, flow) := run c { s with farewell := "" }
  ((s.afterChild child).withStatus child.status,
    match flow with
    | .killed signal => .killed signal
    | _ => .next)

/-- Carry a command out whose failure is no mistake. -/
def asTest (run : Carry) (c : Command) (s : State) : State × Flow :=
  let (after, flow) := run c { s with options := { s.options with strict := false } }
  ({ after with options := s.options }, flow)

/-- The end of a strict shell after a failure. -/
def orFailure (outcome : State × Flow) : State × Flow :=
  match outcome with
  | (s, .next) => (s, if s.options.strict && s.status != 0 then .leave else .next)
  | other => other

/-- Does any of some patterns fit a text? -/
def fitsAny (outputOf : Printer) (subject : String) : List Word → State → Bool × State
  | [], s => (false, s)
  | w :: rest, s =>
    let (gs, s) := expandGlyphs outputOf w s
    if fits (pattern gs) subject.toList then (true, s) else fitsAny outputOf subject rest s

/-- The command of the first arm that fits. -/
def chosenArm (outputOf : Printer) (subject : String) :
    List (List Word × Command) → State → Option Command × State
  | [], s => (none, s)
  | (patterns, body) :: rest, s =>
    match fitsAny outputOf subject patterns s with
    | (true, s) => (some body, s)
    | (false, s) => chosenArm outputOf subject rest s

/-- What the end of a loop's body means for the loop: whether it goes on, and the flow if it
does not. -/
def afterBody : Flow → Option Flow
  | .next => none
  | .goOn n => if n ≤ 1 then none else some (.goOn (n - 1))
  | .breakOff n => some (if n ≤ 1 then .next else .breakOff (n - 1))
  | flow => some flow

/-- A body for each of some texts. -/
def eachOf (run : Carry) (name : String) (body : Command) :
    List String → State → State × Flow
  | [], s => (s, .next)
  | text :: rest, s =>
    let (s, flow) := run body (s.setVariable name text)
    match afterBody flow with
    | none => eachOf run name body rest s
    | some flow => (s, flow)

/-- Carry a command out. -/
def execute : Nat → Command → State → State × Flow
  | 0, _, s => (s, .leave)
  | fuel + 1, c, s =>
    let run := execute fuel
    match c with
    | .skip => (s, .next)
    | .simple line assignments ws rs => orFailure (simple run line assignments ws rs s)
    | .redirected body line rs =>
      match openRoutes (printerOf run) rs .own s with
      | .error (message, s) => (({ s with line := line }.report message).withStatus 2, .next)
      | .ok (routes, s) => withRoutes routes (run body) s
    | .pipe first second =>
      let (before, _) := inSubshell run first { s with printed := [] }
      let errors := before.printed.filter fun p => p.1 == .err
      let (after, flow) := inSubshell run second
        { s with
          directory := before.directory
          input := before.textOn .out
          printed := s.printed ++ errors }
      orFailure ({ after with input := s.input }, flow)
    | .negated body =>
      let (s, flow) := asTest run body s
      (s.withStatus (if s.status = 0 then 1 else 0), flow)
    | .both first second =>
      match asTest run first s with
      | (s, .next) => if s.status = 0 then run second s else (s, .next)
      | other => other
    | .either first second =>
      match asTest run first s with
      | (s, .next) => if s.status = 0 then (s, .next) else run second s
      | other => other
    | .sequence first second =>
      match run first s with
      | (s, .next) => run second s
      | (s, .reroute routes) => withRoutes routes (run second) s
      | other => other
    | .background body => ((inSubshell run body s).1.withStatus 0, .next)
    | .subshell body => orFailure (inSubshell run body s)
    | .conditional test yes no =>
      match asTest run test s with
      | (s, .next) => if s.status = 0 then run yes s else run no s.succeed
      | other => other
    | .loop wanted test body =>
      match asTest run test s with
      | (after, .next) =>
        if (after.status == 0) == wanted then
          let (s, flow) := run body after
          match afterBody flow with
          | none => run (.loop wanted test body) s
          | some flow => (s, flow)
        else (after.succeed, .next)
      | other => other
    | .each name ws body =>
      let (texts, s) := expandWords (printerOf run) ws s
      if s.fault.isSome then orFault (s, .next) else eachOf run name body texts s.succeed
    | .choice subject arms =>
      let (text, s) := expandText (printerOf run) subject s
      if s.fault.isSome then orFault (s, .next) else
      match chosenArm (printerOf run) text arms s with
      | (some body, s) => run body s.succeed
      | (none, s) => (s.succeed, .next)
    | .define name body =>
      ({ s with functions := (name, body) :: s.functions.filter fun f => f.1 != name }.succeed,
        .next)

/-- How deep commands may be carried out within each other, where each round of a loop is within
the one before. -/
def budget : Nat := 10000

/-- Start a program with arguments, if it can be found. -/
def start (s : State) (name : String) (arguments : List String) :
    Except StartError (State × Ending) :=
  (findExecutable s name).map fun e => runExecutable (execute budget) e arguments s

end Shell

end SphereLab
