import SphereLab.Shell.Filters

/-!
# Programs

A program is called by a path, or by a name that is looked up along a search path.  What is
found is a tool of the system, the shell, or a file of the directory that names the shell as
what it is to be read by.  A call that cannot even start has an error of its own; one that
could ends with a code or by a signal.
-/

namespace SphereLab

namespace Shell

/-! ## Endings -/

/-- How a program ended. -/
inductive Ending where
  | code (value : Nat)
  | signal (number : Nat)
  deriving DecidableEq, Repr

namespace Ending

/-- The names of signals, from the first one on. -/
def signalNames : List String :=
  ["HUP", "INT", "QUIT", "ILL", "TRAP", "ABRT", "BUS", "FPE", "KILL", "USR1", "SEGV", "USR2",
   "PIPE", "ALRM", "TERM", "STKFLT", "CHLD", "CONT", "STOP", "TSTP", "TTIN", "TTOU", "URG",
   "XCPU", "XFSZ", "VTALRM", "PROF", "WINCH", "IO", "PWR", "SYS"]

/-- The number of a signal that is given by number or name. -/
def signalOf (text : String) : Option Nat :=
  match integer? text with
  | some n => some n.toNat
  | none => (signalNames.findIdx? (· == text.toUpper)).map (· + 1)

/-- Signals that do not end the program that gets them. -/
def harmless : List Nat := [0, 17, 18, 23, 28]

/-- Signals that leave an image of the memory behind. -/
def dumping : List Nat := [3, 4, 5, 6, 7, 8, 11, 24, 25, 31]

/-- Signals whose effect on a program nobody hears about. -/
def unsaid : List Nat := [2, 13]

/-- A signal in words. -/
def words (signal : Nat) : String :=
  let text := ([(1, "Hangup"), (3, "Quit"), (4, "Illegal instruction"),
    (5, "Trace/breakpoint trap"), (6, "Aborted"), (7, "Bus error"),
    (8, "Floating point exception"), (9, "Killed"), (10, "User defined signal 1"),
    (11, "Segmentation fault"), (12, "User defined signal 2"), (14, "Alarm clock"),
    (15, "Terminated")].lookup signal).getD ("Unknown signal " ++ naturalText signal)
  if dumping.contains signal then text ++ " (core dumped)" else text

/-- Did the program succeed? -/
def success (e : Ending) : Bool := e == .code 0

/-- The status that a shell sees. -/
def status : Ending → Nat
  | .code n => n
  | .signal n => 128 + n

/-- The ending in words. -/
def message : Ending → String
  | .code n => "exit status: " ++ naturalText n
  | .signal n =>
    "signal: " ++ naturalText n ++ " (SIG" ++ (signalNames[n - 1]?).getD "" ++ ")" ++
      (if dumping.contains n then " (core dumped)" else "")

end Ending

/-! ## Starting -/

/-- Why a program cannot be started. -/
inductive StartError where
  | notFound
  | denied
  | badFormat
  deriving DecidableEq, Repr

/-- The reason in words. -/
def StartError.message : StartError → String
  | .notFound => "No such file or directory (os error 2)"
  | .denied => "Permission denied (os error 13)"
  | .badFormat => "Exec format error (os error 8)"

/-- A program that can be started. -/
inductive Executable where
  | tool (run : Tool)
  | shell
  /-- A file that the shell reads. -/
  | script (path text : String) (strict : Bool)

/-- The folders of the system. -/
def systemFolders : List String := ["/bin", "/usr/bin"]

/-- The program of the system with a name. -/
def systemExecutable? (name : String) : Option Executable :=
  if Tools.shells.contains name then some .shell
  else ((Tools.system ++ Filters.all).lookup name).map .tool

/-- The program of the system at an absolute path. -/
def absoluteExecutable? (path : String) : Option Executable :=
  let folder := (PathText.parent? path).getD ""
  if systemFolders.contains folder then (PathText.fileName? path).bind systemExecutable? else none

/-- The program that a first line with an interpreter makes of a file. -/
def interpreted (path text line : String) : Except StartError Executable :=
  let ws := (words (line.toList.drop 2)).map String.ofList
  let ws := if ws.head? == some "/usr/bin/env" then
      (ws[1]?.map (["/usr/bin/" ++ ·])).getD [] ++ ws.drop 2 else ws
  match ws with
  | [] => .error .badFormat
  | interpreter :: options =>
    match absoluteExecutable? interpreter with
    | some .shell => .ok (.script path text (options.head? == some "-e"))
    | some (.tool run) => .ok (.tool fun arguments => run (options ++ path :: arguments))
    | _ => .error .notFound

/-- The program that a file is. -/
def executableOf (path : String) : Entry → Except StartError Executable
  | .folder => .error .denied
  | .file _ false => .error .denied
  | .file (.bytes _) true => .error .badFormat
  | .file (.text text) true =>
    if text.startsWith "#!" then
      interpreted path text (String.ofList (text.toList.takeWhile (· != '\n')))
    else .error .badFormat

/-- The program at a path, seen from a folder. -/
def executableAt (s : State) (path : String) : Except StartError Executable :=
  match absoluteExecutable? path, s.entryOf path with
  | some e, _ => .ok e
  | none, .error _ => .error .notFound
  | none, .ok e => executableOf path e

/-- The search path of a shell. -/
def searchPath (s : State) : List String :=
  (((s.bindings.lookup "PATH").getD "/bin:/usr/bin").splitOn ":")

/-- The program of a name in folders that are tried one after another.  One that may not be
started is passed over, but remembered. -/
def searchIn (s : State) (name : String) (denied : Bool) :
    List String → Except StartError Executable
  | [] => .error (if denied then .denied else .notFound)
  | folder :: rest =>
    match executableAt s (if folder.isEmpty then name else joinPath folder name) with
    | .error .notFound => searchIn s name denied rest
    | .error .denied => searchIn s name true rest
    | found => found

/-- The program that a name or a path means. -/
def findExecutable (s : State) (name : String) : Except StartError Executable :=
  if name.isEmpty then .error .notFound
  else if name.contains '/' then executableAt s name
  else searchIn s name false (searchPath s)

end Shell

end SphereLab
