import SphereLab.Figure.Drawing
import SphereLab.FreeEnergy.Sweep
import SphereLab.Jobs.Grid
import SphereLab.PathText

/-!
# Outside programs

A session has work done that is not its own.  Three kinds of programs are called: the
simulation, which is waited for and has to succeed; the shell, which takes job lines and is only
asked to start; and the typesetter, which works in the folder of its document.  And figures are
rendered.

What a call does, to the directory and to what is printed, is for the called program to say, so
calls are a parameter, as the renderer is.  This module has what the session makes of their
outcomes.
-/

namespace SphereLab

/-! ## Consoles -/

/-- Where a text is printed. -/
inductive Stream where
  | out
  | err
  deriving DecidableEq, Repr

/-- What a session and the programs that it calls work on. -/
structure Console (σ : Type) where
  directory : Directory
  /-- Names and their values, the newest first. -/
  bindings : List (String × String)
  /-- What was printed, in order. -/
  printed : List (Stream × String)
  /-- Whatever else outside programs remember. -/
  memory : σ

namespace Console

variable {σ : Type}

/-- The text printed to a stream. -/
def textOn (c : Console σ) (stream : Stream) : String :=
  String.join ((c.printed.filter fun p => p.1 == stream).map (·.2))

/-- The console after a text has been printed. -/
def print (c : Console σ) (stream : Stream) (text : String) : Console σ :=
  { c with printed := c.printed ++ [(stream, text)] }

end Console

/-! ## Calls -/

/-- What comes of calling a program. -/
inductive Outcome where
  | succeeded
  /-- It ended without success, in the way described. -/
  | failed (status : String)
  /-- It could not be started, for a reason in words. -/
  | unstarted (reason : String)

/-- What a session has others do. -/
structure Outside (σ : Type) where
  /-- Call a program with arguments and wait for it; it works in the given folder, or else in the
  working folder. -/
  call : Option String → String → List String → Console σ → Outcome × Console σ
  render : Renderer

namespace Outside

variable {σ : Type} (o : Outside σ)

/-! ## The simulation -/

/-- The failure of a command line without a program. -/
def emptyCommand : Failure := .input "Empty simulator command line."

/-- The failure of a program that cannot be started. -/
def unstartable (program reason : String) : Failure :=
  .external ("Failed to start '" ++ program ++ "': " ++ reason)

/-- The failure of a program that does not succeed. -/
def unsuccessful (program status : String) : Failure :=
  .external ("'" ++ program ++ "' exited with " ++ status)

/-- Run a command line and wait for it. -/
def simulate (command : List String) (c : Console σ) : Option Failure × Console σ :=
  match command with
  | [] => (some emptyCommand, c)
  | program :: arguments =>
    match o.call none program arguments c with
    | (.unstarted reason, c) => (some (unstartable program reason), c)
    | (.failed status, c) => (some (unsuccessful program status), c)
    | (.succeeded, c) => (none, c)

/-- The simulator that runs outside programs. -/
def simulator : Simulator (Console σ) := fun command (c, d) =>
  let (failure, after) := o.simulate command { c with directory := d }
  (failure, after, after.directory)

/-! ## Job lines -/

/-- The failure of a shell that cannot be started. -/
def noShell (reason : String) : Failure := .external ("Failed to start `sh -c`: " ++ reason)

/-- The runner that hands lines to the shell.  It does not matter how the shell ends. -/
def runner : Runner (Console σ) := fun line c =>
  match o.call none "sh" ["-c", line] c with
  | (.unstarted reason, c) => (some (noShell reason), c)
  | (_, c) => (none, c)

/-! ## The typesetter -/

/-- The name of the typesetter. -/
def typesetter : String := "pdflatex"

/-- Typeset a document, in its folder. -/
def typeset (path : String) (c : Console σ) : Option Failure × Console σ :=
  let parent := (PathText.parent? path).getD ""
  match PathText.fileName? path with
  | none => (some (.input ("'" ++ path ++ "' has no file name")), c)
  | some name =>
    match o.call (if parent.isEmpty then "." else parent) typesetter [name] c with
    | (.unstarted reason, c) =>
      (some (.external ("Failed to start " ++ typesetter ++ ": " ++ reason)), c)
    | (.failed status, c) => (some (.external (typesetter ++ " exited with " ++ status)), c)
    | (.succeeded, c) => (none, c)

end Outside

end SphereLab
