/-!
# Shell commands

Job lines and the programs that stand in for a simulation are written for the shell.  Here is
what such a text says: words made of pieces, and commands made of words.  What a piece of a
word amounts to is known only when the command is carried out, so a piece keeps its text.
-/

namespace SphereLab

namespace Shell

/-- A piece of a word. -/
inductive Piece where
  /-- Characters that stand for themselves. -/
  | text (value : String) (quoted : Bool)
  /-- The value of a parameter, changed in a way that may need an operand. -/
  | parameter (name change operand : String) (quoted : Bool)
  /-- What a script prints. -/
  | output (script : String) (quoted : Bool)
  /-- The value of an arithmetic formula. -/
  | arithmetic (formula : String) (quoted : Bool)
  deriving DecidableEq, Repr

/-- A word. -/
abbrev Word := List Piece

/-! ## Faults -/

/-- What is wrong with a shell text. -/
inductive SyntaxFault where
  | openQuote
  | openBackQuote
  | openBrace
  | openFormula
  | loopVariable
  | functionName
  /-- A token in a place where it cannot stand, and the token that could. -/
  | unexpected (found : String) (wanted : Option String)
  deriving DecidableEq, Repr

/-- The fault in words. -/
def SyntaxFault.message : SyntaxFault → String
  | .openQuote => "Unterminated quoted string"
  | .openBackQuote => "EOF in backquote substitution"
  | .openBrace => "Missing '\x7d'"
  | .openFormula => "Missing '))'"
  | .loopVariable => "Bad for loop variable"
  | .functionName => "Bad function name"
  | .unexpected found none => found ++ " unexpected"
  | .unexpected found (some wanted) => found ++ " unexpected (expecting " ++ wanted ++ ")"

/-! ## Words and commands -/

/-- A word that stands for itself, without quotes. -/
def plainWord? : Word → Option String
  | [.text value false] => some value
  | _ => none

/-- What a redirection does with a stream. -/
inductive Direction where
  /-- Write to a file that starts out empty. -/
  | write
  /-- Write behind what is in a file. -/
  | append
  /-- Read from a file. -/
  | read
  /-- Go where another stream goes. -/
  | follow
  /-- Read a text that stands in the script. -/
  | document
  deriving DecidableEq, Repr

/-- A redirection of a numbered stream. -/
structure Redirection where
  stream : Nat
  direction : Direction
  target : Word
  deriving DecidableEq, Repr

/-- A command. -/
inductive Command where
  /-- Nothing at all. -/
  | skip
  /-- Assignments, then a program with its arguments; the line counts from one. -/
  | simple (line : Nat) (assignments : List (String × Word)) (words : List Word)
      (redirections : List Redirection)
  | redirected (body : Command) (line : Nat) (redirections : List Redirection)
  /-- The second command reads what the first one prints. -/
  | pipe (first second : Command)
  /-- Success and failure exchanged. -/
  | negated (body : Command)
  /-- The second command only if the first succeeds. -/
  | both (first second : Command)
  /-- The second command only if the first fails. -/
  | either (first second : Command)
  | sequence (first second : Command)
  /-- A command that nobody waits for. -/
  | background (body : Command)
  /-- A command whose variables and folder are its own. -/
  | subshell (body : Command)
  | conditional (test yes no : Command)
  /-- A body repeated while the test has the wanted outcome. -/
  | loop (wanted : Bool) (test body : Command)
  /-- A body for each of some words. -/
  | each (name : String) (words : List Word) (body : Command)
  /-- The first command one of whose patterns fits a word. -/
  | choice (subject : Word) (arms : List (List Word × Command))
  /-- A name for a command, which is then called like a program. -/
  | define (name : String) (body : Command)

end Shell

end SphereLab
