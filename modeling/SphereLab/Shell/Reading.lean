import SphereLab.Shell.Token

/-!
# Reading shell texts

Tokens are read into a command by descending through the grammar: a list of pipelines joined
by `&&` and `||`, a pipeline of commands, and a command that is a compound or a program with
its arguments.

A text is read line by line, where a compound that is left open goes on over the lines that
follow.  The lines before one that cannot be read are commands all the same, so that a `Script`
is a list of commands, with a fault at its end or none.
-/

namespace SphereLab

namespace Shell

/-! ## Tokens in their places -/

/-- A fault on a line. -/
abbrev Misreading := Nat × SyntaxFault

/-- The words that belong to the grammar where a command begins. -/
def reserved : List String :=
  ["!", "case", "do", "done", "elif", "else", "esac", "fi", "for", "if", "in", "then", "until",
   "while", "\x7b", "\x7d"]

/-- The words that no command begins with. -/
def closing : List String := ["then", "do", "done", "fi", "esac", "else", "elif", "\x7d"]

/-- A text between quotation marks. -/
def marked (text : String) : String := "\"" ++ text ++ "\""

/-- A token as a message shows it; a reserved word counts as one where a command begins. -/
def Lexeme.describe (starting : Bool) : Lexeme → String
  | .word w =>
    match plainWord? w with
    | some k => if starting && reserved.contains k then marked k else "word"
    | none => "word"
  | .mark "\n" => "newline"
  | .mark m => marked m
  | .redirection _ _ => "redirection"
  | .ending _ => "end of file"

/-- The fault of tokens that begin with one that cannot stand here. -/
def misplaced (starting : Bool) (wanted : Option String) : List Token → Misreading
  | ⟨line, .ending (some fault)⟩ :: _ => (line, fault)
  | ⟨line, lexeme⟩ :: _ => (line, .unexpected (lexeme.describe starting) wanted)
  | [] => (1, .unexpected "end of file" wanted)

/-- The fault of tokens where a command should begin. -/
def noCommand (ts : List Token) : Misreading := misplaced true none ts

/-- The word at the beginning, if it stands for itself. -/
def keyword? : List Token → Option String
  | ⟨_, .word w⟩ :: _ => plainWord? w
  | _ => none

/-- The mark at the beginning. -/
def mark? : List Token → Option String
  | ⟨_, .mark m⟩ :: _ => some m
  | _ => none

/-- Is this the end of the text? -/
def isEnd : List Token → Bool
  | ⟨_, .ending _⟩ :: _ => true
  | [] => true
  | _ => false

/-- Does a list of commands end here? -/
def endsList (ts : List Token) : Bool :=
  isEnd ts || [some ")", some ";;"].contains (mark? ts) ||
    ((keyword? ts).map closing.contains).getD false

/-- The tokens behind line breaks. -/
def afterBreaks : List Token → List Token
  | ⟨_, .mark "\n"⟩ :: rest => afterBreaks rest
  | ts => ts

/-- The tokens behind an expected word. -/
def expect (k : String) (ts : List Token) : Except Misreading (List Token) :=
  let ts := afterBreaks ts
  if keyword? ts == some k then .ok ts.tail else .error (misplaced true (some (marked k)) ts)

/-- The tokens behind an expected mark. -/
def expectMark (m : String) (ts : List Token) : Except Misreading (List Token) :=
  if mark? ts == some m then .ok ts.tail else .error (misplaced false (some (marked m)) ts)

/-- The line that tokens stand on. -/
def lineOf (ts : List Token) : Nat := (ts.head?.map (·.line)).getD 1

/-! ## Program calls -/

/-- A name and a value, if a word is an assignment. -/
def assignment? : Word → Option (String × Word)
  | .text value false :: rest =>
    let name := value.toList.takeWhile isNameChar
    match value.toList.drop name.length with
    | '=' :: behind =>
      if (name.head?.map startsName).getD false then
        let first := if behind.isEmpty then [] else [.text (String.ofList behind) false]
        some (String.ofList name, first ++ rest)
      else none
    | _ => none
  | _ => none

/-- The redirections at the beginning, and what follows them. -/
def redirections : List Token → Except Misreading (List Redirection × List Token)
  | ⟨_, .redirection stream direction⟩ :: ⟨_, .word target⟩ :: rest => do
    let (more, rest) ← redirections rest
    return (⟨stream, direction, target⟩ :: more, rest)
  | ⟨_, .redirection _ _⟩ :: rest => .error (misplaced false none rest)
  | ts => .ok ([], ts)

/-- The parts of a program call, and what follows it. -/
def callParts : List Token → Except Misreading (List Word × List Redirection × List Token)
  | ⟨_, .redirection stream direction⟩ :: ⟨_, .word target⟩ :: rest => do
    let (words, more, rest) ← callParts rest
    return (words, ⟨stream, direction, target⟩ :: more, rest)
  | ⟨_, .redirection _ _⟩ :: rest => .error (misplaced false none rest)
  | ⟨_, .word w⟩ :: rest => do
    let (words, more, rest) ← callParts rest
    return (w :: words, more, rest)
  | ts => .ok ([], [], ts)

/-- The assignments at the beginning of words, and the words behind them. -/
def splitAssignments : List Word → List (String × Word) × List Word
  | w :: rest =>
    match assignment? w with
    | some a =>
      let (more, rest) := splitAssignments rest
      (a :: more, rest)
    | none => ([], w :: rest)
  | [] => ([], [])

/-- A program call, and what follows it. -/
def simpleCommand (ts : List Token) : Except Misreading (Command × List Token) := do
  let (words, rs, rest) ← callParts ts
  if words.isEmpty && rs.isEmpty then .error (noCommand ts)
  else
    let (assignments, words) := splitAssignments words
    return (.simple (lineOf ts) assignments words rs, rest)

/-- The name that a definition begins with, if tokens begin with one. -/
def definedName? : List Token → Option Word
  | ⟨_, .word w⟩ :: ⟨_, .mark "("⟩ :: _ => if (assignment? w).isSome then none else some w
  | _ => none

/-- Is a word a name? -/
def name? (w : Word) : Option String :=
  (plainWord? w).filter fun s =>
    (s.toList.head?.map startsName).getD false && s.toList.all isNameChar

/-! ## Parts of compounds -/

/-- The patterns of an arm, up to its parenthesis. -/
def armPatterns : List Token → Except Misreading (List Word × List Token)
  | ⟨_, .word w⟩ :: ⟨_, .mark ")"⟩ :: rest => .ok ([w], rest)
  | ⟨_, .word w⟩ :: ⟨_, .mark "|"⟩ :: rest => do
    let (ws, rest) ← armPatterns rest
    return (w :: ws, rest)
  | ⟨_, .word _⟩ :: rest => .error (misplaced false (some (marked ")")) rest)
  | ts => .error (misplaced false (some (marked ")")) ts)

/-- The words of a loop over words, and what follows their end. -/
def loopWords : List Token → List Word × List Token
  | ⟨_, .word w⟩ :: rest =>
    let (ws, rest) := loopWords rest
    (w :: ws, rest)
  | ts => ([], ts)

/-- What a loop runs over, and what follows it: the words that are listed, or the arguments. -/
def loopSource (ts : List Token) : Except Misreading (List Word × List Token) :=
  let behind := afterBreaks ts
  if keyword? behind == some "in" then
    let (words, rest) := loopWords behind.tail
    if [some ";", some "\n"].contains (mark? rest) then .ok (words, rest.tail)
    else .error (misplaced false none rest)
  else .ok ([[.parameter "@" "" "" true]], if mark? ts == some ";" then ts.tail else ts)

/-- The tokens behind the word that ends a choice. -/
def expectEnd (ts : List Token) : Except Misreading (List Token) :=
  if keyword? ts == some "esac" then .ok ts.tail
  else .error (misplaced true (some (marked ";;")) ts)

/-! ## The grammar -/

mutual

/-- A list of commands, and what follows it; it may be empty only if that is said. -/
def readList (mayBeEmpty : Bool) : Nat → List Token → Except Misreading (Command × List Token)
  | 0, ts => .error (noCommand ts)
  | fuel + 1, ts =>
    let ts := afterBreaks ts
    if endsList ts && (mayBeEmpty || isEnd ts) then .ok (.skip, ts)
    else do
      let (first, ts) ← readChain fuel ts
      match mark? ts with
      | some "&" =>
        let (more, rest) ← readList true fuel ts.tail
        return (.sequence (.background first) more, rest)
      | some ";" | some "\n" =>
        let (more, rest) ← readList true fuel ts.tail
        return (.sequence first more, rest)
      | _ => return (first, ts)

/-- Pipelines joined by `&&` and `||`. -/
def readChain : Nat → List Token → Except Misreading (Command × List Token)
  | 0, ts => .error (noCommand ts)
  | fuel + 1, ts => do
    let (first, ts) ← readPipeline fuel ts
    continueChain fuel first ts

/-- What a chain goes on with. -/
def continueChain : Nat → Command → List Token → Except Misreading (Command × List Token)
  | 0, _, ts => .error (noCommand ts)
  | fuel + 1, first, ts =>
    match mark? ts with
    | some "&&" => do
      let (second, ts) ← readPipeline fuel (afterBreaks ts.tail)
      continueChain fuel (.both first second) ts
    | some "||" => do
      let (second, ts) ← readPipeline fuel (afterBreaks ts.tail)
      continueChain fuel (.either first second) ts
    | _ => .ok (first, ts)

/-- Commands of which each reads what the one before prints. -/
def readPipeline : Nat → List Token → Except Misreading (Command × List Token)
  | 0, ts => .error (noCommand ts)
  | fuel + 1, ts => do
    if keyword? ts == some "!" then
      let (body, ts) ← readPipeline fuel ts.tail
      return (.negated body, ts)
    let (first, ts) ← readCommand fuel ts
    if mark? ts == some "|" then
      let (second, ts) ← readPipeline fuel (afterBreaks ts.tail)
      return (.pipe first second, ts)
    return (first, ts)

/-- One command with its redirections. -/
def readCommand : Nat → List Token → Except Misreading (Command × List Token)
  | 0, ts => .error (noCommand ts)
  | fuel + 1, ts => do
    match ← readCompound fuel ts with
    | some (body, rest) =>
      let (rs, rest) ← redirections rest
      return (if rs.isEmpty then body else .redirected body (lineOf ts) rs, rest)
    | none =>
      match definedName? ts with
      | some w =>
        let rest ← expectMark ")" (ts.drop 2)
        match name? w with
        | none => .error (lineOf ts, .functionName)
        | some name =>
          let (body, rest) ← readCommand fuel (afterBreaks rest)
          return (.define name body, rest)
      | none => simpleCommand ts

/-- A compound command, if there is one. -/
def readCompound : Nat → List Token → Except Misreading (Option (Command × List Token))
  | 0, ts => .error (noCommand ts)
  | fuel + 1, ts => do
    if mark? ts == some "(" then
      let (body, rest) ← readList false fuel ts.tail
      return some (.subshell body, ← expectMark ")" rest)
    let rest := ts.tail
    match keyword? ts with
    | some "\x7b" =>
      let (body, rest) ← readList false fuel rest
      return some (body, ← expect "\x7d" rest)
    | some "if" =>
      let (command, rest) ← readConditional fuel rest
      return some (command, rest)
    | some "while" | some "until" =>
      let (test, rest) ← readList false fuel rest
      let (body, rest) ← readList false fuel (← expect "do" rest)
      return some (.loop (keyword? ts == some "while") test body, ← expect "done" rest)
    | some "for" =>
      match rest with
      | ⟨line, .word w⟩ :: behind =>
        match name? w with
        | none => .error (line, .loopVariable)
        | some name =>
          let (words, behind) ← loopSource behind
          let (body, rest) ← readList false fuel (← expect "do" behind)
          return some (.each name words body, ← expect "done" rest)
      | _ => .error (lineOf rest, .loopVariable)
    | some "case" =>
      match rest with
      | ⟨_, .word subject⟩ :: rest =>
        let (arms, rest) ← readArms fuel (← expect "in" rest)
        return some (.choice subject arms, rest)
      | _ => .error (misplaced false (some "word") rest)
    | some k => if closing.contains k then .error (noCommand ts) else return none
    | none => return none

/-- What stands between `if` and `fi`. -/
def readConditional : Nat → List Token → Except Misreading (Command × List Token)
  | 0, ts => .error (noCommand ts)
  | fuel + 1, ts => do
    let (test, ts) ← readList false fuel ts
    let (yes, ts) ← readList false fuel (← expect "then" ts)
    match keyword? ts with
    | some "elif" =>
      let (no, ts) ← readConditional fuel ts.tail
      return (.conditional test yes no, ts)
    | some "else" =>
      let (no, ts) ← readList false fuel ts.tail
      return (.conditional test yes no, ← expect "fi" ts)
    | _ => return (.conditional test yes .skip, ← expect "fi" ts)

/-- The arms of a choice, up to its end. -/
def readArms : Nat → List Token → Except Misreading (List (List Word × Command) × List Token)
  | 0, ts => .error (noCommand ts)
  | fuel + 1, ts => do
    let ts := afterBreaks ts
    if keyword? ts == some "esac" then return ([], ts.tail)
    let (patterns, ts) ← armPatterns (if mark? ts == some "(" then ts.tail else ts)
    let (body, ts) ← readList true fuel ts
    let ts := afterBreaks ts
    if mark? ts == some ";;" then
      let (arms, ts) ← readArms fuel ts.tail
      return ((patterns, body) :: arms, ts)
    else
      let rest ← expectEnd ts
      return ([(patterns, body)], rest)

end

/-! ## Scripts -/

/-- A shell text that was read: the commands line by line, up to the end or to a fault. -/
structure Script where
  commands : List Command
  fault : Option Misreading

/-- A line of commands, and what follows it. -/
def readLine : Nat → List Token → Except Misreading (Command × List Token)
  | 0, ts => .error (noCommand ts)
  | fuel + 1, ts => do
    let (first, ts) ← readChain fuel ts
    match mark? ts with
    | some "\n" => return (first, ts.tail)
    | some "&" => continueLine fuel (.background first) ts.tail
    | some ";" => continueLine fuel first ts.tail
    | _ => if isEnd ts then continueLine fuel first ts else .error (noCommand ts)
where
  /-- What a line goes on with behind a command. -/
  continueLine (fuel : Nat) (first : Command) (ts : List Token) :
      Except Misreading (Command × List Token) :=
    match ts with
    | ⟨_, .mark "\n"⟩ :: rest => .ok (first, rest)
    | ⟨_, .ending none⟩ :: _ | [] => .ok (first, ts)
    | ⟨line, .ending (some fault)⟩ :: _ => .error (line, fault)
    | _ => do
      let (more, rest) ← readLine fuel ts
      return (.sequence first more, rest)

/-- The script that tokens are, with at most so many lines. -/
def scriptFrom (fuel : Nat) : Nat → List Token → Script
  | 0, _ => ⟨[], none⟩
  | left + 1, ts =>
    match afterBreaks ts with
    | ⟨_, .ending none⟩ :: _ | [] => ⟨[], none⟩
    | ts =>
      match readLine fuel ts with
      | .error e => ⟨[], some e⟩
      | .ok (command, rest) =>
        let script := scriptFrom fuel left rest
        ⟨command :: script.commands, script.fault⟩

/-- The script that a text is. -/
def scriptOf (text : String) : Script :=
  let ts := tokensOf text
  scriptFrom (8 * ts.length + 8) (ts.length + 1) ts

end Shell

end SphereLab
