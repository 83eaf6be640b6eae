import SphereLab.Shell.Command

/-!
# Tokens of a shell text

A shell text is cut into words, marks and redirections.  Blanks separate words, and so do the
marks themselves; a comment goes up to the end of its line.  A text that stands in the script
as input is taken out of the lines that follow and becomes the token after its redirection.

The last token is the end of the text.  If a quotation or a bracket is left open, it stands
where that begins, and says so.
-/

namespace SphereLab

namespace Shell

/-- What a token is. -/
inductive Lexeme where
  | word (value : Word)
  /-- A separator, an operator between commands, or a parenthesis. -/
  | mark (value : String)
  /-- A redirection, whose word follows. -/
  | redirection (stream : Nat) (direction : Direction)
  /-- The end of the text, or the place from which it cannot be read on. -/
  | ending (fault : Option SyntaxFault)
  deriving DecidableEq, Repr

/-- A token, with the number of its line. -/
structure Token where
  line : Nat
  lexeme : Lexeme
  deriving DecidableEq, Repr

/-! ## Characters -/

/-- Does a character end a word? -/
def endsWord (c : Char) : Bool := [' ', '\t', '\n', ';', '&', '|', '<', '>', '(', ')'].contains c

/-- Can a name go on with a character? -/
def isNameChar (c : Char) : Bool := c.isAlphanum || c == '_'

/-- Can a name begin with a character? -/
def startsName (c : Char) : Bool := c.isAlpha || c == '_'

/-- The quotation mark that leans backwards. -/
def backQuote : Char := Char.ofNat 96

/-! ## Brackets -/

/-- The text up to the bracket that closes, and what follows it; quoted brackets do not
count. -/
def balanced (opening closing : Char) (fault : SyntaxFault) :
    Nat → Option Char → List Char → Except SyntaxFault (List Char × List Char)
  | _, quote, [] => .error (if quote.isSome then .openQuote else fault)
  | depth, quote, '\\' :: c :: rest => do
    let (inside, rest) ← balanced opening closing fault depth quote rest
    return ('\\' :: c :: inside, rest)
  | depth, some q, c :: rest => do
    let (inside, rest) ←
      balanced opening closing fault depth (if c == q then none else some q) rest
    return (c :: inside, rest)
  | depth, none, c :: rest =>
    if c == closing && depth == 0 then .ok ([], rest)
    else do
      let depth := if c == closing then depth - 1 else if c == opening then depth + 1 else depth
      let quote := if c == '\'' || c == '"' then some c else none
      let (inside, rest) ← balanced opening closing fault depth quote rest
      return (c :: inside, rest)

/-! ## Parameters -/

/-- The ways in which the value of a parameter can be changed, longest first. -/
def changes : List String := [":-", ":=", ":+", ":?", "%%", "##", "-", "=", "+", "?", "%", "#"]

/-- The name that a parameter begins with: a special character, or a run of characters. -/
def parameterName (cs : List Char) : List Char :=
  match cs with
  | c :: _ => if isNameChar c then cs.takeWhile isNameChar else [c]
  | [] => []

/-- The piece of a parameter in braces. -/
def bracedParameter (inside : List Char) (quoted : Bool) : Piece :=
  match inside with
  | '#' :: c :: rest => .parameter (String.ofList (c :: rest)) "length" "" quoted
  | _ =>
    let name := parameterName inside
    let rest := inside.drop name.length
    match changes.find? fun change => change.toList.isPrefixOf rest with
    | some change =>
      .parameter (String.ofList name) change (String.ofList (rest.drop change.length)) quoted
    | none => .parameter (String.ofList name) (if rest.isEmpty then "" else "bad") "" quoted

/-- The piece behind a dollar sign, and what follows it. -/
def dollar (quoted : Bool) : List Char → Except SyntaxFault (Piece × List Char)
  | '(' :: '(' :: rest => do
    match ← balanced '(' ')' .openFormula 0 none rest with
    | (inside, ')' :: rest) => return (.arithmetic (String.ofList inside) quoted, rest)
    | _ => .error .openFormula
  | '(' :: rest => do
    let (inside, rest) ←
      balanced '(' ')' (.unexpected "end of file" (some "\")\"")) 0 none rest
    return (.output (String.ofList inside) quoted, rest)
  | '\x7b' :: rest => do
    let (inside, rest) ← balanced '\x7b' '\x7d' .openBrace 0 none rest
    return (bracedParameter inside quoted, rest)
  | c :: rest =>
    if startsName c then
      .ok (.parameter (String.ofList ((c :: rest).takeWhile isNameChar)) "" "" quoted,
        rest.dropWhile isNameChar)
    else if c.isDigit || ['@', '*', '#', '?', '$', '!', '-'].contains c then
      .ok (.parameter (String.singleton c) "" "" quoted, rest)
    else .ok (.text "$" quoted, c :: rest)
  | [] => .ok (.text "$" quoted, [])

/-- The script up to a mark that leans backwards, and what follows it.  A backslash before
such a mark, a dollar sign or another backslash is dropped. -/
def backScript (quoted : Bool) : List Char → Except SyntaxFault (List Char × List Char)
  | [] => .error .openBackQuote
  | '\\' :: c :: rest => do
    let (inside, rest) ← backScript quoted rest
    let bare := [backQuote, '$', '\\'].contains c || (quoted && c == '"')
    return (if bare then c :: inside else '\\' :: c :: inside, rest)
  | c :: rest =>
    if c == backQuote then .ok ([], rest)
    else do
      let (inside, rest) ← backScript quoted rest
      return (c :: inside, rest)

/-- The piece between two marks that lean backwards, and what follows it. -/
def backQuoted (quoted : Bool) (cs : List Char) : Except SyntaxFault (Piece × List Char) := do
  let (script, rest) ← backScript quoted cs
  return (.output (String.ofList script) quoted, rest)

/-! ## Words -/

/-- A word with a piece put in front; characters of one kind stay together. -/
def pushPiece (p : Piece) (w : Word) : Word :=
  match p, w with
  | .text a q, .text b r :: rest => if q == r then .text (a ++ b) q :: rest else p :: w
  | _, _ => p :: w

/-- A word with a character put in front. -/
def pushChar (c : Char) (quoted : Bool) (w : Word) : Word :=
  pushPiece (.text (String.singleton c) quoted) w

/-- The pieces up to the end of a quotation with parameters, and what follows it.  A text that
stands in the script ends where it ends, and its quotation marks are its own. -/
def quotedPieces (document : Bool) :
    Nat → List Char → Except SyntaxFault (Word × List Char)
  | 0, _ => .error .openQuote
  | _ + 1, [] => if document then .ok ([], []) else .error .openQuote
  | fuel + 1, '\\' :: c :: rest => do
    let (w, rest) ← quotedPieces document fuel rest
    if c == '\n' then return (w, rest)
    else if ['$', backQuote, '\\'].contains c || (c == '"' && !document) then
      return (pushChar c true w, rest)
    else return (pushPiece (.text (String.ofList ['\\', c]) true) w, rest)
  | fuel + 1, '$' :: rest => do
    let (p, rest) ← dollar true rest
    let (w, rest) ← quotedPieces document fuel rest
    return (pushPiece p w, rest)
  | fuel + 1, c :: rest => do
    if c == '"' && !document then return ([], rest)
    else if c == backQuote then
      let (p, rest) ← backQuoted true rest
      let (w, rest) ← quotedPieces document fuel rest
      return (pushPiece p w, rest)
    else
      let (w, rest) ← quotedPieces document fuel rest
      return (pushChar c true w, rest)

/-- The pieces of a word, and what follows it. -/
def wordPieces : Nat → List Char → Except SyntaxFault (Word × List Char)
  | 0, _ => .error .openQuote
  | _ + 1, [] => .ok ([], [])
  | fuel + 1, '\\' :: c :: rest => do
    let (w, rest) ← wordPieces fuel rest
    return (if c == '\n' then w else pushChar c true w, rest)
  | fuel + 1, '\'' :: rest => do
    match rest.dropWhile (· != '\'') with
    | [] => .error .openQuote
    | _ :: behind =>
      let (w, behind) ← wordPieces fuel behind
      return (pushPiece (.text (String.ofList (rest.takeWhile (· != '\''))) true) w, behind)
  | fuel + 1, '"' :: rest => do
    let (inside, rest) ← quotedPieces false fuel rest
    let (w, rest) ← wordPieces fuel rest
    return (if inside.isEmpty then pushPiece (.text "" true) w else inside.foldr pushPiece w, rest)
  | fuel + 1, '$' :: rest => do
    let (p, rest) ← dollar false rest
    let (w, rest) ← wordPieces fuel rest
    return (pushPiece p w, rest)
  | fuel + 1, c :: rest => do
    if endsWord c then return ([], c :: rest)
    else if c == backQuote then
      let (p, rest) ← backQuoted false rest
      let (w, rest) ← wordPieces fuel rest
      return (pushPiece p w, rest)
    else
      let (w, rest) ← wordPieces fuel rest
      return (pushChar c false w, rest)

/-! ## Texts that stand in the script -/

/-- The lines of a text up to a line that equals the end mark, and what follows that line. -/
def documentLines (strip : Bool) (ending : List Char) : Nat → List Char → List Char × List Char
  | 0, cs => ([], cs)
  | _ + 1, [] => ([], [])
  | fuel + 1, cs =>
    let line := cs.takeWhile (· != '\n')
    let behind := (cs.dropWhile (· != '\n')).drop 1
    let line := if strip then line.dropWhile (· == '\t') else line
    if line == ending then ([], behind)
    else
      let (body, rest) := documentLines strip ending fuel behind
      (line ++ '\n' :: body, rest)

/-- The text that an end mark announces, as a word, and the script without that text. -/
def document (strip : Bool) (fuel : Nat) (cs : List Char) :
    Except SyntaxFault (Word × List Char) := do
  let cs := cs.dropWhile fun c => c == ' ' || c == '\t'
  let mark := cs.takeWhile fun c => !endsWord c
  let behind := cs.dropWhile fun c => !endsWord c
  let isQuote (c : Char) : Bool := c == '\'' || c == '"' || c == '\\'
  let (body, rest) := documentLines strip (mark.filter fun c => !isQuote c) fuel
    ((behind.dropWhile (· != '\n')).drop 1)
  let rest := behind.takeWhile (· != '\n') ++ '\n' :: rest
  if mark.any isQuote then return ([.text (String.ofList body) true], rest)
  else
    let (w, _) ← quotedPieces true fuel body
    return (w, rest)

/-! ## Tokens -/

/-- The redirection that a text begins with, on the stream that stands before it. -/
def redirectionOf (stream : Option Nat) : List Char → Option (Nat × Direction × List Char)
  | '>' :: '>' :: rest => some (stream.getD 1, .append, rest)
  | '>' :: '&' :: rest => some (stream.getD 1, .follow, rest)
  | '>' :: '|' :: rest => some (stream.getD 1, .write, rest)
  | '>' :: rest => some (stream.getD 1, .write, rest)
  | '<' :: '&' :: rest => some (stream.getD 0, .follow, rest)
  | '<' :: rest => some (stream.getD 0, .read, rest)
  | _ => none

/-- The mark that a text begins with. -/
def markOf (cs : List Char) : Option String :=
  [";;", "&&", "||", ";", "&", "|", "(", ")", "\n"].find? fun m => m.toList.isPrefixOf cs

/-- The number of line feeds in a text. -/
def lineFeeds (cs : List Char) : Nat := cs.count '\n'

/-- The tokens of a text that starts at a line; `skipped` lines were taken out of it behind the
line. -/
def tokens : Nat → Nat → Nat → List Char → List Token
  | 0, line, _, _ => [⟨line, .ending none⟩]
  | _ + 1, line, _, [] => [⟨line, .ending none⟩]
  | fuel + 1, line, skipped, c :: rest =>
    if c == ' ' || c == '\t' then tokens fuel line skipped rest
    else if c == '#' then tokens fuel line skipped (rest.dropWhile (· != '\n'))
    else if c == '\\' && rest.head? == some '\n' then
      tokens fuel (line + 1) skipped (rest.drop 1)
    else
      let digit := if c.isDigit then some (c.toNat - 48) else none
      let behind := if digit.isSome then rest else c :: rest
      let broken (fault : SyntaxFault) : List Token :=
        [⟨line + lineFeeds rest, .ending (some fault)⟩]
      match behind with
      | '<' :: '<' :: tail =>
        let strip := tail.head? == some '-'
        match document strip fuel (if strip then tail.drop 1 else tail) with
        | .error fault => broken fault
        | .ok (body, rest) =>
          ⟨line, .redirection (digit.getD 0) .document⟩ :: ⟨line, .word body⟩ ::
            tokens fuel line (skipped + (lineFeeds tail - lineFeeds rest)) rest
      | _ =>
        match redirectionOf digit behind with
        | some (stream, direction, rest) =>
          ⟨line, .redirection stream direction⟩ :: tokens fuel line skipped rest
        | none =>
          match markOf (c :: rest) with
          | some "\n" => ⟨line, .mark "\n"⟩ :: tokens fuel (line + 1 + skipped) 0 rest
          | some m => ⟨line, .mark m⟩ :: tokens fuel line skipped ((c :: rest).drop m.length)
          | none =>
            match wordPieces fuel (c :: rest) with
            | .error fault => broken fault
            | .ok (w, behind) =>
              ⟨line, .word w⟩ ::
                tokens fuel (line + (lineFeeds rest - lineFeeds behind)) skipped behind

/-- The tokens of a shell text. -/
def tokensOf (text : String) : List Token := tokens (text.length + 2) 1 0 text.toList

end Shell

end SphereLab
