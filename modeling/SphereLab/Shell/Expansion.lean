import SphereLab.Shell.Arithmetic
import SphereLab.Shell.Pattern
import SphereLab.Shell.State

/-!
# Expanding words

When a command is carried out, its words become texts.  Parameters take their values, scripts
give what they print, and formulas are worked out.  What was not quoted is then cut at blanks,
and a field with pattern characters becomes the names of the files that it fits, if there are
any.

What a script prints is a parameter of all definitions here: a function from a script and a
state to a text and the state afterwards.
-/

namespace SphereLab

namespace Shell

/-- A member of an expanded word. -/
inductive Item where
  | glyph (value : Glyph)
  /-- The end of a field. -/
  | stop
  /-- A sign that there is a field, even without characters. -/
  | present

/-- What scripts print. -/
abbrev Printer := String → State → String × State

/-! ## Fields of a value -/

/-- The characters that separate fields. -/
def separators (s : State) : List Char := ((s.bindings.lookup "IFS").getD " \t\n").toList

/-- Is a separator one of the blanks, of which several count as one? -/
def isSoft (c : Char) : Bool := c == ' ' || c == '\t' || c == '\n'

/-- A value cut into fields: any run of soft separators ends a field, and so does a hard one
with the soft ones around it, which also ends a field without characters. -/
def cutValue (seps : List Char) : Nat → List Char → List Item
  | 0, _ => []
  | _ + 1, [] => []
  | fuel + 1, c :: rest =>
    let soft (d : Char) : Bool := seps.contains d && isSoft d
    let hard (d : Char) : Bool := seps.contains d && !isSoft d
    if soft c then
      let behind := rest.dropWhile soft
      if (behind.head?.map hard).getD false then cutValue seps fuel behind
      else .stop :: cutValue seps fuel behind
    else if hard c then .present :: .stop :: cutValue seps fuel (rest.dropWhile soft)
    else .glyph (c, false) :: cutValue seps fuel rest

/-- A value as members of a word: cut at separators, or not. -/
def itemsOfValue (seps : Option (List Char)) (quoted : Bool) (value : String) : List Item :=
  if quoted then .present :: value.toList.map fun c => .glyph (c, true)
  else
    match seps with
    | some seps => cutValue seps (value.length + 1) value.toList
    | none => value.toList.map fun c => .glyph (c, false)

/-- The arguments, each a field of its own. -/
def itemsOfArguments (seps : List Char) (quoted : Bool) (arguments : List String) : List Item :=
  (arguments.map (itemsOfValue (some seps) quoted)).intersperse [.stop] |>.flatten

/-! ## Values -/

/-- The characters of an expanded word. -/
def glyphsOf (items : List Item) : List Glyph :=
  items.filterMap fun
    | .glyph g => some g
    | .stop => some (' ', true)
    | .present => none

/-- The text of characters. -/
def textOfGlyphs (gs : List Glyph) : String := String.ofList (gs.map (·.1))

/-- The shortest or longest beginning of a text that fits a pattern is cut off. -/
def cutBeginning (longest : Bool) (p : List PatternItem) (cs : List Char) : List Char :=
  let lengths := List.range (cs.length + 1)
  match (if longest then lengths.reverse else lengths).find? fun n => fits p (cs.take n) with
  | some n => cs.drop n
  | none => cs

/-- The shortest or longest end of a text that fits a pattern is cut off. -/
def cutEnd (longest : Bool) (p : List PatternItem) (cs : List Char) : List Char :=
  let lengths := List.range (cs.length + 1)
  match (if longest then lengths else lengths.reverse).find? fun n => fits p (cs.drop n) with
  | some n => cs.take n
  | none => cs

/-- The value of a parameter after a change, and whether the parameter takes the operand as its
value. -/
def changed (change : String) (value : Option String) (operand : String)
    (p : List PatternItem) : String × Bool :=
  let text := value.getD ""
  let missing := if change.startsWith ":" then text.isEmpty else value.isNone
  match change with
  | ":-" | "-" => (if missing then operand else text, false)
  | ":=" | "=" => (if missing then operand else text, missing)
  | ":+" | "+" => (if missing then "" else operand, false)
  | ":?" | "?" => (text, false)
  | "length" => (naturalText text.length, false)
  | "%" => (String.ofList (cutEnd false p text.toList), false)
  | "%%" => (String.ofList (cutEnd true p text.toList), false)
  | "#" => (String.ofList (cutBeginning false p text.toList), false)
  | "##" => (String.ofList (cutBeginning true p text.toList), false)
  | _ => (text, false)

/-- Why the shell has to end, if a parameter may not be what it is. -/
def parameterFault (s : State) (name change operand : String) : Option String :=
  let value := s.valueOf name
  let missing := if change.startsWith ":" then (value.getD "").isEmpty else value.isNone
  if change == "bad" then some "Bad substitution"
  else if (change == ":?" || change == "?") && missing then
    some (name ++ ": " ++ if operand.isEmpty then "parameter not set" else operand)
  else if s.options.allSet && value.isNone && ["", "%", "%%", "#", "##", "length"].contains change
  then some (name ++ ": parameter not set")
  else none

/-- The state with a reason to end, unless there is one already. -/
def State.withFault (s : State) (fault : Option String) : State :=
  { s with fault := s.fault <|> fault }

/-! ## Words -/

/-- The members of a word, cut at separators or not, and the state afterwards. -/
def itemsOf (outputOf : Printer) (cut : Bool) : Nat → Word → State → List Item × State
  | 0, _, s => ([], s)
  | _ + 1, [], s => ([], s)
  | fuel + 1, piece :: rest, s =>
    let seps := if cut then some (separators s) else none
    let (items, s) : List Item × State :=
      match piece with
      | .text value quoted =>
        (if quoted then itemsOfValue none true value
          else value.toList.map fun c => .glyph (c, false), s)
      | .parameter "@" "" _ quoted =>
        (if cut then itemsOfArguments (separators s) quoted s.arguments
          else itemsOfValue none false (" ".intercalate s.arguments), s)
      | .parameter name change operand quoted =>
        let cs := operand.toList
        let (operandItems, s) :=
          match quotedPieces true (cs.length + 1) cs with
          | .ok (w, _) => itemsOf outputOf false fuel w s
          | .error _ => ([], s)
        let (patternItems, s) :=
          match wordPieces (cs.length + 1) cs with
          | .ok (w, _) => itemsOf outputOf false fuel w s
          | .error _ => ([], s)
        let plain := textOfGlyphs (glyphsOf operandItems)
        let s := s.withFault (parameterFault s name change plain)
        let (value, assigned) := changed change (s.valueOf name) plain
          (pattern (glyphsOf patternItems))
        (itemsOfValue seps quoted value, if assigned then s.setVariable name value else s)
      | .output script quoted =>
        let (text, s) := outputOf script s
        let bare := (text.toList.reverse.dropWhile (· == '\n')).reverse
        (itemsOfValue seps quoted (String.ofList bare), s)
      | .arithmetic formula quoted =>
        let (formulaItems, s) :=
          match quotedPieces true (formula.length + 1) formula.toList with
          | .ok (w, _) => itemsOf outputOf false fuel w s
          | .error _ => ([], s)
        match arithmeticText s.valueOf (textOfGlyphs (glyphsOf formulaItems)) with
        | .ok (value, set) =>
          (itemsOfValue seps quoted value, set.foldl (fun s v => s.setVariable v.1 v.2) s)
        | .error message => ([], s.withFault (some message))
    let (more, s) := itemsOf outputOf cut fuel rest s
    (items ++ more, s)

/-- How deep parameters may stand in operands of parameters, with the pieces of a word. -/
def expansionFuel (w : Word) : Nat := w.length + 64

/-- The text of a word that is not cut at blanks, with its quoted characters marked. -/
def expandGlyphs (outputOf : Printer) (w : Word) (s : State) : List Glyph × State :=
  let (items, s) := itemsOf outputOf false (expansionFuel w) w s
  (glyphsOf items, s)

/-- The text of a word that is not cut at blanks. -/
def expandText (outputOf : Printer) (w : Word) (s : State) : String × State :=
  let (gs, s) := expandGlyphs outputOf w s
  (textOfGlyphs gs, s)

/-! ## Fields -/

/-- The fields between stops; `current` is what has been read of one, if there is one. -/
def fieldsFrom (current : Option (List Glyph)) : List Item → List (List Glyph)
  | [] => current.toList
  | .stop :: rest => current.toList ++ fieldsFrom none rest
  | .present :: rest => fieldsFrom (some (current.getD [])) rest
  | .glyph g :: rest => fieldsFrom (some (current.getD [] ++ [g])) rest

/-- A field in pieces between slashes. -/
def fieldPieces (gs : List Glyph) : List (List Glyph) :=
  gs.foldr (fun g pieces =>
    match pieces with
    | first :: rest => if g.1 == '/' then [] :: first :: rest else (g :: first) :: rest
    | [] => [[g]]) [[]]

/-- The paths that pieces fit, seen from a place; `path` is what has been walked. -/
def pathsFrom (d : Directory) : Place → String → List (List Glyph) → List String
  | _, path, [] => [path]
  | place, path, piece :: rest =>
    let joined (name : String) := if path.isEmpty then name else path ++ "/" ++ name
    if isPattern piece then
      let hidden := piece.head?.map (·.1) == some '.'
      ((d.namesIn place).filter fun name =>
        (hidden || !name.startsWith ".") && fits (pattern piece) name.toList).flatMap
          fun name => pathsFrom d (place ++ [name]) (joined name) rest
    else
      let name := textOfGlyphs piece
      match d.walk place ([name].filter fun n => n != "" && n != ".") with
      | .ok next =>
        if (d.entryAt next).isSome || name.isEmpty then pathsFrom d next (joined name) rest else []
      | .error _ => []

/-- The texts of a field: the paths it fits, or itself. -/
def fieldTexts (s : State) (gs : List Glyph) : List String :=
  if isPattern gs then
    match pathsFrom s.directory s.folder "" (fieldPieces gs) with
    | [] => [textOfGlyphs gs]
    | paths => paths
  else [textOfGlyphs gs]

/-- The texts that words amount to, and the state afterwards. -/
def expandWords (outputOf : Printer) : List Word → State → List String × State
  | [], s => ([], s)
  | w :: rest, s =>
    let (items, s) := itemsOf outputOf true (expansionFuel w) w s
    let texts := (fieldsFrom none items).flatMap (fieldTexts s)
    let (more, s) := expandWords outputOf rest s
    (texts ++ more, s)

end Shell

end SphereLab
