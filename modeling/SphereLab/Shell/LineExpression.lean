import SphereLab.Shell.Pattern

/-!
# Expressions for lines

The expressions by which tools find a part of a line: characters, a point for any of them and
brackets for one of a set, each possibly repeated, and marks for the two ends of the line.  Of
all parts that fit, the one that begins first counts, and of those the one that the repetitions
reach by taking as much as they can.
-/

namespace SphereLab

namespace Shell

/-- How often a member of an expression is repeated. -/
inductive Repetition where
  | once
  | anyTimes
  | someTimes
  | atMostOnce
  deriving DecidableEq, Repr

/-- An expression: members with their repetitions, and whether it has to reach the ends. -/
structure LineExpression where
  fromStart : Bool
  members : List (PatternItem × Repetition)
  toEnd : Bool

namespace LineExpression

/-! ## Reading -/

/-- The member that a text begins with, and what follows it. -/
def leadingMember : List Char → Option (PatternItem × List Char)
  | [] => none
  | '\\' :: c :: rest => some (.only c, rest)
  | '.' :: rest => some (.anyOne, rest)
  | '[' :: rest =>
    match rest.drop 1 |>.dropWhile (· != ']') with
    | [] => some (.only '[', rest)
    | _ :: behind =>
      let inside := rest.take (rest.length - behind.length - 1)
      some (bracketSet (inside.map fun c => (c, false)), behind)
  | c :: rest => some (.only c, rest)

/-- The repetition that a text begins with, and what follows it; the extended form of
expressions has two more. -/
def leadingRepetition (extended : Bool) : List Char → Repetition × List Char
  | '*' :: rest => (.anyTimes, rest)
  | '+' :: rest => if extended then (.someTimes, rest) else (.once, '+' :: rest)
  | '?' :: rest => if extended then (.atMostOnce, rest) else (.once, '?' :: rest)
  | '\\' :: '+' :: rest => (.someTimes, rest)
  | '\\' :: '?' :: rest => (.atMostOnce, rest)
  | cs => (.once, cs)

/-- The members of a text. -/
def membersOf (extended : Bool) : Nat → List Char → List (PatternItem × Repetition)
  | 0, _ => []
  | fuel + 1, cs =>
    match leadingMember cs with
    | none => []
    | some (item, rest) =>
      let (repetition, rest) := leadingRepetition extended rest
      (item, repetition) :: membersOf extended fuel rest

/-- The expression that a text is. -/
def parse (extended : Bool) (text : String) : LineExpression :=
  let cs := text.toList
  let fromStart := cs.head? == some '^'
  let cs := if fromStart then cs.tail else cs
  let toEnd := cs.getLast? == some '$' && cs.dropLast.getLast? != some '\\'
  let cs := if toEnd then cs.dropLast else cs
  ⟨fromStart, membersOf extended (cs.length + 1) cs, toEnd⟩

/-- The expression that a text is, where every character stands for itself. -/
def literal (text : String) : LineExpression :=
  ⟨false, text.toList.map fun c => (.only c, .once), false⟩

/-! ## Matching -/

/-- The number of characters at the beginning of a text that members fit. -/
def lengthOf (toEnd : Bool) : Nat → List (PatternItem × Repetition) → List Char → Option Nat
  | 0, _, _ => none
  | _ + 1, [], cs => if toEnd && !cs.isEmpty then none else some 0
  | fuel + 1, (item, repetition) :: rest, cs =>
    let taken (left : List (PatternItem × Repetition)) : Option Nat :=
      match cs with
      | c :: behind =>
        if fits [item] [c] then (lengthOf toEnd fuel left behind).map (· + 1) else none
      | [] => none
    match repetition with
    | .once => taken rest
    | .someTimes => taken ((item, .anyTimes) :: rest)
    | .atMostOnce => taken rest <|> lengthOf toEnd fuel rest cs
    | .anyTimes => taken ((item, .anyTimes) :: rest) <|> lengthOf toEnd fuel rest cs

/-- The number of characters at the beginning of a text that an expression fits. -/
def lengthAt (e : LineExpression) (cs : List Char) : Option Nat :=
  lengthOf e.toEnd (2 * (cs.length + e.members.length) + 2) e.members cs

/-- The first part of a text that an expression fits: where it begins, and its length. -/
def find (e : LineExpression) (cs : List Char) : Option (Nat × Nat) :=
  let starts := if e.fromStart then [0] else List.range (cs.length + 1)
  starts.findSome? fun start => (e.lengthAt (cs.drop start)).map fun n => (start, n)

/-- Does an expression fit a part of a line? -/
def occursIn (e : LineExpression) (line : List Char) : Bool := (e.find line).isSome

/-! ## Replacing -/

/-- A replacement, where an ampersand stands for the part that is replaced. -/
def fill (part : List Char) : List Char → List Char
  | '\\' :: 'n' :: rest => '\n' :: fill part rest
  | '\\' :: c :: rest => c :: fill part rest
  | '&' :: rest => part ++ fill part rest
  | c :: rest => c :: fill part rest
  | [] => []

/-- A line with the first part that fits replaced, or all of them from left to right. -/
def replace (e : LineExpression) (everywhere : Bool) (replacement : List Char) :
    Nat → List Char → List Char
  | 0, cs => cs
  | fuel + 1, cs =>
    match e.find cs with
    | none => cs
    | some (start, n) =>
      let put := cs.take start ++ fill ((cs.drop start).take n) replacement
      let behind := cs.drop (start + n)
      if !everywhere || e.fromStart then put ++ behind
      else if n = 0 then
        match behind with
        | [] => put
        | c :: behind => put ++ c :: replace e everywhere replacement fuel behind
      else if behind.isEmpty then put
      else put ++ replace e everywhere replacement fuel behind

end LineExpression

end Shell

end SphereLab
