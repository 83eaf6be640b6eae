/-!
# Patterns

A pattern is a text in which an asterisk stands for any characters, a question mark for one,
and brackets for one of a set.  A quoted character stands for itself.
-/

namespace SphereLab

namespace Shell

/-- A member of a pattern. -/
inductive PatternItem where
  | only (c : Char)
  | anyOne
  | anyMany
  /-- One of some ranges of characters, or none of them. -/
  | oneOf (negated : Bool) (ranges : List (Char × Char))
  deriving DecidableEq, Repr

/-- A character, and whether it was quoted. -/
abbrev Glyph := Char × Bool

/-- The ranges that characters between brackets describe. -/
def rangesOf : List Glyph → List (Char × Char)
  | (a, _) :: ('-', false) :: (b, _) :: rest => (a, b) :: rangesOf rest
  | (a, _) :: rest => (a, a) :: rangesOf rest
  | [] => []

/-- The set behind an opening bracket, if it is closed. -/
def bracketSet (inside : List Glyph) : PatternItem :=
  match inside with
  | ('!', false) :: rest => .oneOf true (rangesOf rest)
  | ('^', false) :: rest => .oneOf true (rangesOf rest)
  | _ => .oneOf false (rangesOf inside)

/-- The members of a pattern. -/
def patternOf : Nat → List Glyph → List PatternItem
  | 0, _ => []
  | _ + 1, [] => []
  | fuel + 1, (c, quoted) :: rest =>
    if quoted then .only c :: patternOf fuel rest
    else if c == '*' then .anyMany :: patternOf fuel rest
    else if c == '?' then .anyOne :: patternOf fuel rest
    else if c == '[' then
      match rest.dropWhile (· != (']', false)) with
      | _ :: behind =>
        bracketSet (rest.takeWhile (· != (']', false))) :: patternOf fuel behind
      | [] => .only c :: patternOf fuel rest
    else .only c :: patternOf fuel rest

/-- The pattern of quoted and unquoted characters. -/
def pattern (gs : List Glyph) : List PatternItem := patternOf (gs.length + 1) gs

/-- Does a pattern fit a text as a whole? -/
def fits : List PatternItem → List Char → Bool
  | [], cs => cs.isEmpty
  | .anyMany :: ps, [] => fits ps []
  | .anyMany :: ps, c :: cs => fits ps (c :: cs) || fits (.anyMany :: ps) cs
  | .only a :: ps, c :: cs => a == c && fits ps cs
  | .anyOne :: ps, _ :: cs => fits ps cs
  | .oneOf negated ranges :: ps, c :: cs =>
    (ranges.any fun (a, b) => a ≤ c && c ≤ b) != negated && fits ps cs
  | _ :: _, [] => false
termination_by ps cs => ps.length + cs.length

/-- Does a text ask for names of files, in some unquoted character? -/
def isPattern (gs : List Glyph) : Bool :=
  gs.any fun (c, quoted) => !quoted && (c == '*' || c == '?' || c == '[')

end Shell

end SphereLab
