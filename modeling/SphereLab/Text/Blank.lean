/-!
# Blanks, words and lines

Texts are cut here, and nowhere else, into lines, words and trimmed pieces.  A blank is a
character with the Unicode property `White_Space`; a line ends at a line feed, and a
carriage return right before that line feed belongs to the ending.
-/

namespace SphereLab

/-! ## Blanks -/

/-- The property `White_Space`. -/
def isBlank (c : Char) : Bool :=
  let n := c.toNat
  (9 ≤ n && n ≤ 13) || n == 0x20 || n == 0x85 || n == 0xA0 || n == 0x1680 ||
    (0x2000 ≤ n && n ≤ 0x200A) || n == 0x2028 || n == 0x2029 || n == 0x202F ||
    n == 0x205F || n == 0x3000

/-- A text without the characters of a class at either end. -/
def trimWhere (p : Char → Bool) (cs : List Char) : List Char :=
  ((cs.dropWhile p).reverse.dropWhile p).reverse

/-- A text without blanks at either end. -/
def trimBlank (cs : List Char) : List Char := trimWhere isBlank cs

/-- The maximal runs of characters that are not blank. -/
def words : List Char → List (List Char)
  | [] => []
  | [c] => if isBlank c then [] else [[c]]
  | c :: d :: rest =>
    if isBlank c then words (d :: rest)
    else if isBlank d then [c] :: words (d :: rest)
    else
      match words (d :: rest) with
      | [] => [[c]]
      | w :: ws => (c :: w) :: ws

/-! ## Lines -/

/-- The pieces between separators; there is always at least one. -/
def splitAt (sep : Char) : List Char → List (List Char)
  | [] => [[]]
  | c :: rest =>
    if c = sep then [] :: splitAt sep rest
    else
      match splitAt sep rest with
      | [] => [[c]]
      | piece :: pieces => (c :: piece) :: pieces

theorem splitAt_ne_nil (sep : Char) (cs : List Char) : splitAt sep cs ≠ [] := by
  cases cs with
  | nil => simp [splitAt]
  | cons c rest =>
    rw [splitAt]
    split
    · simp
    · split <;> simp

/-- A line without the carriage return that belongs to its ending. -/
def dropReturn (line : List Char) : List Char :=
  match line.getLast? with
  | some '\r' => line.dropLast
  | _ => line

/-- The lines of a text.  What follows the last line feed is a line only if it is not
empty, and keeps a carriage return. -/
def lines (cs : List Char) : List (List Char) :=
  let pieces := splitAt '\n' cs
  let ended := pieces.dropLast.map dropReturn
  match pieces.getLast? with
  | some [] => ended
  | some last => ended ++ [last]
  | none => ended

/-- The part of a text before the first separator, and the part behind it if there is
one. -/
def splitFirst (sep : Char) (cs : List Char) : List Char × Option (List Char) :=
  match cs.dropWhile (· != sep) with
  | [] => (cs, none)
  | _ :: rest => (cs.takeWhile (· != sep), some rest)

/-- Pieces with a separator between neighbours. -/
def joinWith (sep : List Char) (pieces : List (List Char)) : List Char :=
  (pieces.intersperse sep).flatten

end SphereLab
