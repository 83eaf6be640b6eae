import SphereLab.Text.Blank

/-!
# Texts of paths

The parts of a path as a text: its last name, that name without an extension, and what stands
before the last name.  Repeated slashes and single-dot pieces do not name anything, except for
a dot that a path begins with.
-/

namespace SphereLab

namespace PathText

/-- The pieces of a path between slashes. -/
def segments (path : String) : List String := (splitAt '/' path.toList).map String.ofList

/-- Does the piece at a position name something?  Only at the very beginning does a dot. -/
def names (position : Nat) (piece : String) : Bool :=
  piece != "" && (piece != "." || position == 0)

/-- The position of the last piece that names something. -/
def lastName? (pieces : List String) : Option Nat :=
  ((pieces.mapIdx fun i p => (i, p)).filter fun (i, p) => names i p).getLast?.map (·.1)

/-- The last name of a path, unless it is a dot or two. -/
def fileName? (path : String) : Option String :=
  let pieces := segments path
  match (lastName? pieces).bind (pieces[·]?) with
  | some name => if name = "." || name = ".." then none else some name
  | none => none

/-- A name without its extension: what stands before its last dot, unless that is nothing. -/
def withoutExtension (name : String) : String :=
  let backwards := name.toList.reverse
  match backwards.dropWhile (· != '.') with
  | [] => name
  | _ :: before => if before.isEmpty then name else String.ofList before.reverse

/-- The last name of a path, without its extension. -/
def stem? (path : String) : Option String := (fileName? path).map withoutExtension

/-- What stands before the last name of a path; a path that names nothing has no parent, and
the parent of a single name is empty. -/
def parent? (path : String) : Option String :=
  let pieces := segments path
  match lastName? pieces with
  | none => none
  | some k =>
    match lastName? (pieces.take k) with
    | some j => some ("/".intercalate (pieces.take (j + 1)))
    | none => some (if path.startsWith "/" then "/" else "")

end PathText

/-- A path seen from another one: an absolute path stands for itself. -/
def joinPath (base path : String) : String :=
  if path.startsWith "/" then path
  else if base.isEmpty || base.endsWith "/" then base ++ path
  else base ++ "/" ++ path

end SphereLab
