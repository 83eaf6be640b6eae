/-!
# Linear least squares on doubles

`solveLinear` finds the vector that minimises the distance between a matrix applied to it
and a given right-hand side; among several it takes the shortest.

The columns of the matrix are made orthogonal by plane rotations (the one-sided Jacobi
method), and the same rotations are recorded.  The rotated columns then are the left
singular vectors scaled by the singular values, so the solution is a sum over the columns
that are not negligible.  A singular value up to the tolerance counts as zero.
-/

namespace SphereLab

namespace LinearSystem

/-! ## Columns -/

/-- The inner product of two columns. -/
def dot (a b : FloatArray) : Float :=
  Nat.fold a.size (fun i h acc => acc + a[i] * (if hb : i < b.size then b[i] else 0)) 0.0

/-- The combination `p · a + q · b` of two columns. -/
def combine (p q : Float) (a b : FloatArray) : FloatArray :=
  Nat.fold a.size
    (fun i h acc => acc.push (p * a[i] + q * (if hb : i < b.size then b[i] else 0)))
    (FloatArray.emptyWithCapacity a.size)

/-- A column from its entries. -/
def columnOf (xs : List Float) : FloatArray :=
  xs.foldl FloatArray.push (FloatArray.emptyWithCapacity xs.length)

/-! ## Rotations -/

/-- Columns of the matrix on the way to being orthogonal, and the product of the rotations
so far, column by column. -/
structure Rotated where
  columns : Array FloatArray
  rotation : Array FloatArray

/-- Make two columns orthogonal; the flag says whether they were not, to working
precision. -/
def rotatePair (i j : Nat) (s : Rotated) (moved : Bool) : Rotated × Bool :=
  match s.columns[i]?, s.columns[j]?, s.rotation[i]?, s.rotation[j]? with
  | some a, some b, some v, some w =>
    let aa := dot a a
    let bb := dot b b
    let ab := dot a b
    if ab.abs ≤ 1e-17 * (aa * bb).sqrt || ab == 0 then (s, moved)
    else
      let tau := (bb - aa) / (2.0 * ab)
      let t := (if tau < 0 then -1.0 else 1.0) / (tau.abs + (1.0 + tau * tau).sqrt)
      let c := 1.0 / (1.0 + t * t).sqrt
      let r := c * t
      ({ columns := (s.columns.setIfInBounds i (combine c (-r) a b)).setIfInBounds j
            (combine r c a b)
         rotation := (s.rotation.setIfInBounds i (combine c (-r) v w)).setIfInBounds j
            (combine r c v w) },
       moved || 1e-15 * (aa * bb).sqrt < ab.abs)
  | _, _, _, _ => (s, moved)

/-- Visit every pair of columns once. -/
def rotateAll (s : Rotated) : Rotated × Bool :=
  let p := s.columns.size
  Nat.fold p (fun i _ acc =>
    Nat.fold (p - i - 1) (fun k _ acc => rotatePair i (i + 1 + k) acc.1 acc.2) acc) (s, false)

/-- Visit all pairs until no pair moves any more, at most `fuel` times. -/
def orthogonalise (s : Rotated) : Nat → Rotated
  | 0 => s
  | fuel + 1 =>
    let (next, moved) := rotateAll s
    if moved then orthogonalise next fuel else next

/-- The unit columns of size `p`. -/
def unitColumns (p : Nat) : Array FloatArray :=
  ((List.range p).map fun j =>
    columnOf ((List.range p).map fun i => if i = j then 1.0 else 0.0)).toArray

/-- The transposed rows of a matrix, as columns of a given number. -/
def columnsOf (p : Nat) (rows : List (List Float)) : Array FloatArray :=
  ((List.range p).map fun j => columnOf (rows.map fun row => row.getD j 0.0)).toArray

/-! ## Solutions -/

/-- The shortest minimiser, with singular values up to `tolerance` taken as zero. -/
def solutionAt (tolerance : Float) (s : Rotated) (rhs : FloatArray) : List Float :=
  let p := s.columns.size
  let zero := combine 0.0 0.0 (columnOf (List.replicate p 0.0)) (columnOf [])
  let sum := (s.columns.zip s.rotation).foldl (fun acc (column, direction) =>
    let sigma := (dot column column).sqrt
    if tolerance < sigma then
      combine 1.0 (dot column rhs / dot column column) acc direction
    else acc) zero
  sum.data.toList

end LinearSystem

open LinearSystem in
/-- The shortest vector that brings the matrix with the given rows closest to the right-hand
side.  Looser tolerances are tried only if the strictest gives a vector that is not finite;
with none there is no solution. -/
def solveLinear (rows : List (List Float)) (rhs : List Float) : Option (List Float) :=
  let p := (rows.head?.map List.length).getD 0
  if rows.all (·.all Float.isFinite) then
    let s := orthogonalise ⟨columnsOf p rows, unitColumns p⟩ 80
    let column := columnOf rhs
    [1e-10, 1e-8, 1e-6].findSome? fun tolerance =>
      let solution := solutionAt tolerance s column
      if solution.all Float.isFinite then some solution else none
  else none

end SphereLab
