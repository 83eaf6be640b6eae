import SphereLab.Scalar

/-!
# Thinning dense curves

`averageRuns` replaces runs of neighbouring points by their means, so that the points that
remain lie about a given distance apart along the curve.  A run starts at a point and goes on
up to the first point at least that far from its start; that point starts the next run.  The
last point of the curve only ends the last run.
-/

namespace SphereLab

variable {α : Type} [Scalar α]

/-- The mean of a list. -/
def mean (xs : List α) : α := Scalar.total xs / Scalar.ofNat xs.length

/-- The mean point of a run. -/
def meanPoint (run : List (α × α)) : α × α := (mean (run.map (·.1)), mean (run.map (·.2)))

/-- The distance of two points. -/
def distance (p q : α × α) : α := Scalar.hypot (p.1 - q.1) (p.2 - q.2)

/-- The runs of a curve, where `run` is the part of the present run behind its start. -/
def runsFrom (reach : α) (start : α × α) (run : List (α × α)) :
    List (α × α) → List (List (α × α))
  | [] => []
  | [_] => [start :: run]
  | p :: q :: rest =>
    if reach ≤ distance p start then (start :: run) :: runsFrom reach p [] (q :: rest)
    else runsFrom reach start (run ++ [p]) (q :: rest)

/-- The runs of a curve. -/
def runs (reach : α) : List (α × α) → List (List (α × α))
  | [] => []
  | p :: rest => runsFrom reach p [] rest

/-- A curve with its runs averaged. -/
def averageRuns (reach : α) (curve : List (α × α)) : List (α × α) :=
  (runs reach curve).map meanPoint

end SphereLab
