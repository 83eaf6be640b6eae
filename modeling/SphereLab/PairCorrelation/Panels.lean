import SphereLab.Decimal.Style
import SphereLab.Figure.Basic

/-!
# Stacked panels

Several curves of one kind are shown above each other, each in a panel with a window of its
own.  The panels are stacked from the bottom up without gaps: the bottom of each is the top of
the one below it, and the lowest begins at zero.  A panel may be collapsed to an empty window,
so that the others get more room.
-/

namespace SphereLab

variable {α : Type} [Scalar α]

/-- A panel: what is added to its values to place it, and its window of values. -/
structure Panel (α : Type) where
  offset : α
  low : α
  high : α

namespace Panel

/-- The height at which a panel begins. -/
def bottom (p : Panel α) : α := p.offset + p.low

/-- The height at which a panel ends. -/
def top (p : Panel α) : α := p.offset + p.high

/-- The distance of ticks in a panel. -/
def tickStep (p : Panel α) : α := if 2.0 < p.high then 0.5 else 0.2

/-- The number of tick values to look at: those from zero on that are below the window's upper
end. -/
def tickCount (p : Panel α) : Nat :=
  let stop := p.high - 0.001
  if 0 < stop then Scalar.toCount (-(Scalar.floor (-(stop / p.tickStep)))) else 0

/-- The tick values: multiples of the step inside the window. -/
def tickValues (p : Panel α) : List α :=
  ((List.range p.tickCount).map fun k => Scalar.ofNat k * p.tickStep).filter
    fun v => p.low + 0.001 < v

/-- The ticks: heights and values. -/
def ticks (p : Panel α) : List (α × α) := p.tickValues.map fun v => (p.offset + v, v)

end Panel

/-- A stack of panels, from the top down, and the positions of those that are not collapsed. -/
structure PanelLayout (α : Type) where
  indexes : List Nat
  panels : List (Panel α)

namespace PanelLayout

/-- Stack windows from the bottom up, on a panel that ends where `offset + high` says. -/
def stackOn (offset high : α) : List (Range α) → List (Panel α)
  | [] => []
  | r :: rest =>
    let next := offset + high - r.1
    ⟨next, r.1, r.2⟩ :: stackOn next r.2 rest

/-- Stack windows from the bottom up; the first begins at zero. -/
def stack : List (Range α) → List (Panel α)
  | [] => []
  | r :: rest => ⟨-r.1, r.1, r.2⟩ :: stackOn (-r.1) r.2 rest

/-- The windows with every other one, from the first on, collapsed. -/
def collapseEven : List (Range α) → List (Range α)
  | [] => []
  | [_] => [(0, 0)]
  | _ :: r :: rest => (0, 0) :: r :: collapseEven rest

/-- The layout of windows given from the bottom up, one for each of `count` curves.  With
`alternate`, only curves at odd positions have a panel. -/
def ofRanges? (ranges : List (Range α)) (count : Nat) (alternate : Bool) :
    Option (PanelLayout α) :=
  if ranges.length ≠ count ∨ ranges.isEmpty then none
  else if alternate then
    some ⟨(List.range count).filter (· % 2 == 1), (stack (collapseEven ranges)).reverse⟩
  else some ⟨List.range count, (stack ranges).reverse⟩

/-- The height of the whole stack. -/
def yRange? (l : PanelLayout α) : Option (Range α) :=
  match l.panels.getLast?, l.panels.head? with
  | some lowest, some highest => some (lowest.bottom, highest.top)
  | _, _ => none

end PanelLayout

end SphereLab
