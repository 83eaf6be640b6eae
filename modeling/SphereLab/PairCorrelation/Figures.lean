import SphereLab.Figure.Basic
import SphereLab.PairCorrelation.DataSet
import SphereLab.PairCorrelation.Panels
import SphereLab.PairCorrelation.Smoothing

/-!
# Figures of pair correlations

Two figures compare simulation, fit and reference.  The overview has all curves in one plot;
the stacked figure has one panel for each filling fraction that gets one.
-/

namespace SphereLab

namespace PairFigures

/-- The window of each stacked panel, from the lowest on. -/
def panelRanges : List (Range Float) :=
  [(0.9, 1.2), (0.9, 1.4), (0.9, 1.7), (0.8, 1.8), (0.8, 2.3), (0.75, 2.5), (0.75, 3.2),
   (0.6, 4.0), (0.6, 5.0)]

/-- The distance up to which the reference was fitted. -/
def referenceCutoff : Float := 3.6

/-- The distance up to which the reference is shown. -/
def referenceEnd : Float := 4.0

/-- The distance between averaged markers along their curve. -/
def markerSpacing : Float := 0.2

/-- The distances that the stacked figure shows. -/
def stackedRange : Range Float := (1.8, 5.5)

/-! ## Curves -/

/-- The points of a curve whose distance is kept, raised by an offset. -/
def curve (r g : List Float) (keep : Float → Bool) (offset : Float) : List (Float × Float) :=
  ((r.zip g).filter fun p => keep p.1).map fun p => (p.1, p.2 + offset)

/-- The reference at the distances of a data set. -/
def reference (set : DataSet Float) (sigma : Float) : List Float :=
  set.r.map fun r => GilVillegas.pairCorrelation piDouble set.eta r sigma

/-- The label of a filling fraction. -/
def etaLabel (places : Nat) (eta : Float) : String := "η = " ++ fixedText places eta

/-! ## The overview -/

/-- The curves of fit and reference for one filling fraction. -/
def comparison (sigma : Float) (set : DataSet Float) (fit : List Float) : List (Series Float) :=
  let color := Color.ofIndex set.index
  [Series.ofLine (curve set.r fit (fun _ => true) 0) color .dashed,
   Series.ofLine (curve set.r (reference set sigma) (· < referenceCutoff) 0) color .dotted]

/-- All curves in one plot: the simulations, and for filling fractions with a panel the fit and
the reference. -/
def overview (sets : List (DataSet Float)) (fitted : List (List Float)) (panels : List Nat)
    (sigma : Float) : Figure Float :=
  let simulated := sets.map fun set =>
    (Series.ofLine (curve set.r set.g (fun _ => true) 0) (Color.ofIndex set.index) .solid).labelled
      (etaLabel 2 set.eta)
  let compared := ((sets.zip fitted).filter fun (set, _) => panels.contains set.index).flatMap
    fun (set, fit) => comparison sigma set fit
  { (Figure.blank "r" "g(r)" : Figure Float) with
    size := (500, 400)
    legend := some .upperRight
    guides := [⟨.vertical, sigma, .black, .dotted⟩, ⟨.horizontal, 1, .black, .dotted⟩]
    series := simulated ++ compared }

/-! ## The stack -/

/-- The series of one panel. -/
def panelSeries (cutoff sigma offset : Float) (set : DataSet Float) (fit : List Float)
    (labelled : Bool) : List (Series Float) :=
  let named (s : Series Float) (label : String) := if labelled then s.labelled label else s
  let gil := reference set sigma
  let averaged := averageRuns markerSpacing (set.r.zip set.g)
  [named (.ofLine (curve set.r fit (· < cutoff) offset) .blue .solid) "this work",
   .ofLine (curve set.r fit (· < 1.1 * cutoff) offset) .blue .dotted,
   named (.ofLine (curve set.r gil (· < referenceCutoff) offset) .magenta .dashed)
     "fit by Gil-Villegas",
   .ofLine (curve set.r gil (fun r => referenceCutoff < r && r < referenceEnd) offset)
     .magenta .dotted,
   named (.ofMarkers (averaged.map fun p => (p.1, p.2 + offset)) .black .dot) "Monte Carlo"]

/-- The guides of one panel: its top, and where its values are one. -/
def panelGuides (p : Panel Float) : List (Guide Float) :=
  [⟨.horizontal, p.top, .black, .solid⟩, ⟨.horizontal, p.offset + 1, .black, .dotted⟩]

/-- The caption of one panel; from panel to panel it moves to the right. -/
def panelNote (p : Panel Float) (set : DataSet Float) : Note Float :=
  let fraction := 1.0 / 3.0 + 0.03 * Scalar.ofNat set.index - 0.1
  ⟨etaLabel 1 set.eta, (1.0 - fraction) * stackedRange.1 + fraction * stackedRange.2,
   p.offset + p.high - 0.14⟩

/-- The data sets that have a panel, with their fits and panels. -/
def panelled (sets : List (DataSet Float)) (fitted : List (List Float))
    (layout : PanelLayout Float) : List (DataSet Float × List Float × Panel Float) :=
  (sets.zip fitted).filterMap fun (set, fit) =>
    if layout.indexes.contains set.index then
      layout.panels[set.index]?.map fun p => (set, fit, p)
    else none

/-- One panel for each filling fraction that gets one; the series of the first carry the
labels. -/
def stacked (sets : List (DataSet Float)) (fitted : List (List Float))
    (layout : PanelLayout Float) (cutoff sigma : Float) : Figure Float :=
  let shown := panelled sets fitted layout
  { (Figure.blank "r/R" "g(r)" : Figure Float) with
    size := (480, 640)
    legend := some .upperRight
    xRange := some stackedRange
    yRange := layout.yRange?
    guides := ⟨.vertical, 2, .black, .dotted⟩ :: shown.flatMap fun (_, _, p) => panelGuides p
    series := (shown.mapIdx fun i (set, fit, p) =>
      panelSeries cutoff sigma p.offset set fit (i == 0)).flatten
    yTicks := some (shown.flatMap fun (_, _, p) =>
      p.ticks.map fun (height, value) => (height, fixedText 1 value))
    notes := shown.map fun (set, _, p) => panelNote p set }

end PairFigures

end SphereLab
