import SphereLab.Figure.Drawing
import SphereLab.Filing
import SphereLab.LeastSquares.Linear
import SphereLab.PairCorrelation.Figures
import SphereLab.PairCorrelation.Publication
import SphereLab.PathText

/-!
# A study of the pair correlation

The whole way from simulated tables to published files: load the tables, fit the ansatz,
compare excess integrals, and leave behind the document, the header, the commands and the
figures.  Nothing is written before the fit has succeeded.
-/

namespace SphereLab

/-- What a study is asked for. -/
structure StudyPlan where
  /-- What the paths of the tables begin with. -/
  base : String
  /-- The folder of the files that are left behind. -/
  folder : String
  /-- What the names of those files begin with. -/
  name : String
  ansatz : Ansatz Float
  fit : Fit.Options Float
  /-- Does only every other filling fraction get a panel? -/
  alternate : Bool
  /-- When the files were made, as they say. -/
  stamp : String

/-- What a study found and wrote. -/
structure Study where
  fit : Fit Float
  integrals : List IntegralComparison
  figures : List (String × Figure Float)
  written : List String

namespace StudyPlan

/-- The study that is made unless something else is asked for. -/
def standard : StudyPlan := ⟨"figs/gr", "figs", "short-range", .standard, .standard, true, ""⟩

/-! ## Paths -/

/-- The path of one of the files. -/
def path (p : StudyPlan) (ending : String) : String := joinPath p.folder (p.name ++ "-" ++ ending)

/-- The path of the document. -/
def documentPath (p : StudyPlan) : String := p.path "ghs-analytics.tex"

/-- The path of the header. -/
def headerPath (p : StudyPlan) : String := p.path "ghs-analytics.h"

/-- The path of the commands. -/
def commandsPath (p : StudyPlan) : String := p.path "fit-parameters.tex"

/-! ## From tables to a fit -/

/-- The fitted curve of a data set. -/
def fittedCurve? (model : Program Float) (fit : Fit Float) (set : DataSet Float) :
    Option (List Float) :=
  Ansatz.modelCurve? model fit.params set.contact set.r

/-- The comparison of the excess integrals of a data set and its fitted curve. -/
def comparison? (sigma : Float) (set : DataSet Float) (curve : List Float) :
    Option IntegralComparison := do
  return ⟨set.eta, ← excessIntegral? piDouble set.r set.g sigma,
    ← excessIntegral? piDouble set.r curve sigma⟩

/-- The tables of the study and the fit to them. -/
def fitTables (p : StudyPlan) (model : Program Float) (d : Directory) :
    Except Failure (List (DataSet Float) × Fit Float) := do
  let sets ← DataSet.load d p.base DataSet.fillingFractions
  let fit ← (Fit.run solveLinear model sets p.fit).mapError (·.failure)
  return (sets, fit)

/-! ## Files -/

/-- The texts that a fit goes out in, with their paths; the run breaks off at one that cannot be
made. -/
def texts (p : StudyPlan) (pair : Formula Float) (fit : Fit Float) :
    List (String × Option String) :=
  let definitions := p.ansatz.definitions
  let unwrapped := Definition.unwrap definitions
  [(p.documentPath, Publication.document? definitions unwrapped fit p.fit.digits p.stamp),
   (p.headerPath, Publication.header? pair p.ansatz.sigma fit p.fit.digits p.stamp),
   (p.commandsPath, Publication.commands? fit)]

/-- The figures with their paths; there is no stack unless each filling fraction has a range
of its own. -/
def figures (p : StudyPlan) (sets : List (DataSet Float)) (curves : List (List Float)) :
    List (String × Figure Float) :=
  let layout := PanelLayout.ofRanges? PairFigures.panelRanges DataSet.fillingFractions.length
    p.alternate
  let panels := (layout.map (·.indexes)).getD []
  let sigma := p.ansatz.sigma
  (p.path "ghs.svg", PairFigures.overview sets curves panels sigma) ::
    (layout.map fun l =>
      (p.path "ghs-alt.svg", PairFigures.stacked sets curves l p.fit.cutoff sigma)).toList

/-! ## The study -/

/-- Carry the study out. -/
def run (p : StudyPlan) (render : Renderer) : Filing Study := do
  let (pair, model) ← Filing.look fun _ => p.ansatz.model
  let (sets, fit) ← Filing.look (p.fitTables model)
  let curves ← Filing.need (sets.mapM (fittedCurve? model fit))
  let texts := p.texts pair fit
  let figures := p.figures sets curves
  Filing.createFolder p.folder
  texts.forM fun (path, text) => do Filing.write path (← Filing.need text)
  figures.forM fun (path, figure) => figure.write render path
  return {
    fit := fit
    integrals := (sets.zip curves).filterMap fun (set, curve) =>
      comparison? p.ansatz.sigma set curve
    figures := figures
    written := texts.map (·.1) ++ figures.map (·.1) }

end StudyPlan

end SphereLab
