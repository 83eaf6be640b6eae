import SphereLab.Decimal.General
import SphereLab.Formula.CSource
import SphereLab.Formula.LaTeX
import SphereLab.PairCorrelation.Fit

/-!
# Publishing a fit

A fit goes out in three files: a LaTeX document with all definitions and the fitted constants,
a C header with the constants and the pair correlation as a function, and LaTeX commands for
the numbers that a paper quotes.  Each is a list of lines.

The user says with how many digits constants are written in the document and in the header;
neither can be made with more than a layout takes.
-/

namespace SphereLab

namespace Publication

/-- A text made of lines, each with its line feed. -/
def ofLines (ls : List String) : String := String.join (ls.map (· ++ "\n"))

/-! ## The document -/

/-- A displayed equation. -/
def display (body : String) : List String :=
  ["\\begin" ++ LaTeX.braced "dmath", body, "\\end" ++ LaTeX.braced "dmath"]

/-- The equation of a definition. -/
def equation (d : Definition Float) : String :=
  Formula.equationLaTeX (.symbol d.name) d.value

/-- The document: the definitions, the same carried out, and the constants. -/
def document? (definitions unwrapped : List (Definition Float)) (fit : Fit Float)
    (digits : Nat) (stamp : String) : Option String := do
  let constants ← (Ansatz.parameterNames.zip fit.params).mapM fun (name, value) => do
    return LaTeX.symbolText name ++ " = " ++ (← fixedText? digits value)
  return ofLines <|
    ["% Code generated by smc fit-ghs on " ++ stamp,
     "\\documentclass" ++ LaTeX.braced "article",
     "\\usepackage" ++ LaTeX.braced "breqn",
     "\\begin" ++ LaTeX.braced "document"] ++
    ((definitions ++ unwrapped).map equation ++ constants).flatMap display ++
    ["\\end" ++ LaTeX.braced "document"]

/-! ## The header -/

/-- The declaration of a constant. -/
def declaration (name value : String) : String := "const double " ++ name ++ " = " ++ value ++ ";"

/-- The declarations of one row of coefficients, with an empty line behind. -/
def rowDeclarations (digits : Nat) (fit : Fit Float) (i : Nat) : Option (List String) := do
  let ds ← [1, 2, 3, 4].mapM fun j => do
    return declaration (Ansatz.kappaName (i, j)) (← fixedText? digits (← fit.kappa? i j))
  return ds ++ [""]

/-- The function that the header defines. -/
def function (sigma : Float) (body : String) : List String :=
  ["inline double short_range_radial_distribution(double g_sigma, double r) \x7b",
   "  if (g_sigma <= 1) return 1; // handle roundoff error okay",
   "  if (r < " ++ roundedText sigma ++ ") return 0;",
   "  const double h_sigma = g_sigma - 1;",
   "  return " ++ body ++ ";",
   "\x7d"]

/-- The header, unless a parameter is missing or the digits are too many. -/
def header? (pair : Formula Float) (sigma : Float) (fit : Fit Float) (digits : Nat)
    (stamp : String) : Option String := do
  let rows ← [1, 2, 3, 4].mapM (rowDeclarations digits fit)
  let alpha ← fixedText? digits (← fit.alpha?)
  return ofLines <|
    ["// Code generated by smc fit-ghs on " ++ stamp, "#include <math.h>", ""] ++
    rows.flatten ++
    [declaration Ansatz.alphaName alpha, "",
     "// inline double short_range_gsigma_to_eta(const double g_sigma) \x7b",
     "//   if (g_sigma <= 1) return 0;",
     "//   return " ++ (Formula.symbol "h_sigma" : Formula Float).toC ++ ";",
     "// \x7d", "", ""] ++
    function sigma pair.toC

/-! ## The commands -/

/-- A command without arguments. -/
def command (name body : String) : String :=
  "\\newcommand\\" ++ name ++ LaTeX.braced body

/-- The commands, unless a parameter is missing. -/
def commands? (fit : Fit Float) : Option String := do
  let rows ← [1, 2, 3, 4].mapM fun i => do
    let cells ← [1, 2, 3, 4].mapM fun j => do return general (← fit.kappa? i j)
    return "    " ++ " & ".intercalate cells ++ " \\\\"
  let alpha ← fit.alpha?
  return ofLines <|
    ["",
     command "maxrfit" (generalText 2 fit.cutoff),
     command "maxerr" (generalText 2 fit.worst.deviation),
     command "etamaxerr" (general fit.worst.eta),
     command "rmaxerr" (generalText 2 fit.worst.r),
     command "chisq" (generalText 2 fit.squares),
     "\\newcommand\\kappatable\x7b",
     "  \\left(",
     "  \\begin" ++ LaTeX.braced "array" ++ LaTeX.braced
       ("c d" ++ LaTeX.braced "3" ++ " d" ++ LaTeX.braced "3" ++ " d" ++ LaTeX.braced "3" ++
        " d" ++ LaTeX.braced "3")] ++
    rows ++
    ["  \\end" ++ LaTeX.braced "array",
     "  \\right)",
     "\x7d",
     command "alphaval" (general alpha)]

end Publication

end SphereLab
