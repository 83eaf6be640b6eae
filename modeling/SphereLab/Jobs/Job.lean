import SphereLab.Decimal.General
import SphereLab.Directory
import SphereLab.Jobs.SphereCount
import SphereLab.Settings

/-!
# Simulation jobs

A job is one run of the soft-sphere simulation at a density and a temperature.  It is handed to
the scheduler as one line for the shell, which sends everything the run prints to a file
beside its data and does not wait for it.
-/

namespace SphereLab

/-! ## Folders -/

/-- Where jobs find their program and leave their output. -/
structure JobFolders where
  figs : String
  bin : String
  deriving DecidableEq, Repr

/-- The folders of jobs that are submitted in a directory.  A folder that is given comes first,
then the settings.  Beside a folder of figures the programs are two levels up; otherwise the
directory is taken for the top of the tree. -/
def JobFolders.choose (d : Directory) (figs bin : Option String) (settings : Settings) :
    JobFolders :=
  let inside := d.isFolder "figs"
  { figs := (figs <|> settings.figsFolder).getD
      (if inside then "figs" else "papers/fuzzy-fmt/figs")
    bin := (bin <|> settings.binFolder).getD (if inside then "../.." else ".") }

/-! ## Kinds of jobs -/

/-- What is simulated. -/
inductive JobKind (α : Type) where
  /-- A fluid in a periodic cube. -/
  | homogeneous (potential : String)
  /-- A fluid between hard walls; no spheres means a count by density. -/
  | walls (spheres : Nat)
  /-- A fluid between soft walls; no spheres means a count by density. -/
  | softWalls (spheres : Nat)
  /-- A fluid in a periodic cube, with a test particle of a size and a depth. -/
  | testParticle (sigma epsilon : α) (potential : String)

/-- A job: what is simulated, at which density and which temperature. -/
structure Job (α : Type) where
  kind : JobKind α
  density : α
  temperature : α

/-- A job for the scheduler. -/
structure Submission where
  name : String
  memory : Nat
  program : String
  arguments : List String
  /-- The path of the output without its ending. -/
  stem : String
  deriving DecidableEq, Repr

/-- The line for the shell. -/
def Submission.line (s : Submission) : String :=
  "srun --mem=" ++ naturalText s.memory ++ " -J " ++ s.name ++ " time nice -19 " ++ s.program ++
    String.join (s.arguments.map (" " ++ ·)) ++ " > " ++ s.stem ++ ".out 2>&1 &"

namespace JobKind

/-! ## What depends on the kind -/

/-- The edge of every cell, in diameters. -/
def edge : String := "30"

/-- A potential between apostrophes. -/
def quoted (potential : String) : String := "'" ++ potential ++ "'"

/-- What the name of a job begins with. -/
def jobName {α : Type} : JobKind α → String
  | .homogeneous _ => "soft"
  | .walls _ => "softwalls"
  | .softWalls _ => "wcawalls"
  | .testParticle _ _ _ => "soft-testp"

/-- What the names of output files begin with. -/
def fileName {α : Type} : JobKind α → String
  | .homogeneous potential => "mc" ++ potential
  | .walls _ => "mcwalls"
  | .softWalls _ => "mc-soft-wall"
  | .testParticle _ _ potential => "mc_testp_" ++ potential

/-- Does the number of spheres belong to the name of output files? -/
def namesCount {α : Type} : JobKind α → Bool
  | .walls _ | .softWalls _ => true
  | .homogeneous _ | .testParticle _ _ _ => false

/-- The number of spheres at a density. -/
def spheres {α : Type} [Scalar α] (density : α) : JobKind α → Nat
  | .homogeneous _ | .testParticle _ _ _ => SphereCount.bulk density
  | .walls given | .softWalls given => SphereCount.walls density given

/-- The arguments that describe the cell and the interaction. -/
def cellArguments (temperature : Float) : JobKind Float → List String
  | .homogeneous potential =>
    ["periodxyz", edge, "kT", general temperature, "potential", quoted potential]
  | .walls _ => ["periodxy", edge, "wallz", edge, "kT", general temperature]
  | .softWalls _ => ["periodxy", edge, "softwallz", "1", "kT", general temperature]
  | .testParticle sigma epsilon potential =>
    ["periodxyz", edge, "kT", general temperature, "TestP", fixedText 6 sigma,
      "testp_eps", fixedText 6 epsilon, "potential", quoted potential]

end JobKind

namespace Job

/-- Density and temperature, as names have them. -/
def tag (j : Job Float) : String := fixedText 4 j.density ++ "-" ++ fixedText 4 j.temperature

/-- The path of the output without its ending. -/
def stem (j : Job Float) (folders : JobFolders) : String :=
  folders.figs ++ "/" ++ j.kind.fileName ++ "-" ++ j.tag ++
    (if j.kind.namesCount then "-" ++ naturalText (j.kind.spheres j.density) else "")

/-- The job as the scheduler gets it. -/
def submission (j : Job Float) (folders : JobFolders) (memory : Nat) : Submission :=
  { name := j.kind.jobName ++ "-" ++ j.tag
    memory := memory
    program := folders.bin ++ "/soft-monte-carlo"
    arguments :=
      [naturalText (j.kind.spheres j.density), "0.01", "0.001", j.stem folders ++ ".dat"] ++
        j.kind.cellArguments j.temperature
    stem := j.stem folders }

end Job

end SphereLab
