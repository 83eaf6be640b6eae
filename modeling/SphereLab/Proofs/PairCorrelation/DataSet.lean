import Mathlib
import SphereLab.PairCorrelation.DataSet
import SphereLab.Proofs.DataFile.Table
import SphereLab.Proofs.Directory.Paths

/-!
# Data sets that are loaded

The tables of a list of filling fractions are looked for one after another.  One that does not exist
is skipped, one that is no table of two columns ends the loading, and so does one that is not as
high as the first.  So the heights are compared with a table that depends on which files are there.
What it comes to does not: the tables are loaded if there is one and all of them are of one height,
and every data set bears the position of its filling fraction in the whole list.

* `Fits`, `OfFile`: what the file of a filling fraction has to be, and what is made of it.
* `Outcome`, `loadFrom_outcome`: what loading comes to, while all heights have to be that of the
  first set.
* `Complete`, `Spoiled`: which files can be loaded, and which are no data.
* `Collects`: what is loaded; `length_of_load`: there are as many values as distances.
* `load_complete`: when tables are loaded, what is loaded, and how loading fails.
-/

namespace SphereLab

/-! ## Columns -/

namespace Table

variable {t : Table} {text : String}

/-- A column has the numbers of the text, from the first line that remains to the last. -/
theorem getElem?_column (h : Holds t text) {c : ℕ} {vs : List Float} (hc : t.column c = .ok vs)
    (k : ℕ) : vs[k]? = numberAt? text k c := by
  rcases Nat.lt_or_ge c t.width with hlt | hle
  · obtain ⟨vs', hvs', hlength, hentry⟩ := h.columns c hlt
    obtain rfl := Except.ok.inj (hc.symm.trans hvs')
    rcases Nat.lt_or_ge k t.height with hk | hk
    · obtain ⟨v, hnumber, hget, -⟩ := h.entries k hk c hlt
      rw [hentry k hk, hget, hnumber]
    · have hnone : (remaining text)[k]? = none := List.getElem?_eq_none (h.height ▸ hk)
      rw [List.getElem?_eq_none (hlength ▸ hk), numberAt?, hnone]
      rfl
  · obtain ⟨e, he, -⟩ := h.missing c hle
    exact absurd (hc.symm.trans he) (by simp)

theorem holds_of_parse (h : parse text = .ok t) : Holds t text :=
  (parse_rectangular text "").2.1 t h

/-- A text that is a table has a row. -/
theorem height_pos_of_parse (h : parse text = .ok t) : 0 < t.height := by
  have hrectangular := (parse_rectangular text "").1.mp ⟨t, h⟩
  rw [(holds_of_parse h).height]
  exact List.length_pos_iff.mpr hrectangular.nonempty

/-- What it comes to that a table is loaded. -/
theorem load_cases (d : Directory) (path : String) :
    (∃ e failure, d.readText path = .error e ∧ load d path = .error failure ∧ failure.code = 2) ∨
    ∃ text, d.readText path = .ok text ∧
      ((∃ e failure, parse text = .error e ∧ load d path = .error failure ∧ failure.code = 3) ∨
        ∃ t, parse text = .ok t ∧ load d path = .ok t) := by
  rw [load]
  cases hread : d.readText path with
  | error e => exact Or.inl ⟨e, _, rfl, rfl, rfl⟩
  | ok text =>
    refine Or.inr ⟨text, rfl, ?_⟩
    dsimp only
    cases hparse : parse text with
    | error e =>
      have hcode := ((parse_rectangular text path).2.2 e hparse).code
      exact Or.inl ⟨e, _, rfl, rfl, hcode⟩
    | ok t => exact Or.inr ⟨t, rfl, rfl⟩

end Table

/-! ## Data sets -/

namespace DataSet

section Sets

variable (d : Directory) (base : String)

/-- The filling fraction of a data set, with its position. -/
def label (set : DataSet Float) : ℕ × Float := (set.index, set.eta)

/-- The file of a filling fraction is a table with two columns at least, and with a given number of
rows. -/
def Fits (eta : Float) (height : ℕ) : Prop :=
  ∃ text t, d.readText (path base eta) = .ok text ∧ Table.parse text = .ok t ∧ 2 ≤ t.width ∧
    t.height = height

/-- A data set is made of the file of its filling fraction: distances from the first column, and
values from the second one, for the filling fraction. -/
structure OfFile (set : DataSet Float) : Prop where
  contact : set.contact = contactValue set.eta
  fits : Fits d base set.eta set.r.length
  length : set.g.length = set.r.length
  columns : ∃ text, d.readText (path base set.eta) = .ok text ∧
    (∀ k, set.r[k]? = Table.numberAt? text k 0) ∧
    ∀ k, set.g[k]? = (Table.numberAt? text k 1).map (· / set.eta)

variable {d base}

theorem Fits.height_pos {eta : Float} {height : ℕ} (h : Fits d base eta height) : 0 < height := by
  obtain ⟨text, t, -, hparse, -, rfl⟩ := h
  exact Table.height_pos_of_parse hparse

/-- A file is of one height only. -/
theorem Fits.height_eq {eta : Float} {m n : ℕ} (h : Fits d base eta m) (h' : Fits d base eta n) :
    m = n := by
  obtain ⟨text, t, hread, hparse, -, rfl⟩ := h
  obtain ⟨text', t', hread', hparse', -, rfl⟩ := h'
  obtain rfl := Except.ok.inj (hread.symm.trans hread')
  rw [Except.ok.inj (hparse.symm.trans hparse')]

section NotFits

variable {eta : Float} {text : String}

theorem not_fits_of_malformed (hread : d.readText (path base eta) = .ok text) {e : Table.Fault}
    (hparse : Table.parse text = .error e) (height : ℕ) : ¬Fits d base eta height := by
  rintro ⟨text', t, hread', hparse', -⟩
  obtain rfl := Except.ok.inj (hread.symm.trans hread')
  exact absurd (hparse.symm.trans hparse') (by simp)

theorem not_fits_of_narrow (hread : d.readText (path base eta) = .ok text) {t : Table}
    (hparse : Table.parse text = .ok t) (hwidth : t.width < 2) (height : ℕ) :
    ¬Fits d base eta height := by
  rintro ⟨text', t', hread', hparse', hwidth', -⟩
  obtain rfl := Except.ok.inj (hread.symm.trans hread')
  obtain rfl := Except.ok.inj (hparse.symm.trans hparse')
  exact absurd hwidth' (Nat.not_le.mpr hwidth)

end NotFits

/-- A table makes a data set if it has two columns. -/
theorem ofTable_cases {t : Table} {text : String} (h : t.Holds text) (index : ℕ) (eta : Float) :
    (t.width < 2 ∧ ∃ failure, ofTable index eta t = .error failure ∧ failure.code = 3) ∨
    ∃ r n, 2 ≤ t.width ∧ t.column 0 = .ok r ∧ t.column 1 = .ok n ∧
      ofTable index eta t = .ok ⟨index, eta, contactValue eta, r, n.map (· / eta)⟩ := by
  rw [ofTable]
  rcases Nat.lt_or_ge 0 t.width with hfirst | hnone
  · obtain ⟨r, hr, -⟩ := h.columns 0 hfirst
    rw [hr]
    rcases Nat.lt_or_ge 1 t.width with hsecond | hone
    · obtain ⟨n, hn, -⟩ := h.columns 1 hsecond
      rw [hn]
      exact Or.inr ⟨r, n, hsecond, rfl, rfl, rfl⟩
    · obtain ⟨e, he, hcode⟩ := h.missing 1 hone
      rw [he]
      exact Or.inl ⟨by omega, _, rfl, hcode⟩
  · obtain ⟨e, he, hcode⟩ := h.missing 0 hnone
    rw [he]
    exact Or.inl ⟨by omega, _, rfl, hcode⟩

/-- What the file of a filling fraction comes to: it cannot be read, it is no table that fits, or it
makes a data set. -/
theorem load_ofTable_cases (d : Directory) (base : String) (index : ℕ) (eta : Float) :
    (∃ e failure, d.readText (path base eta) = .error e ∧
      Table.load d (path base eta) >>= ofTable index eta = .error failure ∧ failure.code = 2) ∨
    ((∀ height, ¬Fits d base eta height) ∧ ∃ failure,
      Table.load d (path base eta) >>= ofTable index eta = .error failure ∧ failure.code = 3) ∨
    ∃ set, Table.load d (path base eta) >>= ofTable index eta = .ok set ∧ OfFile d base set ∧
      set.index = index ∧ set.eta = eta := by
  rcases Table.load_cases d (path base eta) with ⟨e, failure, hread, hload, hcode⟩ |
    ⟨text, hread, ⟨e, failure, hparse, hload, hcode⟩ | ⟨t, hparse, hload⟩⟩
  · exact Or.inl ⟨e, failure, hread, by rw [hload]; rfl, hcode⟩
  · exact Or.inr (Or.inl ⟨not_fits_of_malformed hread hparse, failure, by rw [hload]; rfl, hcode⟩)
  · have hholds := Table.holds_of_parse hparse
    rw [hload]
    rcases ofTable_cases hholds index eta with ⟨hwidth, failure, hset, hcode⟩ |
      ⟨r, n, hwidth, hr, hn, hset⟩
    · exact Or.inr (Or.inl ⟨not_fits_of_narrow hread hparse hwidth, failure, hset, hcode⟩)
    · have hlength : ∀ {c vs}, t.column c = .ok vs → c < t.width → vs.length = t.height := by
        intro c vs hvs hlt
        obtain ⟨vs', hvs', hlength, -⟩ := hholds.columns c hlt
        rw [Except.ok.inj (hvs.symm.trans hvs'), hlength]
      refine Or.inr (Or.inr ⟨_, hset, ⟨rfl, ⟨text, t, hread, hparse, hwidth, ?_⟩, ?_, text, hread,
        fun k => Table.getElem?_column hholds hr k, fun k => ?_⟩, rfl, rfl⟩)
      · exact (hlength hr (by omega)).symm
      · dsimp only
        rw [List.length_map, hlength hn (by omega), hlength hr (by omega)]
      · rw [List.getElem?_map, Table.getElem?_column hholds hn]

/-! ## One filling fraction after another -/

theorem loadFrom_of_not_isFile {index : ℕ} {eta : Float} (h : d.isFile (path base eta) = false)
    (first : Option (DataSet Float)) (rest : List (ℕ × Float)) :
    loadFrom d base first ((index, eta) :: rest) = loadFrom d base first rest := by
  rw [loadFrom, h]
  rfl

theorem loadFrom_of_error {index : ℕ} {eta : Float} (h : d.isFile (path base eta) = true)
    {failure : Failure}
    (hset : Table.load d (path base eta) >>= ofTable index eta = .error failure)
    (first : Option (DataSet Float)) (rest : List (ℕ × Float)) :
    loadFrom d base first ((index, eta) :: rest) = .error failure := by
  rw [loadFrom, if_pos h, ← bind_assoc, hset]
  rfl

/-- The first set is there to be compared with: it is that of the file itself if there was none
before. -/
theorem loadFrom_of_set {index : ℕ} {eta : Float} (h : d.isFile (path base eta) = true)
    {set : DataSet Float} (hset : Table.load d (path base eta) >>= ofTable index eta = .ok set)
    (first : Option (DataSet Float)) (rest : List (ℕ × Float)) :
    (set.r.length = (first.getD set).r.length ∧
      loadFrom d base first ((index, eta) :: rest) =
        (loadFrom d base (some (first.getD set)) rest).map (set :: ·)) ∨
    (set.r.length ≠ (first.getD set).r.length ∧
      ∃ failure, loadFrom d base first ((index, eta) :: rest) = .error failure ∧
        failure.code = 3) := by
  rw [loadFrom, if_pos h, ← bind_assoc, hset]
  cases first with
  | none => exact Or.inl ⟨rfl, rfl⟩
  | some f =>
    dsimp only [Option.getD_some, bind, Except.bind]
    by_cases hheight : f.r.length = set.r.length
    · rw [if_pos hheight]
      exact Or.inl ⟨hheight.symm, rfl⟩
    · rw [if_neg hheight]
      exact Or.inr ⟨Ne.symm hheight, _, rfl, rfl⟩

/-- What it comes to that files are loaded, where the height has to be that of the set that came
first.  The sets are those of the files that are there, in order; or a file cannot be read; or no
height is that of the first set and of all files. -/
inductive Outcome (d : Directory) (base : String) (first : Option (DataSet Float))
    (etas : List (ℕ × Float)) : Except Failure (List (DataSet Float)) → Prop where
  | sets {sets : List (DataSet Float)} {height : ℕ}
      (hnames : sets.map label =
        etas.filter fun numbered => d.isFile (path base numbered.2))
      (hsets : ∀ set ∈ sets, OfFile d base set)
      (hfirst : ∀ set, first = some set → set.r.length = height)
      (hfits : ∀ numbered ∈ etas, d.isFile (path base numbered.2) = true →
        Fits d base numbered.2 height) : Outcome d base first etas (.ok sets)
  | unreadable {numbered : ℕ × Float} {e : PathError} {failure : Failure}
      (hmem : numbered ∈ etas) (hfile : d.isFile (path base numbered.2) = true)
      (hread : d.readText (path base numbered.2) = .error e) (hcode : failure.code = 2) :
      Outcome d base first etas (.error failure)
  | unfit {failure : Failure}
      (hnone : ∀ height, (∀ set, first = some set → set.r.length = height) →
        ∃ numbered ∈ etas, d.isFile (path base numbered.2) = true ∧
          ¬Fits d base numbered.2 height)
      (hcode : failure.code = 3) : Outcome d base first etas (.error failure)

variable {first : Option (DataSet Float)} {etas : List (ℕ × Float)}
  {result : Except Failure (List (DataSet Float))}

/-- A filling fraction without a file is skipped. -/
theorem Outcome.skip (h : Outcome d base first etas result) {numbered : ℕ × Float}
    (hnone : d.isFile (path base numbered.2) = false) :
    Outcome d base first (numbered :: etas) result := by
  cases h with
  | @sets sets height hnames hsets hfirst hfits =>
    refine .sets ?_ hsets hfirst (List.forall_mem_cons.mpr ⟨fun hfile => ?_, hfits⟩)
    · rw [hnames, List.filter_cons_of_neg (by simp [hnone])]
    · exact absurd (hnone.symm.trans hfile) Bool.false_ne_true
  | unreadable hmem hfile hread hcode =>
    exact .unreadable (List.mem_cons_of_mem _ hmem) hfile hread hcode
  | unfit hnone' hcode =>
    refine .unfit (fun height hheight => ?_) hcode
    obtain ⟨other, hmem, hother⟩ := hnone' height hheight
    exact ⟨other, List.mem_cons_of_mem _ hmem, hother⟩

/-- A set goes in front if it is as high as the first one. -/
theorem Outcome.cons {set : DataSet Float}
    (h : Outcome d base (some (first.getD set)) etas result)
    (hfile : d.isFile (path base set.label.2) = true) (hset : OfFile d base set)
    (hheight : set.r.length = (first.getD set).r.length) :
    Outcome d base first (set.label :: etas) (result.map (set :: ·)) := by
  cases h with
  | @sets sets height hnames hsets hfirst hfits =>
    have hlength := hheight.trans (hfirst _ rfl)
    refine .sets ?_ (List.forall_mem_cons.mpr ⟨hset, hsets⟩) (fun f hf => ?_)
      (List.forall_mem_cons.mpr ⟨fun _ => hlength ▸ hset.fits, hfits⟩)
    · rw [List.map_cons, hnames, List.filter_cons_of_pos (by simpa using hfile)]
    · rw [← hfirst _ rfl, hf, Option.getD_some]
  | unreadable hmem hfile hread hcode =>
    exact .unreadable (List.mem_cons_of_mem _ hmem) hfile hread hcode
  | unfit hnone hcode =>
    refine .unfit (fun height hfirst => ?_) hcode
    -- Either the file itself is of another height, or one of the files behind it is.
    by_cases hlength : set.r.length = height
    · have hgiven : ∀ f, some (first.getD set) = some f → f.r.length = height := by
        intro f hf
        rw [← Option.some.inj hf, ← hheight, hlength]
      obtain ⟨other, hmem, hother⟩ := hnone height hgiven
      exact ⟨other, List.mem_cons_of_mem _ hmem, hother⟩
    · exact ⟨_, List.mem_cons_self, hfile, fun hfits => hlength (hset.fits.height_eq hfits)⟩

theorem loadFrom_outcome (d : Directory) (base : String) (first : Option (DataSet Float))
    (etas : List (ℕ × Float)) : Outcome d base first etas (loadFrom d base first etas) := by
  induction etas generalizing first with
  | nil =>
    have hfirst : ∀ set, first = some set → set.r.length = (first.map (·.r.length)).getD 0 := by
      intro set hset
      rw [hset]
      rfl
    exact .sets rfl (by simp) hfirst (by simp)
  | cons numbered rest ih =>
    obtain ⟨index, eta⟩ := numbered
    cases hfile : d.isFile (path base eta) with
    | false =>
      rw [loadFrom_of_not_isFile hfile]
      exact (ih first).skip hfile
    | true =>
      rcases load_ofTable_cases d base index eta with ⟨e, failure, hread, hload, hcode⟩ |
        ⟨hnone, failure, hload, hcode⟩ | ⟨set, hload, hset, rfl, rfl⟩
      · rw [loadFrom_of_error hfile hload]
        exact .unreadable List.mem_cons_self hfile hread hcode
      · rw [loadFrom_of_error hfile hload]
        exact .unfit (fun height _ => ⟨_, List.mem_cons_self, hfile, hnone height⟩) hcode
      · rcases loadFrom_of_set hfile hload first rest with ⟨hheight, hrest⟩ |
          ⟨hheight, failure, hrest, hcode⟩
        · rw [hrest]
          exact (ih _).cons hfile hset hheight
        · rw [hrest]
          refine .unfit (fun height hfirst => ⟨_, List.mem_cons_self, hfile, fun hfits => ?_⟩) hcode
          have hlength := hset.fits.height_eq hfits
          cases first with
          | none => exact hheight rfl
          | some f => exact hheight (hlength.trans (hfirst f rfl).symm)

end Sets

/-! ## The whole list -/

section Whole

variable (d : Directory) (base : String) (etas : List Float)

/-- Filling fractions with their positions. -/
def numbered : List (ℕ × Float) := etas.mapIdx fun i eta => (i, eta)

/-- There is a file, and all files are tables of at least two columns and of one height. -/
structure Complete : Prop where
  exists_file : ∃ eta ∈ etas, d.isFile (path base eta) = true
  fits : ∃ height, ∀ eta ∈ etas, d.isFile (path base eta) = true → Fits d base eta height

/-- The text of a file is no table, or one that is too narrow, or two files are tables of different
heights. -/
inductive Spoiled : Prop where
  | malformed {eta : Float} {text : String} {e : Table.Fault} (hmem : eta ∈ etas)
      (hfile : d.isFile (path base eta) = true) (hread : d.readText (path base eta) = .ok text)
      (hparse : Table.parse text = .error e) : Spoiled
  | narrow {eta : Float} {text : String} {t : Table} (hmem : eta ∈ etas)
      (hfile : d.isFile (path base eta) = true) (hread : d.readText (path base eta) = .ok text)
      (hparse : Table.parse text = .ok t) (hwidth : t.width < 2) : Spoiled
  | uneven {eta eta' : Float} {height height' : ℕ} (hmem : eta ∈ etas) (hmem' : eta' ∈ etas)
      (hfile : d.isFile (path base eta) = true) (hfile' : d.isFile (path base eta') = true)
      (hfits : Fits d base eta height) (hfits' : Fits d base eta' height')
      (hheight : height ≠ height') : Spoiled

/-- One data set for each filling fraction that has a file, in order and numbered by positions in
the whole list, all of one height. -/
structure Collects (sets : List (DataSet Float)) : Prop where
  increasing : sets.Pairwise fun set set' => set.index < set'.index
  exists_index_iff : ∀ i, (∃ set ∈ sets, set.index = i) ↔
    ∃ eta, etas[i]? = some eta ∧ d.isFile (path base eta) = true
  eta : ∀ set ∈ sets, etas[set.index]? = some set.eta
  ofFile : ∀ set ∈ sets, OfFile d base set
  height : ∃ height, 0 < height ∧ ∀ set ∈ sets, set.r.length = height ∧ set.g.length = height

variable {d base etas}

theorem mem_numbered_iff {i : ℕ} {eta : Float} :
    (i, eta) ∈ numbered etas ↔ etas[i]? = some eta := by
  rw [numbered, List.mem_mapIdx, List.getElem?_eq_some_iff]
  simp

theorem pairwise_numbered (etas : List Float) :
    (numbered etas).Pairwise fun n n' => n.1 < n'.1 := by
  rw [List.pairwise_iff_getElem]
  intro i j hi hj hij
  simpa [numbered] using hij

theorem forall_numbered_iff {P : Float → Prop} :
    (∀ n ∈ numbered etas, P n.2) ↔ ∀ eta ∈ etas, P eta := by
  constructor
  · intro h eta hmem
    obtain ⟨i, hi⟩ := List.mem_iff_getElem?.mp hmem
    exact h (i, eta) (mem_numbered_iff.mpr hi)
  · rintro h ⟨i, eta⟩ hmem
    exact h eta (List.mem_of_getElem? (mem_numbered_iff.mp hmem))

theorem Spoiled.not_fits (h : Spoiled d base etas) (height : ℕ) :
    ¬∀ eta ∈ etas, d.isFile (path base eta) = true → Fits d base eta height := by
  intro hall
  cases h with
  | malformed hmem hfile hread hparse =>
    exact not_fits_of_malformed hread hparse height (hall _ hmem hfile)
  | narrow hmem hfile hread hparse hwidth =>
    exact not_fits_of_narrow hread hparse hwidth height (hall _ hmem hfile)
  | uneven hmem hmem' hfile hfile' hfits hfits' hheight =>
    refine hheight ?_
    rw [hfits.height_eq (hall _ hmem hfile), hfits'.height_eq (hall _ hmem' hfile')]

/-- The sets are those of the files. -/
theorem collects_of_names {sets : List (DataSet Float)} {height : ℕ} (hne : sets ≠ [])
    (hnames : sets.map label =
      (numbered etas).filter fun n => d.isFile (path base n.2))
    (hsets : ∀ set ∈ sets, OfFile d base set)
    (hfits : ∀ n ∈ numbered etas, d.isFile (path base n.2) = true → Fits d base n.2 height) :
    Collects d base etas sets := by
  have hmem : ∀ set ∈ sets, etas[set.index]? = some set.eta ∧
      d.isFile (path base set.eta) = true := by
    intro set hset
    have hname := List.mem_map_of_mem (f := label) hset
    rw [hnames, List.mem_filter] at hname
    exact ⟨mem_numbered_iff.mp hname.1, hname.2⟩
  have hlength : ∀ set ∈ sets, set.r.length = height := by
    intro set hset
    obtain ⟨hplace, hfile⟩ := hmem set hset
    exact (hsets set hset).fits.height_eq
      (hfits (set.index, set.eta) (mem_numbered_iff.mpr hplace) hfile)
  refine ⟨?_, fun i => ⟨?_, ?_⟩, fun set hset => (hmem set hset).1, hsets, height, ?_,
    fun set hset => ⟨hlength set hset, (hsets set hset).length.trans (hlength set hset)⟩⟩
  · have hpairwise := (pairwise_numbered etas).filter fun n => d.isFile (path base n.2)
    rw [← hnames, List.pairwise_map] at hpairwise
    exact hpairwise
  · rintro ⟨set, hset, rfl⟩
    exact ⟨set.eta, hmem set hset⟩
  · rintro ⟨eta, heta, hfile⟩
    have hname : (i, eta) ∈ sets.map label := by
      rw [hnames, List.mem_filter]
      exact ⟨mem_numbered_iff.mpr heta, hfile⟩
    obtain ⟨set, hset, heq⟩ := List.mem_map.mp hname
    exact ⟨set, hset, congrArg Prod.fst heq⟩
  · obtain ⟨set, hset⟩ := List.exists_mem_of_ne_nil sets hne
    rw [← hlength set hset]
    exact (hsets set hset).fits.height_pos

theorem load_eq (d : Directory) (base : String) (etas : List Float) :
    load d base etas = loadFrom d base none (numbered etas) >>= fun sets =>
      if sets.isEmpty then .error (Fault.failure (.none base)) else .ok sets := rfl

/-- What loading comes to. -/
theorem load_cases (d : Directory) (base : String) (etas : List Float) :
    (∃ sets, load d base etas = .ok sets ∧ Complete d base etas ∧ Collects d base etas sets) ∨
    ∃ failure, load d base etas = .error failure ∧
      ((failure.code = 2 ∧ ((∀ eta ∈ etas, d.isFile (path base eta) = false) ∨
          ∃ eta ∈ etas, d.isFile (path base eta) = true ∧
            ∃ e, d.readText (path base eta) = .error e)) ∨
        failure.code = 3 ∧ (∃ eta ∈ etas, d.isFile (path base eta) = true) ∧
          ∀ height, ¬∀ eta ∈ etas, d.isFile (path base eta) = true → Fits d base eta height) := by
  have houtcome := loadFrom_outcome d base none (numbered etas)
  rw [load_eq]
  generalize loadFrom d base none (numbered etas) = result at houtcome
  have hplace : ∀ n ∈ numbered etas, n.2 ∈ etas := fun n hn =>
    List.mem_of_getElem? (mem_numbered_iff.mp hn)
  cases houtcome with
  | @sets sets height hnames hsets _ hfits =>
    cases sets with
    | nil =>
      refine Or.inr ⟨_, rfl, Or.inl ⟨rfl, Or.inl ?_⟩⟩
      have hnone := List.filter_eq_nil_iff.mp hnames.symm
      exact forall_numbered_iff.mp fun n hn => Bool.not_eq_true _ ▸ hnone n hn
    | cons set rest =>
      have hcollects := collects_of_names (List.cons_ne_nil set rest) hnames hsets hfits
      refine Or.inl ⟨_, rfl, ⟨?_, height, forall_numbered_iff.mp hfits⟩, hcollects⟩
      obtain ⟨eta, heta, hfile⟩ :=
        (hcollects.exists_index_iff set.index).mp ⟨set, List.mem_cons_self, rfl⟩
      exact ⟨eta, List.mem_of_getElem? heta, hfile⟩
  | @unreadable n e failure hmem hfile hread hcode =>
    exact Or.inr ⟨failure, rfl, Or.inl ⟨hcode, Or.inr ⟨n.2, hplace n hmem, hfile, e, hread⟩⟩⟩
  | @unfit failure hnone hcode =>
    have hunfit : ∀ height, ∃ eta ∈ etas, d.isFile (path base eta) = true ∧
        ¬Fits d base eta height := by
      intro height
      obtain ⟨n, hmem, hfile, hnot⟩ := hnone height (fun set hset => nomatch hset)
      exact ⟨n.2, hplace n hmem, hfile, hnot⟩
    refine Or.inr ⟨failure, rfl, Or.inr ⟨hcode, ?_, fun height hall => ?_⟩⟩
    · obtain ⟨eta, hmem, hfile, -⟩ := hunfit 0
      exact ⟨eta, hmem, hfile⟩
    · obtain ⟨eta, hmem, hfile, hnot⟩ := hunfit height
      exact hnot (hall eta hmem hfile)

theorem collects_of_load {sets : List (DataSet Float)} (h : load d base etas = .ok sets) :
    Complete d base etas ∧ Collects d base etas sets := by
  rcases load_cases d base etas with ⟨sets', hload, hcomplete, hcollects⟩ | ⟨failure, hload, -⟩
  · obtain rfl := Except.ok.inj (h.symm.trans hload)
    exact ⟨hcomplete, hcollects⟩
  · exact absurd (h.symm.trans hload) (by simp)

/-- A data set has as many values as distances, since both are columns of one table. -/
theorem length_of_load {sets : List (DataSet Float)} (h : load d base etas = .ok sets) :
    ∀ set ∈ sets, set.r.length = set.g.length := fun set hset =>
  ((collects_of_load h).2.ofFile set hset).length.symm

theorem exists_load_of_complete (h : Complete d base etas) :
    ∃ sets, load d base etas = .ok sets := by
  obtain ⟨⟨eta, hmem, hfile⟩, height, hfits⟩ := h
  rcases load_cases d base etas with ⟨sets, hload, -⟩ |
    ⟨failure, -, ⟨-, hnone | ⟨other, hother, hthere, e, hread⟩⟩ | ⟨-, -, hunfit⟩⟩
  · exact ⟨sets, hload⟩
  · exact absurd ((hnone eta hmem).symm.trans hfile) Bool.false_ne_true
  · obtain ⟨text, t, hread', -⟩ := hfits other hother hthere
    exact absurd (hread.symm.trans hread') (by simp)
  · exact absurd hfits (hunfit height)

theorem load_of_forall_not_isFile (h : ∀ eta ∈ etas, d.isFile (path base eta) = false) :
    ∃ failure, load d base etas = .error failure ∧ failure.code = 2 := by
  have hcontra : ¬∃ eta ∈ etas, d.isFile (path base eta) = true := by
    rintro ⟨eta, hmem, hfile⟩
    exact absurd ((h eta hmem).symm.trans hfile) Bool.false_ne_true
  rcases load_cases d base etas with ⟨sets, -, hcomplete, -⟩ |
    ⟨failure, hload, ⟨hcode, -⟩ | ⟨-, hsome, -⟩⟩
  · exact absurd hcomplete.exists_file hcontra
  · exact ⟨failure, hload, hcode⟩
  · exact absurd hsome hcontra

theorem load_of_spoiled (hread : ∀ eta ∈ etas, d.isFile (path base eta) = true →
      ∃ text, d.readText (path base eta) = .ok text) (h : Spoiled d base etas) :
    ∃ failure, load d base etas = .error failure ∧ failure.code = 3 := by
  rcases load_cases d base etas with ⟨sets, -, hcomplete, -⟩ |
    ⟨failure, hload, ⟨-, hnone | ⟨eta, hmem, hfile, e, herror⟩⟩ | ⟨hcode, -⟩⟩
  · obtain ⟨height, hfits⟩ := hcomplete.fits
    exact absurd hfits (h.not_fits height)
  · -- Without a file there is nothing that could be spoiled: any height would do.
    exact absurd (fun eta hmem hfile => absurd ((hnone eta hmem).symm.trans hfile)
      Bool.false_ne_true) (h.not_fits 0)
  · obtain ⟨text, htext⟩ := hread eta hmem hfile
    exact absurd (herror.symm.trans htext) (by simp)
  · exact ⟨failure, hload, hcode⟩

/-- **Loading tables loses and mixes nothing.**  The tables of a list of filling fractions are
loaded if and only if one of them is there, and all that are there are readable tables of at least
two columns and of one height.  The data sets are then those of the files, in order and by position.
Without a file the input is at fault; and if all files can be read but one is no table, is too
narrow or is of another height, the data are. -/
theorem load_complete (d : Directory) (base : String) (etas : List Float) :
    ((∃ sets, load d base etas = .ok sets) ↔ Complete d base etas) ∧
    (∀ sets, load d base etas = .ok sets → Collects d base etas sets) ∧
    ((∀ eta ∈ etas, d.isFile (path base eta) = false) →
      ∃ failure, load d base etas = .error failure ∧ failure.code = 2) ∧
    ((∀ eta ∈ etas, d.isFile (path base eta) = true →
        ∃ text, d.readText (path base eta) = .ok text) →
      Spoiled d base etas → ∃ failure, load d base etas = .error failure ∧ failure.code = 3) := by
  refine ⟨⟨fun ⟨sets, h⟩ => (collects_of_load h).1, exists_load_of_complete⟩,
    fun sets h => (collects_of_load h).2, load_of_forall_not_isFile, load_of_spoiled⟩

/-! ## An example -/

/-- What has to be looked at to see that a file of a folder fits. -/
theorem fits_of_check {folder : String} {place : Place} (name : String) {eta : Float}
    {text : String} {height : ℕ} (hfolder : Directory.FolderAt d folder place)
    (hname : Directory.IsName name) (hpath : path base eta = joinPath folder name)
    (hentry : d.entryAt (place ++ [name]) = some (.file (.text text) false))
    (hcheck : (Table.parse text).toOption.any
      (fun t => decide (2 ≤ t.width) && t.height == height) = true) :
    d.isFile (path base eta) = true ∧ Fits d base eta height := by
  rw [hpath]
  refine ⟨Directory.isFile_joinPath hfolder hname hentry, text, ?_⟩
  have hread := Directory.readText_joinPath hfolder hname hentry
  cases hparse : Table.parse text with
  | error e =>
    rw [hparse] at hcheck
    exact absurd hcheck Bool.false_ne_true
  | ok t =>
    rw [hparse, Except.toOption, Option.any_some, Bool.and_eq_true, decide_eq_true_eq,
      beq_iff_eq] at hcheck
    exact ⟨t, hpath ▸ hread, rfl, hcheck⟩

/-- Two tables of two rows, of which one has a column more than is needed, and a comment; and one
of a single row.  They are in a folder of the root, beside the working folder. -/
def threeTables : Directory :=
  ⟨["work"], [(["mc"], .folder),
    (["mc", "gr-0.40.dat"], .file (.text "2.0 0.8\n2.1 0.6\n") false),
    (["mc", "gr-0.20.dat"], .file (.text "# r n\n2.0 0.3 9\n2.1 0.25 9\n") false),
    (["mc", "gr-0.10.dat"], .file (.text "2.0 0.1\n") false)]⟩

theorem folderAt_threeTables : Directory.FolderAt threeTables "/mc" ["mc"] :=
  ⟨by decide, by cbv, by cbv⟩

/-- The first of three filling fractions has no table, and the other two make sets of two rows; with
the third table they are of different heights. -/
theorem load_complete_threeTables :
    (∃ sets, load threeTables "/mc/gr" [0.45, 0.4, 0.2] = .ok sets ∧
      ((¬∃ set ∈ sets, set.index = 0) ∧ (∃ set ∈ sets, set.index = 1) ∧
        ∃ set ∈ sets, set.index = 2) ∧
      ∃ height, 0 < height ∧ ∀ set ∈ sets, set.r.length = height ∧ set.g.length = height) ∧
    ∃ failure, load threeTables "/mc/gr" [0.4, 0.1] = .error failure ∧ failure.code = 3 := by
  have hfolder := folderAt_threeTables
  have hnone : threeTables.isFile (path "/mc/gr" 0.45) = false := by
    rw [(by decide +kernel : path "/mc/gr" 0.45 = joinPath "/mc" "gr-0.45.dat")]
    exact Directory.isFile_joinPath_of_none hfolder (by constructor <;> decide) (by cbv)
  have hfirst : threeTables.isFile (path "/mc/gr" 0.4) = true ∧ Fits threeTables "/mc/gr" 0.4 2 :=
    fits_of_check "gr-0.40.dat" hfolder (by constructor <;> decide) (by decide +kernel) rfl
      (by decide +kernel)
  have hsecond : threeTables.isFile (path "/mc/gr" 0.2) = true ∧ Fits threeTables "/mc/gr" 0.2 2 :=
    fits_of_check "gr-0.20.dat" hfolder (by constructor <;> decide) (by decide +kernel) rfl
      (by decide +kernel)
  have hthird : threeTables.isFile (path "/mc/gr" 0.1) = true ∧ Fits threeTables "/mc/gr" 0.1 1 :=
    fits_of_check "gr-0.10.dat" hfolder (by constructor <;> decide) (by decide +kernel) rfl
      (by decide +kernel)
  have hcomplete : Complete threeTables "/mc/gr" [0.45, 0.4, 0.2] := by
    refine ⟨⟨0.4, by simp, hfirst.1⟩, 2, fun eta hmem hfile => ?_⟩
    rcases List.mem_cons.mp hmem with rfl | hmem
    · exact absurd (hnone.symm.trans hfile) Bool.false_ne_true
    rcases List.mem_cons.mp hmem with rfl | hmem
    · exact hfirst.2
    · obtain rfl := List.mem_singleton.mp hmem
      exact hsecond.2
  obtain ⟨sets, hload⟩ := (load_complete threeTables "/mc/gr" [0.45, 0.4, 0.2]).1.mpr hcomplete
  have hcollects := (load_complete threeTables "/mc/gr" [0.45, 0.4, 0.2]).2.1 sets hload
  refine ⟨⟨sets, hload, ⟨?_, ?_, ?_⟩, hcollects.height⟩, ?_⟩
  · rw [hcollects.exists_index_iff 0]
    rintro ⟨eta, heta, hfile⟩
    obtain rfl := Option.some.inj heta
    exact absurd (hnone.symm.trans hfile) Bool.false_ne_true
  · exact (hcollects.exists_index_iff 1).mpr ⟨0.4, rfl, hfirst.1⟩
  · exact (hcollects.exists_index_iff 2).mpr ⟨0.2, rfl, hsecond.1⟩
  · refine (load_complete threeTables "/mc/gr" [0.4, 0.1]).2.2.2 (fun eta hmem _ => ?_)
      (.uneven (by simp) (by simp) hfirst.1 hthird.1 hfirst.2 hthird.2 (by decide))
    rcases List.mem_cons.mp hmem with rfl | hmem
    · exact hfirst.2.imp fun text h => h.elim fun t h => h.1
    · obtain rfl := List.mem_singleton.mp hmem
      exact hthird.2.imp fun text h => h.elim fun t h => h.1

end Whole

end DataSet

end SphereLab
