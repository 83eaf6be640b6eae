import Mathlib
import SphereLab.Session
import SphereLab.Proofs.Directory.Components
import SphereLab.Proofs.Directory.Overwriting

/-!
# Which profiles are drawn over each other

The figure of a profile file is named after the file without its extension, and it goes into the
folder of the file or into one folder for all.  The extension and, with one folder for all, the folder
of the file are not in that name.  So two files can have one figure, of which only the last is left,
and a file that is named like a figure is drawn over.  The run succeeds all the same.

* `components_figurePath`: the figure of a file, by its folder and its name.
* `figuresApart_iff`: when a list of files has as many figures, none of them one of the files.
* `figuresApart_iff_of_isDataFile`: the same for files that are named as the documentation has it.
* `exists_leavesFigures`: what a run over any files leaves behind.
* `figures_kept_apart`: the three together.
-/

namespace SphereLab

/-! ## Steps of a session -/

namespace Session

variable {σ : Type} {c c' : Console σ}

/-- Two steps that end well are one that ends well, and another one from where it ended. -/
theorem exists_of_bind_eq_ok {α β : Type} {m : Session σ α} {f : α → Session σ β} {b : β}
    (h : (m >>= f) c = (.ok b, c')) :
    ∃ a between, m c = (.ok a, between) ∧ f a between = (.ok b, c') := by
  have hbind : (m >>= f) c =
      match m c with
      | (.ok a, between) => f a between
      | (.error e, between) => (.error e, between) := by
    change (match m c with | (a, between) => ExceptT.bindCont f a between) = _
    cases m c with
    | mk result between => cases result <;> rfl
  rw [hbind] at h
  cases hm : m c with
  | mk result between =>
    rw [hm] at h
    cases result with
    | ok a => exact ⟨a, between, rfl, h⟩
    | error e => nomatch h

/-- A look that ends well has changed nothing. -/
theorem of_file_look {α : Type} {look : Directory → Except Failure α} {a : α}
    (h : file (Filing.look look) c = (.ok a, c')) : look c.directory = .ok a ∧ c' = c := by
  rw [file, Filing.carryOut_look] at h
  obtain ⟨hlook, hconsole⟩ := Prod.mk.inj h
  exact ⟨hlook, hconsole.symm⟩

/-- What is printed does not change the directory. -/
theorem directory_preview {r : Request} {fig : Figure Float}
    (h : preview r fig c = (.ok (), c')) : c'.directory = c.directory := by
  rw [preview] at h
  split at h
  · rw [← (Prod.mk.inj h).2]
    rfl
  · rw [← (Prod.mk.inj h).2]

/-- A figure that has been drawn was given to the renderer, which succeeded. -/
theorem exists_of_draw {o : Outside σ} {path : String} {fig : Figure Float}
    (h : draw o path fig c = (.ok (), c')) :
    ∃ drawing, fig.draw = .ok drawing ∧
      o.render drawing path c.directory = (none, c'.directory) := by
  rw [draw, Figure.write] at h
  cases hdraw : fig.draw with
  | error e =>
    rw [hdraw] at h
    exact absurd (of_file_look h).1 (by simp)
  | ok drawing =>
    refine ⟨drawing, rfl, ?_⟩
    rw [hdraw, file, Filing.carryOut] at h
    dsimp only at h
    cases hrender : o.render drawing path c.directory with
    | mk reason d =>
      rw [hrender] at h
      cases reason with
      | some reason => nomatch h
      | none => rw [← (Prod.mk.inj h).2]

end Session

namespace DensityProfile

open PathText

/-! ## Paths of figures -/

/-- The name of the figure of a file, without its extension. -/
def figureStem (file : String) : String := (stem? file).getD "density"

/-- The folder that the figure of a file goes into, by its components. -/
def figureFolder (folder : Option String) (file : String) : List String :=
  match folder with
  | some folder => components folder
  | none => (components file).dropLast

section Paths

variable (folder : Option String) (file : String)

/-- A name of a figure is none that ends otherwise. -/
theorem figureName_ne {name : String} (h : name.toList.getLast? ≠ some 'g') :
    figureStem file ++ ".svg" ≠ name := by
  rintro rfl
  simp [List.getLast?_append] at h

theorem isComponent_figureName : IsComponent (figureStem file ++ ".svg") := by
  have hstem : '/' ∉ (figureStem file).toList := by
    rw [figureStem]
    cases h : stem? file with
    | none => decide
    | some stem => exact slash_notMem_stem? h
  exact ⟨by simpa using hstem, figureName_ne file (by decide), figureName_ne file (by decide)⟩

theorem components_figurePath :
    components (figurePath file folder) =
      figureFolder folder file ++ [figureStem file ++ ".svg"] := by
  refine (components_joinPath _ (isComponent_figureName file)).trans ?_
  cases folder with
  | none => exact congrArg (· ++ _) (components_parent? file)
  | some folder => rfl

end Paths

/-! ## Figures apart from each other and from the files -/

/-- The figures of files have paths of their own, and none is the path of a file. -/
structure FiguresApart (folder : Option String) (files : List String) : Prop where
  pairwise : (files.map (figurePath · folder)).Pairwise fun path other =>
    components path ≠ components other
  fresh : ∀ file ∈ files, ∀ other ∈ files,
    components (figurePath file folder) ≠ components other

section Apart

variable {folder : Option String} {files : List String}

theorem figurePath_ne_iff {file other : String} :
    components (figurePath file folder) ≠ components (figurePath other folder) ↔
      (figureStem file = figureStem other →
        folder = none ∧ (components file).dropLast ≠ (components other).dropLast) := by
  rw [components_figurePath, components_figurePath, Ne, List.append_singleton_inj,
    String.append_left_inj, not_and']
  cases folder with
  | none => simp [figureFolder]
  | some folder => simp [figureFolder]

/-- A file that is a figure is named like it and in the folder of the figures. -/
theorem figurePath_ne_file_iff {file other : String} :
    components (figurePath file folder) ≠ components other ↔
      (fileName? other = some (figureStem file ++ ".svg") →
        (components other).dropLast ≠ figureFolder folder file) := by
  have hname : fileName? other = some (figureStem file ++ ".svg") ↔
      (components other).getLast? = some (figureStem file ++ ".svg") := by
    rw [fileName?_eq_some_iff]
    exact and_iff_left ⟨figureName_ne file (by decide), figureName_ne file (by decide),
      figureName_ne file (by decide)⟩
  rw [components_figurePath, hname]
  constructor
  · intro hne hlast hfolder
    exact hne (by rw [← hfolder, List.dropLast_append_getLast? _ hlast])
  · intro h heq
    rw [← heq, List.getLast?_concat, List.dropLast_concat] at h
    exact h rfl rfl

/-- **When figures are apart.**  No two of the files have names that are alike without extensions and,
where every figure goes into the folder of its file, one folder; and no file in a folder of figures is
named like one. -/
theorem figuresApart_iff : FiguresApart folder files ↔
    (files.Pairwise fun file other => figureStem file = figureStem other →
      folder = none ∧ (components file).dropLast ≠ (components other).dropLast) ∧
    ∀ file ∈ files, ∀ other ∈ files, fileName? other = some (figureStem file ++ ".svg") →
      (components other).dropLast ≠ figureFolder folder file := by
  constructor
  · rintro ⟨hpairwise, hfresh⟩
    exact ⟨(List.pairwise_map.mp hpairwise).imp figurePath_ne_iff.mp,
      fun file hfile other hother => figurePath_ne_file_iff.mp (hfresh file hfile other hother)⟩
  · rintro ⟨hpairwise, hfresh⟩
    exact ⟨List.pairwise_map.mpr (hpairwise.imp figurePath_ne_iff.mpr),
      fun file hfile other hother => figurePath_ne_file_iff.mpr (hfresh file hfile other hother)⟩

/-- Two files of one name have one figure if all figures go into one folder. -/
example : ¬ FiguresApart (some "out") ["a/p.dat", "b/p.dat"] :=
  fun h => absurd h.pairwise (by decide +kernel)

/-- A file with a name and the extension of a data file. -/
def IsDataFile (file : String) : Prop :=
  ∃ stem, stem ≠ "" ∧ fileName? file = some (stem ++ ".dat")

/-- The name of a data file is that of its figure with the other extension. -/
theorem IsDataFile.fileName? {file : String} (h : IsDataFile file) :
    PathText.fileName? file = some (figureStem file ++ ".dat") := by
  obtain ⟨stem, hne, hname⟩ := h
  have hstem : stem? file = some stem := by
    have hextension : stem ++ ".dat" = stem ++ "." ++ "dat" := by
      rw [String.append_assoc]
      rfl
    rw [stem?, hname, Option.map_some, hextension, withoutExtension_append hne (by decide)]
  rw [figureStem, hstem, Option.getD_some, hname]

/-- Different data files have figures of their own if these stay with the files, or if the files have
different names. -/
theorem figuresApart_iff_of_isDataFile (hfiles : ∀ file ∈ files, IsDataFile file)
    (hdifferent : files.Pairwise fun file other => components file ≠ components other) :
    FiguresApart folder files ↔ folder = none ∨
      files.Pairwise fun file other => PathText.fileName? file ≠ PathText.fileName? other := by
  have hstems : ∀ file ∈ files, ∀ other ∈ files, figureStem file = figureStem other ↔
      PathText.fileName? file = PathText.fileName? other := by
    intro file hfile other hother
    rw [(hfiles file hfile).fileName?, (hfiles other hother).fileName?, Option.some.injEq,
      String.append_left_inj]
  have hfresh : ∀ file ∈ files, ∀ other ∈ files,
      PathText.fileName? other ≠ some (figureStem file ++ ".svg") := by
    intro file _ other hother h
    rw [(hfiles other hother).fileName?, Option.some.injEq] at h
    exact figureName_ne file (by simp [List.getLast?_append]) h.symm
  rw [figuresApart_iff, and_iff_left fun file hfile other hother h =>
    absurd h (hfresh file hfile other hother)]
  cases folder with
  | none =>
    simp only [true_and, true_or, iff_true]
    -- Files with one name that are different are in different folders.
    refine hdifferent.imp_of_mem fun hfile hother hne hstem hfolder => hne ?_
    have hlast := (fileName?_eq_some_iff.mp (hfiles _ hfile).fileName?).1
    have hlast' := (fileName?_eq_some_iff.mp (hfiles _ hother).fileName?).1
    rw [← List.dropLast_append_getLast? _ hlast, ← List.dropLast_append_getLast? _ hlast', hfolder,
      hstem]
  | some folder =>
    simp only [reduceCtorEq, false_and, false_or]
    refine List.Pairwise.iff_of_mem fun hfile hother => ?_
    rw [Ne, ← hstems _ hfile _ hother]

end Apart

/-! ## What a run leaves behind -/

section Run

open Directory (ChangesOnly)

variable {σ : Type} {folder : Option String} {files : List String} {d d' : Directory}
  {image : Drawing → Contents}

/-- The image of the figure of a file, as the file is read in one directory, is at a place in
another. -/
def ShowsFigure (image : Drawing → Contents) (d d' : Directory) (file : String) (place : Place) :
    Prop :=
  ∃ fig drawing executable, figure d file = .ok fig ∧ fig.draw = .ok drawing ∧
    d'.entryAt place = some (.file (image drawing) executable)

/-- The places of figures are different, and no file is at one. -/
structure PlacesApart (d : Directory) (files : List String) (places : List Place) : Prop where
  nodup : places.Nodup
  fresh : ∀ file ∈ files, ∀ place ∈ places, d.placeFrom d.home file ≠ .ok place

/-- What a run over files leaves behind: an image at the place of each figure path, and all else as it
was.  If the places are apart, each has the figure of its own file, as it was read before the run. -/
structure LeavesFigures (image : Drawing → Contents) (folder : Option String) (d d' : Directory)
    (files : List String) (places : List Place) : Prop where
  places_eq : List.Forall₂ (fun file place =>
    d.placeFrom d.home (figurePath file folder) = .ok place) files places
  changesOnly : ChangesOnly {place | place ∈ places} d d'
  drawn : ∀ place ∈ places, ∃ drawing : Drawing, ∃ executable,
    d'.entryAt place = some (.file (image drawing) executable)
  apart : PlacesApart d files places → List.Forall₂ (ShowsFigure image d d') files places

theorem figure_congr {file : String} (h : d.readText file = d'.readText file) :
    figure d file = figure d' file := by
  rw [figure, figure, Table.load, Table.load, h]

theorem exists_readText_of_figure {file : String} {fig : Figure Float}
    (h : figure d file = .ok fig) : ∃ text, d.readText file = .ok text := by
  rw [figure, Table.load] at h
  cases hread : d.readText file with
  | ok text => exact ⟨text, rfl⟩
  | error e => simp [hread] at h

variable {o : Outside σ} {r : Request} {c c' : Console σ}

/-- What comes of one file: its figure, where its figure path leads. -/
theorem exists_place_of_profile (hwrites : o.render.Writes image) {file : String}
    (h : Session.profile o r folder file c = (.ok (), c')) :
    ∃ place, c.directory.placeFrom c.directory.home (figurePath file folder) = .ok place ∧
      ShowsFigure image c.directory c'.directory file place ∧
      ChangesOnly {place} c.directory c'.directory := by
  rw [Session.profile] at h
  obtain ⟨fig, c₁, hfigure, h⟩ := Session.exists_of_bind_eq_ok h
  obtain ⟨⟨⟩, c₂, hdraw, h⟩ := Session.exists_of_bind_eq_ok h
  obtain ⟨⟨⟩, c₃, hsay, hpreview⟩ := Session.exists_of_bind_eq_ok h
  obtain ⟨hfigure, rfl⟩ := Session.of_file_look hfigure
  obtain ⟨drawing, hdrawing, hrender⟩ := Session.exists_of_draw hdraw
  have hdirectory : c'.directory = c₂.directory := by
    rw [Session.directory_preview hpreview, ← (Prod.mk.inj hsay).2]
    rfl
  obtain ⟨place, executable, hplace, hfolder, hput⟩ :=
    Directory.exists_put_of_writeFrom_eq_ok (hwrites hrender)
  rw [hdirectory, hput]
  exact ⟨place, hplace, ⟨fig, drawing, executable, hfigure, hdrawing,
    Directory.entryAt_put_self _ (Directory.not_isPrefix_home hfolder) _⟩,
    Directory.changesOnly_put hfolder _ _⟩

theorem exists_leavesFigures (hwrites : o.render.Writes image)
    (h : files.forM (Session.profile o r folder) c = (.ok (), c')) :
    ∃ places, LeavesFigures image folder c.directory c'.directory files places := by
  induction files generalizing c with
  | nil =>
    obtain ⟨-, rfl⟩ := Prod.mk.inj h
    exact ⟨[], .nil, ChangesOnly.refl _ _, by simp, fun _ => .nil⟩
  | cons file rest ih =>
    change (Session.profile o r folder file >>= fun _ =>
      rest.forM (Session.profile o r folder)) c = _ at h
    obtain ⟨⟨⟩, c₁, hfile, hrest⟩ := Session.exists_of_bind_eq_ok h
    obtain ⟨place, hplace, hshows, hchange⟩ := exists_place_of_profile hwrites hfile
    obtain ⟨places, hplaces, hchanges, hdrawn, hapart⟩ := ih hrest
    have hmeans : ∀ path target,
        c₁.directory.placeFrom c₁.directory.home path = .ok target ↔
          c.directory.placeFrom c.directory.home path = .ok target := by
      intro path target
      rw [hchange.home]
      exact hchange.placeFrom_eq_ok_iff
    have hplaces' : List.Forall₂ (fun file place =>
        c.directory.placeFrom c.directory.home (figurePath file folder) = .ok place) rest places :=
      hplaces.imp fun _ _ h => (hmeans _ _).mp h
    refine ⟨place :: places, .cons hplace hplaces', ?_, ?_, ?_⟩
    · exact (hchange.mono (by simp)).trans (hchanges.mono fun _ h => List.mem_cons_of_mem _ h)
    · intro other hother
      by_cases hlater : other ∈ places
      · exact hdrawn other hlater
      · obtain rfl := (List.mem_cons.mp hother).resolve_right hlater
        obtain ⟨_, drawing, executable, -, -, hentry⟩ := hshows
        exact ⟨drawing, executable, by rw [hchanges.kept _ hlater, hentry]⟩
    · rintro ⟨hnodup, hfresh⟩
      obtain ⟨hlater, hnodup⟩ := List.nodup_cons.mp hnodup
      have hown := hapart ⟨hnodup, fun other hother target htarget h =>
        hfresh other (List.mem_cons_of_mem _ hother) target (List.mem_cons_of_mem _ htarget)
          ((hmeans _ _).mp h)⟩
      obtain ⟨fig, drawing, executable, hfigure, hdrawing, hentry⟩ := hshows
      refine .cons ⟨fig, drawing, executable, hfigure, hdrawing, ?_⟩ ?_
      · rw [hchanges.kept _ hlater, hentry]
      · refine ((List.forall₂_and_left _ _).mpr ⟨fun _ h => h, hown⟩).imp ?_
        rintro other target ⟨hother, fig, drawing, executable, hfigure, hdrawing, hentry⟩
        refine ⟨fig, drawing, executable, ?_, hdrawing, hentry⟩
        -- The first figure is not at the place of a later file, so that one is read as it was.
        obtain ⟨text, htext⟩ := exists_readText_of_figure hfigure
        have hbefore : c.directory.readText other = .ok text := by
          refine (hchange.readText_eq_ok_iff ?_).mp htext
          rintro _ rfl
          exact hfresh other (List.mem_cons_of_mem _ hother) _ List.mem_cons_self
        rw [figure_congr (hbefore.trans htext.symm), hfigure]

/-- A path that is read without going up, and without a dot that it begins with. -/
def IsPlain (path : String) : Prop := "." ∉ components path ∧ ".." ∉ components path

theorem isPlain_figurePath {file : String} (h : ∀ path ∈ file :: folder.toList, IsPlain path) :
    IsPlain (figurePath file folder) := by
  have hfolder : ∀ name ∈ figureFolder folder file, name ≠ "." ∧ name ≠ ".." := by
    intro name hname
    have hin : ∃ path ∈ file :: folder.toList, name ∈ components path := by
      cases folder with
      | none => exact ⟨file, List.mem_cons_self, List.mem_of_mem_dropLast hname⟩
      | some folder => exact ⟨folder, by simp, hname⟩
    obtain ⟨path, hpath, hmem⟩ := hin
    obtain ⟨hdot, hdots⟩ := h path hpath
    exact ⟨fun heq => hdot (heq ▸ hmem), fun heq => hdots (heq ▸ hmem)⟩
  rw [IsPlain, components_figurePath]
  simp only [List.mem_append, List.mem_singleton, not_or]
  exact ⟨⟨fun hmem => (hfolder _ hmem).1 rfl, (figureName_ne file (by decide)).symm⟩,
    fun hmem => (hfolder _ hmem).2 rfl, (figureName_ne file (by decide)).symm⟩

/-- All of some paths begin at the root, or none does. -/
def BeginTogether (paths : List String) : Prop :=
  ∀ path ∈ paths, ∀ other ∈ paths, path.startsWith "/" = other.startsWith "/"

/-- Different plain paths that begin together mean different places. -/
theorem place_ne_of_isPlain {path other : String} {place place' : Place} (hplain : IsPlain path)
    (hplain' : IsPlain other) (hroot : path.startsWith "/" = other.startsWith "/")
    (hne : components path ≠ components other) (hplace : d.placeFrom d.home path = .ok place)
    (hplace' : d.placeFrom d.home other = .ok place') : place ≠ place' := by
  have horigin : Directory.origin d.home path = Directory.origin d.home other := by
    rw [Directory.origin, Directory.origin, hroot]
  have hroots : rootOf path = rootOf other := by rw [rootOf, rootOf, hroot]
  rw [Directory.place_eq_origin_append hplain.1 hplain.2 hplace,
    Directory.place_eq_origin_append hplain'.1 hplain'.2 hplace', horigin]
  intro heq
  exact hne (by rw [components, components, hroots, List.append_cancel_left heq])

/-- Plain paths that are apart lead to places that are, if they begin together. -/
theorem LeavesFigures.placesApart {places : List Place}
    (h : LeavesFigures image folder d d' files places)
    (hplain : ∀ path ∈ folder.toList ++ files, IsPlain path)
    (hroot : BeginTogether (files ++ files.map (figurePath · folder)))
    (hapart : FiguresApart folder files) : PlacesApart d files places := by
  have hfigure : ∀ file ∈ files, IsPlain (figurePath file folder) := by
    intro file hfile
    refine isPlain_figurePath fun path hpath => hplain path (List.mem_append.mpr ?_)
    rcases List.mem_cons.mp hpath with rfl | hpath
    · exact Or.inr hfile
    · exact Or.inl hpath
  have hmem : ∀ file ∈ files, figurePath file folder ∈ files ++ files.map (figurePath · folder) :=
    fun file hfile => List.mem_append_right _ (List.mem_map_of_mem hfile)
  constructor
  · -- Two places are those of two figures of the list.
    have hpairwise := List.pairwise_map.mp hapart.pairwise
    rw [List.Nodup, List.pairwise_iff_getElem]
    intro i j hi hj hij
    have hlength := h.places_eq.length_eq
    have hfile := List.getElem_mem (hlength ▸ hi : i < files.length)
    have hother := List.getElem_mem (hlength ▸ hj : j < files.length)
    exact place_ne_of_isPlain (hfigure _ hfile) (hfigure _ hother)
      (hroot _ (hmem _ hfile) _ (hmem _ hother))
      (List.pairwise_iff_getElem.mp hpairwise i j _ _ hij)
      (h.places_eq.get (hlength ▸ hi) hi) (h.places_eq.get (hlength ▸ hj) hj)
  · intro file hfile place hplace hmeans
    obtain ⟨i, hi, rfl⟩ := List.getElem_of_mem hplace
    have hlength := h.places_eq.length_eq
    have hother := List.getElem_mem (hlength ▸ hi : i < files.length)
    exact place_ne_of_isPlain (hfigure _ hother) (hplain file (List.mem_append_right _ hfile))
      (hroot _ (hmem _ hother) _ (List.mem_append_left _ hfile)) (hapart.fresh _ hother file hfile)
      (h.places_eq.get (hlength ▸ hi) hi) hmeans rfl

end Run

/-- **Figures of their own.**  Files that are plotted have figures of their own, and keep what they
hold, exactly if no two have one stem in one folder of figures and none there is named like a figure;
for data files with the extension that the documentation gives them, if the figures stay with the
files or all names are different.  A run that ends well puts an image where each figure path leads and
changes nothing else, whatever images the renderer makes, so what is missing is said by the places: if
they are apart, as those of plain paths are when the paths are, there are as many figures as files,
each that of its file, and every file reads as before. -/
theorem figures_kept_apart (folder : Option String) (files : List String) :
    (FiguresApart folder files ↔
      (files.Pairwise fun file other => figureStem file = figureStem other →
        folder = none ∧ (components file).dropLast ≠ (components other).dropLast) ∧
      ∀ file ∈ files, ∀ other ∈ files, fileName? other = some (figureStem file ++ ".svg") →
        (components other).dropLast ≠ figureFolder folder file) ∧
    ((∀ file ∈ files, IsDataFile file) →
      (files.Pairwise fun file other => components file ≠ components other) →
      (FiguresApart folder files ↔ folder = none ∨
        files.Pairwise fun file other => fileName? file ≠ fileName? other)) ∧
    ∀ {σ : Type} (o : Outside σ) (image : Drawing → Contents), o.render.Writes image →
      ∀ settings moment preview width height c c',
        Session.perform o settings moment ⟨preview, width, height, .profiles ⟨files, folder⟩⟩ c =
          (.ok (), c') →
        ∃ places, LeavesFigures image folder c.directory c'.directory files places ∧
          ((∀ path ∈ folder.toList ++ files, IsPlain path) →
            BeginTogether (files ++ files.map (figurePath · folder)) →
            FiguresApart folder files → PlacesApart c.directory files places) ∧
          (PlacesApart c.directory files places → ∀ file ∈ files, ∀ text,
            c'.directory.readText file = .ok text ↔ c.directory.readText file = .ok text) := by
  refine ⟨figuresApart_iff, figuresApart_iff_of_isDataFile, ?_⟩
  intro σ o image hwrites settings moment preview width height c c' h
  obtain ⟨places, hleaves⟩ := exists_leavesFigures hwrites h
  refine ⟨places, hleaves, hleaves.placesApart, fun hapart file hfile text => ?_⟩
  exact hleaves.changesOnly.readText_eq_ok_iff (hapart.fresh file hfile)

/-- Two profiles in two folders, one beside the working folder, and a folder for figures. -/
def twoProfiles : Directory :=
  let text := "0 1 2 3 4 5 6 7 8 9\n1 1 2 3 4 5 6 7 8 9\n"
  ⟨["work"], [(["work", "a"], .folder), (["b"], .folder), (["out"], .folder),
    (["work", "a", "p.dat"], .file (.text text) false), (["b", "q.dat"], .file (.text text) false)]⟩

/-- A renderer that writes graphics with nothing but the caption. -/
def captions : Renderer :=
  .ofTexts fun drawing => "<svg><text>" ++ drawing.caption.getD "" ++ "</text></svg>\n"

/-- Calls of programs that are never there, and captions for images. -/
def captionsOnly : Outside Unit := ⟨fun _ _ _ c => (.unstarted "not here", c), captions⟩

/-- Their figures have different names, and the run over them ends well. -/
theorem figures_kept_apart_two :
    ∃ c', Session.perform captionsOnly ⟨none, none, none, 60⟩ 0
        ⟨false, 10, 5, .profiles ⟨["/work/a/p.dat", "/b/q.dat"], some "/out"⟩⟩
        ⟨twoProfiles, [], [], ()⟩ = (.ok (), c') ∧
      ∃ places, LeavesFigures
          (fun drawing =>
            .text ("<svg><text>" ++ drawing.caption.getD "" ++ "</text></svg>\n"))
          (some "/out") twoProfiles c'.directory ["/work/a/p.dat", "/b/q.dat"] places ∧
        PlacesApart twoProfiles ["/work/a/p.dat", "/b/q.dat"] places := by
  have hnul : ∀ path : String, path.contains '\x00' = path.toList.contains '\x00' := by
    intro path
    rw [Bool.eq_iff_iff]
    simp
  have hrun : (Session.perform captionsOnly ⟨none, none, none, 60⟩ 0
      ⟨false, 10, 5, .profiles ⟨["/work/a/p.dat", "/b/q.dat"], some "/out"⟩⟩
      ⟨twoProfiles, [], [], ()⟩).1.isOk = true := by
    change ((Session.profile captionsOnly _ (some "/out") "/work/a/p.dat" >>= fun _ =>
      Session.profile captionsOnly _ (some "/out") "/b/q.dat" >>= fun _ => pure ())
        (⟨twoProfiles, [], [], ()⟩ : Console Unit)).1.isOk = true
    simp only [Session.profile, Session.draw, figure, Figure.write, captionsOnly, captions,
      Renderer.ofTexts, Table.load, Directory.readText, Directory.writeText, Directory.writeFrom,
      Directory.entryFrom, Directory.placeFrom, hnul]
    decide +kernel
  obtain ⟨-, hdata, hleaves⟩ := figures_kept_apart (some "/out") ["/work/a/p.dat", "/b/q.dat"]
  have hapart : FiguresApart (some "/out") ["/work/a/p.dat", "/b/q.dat"] := by
    refine (hdata ?_ (by decide +kernel)).mpr (Or.inr (by decide +kernel))
    have hp : IsDataFile "/work/a/p.dat" := ⟨"p", by decide, by decide +kernel⟩
    have hq : IsDataFile "/b/q.dat" := ⟨"q", by decide, by decide +kernel⟩
    simp [hp, hq]
  cases hresult : Session.perform captionsOnly ⟨none, none, none, 60⟩ 0
      ⟨false, 10, 5, .profiles ⟨["/work/a/p.dat", "/b/q.dat"], some "/out"⟩⟩
      ⟨twoProfiles, [], [], ()⟩ with
  | mk result c' =>
    rw [hresult] at hrun
    cases result with
    | error e => exact absurd hrun (by simp [Except.isOk, Except.toBool])
    | ok _ =>
      obtain ⟨places, hplaces, hplain, -⟩ :=
        hleaves captionsOnly _ (Renderer.ofTexts_writes _) _ _ _ _ _ _ _ hresult
      refine ⟨c', rfl, places, hplaces, hplain ?_ ?_ hapart⟩
      · change ∀ path ∈ ["/out", "/work/a/p.dat", "/b/q.dat"],
          "." ∉ components path ∧ ".." ∉ components path
        decide +kernel
      · unfold BeginTogether
        decide +kernel

end DensityProfile

end SphereLab
