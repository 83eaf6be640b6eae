import Mathlib
import SphereLab.Proofs.Directory.Components
import SphereLab.Proofs.Directory.Overwriting

/-!
# Folders that several runs share

Runs that share a folder create the same folders over and over, each below it what it needs, and put
their files there.  What a run finds of its own does not depend on the others as long as they only
add entries, and none at its places but folders that it would have created itself.

* `SamePath`: two texts mean one place, or could.
* `names_eq_of_samePath`: below one folder, one path has one run of names.
* `exists_folderAt_of_createFolders`: folders that have been created are there.
* `createFolders_joinPath_eq`: creating a path below a folder creates the folder first.
* `entryAt_of_createAlong`: creating folders adds nothing but folders on the way.
* `Prepares`, `createAlong_of_prepares`: folders that others have created change nothing for those
  who would create them.
* `SameFiles`: two directories have the same in a folder, for some names.
-/

namespace SphereLab

namespace Directory

open PathText

/-! ## One path, two texts -/

/-- The pieces of a path can be told from its components. -/
theorem pieces_eq_filter_components (path : String) :
    pieces path = (components path).filter fun name => name != "." && name != "/" := by
  have hslash : ∀ p ∈ namedPieces (segments path), (p != "." && p != "/") = (p != ".") := by
    intro p hp
    have hmem : p ∈ segments path := by
      obtain ⟨⟨i, p'⟩, hfilter, rfl⟩ := List.mem_map.mp hp
      obtain ⟨k, hk, heq⟩ := List.mem_mapIdx.mp (List.mem_filter.mp hfilter).1
      cases heq
      exact List.getElem_mem hk
    have hne : p ≠ "/" := by
      rintro rfl
      exact notMem_of_mem_segments hmem (by decide)
    simp [hne]
  rw [components, List.filter_append, List.filter_congr hslash, ← pieces_eq_filter_namedPieces,
    rootOf]
  split <;> rfl

/-- Two texts are one path: they have the same components, or they mean one place in some
directory. -/
def SamePath (path path' : String) : Prop :=
  components path = components path' ∨
    ∃ d place, placeFrom d d.home path = .ok place ∧ placeFrom d d.home path' = .ok place

/-- Below one folder, a path has one run of names that do not go up. -/
theorem names_eq_of_samePath {path path' : String} {base names names' : List String}
    (horigin : ∀ home, origin home path = origin home path')
    (hpath : pieces path = base ++ names) (hpath' : pieces path' = base ++ names')
    (hnames : ".." ∉ names) (hnames' : ".." ∉ names') (h : SamePath path path') :
    names = names' := by
  rcases h with hcomponents | ⟨d, place, hplace, hplace'⟩
  · have hpieces : base ++ names = base ++ names' := by
      rw [← hpath, ← hpath', pieces_eq_filter_components, pieces_eq_filter_components, hcomponents]
    exact List.append_cancel_left hpieces
  · have hwalk := walk_of_placeFrom hplace
    have hwalk' := walk_of_placeFrom hplace'
    rw [horigin, hpath, walk_append] at hwalk
    rw [hpath', walk_append] at hwalk'
    cases hbase : d.walk (origin d.home path') base with
    | error e =>
      rw [hbase] at hwalk
      exact absurd hwalk (by simp [Except.bind])
    | ok front =>
      rw [hbase] at hwalk hwalk'
      have hfront : front ++ names = front ++ names' := by
        rw [← walk_eq_append hnames hwalk, ← walk_eq_append hnames' hwalk']
      exact List.append_cancel_left hfront

/-! ## Folders that have been created -/

theorem FolderAt.of_grows {d d' : Directory} {path : String} {place : Place}
    (h : FolderAt d path place) (hgrows : Grows d d') : FolderAt d' path place :=
  ⟨h.nul, hgrows.home ▸ walk_of_folders_kept (fun other => hgrows.kept other _) h.walk,
    hgrows.kept place _ h.folder⟩

/-- The way along folders that have been created can be walked. -/
theorem exists_walk_of_createAlong {d d' : Directory} {base : Place} {names : List String}
    (hbase : ∀ front, front <+: base → d.entryAt front = some .folder)
    (h : d.createAlong base names = .ok d') :
    ∃ place, d'.walk base names = .ok place ∧ d'.entryAt place = some .folder := by
  induction names generalizing d base with
  | nil =>
    rw [createAlong] at h
    cases h
    exact ⟨base, by rw [Directory.walk], hbase base List.prefix_rfl⟩
  | cons name rest ih =>
    have hhere : d'.entryAt base = some .folder :=
      (createAlong_grows h).kept _ _ (hbase base List.prefix_rfl)
    rw [createAlong] at h
    rw [Directory.walk, hhere]
    dsimp only
    rw [step]
    split at h
    · rename_i hup
      rw [if_pos hup]
      exact ih (fun front hfront => hbase front (hfront.trans (List.dropLast_prefix base))) h
    · rename_i hup
      rw [if_neg hup]
      dsimp only at h
      split at h
      · rename_i hfolder
        refine ih (fun front hfront => ?_) h
        rcases List.prefix_concat_iff.mp hfront with rfl | hfront
        · exact hfolder
        · exact hbase front hfront
      · exact absurd h (by simp)
      · rename_i hnone
        refine ih (fun front hfront => ?_) h
        rcases List.prefix_concat_iff.mp hfront with rfl | hfront
        · exact entryAt_put_of_none hnone _
        · exact folders_kept_put hnone _ front (hbase front hfront)

theorem exists_folderAt_of_createFolders {d d' : Directory} {path : String}
    (h : d.createFolders path = .ok d') : ∃ place, FolderAt d' path place := by
  obtain ⟨hnul, halong⟩ := createFolders_eq_ok_iff.mp h
  obtain ⟨place, hwalk, hfolder⟩ :=
    exists_walk_of_createAlong (fun front => d.entryAt_of_isPrefix_origin path) halong
  exact ⟨place, by simpa using hnul, (createAlong_grows halong).home ▸ hwalk, hfolder⟩

theorem exists_createAlong_of_append {d d' : Directory} {base : Place} {names rest : List String}
    (h : d.createAlong base (names ++ rest) = .ok d') :
    ∃ between, d.createAlong base names = .ok between := by
  induction names generalizing d base with
  | nil => exact ⟨d, by rw [createAlong]⟩
  | cons name others ih =>
    rw [List.cons_append, createAlong] at h
    rw [createAlong]
    split at h
    · rename_i hup
      rw [if_pos hup]
      exact ih h
    · rename_i hup
      rw [if_neg hup]
      dsimp only at h ⊢
      split at h
      · exact ih h
      · exact absurd h (by simp)
      · exact ih h

section Below

variable {d d' : Directory} {base path : String}

/-- Creating a path below a folder is creating the folder, and then the rest from there. -/
theorem createFolders_joinPath_eq {place : Place} (hcreate : d.createFolders base = .ok d')
    (hfolder : FolderAt d' base place) (hpath : IsRelative path) :
    d.createFolders (joinPath base path) = d'.createAlong place (pieces path) := by
  have halong := (createFolders_eq_ok_iff.mp hcreate).2
  have hwalk := hfolder.walk
  rw [(createAlong_grows halong).home] at hwalk
  have hnul : (joinPath base path).contains '\x00' = false := by
    simpa using nul_notMem_joinPath hfolder.nul hpath
  rw [createFolders, hnul, if_neg (by decide), origin_joinPath _ _ hpath.slash,
    pieces_joinPath base hpath.slash, createAlong_append halong hwalk]

/-- Where a folder cannot be created, nothing below it can. -/
theorem exists_createFolders_of_joinPath (hpath : IsRelative path)
    (h : d.createFolders (joinPath base path) = .ok d') :
    ∃ between, d.createFolders base = .ok between := by
  obtain ⟨hnul, halong⟩ := createFolders_eq_ok_iff.mp h
  obtain ⟨between, hjoin, -⟩ := toList_joinPath base hpath.slash
  rw [origin_joinPath _ _ hpath.slash, pieces_joinPath base hpath.slash] at halong
  obtain ⟨d₀, hbase⟩ := exists_createAlong_of_append halong
  refine ⟨d₀, createFolders_eq_ok_iff.mpr ⟨?_, hbase⟩⟩
  have hnul' : '\x00' ∉ (joinPath base path).toList := by simpa using hnul
  have hbase' : '\x00' ∉ base.toList := by
    intro hmem
    rw [hjoin, List.append_assoc] at hnul'
    exact hnul' (List.mem_append_left _ hmem)
  simpa using hbase'

end Below

/-! ## What creating folders changes -/

/-- Nothing is added but folders on the way. -/
theorem entryAt_of_createAlong {d d' : Directory} {base : Place} {names : List String}
    (hnames : ".." ∉ names) (h : d.createAlong base names = .ok d') (place : Place) :
    d'.entryAt place = d.entryAt place ∨
      d.entryAt place = none ∧ d'.entryAt place = some .folder ∧
        ∃ front, front ≠ [] ∧ front <+: names ∧ place = base ++ front := by
  induction names generalizing d base with
  | nil =>
    rw [createAlong] at h
    cases h
    exact Or.inl rfl
  | cons name rest ih =>
    rw [List.mem_cons, not_or] at hnames
    have hlonger : ∀ front, front <+: rest → base ++ [name] ++ front = base ++ name :: front ∧
        name :: front ≠ [] ∧ name :: front <+: name :: rest := fun front hfront =>
      ⟨by rw [List.append_assoc, List.singleton_append], List.cons_ne_nil _ _,
        List.cons_prefix_cons.mpr ⟨rfl, hfront⟩⟩
    rw [createAlong, if_neg (Ne.symm hnames.1)] at h
    dsimp only at h
    split at h
    · rcases ih hnames.2 h with hsame | ⟨hnone, hfolder, front, -, hfront, rfl⟩
      · exact Or.inl hsame
      · obtain ⟨heq, hne, hprefix⟩ := hlonger front hfront
        exact Or.inr ⟨hnone, hfolder, _, hne, hprefix, heq⟩
    · exact absurd h (by simp)
    · rename_i hhere
      have hnew := entryAt_put_of_none hhere .folder
      by_cases hplace : place = base ++ [name]
      · subst hplace
        have hfolder := (createAlong_grows h).kept _ _ hnew
        refine Or.inr ⟨hhere, hfolder, [name], List.cons_ne_nil _ _, ?_, rfl⟩
        exact List.cons_prefix_cons.mpr ⟨rfl, List.nil_prefix⟩
      · rw [← entryAt_put_of_ne d hplace .folder]
        rcases ih hnames.2 h with hsame | ⟨hnone, hfolder, front, -, hfront, rfl⟩
        · exact Or.inl hsame
        · obtain ⟨heq, hne, hprefix⟩ := hlonger front hfront
          exact Or.inr ⟨hnone, hfolder, _, hne, hprefix, heq⟩

/-- On the way along names, a directory has what another has, and perhaps some of the folders that
are missing there. -/
def Prepares (base : Place) (names : List String) (d d' : Directory) : Prop :=
  ∀ front, front <+: names → d'.entryAt (base ++ front) = d.entryAt (base ++ front) ∨
    d.entryAt (base ++ front) = none ∧ d'.entryAt (base ++ front) = some .folder

theorem Prepares.tail {base : Place} {name : String} {rest : List String} {d d' : Directory}
    (h : Prepares base (name :: rest) d d') : Prepares (base ++ [name]) rest d d' := by
  intro front hfront
  rw [List.append_assoc, List.singleton_append]
  exact h (name :: front) (List.cons_prefix_cons.mpr ⟨rfl, hfront⟩)

/-- Where both have the first folder on the way, and beyond it what they had, the rest of the way is
as before. -/
theorem Prepares.of_folder {base : Place} {name : String} {rest : List String}
    {d d' e e' : Directory} (h : Prepares base (name :: rest) d d')
    (hfolder : e.entryAt (base ++ [name]) = some .folder)
    (hfolder' : e'.entryAt (base ++ [name]) = some .folder)
    (hsame : ∀ place, place ≠ base ++ [name] → e.entryAt place = d.entryAt place)
    (hsame' : ∀ place, place ≠ base ++ [name] → e'.entryAt place = d'.entryAt place) :
    Prepares (base ++ [name]) rest e e' := by
  intro front hfront
  by_cases hne : front = []
  · subst hne
    rw [List.append_nil]
    exact Or.inl (hfolder'.trans hfolder.symm)
  · have hplace : base ++ [name] ++ front ≠ base ++ [name] := by simpa using hne
    rw [hsame _ hplace, hsame' _ hplace]
    exact h.tail front hfront

/-- Where some of the folders are there already, creating them comes to the same: it fails for the
same reason, or succeeds as well. -/
theorem createAlong_of_prepares {d d' : Directory} {base : Place} {names : List String}
    (hnames : ".." ∉ names) (h : Prepares base names d d') :
    (∃ e, d.createAlong base names = .error e ∧ d'.createAlong base names = .error e) ∨
      ∃ created created', d.createAlong base names = .ok created ∧
        d'.createAlong base names = .ok created' := by
  induction names generalizing d d' base with
  | nil => exact Or.inr ⟨d, d', by rw [createAlong], by rw [createAlong]⟩
  | cons name rest ih =>
    rw [List.mem_cons, not_or] at hnames
    have hhere := h [name] (List.cons_prefix_cons.mpr ⟨rfl, List.nil_prefix⟩)
    rw [createAlong, createAlong, if_neg (Ne.symm hnames.1), if_neg (Ne.symm hnames.1)]
    dsimp only
    have hput : ∀ (e : Directory) (place : Place), place ≠ base ++ [name] →
        (e.put (base ++ [name]) .folder).entryAt place = e.entryAt place :=
      fun e place hne => entryAt_put_of_ne e hne _
    cases hentry : d.entryAt (base ++ [name]) with
    | some entry =>
      have hentry' : d'.entryAt (base ++ [name]) = some entry := by
        rcases hhere with hsame | ⟨hnone, -⟩
        · rw [hsame, hentry]
        · exact absurd (hnone.symm.trans hentry) (by simp)
      rw [hentry']
      cases entry with
      | file contents executable => exact Or.inl ⟨_, rfl, rfl⟩
      | folder => exact ih hnames.2 h.tail
    | none =>
      have hself := entryAt_put_of_none hentry .folder
      cases hentry' : d'.entryAt (base ++ [name]) with
      | some entry =>
        have hfolder : entry = .folder := by
          rcases hhere with hsame | ⟨-, hfolder⟩
          · rw [hentry, hentry'] at hsame
            exact absurd hsame (by simp)
          · exact Option.some.inj (hentry'.symm.trans hfolder)
        subst hfolder
        exact ih hnames.2 (h.of_folder hself hentry' (hput d) fun _ _ => rfl)
      | none =>
        have hself' := entryAt_put_of_none hentry' .folder
        exact ih hnames.2 (h.of_folder hself hself' (hput d) (hput d'))

/-! ## The same files -/

/-- Two directories have the same in a folder, for some names. -/
structure SameFiles (folder : String) (place : Place) (names : Set String) (d d' : Directory) :
    Prop where
  left : FolderAt d folder place
  right : FolderAt d' folder place
  isName : ∀ name ∈ names, IsName name
  same : ∀ name ∈ names, d'.entryAt (place ++ [name]) = d.entryAt (place ++ [name])

namespace SameFiles

variable {folder name : String} {place : Place} {names : Set String} {d d' : Directory}

theorem entryFrom_eq (h : SameFiles folder place names d d') (hname : name ∈ names) :
    d'.entryFrom d'.home (joinPath folder name) = d.entryFrom d.home (joinPath folder name) := by
  rw [entryFrom, entryFrom, placeFrom_joinPath h.left (h.isName name hname),
    placeFrom_joinPath h.right (h.isName name hname)]
  dsimp only
  rw [h.same name hname]

theorem isFile_eq (h : SameFiles folder place names d d') (hname : name ∈ names) :
    d'.isFile (joinPath folder name) = d.isFile (joinPath folder name) := by
  rw [isFile, isFile, h.entryFrom_eq hname]

theorem readText_eq (h : SameFiles folder place names d d') (hname : name ∈ names) :
    d'.readText (joinPath folder name) = d.readText (joinPath folder name) := by
  rw [readText, readText, h.entryFrom_eq hname]

theorem put (h : SameFiles folder place names d d') (hname : name ∈ names)
    (hentry : d.entryAt (place ++ [name]) ≠ some .folder) (contents : Contents)
    (executable : Bool) :
    SameFiles folder place names (d.put (place ++ [name]) (.file contents executable))
      (d'.put (place ++ [name]) (.file contents executable)) := by
  have hkept : ∀ {e : Directory}, e.entryAt (place ++ [name]) ≠ some .folder → FolderAt e folder
      place → FolderAt (e.put (place ++ [name]) (.file contents executable)) folder place := by
    intro e he hfolder
    have hfolders := (changesOnly_put he contents executable).folder_iff
    exact ⟨hfolder.nul, walk_of_folders_kept (fun other => (hfolders other).mpr) hfolder.walk,
      (hfolders place).mpr hfolder.folder⟩
  have hentry' : d'.entryAt (place ++ [name]) ≠ some .folder := h.same name hname ▸ hentry
  refine ⟨hkept hentry h.left, hkept hentry' h.right, h.isName, fun other hother => ?_⟩
  by_cases heq : other = name
  · rw [heq, entryAt_put_self d (not_isPrefix_home hentry),
      entryAt_put_self d' (not_isPrefix_home hentry')]
  · have hne : place ++ [other] ≠ place ++ [name] := by simpa using heq
    rw [entryAt_put_of_ne d hne, entryAt_put_of_ne d' hne, h.same other hother]

/-- A file is written into both or into neither. -/
theorem writeFrom_cases (h : SameFiles folder place names d d') (hname : name ∈ names)
    (contents : Contents) :
    (∃ e, d.writeFrom d.home (joinPath folder name) contents = .error e ∧
        d'.writeFrom d'.home (joinPath folder name) contents = .error e) ∨
      ∃ written written', d.writeFrom d.home (joinPath folder name) contents = .ok written ∧
        d'.writeFrom d'.home (joinPath folder name) contents = .ok written' ∧
        SameFiles folder place names written written' := by
  have hends : endsAsFolder (joinPath folder name) = false :=
    endsAsFolder_joinPath (h.isName name hname)
  rw [writeFrom, writeFrom, placeFrom_joinPath h.left (h.isName name hname),
    placeFrom_joinPath h.right (h.isName name hname)]
  dsimp only
  rw [h.same name hname, List.dropLast_concat, h.left.folder, h.right.folder, hends]
  cases hentry : d.entryAt (place ++ [name]) with
  | none => exact Or.inr ⟨_, _, rfl, rfl, h.put hname (by simp [hentry]) contents false⟩
  | some entry =>
    cases entry with
    | folder => exact Or.inl ⟨_, rfl, rfl⟩
    | file before executable =>
      exact Or.inr ⟨_, _, rfl, rfl, h.put hname (by simp [hentry]) contents executable⟩

end SameFiles

end Directory

end SphereLab
