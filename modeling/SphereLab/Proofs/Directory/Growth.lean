import Mathlib
import SphereLab.Proofs.Directory.Paths

/-!
# Directories that grow

Work that puts entries only where none are leaves all there is as it was: whatever could be read
before can be read after, and reads the same.

* `Grows`: every entry of a directory is an entry of another, with the same working folder.
* `entryFrom_of_grows`, `isFile_of_grows`, `readText_of_grows`: what a path means is kept.
* `createFolders_grows`, `createFolders_of_grows`: creating folders adds entries, and a directory
  that has them stays as it is.
* `createFolders_joinPath`: the folders below an empty folder can be created, and the last of
  them is empty.
* `writeFrom_grows`, `isFile_of_writeFrom`: writing a file that is not there adds an entry.
-/

namespace SphereLab

namespace Directory

/-- The working folder is the same, and every entry of a directory is an entry of another. -/
structure Grows (d d' : Directory) : Prop where
  home : d'.home = d.home
  kept : ∀ place e, d.entryAt place = some e → d'.entryAt place = some e

theorem Grows.refl (d : Directory) : Grows d d := ⟨rfl, fun _ _ h => h⟩

theorem Grows.trans {d d' d'' : Directory} (h : Grows d d') (h' : Grows d' d'') : Grows d d'' :=
  ⟨h'.home.trans h.home, fun place e hentry => h'.kept place e (h.kept place e hentry)⟩

theorem grows_put {d : Directory} {place : Place} (hnone : d.entryAt place = none) (e : Entry) :
    Grows d (d.put place e) := by
  refine ⟨rfl, fun other entry hentry => ?_⟩
  have hne : other ≠ place := by
    rintro rfl
    rw [hnone] at hentry
    exact absurd hentry (by simp)
  rw [entryAt_put_of_ne d hne, hentry]

/-! ## Reading -/

section Reading

variable {d d' : Directory} {base place : Place} {path : String}

/-- A path means the same place in a directory that has all the folders. -/
theorem placeFrom_of_folders_kept
    (hkept : ∀ other, d.entryAt other = some .folder → d'.entryAt other = some .folder)
    (h : d.placeFrom base path = .ok place) : d'.placeFrom base path = .ok place := by
  rw [placeFrom] at h ⊢
  split at h
  · exact absurd h (by simp)
  · rename_i hnul
    rw [if_neg hnul]
    split at h
    · exact absurd h (by simp)
    · rename_i hempty
      rw [if_neg hempty]
      exact walk_of_folders_kept hkept h

theorem placeFrom_of_grows (hgrows : Grows d d') (h : d.placeFrom base path = .ok place) :
    d'.placeFrom base path = .ok place :=
  placeFrom_of_folders_kept (fun other hfolder => hgrows.kept other _ hfolder) h

theorem entryFrom_of_grows (hgrows : Grows d d') {e : Entry} (h : d.entryFrom base path = .ok e) :
    d'.entryFrom base path = .ok e := by
  rw [entryFrom] at h ⊢
  split at h
  · exact absurd h (by simp)
  · rename_i place hplace
    rw [placeFrom_of_grows hgrows hplace]
    dsimp only
    split at h
    · exact absurd h (by simp)
    · rename_i hentry
      rw [hgrows.kept place _ hentry]
      exact h
    · rename_i hentry
      rw [hgrows.kept place _ hentry]
      exact h

theorem isFile_iff : d.isFile path = true ↔
    ∃ contents executable, d.entryFrom d.home path = .ok (.file contents executable) := by
  rw [isFile]
  split
  · rename_i contents executable hentry
    exact ⟨fun _ => ⟨contents, executable, hentry⟩, fun _ => rfl⟩
  · rename_i hentry
    refine ⟨fun h => absurd h (by simp), ?_⟩
    rintro ⟨contents, executable, h⟩
    exact absurd h (hentry contents executable)

/-- What is a file stays one. -/
theorem isFile_of_grows (hgrows : Grows d d') (h : d.isFile path = true) :
    d'.isFile path = true := by
  obtain ⟨contents, executable, hentry⟩ := isFile_iff.mp h
  exact isFile_iff.mpr ⟨contents, executable, hgrows.home ▸ entryFrom_of_grows hgrows hentry⟩

/-- A file reads the same, or fails to be a text for the same reason. -/
theorem readText_of_grows (hgrows : Grows d d') (h : d.isFile path = true) :
    d'.readText path = d.readText path := by
  obtain ⟨contents, executable, hentry⟩ := isFile_iff.mp h
  rw [readText, readText, hgrows.home, entryFrom_of_grows hgrows hentry, hentry]

end Reading

/-! ## Creating folders -/

theorem createAlong_grows {d d' : Directory} {base : Place} {names : List String}
    (h : d.createAlong base names = .ok d') : Grows d d' := by
  induction names generalizing d base with
  | nil =>
    rw [createAlong] at h
    cases h
    exact Grows.refl _
  | cons name rest ih =>
    rw [createAlong] at h
    split at h
    · exact ih h
    · dsimp only at h
      split at h
      · exact ih h
      · exact absurd h (by simp)
      · rename_i hnone
        exact (grows_put hnone .folder).trans (ih h)

/-- Folders that have been created are not created again. -/
theorem createAlong_of_grows {d d' d'' : Directory} {base : Place} {names : List String}
    (h : d.createAlong base names = .ok d') (hgrows : Grows d' d'') :
    d''.createAlong base names = .ok d'' := by
  induction names generalizing d base with
  | nil => rw [createAlong]
  | cons name rest ih =>
    rw [createAlong] at h ⊢
    split at h
    · rename_i hname
      rw [if_pos hname]
      exact ih h
    · rename_i hname
      rw [if_neg hname]
      dsimp only at h ⊢
      split at h
      · rename_i hfolder
        rw [hgrows.kept _ _ ((createAlong_grows h).kept _ _ hfolder)]
        exact ih h
      · exact absurd h (by simp)
      · rename_i hnone
        have hfolder := entryAt_put_of_none hnone .folder
        rw [hgrows.kept _ _ ((createAlong_grows h).kept _ _ hfolder)]
        exact ih h

theorem createFolders_eq_ok_iff {d d' : Directory} {path : String} :
    d.createFolders path = .ok d' ↔ path.contains '\x00' = false ∧
      d.createAlong (origin d.home path) (pieces path) = .ok d' := by
  rw [createFolders]
  split
  · rename_i hnul
    simp [hnul]
  · rename_i hnul
    rw [Bool.not_eq_true] at hnul
    rw [hnul, eq_self_iff_true, true_and]

theorem createFolders_grows {d d' : Directory} {path : String}
    (h : d.createFolders path = .ok d') : Grows d d' :=
  createAlong_grows (createFolders_eq_ok_iff.mp h).2

/-- A directory with all folders along a path stays as it is when they are created. -/
theorem createFolders_of_grows {d d' d'' : Directory} {path : String}
    (h : d.createFolders path = .ok d') (hgrows : Grows d' d'') :
    d''.createFolders path = .ok d'' := by
  obtain ⟨hnul, halong⟩ := createFolders_eq_ok_iff.mp h
  have hhome : d''.home = d.home := hgrows.home.trans (createAlong_grows halong).home
  exact createFolders_eq_ok_iff.mpr ⟨hnul, hhome ▸ createAlong_of_grows halong hgrows⟩

/-- The folders along new names in an empty folder can be created, and the last one is empty. -/
theorem createFolders_joinPath {d d' : Directory} {base path : String} {place : Place}
    (hcreate : d.createFolders base = .ok d') (hempty : EmptyFolderAt d' base place)
    (hpath : IsRelative path) (hnames : ∀ name ∈ pieces path, IsName name) :
    ∃ d'', d.createFolders (joinPath base path) = .ok d'' ∧
      EmptyFolderAt d'' (joinPath base path) (place ++ pieces path) := by
  obtain ⟨d'', halong, hhome, hkept, hwalk, hlast, hnothing⟩ :=
    createAlong_names (pieces path) hnames hempty.folder hempty.nothing
  have hnul := nul_notMem_joinPath hempty.nul hpath
  have hpieces := pieces_joinPath base hpath.slash
  have hbase := (createFolders_eq_ok_iff.mp hcreate).2
  have hwalk' := hempty.walk
  rw [(createFolders_grows hcreate).home] at hwalk' hhome
  refine ⟨d'', ?_, ⟨hnul, ?_, hlast⟩, hnothing⟩
  · refine createFolders_eq_ok_iff.mpr ⟨by simpa using hnul, ?_⟩
    rw [origin_joinPath _ _ hpath.slash, hpieces, createAlong_append hbase hwalk', halong]
  · rw [hhome, origin_joinPath _ _ hpath.slash, hpieces, walk_append,
      walk_of_folders_kept hkept hwalk']
    exact hwalk

/-! ## Writing -/

section Writing

variable {d d' : Directory} {path : String} {contents : Contents}

/-- A file that is not there is put where nothing was. -/
theorem exists_put_of_writeFrom (hfile : d.isFile path = false)
    (hwrite : d.writeFrom d.home path contents = .ok d') :
    ∃ place, d.placeFrom d.home path = .ok place ∧ d.entryAt place = none ∧
      endsAsFolder path = false ∧ d' = d.put place (.file contents false) := by
  rw [writeFrom] at hwrite
  split at hwrite
  · exact absurd hwrite (by simp)
  · rename_i place hplace
    split at hwrite
    · exact absurd hwrite (by simp)
    · rename_i before executable hentry
      split at hwrite
      · exact absurd hwrite (by simp)
      · rename_i hends
        have hthere : d.isFile path = true := by
          refine isFile_iff.mpr ⟨before, executable, ?_⟩
          rw [entryFrom, hplace]
          simp only [hentry, if_neg hends]
        exact absurd hthere (by simp [hfile])
    · rename_i hnone
      split at hwrite
      · exact absurd hwrite (by simp)
      · exact absurd hwrite (by simp)
      · split at hwrite
        · exact absurd hwrite (by simp)
        · rename_i hends
          exact ⟨place, hplace, hnone, Bool.not_eq_true _ ▸ hends, (Except.ok.inj hwrite).symm⟩

theorem writeFrom_grows (hfile : d.isFile path = false)
    (hwrite : d.writeFrom d.home path contents = .ok d') : Grows d d' := by
  obtain ⟨place, _, hnone, _, rfl⟩ := exists_put_of_writeFrom hfile hwrite
  exact grows_put hnone _

/-- What has been written is there. -/
theorem isFile_of_writeFrom (hfile : d.isFile path = false)
    (hwrite : d.writeFrom d.home path contents = .ok d') : d'.isFile path = true := by
  obtain ⟨place, hplace, hnone, hends, rfl⟩ := exists_put_of_writeFrom hfile hwrite
  refine isFile_iff.mpr ⟨contents, false, ?_⟩
  rw [entryFrom, home_put, placeFrom_of_grows (grows_put hnone _) hplace]
  simp only [entryAt_put_of_none hnone, hends, Bool.false_eq_true, if_false]

end Writing

end Directory

end SphereLab
