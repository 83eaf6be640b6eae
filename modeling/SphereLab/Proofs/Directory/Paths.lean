import Mathlib
import SphereLab.Directory
import SphereLab.PathText
import SphereLab.Proofs.Text.Pieces

/-!
# What paths mean, and what a write changes

A path means the place that it leads to when it is walked from its origin, which is the root or the
working folder.  A path that is joined to that of a folder has the same origin, so the path of a
file in a folder is walked through the folder and one step on, and writing that file leaves the way
to it as it was.

* `pieces_joinPath`: the pieces of a joined path are those of its parts.
* `origin_joinPath`: a joined path begins where its first part does.
* `walk_append`: a walk along two runs of pieces is one walk after the other.
* `FolderAt`: a path means a folder, at a place.
* `writeText_joinPath`, `isFile_joinPath`, `readText_joinPath`: files in a folder, by their names.
* `createAlong_names`: folders below an empty place can be created, and the last of them is empty.
-/

namespace SphereLab

/-! ## Pieces -/

theorem endsWith_iff {s ending : String} :
    s.endsWith ending = true ↔ ending.toList <:+ s.toList := by
  rw [← String.endsWith_toSlice, String.Slice.endsWith_string_iff, String.copy_toSlice]

namespace Directory

/-- A name of an entry: a text without slashes that is neither empty nor a dot or two. -/
structure IsName (name : String) : Prop where
  slash : '/' ∉ name.toList
  nul : '\x00' ∉ name.toList
  ne_empty : name ≠ ""
  ne_dot : name ≠ "."
  ne_dots : name ≠ ".."

theorem pieces_of_isName {name : String} (h : IsName name) : pieces name = [name] := by
  simp [pieces, splitAt_of_not_mem h.slash, h.ne_empty, h.ne_dot]

theorem pieces_append (base path : String) :
    pieces (base ++ "/" ++ path) = pieces base ++ pieces path := by
  have h : (base ++ "/" ++ path).toList = base.toList ++ '/' :: path.toList := by
    simp [String.toList_append]
  simp [pieces, h, splitAt_append]

theorem pieces_joinPath (base : String) {path : String} (h : path.startsWith "/" = false) :
    pieces (joinPath base path) = pieces base ++ pieces path := by
  rw [joinPath, if_neg (by simp only [h, Bool.false_eq_true, not_false_iff])]
  split
  · rename_i hbase
    rcases Bool.or_eq_true_iff.mp hbase with hempty | hends
    · rw [String.isEmpty_iff.mp hempty, String.empty_append]
      rfl
    · -- The slash at the end of the base is the one that `pieces_append` needs.
      obtain ⟨front, hfront⟩ := endsWith_iff.mp hends
      have hbase' : base = String.ofList front ++ "/" := by
        rw [← String.toList_inj, ← hfront]
        simp
      have hempty := pieces_append (String.ofList front) ""
      rw [String.append_empty] at hempty
      rw [hbase', pieces_append, hempty]
      simp [pieces, splitAt]
  · rw [pieces_append]

/-! ## Relative paths -/

/-- A path that is seen from a folder, wherever that is. -/
structure IsRelative (path : String) : Prop where
  nul : '\x00' ∉ path.toList
  slash : path.startsWith "/" = false

theorem startsWith_slash_eq_false_iff {path : String} :
    path.startsWith "/" = false ↔ path.toList.head? ≠ some '/' := by
  rw [String.startsWith_string_eq_false_iff]
  cases path.toList <;> simp [eq_comm]

theorem IsName.isRelative {name : String} (h : IsName name) : IsRelative name := by
  refine ⟨h.nul, startsWith_slash_eq_false_iff.mpr fun hhead => h.slash ?_⟩
  exact List.mem_of_head? hhead

/-- What stands between the parts of a joined path. -/
theorem toList_joinPath (base : String) {path : String} (h : path.startsWith "/" = false) :
    ∃ between, (joinPath base path).toList = base.toList ++ between ++ path.toList ∧
      (between = [] ∨ between = ['/'] ∧ base ≠ "") := by
  rw [joinPath, if_neg (by simp only [h, Bool.false_eq_true, not_false_iff])]
  split
  · exact ⟨[], by simp, Or.inl rfl⟩
  · rename_i hbase
    refine ⟨['/'], by simp, Or.inr ⟨rfl, ?_⟩⟩
    rintro rfl
    exact hbase rfl

theorem nul_notMem_joinPath {base path : String} (hbase : '\x00' ∉ base.toList)
    (hpath : IsRelative path) : '\x00' ∉ (joinPath base path).toList := by
  obtain ⟨between, hjoin, hbetween⟩ := toList_joinPath base hpath.slash
  have hnul : '\x00' ∉ between := by
    rcases hbetween with rfl | ⟨rfl, _⟩ <;> decide
  rw [hjoin]
  simp [hbase, hpath.nul, hnul]

/-- A joined path begins with a slash if its first part does. -/
theorem startsWith_joinPath (base : String) {path : String} (h : path.startsWith "/" = false) :
    (joinPath base path).startsWith "/" = base.startsWith "/" := by
  obtain ⟨between, hjoin, hbetween⟩ := toList_joinPath base h
  rw [← Bool.not_inj_iff, Bool.eq_iff_iff, Bool.not_eq_true', Bool.not_eq_true',
    startsWith_slash_eq_false_iff, startsWith_slash_eq_false_iff, hjoin]
  cases hlist : base.toList with
  | nil =>
    have hempty : base = "" := by rw [← String.toList_inj, hlist]; rfl
    rcases hbetween with rfl | ⟨_, hne⟩
    · simpa using startsWith_slash_eq_false_iff.mp h
    · exact absurd hempty hne
  | cons c rest => rfl

/-- A joined path begins where its first part does. -/
theorem origin_joinPath (home : Place) (base : String) {path : String}
    (h : path.startsWith "/" = false) : origin home (joinPath base path) = origin home base := by
  rw [origin, origin, startsWith_joinPath base h]

/-- The way to the origin of a path is there. -/
theorem entryAt_of_isPrefix_origin (d : Directory) (path : String) {front : Place}
    (h : front <+: origin d.home path) : d.entryAt front = some .folder := by
  refine d.entryAt_of_isPrefix ?_
  rw [origin] at h
  split at h
  · exact h.trans List.nil_prefix
  · exact h

/-! ## Walks -/

/-- A path means a folder, at a place. -/
structure FolderAt (d : Directory) (path : String) (place : Place) : Prop where
  nul : '\x00' ∉ path.toList
  walk : d.walk (origin d.home path) (pieces path) = .ok place
  folder : d.entryAt place = some .folder

theorem walk_append (d : Directory) (base : Place) (xs ys : List String) :
    d.walk base (xs ++ ys) = (d.walk base xs).bind fun place => d.walk place ys := by
  induction xs generalizing base with
  | nil => rfl
  | cons piece rest ih =>
    rw [List.cons_append, Directory.walk, Directory.walk]
    split
    · rfl
    · rfl
    · exact ih _

theorem walk_name {d : Directory} {place : Place} {name : String}
    (hfolder : d.entryAt place = some .folder) (hname : name ≠ "..") :
    d.walk place [name] = .ok (place ++ [name]) := by
  rw [Directory.walk, hfolder]
  simp only [step, if_neg hname]
  rw [Directory.walk]

/-- A walk goes the same way in a directory that has all the folders. -/
theorem walk_of_folders_kept {d d' : Directory}
    (hkept : ∀ place, d.entryAt place = some .folder → d'.entryAt place = some .folder)
    {base place : Place} {names : List String} (h : d.walk base names = .ok place) :
    d'.walk base names = .ok place := by
  induction names generalizing base with
  | nil => exact h
  | cons piece rest ih =>
    rw [Directory.walk] at h ⊢
    split at h
    · exact absurd h (by simp)
    · exact absurd h (by simp)
    · rename_i hbase
      rw [hkept base hbase]
      exact ih h

/-! ## Files in a folder -/

section File

variable {d : Directory} {folder name : String} {place : Place}

theorem joinPath_ne_empty (hname : IsName name) : (joinPath folder name).isEmpty = false := by
  obtain ⟨between, hjoin, _⟩ := toList_joinPath folder hname.isRelative.slash
  rw [Bool.eq_false_iff, Ne, String.isEmpty_iff]
  intro hempty
  rw [hempty] at hjoin
  have hlist : name.toList = [] := by
    have := congrArg List.length hjoin
    simp only [String.toList_empty, List.length_nil, List.length_append] at this
    exact List.eq_nil_of_length_eq_zero (by omega)
  exact hname.ne_empty (by rw [← String.toList_inj, hlist]; rfl)

theorem placeFrom_joinPath (hfolder : FolderAt d folder place) (hname : IsName name) :
    d.placeFrom d.home (joinPath folder name) = .ok (place ++ [name]) := by
  have hslash := hname.isRelative.slash
  have hwalk : d.walk (origin d.home (joinPath folder name)) (pieces (joinPath folder name)) =
      .ok (place ++ [name]) := by
    rw [origin_joinPath _ _ hslash, pieces_joinPath folder hslash, pieces_of_isName hname,
      walk_append, hfolder.walk]
    exact walk_name hfolder.folder hname.ne_dots
  have hnul : (joinPath folder name).contains '\x00' = false := by
    simpa using nul_notMem_joinPath hfolder.nul hname.isRelative
  rw [placeFrom, hnul, joinPath_ne_empty hname]
  exact hwalk

/-- The path of a file in a folder does not end like the path of a folder. -/
theorem endsAsFolder_joinPath (hname : IsName name) :
    endsAsFolder (joinPath folder name) = false := by
  obtain ⟨between, hjoin, _⟩ := toList_joinPath folder hname.isRelative.slash
  have hempty : name.toList ≠ [] := fun h => hname.ne_empty (by rw [← String.toList_inj, h]; rfl)
  have hdot : name.toList ≠ ['.'] := fun h => hname.ne_dot (by rw [← String.toList_inj, h]; rfl)
  -- An ending with a slash in it is longer than the name, which has none.
  have hending : ∀ ending : List Char, '/' ∈ ending → ending <:+ (joinPath folder name).toList →
      ∃ front, ending = front ++ name.toList := by
    rintro ending hmem ⟨front, hfront⟩
    rw [hjoin] at hfront
    rcases List.append_eq_append_iff.mp hfront with ⟨rest, _, hrest⟩ | ⟨rest, _, hrest⟩
    · exact ⟨rest, hrest⟩
    · exact absurd (by rw [hrest]; exact List.mem_append_right _ hmem) hname.slash
  have hslash : (joinPath folder name).endsWith "/" = false := by
    rw [Bool.eq_false_iff, Ne, endsWith_iff]
    intro h
    obtain ⟨front, hfront⟩ := hending _ (by decide) h
    rcases List.append_eq_singleton_iff.mp hfront.symm with ⟨_, hname'⟩ | ⟨_, hname'⟩
    · exact hname.slash (by rw [hname']; exact List.mem_singleton_self _)
    · exact hempty hname'
  have hslashDot : (joinPath folder name).endsWith "/." = false := by
    rw [Bool.eq_false_iff, Ne, endsWith_iff]
    intro h
    obtain ⟨front, hfront⟩ := hending _ (by decide) h
    rcases List.append_eq_cons_iff.mp hfront.symm with ⟨_, hname'⟩ | ⟨rest, _, hrest⟩
    · exact hname.slash (by rw [hname']; exact List.mem_cons_self)
    · rcases List.append_eq_singleton_iff.mp hrest.symm with ⟨_, hname'⟩ | ⟨_, hname'⟩
      · exact hdot hname'
      · exact hempty hname'
  have hne : joinPath folder name ≠ "." := by
    intro h
    rw [h] at hjoin
    rcases List.append_eq_singleton_iff.mp hjoin.symm with ⟨_, hname'⟩ | ⟨_, hname'⟩
    · exact hdot hname'
    · exact hempty hname'
  rw [endsAsFolder, hslash, hslashDot, beq_eq_false_iff_ne.mpr hne]
  rfl

theorem entryFrom_joinPath (hfolder : FolderAt d folder place) (hname : IsName name)
    {contents : Contents} {executable : Bool}
    (hentry : d.entryAt (place ++ [name]) = some (.file contents executable)) :
    d.entryFrom d.home (joinPath folder name) = .ok (.file contents executable) := by
  rw [entryFrom, placeFrom_joinPath hfolder hname]
  simp [hentry, endsAsFolder_joinPath hname]

theorem isFile_joinPath (hfolder : FolderAt d folder place) (hname : IsName name)
    {contents : Contents} {executable : Bool}
    (hentry : d.entryAt (place ++ [name]) = some (.file contents executable)) :
    d.isFile (joinPath folder name) = true := by
  rw [isFile, entryFrom_joinPath hfolder hname hentry]

theorem readText_joinPath (hfolder : FolderAt d folder place) (hname : IsName name)
    {text : String} {executable : Bool}
    (hentry : d.entryAt (place ++ [name]) = some (.file (.text text) executable)) :
    d.readText (joinPath folder name) = .ok text := by
  rw [readText, entryFrom_joinPath hfolder hname hentry]

theorem isFile_joinPath_of_none (hfolder : FolderAt d folder place) (hname : IsName name)
    (hentry : d.entryAt (place ++ [name]) = none) : d.isFile (joinPath folder name) = false := by
  rw [isFile, entryFrom, placeFrom_joinPath hfolder hname]
  simp [hentry]

/-- A file that is not there can be written into a folder that is. -/
theorem writeText_joinPath (hfolder : FolderAt d folder place) (hname : IsName name)
    (hentry : d.entryAt (place ++ [name]) = none) (text : String) :
    d.writeText (joinPath folder name) text =
      .ok (d.put (place ++ [name]) (.file (.text text) false)) := by
  rw [writeText, writeFrom, placeFrom_joinPath hfolder hname]
  simp [hentry, hfolder.folder, endsAsFolder_joinPath hname]

end File

/-! ## What a write changes -/

theorem lookup_filter_ne {κ β : Type} [BEq κ] [LawfulBEq κ] {entries : List (κ × β)} {key other : κ}
    (h : other ≠ key) :
    (entries.filter fun kept => kept.1 != key).lookup other = entries.lookup other := by
  induction entries with
  | nil => rfl
  | cons kept rest ih =>
    obtain ⟨here, entry⟩ := kept
    by_cases hhere : here = key
    · rw [List.filter_cons_of_neg (by simp [hhere]), ih, List.lookup_cons,
        beq_eq_false_iff_ne.mpr (hhere ▸ h)]
    · rw [List.filter_cons_of_pos (by simp [hhere]), List.lookup_cons, List.lookup_cons, ih]

theorem entryAt_put_of_ne (d : Directory) {place other : Place} (h : other ≠ place)
    (e : Entry) : (d.put place e).entryAt other = d.entryAt other := by
  rw [entryAt, entryAt, home_put, put, List.lookup_cons, beq_eq_false_iff_ne.mpr h,
    lookup_filter_ne h]

/-- Where there is no folder is none that is on the way to the working folder. -/
theorem not_isPrefix_home {d : Directory} {place : Place} (h : d.entryAt place ≠ some .folder) :
    ¬place <+: d.home := fun hprefix => h (d.entryAt_of_isPrefix hprefix)

/-- What is put where nothing was is there. -/
theorem entryAt_put_of_none {d : Directory} {place : Place} (h : d.entryAt place = none)
    (e : Entry) : (d.put place e).entryAt place = some e :=
  d.entryAt_put_self (not_isPrefix_home (by simp [h])) e

/-- Putting an entry where none was keeps all folders. -/
theorem folders_kept_put {d : Directory} {place : Place} (hnone : d.entryAt place = none)
    (e : Entry) (other : Place) (h : d.entryAt other = some .folder) :
    (d.put place e).entryAt other = some .folder := by
  have hne : other ≠ place := by
    rintro rfl
    exact absurd (hnone ▸ h) (by simp)
  rw [entryAt_put_of_ne d hne, h]

theorem FolderAt.put {d : Directory} {folder : String} {place other : Place}
    (hfolder : FolderAt d folder place) (hnone : d.entryAt other = none) (e : Entry) :
    FolderAt (d.put other e) folder place :=
  ⟨hfolder.nul, walk_of_folders_kept (folders_kept_put hnone e) hfolder.walk,
    folders_kept_put hnone e place hfolder.folder⟩

/-! ## Creating folders -/

/-- A path means a folder with nothing in it, at a place. -/
structure EmptyFolderAt (d : Directory) (path : String) (place : Place) : Prop
    extends FolderAt d path place where
  nothing : ∀ inside, inside ≠ [] → d.entryAt (place ++ inside) = none

/-- Creating folders along two runs of pieces is creating them along the second from where the
first leads. -/
theorem createAlong_append {d d' : Directory} {base place : Place} {xs : List String}
    (h : d.createAlong base xs = .ok d') (hwalk : d'.walk base xs = .ok place)
    (ys : List String) : d.createAlong base (xs ++ ys) = d'.createAlong place ys := by
  induction xs generalizing d base with
  | nil =>
    rw [createAlong] at h
    rw [Directory.walk] at hwalk
    cases h
    cases hwalk
    rfl
  | cons piece rest ih =>
    rw [Directory.walk] at hwalk
    split at hwalk
    · exact absurd hwalk (by simp)
    · exact absurd hwalk (by simp)
    · rw [createAlong] at h
      rw [List.cons_append, createAlong]
      rw [step] at hwalk
      split at h
      · rename_i hpiece
        rw [if_pos hpiece] at hwalk ⊢
        exact ih h hwalk
      · rename_i hpiece
        rw [if_neg hpiece] at hwalk ⊢
        simp only at h ⊢
        split at h
        · exact ih h hwalk
        · exact absurd h (by simp)
        · exact ih h hwalk

/-- Folders with new names can be created in an empty place, and the last one is empty. -/
theorem createAlong_names {d : Directory} {place : Place} (names : List String)
    (hnames : ∀ name ∈ names, IsName name) (hfolder : d.entryAt place = some .folder)
    (hnothing : ∀ inside, inside ≠ [] → d.entryAt (place ++ inside) = none) :
    ∃ d', d.createAlong place names = .ok d' ∧ d'.home = d.home ∧
      (∀ other, d.entryAt other = some .folder → d'.entryAt other = some .folder) ∧
      d'.walk place names = .ok (place ++ names) ∧
      d'.entryAt (place ++ names) = some .folder ∧
      ∀ inside, inside ≠ [] → d'.entryAt (place ++ names ++ inside) = none := by
  induction names generalizing d place with
  | nil =>
    refine ⟨d, rfl, rfl, fun _ h => h, ?_, ?_, ?_⟩
    · rw [Directory.walk, List.append_nil]
    · rwa [List.append_nil]
    · rwa [List.append_nil]
  | cons name rest ih =>
    have hname := hnames name List.mem_cons_self
    have hnone : d.entryAt (place ++ [name]) = none := hnothing [name] (by simp)
    have hkept := folders_kept_put hnone .folder
    have hnext : (d.put (place ++ [name]) .folder).entryAt (place ++ [name]) = some .folder :=
      entryAt_put_of_none hnone _
    have hinside : ∀ inside, inside ≠ [] →
        (d.put (place ++ [name]) .folder).entryAt (place ++ [name] ++ inside) = none := by
      intro inside hinside
      rw [entryAt_put_of_ne d (by simpa using hinside), List.append_assoc]
      exact hnothing _ (by simp)
    obtain ⟨d', hcreate, hhome, hkept', hwalk, hlast, hempty⟩ :=
      ih (fun other h => hnames other (List.mem_cons_of_mem _ h)) hnext hinside
    refine ⟨d', ?_, hhome, fun other h => hkept' other (hkept other h), ?_, ?_, ?_⟩
    · rw [createAlong, if_neg hname.ne_dots]
      simp only [hnone]
      exact hcreate
    · rw [Directory.walk, hkept' place (hkept place hfolder)]
      simp only [step, if_neg hname.ne_dots]
      rw [hwalk, List.append_assoc, List.singleton_append]
    · rw [← hlast, List.append_assoc, List.singleton_append]
    · intro inside h
      rw [← hempty inside h, List.append_assoc place [name] rest, List.singleton_append]

end Directory

end SphereLab
