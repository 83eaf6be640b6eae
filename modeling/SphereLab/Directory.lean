import SphereLab.Text.Blank

/-!
# Directories

A directory is what a program sees of the file system: a finite map from places to entries,
where an entry is a file with its contents or a folder, and the folder that the program works
in.  Programs read it and give back a changed one, so that what a run leaves behind can be
compared with what it started from.

A path is a text; its meaning is the place that it leads to.  A path that begins with a slash is
walked from the root, and any other from the working folder: empty and single-dot pieces stay,
double-dot pieces go up, though not above the root, and every piece on the way has to be a
folder.

There are no entries but files and folders, neither links nor devices, and no place is barred:
what can be written or created depends on what is there, not on who asks.
-/

namespace SphereLab

/-! ## Failures of file operations -/

/-- Why an operation on a path failed. -/
inductive PathError where
  | notFound
  | exists
  | notDirectory
  | isDirectory
  | notText
  | nulByte
  deriving DecidableEq, Repr

/-- The reason in words. -/
def PathError.message : PathError → String
  | .notFound => "No such file or directory (os error 2)"
  | .exists => "File exists (os error 17)"
  | .notDirectory => "Not a directory (os error 20)"
  | .isDirectory => "Is a directory (os error 21)"
  | .notText => "stream did not contain valid UTF-8"
  | .nulByte => "file name contained an unexpected NUL byte"

/-! ## Entries -/

/-- What a file holds: a text, or bytes that are none. -/
inductive Contents where
  | text (value : String)
  | bytes (value : ByteArray)

/-- The contents that some bytes make up. -/
def Contents.ofBytes (bytes : ByteArray) : Contents :=
  match String.fromUTF8? bytes with
  | some s => .text s
  | none => .bytes bytes

/-- An entry of a directory. -/
inductive Entry where
  | file (contents : Contents) (executable : Bool)
  | folder

/-- The names on the way to an entry, from the root on. -/
abbrev Place := List String

/-- The files and folders that a program sees, by place.  The working folder and those on the
way to it are always there, and are not listed. -/
structure Directory where
  /-- The place of the working folder. -/
  home : Place
  entries : List (Place × Entry)

namespace Directory

/-- A directory with nothing but the working folder. -/
def empty (home : Place) : Directory := ⟨home, []⟩

/-- The entry at a place. -/
def entryAt (d : Directory) (place : Place) : Option Entry :=
  if place <+: d.home then some .folder else d.entries.lookup place

/-- The directory with an entry put at a place. -/
def put (d : Directory) (place : Place) (e : Entry) : Directory :=
  { d with entries := (place, e) :: d.entries.filter fun kept => kept.1 != place }

/-- The directory without the entry at a place. -/
def erase (d : Directory) (place : Place) : Directory :=
  { d with entries := d.entries.filter fun kept => kept.1 != place }

@[simp] theorem home_put (d : Directory) (place : Place) (e : Entry) :
    (d.put place e).home = d.home := rfl

theorem entryAt_of_isPrefix (d : Directory) {place : Place} (h : place <+: d.home) :
    d.entryAt place = some .folder := if_pos h

theorem entryAt_put_self (d : Directory) {place : Place} (h : ¬place <+: d.home) (e : Entry) :
    (d.put place e).entryAt place = some e := by
  simp [entryAt, put, h]

/-! ## Walking a path -/

/-- The pieces of a path that say something. -/
def pieces (path : String) : List String :=
  ((splitAt '/' path.toList).map String.ofList).filter fun p => p != "" && p != "."

/-- The place that a piece leads to from a place.  Above the root there is only the root. -/
def step (base : Place) (piece : String) : Place :=
  if piece = ".." then base.dropLast else base ++ [piece]

/-- Walk from a place along pieces; all that is passed through has to be a folder. -/
def walk (d : Directory) (base : Place) : List String → Except PathError Place
  | [] => .ok base
  | piece :: rest =>
    match d.entryAt base with
    | none => .error .notFound
    | some (.file _ _) => .error .notDirectory
    | some .folder => walk d (step base piece) rest

/-- Where a path begins: at the root, or at a base. -/
def origin (base : Place) (path : String) : Place := if path.startsWith "/" then [] else base

/-- Does a path say that it means a folder, by its end? -/
def endsAsFolder (path : String) : Bool :=
  path.endsWith "/" || path.endsWith "/." || path == "."

/-- The place that a path means, seen from a folder. -/
def placeFrom (d : Directory) (base : Place) (path : String) : Except PathError Place :=
  if path.contains '\x00' then .error .nulByte
  else if path.isEmpty then .error .notFound
  else d.walk (origin base path) (pieces path)

/-- The entry that a path means, seen from a folder. -/
def entryFrom (d : Directory) (base : Place) (path : String) : Except PathError Entry :=
  match d.placeFrom base path with
  | .error e => .error e
  | .ok place =>
    match d.entryAt place with
    | none => .error .notFound
    | some .folder => .ok .folder
    | some (.file contents executable) =>
      if endsAsFolder path then .error .notDirectory else .ok (.file contents executable)

/-! ## Reading -/

/-- Does a path mean a file? -/
def isFile (d : Directory) (path : String) : Bool :=
  match d.entryFrom d.home path with
  | .ok (.file _ _) => true
  | _ => false

/-- Does a path mean a folder? -/
def isFolder (d : Directory) (path : String) : Bool :=
  match d.entryFrom d.home path with
  | .ok .folder => true
  | _ => false

/-- The text of the file that a path means. -/
def readText (d : Directory) (path : String) : Except PathError String :=
  match d.entryFrom d.home path with
  | .error e => .error e
  | .ok .folder => .error .isDirectory
  | .ok (.file (.bytes _) _) => .error .notText
  | .ok (.file (.text s) _) => .ok s

/-- The paths of all files in the working folder and below it, in increasing order. -/
def filePaths (d : Directory) : List String :=
  let paths := d.entries.filterMap fun (place, e) =>
    match e, d.home.isPrefixOf place with
    | .file _ _, true => some ("/".intercalate (place.drop d.home.length))
    | _, _ => none
  paths.mergeSort fun a b => decide (a ≤ b)

/-- The names of the entries of a folder, in increasing order. -/
def namesIn (d : Directory) (folder : Place) : List String :=
  (d.entries.filterMap fun (place, _) =>
    if place.dropLast = folder then place.getLast? else none).mergeSort fun a b => decide (a ≤ b)

/-! ## Writing -/

/-- The directory after a file has been written, seen from a folder.  A file that was there
keeps its right to be run. -/
def writeFrom (d : Directory) (base : Place) (path : String) (contents : Contents) :
    Except PathError Directory :=
  match d.placeFrom base path with
  | .error e => .error e
  | .ok place =>
    match d.entryAt place with
    | some .folder => .error .isDirectory
    | some (.file _ executable) =>
      if endsAsFolder path then .error .notDirectory
      else .ok (d.put place (.file contents executable))
    | none =>
      match d.entryAt place.dropLast with
      | none => .error .notFound
      | some (.file _ _) => .error .notDirectory
      | some .folder =>
        if endsAsFolder path then .error .isDirectory
        else .ok (d.put place (.file contents false))

/-- The directory after a text has been written to a path. -/
def writeText (d : Directory) (path text : String) : Except PathError Directory :=
  d.writeFrom d.home path (.text text)

/-- The directory with a text added at the end of the file at a place. -/
def appendAt (d : Directory) (place : Place) (text : String) : Directory :=
  match d.entryAt place with
  | some (.file (.text before) executable) =>
    d.put place (.file (.text (before ++ text)) executable)
  | some (.file (.bytes before) executable) =>
    d.put place (.file (.ofBytes (before ++ text.toUTF8)) executable)
  | _ => d

/-- The directory without the entry at a place and all that is in it. -/
def eraseTree (d : Directory) (place : Place) : Directory :=
  { d with entries := d.entries.filter fun kept => !place.isPrefixOf kept.1 }

/-- Create the folders along pieces that are missing. -/
def createAlong (d : Directory) (base : Place) : List String → Except PathError Directory
  | [] => .ok d
  | piece :: rest =>
    if piece = ".." then createAlong d base.dropLast rest
    else
      let next := base ++ [piece]
      match d.entryAt next with
      | some .folder => createAlong d next rest
      | some (.file _ _) => .error (if rest.isEmpty then .exists else .notDirectory)
      | none => createAlong (d.put next .folder) next rest

/-- The directory with all folders along a path. -/
def createFolders (d : Directory) (path : String) : Except PathError Directory :=
  if path.contains '\x00' then .error .nulByte
  else d.createAlong (origin d.home path) (pieces path)

/-- The directory with an entry installed below the working folder, at a path without double
dots, and with the folders on the way. -/
def install (d : Directory) (path : String) (e : Entry) : Except PathError Directory :=
  let names := pieces path
  match d.createAlong d.home names.dropLast with
  | .error err => .error err
  | .ok prepared => .ok (prepared.put (d.home ++ names) e)

end Directory

end SphereLab
