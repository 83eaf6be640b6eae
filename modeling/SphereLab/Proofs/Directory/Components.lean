import Mathlib
import SphereLab.Proofs.Directory.Paths

/-!
# Paths by their components

Two texts are one path if they have the same components: the root, if the path begins there, and the
pieces that name something.  Repeated slashes and dots in the middle do not count, so a path can be
read from its end, where its last name is, and a name that is joined to a path is the last component
of what comes out.

* `components_joinPath`: a name in a folder is one more component.
* `components_parent?`: the parent of a path is the path without its last component.
* `fileName?_eq_some_iff`: the last name of a path is its last component.
* `withoutExtension_append`: a name with an extension put behind it.
* `place_eq_origin_append`: a path without dots means the place of its names, seen from its origin.
-/

namespace SphereLab

namespace PathText

/-! ## Pieces that name something -/

/-- The pieces that name something, from first to last. -/
def namedPieces (pieces : List String) : List String :=
  ((pieces.mapIdx fun i p => (i, p)).filter fun (i, p) => names i p).map (·.2)

/-- The root, for a path that begins there. -/
def rootOf (path : String) : List String := if path.startsWith "/" then ["/"] else []

/-- What a path is made of: the root, if it begins there, and the names behind it. -/
def components (path : String) : List String := rootOf path ++ namedPieces (segments path)

section Pieces

variable (pieces : List String) (piece : String)

theorem namedPieces_concat :
    namedPieces (pieces ++ [piece]) =
      namedPieces pieces ++ if names pieces.length piece then [piece] else [] := by
  rw [namedPieces, namedPieces, List.mapIdx_append, List.filter_append, List.map_append]
  cases h : names pieces.length piece <;> simp [h]

theorem lastName?_concat :
    lastName? (pieces ++ [piece]) =
      if names pieces.length piece then some pieces.length else lastName? pieces := by
  rw [lastName?, lastName?, List.mapIdx_append, List.filter_append]
  cases h : names pieces.length piece <;> simp [h]

/-- Behind the last name there is none, and it is the last of the names. -/
theorem lastName?_spec :
    match lastName? pieces with
    | none => namedPieces pieces = []
    | some k => ∃ name, pieces[k]? = some name ∧ names k name = true ∧
        namedPieces (pieces.take (k + 1)) = namedPieces (pieces.take k) ++ [name] ∧
        namedPieces (pieces.take (k + 1)) = namedPieces pieces := by
  induction pieces using List.reverseRecOn with
  | nil => rfl
  | append_singleton pieces piece ih =>
    rw [lastName?_concat, namedPieces_concat]
    cases hpiece : names pieces.length piece with
    | true =>
      simp only [if_true]
      have htake : (pieces ++ [piece]).take (pieces.length + 1) = pieces ++ [piece] := by
        rw [List.take_of_length_le (by simp)]
      refine ⟨piece, by simp, hpiece, ?_, ?_⟩
      · rw [htake, List.take_left, namedPieces_concat, if_pos hpiece]
      · rw [htake, namedPieces_concat, if_pos hpiece]
    | false =>
      simp only [Bool.false_eq_true, if_false, List.append_nil]
      cases hlast : lastName? pieces with
      | none => simpa only [hlast] using ih
      | some k =>
        simp only [hlast] at ih
        obtain ⟨name, hget, hname, hconcat, hall⟩ := ih
        have hk : k < pieces.length := (List.getElem?_eq_some_iff.mp hget).1
        refine ⟨name, ?_, hname, ?_, ?_⟩
        · rw [List.getElem?_append_left hk, hget]
        · rwa [List.take_append_of_le_length (by omega), List.take_append_of_le_length (by omega)]
        · rwa [List.take_append_of_le_length (by omega)]

end Pieces

/-! ## Pieces between slashes -/

section Segments

theorem segments_of_notMem {name : String} (h : '/' ∉ name.toList) : segments name = [name] := by
  rw [segments, splitAt_of_not_mem h, List.map_singleton, String.ofList_toList]

theorem segments_append (base path : String) :
    segments (base ++ "/" ++ path) = segments base ++ segments path := by
  have h : (base ++ "/" ++ path).toList = base.toList ++ '/' :: path.toList := by
    simp [String.toList_append]
  rw [segments, h, splitAt_append, List.map_append]
  rfl

theorem segments_intercalate {pieces : List String} (hne : pieces ≠ [])
    (h : ∀ piece ∈ pieces, '/' ∉ piece.toList) : segments ("/".intercalate pieces) = pieces := by
  induction pieces with
  | nil => exact absurd rfl hne
  | cons piece rest ih =>
    have hpiece := segments_of_notMem (h piece List.mem_cons_self)
    cases rest with
    | nil => rw [String.intercalate_singleton, hpiece]
    | cons next rest =>
      rw [String.intercalate_cons_cons, segments_append, hpiece,
        ih (by simp) fun other hother => h other (List.mem_cons_of_mem _ hother)]
      rfl

theorem notMem_of_mem_splitAt {sep : Char} {cs piece : List Char} (h : piece ∈ splitAt sep cs) :
    sep ∉ piece := by
  induction cs generalizing piece with
  | nil => simp_all [splitAt]
  | cons c rest ih =>
    rw [splitAt] at h
    split at h
    · rcases List.mem_cons.mp h with rfl | h
      · exact List.not_mem_nil
      · exact ih h
    · rename_i hc
      split at h
      · rw [List.mem_singleton.mp h, List.mem_singleton]
        exact fun heq => hc heq.symm
      · rename_i first others hsplit
        rcases List.mem_cons.mp h with rfl | h
        · rw [List.mem_cons, not_or]
          exact ⟨fun heq => hc heq.symm, ih (hsplit ▸ List.mem_cons_self)⟩
        · exact ih (hsplit ▸ List.mem_cons_of_mem _ h)

theorem notMem_of_mem_segments {path piece : String} (h : piece ∈ segments path) :
    '/' ∉ piece.toList := by
  obtain ⟨cs, hcs, rfl⟩ := List.mem_map.mp h
  rw [String.toList_ofList]
  exact notMem_of_mem_splitAt hcs

theorem segments_ne_nil (path : String) : segments path ≠ [] := by
  rw [segments, Ne, List.map_eq_nil_iff]
  exact splitAt_ne_nil _ _

/-- A path that begins at the root has an empty piece in front of its first slash. -/
theorem startsWith_slash_iff {path : String} :
    path.startsWith "/" = true ↔ ∃ piece rest, segments path = "" :: piece :: rest := by
  rw [← Bool.not_eq_false, Directory.startsWith_slash_eq_false_iff, segments]
  cases path.toList with
  | nil => simp [splitAt]
  | cons c rest =>
    rw [splitAt]
    obtain ⟨piece, pieces, hsplit⟩ := List.exists_cons_of_ne_nil (splitAt_ne_nil '/' rest)
    by_cases hc : c = '/'
    · simp [hc, hsplit]
    · simp [hc, hsplit, ← String.toList_inj]

end Segments

/-! ## Joining, and going up -/

/-- A text that names a single entry: one piece, and not the dot that stands for no step. -/
structure IsComponent (name : String) : Prop where
  slash : '/' ∉ name.toList
  ne_empty : name ≠ ""
  ne_dot : name ≠ "."

theorem IsComponent.names {name : String} (h : IsComponent name) (position : Nat) :
    names position name = true := by
  simp [PathText.names, h.ne_empty, h.ne_dot]

theorem IsComponent.startsWith {name : String} (h : IsComponent name) :
    name.startsWith "/" = false := by
  rw [Directory.startsWith_slash_eq_false_iff]
  exact fun hhead => h.slash (List.mem_of_head? hhead)

/-- The pieces of a name in a folder: those of the folder, without the empty one behind a slash at
its end, and the name. -/
theorem exists_segments_joinPath (base : String) {name : String} (h : IsComponent name) :
    ∃ front, segments (joinPath base name) = front ++ [name] ∧
      namedPieces front = namedPieces (segments base) := by
  rw [joinPath, if_neg (by simp only [h.startsWith, Bool.false_eq_true, not_false_iff])]
  split
  · rename_i hbase
    by_cases hempty : base = ""
    · subst hempty
      exact ⟨[], by rw [String.empty_append, segments_of_notMem h.slash]; rfl, by decide⟩
    · have hends : base.endsWith "/" = true := by simpa [hempty] using hbase
      obtain ⟨front, hfront⟩ := endsWith_iff.mp hends
      have hfront' : base = String.ofList front ++ "/" := by
        rw [← String.toList_inj, ← hfront]
        simp
      have hsegments : segments base = segments (String.ofList front) ++ [""] := by
        rw [hfront', ← String.append_empty (s := String.ofList front ++ "/"), segments_append]
        rfl
      refine ⟨segments (String.ofList front), ?_, ?_⟩
      · rw [hfront', segments_append, segments_of_notMem h.slash]
      · rw [hsegments, namedPieces_concat, if_neg (by simp [PathText.names]), List.append_nil]
  · exact ⟨segments base, by rw [segments_append, segments_of_notMem h.slash], rfl⟩

theorem components_joinPath (base : String) {name : String} (h : IsComponent name) :
    components (joinPath base name) = components base ++ [name] := by
  obtain ⟨front, hsegments, hnamed⟩ := exists_segments_joinPath base h
  rw [components, components, rootOf, rootOf, hsegments, namedPieces_concat, if_pos (h.names _),
    hnamed, Directory.startsWith_joinPath base h.startsWith, List.append_assoc]

/-- The components of a path, seen from its last name. -/
theorem components_of_lastName? (path : String) :
    match lastName? (segments path) with
    | none => components path = rootOf path
    | some k => ∃ name, (segments path)[k]? = some name ∧
        components path = rootOf path ++ namedPieces ((segments path).take k) ++ [name] := by
  have hspec := lastName?_spec (segments path)
  rw [components]
  cases hlast : lastName? (segments path) with
  | none =>
    simp only [hlast] at hspec ⊢
    rw [hspec, List.append_nil]
  | some k =>
    simp only [hlast] at hspec ⊢
    obtain ⟨name, hget, -, hconcat, hall⟩ := hspec
    exact ⟨name, hget, by rw [← hall, hconcat, List.append_assoc]⟩

/-- What is in front of a name of a path begins at the root if the path does. -/
theorem rootOf_intercalate_take {path : String} {j : ℕ} {name : String}
    (hget : (segments path)[j]? = some name) (hname : names j name = true) :
    rootOf ("/".intercalate ((segments path).take (j + 1))) = rootOf path := by
  have hne : (segments path).take (j + 1) ≠ [] := by simpa using segments_ne_nil path
  have hsegments := segments_intercalate hne fun piece hpiece =>
    notMem_of_mem_segments (List.mem_of_mem_take hpiece)
  have hiff : ("/".intercalate ((segments path).take (j + 1))).startsWith "/" = true ↔
      path.startsWith "/" = true := by
    rw [startsWith_slash_iff, startsWith_slash_iff, hsegments]
    cases hpieces : segments path with
    | nil => exact absurd hpieces (segments_ne_nil path)
    | cons first rest =>
      cases j with
      | zero =>
        -- The first piece is a name, so it is not the empty one in front of a slash.
        rw [hpieces] at hget
        obtain rfl : first = name := Option.some.inj hget
        have hfirst : first ≠ "" := by
          rintro rfl
          exact absurd hname (by decide)
        simp [hfirst]
      | succ j =>
        cases rest with
        | nil => simp [hpieces] at hget
        | cons second rest => simp
  simp only [rootOf, hiff]

/-- The parent of a path is the path without its last component. -/
theorem components_parent? (path : String) :
    components ((parent? path).getD "") = (components path).dropLast := by
  have hspec := components_of_lastName? path
  have hroot : components "/" = ["/"] := by decide +kernel
  have hempty : components "" = [] := by decide +kernel
  rw [parent?]
  cases hlast : lastName? (segments path) with
  | none =>
    simp only [hlast] at hspec ⊢
    rw [hspec, Option.getD_none, hempty, rootOf]
    split <;> rfl
  | some k =>
    simp only [hlast] at hspec ⊢
    obtain ⟨name, -, hcomponents⟩ := hspec
    rw [hcomponents, List.dropLast_concat]
    have hbefore := lastName?_spec ((segments path).take k)
    cases hprevious : lastName? ((segments path).take k) with
    | none =>
      simp only [hprevious] at hbefore ⊢
      rw [hbefore, List.append_nil, Option.getD_some, rootOf]
      split
      · exact hroot
      · exact hempty
    | some j =>
      simp only [hprevious] at hbefore ⊢
      obtain ⟨previous, hget, hname, -, hall⟩ := hbefore
      have hj : j < k := by
        have := (List.getElem?_eq_some_iff.mp hget).1
        rw [List.length_take] at this
        omega
      have hne : (segments path).take (j + 1) ≠ [] := by simpa using segments_ne_nil path
      have hsegments := segments_intercalate hne fun piece hpiece =>
        notMem_of_mem_segments (List.mem_of_mem_take hpiece)
      rw [List.getElem?_take_of_lt hj] at hget
      rw [Option.getD_some, components, hsegments, ← hall, List.take_take, Nat.min_eq_left hj]
      exact congrArg (· ++ _) (rootOf_intercalate_take hget hname)

/-- The last name of a path is its last component, unless that is the root, a dot or two. -/
theorem fileName?_eq_some_iff {path name : String} :
    fileName? path = some name ↔
      (components path).getLast? = some name ∧ name ≠ "/" ∧ name ≠ "." ∧ name ≠ ".." := by
  have hspec := components_of_lastName? path
  rw [fileName?]
  cases hlast : lastName? (segments path) with
  | none =>
    simp only [hlast] at hspec
    rw [hspec, rootOf]
    simp only [Option.bind_none]
    split <;> simp +contextual [eq_comm]
  | some k =>
    simp only [hlast] at hspec
    obtain ⟨last, hget, hcomponents⟩ := hspec
    have hslash : last ≠ "/" := by
      rintro rfl
      exact notMem_of_mem_segments (List.mem_of_getElem? hget) (by decide)
    rw [hcomponents, List.getLast?_concat]
    simp only [Option.bind_some, hget]
    split
    · rename_i hdots
      refine ⟨fun h => absurd h (by simp), ?_⟩
      rintro ⟨heq, -, hdot, hdots'⟩
      obtain rfl := Option.some.inj heq
      exact absurd hdots (by simp [hdot, hdots'])
    · rename_i hdots
      refine ⟨fun heq => ⟨heq, ?_⟩, And.left⟩
      obtain rfl := Option.some.inj heq
      exact ⟨hslash, by simpa using hdots⟩

/-! ## Extensions -/

/-- A name without its extension is the beginning of the name. -/
theorem withoutExtension_isPrefix (name : String) :
    (withoutExtension name).toList <+: name.toList := by
  rw [withoutExtension]
  split
  · exact List.prefix_rfl
  · rename_i mark before hdrop
    split
    · exact List.prefix_rfl
    · rw [String.toList_ofList]
      obtain ⟨extension, hreverse⟩ := List.dropWhile_suffix (l := name.toList.reverse) (· != '.')
      rw [hdrop] at hreverse
      refine ⟨mark :: extension.reverse, ?_⟩
      rw [← List.reverse_reverse name.toList, ← hreverse]
      simp

/-- An extension that has been put behind a name is the one that is taken off. -/
theorem withoutExtension_append {stem extension : String} (hstem : stem ≠ "")
    (h : '.' ∉ extension.toList) : withoutExtension (stem ++ "." ++ extension) = stem := by
  have hne : stem.toList.reverse ≠ [] := by simpa using hstem
  have hnone : ∀ c ∈ extension.toList.reverse, (c != '.') = true := by
    intro c hc
    rw [bne_iff_ne]
    rintro rfl
    exact h (List.mem_reverse.mp hc)
  have hdrop : (stem ++ "." ++ extension).toList.reverse.dropWhile (· != '.') =
      '.' :: stem.toList.reverse := by
    have hreverse : (stem ++ "." ++ extension).toList.reverse =
        extension.toList.reverse ++ '.' :: stem.toList.reverse := by
      simp
    rw [hreverse, List.dropWhile_append_of_pos hnone, List.dropWhile_cons]
    rfl
  rw [withoutExtension]
  simp only [hdrop, List.isEmpty_iff, hne, if_false, List.reverse_reverse, String.ofList_toList]

theorem slash_notMem_stem? {path stem : String} (h : stem? path = some stem) :
    '/' ∉ stem.toList := by
  obtain ⟨name, hname, rfl⟩ := Option.map_eq_some_iff.mp h
  have hmem : name ∈ segments path := by
    rw [fileName?] at hname
    split at hname
    · rename_i last hlast
      obtain ⟨k, -, hget⟩ := Option.bind_eq_some_iff.mp hlast
      split at hname
      · exact absurd hname (by simp)
      · exact Option.some.inj hname ▸ List.mem_of_getElem? hget
    · exact absurd hname (by simp)
  exact fun hslash => notMem_of_mem_segments hmem ((withoutExtension_isPrefix name).subset hslash)

end PathText

/-! ## Places -/

namespace Directory

open PathText

/-- The pieces of a path that say something are its names, without a dot that it begins with. -/
theorem pieces_eq_filter_namedPieces (path : String) :
    pieces path = (namedPieces (segments path)).filter (· != ".") := by
  rw [pieces, ← segments]
  induction segments path using List.reverseRecOn with
  | nil => rfl
  | append_singleton ps p ih =>
    rw [namedPieces_concat, List.filter_append, List.filter_append, ih]
    congr 1
    by_cases hempty : p = "" <;> by_cases hdot : p = "." <;> simp_all [names]

theorem walk_eq_append {d : Directory} {base place : Place} {names : List String}
    (h : ".." ∉ names) (hwalk : d.walk base names = .ok place) : place = base ++ names := by
  induction names generalizing base with
  | nil =>
    rw [Directory.walk] at hwalk
    rw [List.append_nil, Except.ok.inj hwalk]
  | cons name rest ih =>
    rw [List.mem_cons, not_or] at h
    rw [Directory.walk] at hwalk
    split at hwalk
    · exact absurd hwalk (by simp)
    · exact absurd hwalk (by simp)
    · rw [step, if_neg (Ne.symm h.1)] at hwalk
      rw [ih h.2 hwalk, List.append_assoc, List.singleton_append]

theorem walk_of_placeFrom {d : Directory} {base place : Place} {path : String}
    (h : d.placeFrom base path = .ok place) :
    d.walk (origin base path) (pieces path) = .ok place := by
  rw [placeFrom] at h
  split at h
  · exact absurd h (by simp)
  · split at h
    · exact absurd h (by simp)
    · exact h

/-- A path without dots means the place of its names, seen from its origin. -/
theorem place_eq_origin_append {d : Directory} {base place : Place} {path : String}
    (hdot : "." ∉ components path) (hdots : ".." ∉ components path)
    (h : d.placeFrom base path = .ok place) :
    place = origin base path ++ namedPieces (segments path) := by
  rw [components, List.mem_append, not_or] at hdot hdots
  have hpieces : pieces path = namedPieces (segments path) := by
    rw [pieces_eq_filter_namedPieces, List.filter_eq_self]
    intro name hname
    rw [bne_iff_ne]
    rintro rfl
    exact hdot.2 hname
  have hwalk := walk_of_placeFrom h
  rw [hpieces] at hwalk
  exact walk_eq_append hdots.2 hwalk

end Directory

end SphereLab
