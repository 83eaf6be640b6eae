import Mathlib
import SphereLab.Proofs.Directory.Growth

/-!
# Directories in which files are written

Writing a file puts a file at one place, whether there was one or not.  No folder comes or goes that
way, so every path keeps its meaning, and what is read from other places stays as it was.

* `ChangesOnly`: nothing but the entries of some places changes, and the folders stay.
* `ChangesOnly.placeFrom_eq_ok_iff`, `ChangesOnly.readText_eq_ok_iff`: what paths mean, and what is
  read from elsewhere.
* `exists_put_of_writeFrom_eq_ok`: what has been written is at the place that its path means.
-/

namespace SphereLab

namespace Directory

/-- Nothing but the entries of some places changes, and folders neither come nor go. -/
structure ChangesOnly (places : Set Place) (d d' : Directory) : Prop where
  home : d'.home = d.home
  kept : ∀ place ∉ places, d'.entryAt place = d.entryAt place
  folder_iff : ∀ place, d'.entryAt place = some .folder ↔ d.entryAt place = some .folder

namespace ChangesOnly

variable {places others : Set Place} {d d' d'' : Directory}

theorem refl (places : Set Place) (d : Directory) : ChangesOnly places d d :=
  ⟨rfl, fun _ _ => rfl, fun _ => Iff.rfl⟩

theorem trans (h : ChangesOnly places d d') (h' : ChangesOnly places d' d'') :
    ChangesOnly places d d'' :=
  ⟨h'.home.trans h.home,
    fun place hplace => (h'.kept place hplace).trans (h.kept place hplace),
    fun place => (h'.folder_iff place).trans (h.folder_iff place)⟩

theorem mono (h : ChangesOnly places d d') (hsubset : places ⊆ others) :
    ChangesOnly others d d' :=
  ⟨h.home, fun place hplace => h.kept place fun hmem => hplace (hsubset hmem), h.folder_iff⟩

/-- Every path means the place that it meant. -/
theorem placeFrom_eq_ok_iff (h : ChangesOnly places d d') {base place : Place} {path : String} :
    d'.placeFrom base path = .ok place ↔ d.placeFrom base path = .ok place :=
  ⟨placeFrom_of_folders_kept fun other => (h.folder_iff other).mp,
    placeFrom_of_folders_kept fun other => (h.folder_iff other).mpr⟩

/-- A path that means none of the places reads as it did. -/
theorem readText_eq_ok_iff (h : ChangesOnly places d d') {path text : String}
    (hpath : ∀ place ∈ places, d.placeFrom d.home path ≠ .ok place) :
    d'.readText path = .ok text ↔ d.readText path = .ok text := by
  rw [readText, readText, entryFrom, entryFrom, h.home]
  cases hplace : d.placeFrom d.home path with
  | ok place =>
    rw [h.placeFrom_eq_ok_iff.mpr hplace]
    simp only [h.kept place fun hmem => hpath place hmem hplace]
  | error e =>
    cases hplace' : d'.placeFrom d.home path with
    | ok place => exact absurd (h.placeFrom_eq_ok_iff.mp hplace') (by simp [hplace])
    | error e' => simp

end ChangesOnly

section Writing

variable {d d' : Directory} {path : String}

/-- A file put where no folder is changes nothing else. -/
theorem changesOnly_put {place : Place} (hplace : d.entryAt place ≠ some .folder)
    (contents : Contents) (executable : Bool) :
    ChangesOnly {place} d (d.put place (.file contents executable)) := by
  refine ⟨rfl, fun other hother => entryAt_put_of_ne d hother _, fun other => ?_⟩
  by_cases heq : other = place
  · rw [heq, entryAt_put_self d (not_isPrefix_home hplace)]
    simp [hplace]
  · rw [entryAt_put_of_ne d heq]

/-- What has been written is at the place that its path means, and no folder was there. -/
theorem exists_put_of_writeFrom_eq_ok {contents : Contents}
    (h : d.writeFrom d.home path contents = .ok d') :
    ∃ place executable, d.placeFrom d.home path = .ok place ∧ d.entryAt place ≠ some .folder ∧
      d' = d.put place (.file contents executable) := by
  rw [writeFrom] at h
  split at h
  · exact absurd h (by simp)
  · rename_i place hplace
    refine ⟨place, ?_⟩
    split at h
    · exact absurd h (by simp)
    · rename_i before executable hentry
      split at h
      · exact absurd h (by simp)
      · exact ⟨executable, hplace, by simp [hentry], (Except.ok.inj h).symm⟩
    · rename_i hnone
      split at h
      · exact absurd h (by simp)
      · exact absurd h (by simp)
      · split at h
        · exact absurd h (by simp)
        · exact ⟨false, hplace, by simp [hnone], (Except.ok.inj h).symm⟩

end Writing

end Directory

end SphereLab
