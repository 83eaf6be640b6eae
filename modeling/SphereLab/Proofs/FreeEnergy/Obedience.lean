import Mathlib
import SphereLab.FreeEnergy.Sweep
import SphereLab.Proofs.DataFile.Header
import SphereLab.Proofs.FreeEnergy.Commands

/-!
# Obedient simulators

A sweep relies on its simulator: whatever the command asks for has to be in the file that the
command names.

* `Simulator.Obeys`: the simulator writes the file that its command names, and reports the
  filling fraction that its command asks for.
* `obeys_reporting`: there is such a simulator.
-/

namespace SphereLab

/-! ## What a simulator promises -/

/-- A text reports a filling fraction, and counts above zero. -/
def Reports (text : String) (ffSmall : Float) : Prop :=
  (Header.parse text).number "ff_small" = .ok ffSmall ∧
    ∃ tried succeeded, 0 < tried ∧ 0 < succeeded ∧
      (Header.parse text).number "total checks of small cell" = .ok tried ∧
      (Header.parse text).number "total valid small checks" = .ok succeeded

/-- Whatever it is called with, the simulator succeeds and writes just the file that its command
names, with a report on the filling fraction that its command asks for --- as long as that file
can be written at all. -/
def Simulator.Obeys {σ : Type} (simulate : Simulator σ) : Prop :=
  ∀ command name folder asked ffSmall state d,
    optionOf? command "--filename" = some name →
    optionOf? command "--data_dir" = some folder →
    optionOf? command "--ff_small" = some asked →
    readDouble? asked.toList = some ffSmall →
    (∃ d', Directory.writeText d (joinPath folder (name ++ "-g.dat")) "" = .ok d') →
    ∃ text state' d', simulate command (state, d) = (none, state', d') ∧
      Directory.writeText d (joinPath folder (name ++ "-g.dat")) text = .ok d' ∧
      Reports text ffSmall

/-! ## A simulator that obeys -/

/-- A report on a filling fraction, given as a text, with fixed counts. -/
def reportOn (asked : List Char) : String :=
  String.ofList (unlines
    [Header.entryLine "ff_small".toList asked,
      Header.entryLine "total checks of small cell".toList "1000".toList,
      Header.entryLine "total valid small checks".toList "500".toList])

/-- The simulator that does nothing but to write a report on what it is asked for. -/
def reporting : Simulator Unit := fun command (state, d) =>
  match optionOf? command "--filename", optionOf? command "--data_dir",
    optionOf? command "--ff_small" with
  | some name, some folder, some asked =>
    match d.writeText (joinPath folder (name ++ "-g.dat")) (reportOn asked.toList) with
    | .ok d' => (none, state, d')
    | .error e => (some (Filing.unwritable folder e), state, d)
  | _, _, _ => (some (.input "no options"), state, d)

/-- The header of a report. -/
theorem parse_report {asked tried succeeded : List Char} {x y z : Float}
    (hasked : readDouble? asked = some x) (htried : readDouble? tried = some y)
    (hsucceeded : readDouble? succeeded = some z) :
    Header.parse (String.ofList (unlines
      [Header.entryLine "ff_small".toList asked,
        Header.entryLine "total checks of small cell".toList tried,
        Header.entryLine "total valid small checks".toList succeeded])) =
      ⟨[("total valid small checks", .number z), ("total checks of small cell", .number y),
        ("ff_small", .number x)]⟩ := by
  have hparse := Header.parse_entryLines
    [("ff_small".toList, asked, x), ("total checks of small cell".toList, tried, y),
      ("total valid small checks".toList, succeeded, z)] (by
    have hkey : ∀ key : List Char, key ∈ ["ff_small".toList, "total checks of small cell".toList,
        "total valid small checks".toList] → Header.IsKey key := by
      intro key hmem
      simp only [List.mem_cons, List.not_mem_nil, or_false] at hmem
      rcases hmem with rfl | rfl | rfl
      all_goals
        refine ⟨by decide, by decide, by decide, ?_, ?_⟩
        · rintro _ ⟨⟩
          rfl
        · rintro _ ⟨⟩
          rfl
    simp only [List.forall_mem_cons]
    exact ⟨⟨hkey _ (by simp), hasked⟩, ⟨hkey _ (by simp), htried⟩, ⟨hkey _ (by simp), hsucceeded⟩,
      by simp⟩)
  exact hparse.trans rfl

theorem reports_reportOn {asked : List Char} {x : Float} (h : readDouble? asked = some x) :
    Reports (reportOn asked) x := by
  obtain ⟨tried, htried, hpos⟩ : ∃ tried, readDouble? "1000".toList = some tried ∧ 0 < tried :=
    ⟨_, rfl, by decide +kernel⟩
  obtain ⟨succeeded, hsucceeded, hpos'⟩ :
      ∃ succeeded, readDouble? "500".toList = some succeeded ∧ 0 < succeeded :=
    ⟨_, rfl, by decide +kernel⟩
  have hheader := parse_report h htried hsucceeded
  refine ⟨?_, tried, succeeded, hpos, hpos', ?_, ?_⟩
  all_goals rw [reportOn, hheader]; rfl

/-- Whether a file can be written does not depend on the text. -/
theorem writeText_isOk {d d' : Directory} {path text : String}
    (h : d.writeText path text = .ok d') (other : String) :
    ∃ d'', d.writeText path other = .ok d'' := by
  rw [Directory.writeText, Directory.writeFrom] at h ⊢
  split at h
  · exact absurd h (by simp)
  · split at h
    · exact absurd h (by simp)
    · split at h
      · exact absurd h (by simp)
      · rename_i hends
        exact ⟨_, if_neg hends⟩
    · split at h
      · exact absurd h (by simp)
      · exact absurd h (by simp)
      · split at h
        · exact absurd h (by simp)
        · rename_i hends
          exact ⟨_, if_neg hends⟩

theorem obeys_reporting : reporting.Obeys := by
  intro command name folder asked ffSmall state d hname hfolder hasked hread hwrite
  obtain ⟨d', hwrite⟩ := hwrite
  obtain ⟨d'', hreport⟩ := writeText_isOk hwrite (reportOn asked.toList)
  refine ⟨reportOn asked.toList, state, d'', ?_, hreport, reports_reportOn hread⟩
  rw [reporting, hname, hfolder, hasked]
  dsimp only
  rw [hreport]

end SphereLab
