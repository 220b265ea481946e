import Hotspot.Proofs.Storage.Layout

/-!
Which files of a storage directory can be one file. The extension is put behind
the text of a source file whatever it ends in, so the place of an analysis shows
every name of its source, and sources that are named differently from their
workspace are kept apart. The project file has a name of the same form: there is
one source file whose analysis is looked for in its place.
-/

namespace Hotspot

namespace Path

variable {p : Path} {front : List (List Char)} {last : List Char}

/-- A path that leads down by names only, as source files are named from their
workspace. -/
def OfNames (p : Path) : Prop := ∀ component ∈ p.components, ∃ name, component = .normal name

theorem ofNames_of_components_eq (names : List (List Char))
    (h : p.components = names.map .normal) : OfNames p := by
  intro component hmem
  rw [h] at hmem
  obtain ⟨name, -, hname⟩ := List.mem_map.mp hmem
  exact ⟨name, hname.symm⟩

theorem exists_pieces_eq (p : Path) : ∃ front last, p.pieces = front ++ [last] := by
  have hne : p.pieces ≠ [] := List.splitOn_ne_nil _ _
  exact ⟨p.pieces.dropLast, p.pieces.getLast hne, (List.dropLast_append_getLast hne).symm⟩

/-- Without a lead, what stands in front of the first name of a text is
nothing. -/
theorem chars_eq_of_pieces_eq (hlead : p.lead = []) (h : p.pieces = front ++ [last])
    (hfront : front.filter isName = []) (hlast : isName last = true) : p.chars = last := by
  have hfits := fits_of_pieces_eq h hlast
  rw [hlead] at hfits
  cases front with
  | nil =>
    rw [← ofPieces_lead_pieces p, h, hlead, chars_ofPieces]
    simp
  | cons first rest =>
    have hfirst := List.filter_eq_nil_iff.mp hfront first (List.mem_cons_self ..)
    cases hfits with
    | named _ hname => exact absurd hname hfirst

end Path

namespace Storage

open Hotspot.Path (OfNames isName pieceComponent)

variable {root source other : Path} {front : List (List Char)} {name : List Char}

theorem components_projectGraphPath (root : Path) :
    (projectGraphPath root).components =
      (directory root).components ++ [.normal projectFileName.chars] :=
  Path.components_join_of_lead_eq_nil (by decide)

/-- The project file stands where the analysis of a source file would stand
whose text ends in this piece. -/
def projectStem : List Char := "project".toList

theorem projectFileName_eq : projectFileName.chars = projectStem ++ '.' :: extension.toList := by
  decide

/-- Two analyses in one place are of sources with the same names. -/
theorem components_eq_of_analysisPath_eq (hsource : source.lead = []) (hother : other.lead = [])
    (h : (analysisPath root source).components = (analysisPath root other).components) :
    source.components = other.components := by
  obtain ⟨front, last, hpieces⟩ := source.exists_pieces_eq
  obtain ⟨front', last', hpieces'⟩ := other.exists_pieces_eq
  rw [components_analysisPath root hsource hpieces, components_analysisPath root hother hpieces',
    List.append_cancel_left_eq] at h
  obtain ⟨hfront, hlast⟩ := List.append_inj' h rfl
  rw [List.singleton_inj, Component.normal.injEq, List.append_cancel_right_eq] at hlast
  rw [Path.components_of_lead_eq_nil hsource, Path.components_of_lead_eq_nil hother,
    Path.names, Path.names, hpieces, hpieces', List.filter_append, List.filter_append,
    List.map_append, List.map_append, hfront, hlast]

theorem analysisPath_eq_projectGraphPath_iff (hlead : source.lead = []) :
    (analysisPath root source).components = (projectGraphPath root).components ↔
      source.chars = projectStem := by
  constructor
  · intro h
    obtain ⟨front, last, hpieces⟩ := source.exists_pieces_eq
    rw [components_analysisPath root hlead hpieces, components_projectGraphPath,
      List.append_cancel_left_eq, projectFileName_eq] at h
    obtain ⟨hfront, hlast⟩ := List.append_inj' (h.trans (List.nil_append _).symm) rfl
    rw [List.singleton_inj, Component.normal.injEq, List.append_cancel_right_eq] at hlast
    subst hlast
    exact Path.chars_eq_of_pieces_eq hlead hpieces (List.map_eq_nil_iff.mp hfront) (by decide)
  · intro h
    have hproject : source = ⟨"project"⟩ := Path.eq_of_chars_eq h
    rw [hproject]
    rfl

/-- Source files that are named differently from their workspace have their
analyses in different places, and none of these is the place of the project
file, but for the source file `project`. -/
theorem analysisPath_kept_apart (root : Path) (hsource : OfNames source) (hother : OfNames other) :
    (source.same other = false →
      (analysisPath root source).same (analysisPath root other) = false) ∧
    ((analysisPath root source).same (projectGraphPath root) = true ↔
      source = ⟨"project"⟩) := by
  have hlead := Path.lead_eq_nil_of_normal hsource
  have hlead' := Path.lead_eq_nil_of_normal hother
  refine ⟨?_, ?_⟩
  · intro hdifferent
    rw [← Bool.not_eq_true, Path.same_iff] at hdifferent ⊢
    exact fun h => hdifferent (components_eq_of_analysisPath_eq hlead hlead' h)
  · rw [Path.same_iff, analysisPath_eq_projectGraphPath_iff hlead]
    exact ⟨fun h => Path.eq_of_chars_eq h, fun h => h ▸ rfl⟩

/-- A source file of the project's name further in, and one that has the name of
an analysis. -/
theorem sample_kept_apart :
    (Path.mk "src//project").same ⟨"src/project.blta"⟩ = false ∧
      (analysisPath ⟨"/w"⟩ ⟨"src//project"⟩).same (analysisPath ⟨"/w"⟩ ⟨"src/project.blta"⟩) =
        false ∧
      (analysisPath ⟨"/w"⟩ ⟨"src//project"⟩).same (projectGraphPath ⟨"/w"⟩) ≠ true := by
  have hsource : OfNames ⟨"src//project"⟩ :=
    Path.ofNames_of_components_eq ["src".toList, "project".toList] (by decide +kernel)
  have hother : OfNames ⟨"src/project.blta"⟩ :=
    Path.ofNames_of_components_eq ["src".toList, "project.blta".toList]
      (by decide +kernel)
  have hdifferent : (Path.mk "src//project").same ⟨"src/project.blta"⟩ = false := by
    decide +kernel
  obtain ⟨hanalyses, hproject⟩ := analysisPath_kept_apart ⟨"/w"⟩ hsource hother
  exact ⟨hdifferent, hanalyses hdifferent, fun h => absurd (hproject.mp h) (by decide)⟩

/-- A source file `project` is named as any other, but its analysis is looked
for in the project file. -/
theorem project_source_not_apart :
    OfNames ⟨"project"⟩ ∧ isStoragePath ⟨"project"⟩ = false ∧
      (Path.mk "project").chars.getLast? ≠ some '/' ∧
      analysisPath ⟨"/work"⟩ ⟨"project"⟩ = projectGraphPath ⟨"/work"⟩ := by
  refine ⟨?_, by decide +kernel, by decide, by decide⟩
  exact Path.ofNames_of_components_eq ["project".toList] (by decide +kernel)

end Storage

end Hotspot
