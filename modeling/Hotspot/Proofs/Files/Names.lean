import Hotspot.Proofs.Files.Disk
import Hotspot.Proofs.Path.Components

/-!
Different texts of one path. A disk goes by the names of a path: empty pieces
and points on the way to a file are stepped over, so a file is found from its
directory whatever the directory's text. The parents of a path, too, depend on
what it names only.
-/

namespace Hotspot

/-- The name of a step, unless it is where the path starts. -/
def Component.name? : Component → Option (List Char)
  | .up => some ['.', '.']
  | .normal name => some name
  | _ => none

namespace Path

variable {p q p' q' : Path}

theorem names_eq_filterMap (p : Path) : p.names = p.components.filterMap Component.name? := by
  have hlead : (leadComponents p.lead).filterMap Component.name? = [] := by
    unfold leadComponents
    split_ifs <;> rfl
  have hpiece : Component.name? ∘ pieceComponent = some := by
    funext piece
    simp only [Function.comp_apply, pieceComponent]
    split_ifs with hup
    · exact congrArg some hup.symm
    · rfl
  rw [components_eq, List.filterMap_append, hlead, List.nil_append, List.filterMap_map, hpiece,
    List.filterMap_some]

theorem names_congr (h : p.components = q.components) : p.names = q.names := by
  rw [names_eq_filterMap, names_eq_filterMap, h]

theorem isAbsolute_congr (h : p.components = q.components) : p.isAbsolute = q.isAbsolute := by
  rw [Bool.eq_iff_iff, isAbsolute_iff_components, isAbsolute_iff_components, h]

/-- Going up ends at the root and at the empty path. -/
theorem parent?_eq_none_iff :
    p.parent? = none ↔ p.components = [] ∨ p.components = [.root] := by
  have hcases : p.lead = ['/'] ∨ p.lead = ['.'] ∨ p.lead = [] := by
    unfold lead
    split <;> simp
  by_cases hnames : p.names = []
  · have htrim : trimEnd p.pieces = [] := trimEnd_eq_nil_iff.mpr hnames
    rw [components_eq, hnames, parent?, htrim]
    rcases hcases with hlead | hlead | hlead <;> simp [hlead, leadComponents]
  · obtain ⟨parent, hparent⟩ := exists_parent? hnames
    have hpiece : ∀ piece, pieceComponent piece ≠ .root := by
      intro piece
      unfold pieceComponent
      split <;> simp
    rw [hparent, components_eq]
    rcases hcases with hlead | hlead | hlead <;>
      simp [hlead, leadComponents, hnames, List.map_eq_cons_iff, hpiece]

/-- One step up from two texts of a path leads to two texts of its parent. -/
theorem rel_parent? (h : p.components = q.components) :
    Option.Rel (fun p q => p.components = q.components) p.parent? q.parent? := by
  cases hp : p.parent? with
  | none =>
    have hq : q.parent? = none := by
      rw [parent?_eq_none_iff, ← h]
      exact parent?_eq_none_iff.mp hp
    rw [hq]
    exact .none
  | some parent =>
    cases hq : q.parent? with
    | none =>
      rw [parent?_eq_none_iff, ← h, ← parent?_eq_none_iff, hp] at hq
      cases hq
    | some parent' =>
      refine .some ?_
      rw [components_of_parent? hp, components_of_parent? hq, h]

theorem rel_ancestors (depth : Nat) (h : p.components = q.components) :
    List.Forall₂ (fun p q => p.components = q.components) (ancestors depth p)
      (ancestors depth q) := by
  induction depth generalizing p q with
  | zero => exact .nil
  | succ depth ih =>
    rw [ancestors, ancestors]
    refine .cons h ?_
    have hparent := rel_parent? h
    revert hparent
    cases p.parent? <;> cases q.parent? <;> rintro ⟨⟩
    · exact .nil
    · exact ih ‹_›

end Path

namespace Disk

variable {d : Disk} {here start : Place} {pieces : List (List Char)} {name : List Char}
  {p q file : Path}

/-- A point asks for a directory, and so does whatever comes behind it. -/
theorem follow_point (d : Disk) (here : Place) (h : pieces ≠ []) :
    d.follow here (['.'] :: pieces) = d.follow here pieces := by
  obtain ⟨piece, rest, rfl⟩ := List.exists_cons_of_ne_nil h
  have hstep : step here ['.'] = here := if_pos rfl
  rw [follow, hstep]
  cases hnode : d.node? here with
  | none => rw [follow, hnode]
  | some node =>
    cases node with
    | directory => rfl
    | file content => rw [follow, hnode]

/-- On the way to a name, points may be left out. -/
theorem follow_filter_append (d : Disk) (here : Place) (pieces : List (List Char))
    (name : List Char) : d.follow here (pieces.filter (· != ['.']) ++ [name]) =
      d.follow here (pieces ++ [name]) := by
  induction pieces generalizing here with
  | nil => rfl
  | cons piece rest ih =>
    by_cases hpoint : piece = ['.']
    · subst hpoint
      rw [List.filter_cons_of_neg (by simp), ih, List.cons_append, follow_point d here (by simp)]
    · rw [List.filter_cons_of_pos (by simpa using hpoint), List.cons_append, List.cons_append,
        follow, follow]
      simp only [ih]

theorem piecesOf_filter_ne_point (p : Path) : (piecesOf p).filter (· != ['.']) = p.names := by
  rw [piecesOf, List.filter_filter, Path.names_eq_filter_splitOn]
  congr 1
  funext piece
  exact Bool.and_comm _ _

/-- A file name: one piece, which is a name. -/
structure IsFileName (file : Path) : Prop where
  name : Path.isName file.chars = true
  slash : '/' ∉ file.chars

namespace IsFileName

variable (h : IsFileName file)

include h

theorem splitOn_eq : file.chars.splitOn '/' = [file.chars] := by
  have hslash : ∀ piece ∈ [file.chars], '/' ∉ piece := by simpa using h.slash
  have hsplit := List.splitOn_intercalate '/' hslash (List.cons_ne_nil _ _)
  simpa using hsplit

theorem lead_eq : file.lead = [] := by
  apply Path.lead_eq_nil
  have htake : file.chars.takeWhile (· != '/') = file.chars := by
    rw [List.takeWhile_eq_self_iff]
    intro c hc
    rw [bne_iff_ne]
    rintro rfl
    exact h.slash hc
  rw [htake]
  exact h.name

theorem names_eq : file.names = [file.chars] := by
  rw [Path.names_eq_filter_splitOn, h.splitOn_eq, List.filter_cons_of_pos h.name, List.filter_nil]

theorem piecesOf_join (p : Path) : piecesOf (p.join file) = piecesOf p ++ [file.chars] := by
  have hlast : (file.chars.splitOn '/').filter (· != []) = [file.chars] := by
    rw [h.splitOn_eq]
    simpa using (Path.isName_iff.mp h.name).1
  unfold piecesOf
  rw [Path.chars_join (Path.isAbsolute_of_lead_eq_nil h.lead_eq)]
  split
  · rename_i hp
    rcases hp with hnil | hslash
    · rw [hnil, List.nil_append, hlast]
      rfl
    · obtain ⟨cs, hcs⟩ := List.getLast?_eq_some_iff.mp hslash
      rw [hcs, List.append_assoc, List.singleton_append, List.splitOn_append_cons_self,
        List.splitOn_append_cons_self, List.filter_append, List.filter_append, hlast]
      simp
  · rw [List.splitOn_append_cons_self, List.filter_append, hlast]

/-- A file in a directory is reached by the names of the directory. -/
theorem follow_join (d : Disk) (here : Place) (p : Path) :
    d.follow here (piecesOf (p.join file)) = d.follow here (p.names ++ [file.chars]) := by
  rw [h.piecesOf_join, ← follow_filter_append, piecesOf_filter_ne_point]

theorem endsInSlash_join (p : Path) : endsInSlash (p.join file) = false := by
  obtain ⟨front, c, hc⟩ :=
    (List.eq_nil_or_concat file.chars).resolve_left (Path.isName_iff.mp h.name).1
  have hne : c ≠ '/' := by
    rintro rfl
    exact h.slash (by simp [hc])
  rw [endsInSlash, Path.chars_join (Path.isAbsolute_of_lead_eq_nil h.lead_eq), hc,
    List.concat_eq_append]
  split
  · simp [hne]
  · rw [← List.cons_append, ← List.append_assoc, List.getLast?_concat]
    simp [hne]

theorem isEmpty_text_join (p : Path) : (p.join file).text.isEmpty = false := by
  rw [← Bool.not_eq_true, String.isEmpty_iff]
  intro hempty
  have hnames := Path.names_join (p := p) (Path.isAbsolute_of_lead_eq_nil h.lead_eq)
  rw [h.names_eq, Path.names_eq_filter_splitOn, Path.chars, hempty] at hnames
  exact List.append_ne_nil_of_right_ne_nil _ (List.cons_ne_nil _ _) hnames.symm

/-- The text of the directory does not matter to what its file says. -/
theorem readText_join_congr (hpath : p.components = q.components) (d : Disk) (start : Place) :
    d.readText start (p.join file) = d.readText start (q.join file) := by
  have hcomponents : (p.join file).components = (q.join file).components := by
    rw [Path.components_join_of_lead_eq_nil h.lead_eq,
      Path.components_join_of_lead_eq_nil h.lead_eq, hpath]
  have hplace : d.placeToMake start (p.join file) = d.placeToMake start (q.join file) := by
    rw [placeToMake, placeToMake, h.isEmpty_text_join, h.isEmpty_text_join,
      Path.isAbsolute_congr hcomponents, h.follow_join, h.follow_join, Path.names_congr hpath]
  have hlookup : d.lookup start (p.join file) = d.lookup start (q.join file) := by
    rw [lookup, lookup, hplace, h.endsInSlash_join, h.endsInSlash_join]
  rw [readText, readText, hlookup]

end IsFileName

end Disk

end Hotspot
