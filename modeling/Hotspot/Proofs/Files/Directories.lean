import Hotspot.Proofs.Files.Changes
import Hotspot.Proofs.Files.Names

/-!
Writing into a directory that is there. A path leads to a directory by its
names alone, since empty pieces and points ask for no more than that. So the
parent of a file in the directory is found as well, whatever its text, nothing
has to be made on the way, and the file is written unless a directory stands in
its place.
-/

namespace Hotspot

namespace Disk

variable {d : Disk} {here start place : Place} {pieces : List (List Char)}
  {content : List UInt8} {p q file : Path}

theorem node?_of_follow (h : d.follow here pieces = .ok place)
    (hplace : d.node? place = some .directory) : d.node? here = some .directory := by
  cases pieces with
  | nil =>
    cases h
    exact hplace
  | cons piece rest =>
    rw [follow] at h
    split at h
    · assumption
    · cases h
    · cases h

/-- On the way to a directory, points may be left out. -/
theorem follow_filter_iff (hplace : d.node? place = some .directory) :
    d.follow here (pieces.filter (· != ['.'])) = .ok place ↔
      d.follow here pieces = .ok place := by
  induction pieces generalizing here with
  | nil => rfl
  | cons piece rest ih =>
    by_cases hpoint : piece = ['.']
    · subst hpoint
      have hstep : step here ['.'] = here := if_pos rfl
      rw [List.filter_cons_of_neg (by simp), ih, follow, hstep]
      constructor
      · intro h
        rw [node?_of_follow h hplace]
        exact h
      · intro h
        split at h
        · exact h
        · cases h
        · cases h
    · rw [List.filter_cons_of_pos (by simpa using hpoint), follow, follow]
      split
      · exact ih
      · rfl
      · rfl

theorem follow_append (h : d.follow here pieces = .ok place) (more : List (List Char)) :
    d.follow here (pieces ++ more) = d.follow place more := by
  induction pieces generalizing here with
  | nil =>
    cases h
    rfl
  | cons piece rest ih =>
    rw [follow] at h
    rw [List.cons_append, follow]
    cases hnode : d.node? here with
    | none =>
      rw [hnode] at h
      cases h
    | some node =>
      rw [hnode] at h
      cases node with
      | directory => exact ih h
      | file content => cases h

theorem lookup_eq_directory_iff : d.lookup start p = .ok .directory ↔
    p.text.isEmpty = false ∧ ∃ place, d.node? place = some .directory ∧
      d.follow (if p.isAbsolute then [] else start) p.names = .ok place := by
  simp only [lookup, bind_eq_ok]
  constructor
  · rintro ⟨place, hplace, hnode⟩
    have hdirectory : d.node? place = some .directory := by
      split at hnode
      · cases hnode
      · assumption
      · split at hnode <;> cases hnode
    unfold placeToMake at hplace
    split at hplace
    · cases hplace
    · rename_i htext
      refine ⟨by simpa using htext, place, hdirectory, ?_⟩
      rw [← piecesOf_filter_ne_point, follow_filter_iff hdirectory]
      exact hplace
  · rintro ⟨htext, place, hdirectory, hfollow⟩
    rw [← piecesOf_filter_ne_point, follow_filter_iff hdirectory] at hfollow
    refine ⟨place, ?_, ?_⟩
    · rw [placeToMake, htext]
      exact hfollow
    · rw [hdirectory]
      rfl

/-- The text of a path does not matter to where its directory is. -/
theorem lookup_directory_congr (hpath : p.components = q.components)
    (htext : p.text.isEmpty = false) (h : d.lookup start q = .ok .directory) :
    d.lookup start p = .ok .directory := by
  rw [lookup_eq_directory_iff] at h ⊢
  rw [Path.names_congr hpath, Path.isAbsolute_congr hpath]
  exact ⟨htext, h.2⟩

namespace IsFileName

variable (hname : IsFileName file)

include hname

theorem isAbsolute_join (h : p.text.isEmpty = false) :
    (p.join file).isAbsolute = p.isAbsolute := by
  have hchars : p.chars ≠ [] := by
    intro hnil
    rw [Path.chars, String.toList_eq_nil_iff] at hnil
    rw [hnil] at h
    cases h
  rw [Path.isAbsolute, Path.lead_join (Path.isAbsolute_of_lead_eq_nil hname.lead_eq) hchars,
    Path.isAbsolute]

theorem exists_placeToMake_join (h : d.lookup start p = .ok .directory) :
    ∃ place, d.placeToMake start (p.join file) = .ok place := by
  obtain ⟨htext, place, hdirectory, hfollow⟩ := lookup_eq_directory_iff.mp h
  refine ⟨step place file.chars, ?_⟩
  rw [placeToMake, hname.isEmpty_text_join, if_neg Bool.false_ne_true, hname.isAbsolute_join htext,
    hname.follow_join, follow_append hfollow, follow, hdirectory]
  rfl

/-- A file can be written in a directory, unless it is a directory itself. -/
theorem exists_writeFile_join (h : d.lookup start p = .ok .directory)
    (hfile : d.lookup start (p.join file) ≠ .ok .directory) (content : List UInt8) :
    ∃ d', d.writeFile start (p.join file) content = .ok d' := by
  obtain ⟨place, hplace⟩ := hname.exists_placeToMake_join h
  refine ⟨_, writeFile_eq_ok_iff.mpr ⟨place, hplace, hname.endsInSlash_join p, ?_, rfl⟩⟩
  intro hdirectory
  apply hfile
  rw [lookup, bind_eq_ok]
  refine ⟨place, hplace, ?_⟩
  rw [hdirectory]
  rfl

end IsFileName

end Disk

namespace Machine

variable {m : Machine} {p file : Path}

theorem isDirectory_iff : m.isDirectory p = true ↔
    m.disk.lookup m.workingDirectory p = .ok .directory := by
  unfold isDirectory
  split <;> simp_all

/-- Nothing is made for a file in a directory that is there. -/
theorem ensureParent_run (hname : Disk.IsFileName file) (h : m.isDirectory p = true) :
    (Host.ensureParent (p.join file) : StateM Machine _) m = (.ok (), m) := by
  have hnames : (p.join file).names ≠ [] := by
    rw [Path.names_join (Path.isAbsolute_of_lead_eq_nil hname.lead_eq), hname.names_eq]
    simp
  obtain ⟨parent, hparent⟩ := Path.exists_parent? hnames
  have hcomponents : parent.components = p.components := by
    rw [Path.components_of_parent? hparent, Path.components_join_of_lead_eq_nil hname.lead_eq,
      Path.components_of_lead_eq_nil hname.lead_eq, hname.names_eq, List.map_singleton,
      List.dropLast_concat]
  unfold Host.ensureParent Host.ensureDirectory
  rw [hparent]
  dsimp only
  cases htext : parent.text.isEmpty with
  | true => rfl
  | false =>
    have hfound : m.pathExists parent = true := by
      rw [pathExists, Disk.lookup_directory_congr hcomponents htext (isDirectory_iff.mp h)]
      rfl
    simp only [Bool.false_eq_true, if_false, bind, StateT.bind, Host.pathExists, hfound, if_true]
    rfl

/-- A file is written in a directory that is there, unless it is a directory
itself. -/
theorem exists_writeFile_run (hname : Disk.IsFileName file) (h : m.isDirectory p = true)
    (hfile : m.isDirectory (p.join file) = false) (text : String) :
    ∃ m', (Host.writeFile (p.join file) text : StateM Machine _) m = (.ok (), m') := by
  obtain ⟨disk, hdisk⟩ := hname.exists_writeFile_join (isDirectory_iff.mp h)
    (fun hdirectory => Bool.false_ne_true (hfile ▸ isDirectory_iff.mpr hdirectory))
    (Text.encode text)
  refine ⟨{ m with disk }, ?_⟩
  unfold Host.writeFile
  simp only [bind, StateT.bind, ensureParent_run hname h, Host.writeText, writeText, hdisk, change]

end Machine

end Hotspot
