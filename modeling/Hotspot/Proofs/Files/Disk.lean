import Hotspot.Files.Disk
import Hotspot.Proofs.Schema.Record

/-!
What a file says on disks that differ in one place. A path that can be followed
leads to one place, whatever the disk, and a file that is found there says what
that place holds; so a change anywhere else goes unnoticed, unless it takes a
directory away or puts one there.
-/

namespace Hotspot.Disk

variable {d d' : Disk} {start here place other : Place} {pieces : List (List Char)} {path : Path}
  {text text' : String}

/-- The place that pieces lead to where all of them can be followed. -/
theorem follow_eq_of_ok (h : d.follow here pieces = .ok place) :
    place = pieces.foldl step here := by
  induction pieces generalizing here with
  | nil =>
    cases h
    rfl
  | cons piece rest ih =>
    rw [follow] at h
    split at h
    · exact ih h
    · cases h
    · cases h

/-- Pieces can be followed on every disk with these directories. -/
theorem follow_of_directories
    (hdirectories : ∀ other, d.node? other = some .directory → d'.node? other = some .directory)
    (h : d.follow here pieces = .ok place) : d'.follow here pieces = .ok place := by
  induction pieces generalizing here with
  | nil => exact h
  | cons piece rest ih =>
    rw [follow] at h ⊢
    split at h
    · rename_i hnode
      rw [hdirectories here hnode]
      exact ih h
    · cases h
    · cases h

theorem placeToMake_unique (h : d.placeToMake start path = .ok place)
    (h' : d'.placeToMake start path = .ok other) : other = place := by
  unfold placeToMake at h h'
  split at h
  · cases h
  · rw [if_neg ‹_›] at h'
    rw [follow_eq_of_ok h, follow_eq_of_ok h']

theorem placeToMake_of_directories
    (hdirectories : ∀ other, d.node? other = some .directory → d'.node? other = some .directory)
    (h : d.placeToMake start path = .ok place) : d'.placeToMake start path = .ok place := by
  unfold placeToMake at h ⊢
  split at h
  · cases h
  · rw [if_neg ‹_›]
    exact follow_of_directories hdirectories h

theorem readText_eq_ok_iff : d.readText start path = .ok text ↔
    ∃ place content, d.placeToMake start path = .ok place ∧
      d.node? place = some (.file content) ∧ endsInSlash path = false ∧
      Text.decode? content = some text := by
  simp only [readText, lookup, bind_eq_ok]
  constructor
  · rintro ⟨node, ⟨place, hplace, hnode⟩, h⟩
    split at hnode
    · cases hnode
    · cases hnode
      cases h
    · rename_i content hcontent
      split at hnode
      · cases hnode
      · rename_i hslash
        cases hnode
        cases htext : Text.decode? content with
        | none => simp [htext] at h
        | some text' =>
          simp only [htext] at h
          cases h
          exact ⟨place, content, hplace, hcontent, by simpa using hslash, htext⟩
  · rintro ⟨place, content, hplace, hcontent, hslash, htext⟩
    refine ⟨.file content, ⟨place, hplace, ?_⟩, ?_⟩
    · simp [hcontent, hslash, pure, Except.pure]
    · simp [htext, pure, Except.pure]

/-- Nothing but the place itself differs. -/
def SameElsewhere (place : Place) (d d' : Disk) : Prop :=
  ∀ other, other ≠ place → d'.node? other = d.node? other

/-- The path does not lead to the place. -/
def LeadsElsewhere (d : Disk) (start : Place) (path : Path) (place : Place) : Prop :=
  d.placeToMake start path ≠ .ok place

theorem SameElsewhere.symm (h : SameElsewhere place d d') : SameElsewhere place d' d :=
  fun other hother => (h other hother).symm

/-- What is put at a place stays there. -/
theorem sameElsewhere_put (d : Disk) (place : Place) (node node' : Node) :
    SameElsewhere place (d.put place node) (d.put place node') := by
  intro other hother
  simp only [node?, put, Table.get?_put, if_neg hother]

theorem node?_remove (d : Disk) (hother : other ≠ []) :
    (d.remove place).node? other = if place <+: other then none else d.node? other := by
  simp only [node?, remove, Table.get?_filterKeys, List.isEmpty_iff, if_neg hother,
    Bool.not_eq_true', ← Bool.not_eq_true, List.isPrefixOf_iff_prefix, ite_not]

/-- Where nothing is below a place, nothing else is removed with it. -/
theorem sameElsewhere_remove (d : Disk)
    (h : ∀ other, place <+: other → other ≠ place → d.node? other = none) :
    SameElsewhere place d (d.remove place) := by
  intro other hother
  by_cases hroot : other = []
  · subst hroot
    rfl
  · rw [node?_remove d hroot]
    split
    · rename_i hbelow
      exact (h other hbelow hother).symm
    · rfl

theorem SameElsewhere.directories (h : SameElsewhere place d d')
    (hdirectory : d.node? place = some .directory → d'.node? place = some .directory)
    (other : Place) (hother : d.node? other = some .directory) :
    d'.node? other = some .directory := by
  by_cases heq : other = place
  · subst heq
    exact hdirectory hother
  · rw [h other heq]
    exact hother

theorem SameElsewhere.leadsElsewhere (h : SameElsewhere place d d')
    (hdirectory : d'.node? place = some .directory → d.node? place = some .directory)
    (hpath : LeadsElsewhere d start path place) : LeadsElsewhere d' start path place :=
  fun hplace => hpath (placeToMake_of_directories (h.symm.directories hdirectory) hplace)

/-- A file that can be read on both disks says the same. -/
theorem SameElsewhere.readText_unique (h : SameElsewhere place d d')
    (hpath : LeadsElsewhere d start path place) (hd : d.readText start path = .ok text)
    (hd' : d'.readText start path = .ok text') : text' = text := by
  obtain ⟨found, content, hplace, hcontent, -, htext⟩ := readText_eq_ok_iff.mp hd
  obtain ⟨found', content', hplace', hcontent', -, htext'⟩ := readText_eq_ok_iff.mp hd'
  obtain rfl := placeToMake_unique hplace hplace'
  have hne : found' ≠ place := by
    rintro rfl
    exact hpath hplace
  rw [h found' hne, hcontent] at hcontent'
  cases hcontent'
  rw [htext] at htext'
  cases htext'
  rfl

/-- A file that can be read stays so, with the same text, where no directory
is taken away. -/
theorem SameElsewhere.readText_of_directory (h : SameElsewhere place d d')
    (hdirectory : d.node? place = some .directory → d'.node? place = some .directory)
    (hpath : LeadsElsewhere d start path place) (hd : d.readText start path = .ok text) :
    d'.readText start path = .ok text := by
  obtain ⟨found, content, hplace, hcontent, hslash, htext⟩ := readText_eq_ok_iff.mp hd
  have hne : found ≠ place := by
    rintro rfl
    exact hpath hplace
  refine readText_eq_ok_iff.mpr
    ⟨found, content, placeToMake_of_directories (h.directories hdirectory) hplace, ?_,
      hslash, htext⟩
  rw [h found hne]
  exact hcontent

end Hotspot.Disk
