import Hotspot.Proofs.Path.Components
import Hotspot.Storage.Layout

/-!
Places in the layout of the storage, by their components. An analysis file
stands below the storage directory under the components of its source file,
with the extension behind the last; and whatever path leads through a storage
directory, the workspace found for it is the one above the innermost.
-/

namespace Hotspot.Storage

open Hotspot.Path (isName pieceComponent)

variable {p q root source : Path} {name : List Char} {front : List (List Char)}

theorem components_directory (root : Path) :
    (directory root).components = root.components ++ [.normal directoryName.chars] :=
  Path.components_join_of_lead_eq_nil (by decide)

/-- The text of a storage directory ends in its name. -/
theorem chars_directory (root : Path) :
    ∃ cs, (directory root).chars = cs ++ directoryName.chars := by
  rw [directory, Path.chars_join (by decide)]
  split
  · exact ⟨_, rfl⟩
  · exact ⟨root.chars ++ ['/'], by simp⟩

/-- What is given relative to a storage directory is put behind a slash. -/
theorem chars_join_directory (h : q.isAbsolute = false) :
    ((directory root).join q).chars = (directory root).chars ++ '/' :: q.chars := by
  obtain ⟨cs, hcs⟩ := chars_directory root
  have hlast : directoryName.chars = ".boltzman".toList ++ ['n'] := by decide
  rw [Path.chars_join h, if_neg]
  rw [hcs, hlast, ← List.append_assoc, List.getLast?_concat]
  simp

theorem components_join_directory (h : q.isAbsolute = false) :
    ((directory root).join q).components =
      (directory root).components ++ q.names.map pieceComponent := by
  apply Path.components_join h
  obtain ⟨cs, hcs⟩ := chars_directory root
  rw [hcs]
  intro hnil
  exact absurd (List.append_eq_nil_iff.mp hnil).2 (by decide)

/-! Analysis files. -/

/-- A source file's text with the extension of analysis files behind it. -/
def extended (source : Path) : Path := .ofChars (source.chars ++ '.' :: extension.toList)

theorem analysisPath_eq (root source : Path) :
    analysisPath root source = (directory root).join (extended source) := by
  rw [analysisPath, extended]
  congr 1
  apply Path.eq_of_chars_eq
  rw [Path.chars_ofChars]
  simp [Path.chars]

theorem isAbsolute_extended (source : Path) :
    (extended source).isAbsolute = source.isAbsolute := by
  rw [Bool.eq_iff_iff, Path.isAbsolute_iff_head?, Path.isAbsolute_iff_head?, extended,
    Path.chars_ofChars]
  cases source.chars with
  | nil => decide
  | cons c cs => rfl

/-- The analysis file of a source file that is not given by an absolute path. -/
theorem chars_analysisPath (h : source.isAbsolute = false) :
    (analysisPath root source).chars =
      (directory root).chars ++ '/' :: (source.chars ++ '.' :: extension.toList) := by
  rw [analysisPath_eq, chars_join_directory ((isAbsolute_extended source).trans h), extended,
    Path.chars_ofChars]

theorem directory_isPrefix_analysisPath (h : source.isAbsolute = false) :
    (directory root).components <+: (analysisPath root source).components := by
  rw [analysisPath_eq, components_join_directory ((isAbsolute_extended source).trans h)]
  exact List.prefix_append _ _

/-- An absolute path does not stay below what it is joined to. -/
theorem chars_analysisPath_of_isAbsolute (h : source.isAbsolute = true) :
    (analysisPath root source).chars = source.chars ++ '.' :: extension.toList := by
  rw [analysisPath_eq, Path.join_of_isAbsolute ((isAbsolute_extended source).trans h), extended,
    Path.chars_ofChars]

/-- The extension makes a name of whatever a text ends in. -/
theorem isName_append_extension (last : List Char) :
    isName (last ++ '.' :: extension.toList) = true ∧
      last ++ '.' :: extension.toList ≠ ['.', '.'] := by
  rw [Path.isName_iff]
  refine ⟨⟨?_, ?_⟩, ?_⟩ <;>
  · intro h
    have hlength := congrArg List.length h
    simp [extension] at hlength

/-- The extension is put behind the last piece, also where this is no name. -/
theorem components_analysisPath (root : Path) (hlead : source.lead = [])
    (h : source.pieces = front ++ [name]) :
    (analysisPath root source).components =
      (directory root).components ++ ((front.filter isName).map pieceComponent ++
        [.normal (name ++ '.' :: extension.toList)]) := by
  obtain ⟨hlonger, hup⟩ := isName_append_extension name
  have hrelative := Path.isAbsolute_of_lead_eq_nil hlead
  have hsplit : source.chars.splitOn '/' = front ++ [name] := by
    rw [← h, Path.pieces, hlead]
    rfl
  have hnames : (extended source).names =
      front.filter isName ++ [name ++ '.' :: extension.toList] := by
    rw [Path.names_eq_filter_splitOn, extended, Path.chars_ofChars,
      Path.splitOn_append_suffix hsplit (by decide), List.filter_append]
    simp [hlonger]
  rw [analysisPath_eq, components_join_directory ((isAbsolute_extended source).trans hrelative),
    hnames, List.map_append, List.map_singleton, Path.pieceComponent_eq_normal_iff.mpr ⟨hup, rfl⟩]

/-! The workspace of a path. -/

theorem isStoragePath_iff :
    isStoragePath p = true ↔ .normal directoryName.chars ∈ p.components := by
  simp [isStoragePath]

/-- The innermost storage directory is found by going up. -/
theorem find?_allAncestors {front rest : List Component}
    (h : p.components = front ++ .normal directoryName.chars :: rest)
    (hrest : .normal directoryName.chars ∉ rest) :
    ∃ dir, (p.allAncestors.find? fun dir => dir.fileName? == some directoryName.chars) = some dir ∧
      dir.components = front ++ [.normal directoryName.chars] := by
  induction rest using List.reverseRecOn generalizing p with
  | nil =>
    refine ⟨p, ?_, h⟩
    have hfile : p.fileName? = some directoryName.chars := by
      rw [Path.fileName?_eq_some_iff, h, List.getLast?_concat]
    rw [Path.allAncestors_eq, List.find?_cons_of_pos (by simp [hfile])]
  | append_singleton rest last ih =>
    have hlast : last ≠ .normal directoryName.chars := by
      rintro rfl
      simp at hrest
    have hfile : p.fileName? ≠ some directoryName.chars := by
      rw [Ne, Path.fileName?_eq_some_iff, h, ← List.cons_append, ← List.append_assoc,
        List.getLast?_concat, Option.some_inj]
      exact hlast
    have hnames : p.names ≠ [] := by
      apply Path.names_ne_nil_of_mem directoryName.chars
      simp [h]
    obtain ⟨parent, hparent⟩ := Path.exists_parent? hnames
    have hcomponents := Path.components_of_parent? hparent
    rw [h, ← List.cons_append, ← List.append_assoc, List.dropLast_concat] at hcomponents
    rw [Path.allAncestors_eq, List.find?_cons_of_neg (by simpa using hfile), hparent]
    exact ih hcomponents (fun hmem => hrest (List.mem_append_left _ hmem))

theorem workspaceRoot?_of_components {front rest : List Component}
    (h : p.components = front ++ .normal directoryName.chars :: rest)
    (hrest : .normal directoryName.chars ∉ rest) :
    ∃ root, workspaceRoot? p = some root ∧ root.components = front := by
  obtain ⟨dir, hdir, hcomponents⟩ := find?_allAncestors h hrest
  obtain ⟨root, hroot⟩ := Path.exists_parent? (p := dir)
    (Path.names_ne_nil_of_mem directoryName.chars (by simp [hcomponents]))
  refine ⟨root, ?_, ?_⟩
  · rw [workspaceRoot?, hdir, Option.bind_some, hroot]
  · rw [Path.components_of_parent? hroot, hcomponents, List.dropLast_concat]

theorem isStoragePath_of_workspaceRoot? (h : workspaceRoot? p = some root) :
    isStoragePath p = true := by
  obtain ⟨dir, hdir, -⟩ := Option.bind_eq_some_iff.mp h
  have hfile : dir.fileName? = some directoryName.chars := by
    simpa using List.find?_some hdir
  have hlast := List.mem_of_getLast? (Path.fileName?_eq_some_iff.mp hfile)
  have hfront := Path.isPrefix_of_mem_allAncestors (List.mem_of_find?_eq_some hdir)
  rw [isStoragePath_iff]
  exact hfront.subset hlast

/-- A path that leads through storage directories leads through a last one. -/
theorem exists_innermost (h : isStoragePath p = true) :
    ∃ front rest, p.components = front ++ .normal directoryName.chars :: rest ∧
      .normal directoryName.chars ∉ rest := by
  rw [isStoragePath_iff, ← List.mem_reverse] at h
  obtain ⟨behind, above, hsplit, hlast⟩ := List.eq_append_cons_of_mem h
  refine ⟨above.reverse, behind.reverse, ?_, fun hmem => hlast (List.mem_reverse.mp hmem)⟩
  rw [List.reverse_eq_iff] at hsplit
  simp [hsplit]

/-- A path leads through a storage directory exactly where going up finds a
workspace for it. The path then leads into the storage directory of that
workspace, and from there through no other. -/
theorem workspaceRoot?_innermost (p : Path) :
    (isStoragePath p = true ↔ ∃ root, workspaceRoot? p = some root) ∧
    ∀ root, workspaceRoot? p = some root →
      (directory root).components <+: p.components ∧
      ∃ rest, p.stripPrefix? (directory root) = some rest ∧
        p.components = root.components ++ .normal directoryName.chars :: rest.components ∧
        isStoragePath rest = false := by
  refine ⟨⟨?_, ?_⟩, ?_⟩
  · intro hstorage
    obtain ⟨front, rest, hsplit, hlast⟩ := exists_innermost hstorage
    obtain ⟨root, hroot, -⟩ := workspaceRoot?_of_components hsplit hlast
    exact ⟨root, hroot⟩
  · rintro ⟨root, hroot⟩
    exact isStoragePath_of_workspaceRoot? hroot
  · intro root hroot
    obtain ⟨front, behind, hsplit, hlast⟩ :=
      exists_innermost (isStoragePath_of_workspaceRoot? hroot)
    obtain ⟨root', hroot', rfl⟩ := workspaceRoot?_of_components hsplit hlast
    obtain rfl : root' = root := Option.some.inj (hroot'.symm.trans hroot)
    rw [List.append_cons, ← components_directory] at hsplit
    have hfront : (directory root').components <+: p.components :=
      hsplit ▸ List.prefix_append _ _
    obtain ⟨rest, hrest⟩ := Path.exists_stripPrefix?_iff.mpr hfront
    have hcomponents := Path.components_of_stripPrefix? hrest
    have hbehind : rest.components = behind :=
      List.append_cancel_left (hcomponents.symm.trans hsplit)
    refine ⟨hfront, rest, hrest, ?_, ?_⟩
    · rw [hcomponents, components_directory, List.append_assoc, List.singleton_append]
    · rw [← Bool.not_eq_true, isStoragePath_iff, hbehind]
      exact hlast

/-- A storage directory at the very start, another one further in, and the way
up behind it. -/
theorem nested_innermost :
    ∃ rest, workspaceRoot? ⟨".boltzmann//a/.boltzmann/./b/.."⟩ = some ⟨".boltzmann//a"⟩ ∧
      Path.stripPrefix? ⟨".boltzmann//a/.boltzmann/./b/.."⟩ (directory ⟨".boltzmann//a"⟩) =
        some rest ∧
      isStoragePath rest = false := by
  have hroot : workspaceRoot? ⟨".boltzmann//a/.boltzmann/./b/.."⟩ = some ⟨".boltzmann//a"⟩ := by
    decide +kernel
  obtain ⟨-, rest, hrest, -, houtside⟩ := (workspaceRoot?_innermost _).2 _ hroot
  exact ⟨rest, hroot, hrest, houtside⟩

end Hotspot.Storage
