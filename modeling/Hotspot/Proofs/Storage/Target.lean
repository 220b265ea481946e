import Hotspot.Proofs.Storage.Layout
import Hotspot.Storage.Target

/-!
The two ways of naming a file, by its source and by its analysis. A source file
below a workspace root is mapped into the storage directory of that root, and
from the analysis file found there the same root and the same source file come
back, also when the root has to be found again from the path alone.

A source file given by an absolute path that is not below the root keeps that
path, and joining it to the storage directory leads out again: the last results
say for which paths this happens.
-/

namespace Hotspot.Target

open Hotspot.Path (isName pieceComponent)

variable {path root source workingDirectory rel : Path} {given : Option Path} {target : Target}

/-- A source file is resolved below its root. -/
theorem resolve?_source_iff (hsource : isAnalysisFile path = false) :
    resolve? path given workingDirectory = some target ↔
      Storage.isStoragePath path = false ∧ target = ofSourceFile path given workingDirectory := by
  rw [resolve?, if_neg (by simp [hsource])]
  cases Storage.isStoragePath path <;> simp [eq_comm]

/-- Only a source file inside a storage directory is refused. -/
theorem resolve?_eq_none_iff : resolve? path given workingDirectory = none ↔
    isAnalysisFile path = false ∧ Storage.isStoragePath path = true := by
  rw [resolve?]
  cases isAnalysisFile path <;> cases Storage.isStoragePath path <;> simp

theorem ofSourceFile_root (path : Path) (given : Option Path) (workingDirectory : Path) :
    (ofSourceFile path given workingDirectory).root = given.getD workingDirectory := by
  rw [ofSourceFile]

theorem ofSourceFile_sourceFile (path : Path) (given : Option Path) (workingDirectory : Path) :
    (ofSourceFile path given workingDirectory).sourceFile =
      (path.stripPrefix? (given.getD workingDirectory)).getD path := by
  rw [ofSourceFile]

theorem ofSourceFile_analysisFile (path : Path) (given : Option Path) (workingDirectory : Path) :
    (ofSourceFile path given workingDirectory).analysisFile =
      Storage.analysisPath (given.getD workingDirectory)
        (ofSourceFile path given workingDirectory).sourceFile := by
  rw [ofSourceFile]

/-! From the source file to the analysis file and back. -/

/-- A source file as it is named from its workspace: by names only, outside of
storage directories, in a text that ends in a name. -/
structure NamesSource (rel : Path) : Prop where
  normal : ∀ component ∈ rel.components, ∃ name, component = .normal name
  outside : Storage.isStoragePath rel = false
  endsInName : rel.EndsInName
  source : isAnalysisFile rel = false

/-- The analysis file below a root of a source file that is named from there. -/
structure Places (root rel : Path) (target : Target) : Prop where
  root_eq : target.root = root
  analysisFile_eq : target.analysisFile = Storage.analysisPath root target.sourceFile
  components_eq : target.sourceFile.components = rel.components
  lead_eq : target.sourceFile.lead = []
  endsInName : target.sourceFile.EndsInName

theorem NamesSource.names_ne_nil (h : NamesSource rel) : rel.names ≠ [] := by
  obtain ⟨front, name, hpieces, hname⟩ := h.endsInName
  simp [Path.names_of_pieces_eq hpieces hname]

/-- Named by itself or from its root, the source file is placed the same. -/
theorem places_ofSourceFile (hrel : NamesSource rel)
    (hroot : (given.getD workingDirectory).isAbsolute = true)
    (hpath : path = rel ∨ path = (given.getD workingDirectory).join rel) :
    Places (given.getD workingDirectory) rel (ofSourceFile path given workingDirectory) := by
  have hlead := Path.lead_eq_nil_of_normal hrel.normal
  have hbase := Path.isAbsolute_iff_components.mp hroot
  have hne : (given.getD workingDirectory).components ≠ [] := by
    intro hnil
    simp [hnil] at hbase
  rcases hpath with rfl | rfl
  · -- A path of names does not start with a root, so nothing is taken away.
    have hnone : path.stripPrefix? (given.getD workingDirectory) = none := by
      rw [Option.eq_none_iff_forall_ne_some]
      intro q hq
      have hcomponents := Path.components_of_stripPrefix? hq
      obtain ⟨rest, hrest⟩ := List.head?_eq_some_iff.mp hbase
      obtain ⟨name, hname⟩ := hrel.normal .root (by simp [hcomponents, hrest])
      cases hname
    have hsource : (ofSourceFile path given workingDirectory).sourceFile = path := by
      rw [ofSourceFile_sourceFile, hnone, Option.getD_none]
    exact ⟨ofSourceFile_root _ _ _, ofSourceFile_analysisFile _ _ _, by rw [hsource],
      by rw [hsource, hlead], by rw [hsource]; exact hrel.endsInName⟩
  · have hjoin := Path.components_join_of_lead_eq_nil (p := given.getD workingDirectory) hlead
    obtain ⟨q, hq⟩ := Path.exists_stripPrefix?_iff.mpr
      (hjoin ▸ List.prefix_append (given.getD workingDirectory).components rel.components)
    have hcomponents : q.components = rel.components := by
      have hq' := Path.components_of_stripPrefix? hq
      rw [hjoin] at hq'
      exact (List.append_cancel_left hq').symm
    have hlead' : q.lead = [] := by
      rw [Path.lead_of_stripPrefix? hq, if_neg hne]
    have hnames : q.names ≠ [] := by
      intro hnil
      rw [Path.components_of_lead_eq_nil hlead', Path.components_of_lead_eq_nil hlead, hnil]
        at hcomponents
      exact hrel.names_ne_nil (List.map_eq_nil_iff.mp hcomponents.symm)
    have hsource : (ofSourceFile ((given.getD workingDirectory).join rel) given
        workingDirectory).sourceFile = q := by
      rw [ofSourceFile_sourceFile, hq, Option.getD_some]
    exact ⟨ofSourceFile_root _ _ _, ofSourceFile_analysisFile _ _ _,
      by rw [hsource, hcomponents], by rw [hsource, hlead'],
      by rw [hsource]; exact Path.endsInName_of_stripPrefix? hq hnames⟩

theorem isAnalysisFile_of_components {p : Path} {front : List Component} {name : List Char}
    (h : p.components = front ++ [.normal (name ++ '.' :: Storage.extension.toList)])
    (hname : name ≠ []) : isAnalysisFile p = true := by
  have hfile : p.fileName? = some (name ++ '.' :: Storage.extension.toList) := by
    rw [Path.fileName?_eq_some_iff, h, List.getLast?_concat]
  rw [isAnalysisFile, Path.extension?_of_fileName? hfile hname (by decide)]
  exact beq_self_eq_true _

/-- Below the storage directory of a root, whatever its text, an analysis file
describes its source file. -/
theorem components_describedSource {p w : Path} {front : List (List Char)} {name : List Char}
    (h : p.components = (Storage.directory w).components ++
      ((front.filter isName).map pieceComponent ++
        [.normal (name ++ '.' :: Storage.extension.toList)]))
    (hname : isName name = true) :
    (describedSource (some w) p).components =
      (front.filter isName).map pieceComponent ++ [pieceComponent name] := by
  obtain ⟨q, hq⟩ := Path.exists_stripPrefix?_iff.mpr (h ▸ List.prefix_append _ _)
  have hcomponents := Path.components_of_stripPrefix? hq
  rw [h] at hcomponents
  replace hcomponents := List.append_cancel_left hcomponents
  have hnames : q.names ≠ [] :=
    Path.names_ne_nil_of_mem (name ++ '.' :: Storage.extension.toList)
      (by simp [← hcomponents])
  obtain ⟨front', last, hpieces, hlast⟩ := Path.endsInName_of_stripPrefix? hq hnames
  have hlead : q.lead = [] := by
    rw [Path.lead_of_stripPrefix? hq, if_neg]
    simp [Storage.components_directory]
  rw [Path.components_of_pieces_eq hpieces hlast, hlead] at hcomponents
  obtain ⟨hfront, hname'⟩ := List.append_inj' hcomponents rfl
  rw [List.singleton_inj, eq_comm, Path.pieceComponent_eq_normal_iff] at hname'
  obtain ⟨-, rfl⟩ := hname'
  rw [describedSource, Option.bind_some, hq]
  simp only
  rw [Path.components_withoutExtension hpieces hname (by decide), hlead, ← hfront]

/-- The same analysis file, workspace and source file, whatever their texts. -/
structure Same (target again : Target) : Prop where
  analysisFile : target.analysisFile.same again.analysisFile = true
  root : target.root.same again.root = true
  sourceFile : target.sourceFile.same again.sourceFile = true

/-- An analysis file leads back to the target that it was found for, whatever
names the storage directory that it is looked up in. -/
theorem same_ofAnalysisFile {storageRoot : Path} (hroot : root.isAbsolute = true)
    (h : Places root rel target)
    (hstorage : given.or (Storage.workspaceRoot? target.analysisFile) = some storageRoot)
    (hcomponents : storageRoot.components = root.components) :
    Same (ofAnalysisFile target.analysisFile given workingDirectory) target := by
  obtain ⟨front, name, hpieces, hname⟩ := h.endsInName
  have habsolute : storageRoot.isAbsolute = true := by
    rw [Path.isAbsolute_iff_components, hcomponents]
    exact Path.isAbsolute_iff_components.mp hroot
  have htext : storageRoot.text.isEmpty = false := by
    rw [Path.isAbsolute_iff_head?] at habsolute
    rw [← Bool.not_eq_true, String.isEmpty_iff]
    intro hempty
    simp [Path.chars, hempty] at habsolute
  have hdescribed : (describedSource (some storageRoot) target.analysisFile).components =
      (front.filter isName).map pieceComponent ++ [pieceComponent name] := by
    refine components_describedSource ?_ hname
    rw [h.analysisFile_eq, Storage.components_analysisPath root h.lead_eq hpieces,
      Storage.components_directory, Storage.components_directory, hcomponents]
  refine ⟨?_, ?_, ?_⟩
  · exact Path.same_iff.mpr rfl
  · rw [Path.same_iff, ofAnalysisFile]
    simp only [hstorage]
    rw [Option.filter_some, if_pos (by simp [htext])]
    simp only
    rw [Path.join_of_isAbsolute habsolute, hcomponents, h.root_eq]
  · rw [Path.same_iff, ofAnalysisFile]
    simp only [hstorage]
    rw [hdescribed, Path.components_of_pieces_eq hpieces hname, h.lead_eq]
    rfl

/-- The workspace of an analysis file is found from its path. -/
theorem workspaceRoot?_of_places (hrel : NamesSource rel) (h : Places root rel target) :
    ∃ storageRoot, Storage.workspaceRoot? target.analysisFile = some storageRoot ∧
      storageRoot.components = root.components := by
  obtain ⟨front, name, hpieces, hname⟩ := h.endsInName
  have hanalysis := Storage.components_analysisPath root h.lead_eq hpieces
  rw [Storage.components_directory, List.append_assoc, List.singleton_append,
    ← h.analysisFile_eq] at hanalysis
  refine Storage.workspaceRoot?_of_components hanalysis ?_
  intro hmem
  rcases List.mem_append.mp hmem with hfront | hlast
  · have houtside := hrel.outside
    rw [← Bool.not_eq_true, Storage.isStoragePath_iff, ← h.components_eq,
      Path.components_of_pieces_eq hpieces hname, h.lead_eq] at houtside
    exact houtside (List.mem_append_left _ hfront)
  · -- The name of the storage directory does not have the extension.
    have hdirectory : Storage.directoryName.chars = ".boltzman".toList ++ ['n'] := by decide
    have hextension : '.' :: Storage.extension.toList = ".blt".toList ++ ['a'] := by decide
    rw [List.mem_singleton, Component.normal.injEq, hdirectory, hextension,
      ← List.append_assoc] at hlast
    exact absurd (List.append_inj' hlast rfl).2 (by decide)

theorem isAnalysisFile_join (hrel : NamesSource rel) (root : Path) :
    isAnalysisFile (root.join rel) = false := by
  have hlast : (root.join rel).components.getLast? = rel.components.getLast? := by
    have hlead := Path.lead_eq_nil_of_normal hrel.normal
    rw [Path.components_join_of_lead_eq_nil hlead, List.getLast?_append_of_ne_nil]
    rw [Path.components_of_lead_eq_nil hlead]
    simpa using hrel.names_ne_nil
  have hfile : (root.join rel).fileName? = rel.fileName? := by
    apply Option.ext
    intro name
    rw [Path.fileName?_eq_some_iff, Path.fileName?_eq_some_iff, hlast]
  have hsource := hrel.source
  rw [isAnalysisFile, Path.extension?] at hsource ⊢
  rwa [hfile]

/-- Resolving the analysis file of a source file, with the root that was given
for it or without one, gives the target of the source file again. -/
theorem analysisFile_leads_back (hdirectory : workingDirectory.isAbsolute = true)
    (hgiven : ∀ root, given = some root → root.isAbsolute = true) (hrel : NamesSource rel)
    (hpath : path = rel ∨ path = (given.getD workingDirectory).join rel)
    (h : resolve? path given workingDirectory = some target) :
    ∀ root, root = given ∨ root = none →
      ∃ again, resolve? target.analysisFile root workingDirectory = some again ∧
        Same again target := by
  have hroot : (given.getD workingDirectory).isAbsolute = true := by
    cases given with
    | none => exact hdirectory
    | some root => exact hgiven root rfl
  have hsource : isAnalysisFile path = false := by
    rcases hpath with rfl | rfl
    · exact hrel.source
    · exact isAnalysisFile_join hrel _
  have hplaces : Places (given.getD workingDirectory) rel target := by
    obtain ⟨-, rfl⟩ := (resolve?_source_iff hsource).mp h
    exact places_ofSourceFile hrel hroot hpath
  have hanalysis : isAnalysisFile target.analysisFile = true := by
    obtain ⟨front, name, hpieces, hname⟩ := hplaces.endsInName
    have hcomponents := Storage.components_analysisPath (given.getD workingDirectory)
      hplaces.lead_eq hpieces
    rw [← List.append_assoc, ← hplaces.analysisFile_eq] at hcomponents
    exact isAnalysisFile_of_components hcomponents (Path.isName_iff.mp hname).1
  obtain ⟨found, hfound, hcomponents⟩ := workspaceRoot?_of_places hrel hplaces
  intro root hroot'
  refine ⟨ofAnalysisFile target.analysisFile root workingDirectory,
    by rw [resolve?, if_pos hanalysis], ?_⟩
  cases root with
  | none => exact same_ofAnalysisFile hroot hplaces hfound hcomponents
  | some root =>
    rcases hroot' with rfl | hnone
    · exact same_ofAnalysisFile hroot hplaces rfl rfl
    · cases hnone

/-- A source file in a workspace that stands within a storage directory itself,
in a text with a slash too many. -/
def sampleSource : Path := ⟨"src//.a.b.rs"⟩

def sampleRoot : Path := ⟨"/w/.boltzmann/cache/"⟩

theorem namesSource_sampleSource : NamesSource sampleSource := by
  have hcomponents : sampleSource.components =
      [.normal "src".toList, .normal ".a.b.rs".toList] := by decide +kernel
  refine ⟨?_, by decide +kernel, ?_, by decide +kernel⟩
  · intro component hmem
    rw [hcomponents] at hmem
    rcases List.mem_cons.mp hmem with rfl | hmem
    · exact ⟨_, rfl⟩
    · rw [List.mem_singleton] at hmem
      exact ⟨_, hmem⟩
  · exact ⟨["src".toList, []], ".a.b.rs".toList, by decide +kernel, by decide +kernel⟩

theorem sample_leads_back :
    ∃ target, resolve? sampleSource (some sampleRoot) ⟨"/e"⟩ = some target ∧
      target.analysisFile = ⟨"/w/.boltzmann/cache/.boltzmann/src//.a.b.rs.blta"⟩ ∧
      ∃ again, resolve? target.analysisFile none ⟨"/e"⟩ = some again ∧ Same again target := by
  have hfile : (resolve? sampleSource (some sampleRoot) ⟨"/e"⟩).map Target.analysisFile =
      some ⟨"/w/.boltzmann/cache/.boltzmann/src//.a.b.rs.blta"⟩ := by decide +kernel
  obtain ⟨target, hresolve, hanalysis⟩ := Option.map_eq_some_iff.mp hfile
  have hroot : ∀ root, some sampleRoot = some root → root.isAbsolute = true := by
    rintro root ⟨⟩
    decide +kernel
  exact ⟨target, hresolve, hanalysis, analysisFile_leads_back (by decide +kernel) hroot
    namesSource_sampleSource (.inl rfl) hresolve none (.inr rfl)⟩

/-- The workspace itself has no name that the extension could stand behind. Its
analysis would be a hidden file without an extension, and that is refused. -/
theorem workspace_itself_refused :
    (⟨""⟩ : Path).components = [] ∧ isAnalysisFile ⟨""⟩ = false ∧
      ∃ target, resolve? (Path.join ⟨"/w"⟩ ⟨""⟩) (some ⟨"/w"⟩) ⟨"/w"⟩ = some target ∧
        target.analysisFile = ⟨"/w/.boltzmann/.blta"⟩ ∧
        resolve? target.analysisFile (some ⟨"/w"⟩) ⟨"/w"⟩ = none ∧
        resolve? target.analysisFile none ⟨"/w"⟩ = none := by
  refine ⟨?_, ?_, ofSourceFile (Path.join ⟨"/w"⟩ ⟨""⟩) (some ⟨"/w"⟩) ⟨"/w"⟩,
    ?_, ?_, ?_, ?_⟩ <;> decide +kernel

/-! Where analysis files are looked for. -/

/-- The root is taken away from an absolute path where it can be and is not
empty. -/
theorem isAbsolute_ofSourceFile (path : Path) (given : Option Path) (workingDirectory : Path) :
    (ofSourceFile path given workingDirectory).sourceFile.isAbsolute = false ↔
      path.isAbsolute = false ∨ (given.getD workingDirectory).components ≠ [] ∧
        (given.getD workingDirectory).components <+: path.components := by
  have hlead : ∀ p : Path, p.isAbsolute = false ↔ p.lead ≠ ['/'] := by
    intro p
    rw [← Bool.not_eq_true, Path.isAbsolute_iff]
  cases hstrip : path.stripPrefix? (given.getD workingDirectory) with
  | none =>
    have hstarts : ¬(given.getD workingDirectory).components <+: path.components := by
      intro hstarts
      obtain ⟨q, hq⟩ := Path.exists_stripPrefix?_iff.mpr hstarts
      rw [hstrip] at hq
      cases hq
    rw [ofSourceFile_sourceFile, hstrip]
    simp [hstarts]
  | some q =>
    have hstarts := Path.exists_stripPrefix?_iff.mp ⟨q, hstrip⟩
    have hsource : (ofSourceFile path given workingDirectory).sourceFile = q := by
      rw [ofSourceFile_sourceFile, hstrip, Option.getD_some]
    rw [hsource, hlead, hlead, Path.lead_of_stripPrefix? hstrip]
    by_cases hempty : (given.getD workingDirectory).components = []
    · simp [hempty]
    · simp [hempty, hstarts]

/-- Nothing else is taken away. -/
theorem components_ofSourceFile (path : Path) (given : Option Path) (workingDirectory : Path) :
    path.components = (ofSourceFile path given workingDirectory).sourceFile.components ∨
      path.components = (given.getD workingDirectory).components ++
        (ofSourceFile path given workingDirectory).sourceFile.components := by
  cases hstrip : path.stripPrefix? (given.getD workingDirectory) with
  | none =>
    left
    rw [ofSourceFile_sourceFile, hstrip, Option.getD_none]
  | some q =>
    right
    have hsource : (ofSourceFile path given workingDirectory).sourceFile = q := by
      rw [ofSourceFile_sourceFile, hstrip, Option.getD_some]
    rw [hsource, Path.components_of_stripPrefix? hstrip]

/-- A source file that is relative, or absolute and below its root, is looked
for in the storage directory of that root: at the text of what is left behind
the root, with the extension behind it. An absolute source file elsewhere is
looked for beside itself. -/
theorem sourceFile_placed (hsource : isAnalysisFile path = false)
    (h : resolve? path given workingDirectory = some target) :
    target.root = given.getD workingDirectory ∧
    (path.components = target.sourceFile.components ∨
      path.components = target.root.components ++ target.sourceFile.components) ∧
    (path.isAbsolute = false ∨
        target.root.components ≠ [] ∧ target.root.components <+: path.components →
      target.sourceFile.isAbsolute = false ∧
      target.analysisFile.text =
        (Storage.directory target.root).text ++ "/" ++ target.sourceFile.text ++ ".blta" ∧
      (Storage.directory target.root).components <+: target.analysisFile.components) ∧
    (¬(path.isAbsolute = false ∨
        target.root.components ≠ [] ∧ target.root.components <+: path.components) →
      target.sourceFile.isAbsolute = true ∧
      target.analysisFile.text = target.sourceFile.text ++ ".blta") := by
  obtain ⟨-, rfl⟩ := (resolve?_source_iff hsource).mp h
  have hrelative_iff := isAbsolute_ofSourceFile path given workingDirectory
  have hanalysis := ofSourceFile_analysisFile path given workingDirectory
  have hroot := ofSourceFile_root path given workingDirectory
  have hcomponents := components_ofSourceFile path given workingDirectory
  generalize ofSourceFile path given workingDirectory = target at *
  rw [← hroot] at hrelative_iff hanalysis hcomponents
  refine ⟨hroot, hcomponents, ?_, ?_⟩
  · intro hplace
    have hrelative := hrelative_iff.mpr hplace
    refine ⟨hrelative, String.toList_injective ?_, ?_⟩
    · rw [← Path.chars, hanalysis, Storage.chars_analysisPath hrelative]
      simp [Path.chars, Storage.extension]
    · rw [hanalysis]
      exact Storage.directory_isPrefix_analysisPath hrelative
  · intro hplace
    have habsolute : target.sourceFile.isAbsolute = true := by
      rw [← Bool.not_eq_false, hrelative_iff]
      exact hplace
    refine ⟨habsolute, String.toList_injective ?_⟩
    rw [← Path.chars, hanalysis, Storage.chars_analysisPath_of_isAbsolute habsolute]
    simp [Path.chars, Storage.extension]

/-- A source file below the given root, seen from elsewhere. -/
theorem sample_placed :
    ∃ target, resolve? ⟨"/w/src/main.rs"⟩ (some ⟨"/w"⟩) ⟨"/e"⟩ = some target ∧
      target.sourceFile.isAbsolute = false ∧
      target.analysisFile.text =
        (Storage.directory target.root).text ++ "/" ++ target.sourceFile.text ++ ".blta" := by
  have hsource : isAnalysisFile ⟨"/w/src/main.rs"⟩ = false := by decide +kernel
  have hbelow : (Path.mk "/w").components ≠ [] ∧
      (Path.mk "/w").components <+: (Path.mk "/w/src/main.rs").components := by decide +kernel
  obtain ⟨target, hresolve⟩ : ∃ target,
      resolve? ⟨"/w/src/main.rs"⟩ (some ⟨"/w"⟩) ⟨"/e"⟩ = some target :=
    Option.isSome_iff_exists.mp (by decide +kernel)
  obtain ⟨hroot, -, hplaced, -⟩ := sourceFile_placed hsource hresolve
  rw [Option.getD_some] at hroot
  rw [← hroot] at hbelow
  obtain ⟨hrelative, htext, -⟩ := hplaced (.inr hbelow)
  exact ⟨target, hresolve, hrelative, htext⟩

/-- The analysis of a file outside of the workspace is not looked for in it. -/
theorem outside_misplaced :
    ∃ target, resolve? ⟨"/other/x.rs"⟩ (some ⟨"/work"⟩) ⟨"/work"⟩ = some target ∧
      target.root = ⟨"/work"⟩ ∧ target.sourceFile.isAbsolute = true ∧
      ¬(Storage.directory target.root).components <+: target.analysisFile.components := by
  refine ⟨ofSourceFile ⟨"/other/x.rs"⟩ (some ⟨"/work"⟩) ⟨"/work"⟩, ?_, ?_, ?_, ?_⟩ <;>
    decide +kernel

end Hotspot.Target
