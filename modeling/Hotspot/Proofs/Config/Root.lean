import Hotspot.Proofs.Config.Search
import Hotspot.Proofs.Files.Names
import Hotspot.Proofs.Storage.Target

/-!
Where the search for a target's configuration starts. Two roots that name the
same directory are searched alike, whatever their texts. The root of an
analysis file is always put behind the working directory. The root of a source
file stays as it was given, so a relative one is searched up to the working
directory only, and the configurations above it do not count.
-/

namespace Hotspot

namespace Config

variable {p q : Path}

theorem isFileName_fileName : Disk.IsFileName fileName := ⟨by decide, by decide⟩

theorem own?_congr (h : p.components = q.components) (m : Machine) : own? m p = own? m q := by
  unfold own? Machine.readText
  rw [isFileName_fileName.readText_join_congr h]

/-- The search from either of two paths visits the same directories and finds
the same configuration. -/
structure SearchedAlike (p q : Path) : Prop where
  start : p.components = q.components
  directories : (p.ancestors searchDepth).map Path.components =
    (q.ancestors searchDepth).map Path.components
  found : ∀ m : Machine, (load p : StateM Machine _) m = (load q : StateM Machine _) m

theorem findSome?_own_of_forall₂ {ps qs : List Path} (m : Machine)
    (h : List.Forall₂ (fun p q => p.components = q.components) ps qs) :
    ps.findSome? (own? m) = qs.findSome? (own? m) := by
  induction h with
  | nil => rfl
  | cons hpath _ ih => rw [List.findSome?_cons, List.findSome?_cons, own?_congr hpath, ih]

theorem searchedAlike (h : p.components = q.components) : SearchedAlike p q := by
  have hancestors := Path.rel_ancestors searchDepth h
  refine ⟨h, ?_, ?_⟩
  · rw [← List.forall₂_eq_eq_eq, List.forall₂_map_left_iff, List.forall₂_map_right_iff]
    exact hancestors
  · intro m
    rw [load_run, load_run, findSome?_own_of_forall₂ m hancestors]

end Config

namespace Path

variable {p q : Path}

theorem isAbsolute_join (h : p.isAbsolute = true) : (p.join q).isAbsolute = true := by
  cases hq : q.isAbsolute with
  | true => rw [join_of_isAbsolute hq, hq]
  | false =>
    have hne : p.chars ≠ [] := by
      rintro hnil
      rw [isAbsolute_iff_head?, hnil] at h
      cases h
    rw [isAbsolute_iff] at h ⊢
    rw [lead_join hq hne, h]

/-- The empty path names the directory that it is seen from. -/
theorem components_join_of_isEmpty (h : q.text.isEmpty = true) :
    (p.join q).components = p.components := by
  have hchars : q.chars = [] := by
    rw [chars, String.isEmpty_iff.mp h]
    rfl
  have hlead : q.lead = [] := by
    rw [lead, hchars]
  rw [components_join_of_lead_eq_nil hlead, components_of_chars_eq_nil hchars, List.append_nil]

end Path

namespace Target

variable {path workingDirectory : Path} {given : Option Path} {target : Target}

/-- The root that a target comes with: the given one, or the one that an
analysis file stands in. -/
def namedRoot (path : Path) (given : Option Path) : Option Path :=
  if isAnalysisFile path then given.or (Storage.workspaceRoot? path) else given

/-- A root seen from the working directory, which is the root if there is no
other. -/
def rootFrom (workingDirectory : Path) (root : Option Path) : Path :=
  (root.map workingDirectory.join).getD workingDirectory

theorem isAbsolute_rootFrom (h : workingDirectory.isAbsolute = true) (root : Option Path) :
    (rootFrom workingDirectory root).isAbsolute = true := by
  cases root with
  | none => exact h
  | some root => exact Path.isAbsolute_join h

theorem components_root_ofAnalysisFile (path : Path) (given : Option Path)
    (workingDirectory : Path) : (ofAnalysisFile path given workingDirectory).root.components =
      (rootFrom workingDirectory (given.or (Storage.workspaceRoot? path))).components := by
  unfold ofAnalysisFile rootFrom
  cases given.or (Storage.workspaceRoot? path) with
  | none => rfl
  | some root =>
    cases hempty : root.text.isEmpty with
    | true =>
      simp only [Option.filter_some, hempty, Option.map_some, Option.getD_some]
      exact (Path.components_join_of_isEmpty hempty).symm
    | false =>
      simp only [Option.filter_some, hempty, Option.map_some, Option.getD_some]
      rfl

theorem isPrefix_of_visited {root directory : Path} {i : Nat}
    (h : Config.Visited root i directory) : directory.components <+: root.components := by
  rw [Path.components_of_ancestor? h.2]
  exact List.take_prefix _ _

/-- Going up from a relative path does not leave the working directory. -/
theorem isAbsolute_eq_false_of_isPrefix {p q : Path} (h : p.components <+: q.components)
    (hq : q.isAbsolute = false) : p.isAbsolute = false := by
  rw [← Bool.not_eq_true, Path.isAbsolute_iff_components] at hq ⊢
  intro hp
  obtain ⟨rest, hrest⟩ := List.head?_eq_some_iff.mp hp
  obtain ⟨more, hmore⟩ := h
  exact hq (by simp [← hmore, hrest])

/-- The root of a target is absolute, unless it is a source file's and was
given as a relative path. An absolute root is searched like the given or
detected root seen from the working directory. A relative one is kept, and
searched up to the working directory only. -/
theorem root_searched (hworking : workingDirectory.isAbsolute = true)
    (h : resolve? path given workingDirectory = some target) :
    (target.root.isAbsolute = true ↔
      isAnalysisFile path = true ∨ ∀ root, given = some root → root.isAbsolute = true) ∧
    (target.root.isAbsolute = true →
      Config.SearchedAlike target.root (rootFrom workingDirectory (namedRoot path given))) ∧
    (target.root.isAbsolute = false → given = some target.root ∧
      ∀ i directory, Config.Visited target.root i directory →
        directory.components <+: target.root.components ∧ directory.isAbsolute = false) := by
  have hvisited : target.root.isAbsolute = false →
      ∀ i directory, Config.Visited target.root i directory →
        directory.components <+: target.root.components ∧ directory.isAbsolute = false := by
    intro hrelative i directory hdirectory
    have hbelow := isPrefix_of_visited hdirectory
    exact ⟨hbelow, isAbsolute_eq_false_of_isPrefix hbelow hrelative⟩
  cases hanalysis : isAnalysisFile path with
  | true =>
    rw [resolve?, if_pos hanalysis, Option.some_inj] at h
    subst h
    have hroot := components_root_ofAnalysisFile path given workingDirectory
    have habsolute : (ofAnalysisFile path given workingDirectory).root.isAbsolute = true := by
      rw [Path.isAbsolute_congr hroot]
      exact isAbsolute_rootFrom hworking _
    refine ⟨by simp [habsolute], ?_, by simp [habsolute]⟩
    intro _
    rw [namedRoot, if_pos hanalysis]
    exact Config.searchedAlike hroot
  | false =>
    obtain ⟨-, rfl⟩ := (resolve?_source_iff hanalysis).mp h
    have hnamed : namedRoot path given = given := by
      rw [namedRoot, hanalysis, if_neg Bool.false_ne_true]
    rw [hnamed]
    rw [ofSourceFile_root] at hvisited ⊢
    cases given with
    | none =>
      rw [Option.getD_none] at hvisited ⊢
      refine ⟨by simp [hworking], ?_, by simp [hworking]⟩
      intro _
      exact Config.searchedAlike rfl
    | some root =>
      rw [Option.getD_some] at hvisited ⊢
      refine ⟨by simp, ?_, fun hrelative => ⟨rfl, hvisited hrelative⟩⟩
      intro habsolute
      apply Config.searchedAlike
      rw [rootFrom, Option.map_some, Option.getD_some, Path.join_of_isAbsolute habsolute]

/-- The root that an analysis file stands in is found from the working directory. -/
theorem sample_searched :
    ∃ target, resolve? ⟨"app/.boltzmann/lib.rs.blta"⟩ none ⟨"/work"⟩ = some target ∧
      target.root.isAbsolute = true ∧ Config.SearchedAlike target.root ⟨"/work/app"⟩ := by
  have hanalysis : isAnalysisFile ⟨"app/.boltzmann/lib.rs.blta"⟩ = true := by decide +kernel
  have hfrom : rootFrom ⟨"/work"⟩ (namedRoot ⟨"app/.boltzmann/lib.rs.blta"⟩ none) =
      ⟨"/work/app"⟩ := by decide +kernel
  obtain ⟨target, hresolve⟩ : ∃ target,
      resolve? ⟨"app/.boltzmann/lib.rs.blta"⟩ none ⟨"/work"⟩ = some target :=
    Option.isSome_iff_exists.mp (by decide +kernel)
  obtain ⟨habsolute, hsearched, -⟩ := root_searched (by decide +kernel) hresolve
  rw [hfrom] at hsearched
  exact ⟨target, hresolve, habsolute.mpr (.inl hanalysis),
    hsearched (habsolute.mpr (.inl hanalysis))⟩

/-- A relative root of a source file hides the configuration above the working
directory. -/
theorem relative_root_kept :
    (Path.mk "/w/src").isAbsolute = true ∧
      ∃ target, resolve? ⟨"x.rs"⟩ (some ⟨"app"⟩) ⟨"/w/src"⟩ = some target ∧
        target.root = ⟨"app"⟩ ∧ target.root.isAbsolute = false ∧
        rootFrom ⟨"/w/src"⟩ (some ⟨"app"⟩) = ⟨"/w/src/app"⟩ ∧
        ∃ m : Machine, m.workingDirectory = ["w".toList, "src".toList] ∧
          ((Config.load target.root : StateM Machine _) m).1 ≠
            ((Config.load ⟨"/w/src/app"⟩ : StateM Machine _) m).1 := by
  refine ⟨?_, ofSourceFile ⟨"x.rs"⟩ (some ⟨"app"⟩) ⟨"/w/src"⟩, ?_, rfl, ?_, ?_,
    { Config.brokenMachine with workingDirectory := ["w".toList, "src".toList] }, rfl, ?_⟩
  · decide +kernel
  · decide +kernel
  · decide +kernel
  · decide +kernel
  · rw [Config.load_run, Config.load_run]
    decide +kernel

end Target

end Hotspot
