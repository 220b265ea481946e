import Hotspot.Proofs.Files.Disk
import Hotspot.Proofs.Storage.Files

/-!
What the project graph can do to the highlights of a target: weigh them, when
attenuation is enabled and the project file holds a graph, and nothing else. It
cannot make highlighting fail, nor change which file and which total are
reported. Removing the project file is as good as switching attenuation off.
-/

namespace Hotspot

variable {m m' : Machine} {file : Path} {place : Place}

/-- The configuration with attenuation switched off. -/
def Config.withoutAttenuation (config : Config) : Config :=
  { config with attenuation := { enabled := false } }

namespace FileHighlights

variable {target : Target} {config : Config} {r r' : FileHighlights}

/-- The attenuation that a target is highlighted with. -/
def attenuationOf (target : Target) (config : Config) (m : Machine) : Attenuation :=
  .ofResult config.attenuation.enabled
    ((Attenuation.load config.attenuation.enabled (Storage.projectGraphPath target.root) :
      StateM Machine _) m).1

/-- The highlights of an analysis under a given attenuation. -/
def withAttenuation (target : Target) (config : Config) (attenuation : Attenuation)
    (analysis : Analysis) : FileHighlights where
  file := target.sourceFile
  total := analysis.total
  highlights := Highlight.generate analysis attenuation config.highlights

theorem ofTarget_run (target : Target) (config : Config) (m : Machine) :
    (ofTarget target config : StateM Machine _) m =
      ((Storage.analysisOf target.analysisFile (m.readText target.analysisFile)).map
        (withAttenuation target config (attenuationOf target config m)), m) := by
  simp only [ofTarget, attenuationOf, bind, StateT.bind, Storage.readAnalysis_run,
    Attenuation.load_run]
  cases Storage.analysisOf target.analysisFile (m.readText target.analysisFile) with
  | error e => rfl
  | ok analysis =>
    simp only [StateT.bind, bind, Attenuation.load_run]
    rfl

/-- Highlighting fails exactly where the analysis cannot be read, and for the
same reason. -/
theorem ofTarget_eq_error_iff {e : Error} :
    ((ofTarget target config : StateM Machine _) m).1 = .error e ↔
      ((Storage.readAnalysis target.analysisFile : StateM Machine _) m).1 = .error e := by
  rw [ofTarget_run, Storage.readAnalysis_run]
  cases Storage.analysisOf target.analysisFile (m.readText target.analysisFile) <;>
    simp [Except.map]

theorem ofTarget_eq_ok_iff : ((ofTarget target config : StateM Machine _) m).1 = .ok r ↔
    ∃ analysis,
      Storage.analysisOf target.analysisFile (m.readText target.analysisFile) = .ok analysis ∧
        r = withAttenuation target config (attenuationOf target config m) analysis := by
  rw [ofTarget_run]
  cases Storage.analysisOf target.analysisFile (m.readText target.analysisFile) <;>
    simp [Except.map, eq_comm]

theorem attenuationOf_eq_disabled (h : config.attenuation.enabled = false ∨
    Storage.NoGraph m (Storage.projectGraphPath target.root)) :
    attenuationOf target config m = .disabled := by
  unfold attenuationOf
  rcases h with hoff | hnone
  · rw [hoff]
    rfl
  · exact Attenuation.ofResult_load_of_noGraph hnone _

/-- Without a graph, or without the wish for one, the highlights are those
without attenuation. -/
theorem ofTarget_of_noGraph (h : config.attenuation.enabled = false ∨
    Storage.NoGraph m (Storage.projectGraphPath target.root)) :
    (ofTarget target config : StateM Machine _) m =
      (ofTarget target config.withoutAttenuation : StateM Machine _) m := by
  have hoff : attenuationOf target config.withoutAttenuation m = .disabled :=
    attenuationOf_eq_disabled (.inl rfl)
  rw [ofTarget_run, ofTarget_run, attenuationOf_eq_disabled h, hoff]
  rfl

/-- Machines that differ in what they hold at one place at most. -/
structure SameBut (place : Place) (m m' : Machine) : Prop where
  workingDirectory : m'.workingDirectory = m.workingDirectory
  disk : m.disk.SameElsewhere place m'.disk

theorem SameBut.symm (h : SameBut place m m') : SameBut place m' m :=
  ⟨h.workingDirectory.symm, h.disk.symm⟩

theorem analysisOf_eq_ok_iff {answer : Except FileFault String} {analysis : Analysis} :
    Storage.analysisOf file answer = .ok analysis ↔
      ∃ text, answer = .ok text ∧ Storage.parseAnalysis file text = .ok analysis := by
  cases answer <;> simp [Storage.analysisOf, Except.mapError, Except.bind]

/-- Two successful results differ in their highlights only, and in these only
by the attenuation. -/
theorem SameBut.ofTarget_eq_withAttenuation (h : SameBut place m m')
    (hpath : m.disk.LeadsElsewhere m.workingDirectory target.analysisFile place)
    (hr : ((ofTarget target config : StateM Machine _) m).1 = .ok r)
    (hr' : ((ofTarget target config : StateM Machine _) m').1 = .ok r') :
    ∃ analysis, r = withAttenuation target config (attenuationOf target config m) analysis ∧
      r' = withAttenuation target config (attenuationOf target config m') analysis := by
  obtain ⟨analysis, hread, rfl⟩ := ofTarget_eq_ok_iff.mp hr
  obtain ⟨analysis', hread', rfl⟩ := ofTarget_eq_ok_iff.mp hr'
  obtain ⟨text, htext, hparse⟩ := analysisOf_eq_ok_iff.mp hread
  obtain ⟨text', htext', hparse'⟩ := analysisOf_eq_ok_iff.mp hread'
  rw [Machine.readText, h.workingDirectory] at htext'
  obtain rfl := h.disk.readText_unique hpath htext htext'
  rw [hparse] at hparse'
  cases hparse'
  exact ⟨analysis, rfl, rfl⟩

/-- What can be highlighted stays so where no directory is taken away. -/
theorem SameBut.ofTarget_ok (h : SameBut place m m')
    (hdirectory : m.disk.node? place = some .directory → m'.disk.node? place = some .directory)
    (hpath : m.disk.LeadsElsewhere m.workingDirectory target.analysisFile place)
    (hr : ((ofTarget target config : StateM Machine _) m).1 = .ok r) :
    ∃ r', ((ofTarget target config : StateM Machine _) m').1 = .ok r' := by
  obtain ⟨analysis, hread, -⟩ := ofTarget_eq_ok_iff.mp hr
  obtain ⟨text, htext, hparse⟩ := analysisOf_eq_ok_iff.mp hread
  have htext' : m'.readText target.analysisFile = .ok text := by
    rw [Machine.readText, h.workingDirectory]
    exact h.disk.readText_of_directory hdirectory hpath htext
  exact ⟨_, ofTarget_eq_ok_iff.mpr ⟨analysis, analysisOf_eq_ok_iff.mpr ⟨text, htext', hparse⟩, rfl⟩⟩

theorem SameBut.leadsElsewhere {path : Path} (h : SameBut place m m')
    (hdirectory : m'.disk.node? place = some .directory → m.disk.node? place = some .directory)
    (hpath : m.disk.LeadsElsewhere m.workingDirectory path place) :
    m'.disk.LeadsElsewhere m'.workingDirectory path place := by
  rw [h.workingDirectory]
  exact h.disk.leadsElsewhere hdirectory hpath

theorem SameBut.ofTarget_error (h : SameBut place m m')
    (hdirectory : m'.disk.node? place = some .directory → m.disk.node? place = some .directory)
    (hpath : m.disk.LeadsElsewhere m.workingDirectory target.analysisFile place)
    (he : ∃ e, ((ofTarget target config : StateM Machine _) m).1 = .error e) :
    ∃ e, ((ofTarget target config : StateM Machine _) m').1 = .error e := by
  obtain ⟨e, he⟩ := he
  cases hr' : ((ofTarget target config : StateM Machine _) m').1 with
  | error e' => exact ⟨e', rfl⟩
  | ok r' =>
    obtain ⟨r, hr⟩ := h.symm.ofTarget_ok hdirectory (h.leadsElsewhere hdirectory hpath) hr'
    rw [he] at hr
    cases hr

/-- Only a graph that attenuation is enabled for tells two machines apart. -/
theorem readsAsGraph_of_attenuationOf_ne
    (hne : attenuationOf target config m' ≠ attenuationOf target config m) :
    config.attenuation.enabled = true ∧
      (Storage.ReadsAsGraph m (Storage.projectGraphPath target.root) ∨
        Storage.ReadsAsGraph m' (Storage.projectGraphPath target.root)) := by
  by_contra hnot
  rw [not_and_or, Bool.not_eq_true, not_or] at hnot
  apply hne
  rcases hnot with hoff | ⟨hnone, hnone'⟩
  · rw [attenuationOf_eq_disabled (.inl hoff), attenuationOf_eq_disabled (.inl hoff)]
  · rw [attenuationOf_eq_disabled (.inr (Storage.noGraph_of_not_readsAsGraph hnone)),
      attenuationOf_eq_disabled (.inr (Storage.noGraph_of_not_readsAsGraph hnone'))]

/-- Highlighting a target fails exactly where its analysis cannot be read.
Without a graph the highlights are those without attenuation. And whatever
stands at a place other than the analysis file, such as that of the project
graph, changes nothing about the file and the total that are reported, about
the highlights only when attenuation is enabled and a graph can be read, and
about failing only when it is a directory on the way to the analysis. -/
theorem ofTarget_graph_harmless (target : Target) (config : Config) :
    (∀ m e, ((ofTarget target config : StateM Machine _) m).1 = .error e ↔
      ((Storage.readAnalysis target.analysisFile : StateM Machine _) m).1 = .error e) ∧
    (∀ m, config.attenuation.enabled = false ∨
        Storage.NoGraph m (Storage.projectGraphPath target.root) →
      (ofTarget target config : StateM Machine _) m =
        (ofTarget target config.withoutAttenuation : StateM Machine _) m) ∧
    ∀ place m m', SameBut place m m' →
      m.disk.LeadsElsewhere m.workingDirectory target.analysisFile place →
        (∀ r r', ((ofTarget target config : StateM Machine _) m).1 = .ok r →
          ((ofTarget target config : StateM Machine _) m').1 = .ok r' →
            r'.file = r.file ∧ r'.total = r.total ∧
              (r' ≠ r → config.attenuation.enabled = true ∧
                (Storage.ReadsAsGraph m (Storage.projectGraphPath target.root) ∨
                  Storage.ReadsAsGraph m' (Storage.projectGraphPath target.root)))) ∧
        ((m.disk.node? place = some .directory ↔ m'.disk.node? place = some .directory) →
          ((∃ e, ((ofTarget target config : StateM Machine _) m).1 = .error e) ↔
            ∃ e, ((ofTarget target config : StateM Machine _) m').1 = .error e)) := by
  refine ⟨fun m e => ofTarget_eq_error_iff, fun m h => ofTarget_of_noGraph h, ?_⟩
  intro place m m' h hpath
  refine ⟨?_, ?_⟩
  · intro r r' hr hr'
    obtain ⟨analysis, rfl, rfl⟩ := h.ofTarget_eq_withAttenuation hpath hr hr'
    refine ⟨rfl, rfl, ?_⟩
    intro hne
    apply readsAsGraph_of_attenuationOf_ne
    intro heq
    rw [heq] at hne
    exact hne rfl
  · intro hdirectory
    constructor
    · exact h.ofTarget_error hdirectory.mpr hpath
    · exact h.symm.ofTarget_error hdirectory.mp (h.leadsElsewhere hdirectory.mpr hpath)

def sampleTarget : Target := ⟨⟨"/w/.boltzmann/lib.rs.blta"⟩, ⟨"/w"⟩, ⟨"lib.rs"⟩⟩

def samplePlace : Place := ["w".toList, ".boltzmann".toList, "project.blta".toList]

/-- A workspace with an empty analysis and a project file of the given text. -/
def sampleMachine (project : String) : Machine where
  disk :=
    (((Disk.empty.put ["w".toList] .directory).put ["w".toList, ".boltzmann".toList] .directory).put
      ["w".toList, ".boltzmann".toList, "lib.rs.blta".toList]
      (.file (Text.encode "\x7b\x7d"))).put samplePlace (.file (Text.encode project))
  workingDirectory := []
  printed := ""

def graphText : String := "\x7b\"weighted_graph\": \x7b\x7d\x7d"

def sampleConfig : Config := { attenuation := { enabled := true } }

/-- A project file that breaks off, and one with a graph. -/
theorem sample_graph_harmless :
    (ofTarget sampleTarget sampleConfig : StateM Machine _) (sampleMachine "\x7b") =
        (ofTarget sampleTarget sampleConfig.withoutAttenuation : StateM Machine _)
          (sampleMachine "\x7b") ∧
      ∃ r r',
        ((ofTarget sampleTarget sampleConfig : StateM Machine _) (sampleMachine "\x7b")).1 =
          .ok r ∧
        ((ofTarget sampleTarget sampleConfig : StateM Machine _)
          (sampleMachine graphText)).1 = .ok r' ∧
        r'.file = r.file ∧ r'.total = r.total := by
  obtain ⟨-, hnone, hsame⟩ := ofTarget_graph_harmless sampleTarget sampleConfig
  have hproject : (sampleMachine "\x7b").readText (Storage.projectGraphPath sampleTarget.root) =
      .ok "\x7b" := by decide +kernel
  have hfault : Json.read WeightedGraph.readProject "\x7b" = .error .malformed := by
    decide +kernel
  have hparse : Storage.parseAnalysis sampleTarget.analysisFile "\x7b\x7d" = .ok .empty := by
    decide +kernel
  have hread : (sampleMachine "\x7b").readText sampleTarget.analysisFile = .ok "\x7b\x7d" := by
    decide +kernel
  have hread' : (sampleMachine graphText).readText sampleTarget.analysisFile =
      .ok "\x7b\x7d" := by decide +kernel
  obtain ⟨r, hr⟩ : ∃ r, ((ofTarget sampleTarget sampleConfig : StateM Machine _)
      (sampleMachine "\x7b")).1 = .ok r :=
    ⟨_, ofTarget_eq_ok_iff.mpr ⟨_, analysisOf_eq_ok_iff.mpr ⟨_, hread, hparse⟩, rfl⟩⟩
  obtain ⟨r', hr'⟩ : ∃ r, ((ofTarget sampleTarget sampleConfig : StateM Machine _)
      (sampleMachine graphText)).1 = .ok r :=
    ⟨_, ofTarget_eq_ok_iff.mpr ⟨_, analysisOf_eq_ok_iff.mpr ⟨_, hread', hparse⟩, rfl⟩⟩
  have hbut : SameBut samplePlace (sampleMachine "\x7b") (sampleMachine graphText) :=
    ⟨rfl, Disk.sameElsewhere_put _ _ _ _⟩
  have hpath : (sampleMachine "\x7b").disk.LeadsElsewhere (sampleMachine "\x7b").workingDirectory
      sampleTarget.analysisFile samplePlace := by
    unfold Disk.LeadsElsewhere
    decide +kernel
  have hreport := (hsame _ _ _ hbut hpath).1 _ _ hr hr'
  exact ⟨hnone _ (.inr (.malformed hproject hfault)), r, r', hr, hr', hreport.1, hreport.2.1⟩

/-- What was highlighted with attenuation switched off is highlighted the same
once the project file has been removed, switched off or not. -/
theorem ofTarget_of_removed {content : List UInt8}
    (hplace : m.disk.placeToMake m.workingDirectory (Storage.projectGraphPath target.root) =
      .ok place)
    (hfile : m.disk.node? place = some (.file content))
    (hbelow : ∀ other, place <+: other → other ≠ place → m.disk.node? other = none)
    (hpath : m.disk.LeadsElsewhere m.workingDirectory target.analysisFile place)
    (hr : ((ofTarget target config.withoutAttenuation : StateM Machine _) m).1 = .ok r) :
    ((ofTarget target config : StateM Machine _) { m with disk := m.disk.remove place }).1 =
      .ok r := by
  have hsame := Disk.sameElsewhere_remove m.disk hbelow
  have hdirectory : m.disk.node? place = some .directory →
      (m.disk.remove place).node? place = some .directory := by
    intro h
    rw [hfile] at h
    cases h
  have hroot : place ≠ [] := by
    rintro rfl
    cases hfile
  have hmissing : Machine.pathExists { m with disk := m.disk.remove place }
      (Storage.projectGraphPath target.root) = false := by
    have hplace' := Disk.placeToMake_of_directories (hsame.directories hdirectory) hplace
    have hnode : (m.disk.remove place).node? place = none := by
      rw [Disk.node?_remove _ hroot, if_pos (List.prefix_refl place)]
    simp only [Machine.pathExists, Disk.lookup, hplace', hnode, bind, Except.bind]
    rfl
  obtain ⟨analysis, hread, rfl⟩ := ofTarget_eq_ok_iff.mp hr
  obtain ⟨text, htext, hparse⟩ := analysisOf_eq_ok_iff.mp hread
  have htext' := hsame.readText_of_directory hdirectory hpath htext
  refine ofTarget_eq_ok_iff.mpr ⟨analysis, analysisOf_eq_ok_iff.mpr ⟨text, htext', hparse⟩, ?_⟩
  rw [attenuationOf_eq_disabled (.inl rfl), attenuationOf_eq_disabled (.inr (.missing hmissing))]
  rfl

end FileHighlights

end Hotspot
