import Hotspot.Files.Machine
import Hotspot.Storage.Files
import Mathlib.Tactic

/-!
Reading files on a machine in memory. Nothing that is read changes the machine,
so a reader is a function of what the disk holds at its path. A project file
that holds no graph, for whatever reason, is as good as none.
-/

namespace Hotspot

variable {m : Machine} {file : Path}

/-- What the disk answers for a file with the given bytes. -/
theorem Machine.readText_of_content {bytes : List UInt8}
    (h : m.disk.lookup m.workingDirectory file = .ok (.file bytes)) :
    m.readText file = match Text.decode? bytes with
      | some text => .ok text
      | none => .error .notText := by
  rw [Machine.readText, Disk.readText, h]
  rfl

namespace Storage

/-- The analysis in what the disk answers for a file. -/
def analysisOf (file : Path) (answer : Except FileFault String) : Except Error Analysis :=
  (answer.mapError fun fault =>
    .context ("Failed to read analysis " ++ file.text) (.file fault)).bind (parseAnalysis file)

/-- The graph in what the disk answers for a project file. -/
def graphOf (file : Path) (answer : Except FileFault String) : GraphResult :=
  (answer.mapError fun fault =>
    .context ("Failed to read project analysis " ++ file.text) (.file fault)).bind
    (parseProject file)

theorem readAnalysis_run (file : Path) (m : Machine) :
    (readAnalysis file : StateM Machine _) m = (analysisOf file (m.readText file), m) := rfl

theorem loadProjectGraph_run (file : Path) (m : Machine) :
    (loadProjectGraph file : StateM Machine _) m =
      (if m.pathExists file then graphOf file (m.readText file) else .ok none, m) := by
  unfold loadProjectGraph
  simp only [bind, StateT.bind, Host.pathExists]
  cases m.pathExists file <;> rfl

/-- Why a file holds no analysis. What cannot be read may be a directory or no
UTF-8; a text that is no analysis file may be no JSON or JSON of the wrong
shape. -/
inductive NoAnalysis (m : Machine) (file : Path) : Prop where
  | missing (h : m.pathExists file = false)
  | unreadable {fault : FileFault} (h : m.readText file = .error fault)
  | malformed {text : String} {fault : ReadFault} (htext : m.readText file = .ok text)
      (h : Analysis.parse text = .error fault)

/-- There is no analysis exactly where reading it fails. -/
theorem noAnalysis_iff :
    NoAnalysis m file ↔ ∃ e, analysisOf file (m.readText file) = .error e := by
  constructor
  · intro h
    have hfault : ∀ fault, m.readText file = .error fault →
        ∃ e, analysisOf file (m.readText file) = .error e :=
      fun fault hread => ⟨_, by rw [hread]; rfl⟩
    cases h with
    | missing h =>
      cases hread : m.readText file with
      | error fault => exact hread ▸ hfault fault hread
      | ok text =>
        rw [Machine.pathExists_of_readText hread] at h
        cases h
    | unreadable h => exact hfault _ h
    | malformed htext h =>
      exact ⟨_, by rw [htext, analysisOf, Except.mapError, Except.bind, parseAnalysis, h]; rfl⟩
  · rintro ⟨e, h⟩
    cases hread : m.readText file with
    | error fault => exact .unreadable hread
    | ok text =>
      cases hparse : Analysis.parse text with
      | error fault => exact .malformed hread hparse
      | ok analysis =>
        rw [hread, analysisOf, Except.mapError, Except.bind, parseAnalysis, hparse] at h
        cases h

/-- The project file holds a graph. -/
def ReadsAsGraph (m : Machine) (file : Path) : Prop :=
  ∃ text graph, m.readText file = .ok text ∧
    Json.read WeightedGraph.readProject text = .ok (some graph)

/-- Why a project file holds no graph. What cannot be read may be a directory
or no UTF-8; a text that is no project file may be no JSON or JSON of the wrong
shape. -/
inductive NoGraph (m : Machine) (file : Path) : Prop where
  | missing (h : m.pathExists file = false)
  | unreadable {fault : FileFault} (h : m.readText file = .error fault)
  | malformed {text : String} {fault : ReadFault} (htext : m.readText file = .ok text)
      (h : Json.read WeightedGraph.readProject text = .error fault)
  | withoutGraph {text : String} (htext : m.readText file = .ok text)
      (h : Json.read WeightedGraph.readProject text = .ok none)

/-- There is no other reason. -/
theorem noGraph_of_not_readsAsGraph (h : ¬ReadsAsGraph m file) : NoGraph m file := by
  cases htext : m.readText file with
  | error fault => exact .unreadable htext
  | ok text =>
    cases hread : Json.read WeightedGraph.readProject text with
    | error fault => exact .malformed htext hread
    | ok result =>
      cases result with
      | none => exact .withoutGraph htext hread
      | some graph => exact absurd ⟨text, graph, htext, hread⟩ h

end Storage

namespace Attenuation

theorem load_run (enabled : Bool) (file : Path) (m : Machine) :
    (Attenuation.load enabled file : StateM Machine _) m =
      (if enabled && m.pathExists file then Storage.graphOf file (m.readText file) else .ok none,
        m) := by
  cases enabled with
  | false => rfl
  | true =>
    unfold Attenuation.load
    rw [if_pos rfl, Storage.loadProjectGraph_run, Bool.true_and]

/-- A graph that cannot be loaded does not attenuate. -/
theorem ofResult_load_of_error
    (h : ∃ e, Storage.graphOf file (m.readText file) = .error e) (enabled : Bool) :
    Attenuation.ofResult enabled ((Attenuation.load enabled file : StateM Machine _) m).1 =
      .disabled := by
  obtain ⟨e, h⟩ := h
  rw [load_run, h]
  cases enabled <;> cases m.pathExists file <;> rfl

/-- Without a graph nothing is attenuated. -/
theorem ofResult_load_of_noGraph (h : Storage.NoGraph m file) (enabled : Bool) :
    Attenuation.ofResult enabled ((Attenuation.load enabled file : StateM Machine _) m).1 =
      .disabled := by
  cases h with
  | missing hmissing =>
    rw [load_run, hmissing]
    cases enabled <;> rfl
  | unreadable hfault => exact ofResult_load_of_error ⟨_, by rw [hfault]; rfl⟩ enabled
  | malformed htext hread =>
    refine ofResult_load_of_error ?_ enabled
    simp [htext, Storage.graphOf, Except.mapError, Except.bind, Storage.parseProject, hread]
  | withoutGraph htext hread =>
    rw [load_run, htext]
    simp only [Storage.graphOf, Except.mapError, Except.bind, Storage.parseProject, hread]
    cases enabled <;> cases m.pathExists file <;> rfl

end Attenuation

end Hotspot
