import Hotspot.Command.Run
import Hotspot.Proofs.Config.Search
import Hotspot.Proofs.Config.Validation
import Hotspot.Proofs.Files.Changes
import Hotspot.Proofs.Storage.ProjectGraph
import Hotspot.Proofs.Storage.Target

/-!
What a highlight command leaves behind. It reads all that it needs before it
writes anything, so one that fails over its input leaves the machine as it was;
and where it writes a file, the file says what would have been printed.
-/

namespace Hotspot

variable {m m' : Machine} {path file : Path} {root output : Option Path}
  {overrides : ConfigOverrides} {format : OutputFormat} {failure : Failure} {text : String}
  {result : FileHighlights}

/-- The failure is over what a command was to read, not over where its output
was to go. -/
def Failure.OfInput : Failure → Prop
  | .insideStorage _ | .error _ => True
  | .file _ | .configurationExists | .context _ _ => False

namespace Command

section Runs

variable {α β : Type} {x : ExceptT Failure (StateM Machine) α}
  {f : α → ExceptT Failure (StateM Machine) β} {a : α} {b : β}

theorem run_bind_of_ok (h : x.run m = (.ok a, m')) : (x >>= f).run m = (f a).run m' := by
  change (x.run >>= ExceptT.bindCont f) m = _
  simp only [bind, StateT.bind, h]
  rfl

theorem run_bind_of_error (h : x.run m = (.error failure, m')) :
    (x >>= f).run m = (.error failure, m') := by
  change (x.run >>= ExceptT.bindCont f) m = _
  simp only [bind, StateT.bind, h]
  rfl

theorem run_bind_eq_ok : (x >>= f).run m = (.ok b, m') ↔
    ∃ a m₁, x.run m = (.ok a, m₁) ∧ (f a).run m₁ = (.ok b, m') := by
  constructor
  · intro h
    rcases hx : x.run m with ⟨_ | a, m₁⟩
    · rw [run_bind_of_error hx] at h
      cases h
    · rw [run_bind_of_ok hx] at h
      exact ⟨a, m₁, rfl, h⟩
  · rintro ⟨a, m₁, hx, h⟩
    rw [run_bind_of_ok hx]
    exact h

/-- A sequence fails where its first part or what comes behind it fails. -/
theorem run_bind_eq_error (h : (x >>= f).run m = (.error failure, m')) :
    x.run m = (.error failure, m') ∨
      ∃ a m₁, x.run m = (.ok a, m₁) ∧ (f a).run m₁ = (.error failure, m') := by
  rcases hx : x.run m with ⟨failure' | a, m₁⟩
  · rw [run_bind_of_error hx] at h
    cases h
    exact .inl rfl
  · rw [run_bind_of_ok hx] at h
    exact .inr ⟨a, m₁, rfl, h⟩

variable {fail : FileFault → Failure} {operation : StateM Machine (Except FileFault α)}

theorem file_run_of_ok (h : operation m = (.ok a, m')) :
    (Command.file fail operation).run m = (.ok a, m') := by
  change ((operation m).1.mapError fail, (operation m).2) = _
  rw [h]
  rfl

theorem file_run_of_error {fault : FileFault} (h : operation m = (.error fault, m')) :
    (Command.file fail operation).run m = (.error (fail fault), m') := by
  change ((operation m).1.mapError fail, (operation m).2) = _
  rw [h]
  rfl

theorem file_run_eq_ok : (Command.file fail operation).run m = (.ok a, m') ↔
    operation m = (.ok a, m') := by
  refine ⟨fun h => ?_, file_run_of_ok⟩
  rcases hoperation : operation m with ⟨fault | a, m₁⟩
  · rw [file_run_of_error hoperation] at h
    cases h
  · rw [file_run_of_ok hoperation] at h
    cases h
    rfl

theorem file_run_eq_error (h : (Command.file fail operation).run m = (.error failure, m')) :
    ∃ fault, failure = fail fault := by
  rcases hoperation : operation m with ⟨fault | a, m₁⟩
  · rw [file_run_of_error hoperation] at h
    cases h
    exact ⟨fault, rfl⟩
  · rw [file_run_of_ok hoperation] at h
    cases h

end Runs

/-! What is read before anything is written. -/

/-- The configuration that a command works with. -/
def configOf (m : Machine) (overrides : ConfigOverrides) (root : Path) : Config :=
  overrides.apply ((Config.load root : StateM Machine _) m).1

/-- The highlights that a command computes from what the machine holds. -/
def highlightsOf (m : Machine) (path : Path) (root : Option Path) (overrides : ConfigOverrides) :
    Except Failure FileHighlights :=
  match Target.resolve? path root m.workingDirectory.path with
  | none => .error (.insideStorage path)
  | some target =>
    match (configOf m overrides target.root).validate with
    | .error fault => .error (.error (.ofConfigFault fault))
    | .ok () =>
      ((FileHighlights.ofTarget target (configOf m overrides target.root) :
        StateM Machine _) m).1.mapError .error

theorem resolveTarget_run (path : Path) (root : Option Path) (m : Machine) :
    (resolveTarget path root : ExceptT Failure (StateM Machine) _).run m =
      (match Target.resolve? path root m.workingDirectory.path with
        | none => .error (.insideStorage path)
        | some target => .ok target, m) := by
  have hdirectory : (Host.workingDirectory : StateM Machine _) m =
      (.ok m.workingDirectory.path, m) := rfl
  unfold resolveTarget
  rw [run_bind_of_ok (file_run_of_ok hdirectory)]
  cases Target.resolve? path root m.workingDirectory.path <;> rfl

theorem effectiveConfig_run (overrides : ConfigOverrides) (root : Path) (m : Machine) :
    (effectiveConfig overrides root : ExceptT Failure (StateM Machine) _).run m =
      (match (configOf m overrides root).validate with
        | .error fault => .error (.error (.ofConfigFault fault))
        | .ok () => .ok (configOf m overrides root), m) := by
  have hload : (liftM (Config.load root : StateM Machine _) :
      ExceptT Failure (StateM Machine) _).run m =
        (.ok ((Config.load root : StateM Machine _) m).1, m) := by
    change (Except.ok ((Config.load root : StateM Machine _) m).1,
      ((Config.load root : StateM Machine _) m).2) = _
    rw [Config.load_run]
  unfold effectiveConfig configOf
  rw [run_bind_of_ok hload]
  dsimp only
  cases (overrides.apply ((Config.load root : StateM Machine _) m).1).validate <;> rfl

theorem computeHighlights_run (path : Path) (root : Option Path) (overrides : ConfigOverrides)
    (m : Machine) :
    (computeHighlights path root overrides : ExceptT Failure (StateM Machine) _).run m =
      (highlightsOf m path root overrides, m) := by
  have htarget := resolveTarget_run path root m
  unfold computeHighlights highlightsOf
  cases h : Target.resolve? path root m.workingDirectory.path with
  | none =>
    rw [h] at htarget
    exact run_bind_of_error htarget
  | some target =>
    rw [h] at htarget
    rw [run_bind_of_ok htarget]
    have hconfig := effectiveConfig_run overrides target.root m
    cases hvalid : (configOf m overrides target.root).validate with
    | error fault =>
      rw [hvalid] at hconfig
      rw [run_bind_of_error hconfig]
      simp only [hvalid]
    | ok valid =>
      rw [hvalid] at hconfig
      rw [run_bind_of_ok hconfig]
      simp only [hvalid]
      exact congrArg (_, ·) (congrArg Prod.snd (FileHighlights.ofTarget_run _ _ m))

/-- What stands in the way of a command before it writes anything. -/
inductive Hindered (m : Machine) (path : Path) (root : Option Path)
    (overrides : ConfigOverrides) : Prop where
  | insideStorage (hsource : Target.isAnalysisFile path = false)
      (h : Storage.isStoragePath path = true)
  | outOfRange {target : Target}
      (htarget : Target.resolve? path root m.workingDirectory.path = some target)
      (h : ¬(configOf m overrides target.root).highlights.Valid)
  | noAnalysis {target : Target}
      (htarget : Target.resolve? path root m.workingDirectory.path = some target)
      (h : Storage.NoAnalysis m target.analysisFile)

theorem exists_validate_eq_error_iff {config : Config} :
    (∃ fault, config.validate = .error fault) ↔ ¬config.highlights.Valid := by
  rw [← HighlightConfig.validate_eq_ok_iff, ← Config.validate]
  cases config.validate <;> simp

/-- The analysis is the last thing that is needed. -/
theorem highlightsOf_of_valid {target : Target}
    (htarget : Target.resolve? path root m.workingDirectory.path = some target)
    (hvalid : (configOf m overrides target.root).validate = .ok ()) :
    (∃ failure, highlightsOf m path root overrides = .error failure) ↔
      Storage.NoAnalysis m target.analysisFile := by
  rw [Storage.noAnalysis_iff]
  simp only [highlightsOf, htarget, hvalid, FileHighlights.ofTarget_run]
  cases Storage.analysisOf target.analysisFile (m.readText target.analysisFile) <;>
    simp [Except.map, Except.mapError]

theorem hindered_iff : Hindered m path root overrides ↔
    ∃ failure, highlightsOf m path root overrides = .error failure := by
  cases htarget : Target.resolve? path root m.workingDirectory.path with
  | none =>
    obtain ⟨hsource, h⟩ := Target.resolve?_eq_none_iff.mp htarget
    exact ⟨fun _ => ⟨.insideStorage path, by rw [highlightsOf, htarget]⟩,
      fun _ => .insideStorage hsource h⟩
  | some target =>
    cases hvalid : (configOf m overrides target.root).validate with
    | error fault =>
      refine ⟨fun _ => ⟨.error (.ofConfigFault fault), ?_⟩, fun _ => .outOfRange htarget ?_⟩
      · simp only [highlightsOf, htarget, hvalid]
      · exact exists_validate_eq_error_iff.mp ⟨fault, hvalid⟩
    | ok valid =>
      rw [highlightsOf_of_valid htarget hvalid]
      refine ⟨fun h => ?_, fun h => .noAnalysis htarget h⟩
      cases h with
      | insideStorage hsource h =>
        rw [Target.resolve?_eq_none_iff.mpr ⟨hsource, h⟩] at htarget
        cases htarget
      | outOfRange htarget' h =>
        rw [htarget] at htarget'
        cases htarget'
        obtain ⟨fault, hfault⟩ := exists_validate_eq_error_iff.mpr h
        rw [hvalid] at hfault
        cases hfault
      | noAnalysis htarget' h =>
        rw [htarget] at htarget'
        cases htarget'
        exact h

theorem ofInput_of_highlightsOf (h : highlightsOf m path root overrides = .error failure) :
    failure.OfInput := by
  unfold highlightsOf at h
  split at h
  · cases h
    trivial
  · split at h
    · cases h
      trivial
    · rename_i target _ _ _
      cases hresult : ((FileHighlights.ofTarget target (configOf m overrides target.root) :
        StateM Machine _) m).1 <;> rw [hresult] at h <;> cases h
      trivial

/-! What is written then. -/

theorem deliver_none (text : String) (m : Machine) :
    (deliver none text : ExceptT Failure (StateM Machine) _).run m =
      (.ok (), { m with printed := m.printed ++ text }) := rfl

theorem deliver_some_eq_error
    (h : (deliver (some file) text : ExceptT Failure (StateM Machine) _).run m =
      (.error failure, m')) : ¬failure.OfInput := by
  unfold deliver at h
  rcases run_bind_eq_error h with h | ⟨_, m₁, -, h⟩
  · obtain ⟨fault, rfl⟩ := file_run_eq_error h
    exact not_false
  · rcases run_bind_eq_error h with h | ⟨_, m₂, -, h⟩
    · obtain ⟨fault, rfl⟩ := file_run_eq_error h
      exact not_false
    · obtain ⟨fault, rfl⟩ := file_run_eq_error h
      exact not_false

/-- What a command has done to the machine once its text is in the file. -/
structure Delivered (file : Path) (text : String) (m m' : Machine) : Prop where
  printed : m'.printed = m.printed
  workingDirectory : m'.workingDirectory = m.workingDirectory
  found : m'.disk.lookup m.workingDirectory file = .ok (.file (Text.encode text))
  elsewhere : Disk.WrittenAt m.workingDirectory file m.disk m'.disk

theorem delivered_of_deliver
    (h : (deliver (some file) text : ExceptT Failure (StateM Machine) _).run m = (.ok (), m')) :
    Delivered file text m m' := by
  unfold deliver at h
  obtain ⟨_, m₁, hparent, h⟩ := run_bind_eq_ok.mp h
  obtain ⟨_, m₂, hcreate, h⟩ := run_bind_eq_ok.mp h
  have hgrown : Machine.Grown file.parents m m₁ := by
    have hm₁ : (Host.ensureParent file : StateM Machine _) m = (.ok _, m₁) :=
      file_run_eq_ok.mp hparent
    have hgrows := Machine.grows_ensureParent file m
    rw [hm₁] at hgrows
    exact hgrows
  obtain ⟨disk, hdisk, rfl⟩ := Machine.writeText_eq_ok (file_run_eq_ok.mp hcreate)
  obtain ⟨disk', hdisk', rfl⟩ := Machine.writeText_eq_ok (file_run_eq_ok.mp h)
  have hwrote := (Disk.wrote_of_writeFile hdisk).trans (Disk.wrote_of_writeFile hdisk')
  rw [hgrown.workingDirectory] at hwrote
  exact ⟨hgrown.printed, hgrown.workingDirectory, hwrote.found,
    Disk.writtenAt_of_grown hgrown.disk hwrote⟩

/-- A command's run on a machine. -/
def runOn (command : Command) (m : Machine) : Except Failure Unit × Machine :=
  (Command.run command : ExceptT Failure (StateM Machine) Unit).run m

theorem exists_runOn_of_ok {command : Command} (h : (runOn command m).1 = .ok ()) :
    ∃ m', runOn command m = (.ok (), m') := ⟨_, Prod.ext h rfl⟩

theorem runOn_highlight (h : highlightsOf m path root overrides = .ok result) :
    runOn (.highlight path root overrides format output) m =
      (deliver output (result.write format) : ExceptT Failure (StateM Machine) _).run m := by
  have hcompute := computeHighlights_run path root overrides m
  rw [h] at hcompute
  exact run_bind_of_ok hcompute

theorem runOn_highlight_of_error (h : highlightsOf m path root overrides = .error failure) :
    runOn (.highlight path root overrides format output) m = (.error failure, m) := by
  have hcompute := computeHighlights_run path root overrides m
  rw [h] at hcompute
  exact run_bind_of_error hcompute

/-- A hindered command fails and does nothing, wherever its output was to go,
and no other command fails over its input. One that succeeds in writing a file
has changed nothing else but missing directories above it, and has written what
it would have printed. -/
theorem highlight_contained (m : Machine) (path : Path) (root : Option Path)
    (overrides : ConfigOverrides) (format : OutputFormat) :
    (Hindered m path root overrides → ∃ failure : Failure, failure.OfInput ∧
      ∀ output, runOn (.highlight path root overrides format output) m = (.error failure, m)) ∧
    (∀ output failure m',
      runOn (.highlight path root overrides format output) m = (.error failure, m') →
        failure.OfInput → m' = m ∧ Hindered m path root overrides) ∧
    (∀ file m', runOn (.highlight path root overrides format (some file)) m = (.ok (), m') →
      ∃ text, runOn (.highlight path root overrides format none) m =
          (.ok (), { m with printed := m.printed ++ text }) ∧
        Delivered file text m m') := by
  refine ⟨?_, ?_, ?_⟩
  · intro h
    obtain ⟨failure, hfailure⟩ := hindered_iff.mp h
    exact ⟨failure, ofInput_of_highlightsOf hfailure,
      fun output => runOn_highlight_of_error hfailure⟩
  · intro output failure m' hrun hinput
    cases h : highlightsOf m path root overrides with
    | error failure' =>
      rw [runOn_highlight_of_error h] at hrun
      cases hrun
      exact ⟨rfl, hindered_iff.mpr ⟨_, h⟩⟩
    | ok result =>
      rw [runOn_highlight h] at hrun
      cases output with
      | none =>
        rw [deliver_none] at hrun
        cases hrun
      | some file => exact absurd hinput (deliver_some_eq_error hrun)
  · intro file m' hrun
    cases h : highlightsOf m path root overrides with
    | error failure =>
      rw [runOn_highlight_of_error h] at hrun
      cases hrun
    | ok result =>
      rw [runOn_highlight h] at hrun
      exact ⟨result.write format, runOn_highlight h, delivered_of_deliver hrun⟩

/-- Highlights of `lib.rs`, for a file two directories below any that is there. -/
def sampleOutput : Path := ⟨"/out/deep/lib.json"⟩

open FileHighlights in
/-- A path into the storage directory, with a file of it as the output, and a
source file. -/
theorem sample_contained :
    (∃ failure : Failure, failure.OfInput ∧
      runOn (.highlight ⟨"/w/.boltzmann/lib.rs"⟩ none {} .json (some sampleTarget.analysisFile))
        (sampleMachine "") = (.error failure, sampleMachine "")) ∧
    ∃ text m', runOn (.highlight ⟨"lib.rs"⟩ (some ⟨"/w"⟩) {} .json (some sampleOutput))
        (sampleMachine "") = (.ok (), m') ∧
      Delivered sampleOutput text (sampleMachine "") m' := by
  constructor
  · have hindered : Hindered (sampleMachine "") ⟨"/w/.boltzmann/lib.rs"⟩ none {} :=
      .insideStorage (by decide +kernel) (by decide +kernel)
    obtain ⟨failure, hinput, hrun⟩ := (highlight_contained _ _ _ _ .json).1 hindered
    exact ⟨failure, hinput, hrun _⟩
  · have hok : (runOn (.highlight ⟨"lib.rs"⟩ (some ⟨"/w"⟩) {} .json (some sampleOutput))
        (sampleMachine "")).1 = .ok () := by decide +kernel
    obtain ⟨m', hrun⟩ := exists_runOn_of_ok hok
    obtain ⟨text, -, hdelivered⟩ := (highlight_contained _ _ _ _ _).2.2 _ _ hrun
    exact ⟨text, m', hrun, hdelivered⟩

end Command

end Hotspot
