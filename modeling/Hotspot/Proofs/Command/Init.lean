import Hotspot.Proofs.Command.Configuration
import Hotspot.Proofs.Config.Root
import Hotspot.Proofs.Files.Directories

/-!
What writing the default configuration does. A file that is there is left alone
unless it may be written over. Once the file is written it is the nearest one
for its directory, and it says what holds without any file, so whatever was
there before and whatever the directories above say, the defaults are loaded.
-/

namespace Hotspot.Command

variable {m m' : Machine} {directory file : Path} {force : Bool} {text : String}

/-- What is told about a configuration file that was written. -/
def createdText (directory : Path) : String :=
  "Created " ++ (directory.join Config.fileName).text ++ " configuration file\n"

theorem toList_join_ofList (lines : List (List Char)) :
    (String.join (lines.map String.ofList)).toList = lines.flatten := by
  rw [String.toList_join, List.flatMap_map]
  simp only [String.toList_ofList, List.flatMap_id']

/-- The document that the text of a new configuration file is. -/
def defaultDocument : Toml :=
  .table .header
    [ ("attenuation", .table .header [("enabled", .scalar (.truth false))]),
      ("highlights", .table .header
        [ ("complexity_threshold", .scalar (.float 0.5)), ("highlight_alpha", .scalar (.float 0.3)),
          ("min_complexity_per_loc", .scalar (.float 0)) ]) ]

set_option maxRecDepth 100000 in
theorem parse_text_defaultDocument :
    Toml.parse defaultConfigText.toList = some defaultDocument := by
  -- The parser is run on the characters, one list for each line of the text.
  have htext : defaultConfigText.toList = _ :=
    toList_join_ofList [_, _, _, _, _, _, _, _, _, _, _, _, _]
  rw [htext]
  rfl

theorem read_defaultDocument : Config.read defaultDocument = .ok {} := by decide +kernel

theorem parse_defaultConfigText : Config.parse defaultConfigText = .ok {} := by
  refine Config.parse_eq_ok_iff.mpr ⟨?_, by decide +kernel⟩
  rw [Toml.read, parse_text_defaultDocument]
  exact read_defaultDocument

theorem pathExists_run (path : Path) (m : Machine) :
    (liftM (Host.pathExists path : StateM Machine Bool) :
      ExceptT Failure (StateM Machine) Bool).run m = (.ok (m.pathExists path), m) := rfl

theorem throw_run {α : Type} (failure : Failure) (m : Machine) :
    (throw failure : ExceptT Failure (StateM Machine) α).run m = (.error failure, m) := rfl

theorem runOn_init_of_holds (h : Config.Holds m directory) :
    runOn (.init directory false) m = (.error .configurationExists, m) := by
  have hfound := pathExists_run (directory.join Config.fileName) m
  have hexists : m.pathExists (directory.join Config.fileName) = true := h
  rw [hexists] at hfound
  exact run_bind_of_ok hfound

/-- Without leave to write over a file it succeeds only where there is none, and
it does no more than write the file and tell so. -/
theorem runOn_init_eq_ok_iff : runOn (.init directory force) m = (.ok (), m') ↔
    (Config.Holds m directory → force = true) ∧
      ∃ m₁, (Host.writeFile (directory.join Config.fileName) defaultConfigText :
          StateM Machine _) m = (.ok (), m₁) ∧
        m' = { m₁ with printed := m₁.printed ++ createdText directory } := by
  have hleave : (Config.Holds m directory → force = true) ↔
      ¬(m.pathExists (directory.join Config.fileName) && !force) = true := by
    rw [Config.Holds]
    cases force <;> simp
  unfold runOn run runInit
  rw [run_bind_of_ok (pathExists_run _ m), hleave]
  dsimp only
  split
  · rename_i hrefused
    refine iff_of_false ?_ fun h => h.1 hrefused
    rw [run_bind_of_error (throw_run _ m)]
    simp
  · rename_i hallowed
    rw [run_bind_eq_ok, and_iff_right hallowed]
    constructor
    · rintro ⟨_, m₁, hwrite, hprint⟩
      cases hprint
      exact ⟨m₁, file_run_eq_ok.mp hwrite, rfl⟩
    · rintro ⟨m₁, hwrite, rfl⟩
      exact ⟨(), m₁, file_run_of_ok hwrite, rfl⟩

theorem delivered_of_writeFile
    (h : (Host.writeFile file text : StateM Machine _) m = (.ok (), m')) :
    Delivered file text m m' := by
  have hgrown := Machine.grows_ensureParent file m
  unfold Host.writeFile at h
  simp only [bind, StateT.bind] at h
  rcases hparent : (Host.ensureParent file : StateM Machine _) m with ⟨fault | _, m₁⟩
  · rw [hparent] at h
    cases h
  · rw [hparent] at h hgrown
    obtain ⟨disk, hdisk, rfl⟩ := Machine.writeText_eq_ok h
    have hwrote := Disk.wrote_of_writeFile hdisk
    rw [hgrown.workingDirectory] at hwrote
    exact ⟨hgrown.printed, hgrown.workingDirectory, hwrote.found,
      Disk.writtenAt_of_grown hgrown.disk hwrote⟩

/-- A file that was written says what was written. -/
theorem Delivered.readText (h : Delivered file text m m') : m'.readText file = .ok text := by
  rw [Machine.readText, Disk.readText, h.workingDirectory, h.found]
  simp [bind, Except.bind, Text.decode?_encode, pure, Except.pure]

/-- What a directory's own file says is what is loaded. -/
theorem load_of_says {config : Config} (h : Config.Says m directory config) :
    (Config.load directory : StateM Machine _) m = (config, m) :=
  Config.load_of_first (i := 0) ⟨by decide, rfl⟩ h fun j hj => absurd hj (Nat.not_lt_zero j)

/-- What has become of a machine on which the default configuration was written
for a directory. -/
structure Initialized (directory : Path) (m m' : Machine) : Prop where
  printed : m'.printed = m.printed ++ createdText directory
  workingDirectory : m'.workingDirectory = m.workingDirectory
  /-- Nothing else was changed but missing directories on the way. -/
  elsewhere : Disk.WrittenAt m.workingDirectory (directory.join Config.fileName) m.disk m'.disk
  loaded : (Config.load directory : StateM Machine _) m' = ({}, m')

theorem initialized_of_runOn (h : runOn (.init directory force) m = (.ok (), m')) :
    Initialized directory m m' := by
  obtain ⟨-, m₁, hwrite, rfl⟩ := runOn_init_eq_ok_iff.mp h
  have hdelivered := delivered_of_writeFile hwrite
  refine ⟨?_, hdelivered.workingDirectory, hdelivered.elsewhere, ?_⟩
  · rw [hdelivered.printed]
  · exact load_of_says ⟨_, hdelivered.readText, parse_defaultConfigText⟩

theorem exists_runOn_init (hdirectory : m.isDirectory directory = true)
    (hfile : m.isDirectory (directory.join Config.fileName) = false)
    (hleave : Config.Holds m directory → force = true) :
    ∃ m', runOn (.init directory force) m = (.ok (), m') := by
  obtain ⟨m₁, hwrite⟩ := Machine.exists_writeFile_run Config.isFileName_fileName hdirectory hfile
    defaultConfigText
  exact ⟨_, runOn_init_eq_ok_iff.mpr ⟨hleave, m₁, hwrite, rfl⟩⟩

/-- A configuration file is not written over without leave, and then nothing is
done at all. Where the defaults are written, only the file and missing
directories on the way to it have changed, and the defaults are loaded from then
on, whatever the file said before and whatever those of the directories above
say. In a directory that is there, they are written if the place of the file is
free or it may be written over. -/
theorem init_shadows (m : Machine) (directory : Path) (force : Bool) :
    (Config.Holds m directory →
      runOn (.init directory false) m = (.error .configurationExists, m)) ∧
    (∀ m', runOn (.init directory force) m = (.ok (), m') → Initialized directory m m') ∧
    (m.isDirectory directory = true → m.isDirectory (directory.join Config.fileName) = false →
      (Config.Holds m directory → force = true) →
        ∃ m', runOn (.init directory force) m = (.ok (), m')) :=
  ⟨runOn_init_of_holds, fun _ => initialized_of_runOn, exists_runOn_init⟩

open Config in
/-- A file that is out of range, below a valid one of another directory, and a
directory that has to be made. -/
theorem sample_shadows :
    runOn (.init ⟨"/w/src"⟩ false) brokenMachine = (.error .configurationExists, brokenMachine) ∧
      (∃ m', runOn (.init ⟨"/w/src"⟩ true) brokenMachine = (.ok (), m') ∧
        Initialized ⟨"/w/src"⟩ brokenMachine m') ∧
      ∃ m', runOn (.init ⟨"/w/lib/deep"⟩ false) brokenMachine = (.ok (), m') ∧
        Initialized ⟨"/w/lib/deep"⟩ brokenMachine m' := by
  have hholds : Holds brokenMachine ⟨"/w/src"⟩ := by
    rw [Holds]
    decide +kernel
  obtain ⟨hrefused, hdone, hwritten⟩ := init_shadows brokenMachine ⟨"/w/src"⟩ true
  refine ⟨hrefused hholds, ?_, ?_⟩
  · obtain ⟨m', hrun⟩ := hwritten (by decide +kernel) (by decide +kernel) fun _ => rfl
    exact ⟨m', hrun, hdone m' hrun⟩
  · have hok : (runOn (.init ⟨"/w/lib/deep"⟩ false) brokenMachine).1 = .ok () := by
      decide +kernel
    obtain ⟨m', hrun⟩ := exists_runOn_of_ok hok
    exact ⟨m', hrun, (init_shadows _ _ _).2.1 m' hrun⟩

end Hotspot.Command
