import Hotspot.Config.Load
import Hotspot.Files.Machine
import Hotspot.Proofs.Path.Components

/-!
Which file decides the configuration of a directory. The directory and its
ancestors are searched, ten at most, for a file that can be read and is valid.
A file that is there and is not valid does not end the search: it is as good as
missing, and a valid one further up decides in its place.
-/

namespace Hotspot.Config

variable {m m' : Machine} {start directory : Path} {config : Config} {i : Nat}

/-- A directory has a configuration file, whatever it says. -/
def Holds (m : Machine) (directory : Path) : Prop :=
  m.pathExists (directory.join fileName) = true

/-- The file of a directory can be read and is a valid configuration. -/
def Says (m : Machine) (directory : Path) (config : Config) : Prop :=
  ∃ text, m.readText (directory.join fileName) = .ok text ∧ parse text = .ok config

/-- No valid configuration is in the directory, be it for want of a file. -/
def SaysNothing (m : Machine) (directory : Path) : Prop := ∀ config, ¬Says m directory config

theorem holds_of_valid (h : Says m directory config) : Holds m directory := by
  obtain ⟨text, htext, -⟩ := h
  exact Machine.pathExists_of_readText htext

theorem saysNothing_of_not_holds (h : ¬Holds m directory) : SaysNothing m directory :=
  fun _ hconfig => h (holds_of_valid hconfig)

/-- The configuration in what the disk answers for a file. -/
def inAnswer? : Except FileFault String → Option Config
  | .ok text => (parse text).toOption
  | .error _ => none

/-- The configuration in a directory's own file, as the machine has it. -/
def own? (m : Machine) (directory : Path) : Option Config :=
  inAnswer? (m.readText (directory.join fileName))

theorem own?_eq_some_iff : own? m directory = some config ↔ Says m directory config := by
  unfold own? inAnswer? Says
  cases m.readText (directory.join fileName) with
  | error fault => simp
  | ok text => cases h : parse text <;> simp [Except.toOption, h]

theorem own?_eq_none_iff : own? m directory = none ↔ SaysNothing m directory := by
  rw [Option.eq_none_iff_forall_ne_some]
  exact forall_congr' fun config => not_congr own?_eq_some_iff

/-! The search on a machine. -/

theorem ofDirectory?_run (directory : Path) (m : Machine) :
    (ofDirectory? directory : StateM Machine _) m = (own? m directory, m) := by
  unfold ofDirectory? own? inAnswer?
  simp only [bind, StateT.bind, Host.readText]
  cases m.readText (directory.join fileName) <;> rfl

theorem firstOf_run (directories : List Path) (m : Machine) :
    (firstOf directories : StateM Machine _) m =
      ((directories.findSome? (own? m)).getD {}, m) := by
  induction directories with
  | nil => rfl
  | cons directory rest ih =>
    rw [firstOf, List.findSome?_cons]
    simp only [bind, StateT.bind, ofDirectory?_run]
    cases own? m directory with
    | none => exact ih
    | some config => rfl

theorem load_run (start : Path) (m : Machine) :
    (load start : StateM Machine _) m =
      (((start.ancestors searchDepth).findSome? (own? m)).getD {}, m) :=
  firstOf_run _ _

/-- The first of some directories that says something, behind others that do not. -/
theorem findSome?_own {directories : List Path} (h : directories[i]? = some directory)
    (hconfig : Says m directory config)
    (hnearer : ∀ j < i, ∀ nearer, directories[j]? = some nearer → SaysNothing m nearer) :
    directories.findSome? (own? m) = some config := by
  induction directories generalizing i with
  | nil => cases h
  | cons first rest ih =>
    cases i with
    | zero =>
      cases h
      rw [List.findSome?_cons_of_isSome (by simp [own?_eq_some_iff.mpr hconfig])]
      exact own?_eq_some_iff.mpr hconfig
    | succ i =>
      have hfirst := own?_eq_none_iff.mpr (hnearer 0 (by omega) first rfl)
      rw [List.findSome?_cons_of_isNone (by simp [hfirst])]
      exact ih h fun j hj nearer hnear => hnearer (j + 1) (by omega) nearer hnear

/-- The directory is searched, `i` steps up from the start. -/
def Visited (start : Path) (i : Nat) (directory : Path) : Prop :=
  i < searchDepth ∧ Path.ancestor? i start = some directory

theorem visited_iff :
    Visited start i directory ↔ (start.ancestors searchDepth)[i]? = some directory := by
  rw [Visited, Path.getElem?_ancestors]
  by_cases h : i < searchDepth <;> simp [h]

theorem exists_visited_of_mem (h : directory ∈ start.ancestors searchDepth) :
    ∃ i, Visited start i directory := by
  obtain ⟨i, hi⟩ := List.mem_iff_getElem?.mp h
  exact ⟨i, visited_iff.mpr hi⟩

/-- The nearest of the directories with a configuration file. -/
structure Nearest (m : Machine) (start : Path) (i : Nat) (directory : Path) : Prop where
  visited : Visited start i directory
  holds : Holds m directory
  first : ∀ j < i, ∀ nearer, Visited start j nearer → ¬Holds m nearer

/-- The first valid configuration on the way up is used. -/
theorem load_of_first (hvisited : Visited start i directory) (hconfig : Says m directory config)
    (hnearer : ∀ j < i, ∀ nearer, Visited start j nearer → SaysNothing m nearer) :
    (load start : StateM Machine _) m = (config, m) := by
  rw [load_run, findSome?_own (visited_iff.mp hvisited) hconfig
    fun j hj nearer hnear => hnearer j hj nearer (visited_iff.mpr hnear)]
  rfl

theorem load_of_none (h : ∀ i directory, Visited start i directory → SaysNothing m directory) :
    (load start : StateM Machine _) m = ({}, m) := by
  have hnone : (start.ancestors searchDepth).findSome? (own? m) = none := by
    rw [List.findSome?_eq_none_iff]
    intro directory hmem
    obtain ⟨i, hi⟩ := exists_visited_of_mem hmem
    exact own?_eq_none_iff.mpr (h i directory hi)
  rw [load_run, hnone]
  rfl

theorem findSome?_own_congr {directories : List Path}
    (h : ∀ directory ∈ directories, own? m' directory = own? m directory) :
    directories.findSome? (own? m') = directories.findSome? (own? m) := by
  induction directories with
  | nil => rw [List.findSome?_nil, List.findSome?_nil]
  | cons first rest ih =>
    rw [List.findSome?_cons, List.findSome?_cons, h first (List.mem_cons_self ..),
      ih fun directory hmem => h directory (List.mem_cons_of_mem _ hmem)]

/-- Files of other directories are not looked at. -/
theorem load_congr (h : ∀ i directory, Visited start i directory →
      m'.readText (directory.join fileName) = m.readText (directory.join fileName)) :
    ((load start : StateM Machine _) m').1 = ((load start : StateM Machine _) m).1 := by
  rw [load_run, load_run, findSome?_own_congr]
  intro directory hmem
  obtain ⟨i, hi⟩ := exists_visited_of_mem hmem
  exact congrArg inAnswer? (h i directory hi)

/-- The directories that are searched are the start and those above it, and the
nearest of them with a configuration file decides if that file is valid. If it
is not, the next valid one decides; without any, the defaults are used. -/
theorem load_nearest (start : Path) (m : Machine) :
    (∀ i directory, Visited start i directory →
      i < 10 ∧ directory.components = start.components.take (start.components.length - i)) ∧
    (∀ i < 10, i < start.components.length → ∃ directory, Visited start i directory) ∧
    (∀ i directory, Nearest m start i directory →
      (∀ config, Says m directory config → (load start : StateM Machine _) m = (config, m)) ∧
      (SaysNothing m directory →
        ((∀ j > i, ∀ further, Visited start j further → SaysNothing m further) →
          (load start : StateM Machine _) m = ({}, m)) ∧
        (∀ j > i, ∀ further config, Visited start j further → Says m further config →
          (∀ k, i < k → k < j → ∀ between, Visited start k between → SaysNothing m between) →
            (load start : StateM Machine _) m = (config, m)))) ∧
    ((∀ i directory, Visited start i directory → ¬Holds m directory) →
      (load start : StateM Machine _) m = ({}, m)) ∧
    (∀ m', (∀ i directory, Visited start i directory →
        m'.readText (directory.join fileName) = m.readText (directory.join fileName)) →
      ((load start : StateM Machine _) m').1 = ((load start : StateM Machine _) m).1) := by
  refine ⟨?_, ?_, ?_, ?_, fun m' => load_congr⟩
  · intro i directory hvisited
    exact ⟨hvisited.1, Path.components_of_ancestor? hvisited.2⟩
  · intro i hi hlength
    obtain ⟨directory, hdirectory⟩ := Path.exists_ancestor? hlength
    exact ⟨directory, hi, hdirectory⟩
  · intro i directory hnearest
    have hnearer : ∀ j < i, ∀ nearer, Visited start j nearer → SaysNothing m nearer :=
      fun j hj nearer hnear => saysNothing_of_not_holds (hnearest.first j hj nearer hnear)
    refine ⟨fun config hconfig => load_of_first hnearest.visited hconfig hnearer, ?_⟩
    intro hbroken
    -- Up to the broken file nothing is said, so what counts is what stands behind it.
    have hupTo : ∀ j ≤ i, ∀ nearer, Visited start j nearer → SaysNothing m nearer := by
      intro j hj nearer hnear
      rcases Nat.lt_or_eq_of_le hj with hlt | rfl
      · exact hnearer j hlt nearer hnear
      · have heq := hnearest.visited.2.symm.trans hnear.2
        cases heq
        exact hbroken
    refine ⟨?_, ?_⟩
    · intro hfurther
      apply load_of_none
      intro j other hvisited
      rcases Nat.lt_or_ge i j with hlt | hge
      · exact hfurther j hlt other hvisited
      · exact hupTo j hge other hvisited
    · intro j hj further config hvisited hconfig hbetween
      apply load_of_first hvisited hconfig
      intro k hk other hother
      rcases Nat.lt_or_ge i k with hlt | hge
      · exact hbetween k hlt hk other hother
      · exact hupTo k hge other hother
  · intro hnone
    exact load_of_none fun i directory hvisited =>
      saysNothing_of_not_holds (hnone i directory hvisited)

/-- A workspace with a valid configuration, and a directory in it whose own is
out of range. -/
def brokenMachine : Machine where
  disk :=
    (((Disk.empty.put ["w".toList] .directory).put ["w".toList, "src".toList] .directory).put
      ["w".toList, fileName.chars]
      (.file (Text.encode "[highlights]\nmin_complexity_per_loc = 2.5\n"))).put
      ["w".toList, "src".toList, fileName.chars]
      (.file (Text.encode "[highlights]\ncomplexity_threshold = 7\n"))
  workingDirectory := []
  printed := ""

theorem sample_nearest :
    Nearest brokenMachine ⟨"/w/lib"⟩ 1 ⟨"/w"⟩ ∧
      ∃ config, Says brokenMachine ⟨"/w"⟩ config ∧
        (load ⟨"/w/lib"⟩ : StateM Machine _) brokenMachine = (config, brokenMachine) := by
  have hvisited : Visited ⟨"/w/lib"⟩ 1 ⟨"/w"⟩ := ⟨by decide, by decide +kernel⟩
  have hnearest : Nearest brokenMachine ⟨"/w/lib"⟩ 1 ⟨"/w"⟩ := by
    refine ⟨hvisited, ?_, ?_⟩
    · rw [Holds]
      decide +kernel
    · rintro j hj nearer ⟨-, hnear⟩
      obtain rfl : j = 0 := by omega
      cases hnear
      rw [Holds]
      decide +kernel
  obtain ⟨config, hown⟩ : ∃ config, own? brokenMachine ⟨"/w"⟩ = some config :=
    Option.isSome_iff_exists.mp (by decide +kernel)
  have hconfig := own?_eq_some_iff.mp hown
  exact ⟨hnearest, config, hconfig,
    ((load_nearest _ _).2.2.1 1 _ hnearest).1 config hconfig⟩

/-- The directory's own file is ignored, but the defaults are not used. -/
theorem broken_file_passed_over :
    Nearest brokenMachine ⟨"/w/src"⟩ 0 ⟨"/w/src"⟩ ∧ SaysNothing brokenMachine ⟨"/w/src"⟩ ∧
      ((load ⟨"/w/src"⟩ : StateM Machine _) brokenMachine).1 ≠ {} := by
  refine ⟨⟨⟨by decide, rfl⟩, ?_, ?_⟩, ?_, ?_⟩
  · rw [Holds]
    decide +kernel
  · intro j hj
    exact absurd hj (Nat.not_lt_zero j)
  · rw [← own?_eq_none_iff]
    decide +kernel
  · rw [load_run]
    decide +kernel

end Hotspot.Config
