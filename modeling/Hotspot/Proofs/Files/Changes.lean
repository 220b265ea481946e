import Hotspot.Files.Machine
import Hotspot.Proofs.Files.Disk

/-!
What making directories and writing a file change. A directory is made only
where nothing was, so however the making of a path ends, all that was on the
disk is still there, and what is new are directories on the way. A file that is
written changes its own place, and says there what was written.
-/

namespace Hotspot

/-- The paths above a path, nearest first. -/
def Path.parents (p : Path) : List Path := (p.parent?.map Path.allAncestors).getD []

namespace Disk

variable {d d' d'' : Disk} {start place other : Place} {path : Path} {paths paths' : List Path}
  {node : Node} {content content' : List UInt8}

theorem node?_put (d : Disk) (place other : Place) (node : Node) (hplace : place ≠ []) :
    (d.put place node).node? other = if other = place then some node else d.node? other := by
  rw [node?, put, Table.get?_put, node?]
  by_cases hempty : other = []
  · subst hempty
    simp [hplace.symm]
  · simp [hempty]

/-- Nothing was lost from one disk to the other, and what is new are directories
that one of the paths leads to. -/
structure Grown (start : Place) (paths : List Path) (d d' : Disk) : Prop where
  kept : ∀ place node, d.node? place = some node → d'.node? place = some node
  made : ∀ place, d.node? place = none → d'.node? place = none ∨
    d'.node? place = some .directory ∧ ∃ path ∈ paths, d'.placeToMake start path = .ok place

namespace Grown

theorem refl (start : Place) (paths : List Path) (d : Disk) : Grown start paths d d :=
  ⟨fun _ _ h => h, fun _ h => .inl h⟩

theorem mono (h : Grown start paths d d') (hpaths : paths ⊆ paths') :
    Grown start paths' d d' := by
  refine ⟨h.kept, fun place hnone => ?_⟩
  rcases h.made place hnone with hnone' | ⟨hmade, path, hmem, hplace⟩
  · exact .inl hnone'
  · exact .inr ⟨hmade, path, hpaths hmem, hplace⟩

theorem trans (h : Grown start paths d d') (h' : Grown start paths d' d'') :
    Grown start paths d d'' := by
  refine ⟨fun place node hnode => h'.kept place node (h.kept place node hnode), ?_⟩
  intro place hnone
  rcases h.made place hnone with hnone' | ⟨hmade, path, hmem, hplace⟩
  · exact h'.made place hnone'
  · exact .inr ⟨h'.kept place _ hmade, path, hmem,
      placeToMake_of_directories (fun other => h'.kept other _) hplace⟩

end Grown

theorem makeDirectory_eq_ok_iff : d.makeDirectory start path = .ok d' ↔
    ∃ place, d.placeToMake start path = .ok place ∧ d.node? place = none ∧
      d' = d.put place .directory := by
  simp only [makeDirectory, bind_eq_ok]
  refine exists_congr fun place => and_congr_right fun _ => ?_
  cases d.node? place with
  | none => simp [pure, Except.pure, eq_comm]
  | some node => simp [throw, throwThe, MonadExceptOf.throw]

theorem grown_of_makeDirectory (h : d.makeDirectory start path = .ok d') :
    Grown start [path] d d' := by
  obtain ⟨place, hplace, hnone, rfl⟩ := makeDirectory_eq_ok_iff.mp h
  have hne : place ≠ [] := by
    rintro rfl
    cases hnone
  have hkept : ∀ other node, d.node? other = some node →
      (d.put place .directory).node? other = some node := by
    intro other node hnode
    rw [node?_put _ _ _ _ hne, if_neg]
    · exact hnode
    · rintro rfl
      rw [hnone] at hnode
      cases hnode
  refine ⟨hkept, fun other hother => ?_⟩
  rw [node?_put _ _ _ _ hne]
  by_cases heq : other = place
  · subst heq
    exact .inr ⟨if_pos rfl, path, List.mem_singleton_self _,
      placeToMake_of_directories (fun other => hkept other _) hplace⟩
  · rw [if_neg heq]
    exact .inl hother

theorem writeFile_eq_ok_iff : d.writeFile start path content = .ok d' ↔
    ∃ place, d.placeToMake start path = .ok place ∧ endsInSlash path = false ∧
      d.node? place ≠ some .directory ∧ d' = d.put place (.file content) := by
  simp only [writeFile, bind_eq_ok]
  refine exists_congr fun place => and_congr_right fun _ => ?_
  cases endsInSlash path with
  | true => simp [throw, throwThe, MonadExceptOf.throw, bind, Except.bind]
  | false =>
    rcases d.node? place with _ | _ | old <;>
      simp [throw, throwThe, MonadExceptOf.throw, pure, Except.pure, eq_comm]

/-- The file at a path was written: it is found with its content, and nothing
else was changed. -/
structure Wrote (start : Place) (path : Path) (content : List UInt8) (d d' : Disk) : Prop where
  found : d'.lookup start path = .ok (.file content)
  elsewhere : ∀ other, d'.node? other = d.node? other ∨ d'.placeToMake start path = .ok other
  directories : ∀ other, d.node? other = some .directory → d'.node? other = some .directory

theorem wrote_of_writeFile (h : d.writeFile start path content = .ok d') :
    Wrote start path content d d' := by
  obtain ⟨place, hplace, hslash, hnode, rfl⟩ := writeFile_eq_ok_iff.mp h
  have hne : place ≠ [] := by
    rintro rfl
    exact hnode rfl
  have hdirectories : ∀ other, d.node? other = some .directory →
      (d.put place (.file content)).node? other = some .directory := by
    intro other hother
    rw [node?_put _ _ _ _ hne, if_neg]
    · exact hother
    · rintro rfl
      exact hnode hother
  have hplace' := placeToMake_of_directories hdirectories hplace
  refine ⟨?_, fun other => ?_, hdirectories⟩
  · rw [lookup, hplace']
    simp [bind, Except.bind, node?_put _ _ _ _ hne, hslash, pure, Except.pure]
  · by_cases heq : other = place
    · exact .inr (heq ▸ hplace')
    · exact .inl (by rw [node?_put _ _ _ _ hne, if_neg heq])

namespace Wrote

theorem exists_place (h : Wrote start path content d d') :
    ∃ place, d'.placeToMake start path = .ok place := by
  obtain ⟨place, hplace, -⟩ := bind_eq_ok.mp h.found
  exact ⟨place, hplace⟩

/-- Of two contents that are written one after the other the second stays. -/
theorem trans (h : Wrote start path content d d') (h' : Wrote start path content' d' d'') :
    Wrote start path content' d d'' := by
  refine ⟨h'.found, fun other => ?_, fun other hother => h'.directories _ (h.directories _ hother)⟩
  rcases h'.elsewhere other with heq | hplace
  · rcases h.elsewhere other with heq' | hplace
    · exact .inl (heq.trans heq')
    · obtain ⟨place, hplace'⟩ := h'.exists_place
      rw [placeToMake_unique hplace hplace'] at hplace'
      exact .inr hplace'
  · exact .inr hplace

end Wrote

/-- What may be different once a file was written in a directory that was made
for it: the file, and directories above it that were missing. -/
def WrittenAt (start : Place) (file : Path) (d d' : Disk) : Prop :=
  ∀ place, d'.node? place = d.node? place ∨ d'.placeToMake start file = .ok place ∨
    (d.node? place = none ∧ d'.node? place = some .directory ∧
      ∃ path ∈ file.parents, d'.placeToMake start path = .ok place)

theorem writtenAt_of_grown {file : Path} (h : Grown start file.parents d d')
    (h' : Wrote start file content d' d'') : WrittenAt start file d d'' := by
  intro place
  rcases h'.elsewhere place with heq | hplace
  · rw [heq]
    cases hnode : d.node? place with
    | some node => exact .inl (h.kept place node hnode)
    | none =>
      rcases h.made place hnode with hnone | ⟨hmade, path, hmem, hplace⟩
      · exact .inl hnone
      · exact .inr (.inr ⟨rfl, hmade, path, hmem,
          placeToMake_of_directories h'.directories hplace⟩)
  · exact .inr (.inl hplace)

end Disk

namespace Machine

variable {m m' m'' : Machine} {path file : Path} {paths paths' : List Path}

/-- The machine did nothing but make directories that the paths lead to. -/
structure Grown (paths : List Path) (m m' : Machine) : Prop where
  workingDirectory : m'.workingDirectory = m.workingDirectory
  printed : m'.printed = m.printed
  disk : Disk.Grown m.workingDirectory paths m.disk m'.disk

namespace Grown

theorem refl (paths : List Path) (m : Machine) : Grown paths m m := ⟨rfl, rfl, .refl _ _ _⟩

theorem mono (h : Grown paths m m') (hpaths : paths ⊆ paths') : Grown paths' m m' :=
  ⟨h.workingDirectory, h.printed, h.disk.mono hpaths⟩

theorem trans (h : Grown paths m m') (h' : Grown paths m' m'') : Grown paths m m'' :=
  ⟨h'.workingDirectory.trans h.workingDirectory, h'.printed.trans h.printed,
    h.disk.trans (h.workingDirectory ▸ h'.disk)⟩

end Grown

/-- Every run of the action does nothing but make such directories. -/
def Grows {α : Type} (paths : List Path) (x : StateM Machine α) : Prop :=
  ∀ m, Grown paths m (x m).2

namespace Grows

variable {α β : Type} {x : StateM Machine α} {f : α → StateM Machine β}

theorem pure (a : α) : Grows paths (Pure.pure a : StateM Machine α) := fun m => .refl _ m

theorem bind (hx : Grows paths x) (hf : ∀ a, Grows paths (f a)) : Grows paths (x >>= f) :=
  fun m => (hx m).trans (hf (x m).1 (x m).2)

theorem mono (h : Grows paths x) (hpaths : paths ⊆ paths') : Grows paths' x :=
  fun m => (h m).mono hpaths

end Grows

theorem grows_pathExists (path : Path) :
    Grows paths (Host.pathExists path : StateM Machine Bool) := fun m => .refl _ m

theorem grows_directoryOr (path : Path) (fault : FileFault) :
    Grows paths (Host.directoryOr path fault : StateM Machine _) := by
  unfold Host.directoryOr
  refine .bind (fun m => .refl _ m) fun found => ?_
  cases found <;> exact .pure _

/-- Making a directory makes that directory or nothing. -/
theorem grows_makeDirectory (path : Path) :
    Grows [path] (Host.makeDirectory path : StateM Machine _) := by
  intro m
  simp only [Host.makeDirectory]
  cases h : m.disk.makeDirectory m.workingDirectory path with
  | error fault => exact .refl _ m
  | ok disk => exact ⟨rfl, rfl, Disk.grown_of_makeDirectory h⟩

/-- A path is made together with those above it, and nothing beside them. -/
theorem grows_makePath (paths : List Path) :
    Grows paths (Host.makePath paths : StateM Machine _) := by
  induction paths with
  | nil => exact .pure _
  | cons path parents ih =>
    have hself : Grows (path :: parents) (Host.makeDirectory path : StateM Machine _) :=
      (grows_makeDirectory path).mono (by simp)
    have hparents : Grows (path :: parents) (Host.makePath parents : StateM Machine _) :=
      ih.mono (List.subset_cons_self _ _)
    rw [Host.makePath]
    split
    · exact .pure _
    · refine .bind hself fun made => ?_
      split
      · exact .pure _
      · refine .bind hparents fun above => ?_
        split
        · exact .pure _
        · refine .bind hself fun made => ?_
          split
          · exact .pure _
          · exact grows_directoryOr _ _
      · exact grows_directoryOr _ _

theorem grows_ensureDirectory (path : Path) :
    Grows path.allAncestors (Host.ensureDirectory path : StateM Machine _) := by
  unfold Host.ensureDirectory
  split
  · exact .pure _
  · refine .bind (grows_pathExists path) fun found => ?_
    split
    · exact .pure _
    · exact grows_makePath _

theorem grows_ensureParent (file : Path) :
    Grows file.parents (Host.ensureParent file : StateM Machine _) := by
  unfold Host.ensureParent Path.parents
  cases file.parent? with
  | none => exact .pure _
  | some parent => exact grows_ensureDirectory parent

theorem writeText_eq_ok {text : String} (h : m.writeText file text = (.ok (), m')) :
    ∃ disk, m.disk.writeFile m.workingDirectory file (Text.encode text) = .ok disk ∧
      m' = { m with disk } := by
  unfold writeText at h
  cases hdisk : m.disk.writeFile m.workingDirectory file (Text.encode text) with
  | error fault =>
    rw [hdisk] at h
    cases h
  | ok disk =>
    rw [hdisk] at h
    cases h
    exact ⟨disk, rfl, rfl⟩

end Machine

end Hotspot
