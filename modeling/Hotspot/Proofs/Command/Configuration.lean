import Hotspot.Proofs.Command.Highlight

/-!
The configuration that a highlight command works with. A file is checked when
it is read. What the command line gives is merged into that, and the result is
checked again, so an option is never out of its bounds when highlights are
computed, wherever its value is from. A command with an option that is fails
over the first of them, before it reads an analysis.
-/

namespace Hotspot

namespace Config

variable {text : String} {config : Config}

/-- A text is a configuration if it can be read as one that is valid. -/
theorem parse_eq_ok_iff : parse text = .ok config ↔
    Toml.read read text = .ok config ∧ config.validate = .ok () := by
  unfold parse
  cases Toml.read read text with
  | error fault => simp [bind, Except.bind, Except.mapError]
  | ok c =>
    have hparsed : (Except.mapError Error.ofConfigFault c.validate >>= fun _ => pure c) =
        (.ok config : Except Error Config) ↔ c.validate = .ok () ∧ c = config := by
      cases c.validate <;> simp [bind, Except.bind, Except.mapError, pure, Except.pure]
    rw [Except.ok.injEq, and_comm]
    refine hparsed.trans (and_congr_left fun heq => ?_)
    rw [heq]

theorem valid_of_parse (h : parse text = .ok config) : config.highlights.Valid := by
  rw [← HighlightConfig.validate_eq_ok_iff]
  exact (parse_eq_ok_iff.mp h).2

theorem valid_default : ({} : Config).highlights.Valid := by
  rw [← HighlightConfig.validate_eq_ok_iff]
  decide +kernel

/-- Whatever the files of a directory and of those above it hold, what is
loaded is within the bounds. -/
theorem valid_load (start : Path) (m : Machine) :
    ((load start : StateM Machine _) m).1.highlights.Valid := by
  rw [load_run]
  cases h : (start.ancestors searchDepth).findSome? (own? m) with
  | none => exact valid_default
  | some config =>
    obtain ⟨directory, -, hown⟩ := List.exists_of_findSome?_eq_some h
    obtain ⟨text, -, hparse⟩ := own?_eq_some_iff.mp hown
    exact valid_of_parse hparse

end Config

namespace ConfigOverrides

/-- The value is the one given on the command line or, if none is given, the
one that was loaded. -/
def Decides {α : Type} (given : Option α) (loaded value : α) : Prop :=
  given = some value ∨ given = none ∧ value = loaded

theorem decides_getD {α : Type} (given : Option α) (loaded : α) :
    Decides given loaded (given.getD loaded) := by
  cases given with
  | none => exact .inr ⟨rfl, rfl⟩
  | some value => exact .inl rfl

/-- Every option is decided by the command line first. -/
structure Merged (o : ConfigOverrides) (loaded merged : Config) : Prop where
  attenuation : Decides o.attenuation loaded.attenuation.enabled merged.attenuation.enabled
  threshold : Decides o.threshold loaded.highlights.threshold merged.highlights.threshold
  alpha : Decides o.alpha loaded.highlights.alpha merged.highlights.alpha
  floor : Decides o.floor loaded.highlights.floor merged.highlights.floor

theorem merged_apply (o : ConfigOverrides) (c : Config) : o.Merged c (o.apply c) :=
  ⟨decides_getD _ _, decides_getD _ _, decides_getD _ _, decides_getD _ _⟩

end ConfigOverrides

namespace Command

variable {m : Machine} {path : Path} {root output : Option Path} {overrides : ConfigOverrides}
  {format : OutputFormat} {target : Target}

/-- What a highlight command does with a target once it has its configuration:
it computes the highlights and delivers them, or fails where they cannot be
computed. -/
def highlightWith (target : Target) (config : Config) (format : OutputFormat)
    (output : Option Path) (m : Machine) : Except Failure Unit × Machine :=
  match ((FileHighlights.ofTarget target config : StateM Machine _) m).1 with
  | .error e => (.error (.error e), m)
  | .ok result => (deliver output (result.write format) : ExceptT Failure (StateM Machine) _).run m

theorem runOn_of_validate_eq_ok
    (htarget : Target.resolve? path root m.workingDirectory.path = some target)
    (hvalid : (configOf m overrides target.root).validate = .ok ()) :
    runOn (.highlight path root overrides format output) m =
      highlightWith target (configOf m overrides target.root) format output m := by
  have hcompute : highlightsOf m path root overrides =
      ((FileHighlights.ofTarget target (configOf m overrides target.root) :
        StateM Machine _) m).1.mapError .error := by
    simp only [highlightsOf, htarget, hvalid]
  unfold highlightWith
  cases h : ((FileHighlights.ofTarget target (configOf m overrides target.root) :
      StateM Machine _) m).1 with
  | error e =>
    rw [h] at hcompute
    exact runOn_highlight_of_error hcompute
  | ok result =>
    rw [h] at hcompute
    exact runOn_highlight hcompute

theorem runOn_of_validate_eq_error {fault : ConfigFault}
    (htarget : Target.resolve? path root m.workingDirectory.path = some target)
    (hfault : (configOf m overrides target.root).validate = .error fault) :
    runOn (.highlight path root overrides format output) m =
      (.error (.error (.configuration fault.message)), m) := by
  apply runOn_highlight_of_error
  simp only [highlightsOf, htarget, hfault]
  rfl

/-- A highlight command merges the command line into the configuration that it
loads, and goes on only if all options are within their bounds. If not, it
fails over the first one that is not, and has done nothing. What is loaded is
always within the bounds, and so is what a text is read as. -/
theorem highlight_config_checked (m : Machine) (path : Path) (root : Option Path)
    (overrides : ConfigOverrides) (format : OutputFormat) (output : Option Path) :
    (Target.resolve? path root m.workingDirectory.path = none →
      runOn (.highlight path root overrides format output) m = (.error (.insideStorage path), m)) ∧
    (∀ target, Target.resolve? path root m.workingDirectory.path = some target →
      ∃ config, overrides.Merged ((Config.load target.root : StateM Machine _) m).1 config ∧
        (config.highlights.Valid ∧
            runOn (.highlight path root overrides format output) m =
              highlightWith target config format output m ∨
          ∃ option, config.highlights.FirstViolated option ∧
            runOn (.highlight path root overrides format output) m =
              (.error (.error (.configuration
                (ConfigFault.message ⟨option, config.highlights.value option⟩))), m))) ∧
    (∀ start, ((Config.load start : StateM Machine _) m).1.highlights.Valid) ∧
    ∀ text config, Config.parse text = .ok config → config.highlights.Valid := by
  refine ⟨?_, ?_, fun start => Config.valid_load start m, fun _ _ => Config.valid_of_parse⟩
  · intro hnone
    apply runOn_highlight_of_error
    rw [highlightsOf, hnone]
  · intro target htarget
    refine ⟨configOf m overrides target.root, ConfigOverrides.merged_apply _ _, ?_⟩
    rcases (configOf m overrides target.root).highlights.validate_cases with
      hvalid | ⟨option, hfirst, hfault⟩
    · exact .inl ⟨(HighlightConfig.validate_eq_ok_iff _).mp hvalid,
        runOn_of_validate_eq_ok htarget hvalid⟩
    · exact .inr ⟨option, hfirst, runOn_of_validate_eq_error htarget hfault⟩

/-- A path into the storage directory; a target for which the command line
gives an alpha that is too great and a floor that is no number, with the
threshold of the workspace; and a file that sets a floor. -/
theorem sample_config_checked :
    runOn (.highlight ⟨"/w/.boltzmann/lib.rs"⟩ none {} .json none) Config.brokenMachine =
        (.error (.insideStorage ⟨"/w/.boltzmann/lib.rs"⟩), Config.brokenMachine) ∧
      runOn (.highlight ⟨"lib.rs"⟩ (some ⟨"/w"⟩) { alpha := some 2, floor := some .nan } .json none)
          Config.brokenMachine =
        (.error (.error (.configuration "highlight_alpha must be between 0.0 and 1.0, got 2")),
          Config.brokenMachine) ∧
      Config.parse "[highlights]\nmin_complexity_per_loc = 2.5\n" =
        .ok { highlights := { floor := 2.5 } } ∧
      HighlightConfig.Valid { floor := 2.5 } := by
  have hparse : Config.parse "[highlights]\nmin_complexity_per_loc = 2.5\n" =
      .ok { highlights := { floor := 2.5 } } := by decide +kernel
  refine ⟨?_, ?_, hparse, ?_⟩
  · exact (highlight_config_checked Config.brokenMachine ⟨"/w/.boltzmann/lib.rs"⟩ none {} .json
      none).1 (by decide +kernel)
  · obtain ⟨-, htarget, hload, -⟩ := highlight_config_checked Config.brokenMachine ⟨"lib.rs"⟩
      (some ⟨"/w"⟩) { alpha := some 2, floor := some .nan } .json none
    obtain ⟨target, hresolve⟩ : ∃ target, Target.resolve? ⟨"lib.rs"⟩ (some ⟨"/w"⟩)
        Config.brokenMachine.workingDirectory.path = some target :=
      Option.isSome_iff_exists.mp (by decide +kernel)
    obtain ⟨config, hmerged, hrun⟩ := htarget target hresolve
    have halpha : config.highlights.alpha = 2 := by
      rcases hmerged.alpha with h | ⟨h, -⟩
      · exact (Option.some_inj.mp h).symm
      · cases h
    have hbeyond : ¬BoundedOption.alpha.Admits config.highlights.alpha := by
      rw [halpha, BoundedOption.Admits]
      decide +kernel
    have hthreshold : BoundedOption.threshold.Admits config.highlights.threshold := by
      rcases hmerged.threshold with h | ⟨-, h⟩
      · cases h
      · rw [h]
        exact ⟨(hload target.root).threshold_nonneg, (hload target.root).threshold_le_one⟩
    rcases hrun with ⟨hvalid, -⟩ | ⟨option, hfirst, hrun⟩
    · exact absurd ⟨hvalid.alpha_nonneg, hvalid.alpha_le_one⟩ hbeyond
    · cases hfirst with
      | threshold h => exact absurd hthreshold h
      | floor _ h _ => exact absurd h hbeyond
      | alpha _ _ =>
        have hmessage : ConfigFault.message ⟨.alpha, 2⟩ =
            "highlight_alpha must be between 0.0 and 1.0, got 2" := by decide +kernel
        rw [hrun, ← hmessage, ← halpha]
        rfl
  · exact (highlight_config_checked Config.brokenMachine ⟨"lib.rs"⟩ none {} .json none).2.2.2 _ _
      hparse

end Command

end Hotspot
