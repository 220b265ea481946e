import Hotspot.Highlight.Session
import Hotspot.Proofs.Highlight.Positions
import Mathlib.Data.List.Induction
import Mathlib.Tactic

/-!
What a session shows after any sequence of actions. The position of the switch
comes from the actions on it alone. A result is shown exactly if it was
published while the session was on and nothing has ended its display since:
no other result, no switching off, no clearing, and no discarding for its file.
So nothing that was shown before comes back when the session is switched on
again, and a result that comes too late is dropped.
-/

namespace Hotspot.Session

variable {s : Session} {on : Bool} {actions : List Action} {action : Action} {r : FileHighlights}

/-- Whether the action is one on the switch. -/
def Action.isSwitch : Action → Bool
  | .enable | .disable | .toggle => true
  | _ => false

/-- The position of the switch after an action. -/
def switch (on : Bool) : Action → Bool
  | .enable => true
  | .disable => false
  | .toggle => !on
  | .publish _ | .discardFor _ | .clear => on

/-- The position of the switch after some actions, by those on the switch. -/
def switched (on : Bool) (actions : List Action) : Bool :=
  (actions.filter Action.isSwitch).foldl switch on

/-- Whether an action ends the display of a result when the switch is on or
off before it. -/
def Ends (r : FileHighlights) (on : Bool) : Action → Prop
  | .enable => False
  | .disable => True
  | .toggle => on = true
  | .publish _ => on = true
  | .discardFor file => r.file.components = file.components
  | .clear => True

/-- A result was published while the switch was on, and no action behind it
ends its display. -/
def Shown (on : Bool) (actions : List Action) (r : FileHighlights) : Prop :=
  ∃ before behind, actions = before ++ .publish r :: behind ∧ switched on before = true ∧
    ∀ front action rest, behind = front ++ action :: rest →
      ¬Ends r (switched on (before ++ .publish r :: front)) action

def run (s : Session) (actions : List Action) : Session := actions.foldl act s

theorem run_concat (s : Session) (actions : List Action) (action : Action) :
    s.run (actions ++ [action]) = (s.run actions).act action :=
  List.foldl_concat ..

theorem switched_concat (on : Bool) (actions : List Action) (action : Action) :
    switched on (actions ++ [action]) = switch (switched on actions) action := by
  unfold switched
  rw [List.filter_append, List.foldl_append]
  cases action <;> rfl

/-! One action. -/

theorem enabled_act (s : Session) (action : Action) :
    (s.act action).enabled = switch s.enabled action := by
  cases action with
  | enable => rfl
  | disable => rfl
  | clear => rfl
  | toggle =>
    rw [act, toggle, switch]
    cases h : s.enabled <;> rfl
  | publish result =>
    rw [act, publish, switch]
    split <;> rfl
  | discardFor file =>
    rw [act, discardFor, switch]
    split <;> rfl

/-- What is shown behind an action was published by it, or shown before. -/
theorem current_act : (s.act action).current = some r ↔
    action = .publish r ∧ s.enabled = true ∨ s.current = some r ∧ ¬Ends r s.enabled action := by
  cases action with
  | enable => simp [act, enable, Ends]
  | disable => simp [act, disable, Ends]
  | clear => simp [act, clear, Ends]
  | toggle => cases h : s.enabled <;> simp [act, toggle, enable, disable, Ends, h]
  | publish result => cases h : s.enabled <;> simp [act, publish, Ends, h]
  | discardFor file =>
    rw [act, discardFor]
    cases h : s.current with
    | none => simp [h]
    | some result =>
      by_cases hfile : result.file.components = file.components
      · simp [Path.same, Ends, hfile]
        rintro rfl
        exact hfile
      · simp [Path.same, Ends, hfile, h]
        rintro rfl
        exact hfile

/-- Nothing is shown while the switch is off. -/
def Quiet (s : Session) : Prop := s.enabled = false → s.current = none

theorem quiet_act (h : s.Quiet) (action : Action) : (s.act action).Quiet := by
  intro hoff
  rw [Option.eq_none_iff_forall_ne_some]
  intro r hr
  rw [enabled_act] at hoff
  rcases current_act.mp hr with ⟨rfl, hon⟩ | ⟨hr, hends⟩
  · rw [switch, hon] at hoff
    cases hoff
  · -- The switch was on, so the action has turned it off.
    have hon : s.enabled = true := by
      rw [← Bool.not_eq_false]
      intro hoff'
      rw [h hoff'] at hr
      cases hr
    rw [hon] at hoff hends
    cases action with
    | disable => exact hends trivial
    | toggle => exact hends rfl
    | _ => cases hoff

/-- A session that shows nothing while it is off tells the truth about what it
stores. -/
theorem accepts_iff (h : s.Quiet) :
    s.accepts = true ↔ (s.act (.publish r)).current = some r := by
  rw [current_act, accepts]
  constructor
  · intro hon
    exact .inl ⟨rfl, hon⟩
  · rintro (⟨-, hon⟩ | ⟨hr, -⟩)
    · exact hon
    · rw [← Bool.not_eq_false]
      intro hoff
      rw [h hoff] at hr
      cases hr

/-! Any sequence of actions. -/

theorem enabled_run (s : Session) (actions : List Action) :
    (s.run actions).enabled = switched s.enabled actions := by
  induction actions using List.reverseRecOn with
  | nil => rfl
  | append_singleton actions action ih =>
    rw [run_concat, enabled_act, ih, switched_concat]

theorem quiet_run (h : s.Quiet) (actions : List Action) : (s.run actions).Quiet := by
  induction actions using List.reverseRecOn with
  | nil => exact h
  | append_singleton actions action ih =>
    rw [run_concat]
    exact quiet_act ih action

theorem quiet_start (on : Bool) : (start on).Quiet := fun _ => rfl

/-- What is shown by a sequence of actions changes with its last one as what is
shown by a session does. -/
theorem shown_concat : Shown on (actions ++ [action]) r ↔
    action = .publish r ∧ switched on actions = true ∨
      Shown on actions r ∧ ¬Ends r (switched on actions) action := by
  constructor
  · rintro ⟨before, behind, heq, hon, hlasts⟩
    rcases concat_eq_append_cons_iff.mp heq with ⟨rfl, rfl, hlast⟩ | ⟨front, rfl, rfl⟩
    · exact .inl ⟨hlast.symm, hon⟩
    · refine .inr ⟨⟨before, front, rfl, hon, ?_⟩, hlasts front action [] rfl⟩
      intro front' action' rest hfront
      exact hlasts front' action' (rest ++ [action]) (by simp [hfront])
  · rintro (⟨rfl, hon⟩ | ⟨⟨before, behind, rfl, hon, hlasts⟩, hends⟩)
    · exact ⟨actions, [], rfl, hon, by simp⟩
    · refine ⟨before, behind ++ [action], by simp, hon, ?_⟩
      intro front action' rest heq
      rcases concat_eq_append_cons_iff.mp heq with ⟨rfl, rfl, rfl⟩ | ⟨rest', rfl, rfl⟩
      · exact hends
      · exact hlasts front action' rest' rfl

theorem current_run (on : Bool) (actions : List Action) :
    ((start on).run actions).current = some r ↔ Shown on actions r := by
  induction actions using List.reverseRecOn with
  | nil => simp [run, start, Shown]
  | append_singleton actions action ih =>
    rw [run_concat, current_act, ih, enabled_run, shown_concat]
    rfl

/-- After any sequence of actions the switch stands as those on it alone have
put it, nothing is shown while it is off, and what is shown is the result
published last while it was on, unless its display has been ended since. Each
publication answers whether its result is shown, and each turn of the switch
the new position. -/
theorem run_characterized (on : Bool) (actions : List Action) :
    ((start on).run actions).enabled = switched on actions ∧
    (((start on).run actions).enabled = false → ((start on).run actions).current = none) ∧
    (∀ r, ((start on).run actions).current = some r ↔ Shown on actions r) ∧
    (∀ before r behind, actions = before ++ .publish r :: behind →
      ∃ stored, ((start on).run before).answer (.publish r) = some stored ∧
        (stored = true ↔ ((start on).run (before ++ [.publish r])).current = some r)) ∧
    (∀ before behind, actions = before ++ .toggle :: behind →
      ((start on).run before).answer .toggle =
        some ((start on).run (before ++ [.toggle])).enabled) := by
  refine ⟨enabled_run _ _, quiet_run (quiet_start on) actions, fun r => current_run on actions,
    ?_, ?_⟩
  · intro before r behind _
    refine ⟨_, rfl, ?_⟩
    rw [run_concat]
    exact accepts_iff (quiet_run (quiet_start on) before)
  · intro before behind _
    rw [run_concat]
    rfl

/-- Switching off and on again does not bring back what was shown. -/
example (r : FileHighlights) :
    ((start true).run [.publish r, .disable, .publish r, .enable]).current = none := rfl

end Hotspot.Session
