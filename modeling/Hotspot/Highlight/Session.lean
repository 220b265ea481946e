import Hotspot.Highlight.Selection

/-!
What an editor shows while highlighting is switched on and off. A session
shows one file's highlights at most, and none while it is disabled.
-/

namespace Hotspot

structure Session where
  enabled : Bool := false
  current : Option FileHighlights := none
deriving DecidableEq

namespace Session

def start (enabled : Bool) : Session := { enabled }

def enable (s : Session) : Session := { s with enabled := true }

/-- Switching off drops what is shown. -/
def disable (_ : Session) : Session := { enabled := false, current := none }

def toggle (s : Session) : Session := if s.enabled then s.disable else s.enable

/-- Shows a result in place of the one shown before. While the session is
disabled the result is dropped. -/
def publish (s : Session) (result : FileHighlights) : Session :=
  if s.enabled then { s with current := some result } else s

/-- Whether a result published now would be shown. -/
def accepts (s : Session) : Bool := s.enabled

def publishNotices (s : Session) (result : FileHighlights) : List Notice :=
  if s.enabled then []
  else [⟨.detail, "Highlighting disabled, discarding result for " ++ result.file.text⟩]

/-- Drops what is shown if it belongs to the file. -/
def discardFor (s : Session) (file : Path) : Session :=
  if s.current.any fun result => result.file.same file then { s with current := none } else s

def clear (s : Session) : Session := { s with current := none }

/-- The things an editor does with its session. -/
inductive Action where
  | enable
  | disable
  | toggle
  | publish (result : FileHighlights)
  | discardFor (file : Path)
  | clear
deriving DecidableEq

def act (s : Session) : Action → Session
  | .enable => s.enable
  | .disable => s.disable
  | .toggle => s.toggle
  | .publish result => s.publish result
  | .discardFor file => s.discardFor file
  | .clear => s.clear

/-- What an action answers: whether a result was stored, or the new state of
the switch. -/
def answer (s : Session) : Action → Option Bool
  | .publish _ => some s.accepts
  | .toggle => some s.toggle.enabled
  | _ => none

end Session

end Hotspot
