/-!
Notices: what a run tells its operator beside its result.
-/

namespace Hotspot

inductive Severity where
  | error
  | warning
  | information
  | detail
  | trace
deriving DecidableEq, Repr

structure Notice where
  severity : Severity
  text : String
deriving DecidableEq, Repr

end Hotspot
