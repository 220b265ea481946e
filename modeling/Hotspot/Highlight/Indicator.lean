import Hotspot.Decimal.Layout

/-!
Short texts for the complexity of a whole file: in the status bar, above the
first line and beside a file name.
-/

namespace Hotspot.Indicator

def unit : String := "Ω"

def total (x : Binary64) : String := x.fixed 2 ++ unit

/-- A file without complexity gets no line of its own. -/
def lens? (x : Binary64) : Option String :=
  if x.isZero then none else some ("File Complexity: " ++ total x)

def tooltip (x : Binary64) (fileName : String) : String :=
  "Total file complexity: " ++ total x ++ " (" ++ fileName ++ ")"

/-- The total in whole units, thousands or millions. -/
def badge (x : Binary64) : String :=
  if (1000000 : Binary64) ≤ x then (x / 1000000).roundToWhole.text .plain ++ "m"
  else if (1000 : Binary64) ≤ x then (x / 1000).roundToWhole.text .plain ++ "k"
  else x.roundToWhole.fixed 0

end Hotspot.Indicator
