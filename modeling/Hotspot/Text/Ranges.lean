/-!
Sets of characters, as ascending ranges of code points.
-/

namespace Hotspot.Text

/-- Whether one of some ranges holds a code point. The ranges ascend, both ends
included, so the first one that starts behind the code point ends the search. -/
def inRanges (n : Nat) : List (Nat × Nat) → Bool
  | [] => false
  | (first, last) :: rest => decide (first ≤ n) && (decide (n ≤ last) || inRanges n rest)

end Hotspot.Text
