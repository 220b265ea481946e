import Hotspot.Text.Extending
import Hotspot.Text.Unseen

/-!
Characters that a quoted text shows as they are. The others are written as
escapes: those that would not be seen, and those that would join with the
character before them.
-/

namespace Hotspot.Text

def isPrintable (c : Char) : Bool := !isExtending c && !isUnseen c

end Hotspot.Text
