/-!
Texts as bytes in UTF-8.
-/

namespace Hotspot.Text

def encode (s : String) : List UInt8 := s.toUTF8.data.toList

/-- The text of some bytes, unless they are not UTF-8. -/
def decode? (bytes : List UInt8) : Option String := String.fromUTF8? ⟨bytes.toArray⟩

theorem decode?_encode (s : String) : decode? (encode s) = some s := by
  simp [decode?, encode, String.fromUTF8?, String.fromUTF8, s.isValidUTF8]

end Hotspot.Text
