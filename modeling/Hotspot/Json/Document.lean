import Hotspot.Json.Parser
import Hotspot.Json.Number
import Hotspot.Schema.Record

/-!
JSON texts as documents that readers understand. Anything that is not JSON is
one fault, wherever the reader comes upon it.
-/

namespace Hotspot.Json

/-- Fractions of at least `1e-5` and numbers below `1e16` are written
positionally; the exponent carries its sign; an exact tie goes to the even
digit. -/
def numberLayout : Layout := ⟨some (-5, 15), true, true, .toEven⟩

def dialect : Dialect := ⟨"JSON", numberLayout⟩

def view : Json → Except ReadFault (View Json)
  | .null => .ok (.scalar .null)
  | .truth b => .ok (.scalar (.truth b))
  | .number n =>
    match numberValue? n with
    | some v => .ok (.scalar v)
    | none => .error .malformed
  | .string (some s) => .ok (.scalar (.string s))
  | .string none => .error .malformed
  | .array items => .ok (.sequence items)
  | .object members => .ok (.map members)
  | .fault => .error .malformed

instance : Document Json where
  view := view
  skip v := if v.sound then .ok () else .error .malformed
  ignoresSurplus := false

/-- Reads a whole text. -/
def read {α : Type} (r : Reader Json α) (text : String) : Except ReadFault α := do
  let (tree, complete) := parse text.toList
  let a ← r tree
  if complete then return a else throw .malformed

end Hotspot.Json
