import Hotspot.Binary64.Arithmetic

/-!
The range of the complexities of a file, and places in it. Zeros set no bound.
-/

namespace Hotspot

/-- The least and the greatest value, if there is a value other than zero. -/
structure ComplexityRange where
  bounds : Option (Binary64 × Binary64)
deriving DecidableEq

namespace ComplexityRange

def widen (bounds : Option (Binary64 × Binary64)) (value : Binary64) :
    Option (Binary64 × Binary64) :=
  match bounds with
  | none => some (value, value)
  | some (low, high) => some (low.least value, high.greatest value)

def ofValues (values : List Binary64) : ComplexityRange :=
  ⟨(values.filter fun value => !value.isZero).foldl widen none⟩

def low (r : ComplexityRange) : Option Binary64 := r.bounds.map Prod.fst

def high (r : ComplexityRange) : Option Binary64 := r.bounds.map Prod.snd

/-- The place of a value between the bounds, zero at the low one and one at
the high one. Without two different bounds it is not a finite number. -/
def normalize (r : ComplexityRange) (value : Binary64) : Binary64 :=
  match r.bounds with
  | some (low, high) => (value - low) / (high - low)
  | none => .nan

end ComplexityRange

end Hotspot
