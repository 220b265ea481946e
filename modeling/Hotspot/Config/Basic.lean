import Hotspot.Decimal.Layout

/-!
The configuration of the highlighter. Every option has a default. A
configuration is valid when threshold and alpha lie between zero and one and
the floor is a finite number that is not negative; a fault names the first
option that is not so.
-/

namespace Hotspot

structure HighlightConfig where
  /-- The least normalized complexity that is highlighted. -/
  threshold : Binary64 := 0.5
  /-- The alpha channel of every highlight, between zero and one. -/
  alpha : Binary64 := 0.3
  /-- The least attenuated complexity that takes part in normalization. -/
  floor : Binary64 := 0
deriving DecidableEq

structure AttenuationConfig where
  enabled : Bool := false
deriving DecidableEq

structure Config where
  highlights : HighlightConfig := {}
  attenuation : AttenuationConfig := {}
deriving DecidableEq

/-- The options that have bounds, by the names users know. -/
inductive BoundedOption where
  | threshold
  | alpha
  | floor
deriving DecidableEq, Repr

def BoundedOption.name : BoundedOption → String
  | .threshold => "complexity_threshold"
  | .alpha => "highlight_alpha"
  | .floor => "min_complexity_per_loc"

/-- An option with a value outside its bounds. -/
structure ConfigFault where
  option : BoundedOption
  value : Binary64
deriving DecidableEq

def ConfigFault.message (fault : ConfigFault) : String :=
  fault.option.name ++
    (match fault.option with
      | .floor => " must be a non-negative number, got "
      | _ => " must be between 0.0 and 1.0, got ") ++
    fault.value.text .plain

namespace HighlightConfig

def inUnitInterval (x : Binary64) : Bool := decide ((0 : Binary64) ≤ x ∧ x ≤ 1)

def isFloor (x : Binary64) : Bool := x.isFinite && !decide (x < 0)

def validate (c : HighlightConfig) : Except ConfigFault Unit := do
  unless inUnitInterval c.threshold do throw ⟨.threshold, c.threshold⟩
  unless inUnitInterval c.alpha do throw ⟨.alpha, c.alpha⟩
  unless isFloor c.floor do throw ⟨.floor, c.floor⟩

end HighlightConfig

def Config.validate (c : Config) : Except ConfigFault Unit := c.highlights.validate

/-- Values given on the command line. They go before those of a file. -/
structure ConfigOverrides where
  attenuation : Option Bool := none
  threshold : Option Binary64 := none
  alpha : Option Binary64 := none
  floor : Option Binary64 := none
deriving DecidableEq

namespace ConfigOverrides

def apply (o : ConfigOverrides) (c : Config) : Config where
  highlights :=
    { threshold := o.threshold.getD c.highlights.threshold
      alpha := o.alpha.getD c.highlights.alpha
      floor := o.floor.getD c.highlights.floor }
  attenuation := { enabled := o.attenuation.getD c.attenuation.enabled }

/-- The choice that two switches make together. Switching on wins. -/
def attenuationChoice (on off : Bool) : Option Bool :=
  if on then some true else if off then some false else none

end ConfigOverrides

end Hotspot
