import Hotspot.Decimal.Layout

/-!
Highlight colours. A normalized complexity is placed on a ramp from green to
red; blue is never used and the alpha channel is set by the configuration.
-/

namespace Hotspot

structure Colour where
  red : UInt8
  green : UInt8
  blue : UInt8
  alpha : UInt8
deriving DecidableEq, Repr

namespace Colour

/-- The channel for an intensity between zero and one: 255 times the intensity
rounded to a whole number, kept between 0 and 255. -/
def channel (intensity : Binary64) : UInt8 :=
  UInt8.ofNat ((255 * intensity).roundToWhole.clampToNat 255)

/-- Full red at one, full green towards zero. -/
def ofNormalized (normalized alpha : Binary64) : Colour where
  red := channel normalized
  green := channel (1 - normalized)
  blue := 0
  alpha := channel alpha

/-- Two lower-case hexadecimal digits. -/
def hexByte (b : UInt8) : List Char :=
  [Nat.digitChar (b.toNat / 16), Nat.digitChar (b.toNat % 16)]

/-- The colour as `#rrggbbaa`. -/
def hex (c : Colour) : String :=
  String.ofList ('#' :: (hexByte c.red ++ hexByte c.green ++ hexByte c.blue ++ hexByte c.alpha))

end Colour

end Hotspot
