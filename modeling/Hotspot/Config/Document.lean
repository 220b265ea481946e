import Hotspot.Error
import Hotspot.Json.Printer

/-!
Configurations as documents. A configuration file is TOML; whatever it leaves
out has its default, and its values have to be valid.
-/

namespace Hotspot

variable {δ : Type} [Document δ]

namespace HighlightConfig

def read : Reader δ HighlightConfig :=
  .record "HighlightConfig"
    [ .withDefault "complexity_threshold" Reader.float ({} : HighlightConfig).threshold,
      .withDefault "highlight_alpha" Reader.float ({} : HighlightConfig).alpha,
      .withDefault "min_complexity_per_loc" Reader.float ({} : HighlightConfig).floor ]
    fun (threshold, alpha, floor, ()) => { threshold, alpha, floor }

def toJson (c : HighlightConfig) : Json :=
  .record
    [ ("complexity_threshold", .ofBinary64 c.threshold),
      ("highlight_alpha", .ofBinary64 c.alpha),
      ("min_complexity_per_loc", .ofBinary64 c.floor) ]

end HighlightConfig

namespace AttenuationConfig

def read : Reader δ AttenuationConfig :=
  .record "AttenuationConfig"
    [.withDefault "enabled" Reader.truth ({} : AttenuationConfig).enabled]
    fun (enabled, ()) => { enabled }

def toJson (c : AttenuationConfig) : Json := .record [("enabled", .truth c.enabled)]

end AttenuationConfig

namespace Config

def read : Reader δ Config :=
  .record "BoltzmannConfig"
    [ .withDefault "highlights" HighlightConfig.read {},
      .withDefault "attenuation" AttenuationConfig.read {} ]
    fun (highlights, attenuation, ()) => { highlights, attenuation }

def toJson (c : Config) : Json :=
  .record [("highlights", c.highlights.toJson), ("attenuation", c.attenuation.toJson)]

/-- The valid configuration in the text of a configuration file. -/
def parse (text : String) : Except Error Config := do
  let c ← (Toml.read read text).mapError .toml
  c.validate.mapError .ofConfigFault
  return c

end Config

end Hotspot
