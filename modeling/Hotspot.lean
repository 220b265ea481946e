import Hotspot.Highlight.Session
import Hotspot.Files.Machine
import Hotspot.Command.Sink
import Hotspot.Main
import Hotspot.Proofs.Highlight.Foremost
import Hotspot.Proofs.Highlight.Threshold
import Hotspot.Proofs.Binary64.Product
import Hotspot.Proofs.Attenuation.Weight
import Hotspot.Proofs.Highlight.Monotone
import Hotspot.Proofs.Highlight.OwnEdges
import Hotspot.Proofs.Highlight.Negligible
import Hotspot.Proofs.Highlight.Reordering
import Hotspot.Proofs.Highlight.Regions
import Hotspot.Proofs.Analysis.Rendering
import Hotspot.Proofs.Storage.Truncation
import Hotspot.Proofs.Command.Highlight
import Hotspot.Proofs.Config.Root
import Hotspot.Proofs.Highlight.Session
import Hotspot.Proofs.Decimal.Shortest
import Hotspot.Proofs.Decimal.Layout
import Hotspot.Proofs.Json.Doubles
import Hotspot.Proofs.Json.Roundtrip
import Hotspot.Proofs.Json.Stored
import Hotspot.Proofs.Highlight.Report
import Hotspot.Proofs.Attenuation.History
import Hotspot.Proofs.Highlight.Rejected
import Hotspot.Proofs.Analysis.Reduction
import Hotspot.Proofs.Command.Configuration
import Hotspot.Proofs.Storage.Separation
import Hotspot.Proofs.Highlight.Shades
import Hotspot.Proofs.Analysis.Total
import Hotspot.Proofs.Highlight.Bounds
import Hotspot.Proofs.Command.Init
import Hotspot.Proofs.Highlight.Badge
