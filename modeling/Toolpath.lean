import Toolpath.Exchange.Program
import Toolpath.Main
import Toolpath.Proofs.Arc.Ends
import Toolpath.Proofs.Path.Runs
import Toolpath.Proofs.Program.Step
import Toolpath.Proofs.Program.TwoViews
import Toolpath.Proofs.Path.Frame
import Toolpath.Proofs.Program.Detail
import Toolpath.Proofs.Program.DeadReckoning
import Toolpath.Proofs.View.ServedLevel
import Toolpath.Proofs.Path.Builder
import Toolpath.Proofs.Detail.Kept
import Toolpath.Proofs.Detail.Thinning
import Toolpath.Proofs.Detail.Count
import Toolpath.Proofs.Detail.SmallFeatures
import Toolpath.Proofs.Detail.Tiers
import Toolpath.Proofs.Arc.Closed
import Toolpath.Proofs.Program.ZeroLength
import Toolpath.Proofs.Program.LineByLine
import Toolpath.Proofs.Program.Words
import Toolpath.Proofs.Program.Comments
import Toolpath.Proofs.Program.SameSettings
import Toolpath.Proofs.Program.Spelling
import Toolpath.Proofs.View.Reload
import Toolpath.Proofs.View.Digest
import Toolpath.Proofs.Binary.Sums
import Toolpath.Proofs.Geometry.Rotation
import Toolpath.Proofs.Arc.Rotation
import Toolpath.Proofs.Path.Rotation
import Toolpath.Proofs.Program.Rotation
import Toolpath.Proofs.Program.Modes
import Toolpath.Proofs.Text.Pieces
import Toolpath.Proofs.Program.Letters
import Toolpath.Proofs.Program.Silence
import Toolpath.Proofs.Program.Presentation
import Toolpath.Proofs.View.CacheHistory
import Toolpath.Proofs.Binary.Bits
import Toolpath.Proofs.Binary.Rounding
import Toolpath.Proofs.Decimal.Digits
import Toolpath.Proofs.Decimal.Shortest
import Toolpath.Proofs.Json.Midpoints
import Toolpath.Proofs.Json.Numbers
import Toolpath.Proofs.Decimal.Numerals
import Toolpath.Proofs.Toml.Numbers
import Toolpath.Proofs.Json.ReadBack
import Toolpath.Proofs.Json.Settings
import Toolpath.Proofs.Toml.Scalars
import Toolpath.Proofs.Toml.ReadBack
import Toolpath.Proofs.Toml.Settings
import Toolpath.Proofs.Settings.Partial
import Toolpath.Proofs.Settings.RoundTrip
import Toolpath.Proofs.Binary.Nearest
import Toolpath.Proofs.Binary.Packed
import Toolpath.Proofs.Binary.Arithmetic
import Toolpath.Proofs.Binary.Finite
import Toolpath.Proofs.Arc.Sweep
import Toolpath.Proofs.Arc.Contract
import Toolpath.Proofs.Arc.Limits
import Toolpath.Proofs.Arc.Range
import Toolpath.Proofs.Program.Slots
import Toolpath.Proofs.Program.OnePass
import Toolpath.Proofs.Program.Grammar
import Toolpath.Proofs.Detail.Corners
import Toolpath.Proofs.Detail.Overshoot
import Toolpath.Proofs.Binary.Order
import Toolpath.Proofs.Binary.Extended
import Toolpath.Proofs.Depth.Heights
import Toolpath.Proofs.Depth.Lookup
import Toolpath.Proofs.Geometry.Extents
import Toolpath.Proofs.View.Fitting
import Toolpath.Proofs.Depth.Canonical
import Toolpath.Proofs.Geometry.Hull
import Toolpath.Proofs.View.Reports
import Toolpath.Proofs.Storage.Changes
import Toolpath.Proofs.Settings.Refusal
import Toolpath.Proofs.Arc.Spacing
import Toolpath.Proofs.Arc.Density
import Toolpath.Proofs.View.ZoomRange
