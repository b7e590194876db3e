import Tabletop.Formula.Range
import Tabletop.Json.Reader
import Tabletop.Main
import Tabletop.Session
import Tabletop.Proofs.Sequence
import Tabletop.Proofs.Total
import Tabletop.Proofs.Formula.Spelling
import Tabletop.Proofs.Formula.Reading
import Tabletop.Proofs.Formula.RoundTrip
import Tabletop.Proofs.Formula.Offender
import Tabletop.Proofs.Dice.Shape
import Tabletop.Proofs.Verdict
import Tabletop.Proofs.Origins
import Tabletop.Proofs.Outcome
import Tabletop.Proofs.Modifier.Kinds
import Tabletop.Proofs.Formula.Construction
import Tabletop.Proofs.Groups
import Tabletop.Proofs.Modifier.Inert
import Tabletop.Proofs.Modifier.Appended
import Tabletop.Proofs.Formula.Concatenation
import Tabletop.Proofs.Session.Lockstep
import Tabletop.Proofs.Session.Stream
import Tabletop.Proofs.Dice.Value
import Tabletop.Proofs.Formula.Bounds
import Tabletop.Proofs.Modifier.Blocks
import Tabletop.Proofs.Modifier.Rearranged
import Tabletop.Proofs.Modifier.Net
import Tabletop.Proofs.Modifier.Text
import Tabletop.Proofs.Modifier.Clamped
import Tabletop.Proofs.Breakdown
import Tabletop.Proofs.Dice.Listing
import Tabletop.Proofs.Summary
import Tabletop.Proofs.Exact
import Tabletop.Proofs.Cap
import Tabletop.Proofs.Pool
import Tabletop.Proofs.LineEnd
import Tabletop.Proofs.Json.RoundTrip
import Tabletop.Proofs.Storage.Spelling
import Tabletop.Proofs.Storage.ReadBack
import Tabletop.Proofs.Settings.Distinct
import Tabletop.Proofs.Toml.Distinct
import Tabletop.Proofs.Settings.Wrapped
import Tabletop.Proofs.Settings.Layers
import Tabletop.Proofs.Settings.Load
import Tabletop.Proofs.CommandLine
