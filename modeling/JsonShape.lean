import JsonShape.Fixture.Run
import JsonShape.Main
import JsonShape.Proofs.Normalize.Refusal
import JsonShape.Proofs.Rule.RoundTrip
import JsonShape.Proofs.Schema.Agreement
import JsonShape.Proofs.Registry.History
import JsonShape.Proofs.Source.Words
import JsonShape.Proofs.Registry.Reload
import JsonShape.Proofs.Source.Seam
import JsonShape.Proofs.Text.Position
import JsonShape.Proofs.Source.Joining
import JsonShape.Proofs.Number.Nearest
import JsonShape.Proofs.Registry.Joining
import JsonShape.Proofs.Number.Agreement
import JsonShape.Proofs.Normalize.Narrowing
import JsonShape.Proofs.Normalize.Sight
import JsonShape.Proofs.Text.Longest
import JsonShape.Proofs.Number.Longest
import JsonShape.Proofs.Source.Forms
import JsonShape.Proofs.Source.Pieces
import JsonShape.Proofs.Source.Munch
import JsonShape.Proofs.Source.Completion
import JsonShape.Proofs.Source.Viability
import JsonShape.Proofs.Source.Places
import JsonShape.Proofs.Normalize.Positions
import JsonShape.Proofs.Normalize.Retention
import JsonShape.Proofs.Source.Precedence
import JsonShape.Proofs.Source.Spacing
import JsonShape.Proofs.Cli.Loading
import JsonShape.Proofs.Normalize.Loosening
import JsonShape.Proofs.Cli.Checking
import JsonShape.Proofs.Cli.Failing
import JsonShape.Proofs.Number.Decimal
import JsonShape.Proofs.Number.Stepwise
import JsonShape.Proofs.Normalize.SameText
import JsonShape.Proofs.Normalize.FirstRefusal
import JsonShape.Proofs.Source.Nesting
import JsonShape.Proofs.Source.Literals
import JsonShape.Proofs.Text.Slices
import JsonShape.Proofs.Source.Offsets
import JsonShape.Proofs.Source.Located
import JsonShape.Proofs.Text.Locations
import JsonShape.Proofs.Source.Integers
import JsonShape.Proofs.Normalize.Reasons
import JsonShape.Proofs.Rule.Serialized
import JsonShape.Proofs.Json.Reading
import JsonShape.Proofs.Cli.Respacing
import JsonShape.Proofs.Cli.Rechecking
import JsonShape.Proofs.Cli.Selecting
import JsonShape.Proofs.Query.Identity
import JsonShape.Proofs.Source.BareWords
import JsonShape.Proofs.Fixture.Running
import JsonShape.Proofs.Files.Growing
