import WindowRules.Conversion
import WindowRules.Proofs.Decimal.Value
import WindowRules.Proofs.Encoding.Reencoding
import WindowRules.Proofs.Geometry.Balanced
import WindowRules.Proofs.Grammar.Lines
import WindowRules.Proofs.Grammar.Judged
import WindowRules.Proofs.Merging.Grouping
import WindowRules.Proofs.Merging.Collisions
import WindowRules.Proofs.Merging.Again
import WindowRules.Proofs.Merging.Rearranged
import WindowRules.Proofs.Reading.Tiling
import WindowRules.Proofs.Reading.Joined
import WindowRules.Proofs.Reading.Problems
import WindowRules.Proofs.Reading.Sound
import WindowRules.Proofs.Reading.Recognition
import WindowRules.Proofs.Reading.Complete
import WindowRules.Proofs.Reading.Values
import WindowRules.Proofs.Reading.Reread
import WindowRules.Proofs.Reading.SilentLines
import WindowRules.Proofs.Writing.RoundTrip
import WindowRules.Proofs.Writing.Boundaries
import WindowRules.Proofs.Conversion.Pieces
import WindowRules.Proofs.Conversion.Rereading
import WindowRules.Proofs.Conversion.Stability
import WindowRules.Proofs.Conversion.FixedPoint
import WindowRules.Proofs.Conversion.Acceptance
import WindowRules.Proofs.Conversion.OpenBlocks
import WindowRules.Proofs.Conversion.Margins
