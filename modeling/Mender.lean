import Mender.Main
import Mender.Proofs.FileTree.Resolution
import Mender.Proofs.FileTree.Entries
import Mender.Proofs.FileTree.Growth
import Mender.Proofs.Mending
import Mender.Proofs.Sweep.Lineup
import Mender.Proofs.Sweep.Effect
import Mender.Proofs.Sweep.History
import Mender.Proofs.Restoration
import Mender.Proofs.Rule.Padding
import Mender.Proofs.Rule.Guarding
import Mender.Proofs.Rule.Anchors
import Mender.Proofs.Text.Scanning
import Mender.Proofs.Rule.Places
import Mender.Proofs.Rule.Injection
import Mender.Proofs.Rule.Idempotence
import Mender.Proofs.Sweep.Accounting
import Mender.Proofs.Text.LineEnding
import Mender.Proofs.Rule.LineEndings
import Mender.Proofs.Json.Grammar
import Mender.Proofs.Json.Reading
import Mender.Proofs.Report.Decoding
import Mender.Proofs.Diff.Script
import Mender.Proofs.Diff.Compaction
import Mender.Proofs.Diff.Hunks
import Mender.Proofs.Diff.Patching
import Mender.Proofs.Diff.Shape
import Mender.Proofs.Diff.Headings
import Mender.Proofs.Diff.LineCounts
import Mender.Proofs.Sweep.Preview
import Mender.Proofs.Rule.Compilation
import Mender.Proofs.Rule.Attachment
import Mender.Proofs.Text.Positions
import Mender.Proofs.Rule.SingleLogger
import Mender.Proofs.Rule.Nesting
import Mender.Proofs.FailedFiles
import Mender.Proofs.Rule.Wrapping
import Mender.Proofs.Rule.ByteOrderMark
import Mender.Proofs.Restoration.Interference
import Mender.Proofs.Path.Order
import Mender.Proofs.Sources
import Mender.Proofs.Rule.Clock
import Mender.Proofs.Backup.Names
import Mender.Proofs.Backup.RoundTrip
import Mender.Proofs.ChangedFiles
import Mender.Proofs.Rule.Universal
import Mender.Proofs.Rule.Independence
import Mender.Proofs.Rule.Relocation
import Mender.Proofs.Rule.SteadyAnchors
import Mender.Proofs.Rule.ClosingBrace
