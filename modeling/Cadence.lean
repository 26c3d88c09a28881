import Cadence.CommandLine.Folder
import Cadence.Main
import Cadence.Proofs.Program.Channel
import Cadence.Proofs.Program.Evaluation
import Cadence.Proofs.Program.Seamless
import Cadence.Proofs.Program.Soundness
import Cadence.Proofs.Program.Surface
import Cadence.Proofs.Rhythm.Merge
import Cadence.Proofs.Rhythm.Seamless
import Cadence.Proofs.Tree.Layout
import Cadence.Rhythm.Exact
import Cadence.Proofs.Program.Exactness
import Cadence.Proofs.Midi.Message
import Cadence.Proofs.Note.Range
import Cadence.Proofs.Program.Range
import Cadence.Proofs.Rhythm.Natural
import Cadence.Proofs.Program.Times
import Cadence.Proofs.Source.Inset
import Cadence.Proofs.Tree.Raised
import Cadence.Proofs.Program.Nested
import Cadence.Proofs.Tree.Shape
import Cadence.Proofs.Tree.Failure
import Cadence.Proofs.Program.Repeated
import Cadence.Proofs.Midi.Playing
import Cadence.Proofs.Double.Order
import Cadence.Proofs.Midi.Arranged
import Cadence.Proofs.Program.Held
import Cadence.Proofs.Program.Memoized
import Cadence.Proofs.Program.Scopes
import Cadence.Proofs.Double.Value
import Cadence.Proofs.Rhythm.Cycles
import Cadence.Proofs.Rhythm.Stack
import Cadence.Proofs.Rhythm.Gate
import Cadence.Proofs.Program.Binding
import Cadence.Proofs.Rhythm.Periodic
import Cadence.Proofs.Tree.Canonical
import Cadence.Proofs.Program.Spliced
import Cadence.Proofs.Source.Backtracking
import Cadence.Proofs.Tree.Balanced
import Cadence.Proofs.Note.Transposed
import Cadence.Proofs.Rhythm.Ending
import Cadence.Proofs.Settings.Usable
import Cadence.Proofs.Program.TypeText
import Cadence.Proofs.Program.Forcing
import Cadence.Proofs.Tree.Traversal
import Cadence.Proofs.Tree.Finite
