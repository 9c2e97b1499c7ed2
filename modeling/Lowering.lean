import Lowering.Main
import Lowering.Program.Draft
import Lowering.Program.Encode
import Lowering.Proofs.Aside
import Lowering.Proofs.Dispatch
import Lowering.Proofs.Hoist
import Lowering.Proofs.Entry
import Lowering.Proofs.Callees
import Lowering.Proofs.Visit
import Lowering.Proofs.Adding
import Lowering.Proofs.Conversion
import Lowering.Proofs.Union
import Lowering.Proofs.Budget
import Lowering.Proofs.Agreement
import Lowering.Proofs.Truth
import Lowering.Proofs.Condition
import Lowering.Proofs.Lifetime
import Lowering.Proofs.RoundTrip
import Lowering.Proofs.Measure
import Lowering.Proofs.Begun
import Lowering.Proofs.Calling
import Lowering.Proofs.Bounded
import Lowering.Proofs.Checked
import Lowering.Proofs.Lookup
import Lowering.Proofs.Allocating
import Lowering.Proofs.Elements
import Lowering.Proofs.Marks
import Lowering.Proofs.Primitive
import Lowering.Proofs.Rows
import Lowering.Proofs.Stored
import Lowering.Proofs.Arrays
import Lowering.Proofs.Utf8
import Lowering.Proofs.Initial
import Lowering.Proofs.Identity
import Lowering.Proofs.Unmarked
import Lowering.Proofs.Integers
import Lowering.Proofs.Numbering
import Lowering.Proofs.Folding
import Lowering.Proofs.Globals
import Lowering.Proofs.Inclusion
import Lowering.Proofs.Breakdown
import Lowering.Proofs.Transfer
import Lowering.Proofs.Naming
import Lowering.Proofs.Reordering
import Lowering.Proofs.Alignment
import Lowering.Proofs.Expansion
import Lowering.Proofs.Labels
import Lowering.Proofs.Spelling
