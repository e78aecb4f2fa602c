import Namesake.Main
import Namesake.Proofs.TypeGraph.Closure
import Namesake.Proofs.Renaming.Binding
import Namesake.Proofs.Renaming.Partition
import Namesake.Proofs.Inference.Mention
import Namesake.Proofs.Inference.Variables
import Namesake.Proofs.Tree.Pairing
import Namesake.Proofs.Tree.Offset
import Namesake.Proofs.Tree.Dumped
import Namesake.Proofs.Workspace.Answers
import Namesake.Proofs.Syntax.Account
import Namesake.Proofs.Syntax.Growth
import Namesake.Proofs.Syntax.Terms
import Namesake.Proofs.Syntax.Positions
import Namesake.Proofs.Syntax.Layout
import Namesake.Proofs.Inference.Counterparts
import Namesake.Proofs.Inference.Receivers
import Namesake.Proofs.Inference.Access
import Namesake.Proofs.Renaming.ProgramOrder
import Namesake.Proofs.Renaming.Unrelated
import Namesake.Proofs.Renaming.Jump
import Namesake.Proofs.Renaming.Translated
import Namesake.Proofs.Workspace.Ranges
import Namesake.Proofs.Workspace.History
import Namesake.Proofs.Workspace.Cursor
import Namesake.Proofs.Workspace.Locality
import Namesake.Proofs.Syntax.Faults
import Namesake.Proofs.Syntax.Words
import Namesake.Proofs.Scope.Hoisting
import Namesake.Proofs.Inference.Synthetic
import Namesake.Proofs.TypeGraph.Drained
import Namesake.Proofs.TypeGraph.Rank
import Namesake.Proofs.Syntax.Escapes
import Namesake.Proofs.Syntax.Excerpt
import Namesake.Proofs.Syntax.Recovery
import Namesake.Proofs.Syntax.Insertion
import Namesake.Proofs.Syntax.LineBreaks
import Namesake.Proofs.Syntax.Loops
import Namesake.Proofs.Syntax.Lines
