import Namesake.Proofs.Syntax.Evaluation
import Namesake.Proofs.Syntax.Phrase

/-!
A loop that declares its variable takes any expression as the object.  A loop that does not reads
its head as one expression, which has to be a chain of `in` from the target on.  Where it is, both
forms come to the same loop.
-/

namespace Namesake

namespace Phrase

variable {chain target first left : Node} {own others rest : List Node}

end Phrase

end Namesake
