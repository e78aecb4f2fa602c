import Namesake.Proofs.Syntax.Coverage

/-!
Every form fits the parts that the productions of the grammar give it, so a phrase that is
derived fails for one of four reasons only.
-/

namespace Namesake

open Pattern

namespace SourceFile

end SourceFile

end Namesake
