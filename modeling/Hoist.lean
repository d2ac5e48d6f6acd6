import Hoist.Main
import Hoist.Proofs.Eval.Entering
import Hoist.Proofs.Eval.Escapes
import Hoist.Proofs.Eval.Indexing
import Hoist.Proofs.Eval.Order
import Hoist.Proofs.Eval.ReadBack
import Hoist.Proofs.Scope.Modes
import Hoist.Proofs.Syntax.Layout
import Hoist.Proofs.Transform.CellUse
import Hoist.Proofs.Transform.Runs
import Hoist.Proofs.Transform.Settled
import Hoist.Proofs.Transform.Unchanged
