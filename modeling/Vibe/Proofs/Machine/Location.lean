import Vibe.Proofs.Machine.Moving
import Vibe.Proofs.Machine.Placement

/-! The places of failures: however far the node that fails lies from what is running, its place is
that of a node which was read. -/

namespace Vibe

open Interpreter

variable {P : Span → Prop} {m : Machine}

namespace Machine

end Machine

end Vibe
