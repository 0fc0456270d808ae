import Mathlib.Data.List.GetD
import Renovation.Proofs.Report.Overview
import Renovation.Proofs.Report.ReadingBack
import Renovation.Run

set_option autoImplicit false

/-!
# The files of a run

Files are opened one after the other. The first that cannot be written ends the writing: those in
front of it are complete, it keeps what was written of it, and those behind it are not opened.
-/

namespace Renovation

namespace Run

/-- What stops the writing of a file. -/
def Task.fault? (t : Task) : Option Fault :=
  match t.pieces with
  | .error fault => some fault
  | .ok pieces => (File.write pieces).fault?

namespace Writing

end Writing

end Run

end Renovation
