set_option autoImplicit false

/-!
# The journal

What a run tells the console while it works: entries with a level and a message.
-/

namespace Renovation

inductive Level where
  | debug
  | info
  | warning
  | error
deriving DecidableEq

namespace Level

def name : Level → String
  | debug => "DEBUG"
  | info => "INFO"
  | warning => "WARNING"
  | error => "ERROR"

end Level

structure Entry where
  level : Level
  message : String

namespace Entry

def debug (message : String) : Entry := ⟨.debug, message⟩
def info (message : String) : Entry := ⟨.info, message⟩
def warning (message : String) : Entry := ⟨.warning, message⟩
def error (message : String) : Entry := ⟨.error, message⟩

end Entry

abbrev Journal := List Entry

namespace Journal

def shown (verbose : Bool) (journal : Journal) : Journal :=
  if verbose then journal else journal.filter (·.level != .debug)

end Journal

end Renovation
