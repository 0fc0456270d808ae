import Renovation.Datum.Conversion
import Renovation.Journal

set_option autoImplicit false

/-!
# Mentions

Reading puts some stored values into words: names, operands, and whatever it leaves out. A value
that has no text stops the reading there; the notes on what went before are made all the same.
-/

namespace Renovation

structure Mention where
  value : Datum
  note? : Option Entry := none

namespace Mention

def isWritable (m : Mention) : Bool := m.value.isWritable

def check (mentions : List Mention) : Except Fault Unit :=
  if mentions.all isWritable then .ok () else .error .tooManyDigits

def notes (mentions : List Mention) : Journal := mentions.filterMap (·.note?)

def notesBeforeFault (mentions : List Mention) : Journal := notes (mentions.takeWhile isWritable)

end Mention

end Renovation
