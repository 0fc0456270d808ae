import Renovation.Fault

set_option autoImplicit false

/-!
# Files

A file is written piece by piece. The first piece that cannot be written ends the writing, and the
file keeps the pieces in front of it.
-/

namespace Renovation

structure File where
  content : String := ""
  fault? : Option Fault := none

namespace File

/-- Halves of pairs have no encoding. -/
def encode (piece : String) : Except Fault String :=
  match Text.firstHalves? piece.toList with
  | none => .ok piece
  | some (position, halves) => .error (.unencodable position halves)

def write : List (Except Fault String) → File
  | [] => {}
  | .error fault :: _ => { fault? := some fault }
  | .ok piece :: rest =>
    let file := write rest
    { file with content := piece ++ file.content }

end File

end Renovation
