import Renovation.Datum.Conversion
import Renovation.File

set_option autoImplicit false

/-!
# Writing documents

Stored values as JSON, on one line or with a line for each item and field. Doubles have the fewest
digits that read back; characters outside ASCII stand for themselves. `pieces` are the parts in which
a document is written to a file.
-/

namespace Renovation.Document

def escapeChar (c : Char) : List Char :=
  if c == '"' || c == '\\' then ['\\', c]
  else if c == '\n' then ['\\', 'n']
  else if c == '\r' then ['\\', 'r']
  else if c == '\t' then ['\\', 't']
  else if c == '\x08' then ['\\', 'b']
  else if c == '\x0c' then ['\\', 'f']
  else if c.toNat < 32 then '\\' :: 'u' :: Text.hex 4 c.toNat
  else [c]

def quote (s : String) : String :=
  String.ofList ('"' :: s.toList.flatMap escapeChar ++ ['"'])

def double (x : Float) : String :=
  match Decimal.expand x with
  | .notANumber => "NaN"
  | .infinite negative => if negative then "-Infinity" else "Infinity"
  | .finite _ => Decimal.shortestText .plain x

structure Style where
  /-- Before the first part and between parts, after the comma. -/
  line : Nat → String
  /-- After a field's name. -/
  colon : String
  /-- Between parts, before `line`. -/
  comma : String

def Style.compact : Style := ⟨fun _ => "", ":", ","⟩

def Style.indented : Style :=
  ⟨fun depth => "\n" ++ String.ofList (List.replicate (2 * depth) ' '), ": ", ","⟩

def Style.enclose (style : Style) (depth : Nat) (opening closing : String) (parts : List String) :
    String :=
  if parts.isEmpty then opening ++ closing
  else
    let line := style.line (depth + 1)
    opening ++ line ++ (style.comma ++ line).intercalate parts ++ style.line depth ++ closing

mutual

def write (style : Style) (depth : Nat) : Datum → String
  | .null => "null"
  | .flag b => if b then "true" else "false"
  | .whole n => toString n
  | .real x => double x
  | .text s => quote s
  | .list xs => style.enclose depth "[" "]" (writeItems style (depth + 1) xs)
  | .record fs => style.enclose depth "\x7b" "\x7d" (writeFields style (depth + 1) fs)

def writeItems (style : Style) (depth : Nat) : List Datum → List String
  | [] => []
  | x :: xs => write style depth x :: writeItems style depth xs

def writeFields (style : Style) (depth : Nat) : List (String × Datum) → List String
  | [] => []
  | (name, x) :: rest =>
    (quote name ++ style.colon ++ write style depth x) :: writeFields style depth rest

end

mutual

/-- With `lead` in front. The text of an item makes one piece with what sets it apart, any other text
and the name of a field make a piece of their own. -/
def pieces (style : Style) (depth : Nat) (lead : String) : Datum → List (Except Fault String)
  | .text s => [File.encode (lead ++ quote s)]
  | .whole n => [do (Datum.whole n).requireWritable; return lead ++ toString n]
  | .list (x :: xs) =>
    .ok lead :: itemPieces style (depth + 1) ("[" ++ style.line (depth + 1)) (x :: xs) ++
      [.ok (style.line depth ++ "]")]
  | .record (f :: fs) =>
    .ok lead :: fieldPieces style (depth + 1) ("\x7b" ++ style.line (depth + 1)) (f :: fs) ++
      [.ok (style.line depth ++ "\x7d")]
  | d => [.ok (lead ++ write style depth d)]

def itemPieces (style : Style) (depth : Nat) (lead : String) :
    List Datum → List (Except Fault String)
  | [] => []
  | x :: xs =>
    pieces style depth lead x ++ itemPieces style depth (style.comma ++ style.line depth) xs

def fieldPieces (style : Style) (depth : Nat) (lead : String) :
    List (String × Datum) → List (Except Fault String)
  | [] => []
  | (name, x) :: rest =>
    .ok lead :: File.encode (quote name) :: .ok style.colon :: pieces style depth "" x ++
      fieldPieces style depth (style.comma ++ style.line depth) rest

end

end Renovation.Document
