import Renovation.File
import Renovation.Report.Table

set_option autoImplicit false

/-!
# Comma-separated text

Records as lines of fields with commas between them. A field that holds a comma, a quote or a line
feed stands in quotes, with its own quotes written twice.
-/

namespace Renovation.Report.Csv

def needsQuotes (field : List Char) : Bool :=
  field.any fun c => c == ',' || c == '"' || c == '\n'

def doubled (field : List Char) : List Char :=
  field.flatMap fun c => if c == '"' then ['"', '"'] else [c]

def writeField (field : List Char) : List Char :=
  if needsQuotes field then '"' :: doubled field ++ ['"'] else field

def writeRecord : List (List Char) → List Char
  | [] => ['\n']
  | [field] => writeField field ++ ['\n']
  | field :: rest => writeField field ++ ',' :: writeRecord rest

def write (records : List (List String)) : String :=
  String.ofList (records.flatMap fun record => writeRecord (record.map String.toList))

end Renovation.Report.Csv

namespace Renovation.Report

def csv (p : Project Float) : String := Csv.write (records p)

def tablePieces (p : Project Float) : List (Except Fault String) :=
  File.encode (Csv.write [columnNames]) ::
    (List.range (rows p).length).map fun row =>
      if (cells p row).all Cell.isWritable then
        File.encode (Csv.write [(cells p row).map Cell.toText])
      else .error .tooManyDigits

end Renovation.Report
