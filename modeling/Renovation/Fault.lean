import Renovation.Datum.Shown

set_option autoImplicit false

/-!
# Faults

Everything that can stop a calculation, by cause. `Fault.message` holds the wording, and
`Fault.family` the kind of trouble, which tells a caller whether the input can be mended.
-/

namespace Renovation

inductive Fault where
  /-- A whole number is beyond the largest double. -/
  | wholeTooLarge
  /-- A power of finite numbers is beyond the largest double. -/
  | powerTooLarge
  /-- A power with a complex value is beyond the largest double. -/
  | complexPowerTooLarge
  | infiniteWhole
  | undefinedWhole
  /-- A double divided by zero. -/
  | divisionByZero
  /-- A whole number divided by zero. -/
  | wholeDivisionByZero
  | unreadableDouble (text : String)
  | unreadableWhole (text : String)
  /-- Something that should be a name and its value has another count of parts. -/
  | unevenPair (index size : Nat)
  /-- A whole number with too many digits was to be written. -/
  | tooManyDigits
  /-- A run of halves of pairs was to be written to a file. -/
  | unencodable (position : Nat) (halves : List Char)
  | settingNotNumeric (name : String) (value : Datum)
  | horizonNotPositive
  | horizonNotWhole
  /-- A number was asked for with fewer than no places. -/
  | placesNegative
  /-- A number was asked for with more places than texts can have. -/
  | placesTooMany (count : Nat)
  | configurationMissing (path : String)
  | inputMissing (path : String)
  /-- A file was to be written into a folder that is not there. -/
  | folderMissing (path : String)
  /-- A folder stands where a file was asked for. -/
  | folderGiven
  | measuresExpected (path : String)
  | contextExpected (path : String)
  /-- A field was asked of a value that is no record. -/
  | noFields (value : Datum)
  /-- A value that is no text was asked for its lower case. -/
  | noLowerCase (value : Datum)
  /-- A value that cannot name a field was used as a name. -/
  | unusableName (value : Datum)
  /-- An operation met a value of a kind it is not defined on. -/
  | wrongKind
  /-- A result cannot be written to a log. -/
  | unwritable
  /-- A job recurs so often that its years do not move on. -/
  | unending

namespace Fault

inductive Family where
  | outOfRange
  | invalidValue
  | zeroDivision
  | unencodable
  | missingFile
  | folderGiven
  | missingOperation
  | wrongKind
  | unending
deriving DecidableEq

def family : Fault → Family
  | wholeTooLarge | powerTooLarge | complexPowerTooLarge | infiniteWhole => .outOfRange
  | divisionByZero | wholeDivisionByZero => .zeroDivision
  | undefinedWhole | unreadableDouble _ | unreadableWhole _ | unevenPair _ _ | tooManyDigits
  | settingNotNumeric _ _ | horizonNotPositive | horizonNotWhole | placesNegative
  | placesTooMany _ | measuresExpected _ | contextExpected _ => .invalidValue
  | unencodable _ _ => .unencodable
  | configurationMissing _ | inputMissing _ | folderMissing _ => .missingFile
  | folderGiven => .folderGiven
  | noFields _ | noLowerCase _ => .missingOperation
  | unusableName _ | wrongKind | unwritable => .wrongKind
  | unending => .unending

/-- A person can mend the input: a file is missing, holds a wrong value or one that cannot be
written. -/
def isInputError (fault : Fault) : Bool :=
  match fault.family with
  | .invalidValue | .unencodable | .missingFile => true
  | _ => false

def quotedLimit : Nat := 200

def digitLimitMessage : String :=
  s!"Exceeds the limit ({Decimal.wholeDigits} digits) for integer string conversion; " ++
    "use sys.set_int_max_str_digits() to increase the limit"

/-- One half is shown by its number, more by their places. -/
def unencodableMessage (position : Nat) : List Char → String
  | [half] =>
    "'utf-8' codec can't encode character '" ++
      String.ofList ('\\' :: 'u' :: Text.hex 4 (Text.codePoint half)) ++
      s!"' in position {position}: surrogates not allowed"
  | halves =>
    "'utf-8' codec can't encode characters in position " ++
      s!"{position}-{position + halves.length - 1}: surrogates not allowed"

def message : Fault → String
  | wholeTooLarge => "int too large to convert to float"
  | powerTooLarge => "(34, 'Numerical result out of range')"
  | complexPowerTooLarge => "complex exponentiation"
  | infiniteWhole => "cannot convert float infinity to integer"
  | undefinedWhole => "cannot convert float NaN to integer"
  | divisionByZero => "float division by zero"
  | wholeDivisionByZero => "division by zero"
  | unreadableDouble text => "could not convert string to float: " ++ Text.quoted text
  | unreadableWhole text =>
    "invalid literal for int() with base 10: " ++
      String.ofList ((Text.quoted text).toList.take quotedLimit)
  | unevenPair index size =>
    s!"dictionary update sequence element #{index} has length {size}; 2 is required"
  | tooManyDigits => digitLimitMessage
  | unencodable position halves => unencodableMessage position halves
  | settingNotNumeric name value =>
    if value.isWritable then s!"Setting '{name}' must be numeric, got {value.shown}."
    else digitLimitMessage
  | horizonNotPositive => "Maintenance horizon must be greater than zero."
  | horizonNotWhole => "Maintenance horizon must be a whole number of years."
  | placesNegative => "Format specifier missing precision"
  | placesTooMany count =>
    if count < Decimal.twoTo 63 then "precision too big"
    else "Too many decimal digits in format string"
  | configurationMissing path => s!"Configuration file not found: {path}"
  | inputMissing path => s!"Input file not found: {path}"
  | folderMissing path => "[Errno 2] No such file or directory: " ++ Text.quoted path
  | folderGiven => "a folder is no file"
  | measuresExpected path => s!"Expected a list of measures in {path}"
  | contextExpected path => s!"Expected a mapping of calculation variables in {path}"
  | noFields value => s!"'{value.kind}' object has no attribute 'get'"
  | noLowerCase value => s!"'{value.kind}' object has no attribute 'lower'"
  | unusableName value => s!"unhashable type: '{value.kind}'"
  | wrongKind => "unsupported kind of value"
  | unwritable => "value has no written form"
  | unending => "the years of a job do not move on"

end Fault

end Renovation
