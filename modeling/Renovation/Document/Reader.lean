import Renovation.Datum
import Renovation.Decimal.Reading

set_option autoImplicit false

/-!
# Reading documents

A reader of JSON documents. It returns a value with the characters after it, tells whole numbers
from doubles, keeps the order of fields, and takes the last value of a field that is named twice.
The words `NaN` and `Infinity` are numbers.

Every step uses up a character, so the length of the document bounds the recursion.
-/

namespace Renovation.Document

open Decimal

def skipBlanks (cs : List Char) : List Char :=
  cs.dropWhile fun c => c == ' ' || c == '\t' || c == '\n' || c == '\r'

def word? (word : String) (cs : List Char) : Option (List Char) :=
  let w := word.toList
  if w.isPrefixOf cs then some (cs.drop w.length) else none

def hexValue? (cs : List Char) : Option Nat :=
  cs.foldl (fun n? c => do
    let n ← n?
    if c.isDigit then some (16 * n + (c.toNat - 48))
    else if 'a' ≤ c && c ≤ 'f' then some (16 * n + (c.toNat - 87))
    else if 'A' ≤ c && c ≤ 'F' then some (16 * n + (c.toNat - 55))
    else none) (some 0)

def isHighSurrogate (n : Nat) : Bool := 0xD800 ≤ n && n < 0xDC00
def isLowSurrogate (n : Nat) : Bool := 0xDC00 ≤ n && n < 0xE000

def loneChar (n : Nat) : Char :=
  if isHighSurrogate n || isLowSurrogate n then Text.halfOf n else Char.ofNat n

/-- The character after `\u`: four hexadecimal digits, or two such groups for a pair. -/
def unicodeEscape (cs : List Char) : Option (Char × List Char) := do
  if cs.length < 4 then none
  let high ← hexValue? (cs.take 4)
  let rest := cs.drop 4
  match rest with
  | '\\' :: 'u' :: more =>
    match hexValue? (more.take 4) with
    | some low =>
      if isHighSurrogate high && isLowSurrogate low && 4 ≤ more.length then
        some (Char.ofNat (0x10000 + (high - 0xD800) * 0x400 + (low - 0xDC00)), more.drop 4)
      else some (loneChar high, rest)
    | none => some (loneChar high, rest)
  | _ => some (loneChar high, rest)

def escaped : List Char → Option (Char × List Char)
  | 'u' :: rest => unicodeEscape rest
  | 'n' :: rest => some ('\n', rest)
  | 't' :: rest => some ('\t', rest)
  | 'r' :: rest => some ('\r', rest)
  | 'b' :: rest => some ('\x08', rest)
  | 'f' :: rest => some ('\x0c', rest)
  | c :: rest => if c == '"' || c == '\\' || c == '/' then some (c, rest) else none
  | [] => none

def quotedChars : Nat → List Char → Option (List Char × List Char)
  | 0, _ => none
  | _ + 1, [] => none
  | fuel + 1, c :: rest =>
    if c == '"' then some ([], rest)
    else if c == '\\' then do
      let (e, rest) ← escaped rest
      let (cs, rest) ← quotedChars fuel rest
      return (e :: cs, rest)
    else do
      let (cs, rest) ← quotedChars fuel rest
      return (c :: cs, rest)

def isNumberChar (c : Char) : Bool :=
  c.isDigit || c == '-' || c == '+' || c == '.' || c == 'e' || c == 'E'

/-- A number without point and exponent is whole. -/
def numberOf? (cs : List Char) : Option Datum :=
  let s := String.ofList cs
  if cs.any fun c => c == '.' || c == 'e' || c == 'E' then (readDouble? s).map .real
  else (readWhole? s).map .whole

def scalar (cs : List Char) : Option (Datum × List Char) :=
  let words : List (String × Datum) :=
    [("null", .null), ("true", .flag true), ("false", .flag false), ("NaN", .real undefinedDouble),
      ("Infinity", .real infiniteDouble), ("-Infinity", .real (-infiniteDouble))]
  match words.findSome? fun w => (word? w.1 cs).map (w.2, ·) with
  | some found => some found
  | none => do
    let value ← numberOf? (cs.takeWhile isNumberChar)
    return (value, cs.dropWhile isNumberChar)

mutual

def value (fuel : Nat) (cs : List Char) : Option (Datum × List Char) :=
  match fuel with
  | 0 => none
  | fuel + 1 =>
    match skipBlanks cs with
    | '"' :: rest => do
      let (s, rest) ← quotedChars (rest.length + 1) rest
      return (.text (String.ofList s), rest)
    | '[' :: rest => do
      match skipBlanks rest with
      | ']' :: rest => return (.list [], rest)
      | rest =>
        let (xs, rest) ← items fuel rest
        return (.list xs, rest)
    | '\x7b' :: rest => do
      match skipBlanks rest with
      | '\x7d' :: rest => return (.record [], rest)
      | rest =>
        let (fs, rest) ← fields fuel rest
        return (.record (Entries.ofList fs), rest)
    | rest => scalar rest

def items (fuel : Nat) (cs : List Char) : Option (List Datum × List Char) :=
  match fuel with
  | 0 => none
  | fuel + 1 => do
    let (x, rest) ← value fuel cs
    match skipBlanks rest with
    | ',' :: rest =>
      let (xs, rest) ← items fuel rest
      return (x :: xs, rest)
    | ']' :: rest => return ([x], rest)
    | _ => none

def fields (fuel : Nat) (cs : List Char) : Option (List (String × Datum) × List Char) :=
  match fuel with
  | 0 => none
  | fuel + 1 => do
    match skipBlanks cs with
    | '"' :: rest =>
      let (name, rest) ← quotedChars (rest.length + 1) rest
      match skipBlanks rest with
      | ':' :: rest =>
        let (x, rest) ← value fuel rest
        let entry := (String.ofList name, x)
        match skipBlanks rest with
        | ',' :: rest =>
          let (fs, rest) ← fields fuel rest
          return (entry :: fs, rest)
        | '\x7d' :: rest => return ([entry], rest)
        | _ => none
      | _ => none
    | _ => none

end

def read? (s : String) : Option Datum := do
  let cs := s.toList
  let (d, rest) ← value (cs.length + 1) cs
  if (skipBlanks rest).isEmpty then some d else none

end Renovation.Document
