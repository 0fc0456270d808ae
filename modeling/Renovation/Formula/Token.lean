import Renovation.Mention

set_option autoImplicit false

/-!
# Formula tokens

A formula is a list of names and operators. It is stored as a list of records with a type and a
value; a record that is no token is left out. `tokens` are those that `read` returns unless it meets
a value without a text. `Token.stored` writes a token back.
-/

namespace Renovation.Formula

/-- The four signs of arithmetic. Any other symbol takes its place in a formula but does nothing. -/
inductive Operator where
  | plus
  | minus
  | times
  | dividedBy
  | other (symbol : String)
deriving DecidableEq

namespace Operator

def symbol : Operator → String
  | plus => "+"
  | minus => "-"
  | times => "*"
  | dividedBy => "/"
  | other symbol => symbol

def arithmetic? (symbol : String) : Option Operator :=
  if symbol == "+" then some plus
  else if symbol == "-" then some minus
  else if symbol == "*" then some times
  else if symbol == "/" then some dividedBy
  else none

def ofSymbol (symbol : String) : Operator := (arithmetic? symbol).getD (other symbol)

/-- As `arithmetic?`, with the crosses and the obelus people type. -/
def spelled? (symbol : String) : Option Operator :=
  if symbol == "x" || symbol == "×" then some times
  else if symbol == "÷" then some dividedBy
  else arithmetic? symbol

end Operator

inductive Token where
  /-- A variable, or a number written out. -/
  | operand (name : String)
  | operator (op : Operator)
deriving DecidableEq

namespace Token

def typeText : Token → String
  | operand _ => "variable"
  | operator _ => "operator"

def valueText : Token → String
  | operand name => name
  | operator op => op.symbol

/-- The token a stored record stands for. Type and value have to be there, and the value must not be
the empty text. -/
def read? (d : Datum) : Option Token :=
  match d.field "value" with
  | .null | .text "" => none
  | value =>
    match d.field "type" with
    | .text kind =>
      let text := Text.trim value.toText
      if kind == "operator" then (Operator.spelled? text).map operator
      else if kind == "variable" then some (operand text)
      else none
    | _ => none

def stored (t : Token) : Datum :=
  .record [("type", .text t.typeText), ("value", .text t.valueText)]

end Token

/-- The tokens of a stored formula, without what is no token. What is no list has none. -/
def tokens : Datum → List Token
  | .list records => records.filterMap Token.read?
  | _ => []

def mentions : Datum → List Mention
  | .null => []
  | .list records => records.map fun record =>
    if (Token.read? record).isSome then ⟨record.field "value", none⟩
    else ⟨record, some (.debug s!"Skipping malformed formula token: {record.shown}")⟩
  | stored => [⟨stored, some (.debug s!"Calculation is not a list: {stored.shown}")⟩]

def read (stored : Datum) : Except Fault (List Token) := do
  Mention.check (mentions stored)
  return tokens stored

def stored (ts : List Token) : Datum := .list (ts.map Token.stored)

end Renovation.Formula
