import Renovation.Cost
import Renovation.Decimal.Fixed

set_option autoImplicit false

/-!
# Amounts as text

Amounts have a fixed count of places and groups of three digits. Reports use the Dutch marks, the
console the English ones. A complex cost shows both parts, the second always with its sign.
-/

namespace Renovation.Report

open Decimal

/-- A count of places as a caller gives it. -/
def placesOf (n : Int) : Except Fault Nat :=
  if n < 0 then .error .placesNegative
  else if Decimal.twoTo 31 ≤ n.toNat then .error (.placesTooMany n.toNat)
  else .ok n.toNat

def dutch (places : Nat) (x : Float) : String := fixedText .dutch places x

def euro (places : Nat) (x : Float) : String := "€ " ++ dutch places x

def formatDutch (places : Int) (x : Float) : Except Fault String := do
  return dutch (← placesOf places) x

def formatEuro (places : Int) (x : Float) : Except Fault String := do
  return euro (← placesOf places) x

def withSign (number : String) : String :=
  if number.startsWith "-" then number else "+" ++ number

def costText (marks : Marks) (places : Nat) : Cost Float → String
  | .real x => fixedText marks places x
  | .complex re im => fixedText marks places re ++ withSign (fixedText marks places im) ++ "j"

def euroCost (cost : Cost Float) : String := "€ " ++ costText .dutch 2 cost

def consoleCost (cost : Cost Float) : String := costText .english 2 cost

def consoleAmount (x : Float) : String := fixedText .english 2 x

end Renovation.Report
