import Renovation.Text.CaseTable

set_option autoImplicit false

/-!
# Lower case

Lower case of a whole text. Two characters depend on more than themselves: the dotted capital I
becomes two characters, and a capital sigma at the end of a word takes its final form.
-/

namespace Renovation.Text

def inRuns (runs : Array (Nat × Nat)) (c : Char) : Bool :=
  runs.any fun run => run.1 ≤ c.toNat && c.toNat ≤ run.2

def CaseRun.covers (run : CaseRun) (n : Nat) : Bool :=
  run.first ≤ n && n ≤ run.last && (n - run.first) % run.step == 0

def lowerChar (c : Char) : Char :=
  let n := c.toNat
  if n < 128 then c.toLower
  else
    match lowerRuns.find? (·.covers n) with
    | some run => Char.ofNat (n + run.shift).toNat
    | none => c

def nearestIsCased (cs : List Char) : Bool :=
  match cs.dropWhile (inRuns skippedRuns) with
  | c :: _ => inRuns casedRuns c
  | [] => false

/-- `before` holds the characters already passed, the nearest first. -/
def lowerFrom (before : List Char) : List Char → List Char
  | [] => []
  | c :: rest =>
    let lowered :=
      if c == '\u03A3' then
        [if nearestIsCased before && !nearestIsCased rest then '\u03C2' else '\u03C3']
      else if c == '\u0130' then ['i', '\u0307']
      else [lowerChar c]
    lowered ++ lowerFrom (c :: before) rest

def lower (s : String) : String := String.ofList (lowerFrom [] s.toList)

end Renovation.Text
