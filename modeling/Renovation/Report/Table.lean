import Renovation.Project
import Renovation.Report.Amount

set_option autoImplicit false

/-!
# The table of measures

One row for each measure of a project. `Row` holds the values, `Cell` what a column shows of them: a
column whose cells are all numbers shows them alike, so that one double makes doubles of whole
numbers and one complex number makes complex numbers of doubles.
-/

namespace Renovation.Report

structure Row (α : Type) where
  measure : String
  group : Datum
  investment : α
  isValid : Bool
  /-- The upkeep for one occurrence of each job; none where every job failed. -/
  perOccurrence : Option α
  maintenance : Cost α
  maintenancePerYear : Cost α
  heatDemand : α
  nuisance : α
  errors : String

variable {α : Type} [Number α]

/-- The price of the lines that are valid, none if there are lines but none of them is. -/
def priceIfAny (a : Aggregate α) : Option α :=
  if !a.lines.isEmpty && a.lines.all (!·.isValid) then none else some a.price

def Row.ofResult (r : MeasureResult α) : Row α where
  measure := r.name
  group := r.group
  investment := r.price
  isValid := r.isValid
  perOccurrence := priceIfAny r.maintenance
  maintenance := r.projection.total
  maintenancePerYear := r.projection.perYear
  heatDemand := r.heatDemand
  nuisance := r.nuisance
  errors := r.investment.error.getD ""

def rows (p : Project α) : List (Row α) := p.measures.map Row.ofResult

inductive Cell where
  | flag (value : Bool)
  | whole (value : Int)
  | real (value : Float)
  | complex (re im : Float)
  | text (value : String)
  /-- A list or record. -/
  | stored (value : Datum)

namespace Cell

def ofDatum : Datum → Cell
  | .flag b => flag b
  | .whole n => whole n
  | .real x => real x
  | .text s => text s
  | d => stored d

def ofCost : Cost Float → Cell
  | .real x => real x
  | .complex re im => complex re im

/-- Where every job failed, a zero without a fraction. -/
def ofPrice : Option Float → Cell
  | some x => real x
  | none => whole 0

def fitsWord (n : Int) : Bool := -(Decimal.twoTo 63 : Int) ≤ n && n < (Decimal.twoTo 64 : Int)

def isNumber : Cell → Bool
  | whole n => fitsWord n
  | real _ | complex _ _ => true
  | _ => false

def isWhole : Cell → Bool
  | whole _ => true
  | _ => false

def isComplex : Cell → Bool
  | complex _ _ => true
  | _ => false

def toReal : Cell → Cell
  | whole n => real (Float.ofInt n)
  | c => c

def toComplex (c : Cell) : Cell :=
  match c.toReal with
  | real x => complex x 0.0
  | c => c

def settle (cells : List Cell) : List Cell :=
  if !cells.all isNumber || cells.all isWhole then cells
  else if cells.any isComplex then cells.map toComplex
  else cells.map toReal

theorem length_settle (cells : List Cell) : (settle cells).length = cells.length := by
  unfold settle
  split
  · rfl
  · split <;> exact List.length_map _

theorem settle_of_kept {cells : List Cell} (hreal : ∀ c ∈ cells, c.toReal = c)
    (hcomplex : ∀ c ∈ cells, c.isComplex = false) : settle cells = cells := by
  have hany : cells.any isComplex = false := List.any_eq_false.mpr fun c hc => by simp [hcomplex c hc]
  unfold settle
  split
  · rfl
  · rw [hany, if_neg (by decide)]
    exact (List.map_congr_left hreal).trans (List.map_id' cells)

def isUndefined (x : Float) : Bool := x != x

def partText (x : Float) : String := Decimal.shortestText .bare x

def complexText (re im : Float) : String :=
  if re.toBits == 0 then partText im ++ "j"
  else s!"({partText re}{withSign (partText im)}j)"

def toText : Cell → String
  | flag b => Datum.shownFlag b
  | whole n => toString n
  | real x => if isUndefined x then "" else Decimal.shortestText .plain x
  | complex re im => if isUndefined re || isUndefined im then "" else complexText re im
  | text s => s
  | stored d => d.shown

def isWritable : Cell → Bool
  | whole n => (Datum.whole n).isWritable
  | stored d => d.isWritable
  | _ => true

end Cell

def columns : List (String × (Row Float → Cell)) :=
  [("measure", fun r => .text r.measure),
    ("group", fun r => .ofDatum r.group),
    ("investment", fun r => .real r.investment),
    ("investment_valid", fun r => .flag r.isValid),
    ("maintenance_per_occurrence", fun r => .ofPrice r.perOccurrence),
    ("maintenance_40_years", fun r => .ofCost r.maintenance),
    ("maintenance_per_year", fun r => .ofCost r.maintenancePerYear),
    ("heat_demand", fun r => .real r.heatDemand),
    ("nuisance", fun r => .real r.nuisance),
    ("errors", fun r => .text r.errors)]

def columnNames : List String := columns.map (·.1)

def columnTexts (rows : List (Row Float)) (cell : Row Float → Cell) : List String :=
  (Cell.settle (rows.map cell)).map Cell.toText

def cells (p : Project Float) (row : Nat) : List Cell :=
  columns.map fun column => (Cell.settle ((rows p).map column.2)).getD row (.text "")

def records (p : Project Float) : List (List String) :=
  let rows := rows p
  let texts := columns.map fun column => columnTexts rows column.2
  columnNames :: (List.range rows.length).map fun i => texts.map fun column => column.getD i ""

end Renovation.Report
