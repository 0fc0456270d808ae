import Renovation.Proofs.Document.Pieces
import Renovation.Report.Overview

set_option autoImplicit false

/-!
# The overview, section by section

The text of the overview is its lines, each ended by a line feed. It opens with the totals; every
measure has a section with its heading on top, in order; the warnings come last. No line but these
begins as a heading does.
-/

namespace Renovation.Report

def ended (lines : List String) : String := String.join (lines.map (· ++ "\n"))

theorem ended_cons (line : String) (lines : List String) :
    ended (line :: lines) = line ++ "\n" ++ ended lines := String.join_cons

theorem ended_append (lines others : List String) :
    ended (lines ++ others) = ended lines ++ ended others := by
  rw [ended, List.map_append, String.join_append]
  rfl

theorem ended_flatMap {α : Type} (f : α → List String) (xs : List α) :
    ended (xs.flatMap f) = String.join (xs.map fun x => ended (f x)) := by
  induction xs with
  | nil => rfl
  | cons x xs ih => rw [List.flatMap_cons, ended_append, ih, List.map_cons, String.join_cons]

theorem intercalate_append_lineFeed {lines : List String} (h : lines ≠ []) :
    "\n".intercalate lines ++ "\n" = ended lines := by
  induction lines with
  | nil => exact absurd rfl h
  | cons line lines ih =>
    cases lines with
    | nil => simp [ended]
    | cons next lines =>
      rw [String.intercalate_cons_cons, String.append_assoc, ih (by simp), ← ended_cons]

def openingLines (p : Project Float) (budget? : Option (Budget Float))
    (label? : Option EnergyLabel.Improvement) : List String :=
  ["# Kostenoverzicht", "", "## Resultaten", ""] ++ totals p budget? label? ++ ["", "## Maatregelen"]

def bodyLines (horizon : Maintenance.Horizon) (r : MeasureResult Float) : List String :=
  r.investment.lines.map lineText ++ upkeepSection horizon r

section

variable (p : Project Float) (budget? : Option (Budget Float))
  (label? : Option EnergyLabel.Improvement)

theorem overview_eq_ended :
    overview p budget? label? = ended (overviewLines p budget? label?) :=
  intercalate_append_lineFeed (by simp [overviewLines])

theorem overview_eq_sections :
    overview p budget? label? = ended (openingLines p budget? label?) ++
      String.join (p.measures.map fun r =>
        ended (["", heading r, ""] ++ bodyLines p.horizon r)) ++
      ended (warningSection p.warnings) := by
  rw [overview_eq_ended, overviewLines, ended_append, ended_append, ended_flatMap]
  rfl

end

theorem markdown_eq_ok_iff {p : Project Float} {budget? : Option (Budget Float)}
    {label? : Option EnergyLabel.Improvement} {text : String} :
    markdown p budget? label? = .ok text ↔
      (overviewValues p).all Datum.isWritable = true ∧ overview p budget? label? = text := by
  unfold markdown
  split
  · rename_i h
    rw [and_iff_right h, Except.ok.injEq]
  · rename_i h
    exact iff_of_false nofun fun hwritable => h hwritable.1

/-- How the heading of a measure begins, and no other line of the overview. -/
def opensMeasure (line : String) : Bool := line.toList.take 4 = "### ".toList

theorem opensMeasure_heading (r : MeasureResult Float) : opensMeasure (heading r) = true := by
  simp [opensMeasure, heading, toString]

theorem opensMeasure_lineText (line : LineResult Float) : opensMeasure (lineText line) = false := by
  unfold lineText
  split <;> simp [opensMeasure, toString]

theorem opensMeasure_totals (p : Project Float) (budget? : Option (Budget Float))
    (label? : Option EnergyLabel.Improvement) :
    ∀ line ∈ totals p budget? label?, opensMeasure line = false := by
  unfold totals
  simp only [List.forall_mem_append]
  refine ⟨⟨⟨⟨?_, ?_⟩, ?_⟩, ?_⟩, ?_⟩
  · simp [opensMeasure, toString]
  · cases budget? <;> simp [opensMeasure, toString]
  · simp [opensMeasure, toString]
  · split <;> simp [opensMeasure, toString]
  · cases label? <;> simp [opensMeasure, toString]

theorem opensMeasure_upkeepSection (horizon : Maintenance.Horizon) (r : MeasureResult Float) :
    ∀ line ∈ upkeepSection horizon r, opensMeasure line = false := by
  unfold upkeepSection
  split
  · exact List.forall_mem_nil _
  · simp only [List.forall_mem_append, List.forall_mem_map]
    refine ⟨⟨?_, ?_⟩, ?_⟩
    · decide
    · simp [jobText, opensMeasure, toString]
    · simp [opensMeasure, toString]

theorem opensMeasure_warningSection (warnings : List String) :
    ∀ line ∈ warningSection warnings, opensMeasure line = false := by
  unfold warningSection
  split
  · exact List.forall_mem_nil _
  · rw [List.forall_mem_append, List.forall_mem_map]
    exact ⟨by decide, by simp [opensMeasure]⟩

theorem opensMeasure_openingLines (p : Project Float) (budget? : Option (Budget Float))
    (label? : Option EnergyLabel.Improvement) :
    ∀ line ∈ openingLines p budget? label?, opensMeasure line = false := by
  unfold openingLines
  simp only [List.forall_mem_append]
  exact ⟨⟨by decide, opensMeasure_totals p budget? label?⟩, by decide⟩

theorem opensMeasure_bodyLines (horizon : Maintenance.Horizon) (r : MeasureResult Float) :
    ∀ line ∈ bodyLines horizon r, opensMeasure line = false := by
  unfold bodyLines
  rw [List.forall_mem_append, List.forall_mem_map]
  exact ⟨fun line _ => opensMeasure_lineText line, opensMeasure_upkeepSection horizon r⟩

theorem filter_eq_nil {lines : List String} (h : ∀ line ∈ lines, opensMeasure line = false) :
    lines.filter opensMeasure = [] :=
  List.filter_eq_nil_iff.mpr fun line hline => by simp [h line hline]

theorem filter_measureSection (horizon : Maintenance.Horizon) (r : MeasureResult Float) :
    (measureSection horizon r).filter opensMeasure = [heading r] := by
  have hsection : measureSection horizon r = ["", heading r, ""] ++ bodyLines horizon r := rfl
  rw [hsection, List.filter_append, filter_eq_nil (opensMeasure_bodyLines horizon r),
    List.filter_cons_of_neg (by decide), List.filter_cons_of_pos (opensMeasure_heading r)]
  rfl

theorem filter_overviewLines (p : Project Float) (budget? : Option (Budget Float))
    (label? : Option EnergyLabel.Improvement) :
    (overviewLines p budget? label?).filter opensMeasure = p.measures.map heading := by
  have hmeasures : (p.measures.flatMap (measureSection p.horizon)).filter opensMeasure =
      p.measures.map heading := by
    rw [List.filter_flatMap, List.map_eq_flatMap]
    exact List.flatMap_congr fun r _ => filter_measureSection p.horizon r
  have hlines : overviewLines p budget? label? = openingLines p budget? label? ++
      p.measures.flatMap (measureSection p.horizon) ++ warningSection p.warnings := rfl
  rw [hlines, List.filter_append, List.filter_append, hmeasures,
    filter_eq_nil (opensMeasure_openingLines p budget? label?),
    filter_eq_nil (opensMeasure_warningSection p.warnings), List.append_nil, List.nil_append]

end Renovation.Report
