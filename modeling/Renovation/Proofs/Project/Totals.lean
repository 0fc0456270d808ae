import Renovation.Project
import Renovation.Proofs.Datum.Conversion

set_option autoImplicit false

/-!
# Totals of a project

A project is calculated measure by measure, and its totals are sums over the results from the left.
-/

namespace Renovation.Project

open Outcome

variable {α : Type}

theorem foldl_add [Number α] (p : Project α) (rs : List (MeasureResult α)) :
    rs.foldl add p = {
      investment := (rs.map (·.price)).foldl (· + ·) p.investment
      heatDemand := (rs.map (·.heatDemand)).foldl (· + ·) p.heatDemand
      maintenance := (rs.map (·.projection.total)).foldl (· + ·) p.maintenance
      maintenancePerYear := (rs.map (·.projection.perYear)).foldl (· + ·) p.maintenancePerYear
      highestNuisance := (rs.map (·.nuisance)).foldl Number.greater p.highestNuisance
      horizon := p.horizon
      measures := p.measures ++ rs
      warnings := p.warnings ++
        rs.flatMap fun r => r.warnings.map fun message => s!"{r.name}: {message}" } := by
  induction rs generalizing p with
  | nil => simp only [List.flatMap_nil, List.append_nil]; rfl
  | cons r rest ih =>
    rw [List.foldl_cons, ih, List.flatMap_cons, ← List.append_assoc, List.append_cons]
    rfl

theorem ofResults_eq [Number α] (horizon : Maintenance.Horizon) (rs : List (MeasureResult α)) :
    ofResults horizon rs = {
      investment := Number.sum (rs.map (·.price))
      heatDemand := Number.sum (rs.map (·.heatDemand))
      maintenance := Cost.sum (rs.map (·.projection.total))
      maintenancePerYear := Cost.sum (rs.map (·.projection.perYear))
      highestNuisance := (rs.map (·.nuisance)).foldl Number.greater 0
      horizon := horizon
      measures := rs
      warnings := rs.flatMap fun r => r.warnings.map fun message => s!"{r.name}: {message}" } :=
  foldl_add (empty horizon) rs

theorem calculate_eq_ok_iff [Growth α] {c : Calculation α} {measures : List Datum} {p : Project α} :
    calculate c measures = .ok p ↔ (Datum.whole c.horizon.years).isWritable = true ∧ ∃ rs,
      List.Forall₂ (fun stored r => Measure.calculateStored c stored = .ok r) measures rs ∧
        p = ofResults c.horizon rs := by
  unfold calculate
  simp only [bind_eq_ok, mapM_eq_ok_iff, pure_eq, Except.ok.injEq, Datum.requireWritable_eq_ok_iff,
    exists_const, @eq_comm _ p]
  constructor
  · rintro ⟨rs, hrs, told, hp⟩
    exact ⟨told, rs, hrs, hp⟩
  · rintro ⟨told, rs, hrs, hp⟩
    exact ⟨rs, hrs, told, hp⟩

theorem exists_measures [Growth α] {c : Calculation α} {measures : List Datum}
    {rs : List (MeasureResult α)}
    (h : List.Forall₂ (fun stored r => Measure.calculateStored c stored = .ok r) measures rs) :
    ∃ ms, List.Forall₂ (fun stored m => Measure.read stored = .ok m) measures ms ∧
      List.Forall₂ (fun m r => m.calculate c = .ok r) ms rs := by
  induction h with
  | nil => exact ⟨[], .nil, .nil⟩
  | cons h _ ih =>
    obtain ⟨m, hm, hr⟩ := bind_eq_ok.mp h
    obtain ⟨ms, hms, hrs⟩ := ih
    exact ⟨m :: ms, .cons hm hms, .cons hr hrs⟩

end Renovation.Project
