import Renovation.Proofs.Measure.Order
import Renovation.Proofs.Project.Conservation

set_option autoImplicit false

/-!
# The order of a project

Over exact numbers the totals of a project do not depend on any order: not on that of its measures,
nor on that of the lines or the jobs in one of them. What is listed stays the same up to order.
-/

namespace Renovation

open Outcome Maintenance

variable {α : Type}

namespace Project

/-- Two projects with the same totals, and the same names, prices and warnings in any order. -/
structure SameTotals [Number α] (p p' : Project α) : Prop where
  investment : p'.investment = p.investment
  heatDemand : p'.heatDemand = p.heatDemand
  maintenance : p'.maintenance = p.maintenance
  maintenancePerYear : p'.maintenancePerYear = p.maintenancePerYear
  highestNuisance : p'.highestNuisance = p.highestNuisance
  costOfOwnership : p'.costOfOwnership = p.costOfOwnership
  invalidMeasures : p'.invalidMeasures.Perm p.invalidMeasures
  prices : (p'.measures.map (·.price)).Perm (p.measures.map (·.price))
  warnings : p'.warnings.Perm p.warnings

theorem invalidMeasures_ofResults [Number α] (horizon : Horizon) (rs : List (MeasureResult α)) :
    (ofResults horizon rs).invalidMeasures =
      ((rs.map fun r => (r.name, r.isValid)).filter (!·.2)).map (·.1) := by
  rw [ofResults_eq, invalidMeasures, List.filter_map, List.map_map]
  rfl

theorem sameTotals_of_equivalent [Number α] (free : OrderFree α) (horizon : Horizon)
    {rs found rs' : List (MeasureResult α)} (perm : found.Perm rs)
    (same : List.Forall₂ MeasureResult.Equivalent found rs') :
    SameTotals (ofResults horizon rs) (ofResults horizon rs') := by
  have image {β : Type} (f : MeasureResult α → β)
      (hf : ∀ r r', r.Equivalent r' → f r = f r') : (rs'.map f).Perm (rs.map f) := by
    rw [← map_eq_of_forall₂ same hf]
    exact perm.map f
  have hprices := image (·.price) fun _ _ h => h.price.symm
  have hinvestment := free.sum hprices
  have hmaintenance := free.costs (image (·.projection.total) fun _ _ h => h.total.symm)
  have hinvalid := image (fun r => (r.name, r.isValid)) fun _ _ h => by rw [h.name, h.isValid]
  have hwarnings : (rs'.flatMap fun r => r.warnings.map fun message => s!"{r.name}: {message}").Perm
      (found.flatMap fun r => r.warnings.map fun message => s!"{r.name}: {message}") := by
    apply List.Perm.flatten_congr
    rw [List.forall₂_map_left_iff, List.forall₂_map_right_iff]
    refine same.flip.imp fun r' r h => ?_
    rw [h.name]
    exact h.warnings.map _
  refine ⟨?_, ?_, ?_, ?_, ?_, ?_, ?_, ?_, ?_⟩
  · rw [ofResults_eq, ofResults_eq]
    exact hinvestment
  · rw [ofResults_eq, ofResults_eq]
    exact free.sum (image (·.heatDemand) fun _ _ h => h.heatDemand.symm)
  · rw [ofResults_eq, ofResults_eq]
    exact hmaintenance
  · rw [ofResults_eq, ofResults_eq]
    exact free.costs (image (·.projection.perYear) fun _ _ h => h.perYear.symm)
  · rw [ofResults_eq, ofResults_eq]
    exact free.greatest (image (·.nuisance) fun _ _ h => h.nuisance.symm)
  · rw [ofResults_eq, ofResults_eq]
    exact congrArg₂ (fun investment maintenance => Cost.real investment + maintenance)
      hinvestment hmaintenance
  · rw [invalidMeasures_ofResults, invalidMeasures_ofResults]
    exact (hinvalid.filter _).map _
  · rw [ofResults_eq, ofResults_eq]
    exact hprices
  · rw [ofResults_eq, ofResults_eq]
    exact hwarnings.trans (perm.flatMap_right _)

theorem exists_equivalent [Growth α] (free : OrderFree α) {c : Calculation α}
    {measures measures' : List Datum} {rs : List (MeasureResult α)}
    (reordered : List.Forall₂ Measure.Reordered measures measures')
    (h : List.Forall₂ (fun stored r => Measure.calculateStored c stored = .ok r) measures rs) :
    ∃ rs', List.Forall₂ (fun stored r => Measure.calculateStored c stored = .ok r) measures' rs' ∧
      List.Forall₂ MeasureResult.Equivalent rs rs' := by
  induction reordered generalizing rs with
  | nil =>
    cases h
    exact ⟨[], .nil, .nil⟩
  | cons hd _ ih =>
    cases h with
    | cons hr ht =>
      obtain ⟨r', hr', he⟩ := hd.calculateStored free hr
      obtain ⟨rs', hrs', hes⟩ := ih ht
      exact ⟨r' :: rs', .cons hr' hrs', .cons he hes⟩

end Project

theorem Exact.orderFree : OrderFree ℚ where
  sum h := by
    rw [sum_eq, sum_eq]
    exact h.sum_eq
  costs h := by
    rw [Cost.sum_eq, Cost.sum_eq]
    exact h.sum_eq
  greatest {xs ys} h := by
    have hs := Project.isGreatest_foldl_greater 0 xs
    simp only [h.mem_iff] at hs
    exact hs.unique (Project.isGreatest_foldl_greater 0 ys)

namespace Project

/-- A project that is calculated can also be calculated with its measures in another order and the
lines and jobs of each measure in another order, and has the same totals then. -/
theorem calculate_of_reordered (power : ℚ → ℚ → Except Fault (Cost ℚ)) (c : Calculation ℚ)
    (measures permuted measures' : List Datum) (p : Project ℚ)
    (returns : @Project.calculate ℚ (Exact.withPowers power) c measures = .ok p)
    (perm : permuted.Perm measures)
    (reordered : List.Forall₂ Measure.Reordered permuted measures') :
    ∃ p', @Project.calculate ℚ (Exact.withPowers power) c measures' = .ok p' ∧ SameTotals p p' := by
  let _ := Exact.withPowers power
  obtain ⟨told, rs, hrs, rfl⟩ := calculate_eq_ok_iff.mp returns
  obtain ⟨found, hfound, hperm⟩ := List.perm_comp_forall₂ perm hrs
  obtain ⟨rs', hrs', hes⟩ := exists_equivalent Exact.orderFree reordered hfound
  exact ⟨_, calculate_eq_ok_iff.mpr ⟨told, rs', hrs', rfl⟩,
    sameTotals_of_equivalent Exact.orderFree c.horizon hperm hes⟩

theorem calculate_turned_round :
    let _ : Growth ℚ := Exact.withPowers Exact.wholePower
    let item (name : String) (formula : List Formula.Token) : Datum := .record
      [("name", .text name), ("calculation", Formula.stored formula), ("price", .real 3.0),
        ("cycle", .real 2.0)]
    let count := item "Aantal" [.operand "aantal"]
    let share := item "Deel" [.operand "aantal", .operator .dividedBy, .operand "nul"]
    let roof : Datum.Fields := [("measure_prices", .list [count, share])]
    let wall : Datum.Fields :=
      [("measure_prices", .list [count]), ("mjob_prices", .list [share, .whole 5, count])]
    let put (lines jobs : List Datum) (fields : Datum.Fields) : Datum := .record
      ((Entries.put "measure_prices" (.list lines) fields).put "mjob_prices" (.list jobs))
    let c : Calculation ℚ :=
      { circumstances := { context := .record [("aantal", .real 2.0), ("nul", .real 0.0)] }
        inflation := 100, horizon := ⟨3⟩ }
    let measures := [.record roof, .record wall]
    let permuted := [.record wall, .record roof]
    let measures' := [put [count] [count, .whole 5, share] wall, put [share, count] [] roof]
    permuted.Perm measures ∧ List.Forall₂ Measure.Reordered permuted measures' ∧
      ∃ p p', Project.calculate c measures = .ok p ∧ Project.calculate c measures' = .ok p' ∧
        SameTotals p p' := by
  intro _ item count share roof wall put c measures permuted measures'
  have perm : permuted.Perm measures := .swap _ _ _
  have hwall : [count, .whole 5, share].Perm [share, .whole 5, count] :=
    List.reverse_perm [share, .whole 5, count]
  have reordered : List.Forall₂ Measure.Reordered permuted measures' :=
    .cons (Measure.reordered_put (.refl _) hwall)
      (.cons (Measure.reordered_put (.swap _ _ _) .nil) .nil)
  obtain ⟨p, hp⟩ : ∃ p, Project.calculate c measures = .ok p := exists_of_isOk (by decide +kernel)
  obtain ⟨p', hp', same⟩ :=
    calculate_of_reordered Exact.wholePower c measures permuted measures' p hp perm reordered
  exact ⟨perm, reordered, p, p', hp, hp', same⟩

end Project

end Renovation
