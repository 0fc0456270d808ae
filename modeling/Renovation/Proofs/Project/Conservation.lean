import Mathlib.Order.Bounds.Basic
import Renovation.Proofs.Exact.Cost
import Renovation.Proofs.Measure.Upkeep
import Renovation.Proofs.PriceLine.Aggregate
import Renovation.Proofs.Project.Totals

set_option autoImplicit false

/-!
# Conservation of money

Over exact numbers no money is lost or made on its way from the lines of the measures to the totals
of a project, though a failure counts differently at each level. One line without a price takes the
investment of its whole measure out of the total; in the maintenance it takes out only itself. The
powers of the growth factor are left open.
-/

namespace Renovation

open Outcome Maintenance

/-! ## Investment -/

namespace Measure

/-- The measure counts towards the investment: it has lines, a context, and a price for each of its
lines. -/
def Counts (c : Circumstances) (m : Measure ℚ) : Prop :=
  m.lines ≠ [] ∧ c.context.isNull = false ∧
    ∀ line ∈ m.lines, (LineResult.ofLine c line).isValid = true

instance (c : Circumstances) (m : Measure ℚ) : Decidable (m.Counts c) :=
  inferInstanceAs (Decidable (_ ∧ _ ∧ _))

/-- What the lines of a measure come to, quantity times unit price. -/
def worth (c : Circumstances) (m : Measure ℚ) : ℚ :=
  (m.lines.map fun line =>
    (LineResult.ofLine c line).quantity * (LineResult.ofLine c line).unitPrice).sum

end Measure

theorem LineResult.total_of_isValid {c : Circumstances} {line : PriceLine ℚ}
    (h : (ofLine c line).isValid = true) :
    (ofLine c line).total = (ofLine c line).quantity * (ofLine c line).unitPrice := by
  rcases ofLine_complete_or_failed c line with ⟨_, _, hc, _⟩ | ⟨_, hf⟩
  · exact hc.total
  · rw [hf.isValid] at h
    cases h

namespace Measure

variable {c : Circumstances} {m : Measure ℚ}

theorem isValid_investment_iff :
    (Aggregate.ofItems c LineResult.ofLine m.lines).isValid = true ↔ m.Counts c :=
  Aggregate.isValid_ofItems_iff c LineResult.ofLine

theorem price_investment (h : m.Counts c) :
    (Aggregate.ofItems c LineResult.ofLine m.lines).price = m.worth c := by
  obtain ⟨hl, hc, hv⟩ := h
  have hi : (m.lines.isEmpty || c.context.isNull) = false := by simp [hl, hc]
  have hf : (m.lines.map (LineResult.ofLine c)).filter (·.isValid) =
      m.lines.map (LineResult.ofLine c) := by
    rw [List.filter_eq_self, List.forall_mem_map]
    exact hv
  rw [Aggregate.ofItems, hi, if_neg (by decide)]
  change Number.sum (((m.lines.map (LineResult.ofLine c)).filter (·.isValid)).map (·.total)) = _
  rw [hf, Exact.sum_eq, List.map_map, worth]
  congr 1
  exact List.map_congr_left fun line hm => LineResult.total_of_isValid (hv line hm)

end Measure

/-! ## Maintenance -/

namespace Maintenance

/-- The total is what the occurrences cost, and the yearly cost comes to it over the horizon. -/
structure Balanced (horizon : Horizon) (p : Projection ℚ) : Prop where
  total : p.total = (p.occurrences.map (·.cost)).sum
  perYear : p.perYear.scale (horizon.years : ℚ) = p.total

theorem balanced_empty (horizon : Horizon) : Balanced horizon .empty :=
  ⟨rfl, Cost.scale_zero _⟩

variable {power : ℚ → ℚ → Except Fault (Cost ℚ)} {horizon : Horizon} {inflation : ℚ}

theorem total_of_project {line : LineResult ℚ} {job : Job ℚ} {part : Projection ℚ}
    (h : @project ℚ (Exact.withPowers power) horizon inflation line job = .ok part) :
    part.total = (part.occurrences.map (·.cost)).sum := by
  let _ := Exact.withPowers power
  rcases project_eq_ok_iff.mp h with ⟨_, rfl⟩ | ⟨_, _, _, _, _, ht, _⟩
  · rfl
  · rw [ht, Cost.sum_eq]

theorem sum_totals {β : Type} {total : β → Cost ℚ} {occurrences : β → List (Occurrence ℚ)}
    {xs : List β} (h : ∀ x ∈ xs, total x = ((occurrences x).map (·.cost)).sum) :
    (xs.map total).sum = ((xs.flatMap occurrences).map (·.cost)).sum := by
  rw [List.map_congr_left h, List.map_flatMap, List.flatMap_def, List.sum_flatten, List.map_map]
  rfl

theorem Parts.balanced {lines : List (LineResult ℚ)} {jobs : List (Job ℚ)}
    {parts : List (Projection ℚ)} {p : Projection ℚ}
    (h : @Parts ℚ (Exact.withPowers power) horizon inflation lines jobs parts p) :
    Balanced horizon p := by
  let _ := Exact.withPowers power
  have hparts := forall_mem_of_forall₂ h.projected fun _ _ => total_of_project
  constructor
  · rw [h.total, Cost.sum_eq, sum_totals hparts, h.occurrences]
  · obtain ⟨hy, share, hs, hp⟩ := spread_eq_ok_iff.mp h.perYear
    cases hs
    rw [hp]
    exact Cost.scale_divide (Int.cast_ne_zero.mpr hy) _

end Maintenance

/-! ## Totals -/

namespace Measure

/-- A calculated measure adds its worth to the investment if it counts and nothing if it does not,
and its projection balances. -/
structure Conserved (c : Calculation ℚ) (m : Measure ℚ) (r : MeasureResult ℚ) : Prop where
  price : r.price = if m.Counts c.circumstances then m.worth c.circumstances else 0
  projection : Balanced c.horizon r.projection

theorem conserved_of_calculate {power : ℚ → ℚ → Except Fault (Cost ℚ)} {c : Calculation ℚ}
    {m : Measure ℚ} {r : MeasureResult ℚ}
    (h : @Measure.calculate ℚ (Exact.withPowers power) c m = .ok r) : Conserved c m r := by
  let _ := Exact.withPowers power
  obtain ⟨maintenance, p, reduction, hu, -, rfl⟩ := calculate_eq_ok_iff.mp h
  constructor
  · change (if (Aggregate.ofItems c.circumstances LineResult.ofLine m.lines).isValid then
      (Aggregate.ofItems c.circumstances LineResult.ofLine m.lines).price else 0) = _
    by_cases hc : m.Counts c.circumstances
    · rw [if_pos (isValid_investment_iff.mpr hc), if_pos hc, price_investment hc]
    · rw [if_neg (mt isValid_investment_iff.mp hc), if_neg hc]
  · rcases upkeep_eq_ok_iff.mp hu with ⟨_, _, hp⟩ | ⟨_, _, _, hp⟩
    · change Balanced c.horizon p
      rw [hp]
      exact balanced_empty _
    · exact hp.balanced

end Measure

namespace Project

theorem isGreatest_foldl_greater (x : ℚ) (xs : List ℚ) :
    IsGreatest {y | y = x ∨ y ∈ xs} (xs.foldl Number.greater x) := by
  induction xs generalizing x with
  | nil => simp [IsGreatest, upperBounds]
  | cons z rest ih =>
    rw [List.foldl_cons, Exact.greater_eq_max]
    obtain ⟨hm, hb⟩ := ih (max x z)
    constructor
    · rcases hm with hm | hm
      · rw [hm]
        rcases max_choice x z with h | h
        · exact .inl h
        · rw [h]
          exact .inr List.mem_cons_self
      · exact .inr (List.mem_cons_of_mem _ hm)
    · have hx : max x z ≤ rest.foldl Number.greater (max x z) := hb (.inl rfl)
      rintro y (rfl | hy)
      · exact (le_max_left y z).trans hx
      · rcases List.mem_cons.mp hy with rfl | hy
        · exact (le_max_right x y).trans hx
        · exact hb (.inr hy)

theorem map_price_of_conserved {c : Calculation ℚ} {ms : List (Measure ℚ)}
    {rs : List (MeasureResult ℚ)} (h : List.Forall₂ (Measure.Conserved c) ms rs) :
    rs.map (·.price) =
      ms.map fun m => if m.Counts c.circumstances then m.worth c.circumstances else 0 :=
  (map_eq_of_forall₂ h fun _ _ h => h.price.symm).symm

/-- The investment of a project is what those measures are worth that count. Its maintenance is what
the occurrences of all its measures cost, and the yearly cost comes to it over the horizon. The cost
of ownership is both together, and the highest nuisance is the greatest of zero and theirs. -/
theorem calculate_conserves_money (power : ℚ → ℚ → Except Fault (Cost ℚ)) (c : Calculation ℚ)
    (measures : List Datum) (p : Project ℚ)
    (returns : @Project.calculate ℚ (Exact.withPowers power) c measures = .ok p) :
    (∃ ms : List (Measure ℚ),
      List.Forall₂ (fun stored m => Measure.read stored = .ok m) measures ms ∧
      p.investment = (ms.map fun m =>
        if m.Counts c.circumstances then m.worth c.circumstances else 0).sum) ∧
    List.Forall₂ (fun stored r =>
      @Measure.calculateStored ℚ (Exact.withPowers power) c stored = .ok r) measures p.measures ∧
    p.maintenance = ((p.measures.flatMap (·.projection.occurrences)).map (·.cost)).sum ∧
    p.maintenancePerYear.scale (c.horizon.years : ℚ) = p.maintenance ∧
    p.costOfOwnership = .real p.investment + p.maintenance ∧
    IsGreatest {x | x = 0 ∨ ∃ r ∈ p.measures, x = r.nuisance} p.highestNuisance := by
  let _ := Exact.withPowers power
  obtain ⟨-, rs, hrs, rfl⟩ := calculate_eq_ok_iff.mp returns
  obtain ⟨ms, hms, hcalc⟩ := exists_measures hrs
  have hc : List.Forall₂ (Measure.Conserved c) ms rs :=
    hcalc.imp fun _ _ => Measure.conserved_of_calculate
  have htotal : ∀ r ∈ rs, r.projection.total = (r.projection.occurrences.map (·.cost)).sum :=
    forall_mem_of_forall₂ hc fun _ _ h => h.projection.total
  have hyear : ∀ r ∈ rs, r.projection.perYear.scale (c.horizon.years : ℚ) = r.projection.total :=
    forall_mem_of_forall₂ hc fun _ _ h => h.projection.perYear
  rw [ofResults_eq]
  refine ⟨⟨ms, hms, ?_⟩, hrs, ?_, ?_, rfl, ?_⟩
  · rw [Exact.sum_eq, map_price_of_conserved hc]
  · rw [Cost.sum_eq, sum_totals htotal]
  · dsimp only
    rw [Cost.sum_eq, Cost.sum_eq, Cost.scale_sum, List.map_map]
    exact congrArg List.sum (List.map_congr_left hyear)
  · have h := isGreatest_foldl_greater 0 (rs.map (·.nuisance))
    simpa only [List.mem_map, eq_comm] using h

theorem calculate_conserves_beside_failure :
    let _ : Growth ℚ := Exact.withPowers Exact.wholePower
    let item (formula : List Formula.Token) : Datum := .record
      [("calculation", Formula.stored formula), ("price", .real 3.0), ("cycle", .real 2.0)]
    let count := item [.operand "aantal"]
    let share := item [.operand "aantal", .operator .dividedBy, .operand "nul"]
    let roof : Datum := .record [("measure_prices", .list [count, count]), ("nuisance", .real 2.0)]
    let wall : Datum := .record
      [("measure_prices", .list [count, share]), ("mjob_prices", .list [count])]
    let c : Calculation ℚ :=
      { circumstances := { context := .record [("aantal", .real 2.0), ("nul", .real 0.0)] }
        inflation := 100, horizon := ⟨3⟩ }
    ∃ p, Project.calculate c [roof, wall] = .ok p ∧ p.investment = 12 ∧
      p.costOfOwnership = .real 12 + p.maintenance ∧
      p.maintenancePerYear.scale 3 = p.maintenance ∧ p.measures.length = 2 := by
  intro _ item count share roof wall c
  obtain ⟨p, hp⟩ : ∃ p, Project.calculate c [roof, wall] = .ok p :=
    exists_of_isOk (by decide +kernel)
  have hinvestment : p.investment = 12 := by
    have h : (Project.calculate c [roof, wall]).toOption.map (·.investment) = some 12 := by
      decide +kernel
    rw [hp] at h
    exact Option.some.inj h
  obtain ⟨_, hresults, _, hyear, hboth, _⟩ :=
    calculate_conserves_money Exact.wholePower c [roof, wall] p hp
  rw [hinvestment] at hboth
  exact ⟨p, hp, hinvestment, hboth, hyear, hresults.length_eq.symm⟩

end Project

end Renovation
