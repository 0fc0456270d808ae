import Mathlib.Data.List.Perm.Basic
import Renovation.Proofs.Measure.Upkeep
import Renovation.Proofs.PriceLine.Aggregate

set_option autoImplicit false

/-!
# The order of lines and jobs

A stored measure whose lines or jobs are stored in another order is read with the same lines and
jobs in another order. Each line is priced on its own, and a line of the upkeep meets its own job
wherever the two stand, so only sums could change; `OrderFree` says of a type of numbers that they
do not. This holds for exact numbers and not for doubles.
-/

namespace Renovation

open Outcome Maintenance

variable {α : Type}

/-- Sums and greatest numbers do not depend on the order. -/
structure OrderFree (α : Type) [Number α] : Prop where
  sum : ∀ {xs ys : List α}, xs.Perm ys → Number.sum xs = Number.sum ys
  costs : ∀ {xs ys : List (Cost α)}, xs.Perm ys → Cost.sum xs = Cost.sum ys
  greatest : ∀ {xs ys : List α}, xs.Perm ys →
    xs.foldl Number.greater 0 = ys.foldl Number.greater 0

/-! ## Lines -/

namespace Aggregate

variable [Number α]

structure Equivalent (a b : Aggregate α) : Prop where
  price : a.price = b.price
  isValid : a.isValid = b.isValid
  warnings : a.warnings.Perm b.warnings

theorem equivalent_ofLines (free : OrderFree α) {xs ys : List (LineResult α)} (h : xs.Perm ys) :
    Equivalent (ofLines xs) (ofLines ys) where
  price := free.sum ((h.filter _).map _)
  isValid := h.all_eq
  warnings := h.flatMap_right _

theorem equivalent_ofItems (free : OrderFree α) {ι : Type} (c : Circumstances)
    (price : Circumstances → ι → LineResult α) {xs ys : List ι} (h : xs.Perm ys) :
    Equivalent (ofItems c price xs) (ofItems c price ys) := by
  unfold ofItems
  rw [h.isEmpty_eq]
  cases ys.isEmpty || c.context.isNull with
  | true => exact ⟨rfl, rfl, .refl _⟩
  | false => exact equivalent_ofLines free (h.map _)

end Aggregate

/-! ## Jobs -/

namespace Maintenance

variable [Growth α] {horizon : Horizon} {inflation : α}

theorem Parts.of_perm (free : OrderFree α) {line : Job α → LineResult α} {jobs jobs' : List (Job α)}
    (perm : jobs'.Perm jobs) {parts : List (Projection α)} {p : Projection α}
    (h : Parts horizon inflation (jobs.map line) jobs parts p) :
    ∃ parts' p', Parts horizon inflation (jobs'.map line) jobs' parts' p' ∧
      p'.total = p.total ∧ p'.perYear = p.perYear ∧ p'.warnings = p.warnings := by
  obtain ⟨hp, ht, hy, -, hw⟩ := (parts_map_iff line).mp h
  obtain ⟨parts', hp', hperm⟩ := List.perm_comp_forall₂ perm hp
  have ht' : p.total = Cost.sum (parts'.map (·.total)) := ht.trans (free.costs (hperm.map _)).symm
  refine ⟨parts', ⟨p.total, p.perYear, parts'.flatMap (·.occurrences), []⟩, ?_, rfl, rfl, hw.symm⟩
  exact (parts_map_iff line).mpr ⟨hp', ht', hy, rfl, rfl⟩

end Maintenance

/-! ## Measures -/

namespace Measure

/-- Two stored measures with the same lines and the same jobs in any order, and all else alike. What
is said of the other has a text where what is said of the one has. -/
structure Reordered (stored stored' : Datum) : Prop where
  lines : (storedItems (stored'.field "measure_prices")).Perm
    (storedItems (stored.field "measure_prices"))
  jobs : (storedItems (stored'.field "mjob_prices")).Perm (storedItems (stored.field "mjob_prices"))
  others : ∀ name, name ≠ "measure_prices" → name ≠ "mjob_prices" →
    stored'.field name = stored.field name
  told : Told stored → Told stored'

theorem reordered_put {fields : Datum.Fields} {lines jobs : List Datum}
    (hl : lines.Perm (storedItems ((Datum.record fields).field "measure_prices")))
    (hj : jobs.Perm (storedItems ((Datum.record fields).field "mjob_prices"))) :
    Reordered (.record fields) (.record
      ((Entries.put "measure_prices" (.list lines) fields).put "mjob_prices" (.list jobs))) := by
  have hput (name : String) : (Datum.record ((Entries.put "measure_prices" (.list lines) fields).put
      "mjob_prices" (.list jobs))).field name =
      if name = "mjob_prices" then .list jobs
      else if name = "measure_prices" then .list lines else (Datum.record fields).field name := by
    rw [Datum.field, Entries.lookup_put, Entries.lookup_put]
    simp only [beq_iff_eq]
    split
    · rfl
    · split <;> rfl
  refine ⟨?_, ?_, ?_, fun told => ⟨?_, ?_, ?_⟩⟩
  · rw [hput]
    exact hl
  · rw [hput]
    exact hj
  · intro name hlines hjobs
    rw [hput, if_neg hjobs, if_neg hlines]
  · intro m hm
    refine told.own m ?_
    change m ∈ nameMentions _ at hm
    simp only [nameMentions, hput, String.reduceEq, if_false] at hm
    exact hm
  · rw [hput]
    exact List.forall_mem_nil _
  · rw [hput]
    exact List.forall_mem_nil _

structure SameContent (m m' : Measure α) : Prop where
  name : m'.name = m.name
  lines : m'.lines.Perm m.lines
  jobs : m'.jobs.Perm m.jobs
  heatDemand : m'.heatDemand = m.heatDemand
  nuisance : m'.nuisance = m.nuisance

theorem Reordered.read [Number α] {stored stored' : Datum} {m : Measure α}
    (h : Reordered stored stored') (hm : Measure.read stored = .ok m) :
    ∃ m' : Measure α, Measure.read stored' = .ok m' ∧ SameContent m m' := by
  obtain ⟨told, hread⟩ := read_eq_ok_iff.mp hm
  obtain ⟨lines, hlines, hl⟩ := List.perm_comp_forall₂ h.lines hread.lines
  obtain ⟨jobs, hjobs, hj⟩ := List.perm_comp_forall₂ h.jobs hread.jobs
  refine ⟨{ m with lines, jobs },
    read_eq_ok_iff.mpr ⟨h.told told, ⟨hjobs, ?_⟩, ?_, ?_, hlines, ?_⟩, rfl, hl, hj, rfl, rfl⟩
  · rw [h.others _ (by decide) (by decide)]
    exact hread.heatDemand
  · rw [storedName, h.others _ (by decide) (by decide)]
    exact hread.name
  · rw [h.others _ (by decide) (by decide)]
    exact hread.group
  · rw [h.others _ (by decide) (by decide)]
    exact hread.nuisance

end Measure

structure MeasureResult.Equivalent [Number α] (r r' : MeasureResult α) : Prop where
  name : r'.name = r.name
  isValid : r'.isValid = r.isValid
  price : r'.price = r.price
  heatDemand : r'.heatDemand = r.heatDemand
  total : r'.projection.total = r.projection.total
  perYear : r'.projection.perYear = r.projection.perYear
  nuisance : r'.nuisance = r.nuisance
  warnings : r'.warnings.Perm r.warnings

namespace Measure

variable [Growth α] {c : Calculation α}

theorem SameContent.upkeep {m m' : Measure α} (h : SameContent m m') (free : OrderFree α)
    {maintenance : Aggregate α} {p : Projection α} (hu : m.upkeep c = .ok (maintenance, p)) :
    ∃ maintenance' p', m'.upkeep c = .ok (maintenance', p') ∧
      maintenance'.warnings.Perm maintenance.warnings ∧
      p'.total = p.total ∧ p'.perYear = p.perYear ∧ p'.warnings = p.warnings := by
  rcases upkeep_eq_ok_iff.mp hu with ⟨hj, rfl, rfl⟩ | ⟨hj, rfl, parts, hp⟩
  · have hj' : m'.jobs = [] := List.perm_nil.mp (hj ▸ h.jobs)
    exact ⟨.noJobs, .empty, upkeep_eq_ok_iff.mpr (.inl ⟨hj', rfl, rfl⟩), .refl _, rfl, rfl, rfl⟩
  · have hj' : m'.jobs ≠ [] := fun hn => hj (List.nil_perm.mp (hn ▸ h.jobs))
    have hpriced : (m'.pricedJobs c.circumstances).Perm (m.pricedJobs c.circumstances) := by
      unfold pricedJobs
      split
      · exact .nil
      · exact h.jobs
    obtain ⟨parts', p', hp', ht, hy, hw⟩ := hp.of_perm free hpriced
    refine ⟨_, p', upkeep_eq_ok_iff.mpr (.inr ⟨hj', rfl, parts', hp'⟩), ?_, ht, hy, hw⟩
    exact (Aggregate.equivalent_ofItems free _ _ h.jobs).warnings

theorem SameContent.calculate {m m' : Measure α} (h : SameContent m m') (free : OrderFree α)
    {r : MeasureResult α} (hr : m.calculate c = .ok r) :
    ∃ r', m'.calculate c = .ok r' ∧ r.Equivalent r' := by
  obtain ⟨maintenance, p, reduction, hu, hheat, rfl⟩ := calculate_eq_ok_iff.mp hr
  obtain ⟨maintenance', p', hu', hm, ht, hy, hw⟩ := h.upkeep free hu
  have hi := Aggregate.equivalent_ofItems free c.circumstances LineResult.ofLine h.lines
  rw [← h.heatDemand] at hheat
  refine ⟨m'.result c maintenance' p' reduction,
    calculate_eq_ok_iff.mpr ⟨maintenance', p', reduction, hu', hheat, rfl⟩, ?_⟩
  refine ⟨h.name, hi.isValid, ?_, rfl, ht, hy, ?_, ?_⟩
  · change (if (Aggregate.ofItems c.circumstances LineResult.ofLine m'.lines).isValid then
      (Aggregate.ofItems c.circumstances LineResult.ofLine m'.lines).price else 0) = _
    rw [hi.isValid, hi.price]
    rfl
  · change calculate.nuisanceOrZero m'.nuisance = calculate.nuisanceOrZero m.nuisance
    rw [h.nuisance]
  · change (_ ++ maintenance'.warnings ++ p'.warnings).Perm
      (_ ++ maintenance.warnings ++ p.warnings)
    rw [hw]
    exact (hi.warnings.append hm).append_right _

theorem Reordered.calculateStored {stored stored' : Datum} (h : Reordered stored stored')
    (free : OrderFree α) {r : MeasureResult α} (hr : Measure.calculateStored c stored = .ok r) :
    ∃ r', Measure.calculateStored c stored' = .ok r' ∧ r.Equivalent r' := by
  obtain ⟨m, hm, hr⟩ := bind_eq_ok.mp hr
  obtain ⟨m', hm', hsame⟩ := h.read hm
  obtain ⟨r', hr', he⟩ := hsame.calculate free hr
  exact ⟨r', bind_eq_ok.mpr ⟨m', hm', hr'⟩, he⟩

end Measure

end Renovation
