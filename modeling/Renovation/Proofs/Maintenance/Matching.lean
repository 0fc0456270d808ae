import Renovation.Maintenance.Projection
import Renovation.Proofs.Outcome

set_option autoImplicit false

/-!
# Lines and their jobs

What a projection is made of. One line is projected to a part; the lines of a measure are matched
with its jobs by place and by name, and their parts are added up. Where the names agree place by
place nothing is skipped: there is one part for each job, the total is the sum of their totals, and
the occurrences follow one another in the order of the jobs.
-/

namespace Renovation.Maintenance

open Outcome

variable {α : Type}

section

variable [Number α]

def Horizon.Usable (α : Type) [Number α] (horizon : Horizon) : Prop :=
  horizon.years ≠ 0 ∧ ∃ share : α, Number.ofWhole horizon.years = .ok share

theorem spread_eq_ok_iff {horizon : Horizon} {total perYear : Cost α} :
    spread horizon total = .ok perYear ↔ horizon.years ≠ 0 ∧
      ∃ share : α, Number.ofWhole horizon.years = .ok share ∧ perYear = total.divide share := by
  unfold spread
  by_cases hy : horizon.years = 0
  · simp [hy]
  · rw [if_neg (by simpa using hy), bind_eq_ok]
    constructor
    · rintro ⟨share, hs, h⟩
      exact ⟨hy, share, hs, (Except.ok.inj h).symm⟩
    · rintro ⟨_, share, hs, rfl⟩
      exact ⟨share, hs, rfl⟩

theorem spread_returns_iff {horizon : Horizon} {total : Cost α} :
    (∃ perYear, spread horizon total = .ok perYear) ↔ horizon.Usable α := by
  simp only [spread_eq_ok_iff, Horizon.Usable]
  constructor
  · rintro ⟨_, hy, share, hs, _⟩
    exact ⟨hy, share, hs⟩
  · rintro ⟨hy, share, hs⟩
    exact ⟨_, hy, share, hs, rfl⟩

end

variable [Growth α]

/-! ## One line -/

def share (horizon : Horizon) (found : List (Occurrence α)) : Except Fault (Cost α) :=
  if found.isEmpty then spreadNothing horizon else spread horizon (Cost.sum (found.map (·.cost)))

theorem project_of_invalid (horizon : Horizon) (inflation : α) {line : LineResult α} (job : Job α)
    (h : line.isValid = false) : project horizon inflation line job = .ok .empty := by
  unfold project
  rw [h]
  rfl

theorem project_of_valid (horizon : Horizon) (inflation : α) {line : LineResult α} (job : Job α)
    (h : line.isValid = true) : project horizon inflation line job =
      (dueYears horizon job >>= fun years =>
        Maintenance.occurrences line.total (growthFactor inflation) years >>= fun found =>
          share horizon found >>= fun perYear =>
            pure ⟨Cost.sum (found.map (·.cost)), perYear, found, []⟩) := by
  unfold project share
  rw [h, if_neg (by decide)]
  congr 1
  funext years
  congr 1
  funext found
  dsimp only
  split <;> rfl

/-- A part is empty if the line is invalid; else it holds the occurrences of the due years and their
sum. -/
theorem project_eq_ok_iff {horizon : Horizon} {inflation : α} {line : LineResult α} {job : Job α}
    {part : Projection α} : project horizon inflation line job = .ok part ↔
      (line.isValid = false ∧ part = .empty) ∨
      line.isValid = true ∧ ∃ years, dueYears horizon job = .ok years ∧
        Maintenance.occurrences line.total (growthFactor inflation) years = .ok part.occurrences ∧
        share horizon part.occurrences = .ok part.perYear ∧
        part.total = Cost.sum (part.occurrences.map (·.cost)) ∧ part.warnings = [] := by
  cases hv : line.isValid with
  | false =>
    rw [project_of_invalid horizon inflation job hv, Except.ok.injEq]
    constructor
    · exact fun h => .inl ⟨rfl, h.symm⟩
    · rintro (⟨_, h⟩ | ⟨h, _⟩)
      · exact h.symm
      · cases h
  | true =>
    rw [project_of_valid horizon inflation job hv]
    simp only [bind_eq_ok, pure_eq, Except.ok.injEq]
    constructor
    · rintro ⟨years, hy, found, hf, perYear, hp, rfl⟩
      exact .inr ⟨trivial, years, hy, hf, hp, rfl, rfl⟩
    · rintro (⟨h, _⟩ | ⟨_, years, hy, hf, hp, ht, hw⟩)
      · cases h
      · exact ⟨years, hy, _, hf, _, hp, by rw [← ht, ← hw]⟩

/-! ## All lines -/

def Projection.join (p part : Projection α) : Projection α :=
  { p with total := p.total + part.total, occurrences := p.occurrences ++ part.occurrences }

theorem Projection.foldl_join (p : Projection α) (parts : List (Projection α)) :
    parts.foldl join p = ⟨(parts.map (·.total)).foldl (· + ·) p.total, p.perYear,
      p.occurrences ++ parts.flatMap (·.occurrences), p.warnings⟩ := by
  induction parts generalizing p with
  | nil => rw [List.flatMap_nil, List.append_nil]; rfl
  | cons part rest ih =>
    rw [List.foldl_cons, ih, List.flatMap_cons, ← List.append_assoc]
    rfl

def SameNames (lines : List (LineResult α)) (jobs : List (Job α)) : Prop :=
  List.Forall₂ (fun line job => line.name = job.name) lines jobs

theorem combine_of_sameNames (horizon : Horizon) (inflation : α) (combined : Projection α)
    {lines : List (LineResult α)} {jobs : List (Job α)} (names : SameNames lines jobs) :
    combine horizon inflation combined lines (jobs.map some) =
      ((lines.zip jobs).mapM fun pair => project horizon inflation pair.1 pair.2) >>= fun parts =>
        pure (parts.foldl Projection.join combined) := by
  induction names generalizing combined with
  | nil => rfl
  | @cons line job lines jobs hname names ih =>
    have hjob : jobFor? line ((job :: jobs).map some).head?.join = some job := by
      simp [jobFor?, hname]
    rw [combine, hjob, List.zip_cons_cons, List.mapM_cons]
    dsimp only
    rw [bind_assoc]
    congr 1
    funext part
    rw [bind_assoc]
    exact ih _

/-- The parts of a projection, one for each line with the job in its place. -/
structure Parts (horizon : Horizon) (inflation : α) (lines : List (LineResult α))
    (jobs : List (Job α)) (parts : List (Projection α)) (p : Projection α) : Prop where
  projected : List.Forall₂ (fun pair part => project horizon inflation pair.1 pair.2 = .ok part)
    (lines.zip jobs) parts
  total : p.total = Cost.sum (parts.map (·.total))
  perYear : spread horizon p.total = .ok p.perYear
  occurrences : p.occurrences = parts.flatMap (·.occurrences)
  warnings : p.warnings = []

theorem projectLines_eq_ok_iff {horizon : Horizon} {inflation : α} {lines : List (LineResult α)}
    {jobs : List (Job α)} (names : SameNames lines jobs) {p : Projection α} :
    projectLines horizon inflation lines (jobs.map some) = .ok p ↔
      ∃ parts, Parts horizon inflation lines jobs parts p := by
  unfold projectLines
  rw [combine_of_sameNames horizon inflation .empty names]
  simp only [bind_eq_ok, pure_eq, Except.ok.injEq, mapM_eq_ok_iff, Projection.foldl_join]
  constructor
  · rintro ⟨_, ⟨parts, hparts, rfl⟩, perYear, hp, rfl⟩
    exact ⟨parts, hparts, rfl, hp, rfl, rfl⟩
  · rintro ⟨parts, hparts, ht, hp, ho, hw⟩
    rw [ht] at hp
    refine ⟨_, ⟨parts, hparts, rfl⟩, p.perYear, hp, ?_⟩
    obtain ⟨total, perYear, occurrences, warnings⟩ := p
    cases ht
    cases ho
    cases hw
    rfl

theorem parts_map_iff {horizon : Horizon} {inflation : α} (line : Job α → LineResult α)
    {jobs : List (Job α)} {parts : List (Projection α)} {p : Projection α} :
    Parts horizon inflation (jobs.map line) jobs parts p ↔
      List.Forall₂ (fun job part => project horizon inflation (line job) job = .ok part) jobs parts ∧
      p.total = Cost.sum (parts.map (·.total)) ∧ spread horizon p.total = .ok p.perYear ∧
      p.occurrences = parts.flatMap (·.occurrences) ∧ p.warnings = [] := by
  have hzip : (jobs.map line).zip jobs = jobs.map fun job => (line job, job) :=
    List.map_prod_right_eq_zip.symm
  constructor
  · intro h
    have hp := h.projected
    rw [hzip, List.forall₂_map_left_iff] at hp
    exact ⟨hp, h.total, h.perYear, h.occurrences, h.warnings⟩
  · rintro ⟨hp, ht, hy, ho, hw⟩
    refine ⟨?_, ht, hy, ho, hw⟩
    rw [hzip, List.forall₂_map_left_iff]
    exact hp

theorem exists_parts_iff {horizon : Horizon} {inflation : α} (line : Job α → LineResult α)
    (jobs : List (Job α)) :
    (∃ p parts, Parts horizon inflation (jobs.map line) jobs parts p) ↔
      (∀ job ∈ jobs, ∃ part, project horizon inflation (line job) job = .ok part) ∧
        horizon.Usable α := by
  simp only [parts_map_iff, ← mapM_eq_ok_iff]
  constructor
  · rintro ⟨p, parts, hp, -, hs, -⟩
    exact ⟨mapM_returns_iff.mp ⟨parts, hp⟩, spread_returns_iff.mp ⟨_, hs⟩⟩
  · rintro ⟨hjobs, husable⟩
    obtain ⟨parts, hp⟩ := mapM_returns_iff.mpr hjobs
    obtain ⟨perYear, hs⟩ := spread_returns_iff.mpr husable
    exact ⟨⟨_, perYear, _, []⟩, parts, hp, rfl, hs, rfl, rfl⟩

end Renovation.Maintenance
