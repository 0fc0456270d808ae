import Renovation.Proofs.Decimal.Difference
import Renovation.Proofs.EnergyLabel.Bounds

set_option autoImplicit false

/-!
# Steps between labels

A label stands as many places from the front as bounds behind the first one are reached, so that the
steps from one use to another are the bounds that are crossed on the way, up or down. What is left
is the direction. Whole numbers are subtracted exactly and everything else as doubles, so that a
demand that is not below zero leads to no higher use, unless the use before it is rounded up first.
-/

namespace Renovation

open Decimal Outcome

/-! ## Stored numbers in units -/

namespace Datum

/-- A number that is subtracted exactly from another one of its kind. -/
def IsWhole (d : Datum) : Prop := (EnergyLabel.difference.whole? d).isSome = true

/-- A number whose value is the value of a double. -/
def IsDouble (d : Datum) : Prop := ∃ x, d.toDouble = .ok x ∧ (Number.ofDouble x : ℚ) = d.value

def units (d : Datum) : ℤ := ⌊d.value * unitsOfOne⌋

theorem cast_unitsOfOne_pos : (0 : ℚ) < unitsOfOne := Nat.cast_pos.mpr unitsOfOne_pos

theorem units_of_value {d : Datum} {z : ℤ} (h : d.value = z / unitsOfOne) : d.units = z := by
  rw [units, h, div_mul_cancel₀ _ cast_unitsOfOne_pos.ne', Int.floor_intCast]

theorem value_of_whole? {d : Datum} {n : ℤ} (h : EnergyLabel.difference.whole? d = some n) :
    d.value = n := by
  cases d with
  | null | real | text | list | record => cases h
  | whole m =>
    obtain rfl := Option.some.inj h
    rfl
  | flag b =>
    obtain rfl := Option.some.inj h
    cases b <;> rfl

theorem value_real (x : Float) : (real x).value = Number.ofDouble x := by
  simp only [value, extent?, Number.ofDouble]
  rcases extentOfDouble x with _ | _ | _ | _ <;> rfl

theorem isFinite_of_isNumber {x : Float} (h : (real x).IsNumber) : isFinite x = true := by
  rw [isFinite_eq_true_iff]
  have hextent : extentOfDouble x = some (.finite (real x).value) := Option.some.inj h
  unfold extentOfDouble at hextent
  cases hx : expand x with
  | finite b => exact ⟨b, rfl⟩
  | infinite negative =>
    rw [hx] at hextent
    cases negative <;> cases hextent
  | notANumber =>
    rw [hx] at hextent
    cases hextent

theorem value_of_whole?_units {d : Datum} {n : ℤ} (h : EnergyLabel.difference.whole? d = some n) :
    d.value = (n * unitsOfOne : ℤ) / unitsOfOne := by
  rw [value_of_whole? h, Int.cast_mul, Int.cast_natCast,
    mul_div_cancel_right₀ _ cast_unitsOfOne_pos.ne']

theorem units_of_whole? {d : Datum} {n : ℤ} (h : EnergyLabel.difference.whole? d = some n) :
    d.units = n * unitsOfOne :=
  units_of_value (value_of_whole?_units h)

theorem isNumber_of_expand {x : Float} {b : Binary} (h : expand x = .finite b) :
    (real x).IsNumber ∧ (real x).value = b.toRat := by
  refine isNumber_of_extent ?_
  rw [extent?, extentOfDouble, h]

theorem value_eq_units {d : Datum} (h : d.IsNumber) : d.value = d.units / unitsOfOne := by
  suffices hunits : ∃ z : ℤ, d.value = z / unitsOfOne by
    obtain ⟨z, hz⟩ := hunits
    rw [units_of_value hz, hz]
  cases d with
  | null | text | list | record => cases h
  | flag | whole => exact ⟨_, value_of_whole?_units rfl⟩
  | real x =>
    obtain ⟨z, hz⟩ := exists_holdsInt (isFinite_of_isNumber h)
    exact ⟨z, (value_real x).trans hz.value⟩

theorem units_le_units {d d' : Datum} (h : d.value ≤ d'.value) : d.units ≤ d'.units :=
  Int.floor_le_floor (mul_le_mul_of_nonneg_right h cast_unitsOfOne_pos.le)

theorem value_le_value {d d' : Datum} (hd : d.IsNumber) (hd' : d'.IsNumber)
    (h : d.units ≤ d'.units) : d.value ≤ d'.value := by
  rw [value_eq_units hd, value_eq_units hd', div_le_div_iff_of_pos_right cast_unitsOfOne_pos,
    Int.cast_le]
  exact h

theorem holdsInt_of_value {d : Datum} {x : Float} (hx : isFinite x = true)
    (h : (Number.ofDouble x : ℚ) = d.value) : HoldsInt x (nearestInt d.units) := by
  obtain ⟨z, hz⟩ := exists_holdsInt hx
  rw [units_of_value (h.symm.trans hz.value), nearestInt_of_short hz.short]
  exact hz

theorem holdsInt_toDouble {d : Datum} (h : d.IsNumber) {x : Float} (hx : d.toDouble = .ok x) :
    HoldsInt x (nearestInt d.units) := by
  cases d with
  | null | text | list | record => cases h
  | flag b =>
    obtain rfl := Except.ok.inj hx
    cases b with
    | false => exact holdsInt_of_value (by decide) Exact.ofDouble_zero
    | true => exact holdsInt_of_value (by decide) Exact.ofDouble_one
  | whole n =>
    rw [units_of_whole? (n := n) rfl]
    exact holdsInt_of_wholeToDouble hx
  | real y =>
    obtain rfl := Except.ok.inj hx
    exact holdsInt_of_value (isFinite_of_isNumber h) (value_real y).symm

theorem IsDouble.nearest {d : Datum} (h : d.IsDouble) (hd : d.IsNumber) :
    nearestInt d.units = d.units := by
  obtain ⟨x, hx, hvalue⟩ := h
  rw [(holdsInt_toDouble hd hx).value] at hvalue
  exact (units_of_value hvalue.symm).symm

theorem isDouble_of_not_isWhole {d : Datum} (hd : d.IsNumber) (h : ¬ d.IsWhole) : d.IsDouble := by
  cases d with
  | null | text | list | record => cases hd
  | flag | whole => exact absurd rfl h
  | real x => exact ⟨x, rfl, (value_real x).symm⟩

end Datum

namespace EnergyLabel

/-! ## Differences -/

section

variable {a b c : Datum}

/-- Whole numbers are subtracted exactly, everything else as doubles, each step rounded. -/
theorem units_of_difference (ha : a.IsNumber) (hb : b.IsNumber) (hc : c.IsNumber)
    (h : difference a b = .ok c) :
    (a.IsWhole ∧ b.IsWhole ∧ c.units = a.units - b.units) ∨
      (¬ (a.IsWhole ∧ b.IsWhole) ∧
        c.units = nearestInt (nearestInt a.units - nearestInt b.units)) := by
  unfold difference at h
  split at h
  · rename_i m n hm hn
    obtain rfl := Except.ok.inj h
    refine .inl ⟨Option.isSome_of_eq_some hm, Option.isSome_of_eq_some hn, ?_⟩
    rw [Datum.units_of_whole? hm, Datum.units_of_whole? hn, ← sub_mul]
    exact Datum.units_of_whole? rfl
  · rename_i hnone
    split at h
    · obtain ⟨x, hx, hrest⟩ := bind_eq_ok.mp h
      obtain ⟨y, hy, hreturn⟩ := bind_eq_ok.mp hrest
      obtain rfl := Except.ok.inj hreturn
      have hholds := (Datum.holdsInt_toDouble ha hx).sub (Datum.holdsInt_toDouble hb hy)
        (Datum.isFinite_of_isNumber hc)
      refine .inr ⟨fun ⟨hwhole, hwhole'⟩ => ?_, Datum.units_of_value ?_⟩
      · obtain ⟨m, hm⟩ := Option.isSome_iff_exists.mp hwhole
        obtain ⟨n, hn⟩ := Option.isSome_iff_exists.mp hwhole'
        exact hnone m n hm hn
      · rw [Datum.value_real, hholds.value]
    · cases h

theorem nearestInt_of_kept (ha : a.IsNumber) (kept : a.IsDouble ∨ b.IsWhole)
    (hnot : ¬ (a.IsWhole ∧ b.IsWhole)) : nearestInt a.units = a.units := by
  refine Datum.IsDouble.nearest (kept.elim id fun hwhole => ?_) ha
  exact Datum.isDouble_of_not_isWhole ha fun hwhole' => hnot ⟨hwhole', hwhole⟩

theorem difference_le (ha : a.IsNumber) (hb : b.IsNumber) (hc : c.IsNumber)
    (h : difference a b = .ok c) (kept : a.IsDouble ∨ b.IsWhole) (hnonneg : 0 ≤ b.value) :
    c.value ≤ a.value := by
  have hunits : 0 ≤ b.units :=
    Int.floor_nonneg.mpr (mul_nonneg hnonneg Datum.cast_unitsOfOne_pos.le)
  refine Datum.value_le_value hc ha ?_
  rcases units_of_difference ha hb hc h with ⟨-, -, heq⟩ | ⟨hnot, heq⟩
  · rw [heq]
    exact sub_le_self _ hunits
  · have hkept := nearestInt_of_kept ha kept hnot
    rw [heq, hkept]
    calc nearestInt (a.units - nearestInt b.units)
        ≤ nearestInt a.units := nearestInt_mono (sub_le_self _ (nearestInt_nonneg hunits))
      _ = a.units := hkept

theorem le_difference (ha : a.IsNumber) (hb : b.IsNumber) (hc : c.IsNumber)
    (h : difference a b = .ok c) (kept : a.IsDouble ∨ b.IsWhole) (hnonpos : b.value ≤ 0) :
    a.value ≤ c.value := by
  have hunits : b.units ≤ 0 :=
    Int.floor_nonpos (mul_nonpos_of_nonpos_of_nonneg hnonpos Datum.cast_unitsOfOne_pos.le)
  refine Datum.value_le_value ha hc ?_
  rcases units_of_difference ha hb hc h with ⟨-, -, heq⟩ | ⟨hnot, heq⟩
  · rw [heq]
    omega
  · have hkept := nearestInt_of_kept ha kept hnot
    have hrounded : nearestInt b.units ≤ 0 := nearestInt_mono hunits
    rw [heq, hkept]
    calc a.units
        = nearestInt a.units := hkept.symm
      _ ≤ nearestInt (a.units - nearestInt b.units) := nearestInt_mono (by omega)

theorem difference_anti {b' c' : Datum} (ha : a.IsNumber) (hb : b.IsNumber) (hc : c.IsNumber)
    (h : difference a b = .ok c) (hb' : b'.IsNumber) (hc' : c'.IsNumber)
    (h' : difference a b' = .ok c') (alike : (b.IsWhole ↔ b'.IsWhole) ∨ ¬ a.IsWhole)
    (hle : b.value ≤ b'.value) : c'.value ≤ c.value := by
  have hunits := Datum.units_le_units hle
  refine Datum.value_le_value hc' hc ?_
  rcases units_of_difference ha hb hc h with ⟨hwhole, hwhole', heq⟩ | ⟨hnot, heq⟩ <;>
    rcases units_of_difference ha hb' hc' h' with ⟨hwhole₂, hwhole₂', heq'⟩ | ⟨hnot₂, heq'⟩
  · omega
  · have : b'.IsWhole := alike.elim (fun hiff => hiff.mp hwhole') fun hno => absurd hwhole hno
    exact absurd ⟨hwhole, this⟩ hnot₂
  · have : b.IsWhole := alike.elim (fun hiff => hiff.mpr hwhole₂') fun hno => absurd hwhole₂ hno
    exact absurd ⟨hwhole₂, this⟩ hnot
  · rw [heq, heq']
    exact nearestInt_mono (sub_le_sub_left (nearestInt_mono hunits) _)

end

/-! ## Crossed bounds -/

/-- The bounds behind the first label that are above one use and not above another. -/
def crossed (low high : ℚ) (order : List (String × Datum)) : ℕ :=
  order.tail.countP fun entry => low < bound entry ∧ bound entry ≤ high

theorem crossed_of_le {low high : ℚ} (h : high ≤ low) (order : List (String × Datum)) :
    crossed low high order = 0 := by
  refine List.countP_eq_zero.mpr fun entry _ hcrossed => ?_
  obtain ⟨hlow, hhigh⟩ := of_decide_eq_true hcrossed
  exact absurd (hlow.trans_le (hhigh.trans h)) (lt_irrefl low)

theorem rank_eq_add_crossed {low high : ℚ} (h : low ≤ high) (order : List (String × Datum)) :
    rank high order = rank low order + crossed low high order := by
  unfold rank crossed
  induction order.tail with
  | nil => rfl
  | cons entry rest ih =>
    rw [List.countP_cons, List.countP_cons, List.countP_cons, ih]
    have hentry : (if decide (bound entry ≤ high) = true then 1 else 0) =
        (if decide (bound entry ≤ low) = true then 1 else 0) +
          if decide (low < bound entry ∧ bound entry ≤ high) = true then 1 else 0 := by
      simp only [decide_eq_true_eq]
      rcases le_or_gt (bound entry) low with hle | hlt
      · rw [if_pos (hle.trans h), if_pos hle, if_neg fun hcrossed => hcrossed.1.not_ge hle]
      · rw [if_neg hlt.not_ge, Nat.zero_add]
        exact if_congr (iff_and_self.mpr fun _ => hlt) rfl rfl
    omega

theorem rank_sub_rank (use use' : ℚ) (order : List (String × Datum)) :
    (rank use order : ℤ) - rank use' order = crossed use' use order - crossed use use' order := by
  rcases le_total use use' with hle | hle
  · have hrank := rank_eq_add_crossed hle order
    have hnone := crossed_of_le hle order
    omega
  · have hrank := rank_eq_add_crossed hle order
    have hnone := crossed_of_le hle order
    omega

/-! ## Improvements -/

theorem Table.improvement_eq {bounds : Bounds} (table : Table bounds) {current demand new : Datum}
    (hcurrent : current.IsNumber) (hnew : new.IsNumber) (h : difference current demand = .ok new) :
    ∃ result, improvement current demand bounds = .ok result ∧ result.newUse = new ∧
      result.steps = rank current.value (sorted bounds) - rank new.value (sorted bounds) := by
  obtain ⟨entry, -, hlabel⟩ := table.label_eq hcurrent
  obtain ⟨entry', -, hlabel'⟩ := table.label_eq hnew
  have hrank := table.idxOf_label hcurrent hlabel
  have hrank' := table.idxOf_label hnew hlabel'
  refine ⟨⟨current, new, entry.1, entry'.1, _⟩, ?_, rfl, rfl⟩
  rw [improvement, orStandard_of_ne_nil table.nonempty, sorted?_eq table.numeric]
  simp only [ok_bind, pure_eq, h, hlabel, hlabel', hrank, hrank']

/-- In a table of distinct labels the steps are the bounds behind the first one that are crossed
downwards less those crossed upwards. No bound is crossed the wrong way if the use before is a
double or the demand is whole. A higher demand never has fewer steps if both demands are whole or
neither is, or if the use before is not whole. -/
theorem improvement_crosses_bounds (bounds : Bounds) (table : Table bounds)
    (current demand new : Datum) (hcurrent : current.IsNumber) (hdemand : demand.IsNumber)
    (hnew : new.IsNumber) (hdifference : difference current demand = .ok new) :
    ∃ result, improvement current demand bounds = .ok result ∧ result.newUse = new ∧
      result.steps = crossed new.value current.value (sorted bounds) -
        crossed current.value new.value (sorted bounds) ∧
      (current.IsDouble ∨ demand.IsWhole →
        (0 ≤ demand.value →
          result.steps = crossed new.value current.value (sorted bounds)) ∧
        (demand.value ≤ 0 →
          result.steps = -crossed current.value new.value (sorted bounds))) ∧
      ∀ demand' new' result', demand'.IsNumber → new'.IsNumber →
        difference current demand' = .ok new' → improvement current demand' bounds = .ok result' →
        demand.value ≤ demand'.value →
        (demand.IsWhole ↔ demand'.IsWhole) ∨ ¬ current.IsWhole → result.steps ≤ result'.steps := by
  obtain ⟨result, hresult, huse, hsteps⟩ := table.improvement_eq hcurrent hnew hdifference
  have hcrossed := hsteps.trans (rank_sub_rank _ _ _)
  refine ⟨result, hresult, huse, hcrossed, fun kept => ⟨fun hnonneg => ?_, fun hnonpos => ?_⟩,
    fun demand' new' result' hdemand' hnew' hdifference' hresult' hle alike => ?_⟩
  · have hle := difference_le hcurrent hdemand hnew hdifference kept hnonneg
    rw [hcrossed, crossed_of_le hle, Nat.cast_zero, sub_zero]
  · have hle := le_difference hcurrent hdemand hnew hdifference kept hnonpos
    rw [hcrossed, crossed_of_le hle, Nat.cast_zero, zero_sub]
  · have hanti := difference_anti hcurrent hdemand hnew hdifference hdemand' hnew' hdifference'
      alike hle
    obtain ⟨_, hagain, -, hsteps'⟩ := table.improvement_eq hcurrent hnew' hdifference'
    obtain rfl := Except.ok.inj (hagain.symm.trans hresult')
    have hrank := rank_mono hanti (sorted bounds)
    omega

theorem improvement_across_equal_bounds :
    let bounds : Bounds :=
      [("D", .whole 290), ("B", .whole 190), ("A", .whole 50), ("C", .whole 190)]
    Table bounds ∧ (Datum.whole 300).IsNumber ∧ (Datum.whole 200).IsNumber ∧
      (Datum.whole 100).IsNumber ∧ difference (.whole 300) (.whole 200) = .ok (.whole 100) ∧
      ∃ result, improvement (.whole 300) (.whole 200) bounds = .ok result ∧ result.steps = 3 := by
  intro bounds
  have table : Table bounds := ⟨List.cons_ne_nil _ _,
    numeric_whole [("D", 290), ("B", 190), ("A", 50), ("C", 190)], by decide⟩
  have hdifference : difference (.whole 300) (.whole 200) = .ok (.whole 100) := rfl
  have horder : sorted bounds =
      [("A", .whole 50), ("B", .whole 190), ("C", .whole 190), ("D", .whole 290)] := by
    simp +decide [bounds, sorted, List.mergeSort, List.MergeSort.Internal.splitInTwo]
  have hcrossed : crossed 100 300 (sorted bounds) = 3 := by
    rw [horder]
    decide
  obtain ⟨result, hresult, -, -, hdown, -⟩ := improvement_crosses_bounds bounds table (.whole 300)
    (.whole 200) (.whole 100) (Datum.isNumber_whole _) (Datum.isNumber_whole _)
    (Datum.isNumber_whole _) hdifference
  have hsteps := (hdown (.inr rfl)).1 (by decide)
  exact ⟨table, Datum.isNumber_whole _, Datum.isNumber_whole _, Datum.isNumber_whole _,
    hdifference, result, hresult, hsteps.trans (congrArg Nat.cast hcrossed)⟩

/-- A whole use that is no double is rounded up by more than the demand takes off, to a bound above
it: a step is lost where no bound is crossed downwards. -/
theorem improvement_of_rounded_use :
    let bounds : Bounds := [("A", .whole 0), ("B", .whole 9007199254740996)]
    let current : Datum := .whole 9007199254740995
    let new : Datum := .real (Float.ofInt 9007199254740995 - 0.5)
    Table bounds ∧ current.IsNumber ∧ (Datum.real 0.5).IsNumber ∧ new.IsNumber ∧
      difference current (.real 0.5) = .ok new ∧ 0 ≤ (Datum.real 0.5).value ∧
      crossed new.value current.value (sorted bounds) = 0 ∧
      ∃ result, improvement current (.real 0.5) bounds = .ok result ∧ result.steps = -1 := by
  intro bounds current new
  have table : Table bounds := ⟨List.cons_ne_nil _ _,
    numeric_whole [("A", 0), ("B", 9007199254740996)], by decide⟩
  have hhalf : expand 0.5 = .finite ⟨false, 4503599627370496, -53⟩ := by rfl
  have hrounded : expand (Float.ofInt 9007199254740995 - 0.5) =
      .finite ⟨false, 4503599627370498, 1⟩ := by rfl
  have hdemand := Datum.isNumber_of_expand hhalf
  have hnew := Datum.isNumber_of_expand hrounded
  have hhalf : Binary.toRat ⟨false, 4503599627370496, -53⟩ = 1 / 2 := by decide +kernel
  have hnew_value : Binary.toRat ⟨false, 4503599627370498, 1⟩ = 9007199254740996 := by
    decide +kernel
  have hread : current.toDouble = .ok (Float.ofInt 9007199254740995) := by
    rw [Datum.toDouble]
    exact wholeToDouble_of_lt (by decide +kernel)
  have hdifference : difference current (.real 0.5) = .ok new := by
    change (do return Datum.real ((← current.toDouble) - (← (Datum.real 0.5).toDouble))) = _
    rw [hread]
    rfl
  have horder : sorted bounds = bounds := by
    simp +decide [bounds, sorted, List.mergeSort, List.MergeSort.Internal.splitInTwo]
  obtain ⟨result, hresult, -, hsteps⟩ :=
    table.improvement_eq (Datum.isNumber_whole _) hnew.1 hdifference
  rw [horder, hnew.2, hnew_value] at hsteps
  rw [horder, hnew.2, hnew_value, hdemand.2, hhalf]
  refine ⟨table, Datum.isNumber_whole _, hdemand.1, hnew.1, hdifference, by norm_num, ?_, result,
    hresult, hsteps.trans ?_⟩
  · decide
  · decide

end EnergyLabel

end Renovation
