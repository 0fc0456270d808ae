import Renovation.Proofs.Measure.Reading
import Renovation.Proofs.Settings.Merging

set_option autoImplicit false

/-!
# What stops the readers of a configuration

The readers of the three parts of a configuration turn a value that cannot be used into a fault of
one family, so that whoever runs them has to look out for that family alone. Two conversions slip
through: to a double, which no whole number beyond the doubles has, and to a whole number, which no
infinite double has. The reader of the energy part turns nothing into that family; what is no number
at all stops it with a fault of its own. For each part there is the exact condition, and what is read
where nothing stops it.
-/

namespace Renovation

open Outcome Settings

/-! ## Faults by family -/

/-- The calculation stops with a fault of this family. -/
def Stops {β : Type} (family : Fault.Family) (x : Except Fault β) : Prop :=
  ∃ fault, x = .error fault ∧ fault.family = family

section

variable {β γ : Type} {family : Fault.Family}

theorem not_stops_ok {x : β} : ¬ Stops family (.ok x) := by
  rintro ⟨_, h, _⟩
  cases h

theorem stops_error_iff {fault : Fault} :
    Stops family (.error fault : Except Fault β) ↔ fault.family = family := by
  constructor
  · rintro ⟨_, ⟨⟩, h⟩
    exact h
  · exact fun h => ⟨fault, rfl, h⟩

theorem stops_bind_ok_iff {x : Except Fault β} {f : β → γ} :
    Stops family (x >>= fun y => .ok (f y)) ↔ Stops family x := by
  cases x with
  | error fault => rw [error_bind, stops_error_iff, stops_error_iff]
  | ok y => exact iff_of_false not_stops_ok not_stops_ok

theorem stops_mapM_iff {f : β → Except Fault γ} {xs : List β} :
    Stops family (xs.mapM f) ↔ ∃ before x after, xs = before ++ x :: after ∧
      (∀ y ∈ before, ∃ z, f y = .ok z) ∧ Stops family (f x) := by
  simp only [Stops, mapM_eq_error_iff]
  constructor
  · rintro ⟨fault, ⟨before, x, after, hsplit, hbefore, hx⟩, hfamily⟩
    exact ⟨before, x, after, hsplit, hbefore, fault, hx, hfamily⟩
  · rintro ⟨before, x, after, hsplit, hbefore, fault, hx, hfamily⟩
    exact ⟨fault, ⟨before, x, after, hsplit, hbefore, hx⟩, hfamily⟩

end

/-! ## Conversions -/

namespace Datum

theorem wholeToDouble_of_not_inRange {n : ℤ} (h : ¬ (whole n).InRange) :
    wholeToDouble n = .error .wholeTooLarge := by
  have hnumber := number_of_not_inRange h
  rw [number] at hnumber
  cases hw : wholeToDouble n with
  | error fault =>
    rw [hw] at hnumber
    exact congrArg _ (Except.error.inj hnumber)
  | ok x =>
    rw [hw] at hnumber
    cases hnumber

def Numberless : Datum → Prop
  | null | list _ | record _ => True
  | _ => False

theorem Numberless.inRange {d : Datum} (h : d.Numberless) : d.InRange := by
  cases d with
  | null | list | record => trivial
  | flag | whole | real | text => cases h

theorem toDouble_eq_error_iff {d : Datum} {fault : Fault} : d.toDouble = .error fault ↔
    (¬ d.InRange ∧ fault = .wholeTooLarge) ∨
      (∃ s, d = .text s ∧ Decimal.readDouble? s = none ∧ fault = .unreadableDouble s) ∨
      (d.Numberless ∧ fault = .wrongKind) := by
  cases d with
  | null | list | record => simp [toDouble, InRange, Numberless, eq_comm]
  | flag | real => simp [toDouble, InRange, Numberless]
  | whole n =>
    by_cases h : (whole n).InRange
    · obtain ⟨x, hx⟩ := wholeToDouble_returns_iff.mpr h
      simp [toDouble, hx, h, Numberless]
    · simp [toDouble, wholeToDouble_of_not_inRange h, h, Numberless, eq_comm]
  | text s =>
    cases h : Decimal.readDouble? s with
    | none => simp [toDouble, h, InRange, Numberless, eq_comm]
    | some x => simp [toDouble, h, InRange, Numberless]

theorem stopsOnly_toDouble (d : Datum) : StopsOnly (fun fault => fault.family = .invalidValue ∨
    fault.family = .outOfRange ∨ fault.family = .wrongKind) d.toDouble := by
  intro fault h
  rcases toDouble_eq_error_iff.mp h with ⟨-, rfl⟩ | ⟨s, -, -, rfl⟩ | ⟨-, rfl⟩
  · exact .inr (.inl rfl)
  · exact .inl rfl
  · exact .inr (.inr rfl)

theorem stops_outOfRange_toDouble_iff {d : Datum} :
    Stops .outOfRange d.toDouble ↔ ¬ d.InRange := by
  constructor
  · rintro ⟨fault, h, hfamily⟩
    rcases toDouble_eq_error_iff.mp h with ⟨hd, -⟩ | ⟨s, -, -, rfl⟩ | ⟨-, rfl⟩
    · exact hd
    · cases hfamily
    · cases hfamily
  · exact fun hd => ⟨.wholeTooLarge, toDouble_eq_error_iff.mpr (.inl ⟨hd, rfl⟩), rfl⟩

theorem stops_wrongKind_toDouble_iff {d : Datum} :
    Stops .wrongKind d.toDouble ↔ d.Numberless := by
  constructor
  · rintro ⟨fault, h, hfamily⟩
    rcases toDouble_eq_error_iff.mp h with ⟨-, rfl⟩ | ⟨s, -, -, rfl⟩ | ⟨hd, -⟩
    · cases hfamily
    · cases hfamily
    · exact hd
  · exact fun hd => ⟨.wrongKind, toDouble_eq_error_iff.mpr (.inr (.inr ⟨hd, rfl⟩)), rfl⟩

theorem toWhole_eq_error_iff {d : Datum} {fault : Fault} : d.toWhole = .error fault ↔
    (∃ x negative, d = .real x ∧ Decimal.expand x = .infinite negative ∧ fault = .infiniteWhole) ∨
      (∃ x, d = .real x ∧ Decimal.expand x = .notANumber ∧ fault = .undefinedWhole) ∨
      (∃ s, d = .text s ∧ Decimal.readWhole? s = none ∧ fault = .unreadableWhole s) ∨
      (d.Numberless ∧ fault = .wrongKind) := by
  cases d with
  | null | list | record => simp [toWhole, Numberless, eq_comm]
  | flag | whole => simp [toWhole, Numberless]
  | real x => cases h : Decimal.expand x <;> simp [toWhole, Decimal.truncate, h, Numberless, eq_comm]
  | text s =>
    cases h : Decimal.readWhole? s with
    | none => simp [toWhole, h, Numberless, eq_comm]
    | some n => simp [toWhole, h, Numberless]

end Datum

namespace Configuration

/-! ## Settings -/

def RefusedOrOutOfRange (fault : Fault) : Prop :=
  fault.family = .invalidValue ∨ fault.family = .outOfRange

section

variable {fields : Datum.Fields} {r : Rate}

theorem mergedRate_of_none (h : fields.lookup r.key = none) :
    mergedRate fields r = .ok (.real r.standard) := by
  rw [mergedRate, h]

theorem mergedRate_of_null (h : fields.lookup r.key = some .null) :
    mergedRate fields r = .ok (writtenStandard r) := by
  rw [mergedRate, h]

theorem mergedRate_of_error {d : Datum} {e : Fault} (h : fields.lookup r.key = some d)
    (hd : d ≠ .null) (he : d.toDouble = .error e) :
    mergedRate fields r =
      .error (if d.InRange then .settingNotNumeric r.key d else .wholeTooLarge) := by
  unfold mergedRate
  split
  · simp_all
  · simp_all
  · rename_i stored _ hstored
    obtain rfl : d = stored := Option.some.inj (h.symm.trans hstored)
    rw [he]
    -- of the three causes of a failed conversion the handler leaves one as it is, the range
    rcases Datum.toDouble_eq_error_iff.mp he with ⟨hrange, rfl⟩ | ⟨s, rfl, -, rfl⟩ | ⟨hnone, rfl⟩
    · rw [if_neg hrange]
      rfl
    · rw [if_pos (show (Datum.text s).InRange from trivial)]
      rfl
    · rw [if_pos hnone.inRange]
      rfl

theorem mergedRate_eq_error_iff {fault : Fault} : mergedRate fields r = .error fault ↔
    ∃ d, fields.lookup r.key = some d ∧ d ≠ .null ∧ (∃ e, d.toDouble = .error e) ∧
      fault = if d.InRange then .settingNotNumeric r.key d else .wholeTooLarge := by
  constructor
  · intro hfault
    cases h : fields.lookup r.key with
    | none => cases (mergedRate_of_none h).symm.trans hfault
    | some d =>
      by_cases hd : d = .null
      · cases (mergedRate_of_null (hd ▸ h)).symm.trans hfault
      · cases he : d.toDouble with
        | ok x => cases ((mergedRate_of_stored h hd).mpr ⟨x, he, rfl⟩).symm.trans hfault
        | error e =>
          have hmerged := (mergedRate_of_error h hd he).symm.trans hfault
          exact ⟨d, rfl, hd, ⟨e, he⟩, (Except.error.inj hmerged).symm⟩
  · rintro ⟨d, h, hd, ⟨e, he⟩, rfl⟩
    exact mergedRate_of_error h hd he

theorem stopsOnly_mergedRate : StopsOnly RefusedOrOutOfRange (mergedRate fields r) := by
  intro fault h
  obtain ⟨d, -, -, -, rfl⟩ := mergedRate_eq_error_iff.mp h
  split
  · exact .inl rfl
  · exact .inr rfl

theorem stops_mergedRate_iff :
    Stops .outOfRange (mergedRate fields r) ↔ ∃ d, fields.lookup r.key = some d ∧ ¬ d.InRange := by
  constructor
  · rintro ⟨fault, h, hfamily⟩
    obtain ⟨d, hd, -, -, rfl⟩ := mergedRate_eq_error_iff.mp h
    refine ⟨d, hd, fun hrange => ?_⟩
    rw [if_pos hrange] at hfamily
    cases hfamily
  · rintro ⟨d, hd, hrange⟩
    have hnull : d ≠ .null := fun h => hrange (h ▸ trivial)
    obtain ⟨e, he, -⟩ := Datum.stops_outOfRange_toDouble_iff.mpr hrange
    rw [mergedRate_of_error hd hnull he, if_neg hrange]
    exact ⟨_, rfl, rfl⟩

theorem writtenStandard_real_iff :
    (∃ x, writtenStandard r = .real x) ↔ r = .markup .aftercare ∨ r = .markup .bankGuarantee := by
  have hwritten : (∃ x, writtenStandard r = .real x) ↔
      (match writtenStandard r with | .real _ => true | _ => false) = true := by
    cases writtenStandard r <;> simp
  rw [hwritten]
  cases r with
  | labour | vat | inflation | cornerHouse => decide +kernel
  | markup m => cases m <;> decide +kernel

theorem mergedRate_real_iff {value : Datum} (h : mergedRate fields r = .ok value) :
    (∃ x, value = .real x) ↔
      (fields.lookup r.key = some .null → r = .markup .aftercare ∨ r = .markup .bankGuarantee) := by
  cases hr : fields.lookup r.key with
  | none =>
    obtain rfl := Except.ok.inj ((mergedRate_of_none hr).symm.trans h)
    exact ⟨nofun, fun _ => ⟨_, rfl⟩⟩
  | some d =>
    by_cases hd : d = .null
    · subst hd
      obtain rfl := Except.ok.inj ((mergedRate_of_null hr).symm.trans h)
      rw [writtenStandard_real_iff]
      exact ⟨fun hw _ => hw, fun hw => hw rfl⟩
    · obtain ⟨x, -, rfl⟩ := (mergedRate_of_stored hr hd).mp h
      exact ⟨fun _ hnull => absurd (Option.some.inj hnull) hd, fun _ => ⟨x, rfl⟩⟩

end

/-- What the settings of a configuration are read as, and what stops their reader. -/
structure SettingsRead (fields : Datum.Fields) (result : Except Fault Datum.Fields) : Prop where
  stops : StopsOnly RefusedOrOutOfRange result
  /-- The first rate that cannot be converted is a number beyond the doubles. -/
  outOfRange : Stops .outOfRange result ↔ ∃ before r after, Rate.all = before ++ r :: after ∧
    (∀ r' ∈ before, ∃ value, mergedRate fields r' = .ok value) ∧
      ∃ d, fields.lookup r.key = some d ∧ ¬ d.InRange
  rates : ∀ merged, result = .ok merged → ∀ r : Rate,
    ∃ value, merged.lookup r.key = some value ∧ ((∃ x, value = .real x) ↔
      (fields.lookup r.key = some .null → r = .markup .aftercare ∨ r = .markup .bankGuarantee))
  others : ∀ merged, result = .ok merged → ∀ name, name ∉ Rate.all.map Rate.key →
    merged.lookup name = fields.lookup name

theorem settingsRead_mergeSettings {fields : Datum.Fields}
    (distinct : (fields.map Prod.fst).Nodup) :
    SettingsRead fields (mergeSettings (.record fields)) where
  stops := by
    rw [mergeSettings, toFields_record, ok_bind]
    exact (StopsOnly.mapM (fun _ => stopsOnly_mergedRate.bind fun _ _ => .ok _) _).bind
      fun _ _ => .ok _
  outOfRange := by
    rw [mergeSettings, toFields_record, ok_bind]
    refine stops_bind_ok_iff.trans (stops_mapM_iff.trans ?_)
    simp only [returns_bind, pure_eq, returns_ok, and_true, stops_bind_ok_iff,
      stops_mergedRate_iff]
  rates merged h r := by
    obtain ⟨value, hvalue, rfl⟩ := mergeSettings_eq_ok_iff.mp h
    exact ⟨value r, lookup_overlay fields value r, mergedRate_real_iff (hvalue r)⟩
  others merged h name hname := by
    obtain ⟨value, -, rfl⟩ := mergeSettings_eq_ok_iff.mp h
    exact lookup_overlay_of_not_mem distinct value hname

theorem settingsRead_of_part {doc fields : Datum.Fields}
    (h : (doc.lookup "settings").getD (.record []) = .record fields)
    (distinct : (fields.map Prod.fst).Nodup) :
    SettingsRead fields (settings (.record doc)) := by
  rw [settings, fieldOr, ok_bind, h]
  exact settingsRead_mergeSettings distinct

/-! ## Maintenance -/

theorem horizonYears_eq_ok_iff {stored : Datum} {n : ℤ} :
    horizonYears stored = .ok n ↔ stored.toWhole = .ok n ∧ 1 ≤ n := by
  unfold horizonYears
  cases stored.toWhole with
  | error fault =>
    dsimp only
    split <;> simp
  | ok m =>
    rw [Except.ok.injEq]
    dsimp only
    split
    · refine iff_of_false nofun ?_
      rintro ⟨rfl, hn⟩
      omega
    · rw [Except.ok.injEq]
      refine ⟨?_, And.left⟩
      rintro rfl
      exact ⟨rfl, by omega⟩

theorem horizonYears_of_error {stored : Datum} {e : Fault} (h : stored.toWhole = .error e) :
    horizonYears stored =
      .error (if e.family = .outOfRange then e else .horizonNotWhole) := by
  unfold horizonYears
  rw [h]
  rcases Datum.toWhole_eq_error_iff.mp h with
    ⟨x, negative, -, -, rfl⟩ | ⟨x, -, -, rfl⟩ | ⟨s, -, -, rfl⟩ | ⟨-, rfl⟩ <;> rfl

theorem stopsOnly_horizonYears (stored : Datum) :
    StopsOnly RefusedOrOutOfRange (horizonYears stored) := by
  cases h : stored.toWhole with
  | error e =>
    rw [horizonYears_of_error h]
    split
    · rename_i hfamily
      exact .error (.inr hfamily)
    · exact .error (.inl rfl)
  | ok n =>
    rw [horizonYears, h]
    exact .ite (.error (.inl rfl)) (.ok n)

theorem stops_horizonYears_iff {stored : Datum} : Stops .outOfRange (horizonYears stored) ↔
    ∃ x negative, stored = .real x ∧ Decimal.expand x = .infinite negative := by
  constructor
  · rintro ⟨fault, hfault, hfamily⟩
    cases h : stored.toWhole with
    | error e =>
      rw [horizonYears_of_error h] at hfault
      rcases Datum.toWhole_eq_error_iff.mp h with
        ⟨x, negative, hx, hexpand, -⟩ | ⟨x, -, -, rfl⟩ | ⟨s, -, -, rfl⟩ | ⟨-, rfl⟩
      · exact ⟨x, negative, hx, hexpand⟩
      all_goals
        cases hfault
        cases hfamily
    | ok n =>
      rw [horizonYears, h] at hfault
      dsimp only at hfault
      split at hfault
      · cases hfault
        cases hfamily
      · cases hfault
  · rintro ⟨x, negative, hx, hexpand⟩
    have h : stored.toWhole = .error .infiniteWhole :=
      Datum.toWhole_eq_error_iff.mpr (.inl ⟨x, negative, hx, hexpand, rfl⟩)
    rw [horizonYears_of_error h]
    exact ⟨_, rfl, rfl⟩

structure MaintenanceRead (fields : Datum.Fields) (result : Except Fault Datum.Fields) : Prop where
  stops : StopsOnly RefusedOrOutOfRange result
  /-- The horizon is infinite. -/
  outOfRange : Stops .outOfRange result ↔ ∃ x negative,
    fields.lookup "horizon_years" = some (.real x) ∧ Decimal.expand x = .infinite negative
  horizon : ∀ part, result = .ok part →
    ∃ n, 1 ≤ n ∧ part.lookup "horizon_years" = some (.whole n)
  others : ∀ part, result = .ok part → ∀ name, name ≠ "horizon_years" →
    part.lookup name = fields.lookup name

theorem maintenanceRead_of_part {doc fields : Datum.Fields}
    (h : (doc.lookup "maintenance").getD (.record []) = .record fields) :
    MaintenanceRead fields (maintenance (.record doc)) := by
  have hread : maintenance (.record doc) =
      horizonYears ((fields.lookup "horizon_years").getD (.whole 40)) >>= fun years =>
        .ok (fields.put "horizon_years" (.whole years)) := by
    have hfields : ((Datum.record doc).field "maintenance").fields?.getD [] = fields := by
      rw [Datum.field]
      cases hpart : doc.lookup "maintenance" with
      | none =>
        rw [hpart] at h
        exact Datum.record.inj h
      | some part =>
        rw [hpart] at h
        exact congrArg (·.fields?.getD []) h
    rw [maintenance, hfields, horizon, fieldOr, ok_bind, h, fieldOr, ok_bind, bind_assoc]
    rfl
  rw [hread]
  have hreturned : ∀ part, (horizonYears ((fields.lookup "horizon_years").getD (.whole 40)) >>=
      fun years => .ok (fields.put "horizon_years" (.whole years))) = .ok part →
      ∃ n, 1 ≤ n ∧ ∀ name, part.lookup name =
        if name == "horizon_years" then some (.whole n) else fields.lookup name := by
    intro part hpart
    obtain ⟨n, hn, hpart⟩ := bind_eq_ok.mp hpart
    cases hpart
    exact ⟨n, (horizonYears_eq_ok_iff.mp hn).2, fields.lookup_put "horizon_years" (.whole n)⟩
  refine ⟨(stopsOnly_horizonYears _).bind fun _ _ => .ok _, ?_, ?_, ?_⟩
  · rw [stops_bind_ok_iff, stops_horizonYears_iff]
    cases fields.lookup "horizon_years" with
    | none => simp
    | some stored => simp
  · intro part hpart
    obtain ⟨n, hn, hlookup⟩ := hreturned part hpart
    exact ⟨n, hn, hlookup "horizon_years"⟩
  · intro part hpart name hname
    obtain ⟨n, -, hlookup⟩ := hreturned part hpart
    rw [hlookup, if_neg (by simpa using hname)]

/-! ## Energy -/

structure EnergyRead (fields : Datum.Fields) (result : Except Fault Energy) : Prop where
  stops : StopsOnly (fun fault => fault.family = .invalidValue ∨ fault.family = .outOfRange ∨
    fault.family = .wrongKind) result
  outOfRange : Stops .outOfRange result ↔ ∃ d, fields.lookup "co2_factor" = some d ∧ ¬ d.InRange
  wrongKind : Stops .wrongKind result ↔ ∃ d, fields.lookup "co2_factor" = some d ∧ d.Numberless

theorem energyRead_of_part {doc fields : Datum.Fields}
    (h : (doc.lookup "energy").getD (.record []) = .record fields) :
    EnergyRead fields (energy (.record doc)) := by
  have hread : energy (.record doc) =
      ((fields.lookup "co2_factor").getD (.real EnergyLabel.carbonFactor)).toDouble >>= fun factor =>
        .ok ⟨factor, ((fields.lookup "label_thresholds").getD .null).orElse .null⟩ := by
    rw [energy, fieldOr, ok_bind, h]
    rfl
  rw [hread]
  refine ⟨(Datum.stopsOnly_toDouble _).bind fun _ _ => .ok _, ?_, ?_⟩
  · rw [stops_bind_ok_iff, Datum.stops_outOfRange_toDouble_iff]
    cases fields.lookup "co2_factor" with
    | none => simp [Datum.InRange]
    | some d => simp
  · rw [stops_bind_ok_iff, Datum.stops_wrongKind_toDouble_iff]
    cases fields.lookup "co2_factor" with
    | none => simp [Datum.Numberless]
    | some d => simp

/-! ## The three readers -/

/-- What a configuration that is a record, its parts being records or missing, is read as and what
stops its readers: a number beyond the doubles among the settings, an infinite horizon and, for the
energy part, such a number or none at all. Whatever else is stored is read or refused. -/
theorem readers_stop (path : String) {doc settingsPart maintenancePart energyPart : Datum.Fields}
    (hs : (doc.lookup "settings").getD (.record []) = .record settingsPart)
    (distinct : (settingsPart.map Prod.fst).Nodup)
    (hm : (doc.lookup "maintenance").getD (.record []) = .record maintenancePart)
    (he : (doc.lookup "energy").getD (.record []) = .record energyPart) :
    SettingsRead settingsPart (load path (some (.record doc)) >>= settings) ∧
      MaintenanceRead maintenancePart (load path (some (.record doc)) >>= maintenance) ∧
      EnergyRead energyPart (load path (some (.record doc)) >>= energy) := by
  have hload : load path (some (.record doc)) = .ok (.record doc) := by
    cases doc <;> rfl
  rw [hload, ok_bind, ok_bind, ok_bind]
  exact ⟨settingsRead_of_part hs distinct, maintenanceRead_of_part hm, energyRead_of_part he⟩

theorem readers_stop_without_factor :
    let risk : Datum.Fields := [("risico", .text "2,5"), ("naam", .null)]
    let doc : Datum.Fields :=
      [("settings", .record risk), ("energy", .record [("co2_factor", .null)])]
    (doc.lookup "settings").getD (.record []) = .record risk ∧ (risk.map Prod.fst).Nodup ∧
      (doc.lookup "maintenance").getD (.record []) = .record [] ∧
      (doc.lookup "energy").getD (.record []) = .record [("co2_factor", .null)] ∧
      Stops .wrongKind (load "config.yaml" (some (.record doc)) >>= energy) := by
  intro risk doc
  have hs : (doc.lookup "settings").getD (.record []) = .record risk := rfl
  have distinct : (risk.map Prod.fst).Nodup := by decide
  have hm : (doc.lookup "maintenance").getD (.record []) = .record [] := rfl
  have he : (doc.lookup "energy").getD (.record []) = .record [("co2_factor", .null)] := rfl
  obtain ⟨-, -, henergy⟩ := readers_stop "config.yaml" hs distinct hm he
  exact ⟨hs, distinct, hm, he, henergy.wrongKind.mpr ⟨.null, rfl, trivial⟩⟩

theorem expand_infiniteDouble : Decimal.expand Decimal.infiniteDouble = .infinite false := by
  have hbits : Decimal.infiniteDouble.toBits.toNat = 0x7FF0000000000000 := by decide +kernel
  rw [Decimal.expand, hbits]
  rfl

theorem writtenStandard_vat : writtenStandard .vat = .whole 21 := by
  have htruncate : Decimal.truncate 21.0 = .whole 21 := rfl
  have hequal : (Float.ofInt 21 == 21.0) = true := by decide +kernel
  simp only [writtenStandard, Rate.standard, htruncate, hequal, if_true]

theorem mergedRate_of_null_alone (r r' : Rate) :
    ∃ value, mergedRate [(r.key, .null)] r' = .ok value := by
  cases h : List.lookup r'.key [(r.key, Datum.null)] with
  | none => exact ⟨_, mergedRate_of_none h⟩
  | some d =>
    obtain rfl : d = .null := forRate_singleton.mp ⟨r', h⟩
    exact ⟨_, mergedRate_of_null h⟩

/-- An infinite horizon, a labour cost beyond the doubles and a missing factor slip through, and where
null is stored the rate is no double. -/
theorem faults_slip_through :
    Stops .outOfRange (maintenance (.record [("maintenance", .record
      [("horizon_years", .real Decimal.infiniteDouble)])])) ∧
    Stops .outOfRange (settings (.record [("settings", .record
      [("hourlyLaborCost", .whole (10 ^ 309))])])) ∧
    Stops .wrongKind (energy (.record [("energy", .record [("co2_factor", .null)])])) ∧
    ∃ merged, settings (.record [("settings", .record [("vatPercentage", .null)])]) = .ok merged ∧
      merged.lookup "vatPercentage" = some (.whole 21) := by
  refine ⟨?_, ?_, ?_, ?_⟩
  · exact (maintenanceRead_of_part rfl).outOfRange.mpr ⟨_, false, rfl, expand_infiniteDouble⟩
  · exact (settingsRead_of_part rfl (by decide)).outOfRange.mpr
      ⟨[], .labour, _, rfl, nofun, _, rfl, by decide +kernel⟩
  · exact (energyRead_of_part rfl).wrongKind.mpr ⟨.null, rfl, trivial⟩
  · choose value hvalue using mergedRate_of_null_alone .vat
    refine ⟨overlay _ value, mergeSettings_eq_ok_iff.mpr ⟨value, hvalue, rfl⟩, ?_⟩
    have hvat : mergedRate [(Rate.vat.key, .null)] .vat = .ok (writtenStandard .vat) :=
      mergedRate_of_null rfl
    rw [writtenStandard_vat] at hvat
    exact (lookup_overlay _ value .vat).trans
      (congrArg some (Except.ok.inj ((hvalue .vat).symm.trans hvat)))

end Configuration

end Renovation
