import Mathlib.Data.List.Nodup
import Mathlib.Tactic.Tauto
import Renovation.Configuration
import Renovation.Proofs.Datum.Readers
import Renovation.Proofs.Outcome

set_option autoImplicit false

/-!
# Settings as they are stored and as they are merged

Stored settings are read in two ways: as they are, or first merged over the standard ones. Merging
reads its numbers strictly and reading does so leniently, so that the two ways part where a flag
stands for a number, and where a number is written with a decimal comma or beside an information
separator. Nowhere else.
-/

namespace Renovation

open Outcome

/-! ## Look-ups -/

theorem Entries.lookup_update {β : Type} {newer : Entries β}
    (distinct : (newer.map Prod.fst).Nodup) (base : Entries β) (name : String) :
    (Entries.update base newer).lookup name = (newer.lookup name).or (base.lookup name) := by
  induction newer generalizing base with
  | nil => rfl
  | cons entry rest ih =>
    obtain ⟨k, v⟩ := entry
    obtain ⟨hk, hrest⟩ := List.nodup_cons.mp distinct
    have hstep : Entries.update base ((k, v) :: rest) = Entries.update (base.put k v) rest := rfl
    rw [hstep, ih hrest, Entries.lookup_put, List.lookup_cons]
    by_cases hname : name = k
    · rw [hname, beq_self_eq_true, lookup_of_not_mem hk]
      rfl
    · rw [beq_false_of_ne hname]
      rfl

section

variable {κ β γ : Type} [BEq β] [LawfulBEq β] {key : κ → β} {value : κ → γ} {ks : List κ}

theorem lookup_map_of_mem (injective : Function.Injective key) {k : κ} (h : k ∈ ks) :
    (ks.map fun k => (key k, value k)).lookup (key k) = some (value k) := by
  induction ks with
  | nil => cases h
  | cons k' rest ih =>
    rw [List.map_cons, List.lookup_cons]
    by_cases hk : k = k'
    · rw [hk, beq_self_eq_true]
    · rw [beq_false_of_ne fun heq => hk (injective heq)]
      exact ih ((List.mem_cons.mp h).resolve_left hk)

end

namespace Rate

theorem mem_all (r : Rate) : r ∈ all := by
  cases r with
  | labour | vat | inflation | cornerHouse => decide
  | markup m => cases m <;> decide

theorem nodup_keys : (all.map key).Nodup := by decide +kernel

theorem key_injective : Function.Injective key := fun r s h =>
  List.inj_on_of_nodup_map nodup_keys (mem_all r) (mem_all s) h

theorem isFinite_standard (r : Rate) : Datum.isFinite r.standard = true := by
  cases r with
  | labour | vat | inflation | cornerHouse => decide +kernel
  | markup m => cases m <;> decide +kernel

end Rate

namespace Settings

/-! ## Reading -/

/-- The number that a reader finds for a rate: the record's own, or the standard one where the
record has none. -/
def Gives (Reads : Datum → Float → Prop) (fields : Datum.Fields) (r : Rate) (x : Float) : Prop :=
  (fields.lookup r.key).elim (x = r.standard) fun d => Reads d x

def amounts (fields : Datum.Fields) : Except Fault (List Float) := do
  customAmountsOf (← customValues fields)

theorem gives_lenient_iff {fields : Datum.Fields} {r : Rate} {x : Float} :
    Gives Datum.Lenient fields r x ↔
      ∃ found, storedRate fields r = .ok found ∧ found.getD r.standard = x := by
  unfold Gives Datum.Lenient storedRate
  cases fields.lookup r.key with
  | none => simp [eq_comm]
  | some d =>
    simp only [Option.elim_some]
    cases d.number with
    | error fault => simp
    | ok found => cases found <;> simp

theorem lookup_rates {γ : Type} (value : Rate → γ) (r : Rate) :
    (Rate.all.map fun r => (r, value r)).lookup r = some (value r) :=
  lookup_map_of_mem Function.injective_id r.mem_all

theorem ofFields_eq_ok_iff {fields : Datum.Fields} {s : Settings Float} :
    ofFields fields = .ok s ↔
      (∀ r, Gives Datum.Lenient fields r (s.rate r)) ∧ amounts fields = .ok s.customAmounts := by
  simp only [gives_lenient_iff]
  constructor
  · intro h
    obtain ⟨rates, hrates, h⟩ := bind_eq_ok.mp h
    obtain ⟨values, hvalues, h⟩ := bind_eq_ok.mp h
    obtain ⟨found, hfound, h⟩ := bind_eq_ok.mp h
    obtain ⟨value, hvalue, rfl⟩ := mapM_pairs_eq_ok_iff.mp hrates
    obtain rfl := Except.ok.inj h
    refine ⟨fun r => ⟨value r, hvalue r r.mem_all, ?_⟩, ?_⟩
    · change _ = (((Rate.all.map fun r => (r, value r)).lookup r).getD none).getD r.standard
      rw [lookup_rates]
      rfl
    · rw [amounts, hvalues, ok_bind, hfound]
      exact congrArg Except.ok (List.map_id' found).symm
  · rintro ⟨hgives, hamounts⟩
    choose found hfound hx using hgives
    have hrates : storedRates fields = .ok (Rate.all.map fun r => (r, found r)) :=
      mapM_pairs_eq_ok_iff.mpr ⟨found, fun r _ => hfound r, rfl⟩
    obtain ⟨values, hvalues, hcustom⟩ := bind_eq_ok.mp hamounts
    obtain ⟨rate, customAmounts⟩ := s
    simp only [ofFields, hrates, hvalues, hcustom, ok_bind, pure_eq, Except.ok.injEq,
      Settings.mk.injEq]
    refine ⟨funext fun r => ?_, List.map_id' customAmounts⟩
    rw [lookup_rates]
    exact hx r

theorem toFields_record (fields : Datum.Fields) : (Datum.record fields).toFields = .ok fields := by
  cases fields <;> rfl

theorem read_record_eq_ok_iff {fields : Datum.Fields} {s : Settings Float} :
    read (.record fields) = .ok s ↔
      (∀ r, Gives Datum.Lenient fields r (s.rate r)) ∧ amounts fields = .ok s.customAmounts := by
  rw [read, toFields_record, ok_bind, ofFields_eq_ok_iff]

/-! ## Merging -/

open Renovation.Configuration

def overlay (fields : Datum.Fields) (value : Rate → Datum) : Datum.Fields :=
  (Entries.update standardRates fields).update (Rate.all.map fun r => (r.key, value r))

theorem mergeSettings_eq_ok_iff {fields merged : Datum.Fields} :
    mergeSettings (.record fields) = .ok merged ↔
      ∃ value, (∀ r, mergedRate fields r = .ok (value r)) ∧ merged = overlay fields value := by
  rw [mergeSettings, toFields_record, ok_bind, bind_eq_ok]
  constructor
  · rintro ⟨rates, hrates, h⟩
    obtain ⟨value, hvalue, rfl⟩ := mapM_pairs_eq_ok_iff.mp hrates
    exact ⟨value, fun r => hvalue r r.mem_all, (Except.ok.inj h).symm⟩
  · rintro ⟨value, hvalue, rfl⟩
    exact ⟨_, mapM_pairs_eq_ok_iff.mpr ⟨value, fun r _ => hvalue r, rfl⟩, rfl⟩

theorem lookup_overlay (fields : Datum.Fields) (value : Rate → Datum) (r : Rate) :
    (overlay fields value).lookup r.key = some (value r) := by
  have hkeys : ((Rate.all.map fun r => (r.key, value r)).map Prod.fst).Nodup := by
    rw [List.map_map]
    exact Rate.nodup_keys
  rw [overlay, Entries.lookup_update hkeys, lookup_map_of_mem Rate.key_injective r.mem_all]
  rfl

theorem lookup_overlay_of_not_mem {fields : Datum.Fields} (distinct : (fields.map Prod.fst).Nodup)
    (value : Rate → Datum) {name : String} (h : name ∉ Rate.all.map Rate.key) :
    (overlay fields value).lookup name = fields.lookup name := by
  have hrates (value : Rate → Datum) :
      (Rate.all.map fun r => (r.key, value r)).map Prod.fst = Rate.all.map Rate.key := by
    rw [List.map_map]
    rfl
  have hnone (value : Rate → Datum) :
      (Rate.all.map fun r => (r.key, value r)).lookup name = none :=
    Entries.lookup_of_not_mem (by rwa [hrates])
  have hkeys : ((Rate.all.map fun r => (r.key, value r)).map Prod.fst).Nodup := by
    rw [hrates]
    exact Rate.nodup_keys
  rw [overlay, Entries.lookup_update hkeys, hnone, Entries.lookup_update distinct, standardRates,
    hnone, Option.none_or, Option.or_none]

theorem amounts_overlay {fields : Datum.Fields} (distinct : (fields.map Prod.fst).Nodup)
    (value : Rate → Datum) : amounts (overlay fields value) = amounts fields := by
  have hfield (name : String) (h : name ∉ Rate.all.map Rate.key) :
      (Datum.record (overlay fields value)).field name = (Datum.record fields).field name := by
    rw [Datum.field, Datum.field, lookup_overlay_of_not_mem distinct value h]
  have hfields := hfield "customFields" (by decide +kernel)
  have hfirst := hfield "customValue1" (by decide +kernel)
  have hsecond := hfield "customValue2" (by decide +kernel)
  simp only [amounts, customValues, hfields, hfirst, hsecond]

theorem mergedRate_of_stored {fields : Datum.Fields} {r : Rate} {d : Datum}
    (h : fields.lookup r.key = some d) (hd : d ≠ .null) {v : Datum} :
    mergedRate fields r = .ok v ↔ ∃ x, d.toDouble = .ok x ∧ .real x = v := by
  unfold mergedRate
  split
  · rename_i hnone
    rw [h] at hnone
    cases hnone
  · rename_i hnull
    rw [h] at hnull
    exact absurd (Option.some.inj hnull) hd
  · rename_i stored _ hstored
    obtain rfl : d = stored := Option.some.inj (h.symm.trans hstored)
    cases d.toDouble with
    | ok x => simp
    | error fault =>
      refine iff_of_false (fun hv => ?_) (by simp)
      dsimp only at hv
      split at hv <;> cases hv

theorem gives_strict_iff {fields : Datum.Fields} {r : Rate}
    (present : fields.lookup r.key ≠ some .null) {x : Float} :
    Gives Datum.Strict fields r x ↔ ∃ v, mergedRate fields r = .ok v ∧ v.Lenient x := by
  unfold Gives
  cases h : fields.lookup r.key with
  | none =>
    have hmerged : mergedRate fields r = .ok (.real r.standard) := by rw [mergedRate, h]
    simp only [Option.elim_none, hmerged, Except.ok.injEq, exists_eq_left',
      Datum.lenient_real_iff]
    exact ⟨fun hx => ⟨hx.symm, hx ▸ r.isFinite_standard⟩, fun hx => hx.1.symm⟩
  | some d =>
    have hd : d ≠ .null := fun hnull => present (hnull ▸ h)
    simp only [Option.elim_some, mergedRate_of_stored h hd]
    constructor
    · rintro ⟨hx, hfinite⟩
      exact ⟨_, ⟨x, hx, rfl⟩, Datum.lenient_real_iff.mpr ⟨rfl, hfinite⟩⟩
    · rintro ⟨_, ⟨y, hy, rfl⟩, hx⟩
      obtain ⟨rfl, hfinite⟩ := Datum.lenient_real_iff.mp hx
      exact ⟨hy, hfinite⟩

theorem gives_overlay_iff {fields : Datum.Fields} {value : Rate → Datum} {r : Rate} {x : Float} :
    Gives Datum.Lenient (overlay fields value) r x ↔ (value r).Lenient x := by
  rw [Gives, lookup_overlay, Option.elim_some]

def readMerged (fields : Datum.Fields) : Except Fault (Settings Float) := do
  ofFields (← mergeSettings (.record fields))

theorem readMerged_eq_ok_iff {fields : Datum.Fields} (distinct : (fields.map Prod.fst).Nodup)
    (present : ∀ r : Rate, fields.lookup r.key ≠ some .null) {s : Settings Float} :
    readMerged fields = .ok s ↔
      (∀ r, Gives Datum.Strict fields r (s.rate r)) ∧ amounts fields = .ok s.customAmounts := by
  simp only [readMerged, bind_eq_ok, mergeSettings_eq_ok_iff, ofFields_eq_ok_iff,
    gives_strict_iff (present _)]
  constructor
  · rintro ⟨_, ⟨value, hvalue, rfl⟩, hgives, hamounts⟩
    rw [amounts_overlay distinct] at hamounts
    simp only [gives_overlay_iff] at hgives
    exact ⟨fun r => ⟨value r, hvalue r, hgives r⟩, hamounts⟩
  · rintro ⟨hgives, hamounts⟩
    choose value hvalue hnumber using hgives
    refine ⟨_, ⟨value, hvalue, rfl⟩, ?_⟩
    simp only [gives_overlay_iff, amounts_overlay distinct]
    exact ⟨hnumber, hamounts⟩

/-! ## Where the two agree -/

def ForRate (fields : Datum.Fields) (d : Datum) : Prop := ∃ r : Rate, fields.lookup r.key = some d

theorem gives_returns_iff {Reads : Datum → Float → Prop} {fields : Datum.Fields} :
    (∀ r, ∃ x, Gives Reads fields r x) ↔ ∀ d, ForRate fields d → ∃ x, Reads d x := by
  constructor
  · rintro h d ⟨r, hr⟩
    obtain ⟨x, hx⟩ := h r
    rw [Gives, hr, Option.elim_some] at hx
    exact ⟨x, hx⟩
  · intro h r
    unfold Gives
    cases hr : fields.lookup r.key with
    | none => exact ⟨r.standard, rfl⟩
    | some d => exact h d ⟨r, hr⟩

theorem exists_settings_iff {Reads : Datum → Float → Prop} {fields : Datum.Fields}
    {first : Except Fault (List Float)} :
    (∃ s : Settings Float, (∀ r, Gives Reads fields r (s.rate r)) ∧ first = .ok s.customAmounts) ↔
      (∀ d, ForRate fields d → ∃ x, Reads d x) ∧ ∃ custom, first = .ok custom := by
  rw [← gives_returns_iff]
  constructor
  · rintro ⟨s, hgives, hcustom⟩
    exact ⟨fun r => ⟨s.rate r, hgives r⟩, s.customAmounts, hcustom⟩
  · rintro ⟨hgives, custom, hcustom⟩
    choose rate hrate using hgives
    exact ⟨⟨rate, custom⟩, hrate, hcustom⟩

variable {fields : Datum.Fields}

theorem read_returns_iff :
    (∃ s : Settings Float, read (.record fields) = .ok s) ↔
      (∀ d, ForRate fields d → ∃ x, d.Lenient x) ∧ ∃ custom, amounts fields = .ok custom := by
  simp only [read_record_eq_ok_iff]
  exact exists_settings_iff

theorem readMerged_returns_iff (distinct : (fields.map Prod.fst).Nodup)
    (present : ∀ r : Rate, fields.lookup r.key ≠ some .null) :
    (∃ s, readMerged fields = .ok s) ↔
      (∀ d, ForRate fields d → d.IsFlag ∨ (∃ x, d.Lenient x) ∧ d.Plain) ∧
        ∃ custom, amounts fields = .ok custom := by
  simp only [readMerged_eq_ok_iff distinct present, ← Datum.strict_returns_iff]
  exact exists_settings_iff

theorem gives_unique {r : Rate} {x y : Float} (hx : Gives Datum.Strict fields r x)
    (hy : Gives Datum.Lenient fields r y) : x = y := by
  unfold Gives at hx hy
  cases h : fields.lookup r.key with
  | none =>
    rw [h, Option.elim_none] at hx hy
    exact hx.trans hy.symm
  | some d =>
    rw [h, Option.elim_some] at hx hy
    exact hx.eq_of_lenient hy

theorem readMerged_eq_read (distinct : (fields.map Prod.fst).Nodup)
    (present : ∀ r : Rate, fields.lookup r.key ≠ some .null) {s s' : Settings Float}
    (h : readMerged fields = .ok s) (h' : read (.record fields) = .ok s') : s = s' := by
  obtain ⟨hgives, hcustom⟩ := (readMerged_eq_ok_iff distinct present).mp h
  obtain ⟨hgives', hcustom'⟩ := read_record_eq_ok_iff.mp h'
  obtain ⟨rate, customAmounts⟩ := s
  obtain ⟨rate', customAmounts'⟩ := s'
  obtain rfl : customAmounts = customAmounts' := Except.ok.inj (hcustom.symm.trans hcustom')
  obtain rfl : rate = rate' := funext fun r => gives_unique (hgives r) (hgives' r)
  rfl

theorem agrees_iff_returns (distinct : (fields.map Prod.fst).Nodup)
    (present : ∀ r : Rate, fields.lookup r.key ≠ some .null) :
    (∀ s, readMerged fields = .ok s ↔ read (.record fields) = .ok s) ↔
      ((∃ s, readMerged fields = .ok s) ↔
        ∃ s : Settings Float, read (.record fields) = .ok s) := by
  constructor
  · exact fun h => exists_congr h
  · intro h s
    constructor
    · intro hs
      obtain ⟨s', hs'⟩ := h.mp ⟨s, hs⟩
      rwa [readMerged_eq_read distinct present hs hs']
    · intro hs
      obtain ⟨s', hs'⟩ := h.mpr ⟨s, hs⟩
      rwa [← readMerged_eq_read distinct present hs' hs]

theorem exists_flag_iff
    (hstrict : ∀ d, ForRate fields d → d.IsFlag ∨ (∃ x, d.Lenient x) ∧ d.Plain) :
    (∃ d, ForRate fields d ∧ d.IsFlag) ↔ ¬ ∀ d, ForRate fields d → ∃ x, d.Lenient x := by
  constructor
  · rintro ⟨_, hd, b, rfl⟩ hlenient
    obtain ⟨x, hx⟩ := hlenient _ hd
    exact Datum.not_lenient_flag b x hx
  · intro hlenient
    by_contra hnone
    refine hlenient fun d hd => ?_
    exact ((hstrict d hd).resolve_left fun hflag => hnone ⟨d, hd, hflag⟩).1

theorem exists_not_plain_iff (hlenient : ∀ d, ForRate fields d → ∃ x, d.Lenient x) :
    (∃ d, ForRate fields d ∧ ¬ d.Plain) ↔
      ¬ ∀ d, ForRate fields d → d.IsFlag ∨ (∃ x, d.Lenient x) ∧ d.Plain := by
  constructor
  · rintro ⟨d, hd, hnot⟩ hstrict
    obtain ⟨x, hx⟩ := hlenient d hd
    rcases hstrict d hd with ⟨b, rfl⟩ | ⟨-, hplain⟩
    · exact Datum.not_lenient_flag b x hx
    · exact hnot hplain
  · intro hstrict
    by_contra hnone
    push Not at hnone
    exact hstrict fun d hd => .inr ⟨hlenient d hd, hnone d hd⟩

theorem agree_iff {merged direct custom flags commas : Prop} (hflags : merged → (flags ↔ ¬ direct))
    (hcommas : direct → (commas ↔ ¬ merged)) :
    (merged ∧ custom ↔ direct ∧ custom) ↔
      ¬ (custom ∧ (merged ∧ flags ∨ direct ∧ commas)) := by
  rw [and_congr_right hflags, and_congr_right hcommas]
  tauto

/-- Merged settings and settings as they are stored come to the same, unless the custom amounts can
be read and either some rate is a flag and all others are plain numbers, or some rate is not plain
and all are numbers. -/
theorem readMerged_agrees_iff (distinct : (fields.map Prod.fst).Nodup)
    (present : ∀ r : Rate, fields.lookup r.key ≠ some .null) :
    (∀ s, readMerged fields = .ok s ↔ read (.record fields) = .ok s) ↔
      ¬ ((∃ custom, amounts fields = .ok custom) ∧
        ((∀ d, ForRate fields d → d.IsFlag ∨ (∃ x, d.Lenient x) ∧ d.Plain) ∧
            (∃ d, ForRate fields d ∧ d.IsFlag) ∨
          (∀ d, ForRate fields d → ∃ x, d.Lenient x) ∧ ∃ d, ForRate fields d ∧ ¬ d.Plain)) := by
  rw [agrees_iff_returns distinct present, readMerged_returns_iff distinct present,
    read_returns_iff]
  exact agree_iff exists_flag_iff exists_not_plain_iff

theorem readMerged_agrees_on_padded :
    let fields : Datum.Fields := [("vatPercentage", .whole 9), ("risico", .text " 2.5 "),
      ("label", .text "1,5"), ("customFields", .list [.record [("value", .text "12,5")]])]
    (fields.map Prod.fst).Nodup ∧ (∀ r : Rate, fields.lookup r.key ≠ some .null) ∧
    ∀ s, readMerged fields = .ok s ↔ read (.record fields) = .ok s := by
  intro fields
  have hvalues {d : Datum} (hd : ForRate fields d) : d = .whole 9 ∨ d = .text " 2.5 " := by
    obtain ⟨r, hr⟩ := hd
    obtain ⟨front, back, hsplit, -⟩ := List.lookup_eq_some_iff.mp hr
    have hmem : (r.key, d) ∈ fields := by
      rw [hsplit]
      simp
    have hkey : r.key ∈ Rate.all.map Rate.key := List.mem_map_of_mem r.mem_all
    simp only [fields, List.mem_cons, Prod.mk.injEq, List.not_mem_nil, or_false] at hmem
    rcases hmem with ⟨-, rfl⟩ | ⟨-, rfl⟩ | ⟨hother, -⟩ | ⟨hother, -⟩
    · exact .inl rfl
    · exact .inr rfl
    · rw [hother] at hkey
      exact absurd hkey (by decide +kernel)
    · rw [hother] at hkey
      exact absurd hkey (by decide +kernel)
  have distinct : (fields.map Prod.fst).Nodup := by decide +kernel
  have present (r : Rate) : fields.lookup r.key ≠ some .null := by
    intro h
    rcases hvalues ⟨r, h⟩ with h | h <;> cases h
  refine ⟨distinct, present, (readMerged_agrees_iff distinct present).mpr ?_⟩
  rintro ⟨-, ⟨-, d, hd, b, rfl⟩ | ⟨-, d, hd, hplain⟩⟩
  · rcases hvalues hd with h | h <;> cases h
  · rcases hvalues hd with rfl | rfl
    · exact hplain trivial
    · exact hplain (by simp [Datum.Plain, Decimal.foreign])

theorem forRate_singleton {r : Rate} {d d' : Datum} : ForRate [(r.key, d)] d' ↔ d' = d := by
  constructor
  · rintro ⟨r', h⟩
    rw [List.lookup_cons] at h
    cases hkey : r'.key == r.key with
    | true =>
      rw [hkey] at h
      exact (Option.some.inj h).symm
    | false =>
      rw [hkey] at h
      cases h
  · rintro rfl
    exact ⟨r, List.lookup_cons_self⟩

theorem present_singleton {r : Rate} {d : Datum} (hd : d ≠ .null) (r' : Rate) :
    List.lookup r'.key [(r.key, d)] ≠ some .null :=
  fun h => hd (forRate_singleton.mp ⟨r', h⟩).symm

theorem lenient_decimal_comma : (Datum.text "21,5").Lenient 21.5 := by
  have hpoint : Datum.withDecimalPoint (Text.trim "21,5") = "21.5" := by
    rw [show Text.trim "21,5" = "21,5" by decide, Datum.withDecimalPoint, String.contains_char_eq,
      String.contains_char_eq]
    decide
  have hread : (Decimal.readDouble? "21.5").bind Datum.finite? = some 21.5 := by decide +kernel
  rw [Datum.Lenient, Datum.number, Datum.numberOfText?, hpoint, hread]

/-- Merging takes a flag that reading refuses, and refuses a decimal comma that reading takes. -/
theorem readMerged_parts_from_read :
    (∃ s, readMerged [("vatPercentage", .flag true)] = .ok s ∧ s.rate .vat = 1.0) ∧
    (∀ s : Settings Float, read (.record [("vatPercentage", .flag true)]) ≠ .ok s) ∧
    (∀ s, readMerged [("vatPercentage", .text "21,5")] ≠ .ok s) ∧
    ∃ s : Settings Float, read (.record [("vatPercentage", .text "21,5")]) = .ok s ∧
      s.rate .vat = 21.5 := by
  have distinct (d : Datum) : ([(Rate.vat.key, d)].map Prod.fst).Nodup := List.nodup_singleton _
  have custom (d : Datum) : amounts [(Rate.vat.key, d)] = .ok [] := rfl
  have hflag : Datum.flag true ≠ .null := nofun
  have hcomma : Datum.text "21,5" ≠ .null := nofun
  refine ⟨?_, ?_, ?_, ?_⟩
  · obtain ⟨s, hs⟩ := (readMerged_returns_iff (distinct (.flag true))
      (present_singleton hflag)).mpr
        ⟨fun d hd => .inl ⟨true, forRate_singleton.mp hd⟩, [], custom _⟩
    refine ⟨s, hs, ?_⟩
    obtain ⟨hgives, -⟩ := (readMerged_eq_ok_iff (distinct _) (present_singleton hflag)).mp hs
    have hvat : (Datum.flag true).Strict (s.rate .vat) := hgives .vat
    exact (Except.ok.inj hvat.1).symm
  · intro s hs
    obtain ⟨hlenient, -⟩ := read_returns_iff.mp ⟨s, hs⟩
    obtain ⟨x, hx⟩ := hlenient (.flag true) ((forRate_singleton (r := .vat)).mpr rfl)
    exact Datum.not_lenient_flag true x hx
  · intro s hs
    obtain ⟨hstrict, -⟩ :=
      (readMerged_returns_iff (distinct _) (present_singleton hcomma)).mp ⟨s, hs⟩
    rcases hstrict (.text "21,5") ((forRate_singleton (r := .vat)).mpr rfl) with
      ⟨b, hb⟩ | ⟨-, hplain⟩
    · cases hb
    · exact hplain ',' (by decide) (by decide)
  · obtain ⟨s, hs⟩ : ∃ s : Settings Float,
        read (.record [(Rate.vat.key, .text "21,5")]) = .ok s := by
      refine read_returns_iff.mpr ⟨fun d hd => ?_, [], custom _⟩
      rw [forRate_singleton.mp hd]
      exact ⟨21.5, lenient_decimal_comma⟩
    refine ⟨s, hs, ?_⟩
    obtain ⟨hgives, -⟩ := read_record_eq_ok_iff.mp hs
    have hvat : (Datum.text "21,5").Lenient (s.rate .vat) := hgives .vat
    exact Option.some.inj (Except.ok.inj (hvat.symm.trans lenient_decimal_comma))

end Settings

end Renovation
