import Renovation.Proofs.Datum.Conversion
import Renovation.Proofs.Formula.Renaming

set_option autoImplicit false

/-!
# What a formula reads of its context

A context is read along paths of names. A formula reads only the paths under which its own variables
are looked up: two contexts that hold the same there give the same evaluation, be it a value, an
error or a fault. A null holds the same as a missing entry, and a namespace that is no record is as
good as an empty one. Even that is more than an evaluation needs. A record found under a name is no
number whatever stands in it, so what it holds can be seen in the text of an error and nowhere else.
-/

namespace Renovation

/-! ## Paths -/

namespace Datum

/-- What is found at the end of a path, null if it leads nowhere. -/
def follow (d : Datum) (path : List String) : Datum := path.foldl field d

@[simp] theorem follow_nil (d : Datum) : d.follow [] = d := rfl

@[simp] theorem follow_cons (d : Datum) (name : String) (rest : List String) :
    d.follow (name :: rest) = (d.field name).follow rest := rfl

/-- A way to look at stored values that shows which of them are null, which are what number and
which have a text. -/
structure Faithful (g : Datum → Datum) : Prop where
  isNull : ∀ d, (g d).isNull = d.isNull
  number : ∀ d, (g d).number = d.number
  isWritable : ∀ d, (g d).isWritable = d.isWritable

theorem faithful_id : Faithful id := ⟨fun _ => rfl, fun _ => rfl, fun _ => rfl⟩

/-- A record without its fields, any other value as it is. What has no text keeps having none. -/
def emptied : Datum → Datum
  | record fs => record (if (record fs).isWritable then [] else [("", unwritten)])
  | d => d

theorem faithful_emptied : Faithful emptied where
  isNull d := by cases d <;> rfl
  number d := by cases d <;> rfl
  isWritable d := by
    cases d with
    | record fs =>
      rw [emptied]
      cases (record fs).isWritable with
      | true => rfl
      | false =>
        simp [Datum.isWritable, fieldsWritable, isWritable_unwritten]
    | null | flag | whole | real | text | list => rfl

theorem emptied_of_isRecord {d d' : Datum} (h : d.isRecord = true) (h' : d'.isRecord = true)
    (hw : d'.isWritable = d.isWritable) : d'.emptied = d.emptied := by
  cases d with
  | record fs =>
    cases d' with
    | record fs' => rw [emptied, emptied, hw]
    | null | flag | whole | real | text | list => exact nomatch h'
  | null | flag | whole | real | text | list => exact nomatch h

theorem Faithful.present? {g : Datum → Datum} (hg : Faithful g) {d d' : Datum} {name : String}
    (h : g (d'.field name) = g (d.field name)) :
    (d'.present? name).map g = (d.present? name).map g := by
  have key (e : Datum) : (e.present? name).map g =
      if (g (e.field name)).isNull then none else some (g (e.field name)) := by
    unfold Datum.present?
    rw [hg.isNull]
    cases e.field name <;> rfl
  rw [key, key, h]

end Datum

namespace Entries

variable {β : Type}

def assign (name : String) (value : Option β) (entries : Entries β) : Entries β :=
  match value with
  | some value => entries.put name value
  | none => entries.filter fun entry => entry.1 != name

theorem lookup_assign (name : String) (value : Option β) (entries : Entries β) (other : String) :
    (entries.assign name value).lookup other =
      if other == name then value else entries.lookup other := by
  cases value with
  | some value => exact lookup_put name value entries other
  | none =>
    rw [assign]
    induction entries with
    | nil => cases other == name <;> rfl
    | cons entry rest ih =>
      obtain ⟨k, v⟩ := entry
      by_cases hk : k = name
      · rw [List.filter_cons_of_neg (by simp [hk]), ih, List.lookup_cons, hk]
        cases other == name <;> rfl
      · rw [List.filter_cons_of_pos (by simpa using hk), List.lookup_cons, List.lookup_cons, ih]
        by_cases ho : other = k
        · rw [beq_iff_eq.mpr ho, beq_false_of_ne (ho ▸ hk)]
          rfl
        · rw [beq_false_of_ne ho]

end Entries

namespace Datum

def alter (value : Option Datum) : List String → Datum → Datum
  | [name], record fields => record (Entries.assign name value fields)
  | name :: rest, record fields =>
    record (Entries.assign name (some (alter value rest ((record fields).field name))) fields)
  | _, d => d

variable (value : Option Datum)

theorem isRecord_alter (path : List String) (d : Datum) :
    (alter value path d).isRecord = d.isRecord := by
  unfold alter
  split <;> rfl

theorem field_assign (name other : String) (fields : Fields) :
    (record (Entries.assign name value fields)).field other =
      if other == name then value.getD null else (record fields).field other := by
  rw [field, Entries.lookup_assign]
  cases other == name <;> rfl

theorem field_alter_of_ne {name other : String} (h : other ≠ name) (rest : List String)
    (d : Datum) : (alter value (name :: rest) d).field other = d.field other := by
  unfold alter
  split
  · rename_i heq
    cases heq
    rw [field_assign, beq_false_of_ne h]
    rfl
  · rename_i heq
    cases heq
    rw [field_assign, beq_false_of_ne h]
    rfl
  · rfl

theorem field_alter_cons (name next : String) (rest : List String) (d : Datum) :
    (alter value (name :: next :: rest) d).field name =
      alter value (next :: rest) (d.field name) := by
  cases d with
  | record fields =>
    rw [alter, field_assign, beq_self_eq_true]
    · rfl
    · simp
  | null | flag | whole | real | text | list => simp [alter, field]

theorem field_alter_none (name : String) (d : Datum) : (alter none [name] d).field name = null := by
  cases d with
  | record fields =>
    rw [alter, field_assign, beq_self_eq_true]
    rfl
  | null | flag | whole | real | text | list => rfl

theorem follow_alter_of_apart {path found : List String} (d : Datum) (h : ¬ found <+: path)
    (h' : ¬ path <+: found) : (alter value path d).follow found = d.follow found := by
  induction path generalizing found d with
  | nil => exact absurd List.nil_prefix h'
  | cons name rest ih =>
    cases found with
    | nil => exact absurd List.nil_prefix h
    | cons other found =>
      rw [follow_cons, follow_cons]
      by_cases ho : other = name
      · subst ho
        rw [List.cons_prefix_cons] at h h'
        cases rest with
        | nil => exact absurd ⟨rfl, List.nil_prefix⟩ h'
        | cons next rest =>
          rw [field_alter_cons]
          exact ih _ (fun hp => h ⟨rfl, hp⟩) (fun hp => h' ⟨rfl, hp⟩)
      · rw [field_alter_of_ne value ho]

theorem isWritable_alter_none {path : List String} (d : Datum) (hnull : d.follow path = null) :
    (alter none path d).isWritable = d.isWritable := by
  induction path generalizing d with
  | nil => rfl
  | cons name rest ih =>
    cases hd : d.isRecord with
    | false => cases d with
      | record fields => cases hd
      | null | flag | whole | real | text | list => simp [alter]
    | true =>
      have hname : ((alter none (name :: rest) d).field name).isWritable =
          (d.field name).isWritable := by
        cases rest with
        | nil => rw [field_alter_none, show d.field name = null from hnull]
        | cons next rest =>
          rw [field_alter_cons]
          exact ih _ hnull
      rw [Bool.eq_iff_iff, isWritable_iff_fields ((isRecord_alter none _ d).trans hd),
        isWritable_iff_fields hd]
      refine forall_congr' fun other => ?_
      by_cases ho : other = name
      · rw [ho, hname]
      · rw [field_alter_of_ne none ho]

theorem follow_alter_none {path : List String} (found : List String) (d : Datum)
    (hnull : d.follow path = null) :
    (alter none path d).follow found = d.follow found ∨
      (found <+: path ∧ found ≠ path) ∧
        ((alter none path d).follow found).isRecord = true ∧ (d.follow found).isRecord = true ∧
        ((alter none path d).follow found).isWritable = (d.follow found).isWritable := by
  induction path generalizing found d with
  | nil => exact .inl rfl
  | cons name rest ih =>
    cases found with
    | nil =>
      rw [follow_nil, follow_nil, isRecord_alter]
      cases d with
      | record fields =>
        exact .inr ⟨⟨List.nil_prefix, nofun⟩, rfl, rfl, isWritable_alter_none _ hnull⟩
      | null | flag | whole | real | text | list => exact .inl (by simp [alter])
    | cons other found =>
      rw [follow_cons, follow_cons]
      by_cases ho : other = name
      · subst ho
        rw [follow_cons] at hnull
        cases rest with
        | nil =>
          left
          rw [field_alter_none, show d.field other = null from hnull]
        | cons next rest =>
          rw [field_alter_cons]
          refine (ih found _ hnull).imp_right fun ⟨⟨hp, hn⟩, hr⟩ => ⟨⟨?_, ?_⟩, hr⟩
          · exact List.cons_prefix_cons.mpr ⟨rfl, hp⟩
          · exact fun h => hn (List.cons.inj h).2
      · left
        rw [field_alter_of_ne none ho]

end Datum

/-! ## Lookups -/

namespace Formula

open Outcome

def lookups (aliases : Aliases) (name : String) : List (List String) :=
  [[dwellingField, name], [name]] ++
    (match aliases.lookup name with
      | some (.text current) => [[dwellingField, current], [current]]
      | _ => []) ++
    [[dimensionsField, Text.lower name]]

/-- A path under which some name of the formula is looked up. -/
def Reads (aliases : Aliases) (ts : List Token) (path : List String) : Prop :=
  ∃ name ∈ operands ts, path ∈ lookups aliases name

variable {aliases : Aliases} {context other : Datum} {g : Datum → Datum}

theorem direct?_congr (hg : Datum.Faithful g) {name : String}
    (dwelling : g (other.follow [dwellingField, name]) = g (context.follow [dwellingField, name]))
    (topLevel : g (other.follow [name]) = g (context.follow [name])) :
    (direct? other name).map g = (direct? context name).map g := by
  rw [direct?, direct?, Option.map_or, Option.map_or, hg.present? dwelling, hg.present? topLevel]

theorem throughAlias_congr (hg : Datum.Faithful g) {name : String}
    (same : ∀ path ∈ lookups aliases name, g (other.follow path) = g (context.follow path)) :
    (throughAlias aliases other name).map (Option.map g) =
      (throughAlias aliases context name).map (Option.map g) := by
  unfold throughAlias
  cases h : aliases.lookup name with
  | none => rfl
  | some entry =>
    cases entry with
    | text current =>
      have hd : (direct? other current).map g = (direct? context current).map g :=
        direct?_congr hg (same _ (by simp [lookups, h])) (same _ (by simp [lookups, h]))
      rw [Option.getD_some]
      refine congrArg Except.ok ?_
      split
      · rfl
      · exact hd
    | null | flag | whole | real | list | record => rfl

theorem resolve_congr (hg : Datum.Faithful g) {name : String} (object : context.isRecord = true)
    (object' : other.isRecord = true)
    (same : ∀ path ∈ lookups aliases name, g (other.follow path) = g (context.follow path)) :
    (resolve aliases other name).map (Option.map g) =
      (resolve aliases context name).map (Option.map g) := by
  have hdirect : (direct? other name).map g = (direct? context name).map g :=
    direct?_congr hg (same _ (by simp [lookups])) (same _ (by simp [lookups]))
  have hthrough := throughAlias_congr hg same
  have hlast : (dimensionOrLiteral? other name).map g =
      (dimensionOrLiteral? context name).map g := by
    have h : g (other.follow [dimensionsField, Text.lower name]) =
        g (context.follow [dimensionsField, Text.lower name]) := same _ (by simp [lookups])
    rw [dimensionOrLiteral?, dimensionOrLiteral?, Option.map_or, Option.map_or, hg.present? h]
  rw [resolve, resolve, object, object', if_neg (by decide), if_neg (by decide)]
  cases hd : direct? context name with
  | some value =>
    rw [hd] at hdirect
    obtain ⟨value', hd', hv⟩ := Option.map_eq_some_iff.mp hdirect
    rw [hd']
    exact congrArg (fun value => Except.ok (some value)) hv
  | none =>
    rw [hd] at hdirect
    rw [Option.map_eq_none_iff.mp hdirect]
    rcases map_eq_map hthrough with ⟨fault, ht', ht⟩ | ⟨found', found, ht', ht, hsame⟩
    · rw [ht', ht]
      rfl
    rw [ht', ht]
    cases found with
    | none =>
      cases Option.map_eq_none_iff.mp hsame
      exact congrArg Except.ok hlast
    | some value =>
      obtain ⟨value', rfl, hv⟩ := Option.map_eq_some_iff.mp hsame
      exact congrArg (fun value => Except.ok (some value)) hv

variable {α : Type} [Number α]

/-- Where all lookups of a formula look the same, the evaluations look the same. -/
theorem evaluate_congr_view (hg : Datum.Faithful g) {ts : List Token}
    (object : context.isRecord = true) (object' : other.isRecord = true)
    (same : ∀ path, Reads aliases ts path → g (other.follow path) = g (context.follow path)) :
    (evaluate aliases other ts : Except Fault (Evaluation α)).map (Evaluation.view g) =
      (evaluate aliases context ts).map (Evaluation.view g) := by
  have h := evaluate_view (α := α) id hg.number hg.isWritable fun name hm =>
    resolve_congr hg object object' fun path hp => same path ⟨name, hm, hp⟩
  simpa only [map_rename_id, Evaluation.rename_id] using h

theorem map_outline_congr {run run' : Except Fault (Evaluation α)}
    (h : run'.map (Evaluation.view g) = run.map (Evaluation.view g)) :
    run'.map Evaluation.outline = run.map Evaluation.outline := by
  rcases map_eq_map h with ⟨fault, rfl, rfl⟩ | ⟨e', e, rfl, rfl, hview⟩
  · rfl
  · exact congrArg Except.ok
      ((e'.outline_view g).symm.trans ((congrArg _ hview).trans (e.outline_view g)))

/-- A formula reads of its context what stands under its lookups and nothing else. Any other record
that holds the same there, a null counting as a missing entry, gives the same evaluation or the same
fault. An entry apart from all lookups can be put in, changed or taken out. A null can be taken out
wherever it is: there is the same fault, or there are the same steps, the same value and the same
kind of error, and the same text unless a record around the null is itself looked up and shown in
it. -/
theorem evaluate_reads_lookups (aliases : Aliases) (context : Datum) (ts : List Token)
    (object : context.isRecord = true) :
    let run (c : Datum) : Except Fault (Evaluation α) := evaluate aliases c ts
    (∀ other, other.isRecord = true →
      (∀ path, Reads aliases ts path → other.follow path = context.follow path) →
      run other = run context) ∧
    (∀ path value, (∀ found, Reads aliases ts found → ¬ found <+: path ∧ ¬ path <+: found) →
      run (context.alter value path) = run context) ∧
    (∀ path, context.follow path = .null →
      (run (context.alter none path)).map Evaluation.outline =
        (run context).map Evaluation.outline ∧
      ((∀ found, Reads aliases ts found → found <+: path → found = path) →
        run (context.alter none path) = run context)) := by
  intro run
  have main (other : Datum) (object' : other.isRecord = true)
      (same : ∀ path, Reads aliases ts path → other.follow path = context.follow path) :
      run other = run context := by
    have h := evaluate_congr_view (α := α) Datum.faithful_id object object' same
    rwa [map_view_id, map_view_id] at h
  refine ⟨main, ?_, fun path hnull => ⟨?_, fun around => ?_⟩⟩
  · intro path value apart
    refine main _ ((Datum.isRecord_alter value path context).trans object) fun found hf => ?_
    exact Datum.follow_alter_of_apart value context (apart found hf).1 (apart found hf).2
  · refine map_outline_congr (evaluate_congr_view Datum.faithful_emptied object
      ((Datum.isRecord_alter none path context).trans object) fun found _ => ?_)
    rcases Datum.follow_alter_none found context hnull with heq | ⟨-, hr', hr, hw⟩
    · rw [heq]
    · exact Datum.emptied_of_isRecord hr hr' hw
  · refine main _ ((Datum.isRecord_alter none path context).trans object) fun found hf => ?_
    rcases Datum.follow_alter_none found context hnull with heq | ⟨⟨hp, hn⟩, -⟩
    · exact heq
    · exact absurd (around found hf hp) hn

/-- The dwelling has a null where the other context has no dwelling at all, and each has an entry
that the formula does not ask for. The null can be taken out, the entry can be changed. -/
theorem evaluate_beside_other_entries :
    let context : Datum := .record [("woningSpecifiek", .record [("lengte", .null)]),
      ("lengte", .real 4.0), ("dakLengte", .text "1,5"), ("hoogte", .whole 7)]
    let other : Datum := .record
      [("lengte", .real 4.0), ("breedte", .list []), ("dakLengte", .text "1,5")]
    let ts : List Token := [.operand "LengteDakvlak", .operator .minus, .operand "lengte"]
    let run (c : Datum) : Except Fault (Evaluation Float) := evaluate standardAliases c ts
    context.isRecord = true ∧ other.isRecord = true ∧
      (∀ path, Reads standardAliases ts path → other.follow path = context.follow path) ∧
      run other = run context ∧
      context.follow ["woningSpecifiek", "lengte"] = .null ∧
      run (context.alter none ["woningSpecifiek", "lengte"]) = run context ∧
      run (context.alter (some (.text "hoog")) ["hoogte"]) = run context := by
  intro context other ts run
  have reads (path : List String) (h : Reads standardAliases ts path) :
      path ∈ [["woningSpecifiek", "LengteDakvlak"], ["LengteDakvlak"],
        ["woningSpecifiek", "dakLengte"], ["dakLengte"], ["dimensions", "lengtedakvlak"]] ++
        [["woningSpecifiek", "lengte"], ["lengte"], ["dimensions", "lengte"]] := by
    have hroof : Text.lower "LengteDakvlak" = "lengtedakvlak" := by decide +kernel
    have hlength : Text.lower "lengte" = "lengte" := by decide +kernel
    obtain ⟨name, hm, hp⟩ := h
    have hm' : name ∈ ["LengteDakvlak", "lengte"] := hm
    rcases List.mem_cons.mp hm' with rfl | hm'
    · rw [lookups, hroof] at hp
      exact List.mem_append_left _ hp
    · cases List.mem_singleton.mp hm'
      rw [lookups, hlength] at hp
      exact List.mem_append_right _ hp
  have same (path : List String) (h : Reads standardAliases ts path) :
      other.follow path = context.follow path := by
    have hp := reads path h
    simp only [List.mem_append, List.mem_cons, List.not_mem_nil, or_false] at hp
    rcases hp with (rfl | rfl | rfl | rfl | rfl) | rfl | rfl | rfl <;> rfl
  obtain ⟨main, entry, null⟩ := evaluate_reads_lookups (α := Float) standardAliases context ts rfl
  refine ⟨rfl, rfl, same, main other rfl same, rfl, (null _ rfl).2 ?_, entry _ _ ?_⟩
  · intro found h
    have hp := reads found h
    clear h
    revert found
    decide
  · intro found h
    have hp := reads found h
    clear h
    revert found
    decide

end Formula

end Renovation
