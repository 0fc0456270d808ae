import Mathlib.Algebra.Order.Ring.Rat
import Mathlib.Data.List.Infix
import Mathlib.Data.List.Nodup
import Renovation.EnergyLabel
import Renovation.Proofs.Outcome

set_option autoImplicit false

/-!
# The label of a use

The labels are put into the stable order of their bounds and searched from the front, each against
the bound of the next one. As the order rises, the bounds that a use has reached stand in front of
those it has not, so that the search ends after as many steps as there are reached bounds behind the
first label. The label it ends at is the last one whose bound is reached, or the first one if none
is. From the count follows that a higher use never has a label further in front.
-/

namespace Renovation

/-! ## Stored numbers -/

namespace Datum

def value (d : Datum) : ℚ :=
  match d.extent? with
  | some (some (.finite x)) => x
  | _ => 0

def IsNumber (d : Datum) : Prop := d.extent? = some (some (.finite d.value))

theorem isNumber_of_extent {d : Datum} {x : ℚ} (h : d.extent? = some (some (.finite x))) :
    d.IsNumber ∧ d.value = x := by
  have hvalue : d.value = x := by rw [value, h]
  rw [IsNumber, hvalue]
  exact ⟨h, rfl⟩

theorem isNumber_whole (n : ℤ) : (whole n).IsNumber := rfl

theorem below?_of_isNumber {a b : Datum} (ha : a.IsNumber) (hb : b.IsNumber) :
    below? a b = some (decide (a.value < b.value)) := by
  have htext (s : String) : a ≠ text s := by
    rintro rfl
    cases ha
  have hlist (xs : List Datum) : a ≠ list xs := by
    rintro rfl
    cases ha
  rw [below?, ha, hb]
  · rfl
  · exact fun s _ hs => absurd hs (htext s)
  · exact fun xs _ hxs => absurd hxs (hlist xs)

end Datum

namespace EnergyLabel

def bound (entry : String × Datum) : ℚ := entry.2.value

def Numeric (bounds : Bounds) : Prop := ∀ entry ∈ bounds, entry.2.IsNumber

theorem numeric_whole (entries : List (String × ℤ)) :
    Numeric (entries.map fun entry => (entry.1, .whole entry.2)) := by
  intro entry hentry
  obtain ⟨_, -, rfl⟩ := List.mem_map.mp hentry
  exact Datum.isNumber_whole _

/-! ## The stable order -/

/-- The order by rising bound in which entries with one bound stand as they stood. -/
structure StablyOrdered (bounds order : List (String × Datum)) : Prop where
  perm : order.Perm bounds
  rising : order.Pairwise fun a b => bound a ≤ bound b
  stable : ∀ x, order.filter (bound · = x) = bounds.filter (bound · = x)

theorem sorted_eq {bounds : Bounds} (h : Numeric bounds) :
    sorted bounds = bounds.mergeSort fun a b => decide (bound a ≤ bound b) := by
  have hle : ∀ a ∈ bounds, ∀ b ∈ bounds, inOrder a b = decide (bound a ≤ bound b) := by
    intro a ha b hb
    rw [inOrder, Datum.below?_of_isNumber (h b hb) (h a ha)]
    change _ = decide (a.2.value ≤ b.2.value)
    rcases lt_or_ge b.2.value a.2.value with hlt | hge
    · rw [decide_eq_true hlt, decide_eq_false hlt.not_ge]
      rfl
    · rw [decide_eq_false hge.not_gt, decide_eq_true hge]
      rfl
  have hmap := List.map_mergeSort (f := id) (s := fun a b => decide (bound a ≤ bound b)) hle
  rwa [List.map_id, List.map_id] at hmap

theorem stablyOrdered_sorted {bounds : Bounds} (h : Numeric bounds) :
    StablyOrdered bounds (sorted bounds) := by
  have trans (a b c : String × Datum) : decide (bound a ≤ bound b) → decide (bound b ≤ bound c) →
      decide (bound a ≤ bound c) := by
    simp only [decide_eq_true_eq]
    exact le_trans
  have total (a b : String × Datum) : decide (bound a ≤ bound b) || decide (bound b ≤ bound a) := by
    simp only [Bool.or_eq_true, decide_eq_true_eq]
    exact le_total _ _
  rw [sorted_eq h]
  have perm := List.mergeSort_perm bounds fun a b => decide (bound a ≤ bound b)
  refine ⟨perm, ?_, fun x => ?_⟩
  · exact (List.pairwise_mergeSort trans total bounds).imp fun h => of_decide_eq_true h
  · -- entries with one bound are in order already, so that the sort keeps them in a row
    have hequal : (bounds.filter (bound · = x)).Pairwise fun a b =>
        decide (bound a ≤ bound b) = true := by
      refine List.pairwise_of_forall_mem_list fun a ha b hb => ?_
      rw [decide_eq_true_eq, of_decide_eq_true (List.mem_filter.mp ha).2,
        of_decide_eq_true (List.mem_filter.mp hb).2]
    have hsub := (List.sublist_mergeSort trans total hequal List.filter_sublist).filter
      (bound · = x)
    rw [List.filter_filter] at hsub
    simp only [Bool.and_self] at hsub
    exact (hsub.eq_of_length (perm.filter _).length_eq.symm).symm

theorem StablyOrdered.eq_of_perm {bounds other order order' : List (String × Datum)}
    (h : StablyOrdered bounds order) (h' : StablyOrdered other order') (perm : other.Perm bounds)
    (distinct : (bounds.map bound).Nodup) : order' = order := by
  have hperm : order'.Perm order := h'.perm.trans (perm.trans h.perm.symm)
  refine hperm.eq_of_pairwise ?_ h'.rising h.rising
  intro a b ha hb hab hba
  exact List.inj_on_of_nodup_map distinct ((h'.perm.trans perm).subset ha) (h.perm.subset hb)
    (le_antisymm hab hba)

theorem sorted?_eq {bounds : Bounds} (h : Numeric bounds) :
    sorted? bounds = .ok (sorted bounds) := by
  unfold sorted?
  split
  · rw [sorted, List.mergeSort_nil]
  · rw [sorted, List.mergeSort_singleton]
  · rename_i first rest _
    have hcomparable : ∀ a ∈ first :: rest, ∀ b ∈ first :: rest, comparable a b = true := by
      intro a ha b hb
      rw [comparable, Datum.below?_of_isNumber (h a ha) (h b hb)]
      rfl
    rw [if_pos]
    refine List.all_eq_true.mpr fun entry hentry => Bool.and_eq_true_iff.mpr ?_
    have hmem := List.mem_cons_of_mem first hentry
    exact ⟨hcomparable _ List.mem_cons_self _ hmem, hcomparable _ hmem _ hmem⟩

/-! ## Reached bounds -/

/-- The bounds behind the first label that a use has reached. -/
def rank (use : ℚ) (order : List (String × Datum)) : ℕ :=
  order.tail.countP fun entry => bound entry ≤ use

/-- The last label whose bound is reached, or the first one if none is. -/
def lastReached (use : ℚ) (order : List (String × Datum)) : Option (String × Datum) :=
  (order.filter fun entry => bound entry ≤ use).getLast?.or order.head?

theorem rank_mono {use use' : ℚ} (h : use ≤ use') (order : List (String × Datum)) :
    rank use order ≤ rank use' order :=
  List.countP_mono_left fun _ _ hle => decide_eq_true ((of_decide_eq_true hle).trans h)

section

variable {first next : String × Datum} {rest : List (String × Datum)} {use : ℚ}

theorem not_reached_of_lt (rising : (next :: rest).Pairwise fun a b => bound a ≤ bound b)
    (h : use < bound next) : ∀ entry ∈ next :: rest, ¬ decide (bound entry ≤ use) = true := by
  intro entry hentry hle
  have hnext : bound next ≤ bound entry := by
    rcases List.mem_cons.mp hentry with rfl | hmem
    · exact le_rfl
    · exact List.rel_of_pairwise_cons rising hmem
  exact absurd (of_decide_eq_true hle) (h.trans_le hnext).not_ge

theorem rank_of_lt (rising : (next :: rest).Pairwise fun a b => bound a ≤ bound b)
    (h : use < bound next) : rank use (first :: next :: rest) = 0 :=
  List.countP_eq_zero.mpr (not_reached_of_lt rising h)

theorem rank_of_le (h : bound next ≤ use) :
    rank use (first :: next :: rest) = rank use (next :: rest) + 1 :=
  List.countP_cons_of_pos (decide_eq_true h)

end

/-- The search takes one step for each bound that is reached. -/
theorem labelIn_eq {use : Datum} (hu : use.IsNumber) {order : List (String × Datum)}
    (nonempty : order ≠ []) (numeric : Numeric order)
    (rising : order.Pairwise fun a b => bound a ≤ bound b) :
    ∃ entry, order[rank use.value order]? = some entry ∧ labelIn use order = .ok entry.1 := by
  fun_induction labelIn use order with
  | case1 => exact absurd rfl nonempty
  | case2 label b => exact ⟨_, rfl, rfl⟩
  | case3 label b next bound' rest h =>
    rw [Datum.below?_of_isNumber hu (numeric (next, bound') (by simp))] at h
    have hlt : use.value < bound (next, bound') := of_decide_eq_true (Option.some.inj h)
    rw [rank_of_lt (List.pairwise_cons.mp rising).2 hlt]
    exact ⟨_, rfl, rfl⟩
  | case4 label b next bound' rest h ih =>
    rw [Datum.below?_of_isNumber hu (numeric (next, bound') (by simp))] at h
    have hle : bound (next, bound') ≤ use.value :=
      le_of_not_gt (of_decide_eq_false (Option.some.inj h))
    rw [rank_of_le hle, List.getElem?_cons_succ]
    exact ih (List.cons_ne_nil _ _) (fun entry hm => numeric entry (List.mem_cons_of_mem _ hm))
      (List.pairwise_cons.mp rising).2
  | case5 label b next bound' rest h =>
    rw [Datum.below?_of_isNumber hu (numeric (next, bound') (by simp))] at h
    cases h

theorem lastReached_eq (use : ℚ) {order : List (String × Datum)}
    (rising : order.Pairwise fun a b => bound a ≤ bound b) :
    lastReached use order = order[rank use order]? := by
  induction order with
  | nil => rfl
  | cons first rest ih =>
    cases rest with
    | nil =>
      rw [lastReached, List.filter_cons]
      split <;> rfl
    | cons next rest =>
      have hrest := (List.pairwise_cons.mp rising).2
      rcases lt_or_ge use (bound next) with hlt | hle
      · rw [rank_of_lt hrest hlt, lastReached, List.filter_cons,
          List.filter_eq_nil_iff.mpr (not_reached_of_lt hrest hlt)]
        split <;> rfl
      · have hfirst : bound first ≤ use :=
          (List.rel_of_pairwise_cons rising List.mem_cons_self).trans hle
        rw [rank_of_le hle, List.getElem?_cons_succ, ← ih hrest, lastReached, lastReached,
          List.filter_cons, if_pos (decide_eq_true hfirst), List.filter_cons,
          if_pos (decide_eq_true hle), List.getLast?_cons_cons,
          List.getLast?_eq_some_getLast (List.cons_ne_nil _ _)]
        rfl

/-! ## Labels -/

theorem orStandard_of_ne_nil {bounds : Bounds} (h : bounds ≠ []) : orStandard bounds = bounds := by
  cases bounds with
  | nil => exact absurd rfl h
  | cons entry rest => rfl

/-- A table of labels that a use can be looked up in. -/
structure Table (bounds : Bounds) : Prop where
  nonempty : bounds ≠ []
  numeric : Numeric bounds
  distinct : (bounds.map (·.1)).Nodup

namespace Table

variable {bounds : Bounds} (h : Table bounds)

include h

theorem sorted_ne_nil : sorted bounds ≠ [] := by
  rw [ne_eq, ← List.length_eq_zero_iff, (stablyOrdered_sorted h.numeric).perm.length_eq,
    List.length_eq_zero_iff]
  exact h.nonempty

theorem label_eq {use : Datum} (hu : use.IsNumber) :
    ∃ entry, (sorted bounds)[rank use.value (sorted bounds)]? = some entry ∧
      label use bounds = .ok entry.1 := by
  have hsorted := stablyOrdered_sorted h.numeric
  obtain ⟨entry, hentry, hlabel⟩ := labelIn_eq hu h.sorted_ne_nil
    (fun e he => h.numeric e (hsorted.perm.subset he)) hsorted.rising
  refine ⟨entry, hentry, ?_⟩
  rw [label, orStandard_of_ne_nil h.nonempty, sorted?_eq h.numeric]
  exact hlabel

theorem idxOf_label {use : Datum} (hu : use.IsNumber) {name : String}
    (hname : label use bounds = .ok name) :
    ((sorted bounds).map (·.1)).idxOf name = rank use.value (sorted bounds) := by
  obtain ⟨entry, hentry, hlabel⟩ := h.label_eq hu
  obtain rfl := Except.ok.inj (hlabel.symm.trans hname)
  have hnodup : ((sorted bounds).map (·.1)).Nodup :=
    ((stablyOrdered_sorted h.numeric).perm.map _).nodup_iff.mpr h.distinct
  have hplace : ((sorted bounds).map (·.1))[rank use.value (sorted bounds)]? = some entry.1 := by
    rw [List.getElem?_map, hentry]
    rfl
  obtain ⟨hlt, heq⟩ := List.getElem?_eq_some_iff.mp hplace
  rw [← heq]
  exact hnodup.idxOf_getElem _ hlt

end Table

/-- In a table of distinct labels with any finite bounds, in any order, every finite use has the
last label of the stable order whose bound it reaches, or the first one if it reaches none. A higher
use has no label further in front, and if no two bounds are alike the order of the table does not
count. -/
theorem label_is_lastReached (bounds : Bounds) (table : Table bounds) :
    StablyOrdered bounds (sorted bounds) ∧
    (∀ use : Datum, use.IsNumber → ∃ entry,
      lastReached use.value (sorted bounds) = some entry ∧ label use bounds = .ok entry.1) ∧
    (∀ use use' : Datum, use.IsNumber → use'.IsNumber → use.value ≤ use'.value →
      ∀ name name', label use bounds = .ok name → label use' bounds = .ok name' →
        ((sorted bounds).map (·.1)).idxOf name ≤ ((sorted bounds).map (·.1)).idxOf name') ∧
    ((bounds.map bound).Nodup → ∀ bounds' : Bounds, bounds'.Perm bounds →
      ∀ use : Datum, label use bounds' = label use bounds) := by
  have hsorted := stablyOrdered_sorted table.numeric
  refine ⟨hsorted, fun use hu => ?_, fun use use' hu hu' hle name name' hname hname' => ?_,
    fun distinct bounds' perm use => ?_⟩
  · rw [lastReached_eq use.value hsorted.rising]
    exact table.label_eq hu
  · rw [table.idxOf_label hu hname, table.idxOf_label hu' hname']
    exact rank_mono hle _
  · have hnumeric : Numeric bounds' := fun entry hm => table.numeric entry (perm.subset hm)
    have hnonempty : bounds' ≠ [] := by
      rintro rfl
      exact table.nonempty perm.nil_eq.symm
    rw [label, label, orStandard_of_ne_nil hnonempty, orStandard_of_ne_nil table.nonempty,
      sorted?_eq hnumeric, sorted?_eq table.numeric,
      hsorted.eq_of_perm (stablyOrdered_sorted hnumeric) perm distinct]

/-- Two labels start at the same bound, and the second of them in the table is the label. -/
theorem label_of_equal_bounds :
    let bounds : Bounds :=
      [("D", .whole 290), ("B", .whole 190), ("A", .whole 50), ("C", .whole 190)]
    Table bounds ∧ (Datum.whole 200).IsNumber ∧
      lastReached 200 (sorted bounds) = some ("C", .whole 190) ∧
      label (.whole 200) bounds = .ok "C" := by
  intro bounds
  have table : Table bounds := ⟨List.cons_ne_nil _ _,
    numeric_whole [("D", 290), ("B", 190), ("A", 50), ("C", 190)], by decide⟩
  have horder : sorted bounds =
      [("A", .whole 50), ("B", .whole 190), ("C", .whole 190), ("D", .whole 290)] := by
    simp +decide [bounds, sorted, List.mergeSort, List.MergeSort.Internal.splitInTwo]
  have hlast : lastReached 200 (sorted bounds) = some ("C", .whole 190) := by
    rw [horder]
    rfl
  obtain ⟨entry, hentry, hlabel⟩ :=
    (label_is_lastReached bounds table).2.1 (.whole 200) (Datum.isNumber_whole _)
  obtain rfl := Option.some.inj (hentry.symm.trans hlast)
  exact ⟨table, Datum.isNumber_whole _, hlast, hlabel⟩

end EnergyLabel

end Renovation
