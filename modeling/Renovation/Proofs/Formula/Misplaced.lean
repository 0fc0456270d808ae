import Mathlib.Tactic.NormNum
import Mathlib.Tactic.Ring
import Renovation.Proofs.Exact
import Renovation.Proofs.Formula.Replay
import Renovation.Proofs.Formula.Trail

set_option autoImplicit false

/-!
# Misplaced factor signs

Over exact numbers the trail of a stored formula comes to its value again exactly if no factor sign
stands between another operator and an operand. Where one does, the trail holds a product or a
quotient and what was worked out is a sum or a difference. If every name occurs once, numbers can be
given to the names for which the two differ.
-/

namespace Renovation.Formula

open Outcome

/-! ## Numbers that bring misplaced signs out -/

/-- A factor sign is written down where the run adds or subtracts. -/
def misplaced (run : List Operator) : Bool :=
  (run.getLast?.getD .plus).isFactor && !(Operator.effective run).isFactor

/-- A number for the operand behind a run. With these numbers each misplaced sign adds one to the
value, and nothing else counts; what is written down starts from zero and multiplies. -/
def probe (run : List Operator) : Float :=
  if (run.getLast?.getD .plus).isFactor then
    if Operator.effective run = .minus then -1.0 else 1.0
  else 0.0

theorem isFinite_probe (run : List Operator) : Datum.isFinite (probe run) = true := by
  rw [probe]
  split
  · split <;> decide +kernel
  · decide +kernel

theorem ofDouble_probe (run : List Operator) : (Number.ofDouble (probe run) : ℚ) =
    if (run.getLast?.getD .plus).isFactor then
      if Operator.effective run = .minus then -1 else 1
    else 0 := by
  rw [probe]
  split
  · split
    · exact Exact.ofDouble_neg_one
    · exact Exact.ofDouble_one
  · exact Exact.ofDouble_zero

theorem close_some (t x : ℚ) (subtract : Bool) :
    close (some ⟨t, subtract⟩) x = if subtract then t - x else t + x := by
  cases subtract <;> rfl

theorem apply_one {op : Operator} (h : op.isFactor = true) (x : ℚ) : op.apply x 1 = .ok x := by
  cases op with
  | times => exact congrArg Except.ok (mul_one x)
  | dividedBy =>
    have hz : Number.isZero (1 : ℚ) = false := by decide +kernel
    rw [Operator.apply, divide, hz]
    exact congrArg Except.ok (div_one x)
  | plus | minus | other => cases h

theorem apply_zero {op : Operator} (h : op.isFactor = true) {x : ℚ} (hx : x ≠ 0) :
    op.apply 0 x = .ok 0 := by
  cases op with
  | times => exact congrArg Except.ok (zero_mul x)
  | dividedBy =>
    have hz : Number.isZero x = false := by
      rw [Bool.eq_false_iff, ne_eq, Exact.isZero_iff]
      exact hx
    rw [Operator.apply, divide, hz]
    exact congrArg Except.ok (zero_div x)
  | plus | minus | other => cases h

theorem climb_worked (sum : Option (Running ℚ)) (x : ℚ) (runs : List (List Operator)) :
    climb sum x (runs.map fun run => (Operator.effective run, Number.ofDouble (probe run))) =
      .ok (close sum x + (runs.countP misplaced : ℕ)) := by
  induction runs generalizing sum x with
  | nil =>
    rw [List.map_nil, climb, List.countP_nil, Nat.cast_zero, add_zero]
  | cons run rest ih =>
    rw [List.map_cons, climb, ofDouble_probe]
    by_cases he : (Operator.effective run).isFactor = true
    · have hrun := Operator.isFactor_effective he
      have hs : (run.getLast?.getD .plus).isFactor = true := by
        rw [hrun]
        exact he
      have hminus : Operator.effective run ≠ .minus := by
        intro h
        rw [h] at he
        cases he
      have hm : ¬ misplaced run = true := by simp [misplaced, he]
      rw [if_pos he, if_pos hs, if_neg hminus, apply_one he, ok_bind, ih,
        List.countP_cons_of_neg hm]
    · rw [if_neg he, ih, close_some]
      by_cases hs : (run.getLast?.getD .plus).isFactor = true
      · -- misplaced: one is added, or minus one is subtracted
        have hm : misplaced run = true := by simp [misplaced, hs, he]
        rw [List.countP_cons_of_pos hm, Nat.cast_add, Nat.cast_one, if_pos hs]
        congr 1
        by_cases hminus : Operator.effective run = .minus
        · rw [if_pos hminus, if_pos (decide_eq_true hminus)]
          ring
        · rw [if_neg hminus, decide_eq_false hminus, if_neg Bool.false_ne_true]
          ring
      · have hm : ¬ misplaced run = true := by simp [misplaced, hs]
        rw [List.countP_cons_of_neg hm, if_neg hs, sub_zero, add_zero, ite_self]

theorem climb_written (sum : Option (Running ℚ)) (runs : List (List Operator)) :
    climb sum 0 (runs.map fun run =>
      (run.getLast?.getD .plus, Number.ofDouble (probe run))) = .ok (close sum 0) := by
  induction runs generalizing sum with
  | nil => rfl
  | cons run rest ih =>
    rw [List.map_cons, climb, ofDouble_probe]
    by_cases hs : (run.getLast?.getD .plus).isFactor = true
    · have hx : (if Operator.effective run = .minus then -1 else 1 : ℚ) ≠ 0 := by
        split <;> norm_num
      rw [if_pos hs, if_pos hs, apply_zero hs hx, ok_bind, ih]
    · rw [if_neg hs, if_neg hs, ih, close_some]
      simp

/-! ## A context of doubles -/

theorem lookup_map {names : List String} {name : String} (h : name ∈ names) (f : String → Datum) :
    (names.map fun n => (n, f n)).lookup name = some (f name) := by
  induction names with
  | nil => cases h
  | cons n rest ih =>
    rw [List.map_cons, List.lookup_cons]
    by_cases hn : name = n
    · rw [beq_iff_eq.mpr hn, hn]
    · rw [beq_false_of_ne hn]
      exact ih ((List.mem_cons.mp h).resolve_left hn)

def doubles (names : List String) (f : String → Float) : Datum :=
  .record (names.map fun name => (name, .real (f name)))

theorem field_doubles (names : List String) (f : String → Float) (name : String) :
    ((doubles names f).field name).isRecord = false := by
  rw [doubles, Datum.field]
  induction names with
  | nil => rfl
  | cons n rest ih =>
    rw [List.map_cons, List.lookup_cons]
    cases name == n with
    | true => rfl
    | false => exact ih

theorem present?_of_not_isRecord {d : Datum} (h : d.isRecord = false) (name : String) :
    d.present? name = none := by
  cases d with
  | record fields => cases h
  | null | flag | whole | real | text | list => rfl

theorem resolve_doubles {names : List String} {name : String} (h : name ∈ names)
    (f : String → Float) (aliases : Aliases) :
    resolve aliases (doubles names f) name = .ok (some (.real (f name))) := by
  have hdirect : direct? (doubles names f) name = some (.real (f name)) := by
    rw [direct?, present?_of_not_isRecord (field_doubles names f dwellingField), Option.none_or,
      Datum.present?, doubles, Datum.field, lookup_map h fun n => .real (f n)]
    rfl
  rw [resolve, hdirect]
  rfl

theorem number_real {x : Float} (h : Datum.isFinite x = true) :
    (Datum.real x).number = .ok (some x) := by
  rw [Datum.number, Datum.finite?, h]
  rfl

/-! ## The formula with these numbers -/

theorem takeWhile_of_stands {ts before : List Token} {name : String}
    (distinct : (operands ts).Nodup) (h : Stands before name ts) :
    ts.takeWhile (· ≠ .operand name) = before := by
  obtain ⟨after, rfl⟩ := h
  have hnot : Token.operand name ∉ before := by
    intro hmem
    rw [operands_append] at distinct
    exact (List.nodup_append.mp distinct).2.2 name (List.mem_filterMap.mpr ⟨_, hmem, rfl⟩) name
      List.mem_cons_self rfl
  rw [List.takeWhile_append_of_pos, List.takeWhile_cons_of_neg, List.append_nil]
  · simp
  · intro t ht
    simp only [ne_eq, decide_eq_true_eq]
    rintro rfl
    exact hnot ht

theorem mem_operands_of_stands {ts before : List Token} {name : String}
    (h : Stands before name ts) : name ∈ operands ts := by
  obtain ⟨after, rfl⟩ := h
  rw [operands_append]
  exact List.mem_append_right _ List.mem_cons_self

def probes (ts : List Token) (name : String) : Float :=
  probe (frontRun (ts.takeWhile (· ≠ .operand name)))

theorem readsAs_probes {ts before : List Token} {name : String} (h : Stands before name ts) :
    ReadsAs standardAliases (doubles (operands ts) (probes ts)) name (probes ts name) :=
  ⟨_, resolve_doubles (mem_operands_of_stands h) (probes ts) standardAliases,
    number_real (isFinite_probe _)⟩

theorem exists_reaches_probes {ts : List Token} (distinct : (operands ts).Nodup) :
    ∃ q : Progress ℚ,
      Reaches standardAliases (doubles (operands ts) (probes ts)) .start ts q := by
  have converts : ∀ front name d,
      LookedUp ℚ standardAliases (doubles (operands ts) (probes ts)) ts front name →
      resolve standardAliases (doubles (operands ts) (probes ts)) name = .ok (some d) →
      Converts d := by
    rintro front name d ⟨after, h, _⟩ hd
    obtain ⟨d', hd', hn⟩ := readsAs_probes ⟨after, h⟩
    cases hd.symm.trans hd'
    exact ⟨_, hn, nofun⟩
  have start : Reaches standardAliases (doubles (operands ts) (probes ts)) (.start : Progress ℚ) []
      .start := .done _
  obtain ⟨e, he⟩ := start.evaluateFrom_returns (by decide) rfl converts
  rcases evaluateFrom_eq_ok_iff.mp he with
    ⟨q, _, hq, _, _⟩ | ⟨before, name, after, q, error, hts, hq, hv, _⟩
  · exact ⟨q, hq⟩
  · have hs : Stands before name ts := ⟨after, hts⟩
    have hp := readsAs_probes hs
    rcases (unusable_of_error hq.sign hv).1 with h | h | ⟨ha, x, hx, hz⟩
    · exact absurd h hp.not_missing
    · exact absurd h hp.not_notNumeric
    · -- a probe is zero only where no factor sign is written down
      have hf : ((frontRun before).getLast?.getD .plus).isFactor = true := by
        rw [getLast_frontRun, (afterDivision_iff before).mp ha]
        rfl
      rw [hx.unique hp, probes, takeWhile_of_stands distinct hs, Exact.isZero_iff, ofDouble_probe,
        if_pos hf] at hz
      split at hz <;> norm_num at hz

theorem exists_runs {ts : List Token} (distinct : (operands ts).Nodup) {q : Progress ℚ}
    (h : Reaches standardAliases (doubles (operands ts) (probes ts)) .start ts q) :
    ∃ runs : List (List Operator),
      links [] q.items =
        runs.map (fun run => (Operator.effective run, Number.ofDouble (probe run))) ∧
      (q.steps.map fun step => (step.operator, step.value)) =
        runs.map (fun run => (run.getLast?.getD .plus, Number.ofDouble (probe run))) ∧
      ∀ before name, Stands before name ts → frontRun before ∈ runs := by
  obtain ⟨pairs, hr⟩ := h.recorded
  have hvalue : ∀ r ∈ pairs, r.2 = Number.ofDouble (probe r.1) := by
    intro r hmem
    obtain ⟨before, name, x, hs, hrun, hx, hrx⟩ := hr.stands r hmem
    rw [hrx, hrun, hx.unique (readsAs_probes hs), probes, takeWhile_of_stands distinct hs]
  refine ⟨pairs.map Prod.fst, ?_, ?_, ?_⟩
  · rw [hr.worked, List.map_map]
    refine List.map_congr_left fun r hmem => ?_
    rw [hvalue r hmem]
    rfl
  · rw [hr.written, List.map_map]
    refine List.map_congr_left fun r hmem => ?_
    rw [hvalue r hmem]
    rfl
  · intro before name hs
    obtain ⟨r, hmem, hrun⟩ := hr.all before name hs
    exact List.mem_map.mpr ⟨r, hmem, hrun⟩

theorem misplaced_frontRun {before : List Token} {op op' : Operator} (h : op'.isFactor = true) :
    misplaced (frontRun (before ++ [.operator op, .operator op'])) = true := by
  have hrun : frontRun (before ++ [.operator op, .operator op']) =
      closing Token.operator? [] before ++ [op, op'] := by
    rw [List.append_cons, frontRun_operator, closing_concat]
    exact List.append_assoc _ [op] [op']
  have he : (Operator.effective (closing Token.operator? [] before ++ [op, op'])).isFactor = false := by
    rw [Bool.eq_false_iff]
    intro hf
    have hone := congrArg List.length (Operator.isFactor_effective hf)
    rw [List.length_append, List.length_singleton] at hone
    have htwo : [op, op'].length = 2 := rfl
    omega
  rw [hrun, misplaced, he, List.getLast?_append]
  exact (Bool.and_true _).trans h

theorem not_wellPlaced {ts : List Token} (h : ¬ WellPlaced ts) :
    ∃ before name, Stands before name ts ∧ misplaced (frontRun before) = true := by
  simp only [WellPlaced, not_forall] at h
  obtain ⟨before, op, op', name, after, rfl, hf⟩ := h
  have hs : Stands (before ++ [.operator op, .operator op']) name
      (before ++ .operator op :: .operator op' :: .operand name :: after) :=
    ⟨after, (List.append_assoc before [_, _] _).symm⟩
  exact ⟨_, name, hs, misplaced_frontRun (Bool.of_not_eq_false hf)⟩

theorem exists_trail_differs {ts : List Token} (distinct : (operands ts).Nodup)
    (h : ¬ WellPlaced ts) :
    ∃ context, context.isRecord = true ∧ ∃ (e : Evaluation ℚ) (x y : ℚ),
      evaluate standardAliases context ts = .ok e ∧ e.outcome = .ok x ∧
      valueOf (replay e.steps) = .ok y ∧ x ≠ y := by
  obtain ⟨q, hq⟩ := exists_reaches_probes distinct
  obtain ⟨runs, hworked, hwritten, hall⟩ := exists_runs distinct hq
  obtain ⟨before, name, hs, hm⟩ := not_wellPlaced h
  have hcount : 0 < runs.countP misplaced :=
    List.countP_pos_iff.mpr ⟨_, hall before name hs, hm⟩
  have hvalue : valueOf q.items = .ok (close none 0 + (runs.countP misplaced : ℕ)) := by
    rw [valueOf_eq_climb_links zero_add, hworked, climb_worked]
  have hreplay : valueOf (replay q.steps) = .ok (close none 0) := by
    rw [valueOf_replay zero_add, hwritten, climb_written]
  refine ⟨_, rfl, _, _, _, hq.evaluate_eq, rfl, hreplay, ?_⟩
  rw [← Except.ok.inj (hvalue.symm.trans (hq.settled settled_start))]
  intro heq
  have hzero : ((runs.countP misplaced : ℕ) : ℚ) = 0 := by linarith
  exact hcount.ne' (Nat.cast_eq_zero.mp hzero)

/-- The trail of a stored formula comes to its value, whatever the context, if no factor sign is
misplaced. If one is and no name is repeated, there is a context in which the trail comes to another
value. With a name repeated the misplaced signs can make up for each other. -/
theorem replay_comes_to_value (raw : Datum) :
    (WellPlaced (tokens raw) →
      ∀ (aliases : Aliases) (context : Datum) (e : Evaluation ℚ) (x : ℚ),
        evaluate aliases context (tokens raw) = .ok e → e.outcome = .ok x →
        valueOf (replay e.steps) = .ok x) ∧
    (¬ WellPlaced (tokens raw) → (operands (tokens raw)).Nodup →
      ∃ context, context.isRecord = true ∧ ∃ (e : Evaluation ℚ) (x y : ℚ),
        evaluate standardAliases context (tokens raw) = .ok e ∧ e.outcome = .ok x ∧
        valueOf (replay e.steps) = .ok y ∧ x ≠ y) := by
  constructor
  · intro placed aliases context e x he hx
    rcases evaluateFrom_eq_ok_iff.mp he with ⟨q, y, hq, hy, rfl⟩ | ⟨_, _, _, _, _, _, _, _, rfl⟩
    · cases hx
      rw [← hy]
      exact valueOf_replay_of_wellPlaced zero_add placed
        (fun _ => isFactor_or_isSign_of_mem_tokens) hq
    · cases hx
  · intro h distinct
    exact exists_trail_differs distinct h

theorem replay_signs_and_neighbours :
    let raw := stored [.operator .minus, .operand "a", .operator .times, .operand "b",
      .operand "a", .operator .plus, .operator .minus, .operand "b"]
    let context := Datum.record [("a", .real 2.0), ("b", .real 3.0)]
    WellPlaced (tokens raw) ∧ ∃ e : Evaluation ℚ,
      evaluate standardAliases context (tokens raw) = .ok e ∧ e.outcome = .ok (-15) ∧
      valueOf (replay e.steps) = .ok (-15) := by
  intro raw context
  have hts : tokens raw = [.operator .minus, .operand "a", .operator .times, .operand "b",
      .operand "a", .operator .plus, .operator .minus, .operand "b"] := rfl
  have placed : WellPlaced (tokens raw) := by
    intro before op op' name after h
    simp [hts, List.cons_eq_append_iff] at h
    rw [h.2.2.1]
    rfl
  let x : ℚ := Number.ofDouble 2.0
  let y : ℚ := Number.ofDouble 3.0
  have he : evaluate standardAliases context (tokens raw) =
      .ok ⟨[⟨"a", x, .minus, 0 - x⟩, ⟨"b", y, .times, 0 - x * y⟩,
        ⟨"a", x, .times, 0 - x * y * x⟩, ⟨"b", y, .minus, 0 - x * y * x - y⟩],
        .ok (0 - x * y * x - y)⟩ := by
    rw [hts]
    rfl
  have hx : 0 - x * y * x - y = -15 := by
    have h2 : x = 2 := Exact.ofDouble_two
    have h3 : y = 3 := Exact.ofDouble_three
    rw [h2, h3]
    norm_num
  rw [hx] at he
  have hreplay := (replay_comes_to_value raw).1 placed _ _ _ _ he rfl
  exact ⟨placed, _, he, rfl, hreplay⟩

/-- A sum is worked out here and the trail holds a product. -/
theorem replay_times_behind_plus :
    let raw := stored [.operand "a", .operator .plus, .operator .times, .operand "b"]
    let context := Datum.record [("a", .real 2.0), ("b", .real 3.0)]
    ∃ e : Evaluation ℚ, evaluate standardAliases context (tokens raw) = .ok e ∧
      e.outcome = .ok 5 ∧ valueOf (replay e.steps) = .ok 6 := by
  intro raw context
  have hts : tokens raw = [.operand "a", .operator .plus, .operator .times, .operand "b"] := rfl
  have he : evaluate standardAliases context (tokens raw) =
      .ok (⟨[⟨"a", Number.ofDouble 2.0, .plus, Number.ofDouble 2.0⟩,
        ⟨"b", Number.ofDouble 3.0, .times, Number.ofDouble 2.0 + Number.ofDouble 3.0⟩],
        .ok (Number.ofDouble 2.0 + Number.ofDouble 3.0)⟩ : Evaluation ℚ) := by
    rw [hts]
    rfl
  refine ⟨_, he, ?_, ?_⟩
  · rw [Exact.ofDouble_two, Exact.ofDouble_three]
    norm_num
  · change Except.ok (0 + Number.ofDouble 2.0 * Number.ofDouble 3.0 : ℚ) = .ok 6
    rw [Exact.ofDouble_two, Exact.ofDouble_three]
    norm_num

end Renovation.Formula
