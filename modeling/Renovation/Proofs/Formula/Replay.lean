import Renovation.Proofs.Formula.Operand

set_option autoImplicit false

/-!
# Replaying a trail

The steps of an evaluation can be read as a formula of their own: each operand with the operator
written down in front of it. What is written down is the last operator of a run, what is worked out
is the operator that counts in the run. The two agree unless a factor sign stands between another
operator and an operand; without such a sign the trail comes to the value of the evaluation, provided
that a zero in front changes nothing.
-/

namespace Renovation.Formula

open Outcome

variable {α : Type}

def replay (steps : List (Step α)) : List (Item α) :=
  steps.flatMap fun step => [.operator step.operator, .value step.value]

/-- No factor sign stands between another operator and an operand. -/
def WellPlaced (ts : List Token) : Prop :=
  ∀ before op op' name after,
    ts = before ++ .operator op :: .operator op' :: .operand name :: after → op'.isFactor = false

theorem links_replay (steps : List (Step α)) :
    links [] (replay steps) = steps.map fun step => (step.operator, step.value) := by
  induction steps with
  | nil => rfl
  | cons step rest ih => exact congrArg ((step.operator, step.value) :: ·) ih

section

variable [Number α] (zero_add : ∀ x : α, 0 + x = x)

include zero_add

theorem climb_zero (x : α) (ls : List (Operator × α)) :
    climb (some ⟨0, false⟩) x ls = climb none x ls := by
  have hclose (x : α) : close (some ⟨0, false⟩) x = close none x := zero_add x
  induction ls generalizing x with
  | nil => exact congrArg Except.ok (hclose x)
  | cons link rest ih =>
    obtain ⟨op, y⟩ := link
    rw [climb, climb]
    split
    · congr 1
      funext v
      exact ih v
    · rw [hclose]

/-- If a zero in front changes nothing, a formula may be read as starting from zero throughout. -/
theorem valueOf_eq_climb_links (items : List (Item α)) :
    valueOf items = climb none 0 (links [] items) := by
  rw [valueOf_eq_climb]
  cases items with
  | nil => rfl
  | cons item rest =>
    cases item with
    | operator op => rfl
    | value x => exact (climb_zero zero_add x (links [] rest)).symm

theorem valueOf_replay (steps : List (Step α)) :
    valueOf (replay steps) = climb none 0 (steps.map fun step => (step.operator, step.value)) := by
  rw [valueOf_eq_climb_links zero_add, links_replay]

end

/-! ## What is written down and what is worked out -/

def Stands (before : List Token) (name : String) (ts : List Token) : Prop :=
  ∃ after, ts = before ++ .operand name :: after

theorem stands_concat (before ts : List Token) (name : String) (t : Token) :
    Stands before name (ts ++ [t]) ↔ Stands before name ts ∨ before = ts ∧ t = .operand name := by
  constructor
  · rintro ⟨after, h⟩
    rcases List.eq_nil_or_concat after with rfl | ⟨after', t', rfl⟩
    · obtain ⟨rfl, ht⟩ := List.append_inj' h rfl
      exact .inr ⟨rfl, (List.cons.inj ht).1⟩
    · rw [List.concat_eq_append, ← List.cons_append, ← List.append_assoc] at h
      exact .inl ⟨after', (List.append_inj' h rfl).1⟩
  · rintro (⟨after, rfl⟩ | ⟨rfl, rfl⟩)
    · exact ⟨after ++ [t], by simp⟩
    · exact ⟨[], rfl⟩

variable [Number α] {aliases : Aliases} {context : Datum}

/-- The runs of a formula with their operands: the operator that counts in each is worked out, the
last one is written down. -/
structure Recorded (aliases : Aliases) (context : Datum) (ts : List Token) (q : Progress α)
    (runs : List (List Operator × α)) : Prop where
  worked : links [] q.items = runs.map fun r => (Operator.effective r.1, r.2)
  written : (q.steps.map fun step => (step.operator, step.value)) =
    runs.map fun r => (r.1.getLast?.getD .plus, r.2)
  stands : ∀ r ∈ runs, ∃ before name x, Stands before name ts ∧ r.1 = frontRun before ∧
    ReadsAs aliases context name x ∧ r.2 = Number.ofDouble x
  all : ∀ before name, Stands before name ts → ∃ r ∈ runs, r.1 = frontRun before

omit [Number α] in
theorem links_joined (p : Progress α) : links [] p.joined = links [] p.items := by
  rw [Progress.joined]
  split
  · exact links_append_operator [] p.items p.lastOperator
  · rfl

theorem Reaches.recorded {q : Progress α} {ts : List Token}
    (h : Reaches aliases context .start ts q) : ∃ runs, Recorded aliases context ts q runs := by
  refine h.keeps (fun ts q => ∃ runs, Recorded aliases context ts q runs) ?_ ?_ ?_
  · refine ⟨[], rfl, rfl, nofun, ?_⟩
    rintro before name ⟨after, h⟩
    simp at h
  · rintro before p op _ ⟨runs, hr⟩
    refine ⟨runs, ?_, hr.written, ?_, ?_⟩
    · rw [Progress.operator, links_append_operator, hr.worked]
    · intro r hmem
      obtain ⟨front, name, x, hs, hrun, hx, hv⟩ := hr.stands r hmem
      exact ⟨front, name, x, (stands_concat _ _ _ _).mpr (.inl hs), hrun, hx, hv⟩
    · intro front name hs
      rcases (stands_concat _ _ _ _).mp hs with hs | ⟨_, ht⟩
      · exact hr.all front name hs
      · cases ht
  · rintro before p p' name x hp hv hp' ⟨runs, hr⟩
    obtain ⟨y, hy, hxy, _⟩ := operandValue_eq_used_iff.mp hv
    obtain ⟨result, _, rfl⟩ := operand_eq_ok hp'
    refine ⟨runs ++ [(frontRun before, x)], ?_, ?_, ?_, ?_⟩
    · rw [links_append_value, links_joined, hr.worked, List.map_append, ← hp.follows.run]
      rfl
    · rw [List.map_append, List.map_append, hr.written, p.sign_eq_getLast, hp.follows.run]
      rfl
    · intro r hmem
      rcases List.mem_append.mp hmem with hmem | hmem
      · obtain ⟨front, name', x', hs, hrest⟩ := hr.stands r hmem
        exact ⟨front, name', x', (stands_concat _ _ _ _).mpr (.inl hs), hrest⟩
      · cases List.mem_singleton.mp hmem
        exact ⟨before, name, y, (stands_concat _ _ _ _).mpr (.inr ⟨rfl, rfl⟩), rfl, hy, hxy⟩
    · intro front name' hs
      rcases (stands_concat _ _ _ _).mp hs with hs | ⟨rfl, _⟩
      · obtain ⟨r, hmem, hrun⟩ := hr.all front name' hs
        exact ⟨r, List.mem_append_left _ hmem, hrun⟩
      · exact ⟨_, List.mem_append_right _ List.mem_cons_self, rfl⟩

/-! ## Well placed operators -/

theorem effective_concat_of_isSign {op : Operator} (h : op.isSign = true) (run : List Operator) :
    Operator.effective (run ++ [op]) = op := by
  match run with
  | [] => rfl
  | [op'] =>
    rw [List.cons_append, List.nil_append, Operator.effective_cons_cons, ← List.singleton_append,
      List.filter_append, List.filter_cons_of_pos h, List.getLast?_append]
    rfl
  | op' :: op'' :: rest =>
    rw [List.cons_append, List.cons_append, Operator.effective_cons_cons, ← List.cons_append,
      ← List.cons_append, List.filter_append, List.filter_cons_of_pos h, List.getLast?_append]
    rfl

theorem isFactor_or_isSign_of_arithmetic? {symbol : String} {op : Operator}
    (h : Operator.arithmetic? symbol = some op) : op.isFactor = true ∨ op.isSign = true := by
  rw [Operator.arithmetic?] at h
  split at h
  · cases h; exact .inr rfl
  split at h
  · cases h; exact .inr rfl
  split at h
  · cases h; exact .inl rfl
  split at h
  · cases h; exact .inl rfl
  · cases h

theorem isFactor_or_isSign_of_spelled? {symbol : String} {op : Operator}
    (h : Operator.spelled? symbol = some op) : op.isFactor = true ∨ op.isSign = true := by
  rw [Operator.spelled?] at h
  split at h
  · cases h; exact .inl rfl
  split at h
  · cases h; exact .inl rfl
  · exact isFactor_or_isSign_of_arithmetic? h

theorem exists_spelled?_of_read? {d : Datum} {op : Operator}
    (h : Token.read? d = some (.operator op)) : ∃ symbol, Operator.spelled? symbol = some op := by
  rw [Token.read?] at h
  split at h
  · cases h
  · cases h
  · split at h
    · dsimp only at h
      split at h
      · obtain ⟨op', hop, heq⟩ := Option.map_eq_some_iff.mp h
        cases heq
        exact ⟨_, hop⟩
      · split at h <;> cases h
    · cases h

theorem isFactor_or_isSign_of_mem_tokens {raw : Datum} {op : Operator}
    (h : Token.operator op ∈ tokens raw) : op.isFactor = true ∨ op.isSign = true := by
  cases raw with
  | list records =>
    obtain ⟨d, _, hd⟩ := List.mem_filterMap.mp h
    obtain ⟨symbol, hop⟩ := exists_spelled?_of_read? hd
    exact isFactor_or_isSign_of_spelled? hop
  | null | flag | whole | real | text | record => cases h

theorem WellPlaced.effective_frontRun {ts before : List Token} {name : String}
    (placed : WellPlaced ts)
    (arithmetic : ∀ op, Token.operator op ∈ ts → op.isFactor = true ∨ op.isSign = true)
    (h : Stands before name ts) :
    Operator.effective (frontRun before) = (frontRun before).getLast?.getD .plus := by
  obtain ⟨after, rfl⟩ := h
  rcases List.eq_nil_or_concat before with rfl | ⟨front, t, rfl⟩
  · rfl
  rw [List.concat_eq_append] at placed arithmetic ⊢
  cases t with
  | operand name' =>
    rw [frontRun_operand]
    rfl
  | operator op =>
    rw [frontRun_operator]
    rcases List.eq_nil_or_concat front with rfl | ⟨front', t, rfl⟩
    · rfl
    rw [List.concat_eq_append] at placed arithmetic ⊢
    rw [closing_concat]
    cases t with
    | operand name' => rfl
    | operator op' =>
      have hfactor := placed front' op' op name after (by simp)
      have hsign : op.isSign = true := by
        rcases arithmetic op (by simp) with hop | hop
        · exact absurd (hop.symm.trans hfactor) Bool.noConfusion
        · exact hop
      rw [effective_concat_of_isSign hsign, List.getLast?_append]
      rfl

theorem valueOf_replay_of_wellPlaced (zero_add : ∀ x : α, 0 + x = x) {ts : List Token}
    (placed : WellPlaced ts)
    (arithmetic : ∀ op, Token.operator op ∈ ts → op.isFactor = true ∨ op.isSign = true)
    {q : Progress α} (h : Reaches aliases context .start ts q) :
    valueOf (replay q.steps) = valueOf q.items := by
  obtain ⟨runs, hr⟩ := h.recorded
  rw [valueOf_replay zero_add, valueOf_eq_climb_links zero_add, hr.worked, hr.written]
  congr 1
  refine List.map_congr_left fun r hmem => ?_
  obtain ⟨before, name, _, hs, hrun, _⟩ := hr.stands r hmem
  rw [hrun, placed.effective_frontRun arithmetic hs]

end Renovation.Formula
