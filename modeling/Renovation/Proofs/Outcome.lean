import Mathlib.Data.List.Forall2
import Renovation.Fault

set_option autoImplicit false

/-!
# Calculations that can stop

A calculation returns a value or stops with a fault. A calculation made of two returns exactly if
both return, one over a list exactly if it returns for each item.
-/

namespace Renovation.Outcome

variable {ε α β γ : Type}

@[simp] theorem ok_bind (x : α) (f : α → Except ε β) : (Except.ok x >>= f) = f x := rfl

@[simp] theorem error_bind (e : ε) (f : α → Except ε β) : (Except.error e >>= f) = .error e := rfl

@[simp] theorem pure_eq (x : α) : (pure x : Except ε α) = .ok x := rfl

theorem bind_eq_ok {first : Except ε α} {next : α → Except ε β} {y : β} :
    (first >>= next) = .ok y ↔ ∃ x, first = .ok x ∧ next x = .ok y := by
  cases first with
  | error e => simp
  | ok x => simp

theorem returns_ok {x : α} : (∃ y, (Except.ok x : Except ε α) = .ok y) ↔ True :=
  iff_true_intro ⟨x, rfl⟩

/-- With this a calculation is peeled apart into the conditions under which it returns. -/
theorem returns_bind {first : Except ε α} {next : α → Except ε β} :
    (∃ y, (first >>= next) = .ok y) ↔ ∃ x, first = .ok x ∧ ∃ y, next x = .ok y := by
  simp only [bind_eq_ok]
  constructor
  · rintro ⟨y, x, hx, hy⟩
    exact ⟨x, hx, y, hy⟩
  · rintro ⟨x, hx, y, hy⟩
    exact ⟨y, x, hx, hy⟩

theorem map_eq_map {first : Except ε α} {second : Except ε β} {f : α → γ} {g : β → γ}
    (h : first.map f = second.map g) :
    (∃ e, first = .error e ∧ second = .error e) ∨
      ∃ x y, first = .ok x ∧ second = .ok y ∧ f x = g y := by
  cases first with
  | error e =>
    cases second with
    | error e' => exact .inl ⟨e', congrArg Except.error (Except.error.inj h), rfl⟩
    | ok y => exact nomatch h
  | ok x =>
    cases second with
    | error e => exact nomatch h
    | ok y => exact .inr ⟨x, y, rfl, rfl, Except.ok.inj h⟩

theorem exists_of_isOk {x : Except ε α} (h : x.isOk = true) : ∃ y, x = .ok y := by
  cases x with
  | error e => cases h
  | ok y => exact ⟨y, rfl⟩

theorem mapM_eq_ok_iff {f : α → Except ε β} {xs : List α} {ys : List β} :
    xs.mapM f = .ok ys ↔ List.Forall₂ (fun x y => f x = .ok y) xs ys := by
  induction xs generalizing ys with
  | nil =>
    rw [List.mapM_nil, pure_eq, Except.ok.injEq, List.forall₂_nil_left_iff]
    exact eq_comm
  | cons x rest ih =>
    rw [List.mapM_cons, bind_eq_ok]
    constructor
    · rintro ⟨y, hy, h⟩
      obtain ⟨tail, ht, h⟩ := bind_eq_ok.mp h
      cases h
      exact .cons hy (ih.mp ht)
    · intro h
      cases h with
      | cons hy ht => exact ⟨_, hy, bind_eq_ok.mpr ⟨_, ih.mpr ht, rfl⟩⟩

theorem mapM_returns_iff {f : α → Except ε β} {xs : List α} :
    (∃ ys, xs.mapM f = .ok ys) ↔ ∀ x ∈ xs, ∃ y, f x = .ok y := by
  induction xs with
  | nil => simp
  | cons x rest ih =>
    rw [List.forall_mem_cons, ← ih]
    simp only [mapM_eq_ok_iff]
    constructor
    · rintro ⟨ys, h⟩
      cases h with
      | cons hy ht => exact ⟨⟨_, hy⟩, _, ht⟩
    · rintro ⟨⟨y, hy⟩, ys, ht⟩
      exact ⟨_, .cons hy ht⟩

theorem mapM_cons_eq_error_iff {f : α → Except ε β} {x : α} {rest : List α} {e : ε} :
    (x :: rest).mapM f = .error e ↔ f x = .error e ∨ (∃ y, f x = .ok y) ∧ rest.mapM f = .error e := by
  rw [List.mapM_cons]
  cases f x with
  | error e' => simp
  | ok y =>
    rw [ok_bind]
    cases rest.mapM f with
    | error e' => simp
    | ok ys => simp

theorem mapM_eq_error_iff {f : α → Except ε β} {xs : List α} {e : ε} :
    xs.mapM f = .error e ↔ ∃ before x after, xs = before ++ x :: after ∧
      (∀ y ∈ before, ∃ z, f y = .ok z) ∧ f x = .error e := by
  induction xs with
  | nil => simp
  | cons x rest ih =>
    rw [mapM_cons_eq_error_iff, ih]
    constructor
    · rintro (hx | ⟨hx, before, y, after, rfl, hbefore, hy⟩)
      · exact ⟨[], x, rest, rfl, nofun, hx⟩
      · exact ⟨x :: before, y, after, rfl, List.forall_mem_cons.mpr ⟨hx, hbefore⟩, hy⟩
    · rintro ⟨before, y, after, hsplit, hbefore, hy⟩
      cases before with
      | nil =>
        obtain ⟨rfl, rfl⟩ := List.cons.inj hsplit
        exact .inl hy
      | cons x' before =>
        obtain ⟨rfl, rfl⟩ := List.cons.inj hsplit
        obtain ⟨hx, hbefore⟩ := List.forall_mem_cons.mp hbefore
        exact .inr ⟨hx, before, y, after, rfl, hbefore, hy⟩

theorem mapM_pairs_eq_ok_iff {κ : Type} [Inhabited γ] {key : κ → β} {f : κ → Except ε γ}
    {ks : List κ} {entries : List (β × γ)} :
    (ks.mapM fun k => do return (key k, ← f k)) = .ok entries ↔
      ∃ value : κ → γ, (∀ k ∈ ks, f k = .ok (value k)) ∧
        entries = ks.map fun k => (key k, value k) := by
  constructor
  · intro h
    refine ⟨fun k => (f k).toOption.getD default, ?_⟩
    have hall := mapM_eq_ok_iff.mp h
    clear h
    induction hall with
    | nil => exact ⟨fun _ hk => absurd hk List.not_mem_nil, rfl⟩
    | @cons k _ _ _ hentry _ ih =>
      obtain ⟨x, hx, hentry⟩ := bind_eq_ok.mp hentry
      obtain ⟨hrest, htail⟩ := ih
      have hvalue : (f k).toOption.getD default = x := by
        rw [hx]
        rfl
      cases hentry
      refine ⟨List.forall_mem_cons.mpr ⟨hx.trans (congrArg _ hvalue.symm), hrest⟩, ?_⟩
      rw [List.map_cons, ← htail]
      exact congrArg (fun x => (key k, x) :: _) hvalue.symm
  · rintro ⟨value, hvalue, rfl⟩
    rw [mapM_eq_ok_iff, List.forall₂_map_right_iff, List.forall₂_same]
    intro k hk
    rw [hvalue k hk]
    rfl

theorem forall_mem_iff_of_mapM {f : α → Except ε β} {P : β → Prop} {xs : List α} {ys : List β}
    (h : List.Forall₂ (fun x y => f x = .ok y) xs ys) :
    (∀ y ∈ ys, P y) ↔ ∀ x ∈ xs, ∀ y, f x = .ok y → P y := by
  induction h with
  | nil => simp
  | cons hy _ ih => simp only [List.forall_mem_cons, ih, hy, Except.ok.injEq, forall_eq']

theorem forall_mem_of_forall₂ {γ : Type} {R : α → γ → Prop} {P : γ → Prop} {xs : List α}
    {ys : List γ} (h : List.Forall₂ R xs ys) (hr : ∀ x y, R x y → P y) : ∀ y ∈ ys, P y := by
  induction h with
  | nil => exact fun _ hm => absurd hm List.not_mem_nil
  | cons hxy _ ih => exact List.forall_mem_cons.mpr ⟨hr _ _ hxy, ih⟩

theorem map_eq_of_forall₂ {γ δ : Type} {R : α → γ → Prop} {f : α → δ} {g : γ → δ} {xs : List α}
    {ys : List γ} (h : List.Forall₂ R xs ys) (hr : ∀ x y, R x y → f x = g y) :
    xs.map f = ys.map g := by
  induction h with
  | nil => rfl
  | cons hxy _ ih => rw [List.map_cons, List.map_cons, hr _ _ hxy, ih]

theorem flatMap_eq_of_forall₂ {γ δ : Type} {R : α → γ → Prop} {f : α → List δ} {g : γ → List δ}
    {xs : List α} {ys : List γ} (h : List.Forall₂ R xs ys) (hr : ∀ x y, R x y → f x = g y) :
    xs.flatMap f = ys.flatMap g := by
  rw [List.flatMap_def, List.flatMap_def, map_eq_of_forall₂ h hr]

/-! ## What stops a calculation -/

/-- Whatever stops the calculation, it is one of these. -/
def StopsOnly (allowed : ε → Prop) (x : Except ε α) : Prop := ∀ e, x = .error e → allowed e

namespace StopsOnly

variable {allowed : ε → Prop}

theorem ok (x : α) : StopsOnly allowed (.ok x : Except ε α) := nofun

theorem error {e : ε} (h : allowed e) : StopsOnly allowed (.error e : Except ε α) := by
  rintro _ ⟨⟩
  exact h

theorem mono {other : ε → Prop} {x : Except ε α} (h : StopsOnly allowed x)
    (himp : ∀ e, allowed e → other e) : StopsOnly other x :=
  fun e he => himp e (h e he)

theorem bind {first : Except ε α} {next : α → Except ε β} (hfirst : StopsOnly allowed first)
    (hnext : ∀ x, first = .ok x → StopsOnly allowed (next x)) :
    StopsOnly allowed (first >>= next) := by
  cases first with
  | error e => exact error (hfirst e rfl)
  | ok x => exact hnext x rfl

theorem map {first : Except ε α} {f : α → β} (h : StopsOnly allowed first) :
    StopsOnly allowed (first.map f) := by
  cases first with
  | error e => exact error (h e rfl)
  | ok x => exact ok _

theorem mapM {f : α → Except ε β} (h : ∀ x, StopsOnly allowed (f x)) (xs : List α) :
    StopsOnly allowed (xs.mapM f) := by
  induction xs with
  | nil => exact ok _
  | cons x rest ih =>
    rw [List.mapM_cons]
    exact (h x).bind fun _ _ => ih.bind fun _ _ => ok _

theorem ite {condition : Prop} [Decidable condition] {first second : Except ε α}
    (hfirst : StopsOnly allowed first) (hsecond : StopsOnly allowed second) :
    StopsOnly allowed (if condition then first else second) := by
  split
  · exact hfirst
  · exact hsecond

end StopsOnly

end Renovation.Outcome
