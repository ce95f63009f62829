import Mathlib.Logic.Relation
import Mathlib.Data.List.Induction

/-!
# Machines: executable transition systems and their runs

A `Machine` is a step function: from a state, an action leads to at most one
next state, and `none` says that the action is not enabled there. All
nondeterminism (the scheduler, a spurious failure, a timeout) sits in the
action, so a run is a list of actions and can be evaluated.

The file holds the induction principles every safety proof over runs goes
through: `run_induction` for invariants, `run_induction_of_meets` for
invariants of the runs whose steps all meet a condition, and `reflTransGen_of_run`
for a machine that refines an abstract step relation.
-/

universe u v w

/-- A machine with states `S` and actions `A`. -/
structure Machine (S : Type u) (A : Type v) where
  /-- the state an action leads to, `none` when it is not enabled -/
  step : S → A → Option S

namespace Machine

variable {S : Type u} {A : Type v} (M : Machine S A)

/-- Take the actions one after another. -/
def run : S → List A → Option S
  | s, [] => some s
  | s, a :: as => (M.step s a).bind fun s' => run s' as

@[simp] theorem run_nil (s : S) : M.run s [] = some s := rfl

theorem run_cons (s : S) (a : A) (as : List A) :
    M.run s (a :: as) = (M.step s a).bind fun s' => M.run s' as := rfl

variable {M}

/-- Inversion: a run along `a :: as` is a step along `a` and a run along `as`. -/
theorem run_cons_eq_some {s t : S} {a : A} {as : List A} :
    M.run s (a :: as) = some t ↔ ∃ s', M.step s a = some s' ∧ M.run s' as = some t := by
  rw [run_cons, Option.bind_eq_some_iff]

theorem run_append {as bs : List A} :
    ∀ {s t : S}, M.run s (as ++ bs) = some t ↔
      ∃ s', M.run s as = some s' ∧ M.run s' bs = some t := by
  induction as with
  | nil => intro s t; simp
  | cons a as ih =>
    intro s t
    rw [List.cons_append, run_cons_eq_some]
    constructor
    · rintro ⟨s₁, h₁, h⟩
      obtain ⟨s₂, h₂, h₃⟩ := ih.mp h
      exact ⟨s₂, run_cons_eq_some.mpr ⟨s₁, h₁, h₂⟩, h₃⟩
    · rintro ⟨s₂, h, h₃⟩
      obtain ⟨s₁, h₁, h₂⟩ := run_cons_eq_some.mp h
      exact ⟨s₁, h₁, ih.mpr ⟨s₂, h₂, h₃⟩⟩

/-- A run along `as` followed by one more step. -/
theorem run_concat {as : List A} {a : A} {s t : S} :
    M.run s (as ++ [a]) = some t ↔ ∃ s', M.run s as = some s' ∧ M.step s' a = some t := by
  rw [run_append]
  constructor
  · rintro ⟨s', h, h'⟩
    obtain ⟨t', ht, he⟩ := run_cons_eq_some.mp h'
    obtain rfl := Option.some.inj he
    exact ⟨s', h, ht⟩
  · rintro ⟨s', h, h'⟩
    exact ⟨s', h, run_cons_eq_some.mpr ⟨t, h', rfl⟩⟩

variable (M) in
/-- The states that some run from `s` ends in. -/
def Reaches (s t : S) : Prop := ∃ as, M.run s as = some t

theorem Reaches.refl (s : S) : M.Reaches s s := ⟨[], rfl⟩

theorem Reaches.step {s t t' : S} {a : A} (h : M.Reaches s t) (ha : M.step t a = some t') :
    M.Reaches s t' := by
  obtain ⟨as, has⟩ := h
  exact ⟨as ++ [a], run_concat.mpr ⟨t, has, ha⟩⟩

theorem Reaches.trans {s t u : S} (h : M.Reaches s t) (h' : M.Reaches t u) : M.Reaches s u := by
  obtain ⟨as, has⟩ := h
  obtain ⟨bs, hbs⟩ := h'
  exact ⟨as ++ bs, run_append.mpr ⟨t, has, hbs⟩⟩

/-- **Run induction**: what holds of the first state along no actions, and is
kept by one more action, holds of every run. The property may speak of the
actions taken so far. -/
theorem run_induction {P : List A → S → Prop} {s₀ : S} (h₀ : P [] s₀)
    (hstep : ∀ as s a s', M.run s₀ as = some s → P as s → M.step s a = some s' → P (as ++ [a]) s') :
    ∀ {as : List A} {s : S}, M.run s₀ as = some s → P as s := by
  intro as
  induction as using List.reverseRecOn with
  | nil =>
    intro s hs
    obtain rfl := Option.some.inj hs
    exact h₀
  | append_singleton as a ih =>
    intro t ht
    obtain ⟨s, hs, ha⟩ := run_concat.mp ht
    exact hstep as s a t hs (ih hs) ha

/-- An invariant of one step is an invariant of every run. -/
theorem invariant_run {I : S → Prop} (hstep : ∀ s a s', I s → M.step s a = some s' → I s')
    {s₀ s : S} {as : List A} (h₀ : I s₀) (hr : M.run s₀ as = some s) : I s :=
  run_induction (P := fun _ s => I s) h₀ (fun _ s a s' _ hi ha => hstep s a s' hi ha) hr

/-- An invariant of one step holds of every state reached. -/
theorem invariant_reaches {I : S → Prop} (hstep : ∀ s a s', I s → M.step s a = some s' → I s')
    {s₀ s : S} (h₀ : I s₀) (hr : M.Reaches s₀ s) : I s := by
  obtain ⟨as, has⟩ := hr
  exact invariant_run hstep h₀ has

/-! ## Runs whose steps all meet a condition -/

variable (M) in
/-- Every step of the run from `s` along the actions is taken in a state where
`ok` allows it. -/
def Meets (ok : S → A → Prop) : S → List A → Prop
  | _, [] => True
  | s, a :: as => ok s a ∧ ∀ s', M.step s a = some s' → Meets ok s' as

theorem meets_cons {ok : S → A → Prop} {s s' : S} {a : A} {as : List A} (hok : ok s a)
    (hs : M.step s a = some s') (h : M.Meets ok s' as) : M.Meets ok s (a :: as) := by
  refine ⟨hok, fun t ht => ?_⟩
  obtain rfl := Option.some.inj (hs.symm.trans ht)
  exact h

theorem meets_concat {ok : S → A → Prop} {as : List A} {a : A} :
    ∀ {s t : S}, M.run s as = some t →
      (M.Meets ok s (as ++ [a]) ↔ M.Meets ok s as ∧ ok t a) := by
  induction as with
  | nil =>
    intro s t ht
    obtain rfl := Option.some.inj ht
    simp [Meets]
  | cons b bs ih =>
    intro s t ht
    obtain ⟨s', hb, hs'⟩ := run_cons_eq_some.mp ht
    constructor
    · rintro ⟨hok, hrest⟩
      obtain ⟨hbs, ha⟩ := (ih hs').mp (hrest s' hb)
      refine ⟨⟨hok, fun u hu => ?_⟩, ha⟩
      obtain rfl := Option.some.inj (hb.symm.trans hu)
      exact hbs
    · rintro ⟨⟨hok, hrest⟩, ha⟩
      refine ⟨hok, fun u hu => ?_⟩
      obtain rfl := Option.some.inj (hb.symm.trans hu)
      exact (ih hs').mpr ⟨hrest s' hb, ha⟩

/-- Run induction over the runs whose steps all meet `ok`. -/
theorem run_induction_of_meets {ok : S → A → Prop} {I : S → Prop} {s₀ : S} (h₀ : I s₀)
    (hstep : ∀ s a s', I s → ok s a → M.step s a = some s' → I s') {as : List A} {s : S}
    (hr : M.run s₀ as = some s) (hok : M.Meets ok s₀ as) : I s := by
  refine run_induction (P := fun as s => M.Meets ok s₀ as → I s) (fun _ => h₀) ?_ hr hok
  intro as s a s' hs ih ha hm
  obtain ⟨hm', hoka⟩ := (meets_concat hs).mp hm
  exact hstep s a s' (ih hm') hoka ha

/-! ## How long a run can be -/

variable (M) in
/-- What the steps of the run from `s` along the actions cost together. -/
def costAlong (c : S → A → ℕ) : S → List A → ℕ
  | _, [] => 0
  | s, a :: as => c s a + (M.step s a).elim 0 fun s' => costAlong c s' as

variable (M) in
/-- How many steps of the run from `s` along the actions meet a condition. -/
def countAlong (p : S → A → Bool) : S → List A → ℕ := M.costAlong fun s a => (p s a).toNat

/-- **Charging**: when no step costs more than what it is paid and the fall of the potential,
neither does a run. -/
theorem cost_le_of_potential {I : S → Prop} {ok : A → Prop} (potential : S → ℕ)
    (cost paid : S → A → ℕ)
    (hstep : ∀ s a s', I s → ok a → M.step s a = some s' →
      I s' ∧ potential s' + cost s a ≤ potential s + paid s a) {as : List A} :
    ∀ {s t : S}, I s → (∀ a ∈ as, ok a) → M.run s as = some t →
      I t ∧ M.costAlong cost s as + potential t ≤ potential s + M.costAlong paid s as := by
  induction as with
  | nil =>
    intro s t hi _ ht
    obtain rfl := Option.some.inj ht
    exact ⟨hi, Nat.le_of_eq (Nat.add_comm _ _)⟩
  | cons a as ih =>
    intro s t hi hok ht
    obtain ⟨s', ha, hrun⟩ := run_cons_eq_some.mp ht
    obtain ⟨hi', hle⟩ := hstep s a s' hi (hok a (List.mem_cons_self ..)) ha
    obtain ⟨hit, hcost⟩ := ih hi' (fun b hb => hok b (List.mem_cons_of_mem _ hb)) hrun
    refine ⟨hit, ?_⟩
    rw [costAlong, costAlong, ha, Option.elim_some, Option.elim_some]
    omega

/-- A run whose steps all cost one costs its length. -/
theorem costAlong_one {as : List A} :
    ∀ {s t : S}, M.run s as = some t → M.costAlong (fun _ _ => 1) s as = as.length := by
  induction as with
  | nil => exact fun _ => rfl
  | cons a as ih =>
    intro s t ht
    obtain ⟨s', ha, hrun⟩ := run_cons_eq_some.mp ht
    rw [costAlong, ha, Option.elim_some, ih hrun, List.length_cons, Nat.add_comm]

/-- How many of the actions meet a condition on actions. -/
theorem countAlong_of_run {p : A → Bool} {as : List A} :
    ∀ {s t : S}, M.run s as = some t → M.countAlong (fun _ => p) s as = as.countP p := by
  induction as with
  | nil => exact fun _ => rfl
  | cons a as ih =>
    intro s t ht
    obtain ⟨s', ha, hrun⟩ := run_cons_eq_some.mp ht
    rw [countAlong, costAlong, ha, Option.elim_some, List.countP_cons, ← ih hrun, Nat.add_comm]
    cases p a <;> rfl

theorem costAlong_add {c d : S → A → ℕ} {as : List A} :
    ∀ s, M.costAlong (fun s a => c s a + d s a) s as =
      M.costAlong c s as + M.costAlong d s as := by
  induction as with
  | nil => exact fun _ => rfl
  | cons a as ih =>
    intro s
    rw [costAlong, costAlong, costAlong]
    cases M.step s a with
    | none => rfl
    | some s' =>
      rw [Option.elim_some, Option.elim_some, Option.elim_some, ih]
      omega

theorem costAlong_mul {c : S → A → ℕ} (k : ℕ) {as : List A} :
    ∀ s, M.costAlong (fun s a => k * c s a) s as = k * M.costAlong c s as := by
  induction as with
  | nil => exact fun _ => rfl
  | cons a as ih =>
    intro s
    rw [costAlong, costAlong, Nat.mul_add]
    cases M.step s a with
    | none => rfl
    | some s' => rw [Option.elim_some, Option.elim_some, ih]

/-- **Length by rank**: when every step lowers a rank, and one that meets `p` raises it by less
than `k`, a run is no longer than the rank and `k` times the number of its steps that meet `p`. -/
theorem length_le_of_rank {I : S → Prop} {ok : A → Prop} (k : ℕ) (rank : S → ℕ)
    (p : S → A → Bool)
    (hstep : ∀ s a s', I s → ok a → M.step s a = some s' →
      I s' ∧ rank s' + 1 ≤ rank s + k * (p s a).toNat) {as : List A} {s t : S} (hi : I s)
    (hok : ∀ a ∈ as, ok a) (h : M.run s as = some t) :
    I t ∧ as.length + rank t ≤ rank s + k * M.countAlong p s as := by
  obtain ⟨hit, hcost⟩ := cost_le_of_potential rank (fun _ _ => 1) _ hstep hi hok h
  refine ⟨hit, ?_⟩
  rwa [costAlong_mul, costAlong_one h] at hcost

/-! ## Refinement of an abstract step relation -/

/-- If every step from a state with `I` maps to no abstract step or to one,
a run maps to a sequence of abstract steps. -/
theorem reflTransGen_of_run {T : Type w} {R : T → T → Prop} {f : S → T} {I : S → Prop}
    (hinv : ∀ s a s', I s → M.step s a = some s' → I s')
    (hsim : ∀ s a s', I s → M.step s a = some s' → f s' = f s ∨ R (f s) (f s'))
    {s₀ s : S} {as : List A} (h₀ : I s₀) (hr : M.run s₀ as = some s) :
    Relation.ReflTransGen R (f s₀) (f s) := by
  have hboth : I s ∧ Relation.ReflTransGen R (f s₀) (f s) := by
    refine run_induction (P := fun _ s => I s ∧ Relation.ReflTransGen R (f s₀) (f s))
      ⟨h₀, .refl⟩ ?_ hr
    rintro _ s a s' - ⟨hi, hpath⟩ ha
    refine ⟨hinv s a s' hi ha, ?_⟩
    rcases hsim s a s' hi ha with heq | hR
    · rw [heq]
      exact hpath
    · exact hpath.tail hR
  exact hboth.2

end Machine
