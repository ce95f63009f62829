import Mathlib.Order.Basic
import Mathlib.Order.Nat
import Logspine.Machine

/-!
# Executions and fairness

An `Execution` of a machine is infinite, and may stutter, so that a run that has
come to rest is an execution too (`ofRun`). Fairness is stated for a set of actions, such as
those of one thread: actions that are enabled again and again are taken again and
again. `exists_of_rank` is the liveness rule that follows: a rank that drops with
every action of a fair set and that no other action raises cannot drop for ever.
-/

universe u v

namespace Machine

variable {S : Type u} {A : Type v} {M : Machine S A}

/-- An infinite execution; `none` is a moment at which nothing happens. -/
structure Execution (M : Machine S A) where
  /-- the state at each moment -/
  state : ℕ → S
  /-- the action taken at each moment -/
  action : ℕ → Option A
  /-- the action leads to the next state -/
  step : ∀ n, match action n with
    | none => state (n + 1) = state n
    | some a => M.step (state n) a = some (state (n + 1))

variable (M) in
/-- Some action of the set is enabled. -/
def Enabled (P : A → Prop) (s : S) : Prop := ∃ a s', P a ∧ M.step s a = some s'

namespace Execution

variable (x : Execution M)

/-- Actions of the set that are enabled again and again are taken again and again. -/
def Fair (P : A → Prop) : Prop :=
  (∀ k, ∃ n ≥ k, M.Enabled P (x.state n)) → ∀ k, ∃ n ≥ k, ∃ a, x.action n = some a ∧ P a

variable {x}

theorem step_of_action {n : ℕ} {a : A} (h : x.action n = some a) :
    M.step (x.state n) a = some (x.state (n + 1)) := by
  have hstep := x.step n
  rw [h] at hstep
  exact hstep

theorem state_of_stutter {n : ℕ} (h : x.action n = none) : x.state (n + 1) = x.state n := by
  have hstep := x.step n
  rw [h] at hstep
  exact hstep

/-- An invariant of one step holds from some moment on. -/
theorem invariant_from {I : S → Prop} (hstep : ∀ s a s', I s → M.step s a = some s' → I s')
    {m : ℕ} (h : I (x.state m)) : ∀ n ≥ m, I (x.state n) := by
  intro n hn
  induction n, hn using Nat.le_induction with
  | base => exact h
  | succ n _ ih =>
    cases ha : x.action n with
    | none => rw [state_of_stutter ha]; exact ih
    | some a => exact hstep _ a _ ih (step_of_action ha)

/-- Every state of an execution is reached by a run from its first state. -/
theorem exists_run (n : ℕ) : ∃ as, M.run (x.state 0) as = some (x.state n) := by
  induction n with
  | zero => exact ⟨[], rfl⟩
  | succ n ih =>
    obtain ⟨as, has⟩ := ih
    cases ha : x.action n with
    | none => exact ⟨as, by rw [state_of_stutter ha]; exact has⟩
    | some a => exact ⟨as ++ [a], run_concat.mpr ⟨_, has, step_of_action ha⟩⟩

/-- **Liveness by moves**: let there be moves again and again as long as `Q` fails, each of
them lower a rank or establish `Q`, and every other step keep the rank or establish `Q`. Then
`Q` holds at some moment. -/
theorem exists_of_moves {Q : S → Prop} (rank : S → ℕ) (moves : ℕ → Prop) {m : ℕ}
    (hmoves : (∀ n ≥ m, ¬ Q (x.state n)) → ∀ k, ∃ n ≥ k, moves n)
    (hmove : ∀ n ≥ m, moves n → ¬ Q (x.state n) →
      Q (x.state (n + 1)) ∨ rank (x.state (n + 1)) < rank (x.state n))
    (hother : ∀ n ≥ m, ¬ moves n → ¬ Q (x.state n) →
      Q (x.state (n + 1)) ∨ rank (x.state (n + 1)) ≤ rank (x.state n)) :
    ∃ n ≥ m, Q (x.state n) := by
  by_contra hnone
  have hQ : ∀ n ≥ m, ¬ Q (x.state n) := fun n hn hq => hnone ⟨n, hn, hq⟩
  have hle : ∀ n ≥ m, rank (x.state (n + 1)) ≤ rank (x.state n) := by
    intro n hn
    have hq := hQ (n + 1) (hn.trans (Nat.le_succ n))
    by_cases hmoved : moves n
    · exact ((hmove n hn hmoved (hQ n hn)).resolve_left hq).le
    · exact (hother n hn hmoved (hQ n hn)).resolve_left hq
  have hanti : ∀ k ≥ m, ∀ n ≥ k, rank (x.state n) ≤ rank (x.state k) := by
    intro k hk n hn
    induction n, hn using Nat.le_induction with
    | base => exact le_rfl
    | succ n hn ih => exact (hle n (hk.trans hn)).trans ih
  -- from every moment on the rank drops again, which no rank survives
  have hdrop : ∀ r, ∀ k ≥ m, rank (x.state k) ≠ r := by
    intro r
    induction r using Nat.strong_induction_on with
    | _ r ih =>
      intro k hk hr
      obtain ⟨n, hn, hmoved⟩ := hmoves hQ k
      have hnm := hk.trans hn
      have hlt := (hmove n hnm hmoved (hQ n hnm)).resolve_left
        (hQ (n + 1) (hnm.trans (Nat.le_succ n)))
      exact ih _ (hlt.trans_le (hr ▸ hanti k hk n hn)) (n + 1) (hnm.trans (Nat.le_succ n)) rfl
  exact hdrop _ m le_rfl rfl

/-- **Liveness by rank**: let a set of actions be taken again and again as long as `Q`
fails, each of them lower a rank or establish `Q`, and everything else keep the rank or
establish `Q`. Then `Q` holds at some moment. -/
theorem exists_of_rank {P : A → Prop} {Q : S → Prop} (rank : S → ℕ) {m : ℕ}
    (htaken : (∀ n ≥ m, ¬ Q (x.state n)) → ∀ k, ∃ n ≥ k, ∃ a, x.action n = some a ∧ P a)
    (hown : ∀ n ≥ m, ∀ a, P a → x.action n = some a → ¬ Q (x.state n) →
      Q (x.state (n + 1)) ∨ rank (x.state (n + 1)) < rank (x.state n))
    (hother : ∀ n ≥ m, ∀ a, ¬ P a → x.action n = some a → ¬ Q (x.state n) →
      Q (x.state (n + 1)) ∨ rank (x.state (n + 1)) ≤ rank (x.state n)) :
    ∃ n ≥ m, Q (x.state n) := by
  refine exists_of_moves rank (fun n => ∃ a, x.action n = some a ∧ P a) htaken ?_ ?_
  · rintro n hn ⟨a, ha, hP⟩
    exact hown n hn a hP ha
  · intro n hn hmoves hq
    cases ha : x.action n with
    | none => exact .inr (congrArg rank (state_of_stutter ha)).le
    | some a => exact hother n hn a (fun hP => hmoves ⟨a, ha, hP⟩) ha hq

/-! ## Executions that come to rest -/

/-- A run, followed by rest. -/
def ofRun {s t : S} {as : List A} (h : M.run s as = some t) : Execution M where
  state n := (M.run s (as.take n)).getD s
  action n := as[n]?
  step n := by
    cases ha : as[n]? with
    | none =>
      have hlen := List.getElem?_eq_none_iff.mp ha
      simp only [List.take_of_length_le hlen, List.take_of_length_le (hlen.trans (Nat.le_succ n))]
    | some a =>
      obtain ⟨hn, rfl⟩ := List.getElem?_eq_some_iff.mp ha
      have hsplit : as = as.take n ++ [as[n]] ++ as.drop (n + 1) := by
        rw [List.take_append_getElem, List.take_append_drop]
      rw [hsplit] at h
      obtain ⟨u, hu, -⟩ := run_append.mp h
      obtain ⟨v, hv, hstep⟩ := run_concat.mp hu
      simp only [← List.take_append_getElem hn, hu, hv, Option.getD_some]
      exact hstep

theorem ofRun_state_zero {s t : S} {as : List A} (h : M.run s as = some t) :
    (ofRun h).state 0 = s := by
  change (M.run s (as.take 0)).getD s = s
  rw [List.take_zero, run_nil, Option.getD_some]

theorem ofRun_state_of_le {s t : S} {as : List A} (h : M.run s as = some t) {n : ℕ}
    (hn : as.length ≤ n) : (ofRun h).state n = t := by
  change (M.run s (as.take n)).getD s = t
  rw [List.take_of_length_le hn, h, Option.getD_some]

/-- An execution may rest where nothing of the set is enabled. -/
theorem ofRun_fair {s t : S} {as : List A} (h : M.run s as = some t) {P : A → Prop}
    (hP : ¬ M.Enabled P t) : (ofRun h).Fair P := by
  intro henabled
  obtain ⟨n, hn, he⟩ := henabled as.length
  rw [ofRun_state_of_le h hn] at he
  exact absurd he hP

/-! ## Executions that end in a loop -/

/-- The actions of a lasso: `as`, and then `bs` over and over. -/
def lassoAction (as bs : List A) (n : ℕ) : Option A :=
  if n < as.length then as[n]? else bs[(n - as.length) % bs.length]?

/-- The states of a lasso: along `as`, and then along `bs` over and over from `t`. -/
def lassoState (M : Machine S A) (s t : S) (as bs : List A) (n : ℕ) : S :=
  if n < as.length then (M.run s (as.take n)).getD s
  else (M.run t (bs.take ((n - as.length) % bs.length))).getD t

/-- One action of a run, from the state before it to the state after it. -/
theorem step_take {s t : S} {as : List A} (h : M.run s as = some t) {n : ℕ} {a : A}
    (ha : as[n]? = some a) :
    M.step ((M.run s (as.take n)).getD s) a = some ((M.run s (as.take (n + 1))).getD s) := by
  obtain ⟨hn, rfl⟩ := List.getElem?_eq_some_iff.mp ha
  have hsplit : as = as.take n ++ [as[n]] ++ as.drop (n + 1) := by
    rw [List.take_append_getElem, List.take_append_drop]
  rw [hsplit] at h
  obtain ⟨u, hu, -⟩ := run_append.mp h
  obtain ⟨v, hv, hstep⟩ := run_concat.mp hu
  rw [← List.take_append_getElem hn, hu, hv, Option.getD_some, Option.getD_some]
  exact hstep

/-- A run to a state that another run leads back to, and that run over and over. -/
def lasso {s t : S} {as bs : List A} (h : M.run s as = some t) (hloop : M.run t bs = some t)
    (hbs : bs ≠ []) : Execution M where
  state := lassoState M s t as bs
  action := lassoAction as bs
  step n := by
    have hpos : 0 < bs.length := List.length_pos_iff.mpr hbs
    have hend : ∀ {u v : S} {cs : List A}, M.run u cs = some v →
        (M.run u (cs.take cs.length)).getD u = v := by
      intro u v cs hrun
      rw [List.take_length, hrun, Option.getD_some]
    by_cases hn : n < as.length
    · obtain ⟨a, ha⟩ : ∃ a, as[n]? = some a := ⟨_, List.getElem?_eq_getElem hn⟩
      have hstep := step_take h ha
      simp only [lassoAction, if_pos hn, ha, lassoState]
      by_cases hnext : n + 1 < as.length
      · rw [if_pos hnext]
        exact hstep
      · have heq : n + 1 = as.length := by omega
        rw [if_neg hnext, hstep, heq, hend h, Nat.sub_self, Nat.zero_mod, List.take_zero, run_nil,
          Option.getD_some]
    · have hmod : (n - as.length) % bs.length < bs.length := Nat.mod_lt _ hpos
      obtain ⟨a, ha⟩ : ∃ a, bs[(n - as.length) % bs.length]? = some a :=
        ⟨_, List.getElem?_eq_getElem hmod⟩
      have hstep := step_take hloop ha
      have hnext : ¬ n + 1 < as.length := fun hlt => hn (Nat.lt_of_succ_lt hlt)
      have hsucc : n + 1 - as.length = n - as.length + 1 := by omega
      simp only [lassoAction, if_neg hn, ha, lassoState, if_neg hnext, hsucc]
      rw [hstep, Nat.add_mod]
      -- the loop goes on, or it is back where it began
      rcases Nat.lt_or_ge ((n - as.length) % bs.length + 1) bs.length with hlt | hge
      · rw [Nat.mod_eq_of_lt (a := 1) (by omega), Nat.mod_eq_of_lt hlt]
      · have heq : (n - as.length) % bs.length + 1 = bs.length := by omega
        rcases Nat.lt_or_ge 1 bs.length with hone | hone
        · rw [Nat.mod_eq_of_lt (a := 1) hone, heq, Nat.mod_self, hend hloop, List.take_zero,
            run_nil, Option.getD_some]
        · obtain hlen : bs.length = 1 := by omega
          rw [heq, hlen, Nat.mod_one, hlen.symm, hend hloop, List.take_zero, run_nil,
            Option.getD_some]

section Lasso

variable {s t : S} {as bs : List A} (h : M.run s as = some t) (hloop : M.run t bs = some t)
  (hbs : bs ≠ [])

theorem lasso_state_of_le {n : ℕ} (hn : n ≤ as.length) :
    M.run s (as.take n) = some ((lasso h hloop hbs).state n) := by
  change M.run s (as.take n) = some (lassoState M s t as bs n)
  rw [lassoState]
  split
  · rw [← List.take_append_drop n as] at h
    obtain ⟨u, hu, -⟩ := run_append.mp h
    rw [hu, Option.getD_some]
  · obtain rfl : n = as.length := by omega
    rw [List.take_length, h, Nat.sub_self, Nat.zero_mod, List.take_zero, run_nil,
      Option.getD_some]

theorem lasso_state_zero : (lasso h hloop hbs).state 0 = s :=
  (Option.some.inj (lasso_state_of_le h hloop hbs (Nat.zero_le _))).symm

/-- In the loop every state is some way along it. -/
theorem exists_prefix_of_lasso {n : ℕ} (hn : as.length ≤ n) :
    ∃ cs, cs <+: bs ∧ M.run t cs = some ((lasso h hloop hbs).state n) := by
  refine ⟨bs.take ((n - as.length) % bs.length), List.take_prefix .., ?_⟩
  change _ = some (lassoState M s t as bs n)
  rw [lassoState, if_neg (Nat.not_lt.mpr hn)]
  rw [← List.take_append_drop ((n - as.length) % bs.length) bs] at hloop
  obtain ⟨u, hu, -⟩ := run_append.mp hloop
  rw [hu, Option.getD_some]

/-- An action of the loop is taken again and again. -/
theorem lasso_recurs {b : A} (hb : b ∈ bs) (k : ℕ) :
    ∃ n ≥ k, (lasso h hloop hbs).action n = some b := by
  obtain ⟨j, hj, rfl⟩ := List.mem_iff_getElem.mp hb
  have hpos : 0 < bs.length := List.length_pos_iff.mpr hbs
  refine ⟨as.length + (j + bs.length * k), ?_, ?_⟩
  · have hle : k ≤ bs.length * k := Nat.le_mul_of_pos_left k hpos
    omega
  · change lassoAction as bs _ = _
    rw [lassoAction, if_neg (by omega), Nat.add_sub_cancel_left, Nat.add_mul_mod_self_left,
      Nat.mod_eq_of_lt hj, List.getElem?_eq_getElem hj]

/-- A lasso takes the actions of its run and of its loop only. -/
theorem mem_of_lasso_action {a : A} {n : ℕ} (ha : (lasso h hloop hbs).action n = some a) :
    a ∈ as ∨ a ∈ bs := by
  replace ha : lassoAction as bs n = some a := ha
  rw [lassoAction] at ha
  split at ha
  · exact .inl (List.mem_of_getElem? ha)
  · exact .inr (List.mem_of_getElem? ha)

/-- What the loop never enables need not be taken. -/
theorem lasso_fair_of_rest {P : A → Prop}
    (hrest : ∀ cs u, cs <+: bs → M.run t cs = some u → ¬ M.Enabled P u) :
    (lasso h hloop hbs).Fair P := by
  intro henabled
  obtain ⟨n, hn, he⟩ := henabled as.length
  obtain ⟨cs, hcs, hu⟩ := exists_prefix_of_lasso h hloop hbs hn
  exact absurd he (hrest cs _ hcs hu)

end Lasso

end Execution

/-! ## What actions of a set lead to -/

variable (M) in
/-- Actions of the set alone lead to a state with `Q`, whichever of them are taken, and one of
them can be taken until then. -/
inductive Inevitable (P : A → Prop) (Q : S → Prop) : S → Prop where
  | now {s : S} (h : Q s) : Inevitable P Q s
  | later {s : S} (henabled : M.Enabled P s)
    (hnext : ∀ a s', P a → M.step s a = some s' → Inevitable P Q s') : Inevitable P Q s

namespace Inevitable

variable {P : A → Prop} {Q I : S → Prop}

/-- **Inevitability by rank**: let an invariant keep an action of the set enabled as long as
`Q` fails, and let each of these lower a rank. -/
theorem of_rank (rank : S → ℕ) (henabled : ∀ s, I s → ¬ Q s → M.Enabled P s)
    (hstep : ∀ s a s', I s → ¬ Q s → P a → M.step s a = some s' → I s' ∧ rank s' < rank s)
    {s : S} (h : I s) : M.Inevitable P Q s := by
  induction hrank : rank s using Nat.strong_induction_on generalizing s with
  | _ r ih =>
    by_cases hq : Q s
    · exact .now hq
    · refine .later (henabled s h hq) fun a s' ha hs' => ?_
      obtain ⟨hi, hlt⟩ := hstep s a s' h hq ha hs'
      exact ih (rank s') (hrank ▸ hlt) hi rfl

/-- An invariant that excludes `Q`, and that some action of the set keeps wherever one is
enabled, makes `Q` avoidable. -/
theorem not_of_invariant (hq : ∀ s, I s → ¬ Q s)
    (hstep : ∀ s, I s → M.Enabled P s → ∃ a s', P a ∧ M.step s a = some s' ∧ I s') {s : S}
    (h : I s) : ¬ M.Inevitable P Q s := by
  intro hinevitable
  induction hinevitable with
  | now hq' => exact hq _ h hq'
  | later henabled _ ih =>
    obtain ⟨a, s', ha, hs', hi⟩ := hstep _ h henabled
    exact ih a s' ha hs' hi

/-- One action, taken again and again, leads on step by step. -/
theorem next {a : A} {s s' : S} (hstep : M.step s a = some s')
    (h : M.Inevitable (· = a) Q s') : M.Inevitable (· = a) Q s := by
  refine .later ⟨a, s', rfl, hstep⟩ ?_
  rintro _ s'' rfl hs''
  obtain rfl := Option.some.inj (hstep.symm.trans hs'')
  exact h

theorem imp {Q' : S → Prop} {s : S} (h : M.Inevitable P Q s) (hQ : ∀ s, Q s → Q' s) :
    M.Inevitable P Q' s := by
  induction h with
  | now hq => exact .now (hQ _ hq)
  | later henabled _ ih => exact .later henabled ih

/-- Two things that are inevitable, and each the end of what the set can do, come together. -/
theorem meet {Q' : S → Prop} {s : S} (h : M.Inevitable P Q s) (h' : M.Inevitable P Q' s)
    (hend : ∀ s, Q s → ¬ M.Enabled P s) (hend' : ∀ s, Q' s → ¬ M.Enabled P s) :
    ∃ s, Q s ∧ Q' s := by
  induction h with
  | now hq =>
    cases h' with
    | now hq' => exact ⟨_, hq, hq'⟩
    | later henabled _ => exact absurd henabled (hend _ hq)
  | later henabled _ ih =>
    cases h' with
    | now hq' => exact absurd henabled (hend' _ hq')
    | later _ hnext' =>
      obtain ⟨a, s', ha, hs'⟩ := henabled
      exact ih a s' ha hs' (hnext' a s' ha hs')

end Inevitable

/-! ## Actions that are taken finitely often -/

variable (M) in
/-- The machine with a budget: an action that costs can be taken only as often as it says. -/
def budgeted (costs : A → Prop) [DecidablePred costs] : Machine (S × ℕ) A where
  step
    | (s, n), a =>
      if costs a then
        match n with
        | 0 => none
        | n + 1 => (M.step s a).map (·, n)
      else (M.step s a).map (·, n)

variable (M) in
/-- Actions of the set alone lead to a state with `Q`, whichever of them are taken, as long as
those that cost are taken finitely often. -/
def Settles (P costs : A → Prop) [DecidablePred costs] (Q : S → Prop) (s : S) : Prop :=
  ∀ n, (M.budgeted costs).Inevitable P (fun sn => Q sn.1) (s, n)

section Settles

variable {P costs : A → Prop} [DecidablePred costs] {Q Q' : S → Prop} {s s' : S} {a : A}

/-- An action that costs nothing is enabled with any budget. -/
theorem budgeted_step_of_not (hfree : ¬ costs a) (hs' : M.step s a = some s') (n : ℕ) :
    (M.budgeted costs).step (s, n) a = some (s', n) := by
  rw [budgeted]
  dsimp only
  rw [if_neg hfree, hs', Option.map_some]

/-- A step with a budget is a step, which leaves the budget or takes one from it. -/
theorem step_of_budgeted {n n' : ℕ} (h : (M.budgeted costs).step (s, n) a = some (s', n')) :
    M.step s a = some s' ∧ if costs a then n = n' + 1 else n = n' := by
  rw [budgeted] at h
  dsimp only at h
  split at h
  case isTrue hcosts =>
    cases n with
    | zero => cases h
    | succ n =>
      obtain ⟨t, ht, heq⟩ := Option.map_eq_some_iff.mp h
      obtain ⟨rfl, rfl⟩ := Prod.mk.inj heq
      exact ⟨ht, if_pos hcosts ▸ rfl⟩
  case isFalse hfree =>
    obtain ⟨t, ht, heq⟩ := Option.map_eq_some_iff.mp h
    obtain ⟨rfl, rfl⟩ := Prod.mk.inj heq
    exact ⟨ht, if_neg hfree ▸ rfl⟩

namespace Settles

theorem now (h : Q s) : M.Settles P costs Q s := fun _ => .now h

theorem imp (h : M.Settles P costs Q s) (hQ : ∀ s, Q s → Q' s) : M.Settles P costs Q' s :=
  fun n => (h n).imp fun _ => hQ _

/-- An action that costs nothing can be taken, and all actions lead on. -/
theorem later (hfree : ∃ a s', P a ∧ ¬ costs a ∧ M.step s a = some s')
    (hnext : ∀ a s', P a → M.step s a = some s' → M.Settles P costs Q s') :
    M.Settles P costs Q s := by
  intro n
  obtain ⟨a, s', ha, hcosts, hs'⟩ := hfree
  refine .later ⟨a, (s', n), ha, budgeted_step_of_not hcosts hs' n⟩ ?_
  rintro a ⟨s', n'⟩ ha hs'
  exact hnext a s' ha (step_of_budgeted hs').1 n'

/-- A loop of two steps that only an action that costs goes round. -/
theorem retry {s₁ : S} (s₂ : S) (hfree₁ : ∃ a, P a ∧ ¬ costs a ∧ M.step s₁ a = some s₂)
    (hnext₁ : ∀ a s', P a → M.step s₁ a = some s' → s' = s₂)
    (hfree₂ : ∃ a s', P a ∧ ¬ costs a ∧ M.step s₂ a = some s')
    (hnext₂ : ∀ a s', P a → M.step s₂ a = some s' →
      (costs a ∧ s' = s₁) ∨ M.Settles P costs Q s') : M.Settles P costs Q s₁ := by
  intro n
  induction n using Nat.strong_induction_on with
  | _ n ih =>
    obtain ⟨a₁, ha₁, hcosts₁, hs₁⟩ := hfree₁
    obtain ⟨a₂, s', ha₂, hcosts₂, hs₂⟩ := hfree₂
    refine .later ⟨a₁, (s₂, n), ha₁, budgeted_step_of_not hcosts₁ hs₁ n⟩ ?_
    rintro a ⟨t, m⟩ ha hstep
    obtain ⟨ht, hm⟩ := step_of_budgeted hstep
    obtain rfl := hnext₁ a t ha ht
    have hmn : m ≤ n := by
      split at hm <;> omega
    refine .later ⟨a₂, (s', m), ha₂, budgeted_step_of_not hcosts₂ hs₂ m⟩ ?_
    rintro b ⟨u, k⟩ hb hstep
    obtain ⟨hu, hk⟩ := step_of_budgeted hstep
    rcases hnext₂ b u hb hu with ⟨hcosts, rfl⟩ | hsettles
    · rw [if_pos hcosts] at hk
      exact ih k (by omega)
    · exact hsettles k

/-- Two things that are settled, and each the end of what the set can do, come together. -/
theorem meet (h : M.Settles P costs Q s) (h' : M.Settles P costs Q' s)
    (hend : ∀ s, Q s → ¬ M.Enabled P s) (hend' : ∀ s, Q' s → ¬ M.Enabled P s) :
    ∃ s, Q s ∧ Q' s := by
  have henabled : ∀ {s : S} {n : ℕ}, (M.budgeted costs).Enabled P (s, n) → M.Enabled P s := by
    rintro s n ⟨a, ⟨s', n'⟩, ha, hs'⟩
    exact ⟨a, s', ha, (step_of_budgeted hs').1⟩
  obtain ⟨⟨s, n⟩, hq, hq'⟩ := (h 0).meet (h' 0) (fun sn hq he => hend sn.1 hq (henabled he))
    (fun sn hq he => hend' sn.1 hq (henabled he))
  exact ⟨s, hq, hq'⟩

end Settles

end Settles

end Machine
