import Mathlib.Data.List.Basic
import Mathlib.Data.List.Count

/-!
# Handles that are acquired, used and released

A log says what is done with handles, one event after another. `Run held log held'` says
that a log which starts with the handles `held` ends with `held'`, and that on the way no
handle is used or released that is not held at that moment: none is released twice, or used
after it was released. Logs compose (`Run.append`), every part of one is in order
(`Run.of_append`), and in the end every handle was released as often as acquired, less
those that are still held (`Run.count`).
-/

universe u

namespace Handles

/-- What is done with a handle. -/
inductive Event (H : Type u) where
  | acquire (h : H) : Event H
  | use (h : H) : Event H
  | release (h : H) : Event H
  deriving DecidableEq

variable {H : Type u} [DecidableEq H]

/-- The log is in order, and leads from the handles held before it to those held after it. -/
inductive Run {H : Type u} [DecidableEq H] : List H → List (Event H) → List H → Prop where
  | done {held : List H} : Run held [] held
  | acquire {held held' : List H} {log : List (Event H)} {h : H} (hnew : h ∉ held)
    (hrest : Run (h :: held) log held') : Run held (.acquire h :: log) held'
  | use {held held' : List H} {log : List (Event H)} {h : H} (hheld : h ∈ held)
    (hrest : Run held log held') : Run held (.use h :: log) held'
  | release {held held' : List H} {log : List (Event H)} {h : H} (hheld : h ∈ held)
    (hrest : Run (held.erase h) log held') : Run held (.release h :: log) held'

namespace Run

variable {held held' held'' : List H} {log log' : List (Event H)} {h : H}

/-- One log after another. -/
theorem append (hrun : Run held log held') (hrun' : Run held' log' held'') :
    Run held (log ++ log') held'' := by
  induction hrun with
  | done => exact hrun'
  | acquire hnew _ ih => exact .acquire hnew (ih hrun')
  | use hheld _ ih => exact .use hheld (ih hrun')
  | release hheld _ ih => exact .release hheld (ih hrun')

/-- A log that is in order is in order up to every moment. -/
theorem of_append (hrun : Run held (log ++ log') held'') :
    ∃ held', Run held log held' ∧ Run held' log' held'' := by
  induction log generalizing held with
  | nil => exact ⟨held, .done, hrun⟩
  | cons e log ih =>
    cases hrun with
    | acquire hnew hrest =>
      obtain ⟨held', hrun, hrun'⟩ := ih hrest
      exact ⟨held', .acquire hnew hrun, hrun'⟩
    | use hheld hrest =>
      obtain ⟨held', hrun, hrun'⟩ := ih hrest
      exact ⟨held', .use hheld hrun, hrun'⟩
    | release hheld hrest =>
      obtain ⟨held', hrun, hrun'⟩ := ih hrest
      exact ⟨held', .release hheld hrun, hrun'⟩

/-- What was held or acquired is held or was released. -/
theorem count (hrun : Run held log held') (h : H) :
    held.count h + log.count (.acquire h) = log.count (.release h) + held'.count h := by
  induction hrun with
  | done => simp
  | @acquire held held' log h' hnew _ ih =>
    rw [List.count_cons] at ih
    by_cases heq : h' = h
    · subst heq
      simp only [beq_self_eq_true, if_true, List.count_cons, beq_iff_eq, reduceCtorEq, if_false]
        at ih ⊢
      omega
    · simp only [beq_iff_eq, heq, if_false, List.count_cons, Event.acquire.injEq, reduceCtorEq]
        at ih ⊢
      omega
  | use hheld _ ih =>
    simp only [List.count_cons, beq_iff_eq, reduceCtorEq, if_false, Nat.add_zero]
    exact ih
  | @release held held' log h' hheld _ ih =>
    by_cases heq : h' = h
    · subst heq
      have hpos : 0 < held.count h' := List.count_pos_iff.mpr hheld
      rw [List.count_erase_self] at ih
      simp only [beq_self_eq_true, if_true, List.count_cons, beq_iff_eq, reduceCtorEq, if_false]
      omega
    · rw [List.count_erase_of_ne (Ne.symm heq)] at ih
      simp only [beq_iff_eq, heq, if_false, List.count_cons, Event.release.injEq, reduceCtorEq]
      omega

/-- A handle that is used or released was acquired before, and not released since. -/
theorem count_lt {e : Event H} (hrun : Run [] (log ++ e :: log') held')
    (he : e = .use h ∨ e = .release h) :
    log.count (.release h) < log.count (.acquire h) := by
  obtain ⟨held, hbefore, hrun'⟩ := hrun.of_append
  have hmem : h ∈ held := by
    rcases he with rfl | rfl
    · cases hrun' with
      | use hheld => exact hheld
    · cases hrun' with
      | release hheld => exact hheld
  have hcount := hbefore.count h
  have hpos : 0 < held.count h := List.count_pos_iff.mpr hmem
  rw [List.count_nil] at hcount
  omega

end Run

end Handles
