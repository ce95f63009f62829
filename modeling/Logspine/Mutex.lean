import Mathlib.Data.Nat.Notation
import Mathlib.Logic.Function.Basic

/-!
# A mutex and the places of the threads

Threads are at places, and some places are inside the lock. `Owned` says that the mutex names
the thread whose place is inside; a step of one thread keeps it when it stays outside, takes
the lock, stays inside or leaves the lock. `holderOf` is the place inside, if there is one.
-/

universe u

variable {P : Type u} {holds : P → Bool} {threads : ℕ → P} {mutex : Option ℕ} {t : ℕ} {p : P}

/-- The thread inside the lock is the one that the mutex names. -/
def Owned (holds : P → Bool) (threads : ℕ → P) (mutex : Option ℕ) : Prop :=
  ∀ t, holds (threads t) = true ↔ mutex = some t

/-- The place of the thread that the mutex names, `outside` when it names none. -/
def holderOf (outside : P) (threads : ℕ → P) (mutex : Option ℕ) : P := mutex.elim outside threads

namespace Owned

/-- A mutex that no thread holds is free. -/
theorem eq_none (h : Owned holds threads mutex) (hall : ∀ t, holds (threads t) = false) :
    mutex = none := by
  refine Option.eq_none_iff_forall_ne_some.mpr fun t ht => ?_
  have hholds := (h t).mpr ht
  rw [hall t] at hholds
  cases hholds

theorem ne_some (h : Owned holds threads mutex) (ht : holds (threads t) = false) :
    mutex ≠ some t := by
  intro hm
  rw [(h t).mpr hm] at ht
  cases ht

/-- A step of one thread, by what it does to the mutex. -/
theorem update {mutex' : Option ℕ} (h : Owned holds threads mutex)
    (ht : holds p = true ↔ mutex' = some t)
    (hu : ∀ u, u ≠ t → (mutex = some u ↔ mutex' = some u)) :
    Owned holds (Function.update threads t p) mutex' := by
  intro u
  by_cases hut : u = t
  · subst hut
    rw [Function.update_self]
    exact ht
  · rw [Function.update_of_ne hut]
    exact (h u).trans (hu u hut)

/-- A thread moves outside the lock. -/
theorem update_outside (h : Owned holds threads mutex) (ht : holds (threads t) = false)
    (hp : holds p = false) : Owned holds (Function.update threads t p) mutex := by
  refine h.update (iff_of_false ?_ (h.ne_some ht)) fun _ _ => Iff.rfl
  rw [hp]
  exact Bool.false_ne_true

/-- A thread takes the lock. -/
theorem update_lock (h : Owned holds threads none) (hp : holds p = true) :
    Owned holds (Function.update threads t p) (some t) := by
  refine h.update (iff_of_true hp rfl) fun u hu => iff_of_false (by rintro ⟨⟩) ?_
  rintro ⟨⟩
  exact hu rfl

/-- A thread moves inside the lock. -/
theorem update_inside (h : Owned holds threads mutex) (ht : holds (threads t) = true)
    (hp : holds p = true) : Owned holds (Function.update threads t p) mutex :=
  h.update (iff_of_true hp ((h t).mp ht)) fun _ _ => Iff.rfl

/-- A thread leaves the lock. -/
theorem update_unlock (h : Owned holds threads mutex) (ht : holds (threads t) = true)
    (hp : holds p = false) : Owned holds (Function.update threads t p) none := by
  have hm : mutex = some t := (h t).mp ht
  subst hm
  refine h.update (iff_of_false ?_ (by rintro ⟨⟩)) fun u hu => iff_of_false ?_ (by rintro ⟨⟩)
  · rw [hp]
    exact Bool.false_ne_true
  · rintro ⟨⟩
    exact hu rfl

/-! ## The holder -/

variable {outside : P}

/-- The holder is the thread inside the lock. -/
theorem holderOf_eq (h : Owned holds threads mutex) (ht : holds (threads t) = true) :
    holderOf outside threads mutex = threads t := by
  rw [holderOf, (h t).mp ht]
  rfl

/-- A move outside the lock leaves the holder where it is. -/
theorem holderOf_outside (h : Owned holds threads mutex) (ht : holds (threads t) = false) :
    holderOf outside (Function.update threads t p) mutex = holderOf outside threads mutex := by
  cases mutex with
  | none => rfl
  | some u =>
    refine Function.update_of_ne ?_ ..
    rintro rfl
    exact h.ne_some ht rfl

/-- The thread that moves inside the lock is the holder. -/
theorem holderOf_inside (h : Owned holds threads mutex) (ht : holds (threads t) = true) :
    holderOf outside (Function.update threads t p) mutex = p := by
  rw [holderOf, (h t).mp ht]
  exact Function.update_self ..

/-- The thread that takes the lock is the holder. -/
theorem holderOf_lock : holderOf outside (Function.update threads t p) (some t) = p :=
  Function.update_self ..

end Owned
