import Mathlib.Data.List.Basic
import Mathlib.Data.Nat.Notation

/-!
# What has happened and not been undone since

A history is a list of events, the first one first. `Since P R` says that `P` happened at
some index and nothing that meets `R` after it, which is the past operator "since" of
temporal logic. One more event either is the one (`P` happens now), or leaves alone what
was there, unless it meets `R`: `since_concat`.
-/

universe u

variable {A : Type u}

/-- At index `i` of the history an event happened that meets `P` (which may look at the
history before it), and no event since has met `R`. -/
def Since (P : List A → A → Prop) (R : A → Prop) (history : List A) (i : ℕ) : Prop :=
  ∃ before a after, history = before ++ a :: after ∧ before.length = i ∧ P before a ∧
    ∀ b ∈ after, ¬ R b

variable {P Q : List A → A → Prop} {R : A → Prop} {history : List A} {a : A} {i : ℕ}

/-- Nothing has happened yet. -/
theorem not_since_nil : ¬ Since P R [] i := by
  rintro ⟨before, a, after, heq, -⟩
  exact absurd heq.symm (List.append_ne_nil_of_right_ne_nil before (List.cons_ne_nil a after))

/-- It happened during the history. -/
theorem Since.lt_length (h : Since P R history i) : i < history.length := by
  obtain ⟨before, a, after, rfl, rfl, -⟩ := h
  rw [List.length_append, List.length_cons]
  omega

/-- One more event. -/
theorem since_concat : Since P R (history ++ [a]) i ↔
    (i = history.length ∧ P history a) ∨ (Since P R history i ∧ ¬ R a) := by
  constructor
  · rintro ⟨before, b, after, heq, hlength, hP, hafter⟩
    rcases List.eq_nil_or_concat after with rfl | ⟨after', c, rfl⟩
    · obtain ⟨rfl, hb⟩ := List.append_inj' heq rfl
      obtain rfl := List.cons.inj hb |>.1
      exact .inl ⟨hlength.symm, hP⟩
    · rw [List.concat_eq_append] at heq hafter
      rw [← List.cons_append, ← List.append_assoc] at heq
      obtain ⟨hhistory, hc⟩ := List.append_inj' heq rfl
      obtain rfl := List.cons.inj hc |>.1
      refine .inr ⟨⟨before, b, after', hhistory, hlength, hP, fun d hd => ?_⟩, ?_⟩
      · exact hafter d (List.mem_append_left [a] hd)
      · exact hafter a (List.mem_append_right after' List.mem_cons_self)
  · rintro (⟨rfl, hP⟩ | ⟨⟨before, b, after, rfl, hlength, hP, hafter⟩, hR⟩)
    · exact ⟨history, a, [], rfl, rfl, hP, List.forall_mem_nil _⟩
    · refine ⟨before, b, after ++ [a], by simp, hlength, hP, ?_⟩
      exact List.forall_mem_append.mpr ⟨hafter, List.forall_mem_singleton.mpr hR⟩

/-- The same for some index or other. -/
theorem exists_since_concat : (∃ i, Since P R (history ++ [a]) i) ↔
    P history a ∨ ((∃ i, Since P R history i) ∧ ¬ R a) := by
  constructor
  · rintro ⟨i, h⟩
    rcases since_concat.mp h with ⟨-, hP⟩ | ⟨h, hR⟩
    · exact .inl hP
    · exact .inr ⟨⟨i, h⟩, hR⟩
  · rintro (hP | ⟨⟨i, h⟩, hR⟩)
    · exact ⟨_, since_concat.mpr (.inl ⟨rfl, hP⟩)⟩
    · exact ⟨i, since_concat.mpr (.inr ⟨h, hR⟩)⟩

/-- A weaker event has happened too. -/
theorem Since.imp (h : Since P R history i) (hPQ : ∀ before a, P before a → Q before a) :
    Since Q R history i := by
  obtain ⟨before, a, after, heq, hlength, hP, hafter⟩ := h
  exact ⟨before, a, after, heq, hlength, hPQ before a hP, hafter⟩
