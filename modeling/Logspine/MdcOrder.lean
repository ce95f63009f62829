import Mathlib.Data.List.Induction
import Logspine.Mdc
import Logspine.Since

/-!
# The MDC as an insertion-ordered map

What `mdc` is for: a map from keys to values that remembers in which order its keys came.
A sequence of calls says what the map is: a key is in it since it was put and neither
removed nor cleared away; its value is the one that was put last; and its place is the one
of the put that introduced it. The vector, which is edited in place, is this map after any
calls (`run_ordered`).
-/

namespace Logspine

variable {D : Type}

namespace Mdc

/-- A call that edits the context. -/
inductive Call (D : Type) where
  | put (key : Bytes) (value : FieldValue D) : Call D
  | remove (key : Bytes) : Call D
  | clear : Call D

/-- What the call does to the context. -/
def Call.apply : Call D → Mdc D → Mdc D
  | put key value, fields => fields.put key value
  | remove key, fields => fields.remove key
  | clear, fields => fields.clear

/-- The context after the calls, on a thread that starts with none. -/
def run (calls : List (Call D)) : Mdc D := calls.foldl (fun fields call => call.apply fields) []

/-! ## The map that the calls describe -/

/-- The call puts the key. -/
def Call.Puts (key : Bytes) : Call D → Prop
  | put key' _ => key' = key
  | remove _ | clear => False

/-- The call takes the key away, if it is there. -/
def Call.Drops (key : Bytes) : Call D → Prop
  | put _ _ => False
  | remove key' => key' = key
  | clear => True

/-- A put of the key is not followed by a remove of it or a clear. -/
def Holds (calls : List (Call D)) (key : Bytes) : Prop :=
  ∃ i, Since (fun _ call => call.Puts key) (·.Drops key) calls i

/-- The last put of the key put the value, and no remove of it or clear follows. -/
def Gives (calls : List (Call D)) (key : Bytes) (value : FieldValue D) : Prop :=
  ∃ i, Since (fun _ call => call = .put key value) (fun call => call.Drops key ∨ call.Puts key)
    calls i

/-- Call `i` put the key when it was absent, and no remove of it or clear follows. -/
def Introduces (calls : List (Call D)) (key : Bytes) (i : ℕ) : Prop :=
  Since (fun before call => call.Puts key ∧ ¬ Holds before key) (·.Drops key) calls i

variable {calls : List (Call D)} {call : Call D} {key : Bytes} {value : FieldValue D} {i : ℕ}

theorem holds_concat : Holds (calls ++ [call]) key ↔
    call.Puts key ∨ (Holds calls key ∧ ¬ call.Drops key) := exists_since_concat

theorem gives_concat : Gives (calls ++ [call]) key value ↔
    call = .put key value ∨ (Gives calls key value ∧ ¬ (call.Drops key ∨ call.Puts key)) :=
  exists_since_concat

theorem introduces_concat : Introduces (calls ++ [call]) key i ↔
    (i = calls.length ∧ call.Puts key ∧ ¬ Holds calls key) ∨
      (Introduces calls key i ∧ ¬ call.Drops key) := since_concat

theorem Introduces.holds (h : Introduces calls key i) : Holds calls key :=
  ⟨i, h.imp fun _ _ hputs => hputs.1⟩

/-- Every key that is there was introduced. -/
theorem Holds.introduced (h : Holds calls key) : ∃ i, Introduces calls key i := by
  induction calls using List.reverseRecOn with
  | nil => exact h.elim fun _ hsince => absurd hsince not_since_nil
  | append_singleton calls call ih =>
    by_cases hbefore : Holds calls key
    · obtain ⟨i, hi⟩ := ih hbefore
      rcases holds_concat.mp h with hputs | ⟨-, hdrops⟩
      · cases call with
        | put key' value => exact ⟨i, introduces_concat.mpr (.inr ⟨hi, id⟩)⟩
        | remove | clear => exact hputs.elim
      · exact ⟨i, introduces_concat.mpr (.inr ⟨hi, hdrops⟩)⟩
    · rcases holds_concat.mp h with hputs | ⟨hheld, -⟩
      · exact ⟨_, introduces_concat.mpr (.inl ⟨rfl, hputs, hbefore⟩)⟩
      · exact absurd hheld hbefore

/-! ## The vector -/

theorem run_concat (calls : List (Call D)) (call : Call D) :
    run (calls ++ [call]) = call.apply (run calls) := by
  rw [run, List.foldl_append]
  rfl

theorem reachable_run (calls : List (Call D)) : Reachable (run calls) := by
  induction calls using List.reverseRecOn with
  | nil => exact .start
  | append_singleton calls call ih =>
    rw [run_concat]
    cases call with
    | put key value => exact ih.put key value
    | remove key => exact ih.remove key
    | clear => exact ih.clear

theorem keys_remove (key : Bytes) (fields : Mdc D) :
    (fields.remove key).keys = fields.keys.filter (· ≠ key) := by
  rw [keys, keys, remove, List.filter_map]
  rfl

/-- Overwriting the first field with the key overwrites the only one. -/
theorem mem_put {fields : Mdc D} (hnodup : fields.keys.Nodup) {f : Field D} :
    f ∈ fields.put key value ↔ f = ⟨key, value⟩ ∨ (f.key ≠ key ∧ f ∈ fields) := by
  induction fields with
  | nil => simp [put]
  | cons g fields ih =>
    obtain ⟨hnotMem, hrest⟩ := List.nodup_cons.mp hnodup
    rw [put]
    split
    case isTrue heq =>
      subst heq
      have hother : f ∈ fields → f.key ≠ g.key := fun hf heq =>
        hnotMem (heq ▸ List.mem_map_of_mem hf)
      rw [List.mem_cons, List.mem_cons]
      constructor
      · exact Or.imp_right fun hf => ⟨hother hf, .inr hf⟩
      · rintro (hf | ⟨hne, rfl | hf⟩)
        · exact .inl hf
        · exact absurd rfl hne
        · exact .inr hf
    case isFalse hne =>
      rw [List.mem_cons, List.mem_cons, ih hrest]
      constructor
      · rintro (rfl | hf | ⟨hkey, hf⟩)
        · exact .inr ⟨hne, .inl rfl⟩
        · exact .inl hf
        · exact .inr ⟨hkey, .inr hf⟩
      · rintro (hf | ⟨hkey, rfl | hf⟩)
        · exact .inr (.inl hf)
        · exact .inl rfl
        · exact .inr (.inr ⟨hkey, hf⟩)

/-- The vector has the fields of the map. -/
theorem mem_run : (⟨key, value⟩ : Field D) ∈ run calls ↔ Gives calls key value := by
  induction calls using List.reverseRecOn with
  | nil =>
    refine iff_of_false List.not_mem_nil ?_
    rintro ⟨i, h⟩
    exact not_since_nil h
  | append_singleton calls call ih =>
    rw [run_concat, gives_concat, ← ih]
    cases call with
    | put key' value' =>
      rw [Call.apply, mem_put (reachable_run calls).nodup_keys]
      simp only [Call.Drops, Call.Puts, Field.mk.injEq, Call.put.injEq, false_or, ne_eq, eq_comm]
      tauto
    | remove key' =>
      rw [Call.apply, remove, List.mem_filter, decide_eq_true_eq]
      simp only [Call.Drops, Call.Puts, reduceCtorEq, false_or, or_false, ne_eq, eq_comm]
    | clear =>
      refine iff_of_false List.not_mem_nil ?_
      rintro (h | ⟨-, h⟩)
      · cases h
      · exact h (.inl trivial)

/-- The vector has the keys of the map. -/
theorem mem_keys_run : key ∈ (run calls).keys ↔ Holds calls key := by
  induction calls using List.reverseRecOn with
  | nil =>
    refine iff_of_false List.not_mem_nil ?_
    rintro ⟨i, h⟩
    exact not_since_nil h
  | append_singleton calls call ih =>
    rw [run_concat, holds_concat, ← ih]
    cases call with
    | put key' value =>
      rw [Call.apply, keys_put]
      simp only [Call.Puts, Call.Drops, not_false_eq_true, and_true]
      split
      case isTrue hmem => exact ⟨.inr, fun h => h.elim (fun heq => heq ▸ hmem) id⟩
      case isFalse => rw [List.mem_append, List.mem_singleton, or_comm, eq_comm]
    | remove key' =>
      rw [Call.apply, keys_remove, List.mem_filter, decide_eq_true_eq]
      simp only [Call.Puts, Call.Drops, false_or, ne_eq, eq_comm]
    | clear =>
      refine iff_of_false List.not_mem_nil ?_
      rintro (h | ⟨-, h⟩)
      · exact h
      · exact h trivial

/-- The keys are in the order in which they were introduced. -/
theorem pairwise_keys_run (calls : List (Call D)) : (run calls).keys.Pairwise fun key key' =>
    ∀ i i', Introduces calls key i → Introduces calls key' i' → i < i' := by
  induction calls using List.reverseRecOn with
  | nil => exact List.Pairwise.nil
  | append_singleton calls call ih =>
    -- a key that is there and stays was introduced before the last call
    have hold : ∀ {key i}, Holds calls key → Introduces (calls ++ [call]) key i →
        Introduces calls key i := by
      intro key i hheld h
      rcases introduces_concat.mp h with ⟨-, -, hnew⟩ | ⟨h, -⟩
      · exact absurd hheld hnew
      · exact h
    have hkept : (run calls).keys.Pairwise fun key key' => ∀ i i',
        Introduces (calls ++ [call]) key i → Introduces (calls ++ [call]) key' i' → i < i' := by
      refine ih.imp_of_mem fun hkey hkey' hlt i i' hi hi' => ?_
      exact hlt i i' (hold (mem_keys_run.mp hkey) hi) (hold (mem_keys_run.mp hkey') hi')
    rw [run_concat]
    cases call with
    | put key value =>
      rw [Call.apply, keys_put]
      split
      case isTrue => exact hkept
      case isFalse hnew =>
        refine List.pairwise_append.mpr ⟨hkept, List.pairwise_singleton _ _, ?_⟩
        intro key' hkey' key'' hkey'' i i' hi hi'
        rw [List.mem_singleton.mp hkey''] at hi'
        -- the new key is introduced by the last call
        have hlast : i' = calls.length := by
          rcases introduces_concat.mp hi' with ⟨hlast, -⟩ | ⟨h, -⟩
          · exact hlast
          · exact absurd (mem_keys_run.mpr h.holds) hnew
        rw [hlast]
        exact (hold (mem_keys_run.mp hkey') hi).lt_length
    | remove key =>
      rw [Call.apply, keys_remove]
      exact hkept.filter _
    | clear => exact List.Pairwise.nil

/-- **The MDC is an insertion-ordered map.** After any calls `get_all` has no key twice; it
has the keys that were put and neither removed nor cleared away since, each with the value
of its last put; and they stand in the order of the puts that introduced them. -/
theorem run_ordered (calls : List (Call D)) :
    (run calls).getAll.Pairwise (fun f f' => f.key ≠ f'.key) ∧
    (∀ key, (∃ f ∈ (run calls).getAll, f.key = key) ↔ Holds calls key) ∧
    (∀ key value, (⟨key, value⟩ : Field D) ∈ (run calls).getAll ↔ Gives calls key value) ∧
    (∀ f ∈ (run calls).getAll, ∃ i, Introduces calls f.key i) ∧
    (run calls).getAll.Pairwise (fun f f' =>
      ∀ i i', Introduces calls f.key i → Introduces calls f'.key i' → i < i') := by
  have hkeys : ∀ key, (∃ f ∈ (run calls).getAll, f.key = key) ↔ Holds calls key := fun key => by
    rw [← mem_keys_run]
    exact List.mem_map.symm
  refine ⟨?_, hkeys, fun key value => mem_run, fun f hf => ?_, ?_⟩
  · exact List.pairwise_map.mp (reachable_run calls).nodup_keys
  · exact ((hkeys f.key).mp ⟨f, hf, rfl⟩).introduced
  · exact List.pairwise_map.mp (pairwise_keys_run calls)

end Mdc

end Logspine
