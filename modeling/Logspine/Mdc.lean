import Mathlib.Data.List.Nodup
import Logspine.LogEvent

/-!
# The mapped diagnostic context

`mdc` is a list of fields, one for each thread; `scoped_mdc` puts a field when it is
constructed and removes its key when it is destroyed. The two cancel when the key was
not there before, and only then: `Scopes.restores_iff`. No key is ever there twice
(`Mdc.Reachable.nodup_keys`).
-/

namespace Logspine

variable {D : Type}

/-- `thread_local_fields` -/
abbrev Mdc (D : Type) : Type := List (Field D)

namespace Mdc

/-- `mdc::put`: the first field with the key is overwritten. -/
def put (key : Bytes) (value : FieldValue D) : Mdc D → Mdc D
  | [] => [⟨key, value⟩]
  | f :: fields => if f.key = key then ⟨key, value⟩ :: fields else f :: put key value fields

/-- `mdc::remove` -/
def remove (key : Bytes) (fields : Mdc D) : Mdc D := fields.filter fun f => f.key ≠ key

/-- `mdc::clear` -/
def clear (_ : Mdc D) : Mdc D := []

/-- `mdc::get_all` -/
def getAll (fields : Mdc D) : List (Field D) := fields

/-- The keys of the fields, in order. -/
def keys (fields : Mdc D) : List Bytes := fields.map Field.key

theorem notMem_keys_remove (key : Bytes) (fields : Mdc D) : key ∉ (fields.remove key).keys := by
  intro hmem
  obtain ⟨f, hf, hkey⟩ := List.mem_map.mp hmem
  exact of_decide_eq_true (List.mem_filter.mp hf).2 hkey

/-- A new key is appended. -/
theorem put_of_notMem {key : Bytes} {fields : Mdc D} (h : key ∉ fields.keys)
    (value : FieldValue D) : fields.put key value = fields ++ [⟨key, value⟩] := by
  induction fields with
  | nil => rfl
  | cons f fields ih =>
    have hne : f.key ≠ key := fun heq => h (heq ▸ List.mem_cons_self)
    rw [put, if_neg hne, ih fun hmem => h (List.mem_cons_of_mem f.key hmem)]
    rfl

/-- Removing the key that was put last undoes the put of a new key. -/
theorem remove_append {key : Bytes} {fields : Mdc D} (h : key ∉ fields.keys)
    (value : FieldValue D) : remove key (fields ++ [⟨key, value⟩]) = fields := by
  have hfields : remove key fields = fields := by
    refine List.filter_eq_self.mpr fun f hf => decide_eq_true fun heq => h ?_
    exact heq ▸ List.mem_map_of_mem hf
  have hlast : remove key [(⟨key, value⟩ : Field D)] = [] :=
    List.filter_cons_of_neg fun hne => of_decide_eq_true hne rfl
  calc remove key (fields ++ [⟨key, value⟩])
      = remove key fields ++ remove key [⟨key, value⟩] := by
          simp only [remove, List.filter_append]
    _ = fields := by rw [hfields, hlast, List.append_nil]

/-- Overwriting a field keeps its key, and a new one is appended. -/
theorem keys_put (key : Bytes) (value : FieldValue D) (fields : Mdc D) :
    (fields.put key value).keys =
      if key ∈ fields.keys then fields.keys else fields.keys ++ [key] := by
  split
  case isTrue h =>
    induction fields with
    | nil => cases h
    | cons f fields ih =>
      rw [put]
      split
      case isTrue heq => exact congrArg (· :: keys fields) heq.symm
      case isFalse hne =>
        have hrest : key ∈ keys fields := (List.mem_cons.mp h).resolve_left (Ne.symm hne)
        exact congrArg (f.key :: ·) (ih hrest)
  case isFalse h =>
    rw [put_of_notMem h, keys, List.map_append]
    rfl

theorem nodup_keys_put {fields : Mdc D} (h : fields.keys.Nodup) (key : Bytes)
    (value : FieldValue D) : (fields.put key value).keys.Nodup := by
  rw [keys_put]
  split
  case isTrue => exact h
  case isFalse hnew =>
    rw [← List.concat_eq_append]
    exact List.Nodup.concat hnew h

theorem nodup_keys_remove {fields : Mdc D} (h : fields.keys.Nodup) (key : Bytes) :
    (fields.remove key).keys.Nodup :=
  h.sublist (List.filter_sublist.map Field.key)

end Mdc

/-! ## Scopes -/

/-- The constructor of `scoped_mdc`. -/
def ScopedMdc.construct (key : Bytes) (value : FieldValue D) (fields : Mdc D) : Mdc D :=
  fields.put key value

/-- The destructor of `scoped_mdc`. -/
def ScopedMdc.destroy (key : Bytes) (fields : Mdc D) : Mdc D := fields.remove key

/-- A context that a thread can reach, with its scopes ended in any order. -/
inductive Mdc.Reachable : Mdc D → Prop where
  | start : Reachable []
  | put {fields : Mdc D} (h : Reachable fields) (key : Bytes) (value : FieldValue D) :
    Reachable (fields.put key value)
  | remove {fields : Mdc D} (h : Reachable fields) (key : Bytes) : Reachable (fields.remove key)
  | clear {fields : Mdc D} (h : Reachable fields) : Reachable fields.clear
  | construct {fields : Mdc D} (h : Reachable fields) (key : Bytes) (value : FieldValue D) :
    Reachable (ScopedMdc.construct key value fields)
  | destroy {fields : Mdc D} (h : Reachable fields) (key : Bytes) :
    Reachable (ScopedMdc.destroy key fields)

/-- A context has no key twice. -/
theorem Mdc.Reachable.nodup_keys {fields : Mdc D} (h : Reachable fields) : fields.keys.Nodup := by
  induction h with
  | start => exact List.nodup_nil
  | put _ key value ih => exact nodup_keys_put ih key value
  | remove _ key ih => exact nodup_keys_remove ih key
  | clear => exact List.nodup_nil
  | construct _ key value ih => exact nodup_keys_put ih key value
  | destroy _ key ih => exact nodup_keys_remove ih key

/-- A well-nested program of scopes: one block after another, each with the scopes inside. -/
inductive Scopes (D : Type) where
  | done : Scopes D
  | scope (key : Bytes) (value : FieldValue D) (body rest : Scopes D) : Scopes D

namespace Scopes

/-- Run the program. -/
def run : Scopes D → Mdc D → Mdc D
  | done, fields => fields
  | scope key value body rest, fields =>
    rest.run (ScopedMdc.destroy key (body.run (ScopedMdc.construct key value fields)))

/-- Each scope that the program leaves restores what `get_all` returned before it. -/
def Restores : Scopes D → Mdc D → Prop
  | done, _ => True
  | scope key value body rest, fields =>
    let inside := ScopedMdc.construct key value fields
    let after := ScopedMdc.destroy key (body.run inside)
    body.Restores inside ∧ after.getAll = fields.getAll ∧ rest.Restores after

/-- No scope has a key among `keys` or of a scope around it. -/
def Fresh : Scopes D → List Bytes → Prop
  | done, _ => True
  | scope key _ body rest, keys => key ∉ keys ∧ body.Fresh (keys ++ [key]) ∧ rest.Fresh keys

/-- A program whose keys are fresh restores at every scope, and so as a whole. -/
theorem Fresh.restores {program : Scopes D} {fields : Mdc D} (h : program.Fresh fields.keys) :
    program.Restores fields ∧ program.run fields = fields := by
  induction program generalizing fields with
  | done => exact ⟨trivial, rfl⟩
  | scope key value body rest ihbody ihrest =>
    obtain ⟨hkey, hbody, hrest⟩ := h
    have hinside : ScopedMdc.construct key value fields = fields ++ [⟨key, value⟩] :=
      Mdc.put_of_notMem hkey value
    have hkeys : (ScopedMdc.construct key value fields).keys = fields.keys ++ [key] := by
      rw [hinside, Mdc.keys, List.map_append]
      rfl
    rw [← hkeys] at hbody
    obtain ⟨hrestores, hrun⟩ := ihbody hbody
    have hafter : ScopedMdc.destroy key (body.run (ScopedMdc.construct key value fields)) =
        fields := by
      rw [hrun, hinside]
      exact Mdc.remove_append hkey value
    obtain ⟨hrestores', hrun'⟩ := ihrest hrest
    refine ⟨⟨hrestores, ?_, ?_⟩, ?_⟩
    · rw [hafter]
    · rw [hafter]
      exact hrestores'
    · rw [run, hafter]
      exact hrun'

/-- A scope that restores had a fresh key: the destructor leaves no field with its key. -/
theorem Restores.fresh {program : Scopes D} {fields : Mdc D} (h : program.Restores fields) :
    program.Fresh fields.keys := by
  induction program generalizing fields with
  | done => trivial
  | scope key value body rest ihbody ihrest =>
    obtain ⟨hbody, hafter, hrest⟩ := h
    have hkey : key ∉ fields.keys := by
      have hremoved := Mdc.notMem_keys_remove key
        (body.run (ScopedMdc.construct key value fields))
      rw [show Mdc.remove key _ = fields from hafter] at hremoved
      exact hremoved
    refine ⟨hkey, ?_, ?_⟩
    · have hinside := ihbody hbody
      rw [ScopedMdc.construct, Mdc.put_of_notMem hkey, Mdc.keys, List.map_append] at hinside
      exact hinside
    · rw [show ScopedMdc.destroy key _ = fields from hafter] at hrest
      exact ihrest hrest

/-- **Scopes restore the context exactly when their keys are fresh**: when none is the key of
a field that is there before the program or of a scope around it. -/
theorem restores_iff (program : Scopes D) (fields : Mdc D) :
    program.Restores fields ↔ program.Fresh fields.keys :=
  ⟨Restores.fresh, fun h => h.restores.1⟩

/-- A request id for a whole request, and another one for a part of it. -/
def shadowingScopes : Scopes D :=
  .scope (ascii "request_id") (.string (ascii "1"))
    (.scope (ascii "request_id") (.string (ascii "2")) .done .done) .done

/-- The inner scope takes the field of the outer one with it. -/
theorem not_restores_shadowingScopes : ¬ (shadowingScopes : Scopes Bool).Restores [] := by
  rintro ⟨⟨-, hinner, -⟩, -, -⟩
  exact absurd (congrArg List.length hinner) (by decide)

end Scopes

end Logspine
