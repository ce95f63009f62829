import Mathlib.Logic.Function.Basic
import Logspine.Bytes

/-!
# A file system

Files by their paths, and the operations of `std::filesystem` and `std::ofstream` on
them. Each operation takes its outcome, so that a caller can be run over every pattern
of successes and failures. An operation that fails changes nothing, except that a write
may have come to an end before the last byte.
-/

/-- The files of a file system: what each path holds. -/
abbrev Files : Type := Bytes → Option Bytes

namespace Files

/-- `exists(path, ec)` -/
def contains (success : Bool) (path : Bytes) (files : Files) : Bool :=
  success && (files path).isSome

/-- `remove(path, ec)` -/
def remove (success : Bool) (path : Bytes) (files : Files) : Files :=
  if success then Function.update files path none else files

/-- `rename(source, target, ec)` -/
def rename (success : Bool) (source target : Bytes) (files : Files) : Files :=
  match files source with
  | some text =>
    if success then Function.update (Function.update files source none) target (some text)
    else files
  | none => files

/-- An output stream opened with `std::ios::trunc`. -/
def truncate (path : Bytes) (files : Files) : Files := Function.update files path (some [])

/-- Bytes written behind the end of a file. -/
def append (path text : Bytes) (files : Files) : Files :=
  Function.update files path (some ((files path).getD [] ++ text))

/-- `std::ofstream out(path, trunc)` and one `write`, of which `count` bytes arrive. -/
def overwrite (opened : Bool) (count : ℕ) (path text : Bytes) (files : Files) : Files :=
  if opened then (files.truncate path).append path (text.take count) else files

/-- `in.read` into a buffer of zero bytes as long as the file, of which `count` bytes arrive. -/
def read (count : ℕ) (text : Bytes) : Bytes :=
  text.take count ++ List.replicate (text.length - count) 0

variable {files : Files} {path source target : Bytes}

theorem contains_true : files.contains true path = (files path).isSome := Bool.true_and _

theorem remove_self : files.remove true path path = none := by
  rw [remove, if_pos rfl, Function.update_self]

theorem remove_of_ne {success : Bool} {other : Bytes} (h : other ≠ path) :
    files.remove success path other = files other := by
  rw [remove]
  split
  case isTrue => exact Function.update_of_ne h ..
  case isFalse => rfl

theorem rename_source (hne : source ≠ target) : files.rename true source target source = none := by
  rw [rename]
  cases h : files source with
  | none => exact h
  | some text => exact (Function.update_of_ne hne ..).trans (Function.update_self ..)

theorem rename_target {text : Bytes} (h : files source = some text) :
    files.rename true source target target = some text := by
  rw [rename, h]
  exact Function.update_self ..

theorem rename_target_of_none (h : files target = none) :
    files.rename true source target target = files source := by
  cases hsource : files source with
  | none =>
    rw [rename, hsource]
    exact h
  | some text => exact rename_target hsource

theorem ite_contains_rename (files : Files) (source target : Bytes) :
    (if files.contains true source then files.rename true source target else files) =
      files.rename true source target := by
  rw [contains_true, rename]
  cases files source with
  | none => rfl
  | some text => rfl

theorem rename_of_ne {success : Bool} {other : Bytes} (hs : other ≠ source) (ht : other ≠ target) :
    files.rename success source target other = files other := by
  rw [rename]
  cases files source with
  | none => rfl
  | some text =>
    cases success with
    | false => rfl
    | true => exact (Function.update_of_ne ht ..).trans (Function.update_of_ne hs ..)

theorem rename_false : files.rename false source target = files := by
  rw [rename]
  cases files source with
  | none => rfl
  | some text => rfl

theorem truncate_self : files.truncate path path = some [] := Function.update_self ..

theorem truncate_of_ne {other : Bytes} (h : other ≠ path) :
    files.truncate path other = files other := Function.update_of_ne h ..

theorem append_self (text : Bytes) :
    files.append path text path = some ((files path).getD [] ++ text) := Function.update_self ..

theorem append_of_ne {other : Bytes} (h : other ≠ path) (text : Bytes) :
    files.append path text other = files other := Function.update_of_ne h ..

theorem overwrite_self (count : ℕ) (text : Bytes) :
    files.overwrite true count path text path = some (text.take count) := by
  rw [overwrite, if_pos rfl, append_self, truncate_self]
  rfl

theorem overwrite_of_ne {opened : Bool} {other : Bytes} (h : other ≠ path) (count : ℕ)
    (text : Bytes) : files.overwrite opened count path text other = files other := by
  rw [overwrite]
  split
  case isTrue => rw [append_of_ne h, truncate_of_ne h]
  case isFalse => rfl

theorem length_read (count : ℕ) (text : Bytes) : (read count text).length = text.length := by
  rw [read, List.length_append, List.length_take, List.length_replicate]
  omega

end Files
