import Logspine.Bytes
import Mathlib.Data.List.Lex
import Mathlib.Tactic.Ring

/-!
# Fixed-width decimal texts

A layout is a sequence of decimal fields of fixed widths, each followed by its separator.
Numbers that fit a layout are read back from their text, and their texts are ordered as the
numbers are: byte by byte in the one, number by number in the other.
-/

namespace FixedWidth

/-! ## Digits -/

/-- The last `width` decimal digits of a number. -/
def digits : ℕ → ℕ → Bytes
  | 0, _ => []
  | width + 1, n => digits width (n / 10) ++ [(n % 10).digitChar.byte]

@[simp] theorem length_digits (width n : ℕ) : (digits width n).length = width := by
  induction width generalizing n with
  | zero => rfl
  | succ width ih => rw [digits, List.length_append, ih, List.length_singleton]

theorem all_isDigit_digits (width n : ℕ) : (digits width n).all isDigit = true := by
  induction width generalizing n with
  | zero => rfl
  | succ width ih =>
    rw [digits, List.all_append, ih, Bool.true_and, List.all_cons, List.all_nil, Bool.and_true]
    exact (byte_digitChar_of_lt _ (Nat.mod_lt n (by decide))).1

/-- Enough digits stand for the whole number. -/
theorem decimal_digits {width n : ℕ} (h : n < 10 ^ width) : decimal (digits width n) = n := by
  induction width generalizing n with
  | zero => exact (Nat.lt_one_iff.mp h).symm
  | succ width ih =>
    have hprefix : decimal (digits width (n / 10)) = n / 10 :=
      ih (Nat.div_lt_of_lt_mul (by rwa [Nat.pow_succ, Nat.mul_comm] at h))
    rw [digits, decimal, List.foldl_append, ← decimal, hprefix, List.foldl_cons, List.foldl_nil,
      toNat_byte_digitChar_of_lt _ (Nat.mod_lt n (by decide)), Nat.div_add_mod']

/-- The decimal text of a number, padded with zeros, is its digits. -/
theorem zeros_append_natural {width n : ℕ} (hwidth : 0 < width) (h : n < 10 ^ width) :
    List.replicate (width - (natural n).length) '0'.byte ++ natural n = digits width n := by
  induction width, hwidth using Nat.le_induction generalizing n with
  | base =>
    have hn : n < 10 := h
    rw [natural_of_lt hn, digits, Nat.mod_eq_of_lt hn]
    rfl
  | succ width hwidth ih =>
    have hprefix := ih (n := n / 10)
      (Nat.div_lt_of_lt_mul (by rwa [Nat.pow_succ, Nat.mul_comm] at h))
    rw [digits, ← hprefix]
    rcases Nat.lt_or_ge n 10 with hlt | hge
    · have hzero : natural (n / 10) = ['0'.byte] := by
        rw [Nat.div_eq_of_lt hlt]
        rfl
      rw [natural_of_lt hlt, hzero, Nat.mod_eq_of_lt hlt, List.length_singleton,
        List.length_singleton, Nat.add_sub_cancel, ← List.replicate_succ',
        Nat.sub_add_cancel hwidth]
    · rw [natural_of_le hge, List.length_append, List.length_singleton, Nat.add_sub_add_right,
        List.append_assoc]

/-! ## The order of texts -/

/-- Texts of one length that differ keep their order whatever follows. -/
theorem append_lt_append {bs bs' : Bytes} (h : bs < bs') (hlength : bs.length = bs'.length)
    (rest rest' : Bytes) : bs ++ rest < bs' ++ rest' := by
  induction h with
  | nil => cases hlength
  | rel hlt => exact .rel hlt
  | cons _ ih => exact .cons (ih (Nat.succ.inj hlength))

theorem byte_digitChar_lt : ∀ m < 10, ∀ n < m, n.digitChar.byte < m.digitChar.byte := by decide

/-- Digits are ordered as the numbers they stand for. -/
theorem digits_lt {width n m : ℕ} (hm : m < 10 ^ width) (h : n < m) :
    digits width n < digits width m := by
  induction width generalizing n m with
  | zero => exact absurd (Nat.lt_one_iff.mp hm) (Nat.ne_zero_of_lt h)
  | succ width ih =>
    have hm' : m / 10 < 10 ^ width :=
      Nat.div_lt_of_lt_mul (by rwa [Nat.pow_succ, Nat.mul_comm] at hm)
    rw [digits, digits]
    rcases Nat.lt_or_ge (n / 10) (m / 10) with hlt | hge
    · exact append_lt_append (ih hm' hlt) (by rw [length_digits, length_digits]) _ _
    · have heq : n / 10 = m / 10 := by omega
      rw [heq]
      apply List.append_left_lt
      exact .rel (byte_digitChar_lt _ (Nat.mod_lt m (by decide)) _ (by omega))

/-! ## Layouts -/

/-- The widths of the fields and the byte after each. -/
abbrev Layout : Type := List (ℕ × UInt8)

/-- The numbers fit the fields. -/
def Fits (layout : Layout) (ns : List ℕ) : Prop :=
  List.Forall₂ (fun field n => n < 10 ^ field.1) layout ns

/-- The text of numbers in a layout. -/
def write : Layout → List ℕ → Bytes
  | (width, separator) :: layout, n :: ns => digits width n ++ separator :: write layout ns
  | _, _ => []

/-- The numbers of a text in a layout. -/
def read : Layout → Bytes → Option (List ℕ)
  | [], bs => if bs = [] then some [] else none
  | (width, separator) :: layout, bs =>
    if (bs.take width).length = width ∧ (bs.take width).all isDigit = true ∧
        (bs.drop width).head? = some separator then
      (read layout (bs.drop (width + 1))).map (decimal (bs.take width) :: ·)
    else none

theorem length_write {layout : Layout} {ns : List ℕ} (h : Fits layout ns) :
    (write layout ns).length = (layout.map (·.1 + 1)).sum := by
  induction h with
  | nil => rfl
  | @cons field n layout ns _ _ ih =>
    rw [write, List.length_append, length_digits, List.length_cons, ih, List.map_cons,
      List.sum_cons]
    ring

/-- What was written is read back, and the rest is read by the rest of the layout. -/
theorem read_write_append {layout : Layout} {ns : List ℕ} (h : Fits layout ns)
    (layout' : Layout) (bs : Bytes) :
    read (layout ++ layout') (write layout ns ++ bs) = (read layout' bs).map (ns ++ ·) := by
  induction h with
  | nil => exact (Option.map_id' (x := read layout' bs)).symm
  | @cons field n layout ns hn _ ih =>
    obtain ⟨width, separator⟩ := field
    have htext : write ((width, separator) :: layout) (n :: ns) ++ bs =
        digits width n ++ separator :: (write layout ns ++ bs) := by
      rw [write, List.append_assoc, List.cons_append]
    have htake : (digits width n ++ separator :: (write layout ns ++ bs)).take width =
        digits width n := List.take_left' (length_digits width n)
    have hdrop : (digits width n ++ separator :: (write layout ns ++ bs)).drop width =
        separator :: (write layout ns ++ bs) := List.drop_left' (length_digits width n)
    rw [htext, List.cons_append, read, htake, hdrop, if_pos ⟨length_digits _ _,
      all_isDigit_digits _ _, rfl⟩, ← List.drop_drop, hdrop, List.drop_one, List.tail_cons, ih,
      decimal_digits hn, Option.map_map]
    rfl

theorem read_write {layout : Layout} {ns : List ℕ} (h : Fits layout ns) :
    read layout (write layout ns) = some ns := by
  have hread := read_write_append h [] []
  rw [List.append_nil, List.append_nil] at hread
  rw [hread, read, if_pos rfl, Option.map_some, List.append_nil]

/-- A field starts with a digit. -/
theorem read_cons_eq_none {width : ℕ} {separator b : UInt8} (hwidth : 0 < width)
    (hb : isDigit b = false) (layout : Layout) (bs : Bytes) :
    read ((width, separator) :: layout) (b :: bs) = none := by
  obtain ⟨width, rfl⟩ := Nat.exists_eq_succ_of_ne_zero hwidth.ne'
  refine if_neg fun h => ?_
  rw [List.take_succ_cons, List.all_cons, hb, Bool.false_and] at h
  exact Bool.false_ne_true h.2.1

/-- Texts in a layout are ordered as the numbers in them. -/
theorem write_lt {layout : Layout} {ns ms : List ℕ} (hns : Fits layout ns)
    (hms : Fits layout ms) (h : ns < ms) : write layout ns < write layout ms := by
  induction hns generalizing ms with
  | nil =>
    cases hms
    exact absurd h (List.not_lt_nil _)
  | @cons field n layout ns hn _ ih =>
    obtain ⟨width, separator⟩ := field
    cases hms with
    | cons hm hms =>
      rcases List.cons_lt_cons_iff.mp h with hlt | ⟨rfl, hlt⟩
      · exact append_lt_append (digits_lt hm hlt) (by rw [length_digits, length_digits]) _ _
      · exact List.append_left_lt (.cons (ih hms hlt))

theorem write_lt_iff {layout : Layout} {ns ms : List ℕ} (hns : Fits layout ns)
    (hms : Fits layout ms) : write layout ns < write layout ms ↔ ns < ms := by
  refine ⟨fun h => ?_, write_lt hns hms⟩
  rcases lt_trichotomy ns ms with hlt | rfl | hgt
  · exact hlt
  · exact absurd h (List.lt_irrefl _)
  · exact absurd h (List.lt_asymm (write_lt hms hns hgt))

end FixedWidth
