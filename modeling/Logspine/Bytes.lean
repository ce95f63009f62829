import Mathlib.Data.List.Basic
import Mathlib.Data.Nat.Notation
import Mathlib.Data.Int.Notation

/-!
# Bytes, decimal numbers and lines

Texts are byte strings. `lines` splits a stream at its newline bytes; `natural` and
`integer` are the decimal texts of numbers.
-/

/-- A byte string. -/
abbrev Bytes : Type := List UInt8

/-- The byte of an ASCII character. -/
abbrev Char.byte (c : Char) : UInt8 := c.toUInt8

/-- The bytes of a string of ASCII characters. -/
def ascii (s : String) : Bytes := s.toList.map Char.byte

/-- A decimal digit. -/
def isDigit (b : UInt8) : Bool := '0'.byte ≤ b && b ≤ '9'.byte

/-! ## Decimal numbers -/

/-- The decimal text of a natural number. -/
def natural (n : ℕ) : Bytes := (Nat.toDigits 10 n).map Char.byte

/-- The decimal text of an integer. -/
def integer : ℤ → Bytes
  | .ofNat n => natural n
  | .negSucc n => '-'.byte :: natural (n + 1)

theorem byte_digitChar_of_lt : ∀ n < 10,
    isDigit n.digitChar.byte = true ∧ (n ≠ 0 → n.digitChar.byte ≠ '0'.byte) := by decide

theorem natural_of_lt {n : ℕ} (h : n < 10) : natural n = [n.digitChar.byte] := by
  rw [natural, Nat.toDigits_of_lt_base h]
  rfl

theorem natural_of_le {n : ℕ} (h : 10 ≤ n) :
    natural n = natural (n / 10) ++ [(n % 10).digitChar.byte] := by
  rw [natural, Nat.toDigits_of_base_le (by decide) h, List.map_append]
  rfl

/-- A decimal text is a digit and more digits, and has no leading zero. -/
theorem natural_eq_cons (n : ℕ) : ∃ d ds, natural n = d :: ds ∧ isDigit d = true ∧
    (∀ b ∈ ds, isDigit b = true) ∧ (n ≠ 0 → d ≠ '0'.byte) ∧ (n = 0 → ds = []) := by
  induction n using Nat.strongRecOn with
  | ind n ih =>
    rcases Nat.lt_or_ge n 10 with hlt | hge
    · obtain ⟨hdigit, hzero⟩ := byte_digitChar_of_lt n hlt
      exact ⟨n.digitChar.byte, [], natural_of_lt hlt, hdigit, nofun, hzero, fun _ => rfl⟩
    · obtain ⟨d, ds, heq, hd, hds, hzero, -⟩ := ih (n / 10) (by omega)
      refine ⟨d, ds ++ [(n % 10).digitChar.byte], ?_, hd, ?_, fun _ => hzero (by omega),
        fun h => by omega⟩
      · rw [natural_of_le hge, heq, List.cons_append]
      · intro b hb
        rcases List.mem_append.mp hb with hb | hb
        · exact hds b hb
        · rw [List.mem_singleton.mp hb]
          exact (byte_digitChar_of_lt _ (Nat.mod_lt n (by decide))).1

theorem isDigit_of_mem_natural {n : ℕ} {b : UInt8} (h : b ∈ natural n) : isDigit b = true := by
  obtain ⟨d, ds, heq, hd, hds, -⟩ := natural_eq_cons n
  rw [heq] at h
  rcases List.mem_cons.mp h with rfl | h
  · exact hd
  · exact hds b h

/-- The number that a text of digits stands for. -/
def decimal (ds : Bytes) : ℕ := ds.foldl (fun n d => n * 10 + (d.toNat - '0'.byte.toNat)) 0

theorem toNat_byte_digitChar_of_lt : ∀ n < 10,
    n.digitChar.byte.toNat - '0'.byte.toNat = n := by decide

/-- The decimal text of a number stands for the number. -/
theorem decimal_natural (n : ℕ) : decimal (natural n) = n := by
  induction n using Nat.strongRecOn with
  | ind n ih =>
    rcases Nat.lt_or_ge n 10 with hlt | hge
    · rw [natural_of_lt hlt]
      exact (Nat.zero_add _).trans (toNat_byte_digitChar_of_lt n hlt)
    · have hprefix : decimal (natural (n / 10)) = n / 10 := ih (n / 10) (by omega)
      rw [natural_of_le hge, decimal, List.foldl_append, ← decimal, hprefix]
      have hlast := toNat_byte_digitChar_of_lt (n % 10) (Nat.mod_lt n (by decide))
      calc n / 10 * 10 + ((n % 10).digitChar.byte.toNat - '0'.byte.toNat)
          = n / 10 * 10 + n % 10 := by rw [hlast]
        _ = n := Nat.div_add_mod' n 10

theorem natural_injective : Function.Injective natural := fun m n h => by
  rw [← decimal_natural m, h, decimal_natural]

/-! ## Control bytes -/

/-- No control byte occurs. -/
def NoControl (bs : Bytes) : Prop := ∀ b ∈ bs, 0x20 ≤ b

instance (bs : Bytes) : Decidable (NoControl bs) := List.decidableBAll _ bs

theorem NoControl.append {bs bs' : Bytes} (h : NoControl bs) (h' : NoControl bs') :
    NoControl (bs ++ bs') := fun b hb => (List.mem_append.mp hb).elim (h b) (h' b)

theorem NoControl.cons {b : UInt8} {bs : Bytes} (hb : 0x20 ≤ b) (h : NoControl bs) :
    NoControl (b :: bs) := List.forall_mem_cons.mpr ⟨hb, h⟩

theorem le_of_isDigit {b : UInt8} (h : isDigit b = true) : 0x20 ≤ b := by
  rw [isDigit, Bool.and_eq_true, decide_eq_true_eq] at h
  exact UInt8.le_trans (by decide) h.1

/-! ## ASCII texts -/

/-- Only ASCII bytes occur, and no control bytes up to 0x1f. -/
def AsciiText (bs : Bytes) : Prop := ∀ b ∈ bs, 0x20 ≤ b ∧ b < 0x80

instance (bs : Bytes) : Decidable (AsciiText bs) := List.decidableBAll _ bs

theorem AsciiText.append {bs bs' : Bytes} (h : AsciiText bs) (h' : AsciiText bs') :
    AsciiText (bs ++ bs') := fun b hb => (List.mem_append.mp hb).elim (h b) (h' b)

theorem AsciiText.cons {b : UInt8} {bs : Bytes} (hb : 0x20 ≤ b ∧ b < 0x80) (h : AsciiText bs) :
    AsciiText (b :: bs) := List.forall_mem_cons.mpr ⟨hb, h⟩

theorem AsciiText.noControl {bs : Bytes} (h : AsciiText bs) : NoControl bs :=
  fun b hb => (h b hb).1

theorem ascii_of_isDigit {b : UInt8} (h : isDigit b = true) : 0x20 ≤ b ∧ b < 0x80 := by
  refine ⟨le_of_isDigit h, ?_⟩
  rw [isDigit, Bool.and_eq_true, decide_eq_true_eq, decide_eq_true_eq] at h
  exact UInt8.lt_of_le_of_lt h.2 (by decide)

theorem asciiText_natural (n : ℕ) : AsciiText (natural n) :=
  fun _ hb => ascii_of_isDigit (isDigit_of_mem_natural hb)

theorem asciiText_integer (n : ℤ) : AsciiText (integer n) := by
  cases n with
  | ofNat n => exact asciiText_natural n
  | negSucc n => exact .cons (by decide) (asciiText_natural (n + 1))

/-! ## Lines -/

/-- The newline byte. -/
abbrev newline : UInt8 := '\n'.byte

theorem NoControl.newline_notMem {bs : Bytes} (h : NoControl bs) : newline ∉ bs :=
  fun hmem => absurd (h newline hmem) (by decide)

/-- The lines of a stream that a newline ends, and what follows the last newline. -/
def lines : Bytes → List Bytes × Bytes
  | [] => ([], [])
  | b :: bs =>
    if b = newline then ([] :: (lines bs).1, (lines bs).2)
    else match lines bs with
      | ([], rest) => ([], b :: rest)
      | (line :: ls, rest) => ((b :: line) :: ls, rest)

/-- A text without newlines, ended by one, is the first line. -/
theorem lines_append {line : Bytes} (h : newline ∉ line) (bs : Bytes) :
    lines (line ++ newline :: bs) = (line :: (lines bs).1, (lines bs).2) := by
  induction line with
  | nil => rw [List.nil_append, lines, if_pos rfl]
  | cons b line ih =>
    have hb : b ≠ newline := fun heq => h (heq ▸ List.mem_cons_self)
    rw [List.cons_append, lines, if_neg hb, ih fun hm => h (List.mem_cons_of_mem b hm)]

/-- No line has a newline in it. -/
theorem newline_notMem_of_mem_lines (bs : Bytes) : ∀ line ∈ (lines bs).1, newline ∉ line := by
  induction bs with
  | nil => exact List.forall_mem_nil _
  | cons b bs ih =>
    rw [lines]
    by_cases hb : b = newline
    · rw [if_pos hb]
      exact List.forall_mem_cons.mpr ⟨List.not_mem_nil, ih⟩
    · rw [if_neg hb]
      split
      case h_1 => exact List.forall_mem_nil _
      case h_2 line ls rest heq =>
        rw [heq] at ih
        obtain ⟨hline, hls⟩ := List.forall_mem_cons.mp ih
        exact List.forall_mem_cons.mpr ⟨List.not_mem_cons_of_ne_of_not_mem (Ne.symm hb) hline, hls⟩

/-- A text without newlines is no line. -/
theorem lines_of_notMem {tail : Bytes} (h : newline ∉ tail) : lines tail = ([], tail) := by
  induction tail with
  | nil => rfl
  | cons b tail ih =>
    have hb : b ≠ newline := fun heq => h (heq ▸ List.mem_cons_self)
    rw [lines, if_neg hb, ih fun hm => h (List.mem_cons_of_mem b hm)]

/-- A stream of lines, and a text without newlines, is split into these. -/
theorem lines_flatMap_append {A : Type} (f : A → Bytes) (xs : List A)
    (h : ∀ x ∈ xs, newline ∉ f x) {tail : Bytes} (htail : newline ∉ tail) :
    lines ((xs.flatMap fun x => f x ++ [newline]) ++ tail) = (xs.map f, tail) := by
  induction xs with
  | nil => exact lines_of_notMem htail
  | cons x xs ih =>
    rw [List.flatMap_cons, List.append_assoc, List.append_assoc, List.singleton_append,
      lines_append (h x List.mem_cons_self), ih fun y hy => h y (List.mem_cons_of_mem x hy)]
    rfl

/-- A stream of lines is split into these lines. -/
theorem lines_flatMap {A : Type} (f : A → Bytes) (xs : List A) (h : ∀ x ∈ xs, newline ∉ f x) :
    lines (xs.flatMap fun x => f x ++ [newline]) = (xs.map f, []) := by
  have hlines := lines_flatMap_append f xs h List.not_mem_nil
  rwa [List.append_nil] at hlines

/-- A stream of texts that newlines end is split into them if and only if none has a newline. -/
theorem lines_flatMap_iff {A : Type} (f : A → Bytes) (xs : List A) :
    lines (xs.flatMap fun x => f x ++ [newline]) = (xs.map f, []) ↔ ∀ x ∈ xs, newline ∉ f x := by
  refine ⟨fun h x hx => ?_, lines_flatMap f xs⟩
  have hlines := newline_notMem_of_mem_lines (xs.flatMap fun x => f x ++ [newline])
  rw [h] at hlines
  exact hlines (f x) (List.mem_map_of_mem hx)
