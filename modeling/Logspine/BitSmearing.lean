import Mathlib.Algebra.Group.Nat.Defs
import Mathlib.Data.Nat.Size

/-!
# Bit smearing

A word or-ed with itself shifted right by 1, 2, 4 and so on has every bit set below its
highest one. `Smears x k y` says how far that has come: `y` has a bit where `x` has one
among the `k` bits from there on. Each step doubles `k`, and when `k` reaches the width
the word is a power of two, less one.
-/

/-- `y` has a bit exactly where `x` has one among the `k` bits from there on. -/
def Smears {w : ℕ} (x : BitVec w) (k : ℕ) (y : BitVec w) : Prop :=
  ∀ i, y.getLsbD i = true ↔ ∃ j < k, x.getLsbD (i + j) = true

namespace Smears

variable {w k : ℕ} {x y : BitVec w}

/-- A word before the first step. -/
theorem refl (x : BitVec w) : Smears x 1 x := by
  intro i
  constructor
  · intro h
    exact ⟨0, Nat.zero_lt_one, h⟩
  · rintro ⟨j, hj, h⟩
    rwa [Nat.lt_one_iff.mp hj, Nat.add_zero] at h

/-- One step: the bits among the next `k`, and those among the `k` after them. -/
theorem double (h : Smears x k y) : Smears x (k + k) (y ||| y >>> k) := by
  intro i
  rw [BitVec.getLsbD_or, BitVec.getLsbD_ushiftRight, Bool.or_eq_true, h i, h (k + i)]
  constructor
  · rintro (⟨j, hj, hbit⟩ | ⟨j, hj, hbit⟩)
    · exact ⟨j, Nat.lt_add_right k hj, hbit⟩
    · refine ⟨k + j, Nat.add_lt_add_left hj k, ?_⟩
      rwa [← Nat.add_assoc, Nat.add_comm i k]
  · rintro ⟨j, hj, hbit⟩
    rcases Nat.lt_or_ge j k with hlt | hge
    · exact .inl ⟨j, hlt, hbit⟩
    · refine .inr ⟨j - k, Nat.sub_lt_left_of_lt_add hge hj, ?_⟩
      rwa [Nat.add_comm k i, Nat.add_assoc, Nat.add_sub_cancel' hge]

/-- Some bit from `i` on is set exactly when the word is at least `2 ^ i`. -/
theorem exists_getLsbD (x : BitVec w) (i : ℕ) :
    (∃ j < w, x.getLsbD (i + j) = true) ↔ 2 ^ i ≤ x.toNat := by
  constructor
  · rintro ⟨j, -, hbit⟩
    calc 2 ^ i ≤ 2 ^ (i + j) := Nat.pow_le_pow_right Nat.two_pos (Nat.le_add_right i j)
      _ ≤ x.toNat := Nat.ge_two_pow_of_testBit hbit
  · intro hle
    obtain ⟨m, hm, hbit⟩ := Nat.exists_ge_and_testBit_of_ge_two_pow hle
    have hlt : m < w := BitVec.lt_of_getLsbD hbit
    refine ⟨m - i, by omega, ?_⟩
    rwa [Nat.add_sub_cancel' hm]

/-- When `k` has reached the width, every bit below the highest one is set. -/
theorem toNat_eq (h : Smears x w y) : y.toNat = 2 ^ x.toNat.size - 1 := by
  apply Nat.eq_of_testBit_eq
  intro i
  rw [Nat.testBit_two_pow_sub_one, Bool.eq_iff_iff, decide_eq_true_eq, Nat.lt_size,
    ← exists_getLsbD]
  exact h i

end Smears

/-- `2 ^ size (n - 1)` is the least power of two that is at least `n`. -/
theorem Nat.two_pow_size_pred_le_iff {n k : ℕ} (hn : 1 ≤ n) :
    2 ^ (n - 1).size ≤ 2 ^ k ↔ n ≤ 2 ^ k := by
  rw [Nat.pow_le_pow_iff_right Nat.one_lt_two, Nat.size_le]
  omega
