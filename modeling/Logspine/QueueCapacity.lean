import Mathlib.Order.Bounds.Basic
import Logspine.AsyncDispatcher
import Logspine.BitSmearing
import Logspine.Bytes
import Logspine.MpscQueueInv

/-!
# The capacity of the queue

`round_up_to_power_of_2` smears the bits of a word and adds one, which wraps around to
zero above `2 ^ 63`; the constructor of `mpsc_queue` does not accept zero. So the queue
of an `async_dispatcher` always has a power of two of slots.
-/

namespace Logspine

open MpscQueue (Queue)

/-- What the shifts and the increment make of a word: the next power of two, modulo the
width. -/
theorem toNat_roundUpToPowerOf2 {n : BitVec 64} (hn : 1 < n.toNat) :
    (roundUpToPowerOf2 n).toNat = 2 ^ (n.toNat - 1).size % 2 ^ 64 := by
  have hle : ¬ n ≤ 1 := Nat.not_le.mpr hn
  have hpred : (n - 1).toNat = n.toNat - 1 := BitVec.toNat_sub_of_le (Nat.le_of_lt hn)
  -- six steps reach all 64 bits
  have hsmeared := (Smears.refl (n - 1)).double.double.double.double.double.double.toNat_eq
  rw [hpred] at hsmeared
  rw [roundUpToPowerOf2, if_neg hle]
  calc ((_ : BitVec 64) + 1).toNat
      = (2 ^ (n.toNat - 1).size - 1 + 1) % 2 ^ 64 := by
        rw [BitVec.toNat_add]
        exact congrArg (fun m => (m + 1) % 2 ^ 64) hsmeared
    _ = 2 ^ (n.toNat - 1).size % 2 ^ 64 := by rw [Nat.sub_add_cancel Nat.one_le_two_pow]

/-- Up to `2 ^ 63` the power of two fits into the word. -/
theorem toNat_roundUpToPowerOf2_of_le {n : BitVec 64} (hn : 1 < n.toNat)
    (hle : n.toNat ≤ 2 ^ 63) : (roundUpToPowerOf2 n).toNat = 2 ^ (n.toNat - 1).size := by
  have hpow : 2 ^ (n.toNat - 1).size ≤ 2 ^ 63 :=
    (Nat.two_pow_size_pred_le_iff hn.le).mpr hle
  rw [toNat_roundUpToPowerOf2 hn]
  exact Nat.mod_eq_of_lt (hpow.trans_lt (Nat.pow_lt_pow_right Nat.one_lt_two (by decide)))

/-- Above `2 ^ 63` the increment wraps around. -/
theorem roundUpToPowerOf2_of_lt {n : BitVec 64} (hlt : 2 ^ 63 < n.toNat) :
    (roundUpToPowerOf2 n).toNat = 0 := by
  have hn : 1 < n.toNat := lt_trans (by decide) hlt
  have hsize : (n.toNat - 1).size = 64 := by
    have hupper : (n.toNat - 1).size ≤ 64 := Nat.size_le.mpr (by omega)
    have hlower : 63 < (n.toNat - 1).size := Nat.lt_size.mpr (by omega)
    omega
  rw [toNat_roundUpToPowerOf2 hn, hsize]
  exact Nat.mod_self _

/-- `round_up_to_power_of_2` is the least power of two from its argument and from two on. -/
theorem isLeast_roundUpToPowerOf2 {n : BitVec 64} (hle : n.toNat ≤ 2 ^ 63) :
    IsLeast {p | p.isPowerOfTwo ∧ max n.toNat 2 ≤ p} (roundUpToPowerOf2 n).toNat := by
  rcases Nat.lt_or_ge 1 n.toNat with hn | hn
  · have hmax : max n.toNat 2 = n.toNat := Nat.max_eq_left hn
    rw [toNat_roundUpToPowerOf2_of_le hn hle, hmax]
    refine ⟨⟨⟨_, rfl⟩, (Nat.two_pow_size_pred_le_iff hn.le).mp le_rfl⟩, ?_⟩
    rintro p ⟨⟨k, rfl⟩, hp⟩
    exact (Nat.two_pow_size_pred_le_iff hn.le).mpr hp
  · have htwo : roundUpToPowerOf2 n = 2 := if_pos hn
    have hmax : max n.toNat 2 = 2 := Nat.max_eq_right (hn.trans (Nat.le_succ 1))
    rw [htwo, hmax]
    exact ⟨⟨⟨1, rfl⟩, le_rfl⟩, fun p hp => hp.2⟩

/-- From two on, less than twice the argument. -/
theorem toNat_roundUpToPowerOf2_lt {n : BitVec 64} (hn : 1 < n.toNat)
    (hle : n.toNat ≤ 2 ^ 63) : (roundUpToPowerOf2 n).toNat < 2 * n.toNat := by
  rw [toNat_roundUpToPowerOf2_of_le hn hle]
  obtain ⟨k, hk⟩ : ∃ k, (n.toNat - 1).size = k + 1 :=
    Nat.exists_eq_add_one.mpr (Nat.size_pos.mpr (Nat.sub_pos_of_lt hn))
  have hhalf : 2 ^ k ≤ n.toNat - 1 := Nat.lt_size.mp (hk ▸ Nat.lt_succ_self k)
  rw [hk, Nat.pow_succ]
  omega

namespace AsyncDispatcher

variable {E : Type}

/-- The constructor of `async_dispatcher`: the queue it builds, or what it throws; `exhausted` is
what `new slot[capacity]` throws, when it does. -/
def construct (exhausted : Option Bytes) (options : AsyncOptions) :
    Except Bytes (Queue (QueueItem E)) :=
  if options.queueCapacity = 0 then
    .error (ascii "async_dispatcher queue_capacity must be greater than zero")
  else if options.batchSize = 0 then
    .error (ascii "async_dispatcher batch_size must be greater than zero")
  else
    match Queue.create (roundUpToPowerOf2 options.queueCapacity).toNat with
    | none => .error (ascii "capacity must be a power of 2")
    | some queue =>
      match exhausted with
      | none => .ok queue
      | some what => .error what

/-- When the constructor does not throw: the queue has the rounded capacity. -/
theorem construct_eq_ok {exhausted : Option Bytes} {options : AsyncOptions}
    {queue : Queue (QueueItem E)} :
    construct exhausted options = .ok queue ↔ exhausted = none ∧ options.queueCapacity ≠ 0 ∧
      options.batchSize ≠ 0 ∧
        Queue.create (roundUpToPowerOf2 options.queueCapacity).toNat = some queue := by
  rw [construct]
  by_cases hcapacity : options.queueCapacity = 0
  · rw [if_pos hcapacity]
    refine ⟨?_, fun h => absurd hcapacity h.2.1⟩
    rintro ⟨⟩
  by_cases hbatch : options.batchSize = 0
  · rw [if_neg hcapacity, if_pos hbatch]
    refine ⟨?_, fun h => absurd hbatch h.2.2.1⟩
    rintro ⟨⟩
  rw [if_neg hcapacity, if_neg hbatch]
  cases hcreate : (Queue.create (roundUpToPowerOf2 options.queueCapacity).toNat :
      Option (Queue (QueueItem E))) with
  | none =>
    constructor
    · rintro ⟨⟩
    · rintro ⟨-, -, -, ⟨⟩⟩
  | some queue' =>
    cases exhausted with
    | some what =>
      constructor
      · rintro ⟨⟩
      · rintro ⟨⟨⟩, -⟩
    | none =>
      constructor
      · rintro ⟨⟩
        exact ⟨rfl, hcapacity, hbatch, rfl⟩
      · rintro ⟨-, -, -, ⟨⟩⟩
        rfl

/-- **The capacity is rounded exactly, and guarded.** Up to `2 ^ 63` it becomes the least
power of two from it and from two on; above, the result is zero, which no queue is built
with. So a dispatcher is built, if there is memory for it, exactly with a capacity of at most
`2 ^ 63` that is not zero and a batch size that is not; and it has a power of two of slots, at
least two, and less than twice the capacity asked for when that is two or more. -/
theorem queue_capacity_exact (n : BitVec 64) :
    (n.toNat ≤ 2 ^ 63 →
      IsLeast {p | p.isPowerOfTwo ∧ max n.toNat 2 ≤ p} (roundUpToPowerOf2 n).toNat) ∧
    (2 ^ 63 < n.toNat →
      (Queue.create (roundUpToPowerOf2 n).toNat : Option (Queue (QueueItem E))) = none) ∧
    ∀ (exhausted : Option Bytes) (options : AsyncOptions), options.queueCapacity = n →
      ((∃ queue : Queue (QueueItem E), construct exhausted options = .ok queue) ↔
        exhausted = none ∧ n ≠ 0 ∧ n.toNat ≤ 2 ^ 63 ∧ options.batchSize ≠ 0) ∧
      ∀ queue : Queue (QueueItem E), construct exhausted options = .ok queue →
        ∃ capacity, queue.bufferMask = capacity - 1 ∧ capacity.isPowerOfTwo ∧ 2 ≤ capacity ∧
          n.toNat ≤ capacity ∧ (2 ≤ n.toNat → capacity < 2 * n.toNat) := by
  have hrejected : 2 ^ 63 < n.toNat →
      (Queue.create (roundUpToPowerOf2 n).toNat : Option (Queue (QueueItem E))) = none := by
    intro hlt
    rw [roundUpToPowerOf2_of_lt hlt]
    rfl
  refine ⟨isLeast_roundUpToPowerOf2, hrejected, ?_⟩
  rintro exhausted options rfl
  refine ⟨⟨?_, ?_⟩, ?_⟩
  · rintro ⟨queue, hqueue⟩
    obtain ⟨hmemory, hcapacity, hbatch, hcreate⟩ := construct_eq_ok.mp hqueue
    refine ⟨hmemory, hcapacity, not_lt.mp fun hlt => ?_, hbatch⟩
    rw [hrejected hlt] at hcreate
    cases hcreate
  · rintro ⟨hmemory, hcapacity, hle, hbatch⟩
    cases hcreate : (Queue.create (roundUpToPowerOf2 options.queueCapacity).toNat :
        Option (Queue (QueueItem E))) with
    | none =>
      exact absurd (isLeast_roundUpToPowerOf2 hle).1.1 (Queue.create_eq_none.mp hcreate)
    | some queue => exact ⟨queue, construct_eq_ok.mpr ⟨hmemory, hcapacity, hbatch, hcreate⟩⟩
  · intro queue hqueue
    obtain ⟨-, -, -, hcreate⟩ := construct_eq_ok.mp hqueue
    have hle : options.queueCapacity.toNat ≤ 2 ^ 63 := not_lt.mp fun hlt => by
      rw [hrejected hlt] at hcreate
      cases hcreate
    obtain ⟨⟨hpower, hmax⟩, -⟩ := isLeast_roundUpToPowerOf2 hle
    refine ⟨_, (Queue.create_eq_some hcreate).2, hpower, le_trans (le_max_right _ _) hmax,
      le_trans (le_max_left _ _) hmax, fun h2 => ?_⟩
    exact toNat_roundUpToPowerOf2_lt h2 hle

/-- The largest capacity there is, and one more. -/
theorem queue_capacity_exact_top :
    (roundUpToPowerOf2 (BitVec.ofNat 64 (2 ^ 63))).toNat = 2 ^ 63 ∧
      (Queue.create (roundUpToPowerOf2 (BitVec.ofNat 64 (2 ^ 63 + 1))).toNat :
        Option (Queue (QueueItem ℕ))) = none := by
  obtain ⟨hleast, -, -⟩ := queue_capacity_exact (E := ℕ) (BitVec.ofNat 64 (2 ^ 63))
  obtain ⟨-, hrejected, -⟩ := queue_capacity_exact (E := ℕ) (BitVec.ofNat 64 (2 ^ 63 + 1))
  refine ⟨?_, hrejected (by decide)⟩
  have hmem := (hleast (by decide)).2 (show 2 ^ 63 ∈ _ from ⟨⟨63, rfl⟩, by decide⟩)
  exact le_antisymm hmem ((le_max_left _ _).trans (hleast (by decide)).1.2)

end AsyncDispatcher

end Logspine
