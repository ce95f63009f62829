import Mathlib.Data.List.Basic
import Mathlib.Data.Nat.ModEq
import Mathlib.Tactic.Ring
import Logspine.MpscQueue

/-!
# The invariant of `mpsc_queue`

The invariant `Inv` ties the two counters, the sequence number of every slot and
the locals of every thread together. Its heart is the *window*: the tickets
`tail_ ≤ u < tail_ + capacity` name every slot exactly once, and the sequence
number of a slot says how far its ticket has come:

* `u < head_`: claimed by an `enqueue`, which has not published it yet
  (`sequence = u`) or has (`sequence = u + 1`, and the slot holds its item);
* `head_ ≤ u`: free (`sequence = u`), or still in the hands of the `dequeue` that
  won the ticket one lap earlier (`sequence = u - capacity + 1`).

With a capacity of at least two these values never coincide, and a thread whose
compare-exchange wins knows that nobody else works on its slot.
-/

namespace Logspine

namespace MpscQueue

variable {T : Type} {capacity : ℕ}

/-! ## Slots and tickets -/

theorem and_mask (hcap : capacity.isPowerOfTwo) (pos : ℕ) :
    pos &&& (capacity - 1) = pos % capacity := by
  obtain ⟨k, rfl⟩ := hcap
  exact Nat.and_two_pow_sub_one_eq_mod pos k

/-- Two tickets that share a slot are a lap apart. -/
theorem add_le_of_mod_eq {p q : ℕ} (hlt : p < q) (h : p % capacity = q % capacity) :
    p + capacity ≤ q := by
  have hdvd : capacity ∣ q - p := (Nat.modEq_iff_dvd' hlt.le).mp h
  have := Nat.le_of_dvd (by omega) hdvd
  omega

/-- A window of one lap names every slot at most once. -/
theorem eq_of_mod_eq {p q w : ℕ} (hp : w ≤ p) (hp' : p < w + capacity) (hq : w ≤ q)
    (hq' : q < w + capacity) (h : p % capacity = q % capacity) : p = q := by
  rcases Nat.lt_trichotomy p q with hlt | heq | hlt
  · have := add_le_of_mod_eq hlt h
    omega
  · exact heq
  · have := add_le_of_mod_eq hlt h.symm
    omega

namespace Queue

/-- The sequence number of the slot of ticket `u`. -/
abbrev seq (q : Queue T) (u : ℕ) : ℕ := (q.cell u).sequence

variable {q : Queue T}

/-- The constructor throws exactly when the capacity is not a power of two. -/
theorem create_eq_none : (create capacity : Option (Queue T)) = none ↔
    ¬ capacity.isPowerOfTwo := by
  rw [create, ← Nat.ne_zero_and_sub_one_eq_zero_iff_isPowerOfTwo, not_and_or, not_not]
  split
  case isTrue h => exact iff_of_true rfl h
  case isFalse h =>
    refine iff_of_false ?_ h
    rintro ⟨⟩

/-- A queue has the slots of its capacity, which is a power of two. -/
theorem create_eq_some {q : Queue T} (h : create capacity = some q) :
    capacity.isPowerOfTwo ∧ q.bufferMask = capacity - 1 := by
  refine ⟨?_, ?_⟩
  · by_contra hnot
    rw [create_eq_none.mpr hnot] at h
    cases h
  · rw [create] at h
    split at h
    case isTrue => cases h
    case isFalse => exact (congrArg bufferMask (Option.some.inj h)).symm

theorem cell_eq (hcap : capacity.isPowerOfTwo) (hmask : q.bufferMask = capacity - 1) {p u : ℕ}
    (h : u % capacity = p % capacity) : q.cell u = q.cell p := by
  rw [cell, cell, hmask, and_mask hcap, and_mask hcap, h]

theorem cell_setCell (hcap : capacity.isPowerOfTwo) (hmask : q.bufferMask = capacity - 1)
    (p u : ℕ) (c : Slot T) :
    (q.setCell p c).cell u = if u % capacity = p % capacity then c else q.cell u := by
  simp only [setCell, cell, hmask, and_mask hcap, Function.update_apply]

theorem seq_storeData (hcap : capacity.isPowerOfTwo) (hmask : q.bufferMask = capacity - 1)
    (p u : ℕ) (x : T) : (q.storeData p x).seq u = q.seq u := by
  rw [seq, storeData, cell_setCell hcap hmask]
  by_cases h : u % capacity = p % capacity
  · rw [if_pos h, seq, cell_eq hcap hmask h]
  · rw [if_neg h]

theorem data_storeData (hcap : capacity.isPowerOfTwo) (hmask : q.bufferMask = capacity - 1)
    (p u : ℕ) (x : T) :
    ((q.storeData p x).cell u).data =
      if u % capacity = p % capacity then some x else (q.cell u).data := by
  rw [storeData, cell_setCell hcap hmask]
  split <;> rfl

theorem seq_storeSequence (hcap : capacity.isPowerOfTwo) (hmask : q.bufferMask = capacity - 1)
    (p u n : ℕ) :
    (q.storeSequence p n).seq u = if u % capacity = p % capacity then n else q.seq u := by
  rw [seq, storeSequence, cell_setCell hcap hmask]
  split <;> rfl

theorem data_storeSequence (hcap : capacity.isPowerOfTwo) (hmask : q.bufferMask = capacity - 1)
    (p u n : ℕ) : ((q.storeSequence p n).cell u).data = (q.cell u).data := by
  rw [storeSequence, cell_setCell hcap hmask]
  by_cases h : u % capacity = p % capacity
  · rw [if_pos h, cell_eq hcap hmask h]
  · rw [if_neg h]

end Queue

/-! ## The invariant -/

/-- How far the ticket `u` of the window has come, read off its slot. -/
def SlotOk (capacity : ℕ) (q : Queue T) (claimed : List T) (u : ℕ) : Prop :=
  (u < q.head → q.seq u = u ∨ (q.seq u = u + 1 ∧ (q.cell u).data = claimed[u]?)) ∧
  (q.head ≤ u → q.seq u = u ∨ ∃ p, u = p + capacity ∧ q.seq u = p + 1)

/-- What the locals of a thread say about the queue. -/
def ThreadOk (capacity : ℕ) (q : Queue T) (claimed : List T) : Pc T → Prop
  | .enqLoadSequence _ pos => pos ≤ q.head
  | .enqCas _ pos => pos ≤ q.head ∧ (pos = q.head → q.seq pos = pos)
  | .enqStoreData x pos =>
    q.tail ≤ pos ∧ pos < q.head ∧ q.seq pos = pos ∧ claimed[pos]? = some x
  | .enqStoreSequence pos =>
    q.tail ≤ pos ∧ pos < q.head ∧ q.seq pos = pos ∧ (q.cell pos).data = claimed[pos]?
  | .deqLoadSequence pos => pos ≤ q.tail
  | .deqCas pos => pos ≤ q.tail ∧ (pos = q.tail → q.seq pos = pos + 1)
  | .deqLoadData pos =>
    pos < q.tail ∧ q.head ≤ pos + capacity ∧ q.seq pos = pos + 1 ∧
      (q.cell pos).data = claimed[pos]?
  | .deqStoreSequence x pos =>
    pos < q.tail ∧ q.head ≤ pos + capacity ∧ q.seq pos = pos + 1 ∧ x = claimed[pos]?
  | _ => True

/-- The invariant of the queue and all its threads. -/
structure Inv (capacity : ℕ) (s : State T) : Prop where
  mask : s.queue.bufferMask = capacity - 1
  /-- the counters are at most a lap apart -/
  tail_le_head : s.queue.tail ≤ s.queue.head
  head_le : s.queue.head ≤ s.queue.tail + capacity
  claimed_length : s.history.claimed.length = s.queue.head
  left_eq : s.history.left = List.range s.queue.tail
  slots : ∀ u, s.queue.tail ≤ u → u < s.queue.tail + capacity →
    SlotOk capacity s.queue s.history.claimed u
  threads : ∀ t, ThreadOk capacity s.queue s.history.claimed (s.threads t)
  writing_inj : ∀ t t' p, (s.threads t).writing = some p → (s.threads t').writing = some p → t = t'
  reading_inj : ∀ t t' p, (s.threads t).reading = some p → (s.threads t').reading = some p → t = t'
  seq_claimed : ∀ p < s.queue.head, p ≤ s.queue.seq p
  seq_left : ∀ p < s.queue.tail, p + 1 ≤ s.queue.seq p
  published : ∀ p ∈ s.history.published, p < s.queue.head ∧ p + 1 ≤ s.queue.seq p
  released : ∀ p ∈ s.history.released, p < s.queue.tail ∧ p + capacity ≤ s.queue.seq p
  obtained : ∀ px ∈ s.history.obtained, px.1 < s.queue.tail ∧ px.2 = s.history.claimed[px.1]?
  obtained_released : s.history.obtained.map Prod.fst = s.history.released
  released_nodup : s.history.released.Nodup
  written : ∀ p < s.queue.head, p ∈ s.history.published ∨ ∃ t, (s.threads t).writing = some p
  taken : ∀ p < s.queue.tail, p ∈ s.history.released ∨ ∃ t, (s.threads t).reading = some p

theorem inv_fresh (hcap : capacity.isPowerOfTwo) {q : Queue T}
    (hq : Queue.create capacity = some q) : Inv capacity (State.fresh q) := by
  have hpos : 0 < capacity := Nat.pos_of_isPowerOfTwo hcap
  rw [Queue.create] at hq
  split at hq
  · cases hq
  obtain rfl := Option.some.inj hq
  have hseq : ∀ u < capacity, u &&& (capacity - 1) = u := fun u hu => by
    rw [and_mask hcap, Nat.mod_eq_of_lt hu]
  constructor <;> try simp [State.fresh, ThreadOk, Pc.writing, Pc.reading]
  intro u hu
  simp only [SlotOk, Queue.seq, Queue.cell]
  exact ⟨fun h => absurd h (by omega), fun _ => .inl (hseq u hu)⟩

/-! ## The steps that touch the queue -/

section Steps

variable {q : Queue T} {claimed : List T} {pos : ℕ} {pc : Pc T}

/-- A sequence number that is raised lowers none. -/
theorem Queue.seq_le_storeSequence (hcap : capacity.isPowerOfTwo)
    (hmask : q.bufferMask = capacity - 1) {n : ℕ} (h : q.seq pos ≤ n) (p : ℕ) :
    q.seq p ≤ (q.storeSequence pos n).seq p := by
  rw [Queue.seq_storeSequence hcap hmask]
  split
  · next hmod =>
    have hsame : q.seq p = q.seq pos := by rw [seq, Queue.cell_eq hcap hmask hmod]
    exact hsame.trans_le h
  · exact le_rfl

/-- A sequence number leaves the other slots alone. -/
theorem SlotOk.storeSequence (hcap : capacity.isPowerOfTwo)
    (hmask : q.bufferMask = capacity - 1) {u n : ℕ} (h : SlotOk capacity q claimed u)
    (hmod : u % capacity ≠ pos % capacity) :
    SlotOk capacity (q.storeSequence pos n) claimed u := by
  have hs := (Queue.seq_storeSequence hcap hmask pos u n).trans (if_neg hmod)
  obtain ⟨hlow, hhigh⟩ := h
  refine ⟨fun hlt => ?_, fun hge => by rw [hs]; exact hhigh hge⟩
  rw [hs, Queue.data_storeSequence hcap hmask]
  exact hlow hlt

/-- Two different sequence numbers tell two slots apart. -/
theorem Queue.mod_ne_of_seq_ne (hcap : capacity.isPowerOfTwo)
    (hmask : q.bufferMask = capacity - 1) {p u : ℕ} (h : q.seq u ≠ q.seq p) :
    u % capacity ≠ p % capacity := fun hmod => h (by rw [seq, Queue.cell_eq hcap hmask hmod])

/-- A slot cannot be at rest for one ticket and one short of it for another. -/
theorem Queue.seq_ne_succ (hcap : capacity.isPowerOfTwo) (h2 : 2 ≤ capacity)
    (hmask : q.bufferMask = capacity - 1) {p u : ℕ} (hmod : u % capacity = p % capacity)
    (hp : q.seq p = p + 1) (hu : q.seq u = u) : False := by
  have heq : q.seq u = q.seq p := by rw [Queue.seq, Queue.cell_eq hcap hmask hmod]
  have := add_le_of_mod_eq (show p < u by omega) hmod.symm
  omega

/-- The releasing store of an `enqueue` leaves the other threads' facts alone. -/
theorem ThreadOk.publish (hcap : capacity.isPowerOfTwo) (h2 : 2 ≤ capacity)
    (hmask : q.bufferMask = capacity - 1) (hpc : ThreadOk capacity q claimed pc)
    (hseq : q.seq pos = pos) (hhead : pos < q.head) (hne : pc.writing ≠ some pos) :
    ThreadOk capacity (q.storeSequence pos (pos + 1)) claimed pc := by
  -- a slot that another thread relies on is not the slot of `pos`
  have hkeep : ∀ p, q.seq p ≠ pos → (q.storeSequence pos (pos + 1)).seq p = q.seq p :=
    fun p hp => by
      rw [Queue.seq_storeSequence hcap hmask,
        if_neg (Queue.mod_ne_of_seq_ne hcap hmask (by rw [hseq]; exact hp))]
  have hreader : ∀ p, q.seq p = p + 1 → (q.storeSequence pos (pos + 1)).seq p = p + 1 :=
    fun p hp => by
      rw [Queue.seq_storeSequence hcap hmask, hp]
      split
      · next hmod => exact absurd (Queue.seq_ne_succ hcap h2 hmask hmod.symm hp hseq) id
      · rfl
  cases pc with
  | enqCas x p =>
    refine ⟨hpc.1, fun hp => ?_⟩
    have hp' := hpc.2 hp
    have hph : p = q.head := hp
    rw [hkeep p (by omega), hp']
  | enqStoreData x p =>
    obtain ⟨h₁, h₂, h₃, h₄⟩ := hpc
    exact ⟨h₁, h₂, by rw [hkeep p (fun h => hne (by rw [Pc.writing, ← h, h₃])), h₃], h₄⟩
  | enqStoreSequence p =>
    obtain ⟨h₁, h₂, h₃, h₄⟩ := hpc
    exact ⟨h₁, h₂, by rw [hkeep p (fun h => hne (by rw [Pc.writing, ← h, h₃])), h₃],
      by rw [Queue.data_storeSequence hcap hmask]; exact h₄⟩
  | deqCas p => exact ⟨hpc.1, fun hp => hreader p (hpc.2 hp)⟩
  | deqLoadData p =>
    obtain ⟨h₁, h₂, h₃, h₄⟩ := hpc
    exact ⟨h₁, h₂, hreader p h₃, by rw [Queue.data_storeSequence hcap hmask]; exact h₄⟩
  | deqStoreSequence x p =>
    obtain ⟨h₁, h₂, h₃, h₄⟩ := hpc
    exact ⟨h₁, h₂, hreader p h₃, h₄⟩
  | _ => exact hpc

/-- The releasing store of a `dequeue` leaves the other threads' facts alone. -/
theorem ThreadOk.release (hcap : capacity.isPowerOfTwo) (h2 : 2 ≤ capacity)
    (hmask : q.bufferMask = capacity - 1) (hpc : ThreadOk capacity q claimed pc)
    (hseq : q.seq pos = pos + 1) (htail : pos < q.tail) (hne : pc.reading ≠ some pos) (n : ℕ) :
    ThreadOk capacity (q.storeSequence pos n) claimed pc := by
  have hkeep : ∀ p, q.seq p ≠ pos + 1 → (q.storeSequence pos n).seq p = q.seq p :=
    fun p hp => by
      rw [Queue.seq_storeSequence hcap hmask,
        if_neg (Queue.mod_ne_of_seq_ne hcap hmask (by rw [hseq]; exact hp))]
  have hwriter : ∀ p, q.seq p = p → (q.storeSequence pos n).seq p = p := fun p hp => by
    rw [Queue.seq_storeSequence hcap hmask, hp]
    split
    · next hmod => exact absurd (Queue.seq_ne_succ hcap h2 hmask hmod hseq hp) id
    · rfl
  cases pc with
  | enqCas x p => exact ⟨hpc.1, fun hp => hwriter p (hpc.2 hp)⟩
  | enqStoreData x p =>
    obtain ⟨h₁, h₂, h₃, h₄⟩ := hpc
    exact ⟨h₁, h₂, hwriter p h₃, h₄⟩
  | enqStoreSequence p =>
    obtain ⟨h₁, h₂, h₃, h₄⟩ := hpc
    exact ⟨h₁, h₂, hwriter p h₃, by rw [Queue.data_storeSequence hcap hmask]; exact h₄⟩
  | deqCas p =>
    refine ⟨hpc.1, fun hp => ?_⟩
    have hp' := hpc.2 hp
    have hpt : p = q.tail := hp
    rw [hkeep p (by omega), hp']
  | deqLoadData p =>
    obtain ⟨h₁, h₂, h₃, h₄⟩ := hpc
    exact ⟨h₁, h₂, by rw [hkeep p (fun h => hne (by rw [Pc.reading]; congr; omega)), h₃],
      by rw [Queue.data_storeSequence hcap hmask]; exact h₄⟩
  | deqStoreSequence x p =>
    obtain ⟨h₁, h₂, h₃, h₄⟩ := hpc
    exact ⟨h₁, h₂, by rw [hkeep p (fun h => hne (by rw [Pc.reading]; congr; omega)), h₃], h₄⟩
  | _ => exact hpc

/-- Moving an item into a slot leaves the other threads' facts alone. -/
theorem ThreadOk.storeData (hcap : capacity.isPowerOfTwo) (h2 : 2 ≤ capacity)
    (hmask : q.bufferMask = capacity - 1) (hpc : ThreadOk capacity q claimed pc)
    (hseq : q.seq pos = pos) (hne : pc.writing ≠ some pos) (x : T) :
    ThreadOk capacity (q.storeData pos x) claimed pc := by
  have hs : ∀ p, (q.storeData pos x).seq p = q.seq p :=
    fun p => Queue.seq_storeData hcap hmask pos p x
  have hd : ∀ p, p % capacity ≠ pos % capacity →
      ((q.storeData pos x).cell p).data = (q.cell p).data := fun p hp => by
    rw [Queue.data_storeData hcap hmask, if_neg hp]
  cases pc with
  | enqCas y p => exact ⟨hpc.1, fun hp => by rw [hs]; exact hpc.2 hp⟩
  | enqStoreData y p =>
    obtain ⟨h₁, h₂, h₃, h₄⟩ := hpc
    exact ⟨h₁, h₂, by rw [hs, h₃], h₄⟩
  | enqStoreSequence p =>
    obtain ⟨h₁, h₂, h₃, h₄⟩ := hpc
    have hpp : q.seq p ≠ q.seq pos := fun h => hne (by rw [Pc.writing, ← h₃, h, hseq])
    exact ⟨h₁, h₂, by rw [hs, h₃], by rw [hd p (Queue.mod_ne_of_seq_ne hcap hmask hpp), h₄]⟩
  | deqCas p => exact ⟨hpc.1, fun hp => by rw [hs]; exact hpc.2 hp⟩
  | deqLoadData p =>
    obtain ⟨h₁, h₂, h₃, h₄⟩ := hpc
    have hmod : p % capacity ≠ pos % capacity := fun hmod =>
      Queue.seq_ne_succ hcap h2 hmask hmod.symm h₃ hseq
    exact ⟨h₁, h₂, by rw [hs, h₃], by rw [hd p hmod, h₄]⟩
  | deqStoreSequence y p =>
    obtain ⟨h₁, h₂, h₃, h₄⟩ := hpc
    exact ⟨h₁, h₂, by rw [hs, h₃], h₄⟩
  | _ => exact hpc

/-- Winning the ticket `head_` leaves the other threads' facts alone. -/
theorem ThreadOk.claim (hcap : capacity.isPowerOfTwo) (h2 : 2 ≤ capacity)
    (hmask : q.bufferMask = capacity - 1) (hpc : ThreadOk capacity q claimed pc)
    (hseq : q.seq q.head = q.head) (hle : q.tail ≤ q.head) (hlen : claimed.length = q.head)
    (x : T) :
    ThreadOk capacity { q with head := q.head + 1 } (claimed ++ [x]) pc := by
  have hc : ∀ p < q.head, (claimed ++ [x])[p]? = claimed[p]? := fun p hp =>
    List.getElem?_append_left (by omega)
  -- the slot of `head_` is at rest, so nobody reads it
  have hread : ∀ p, q.head ≤ p + capacity → q.seq p = p + 1 → q.head + 1 ≤ p + capacity := by
    intro p hp hsp
    by_contra hlt
    have heq : q.head = p + capacity := by omega
    exact Queue.seq_ne_succ hcap h2 hmask (by rw [heq, Nat.add_mod_right]) hsp hseq
  cases pc with
  | enqLoadSequence y p => exact Nat.le_succ_of_le hpc
  | enqCas y p =>
    have hp₁ : p ≤ q.head := hpc.1
    exact ⟨Nat.le_succ_of_le hp₁, fun hp => by
      have : p = q.head + 1 := hp
      omega⟩
  | enqStoreData y p =>
    obtain ⟨h₁, h₂, h₃, h₄⟩ := hpc
    exact ⟨h₁, Nat.lt_succ_of_lt h₂, h₃, by rw [hc p h₂, h₄]⟩
  | enqStoreSequence p =>
    obtain ⟨h₁, h₂, h₃, h₄⟩ := hpc
    exact ⟨h₁, Nat.lt_succ_of_lt h₂, h₃, h₄.trans (hc p h₂).symm⟩
  | deqLoadData p =>
    obtain ⟨h₁, h₂, h₃, h₄⟩ := hpc
    exact ⟨h₁, hread p h₂ h₃, h₃, h₄.trans (hc p (lt_of_lt_of_le h₁ hle)).symm⟩
  | deqStoreSequence y p =>
    obtain ⟨h₁, h₂, h₃, h₄⟩ := hpc
    exact ⟨h₁, hread p h₂ h₃, h₃, h₄.trans (hc p (lt_of_lt_of_le h₁ hle)).symm⟩
  | _ => exact hpc

/-- Winning the ticket `tail_` leaves the other threads' facts alone. -/
theorem ThreadOk.take (hpc : ThreadOk capacity q claimed pc) (hseq : q.seq q.tail = q.tail + 1) :
    ThreadOk capacity { q with tail := q.tail + 1 } claimed pc := by
  -- the slot of `tail_` is published, so nobody writes it
  have hwrite : ∀ p, q.tail ≤ p → q.seq p = p → q.tail + 1 ≤ p := by
    intro p hp hsp
    rcases Nat.eq_or_lt_of_le hp with heq | hlt
    · rw [← heq] at hsp
      omega
    · exact hlt
  cases pc with
  | enqStoreData y p =>
    obtain ⟨h₁, h₂, h₃, h₄⟩ := hpc
    exact ⟨hwrite p h₁ h₃, h₂, h₃, h₄⟩
  | enqStoreSequence p =>
    obtain ⟨h₁, h₂, h₃, h₄⟩ := hpc
    exact ⟨hwrite p h₁ h₃, h₂, h₃, h₄⟩
  | deqLoadSequence p => exact Nat.le_succ_of_le hpc
  | deqCas p =>
    have hp₁ : p ≤ q.tail := hpc.1
    exact ⟨Nat.le_succ_of_le hp₁, fun hp => by
      have : p = q.tail + 1 := hp
      omega⟩
  | deqLoadData p =>
    obtain ⟨h₁, h₂, h₃, h₄⟩ := hpc
    exact ⟨Nat.lt_succ_of_lt h₁, h₂, h₃, h₄⟩
  | deqStoreSequence y p =>
    obtain ⟨h₁, h₂, h₃, h₄⟩ := hpc
    exact ⟨Nat.lt_succ_of_lt h₁, h₂, h₃, h₄⟩
  | _ => exact hpc

end Steps

/-! ## Every step keeps the invariant -/

/-- A ticket that only thread `t` holds stays so when `t` moves on. -/
theorem inj_goto {s : State T} {t : ℕ} {pc : Pc T} {f : Pc T → Option ℕ}
    (h : ∀ t t' p, f (s.threads t) = some p → f (s.threads t') = some p → t = t')
    (hpc : ∀ t' p, t' ≠ t → f pc = some p → f (s.threads t') ≠ some p) :
    ∀ t₁ t₂ p, f ((s.goto t pc).threads t₁) = some p → f ((s.goto t pc).threads t₂) = some p →
      t₁ = t₂ := by
  intro t₁ t₂ p h₁ h₂
  simp only [State.goto, Function.update_apply] at h₁ h₂
  split at h₁
  · next e₁ =>
    split at h₂
    · next e₂ => rw [e₁, e₂]
    · next e₂ => exact absurd h₂ (hpc t₂ p e₂ h₁)
  · next e₁ =>
    split at h₂
    · exact absurd h₁ (hpc t₁ p e₁ h₂)
    · exact h t₁ t₂ p h₁ h₂

/-- Facts about all threads after `t` has moved on. -/
theorem forall_goto {s : State T} {t : ℕ} {pc : Pc T} {P : Pc T → Prop} (hpc : P pc)
    (h : ∀ t', t' ≠ t → P (s.threads t')) : ∀ t', P ((s.goto t pc).threads t') := by
  intro t'
  simp only [State.goto, Function.update_apply]
  split
  · exact hpc
  · next hne => exact h t' hne

/-- A ticket held by some thread still is when `t` moves on, unless `t` lets go of it. -/
theorem exists_goto {s : State T} {t : ℕ} {pc : Pc T} {f : Pc T → Option ℕ} {p : ℕ}
    (h : ∃ t, f (s.threads t) = some p) (hpc : f (s.threads t) = some p → f pc = some p) :
    ∃ t', f ((s.goto t pc).threads t') = some p := by
  obtain ⟨t', ht'⟩ := h
  by_cases he : t' = t
  · subst he
    exact ⟨t', by simpa [State.goto] using hpc ht'⟩
  · exact ⟨t', by simpa [State.goto, Function.update_of_ne he] using ht'⟩

variable {s : State T} {t : ℕ}

/-- A step that touches nothing but the thread's own place keeps the invariant. -/
theorem Inv.goto (h : Inv capacity s) {pc : Pc T} (hw' : (s.threads t).writing = none)
    (hr' : (s.threads t).reading = none) (hpc : ThreadOk capacity s.queue s.history.claimed pc)
    (hw : pc.writing = none) (hr : pc.reading = none) : Inv capacity (s.goto t pc) :=
  { h with
    threads := forall_goto hpc fun t' _ => h.threads t'
    writing_inj := inj_goto h.writing_inj fun t' p _ hp => by rw [hw] at hp; cases hp
    reading_inj := inj_goto h.reading_inj fun t' p _ hp => by rw [hr] at hp; cases hp
    written := fun p hp => (h.written p hp).imp_right fun he =>
      exists_goto he fun hp => by rw [hw'] at hp; cases hp
    taken := fun p hp => (h.taken p hp).imp_right fun he =>
      exists_goto he fun hp => by rw [hr'] at hp; cases hp }

/-- The queue is not full when the slot of `head_` is at rest. -/
theorem Inv.head_lt (hcap : capacity.isPowerOfTwo) (h2 : 2 ≤ capacity) (h : Inv capacity s)
    (hseq : s.queue.seq s.queue.head = s.queue.head) :
    s.queue.head < s.queue.tail + capacity := by
  by_contra hfull
  have heq : s.queue.head = s.queue.tail + capacity := by
    have := h.head_le
    omega
  have hslot : s.queue.seq s.queue.tail = s.queue.head := by
    have hmod : s.queue.tail % capacity = s.queue.head % capacity := by
      rw [heq, Nat.add_mod_right]
    rw [Queue.seq, Queue.cell_eq hcap h.mask hmod]
    exact hseq
  obtain ⟨hlow, -⟩ := h.slots s.queue.tail le_rfl (by omega)
  rcases hlow (by omega) with hs | ⟨hs, -⟩ <;> omega

theorem Inv.enqCas (hcap : capacity.isPowerOfTwo) (h2 : 2 ≤ capacity) (h : Inv capacity s)
    {x : T} (ht : s.threads t = .enqCas x s.queue.head) :
    Inv capacity ({ s with
      queue := { s.queue with head := s.queue.head + 1 }
      history := { s.history with claimed := s.history.claimed ++ [x] } }.goto t
        (.enqStoreData x s.queue.head)) := by
  have hpc := h.threads t
  rw [ht] at hpc
  have hseq : s.queue.seq s.queue.head = s.queue.head := hpc.2 rfl
  have hlt := h.head_lt hcap h2 hseq
  have hle := h.tail_le_head
  have hlen := h.claimed_length
  constructor
  · exact h.mask
  · exact Nat.le_succ_of_le hle
  · exact hlt
  · simp [State.goto, hlen]
  · exact h.left_eq
  · intro u hu hu'
    obtain ⟨hlow, hhigh⟩ := h.slots u hu hu'
    refine ⟨fun hlt' => ?_, fun hge => hhigh (Nat.le_of_succ_le hge)⟩
    rcases Nat.lt_succ_iff_lt_or_eq.mp hlt' with hlt' | rfl
    · refine (hlow hlt').imp_right fun hd => ⟨hd.1, hd.2.trans ?_⟩
      exact (List.getElem?_append_left (by omega)).symm
    · exact .inl hseq
  · refine forall_goto ⟨hle, Nat.lt_succ_self _, hseq, ?_⟩ fun t' _ =>
      (h.threads t').claim hcap h2 h.mask hseq hle hlen x
    show (s.history.claimed ++ [x])[s.queue.head]? = some x
    rw [← hlen, List.getElem?_concat_length]
  · refine inj_goto h.writing_inj fun t' p _ hp hw => ?_
    obtain rfl : s.queue.head = p := Option.some.inj hp
    have hok := h.threads t'
    revert hw hok
    cases s.threads t' <;> simp [Pc.writing, ThreadOk] <;> omega
  · exact inj_goto h.reading_inj fun t' p _ hp => by cases hp
  · intro p hp
    rcases Nat.lt_succ_iff_lt_or_eq.mp hp with hp | rfl
    · exact h.seq_claimed p hp
    · exact hseq.ge
  · exact h.seq_left
  · exact fun p hp => ⟨Nat.lt_succ_of_lt (h.published p hp).1, (h.published p hp).2⟩
  · exact h.released
  · intro px hpx
    obtain ⟨h₁, h₂⟩ := h.obtained px hpx
    have hp₁ : px.1 < s.queue.tail := h₁
    exact ⟨h₁, h₂.trans (List.getElem?_append_left (by omega)).symm⟩
  · exact h.obtained_released
  · exact h.released_nodup
  · intro p hp
    rcases Nat.lt_succ_iff_lt_or_eq.mp hp with hp | rfl
    · exact (h.written p hp).imp_right fun he =>
        exists_goto he fun hp => by rw [ht] at hp; cases hp
    · exact .inr ⟨t, by simp [State.goto, Pc.writing]⟩
  · exact fun p hp => (h.taken p hp).imp_right fun he =>
      exists_goto he fun hp => by rw [ht] at hp; cases hp

theorem Inv.enqStoreData (hcap : capacity.isPowerOfTwo) (h2 : 2 ≤ capacity)
    (h : Inv capacity s) {x : T} {pos : ℕ} (ht : s.threads t = .enqStoreData x pos) :
    Inv capacity ({ s with queue := s.queue.storeData pos x }.goto t (.enqStoreSequence pos)) := by
  have hpc := h.threads t
  rw [ht] at hpc
  obtain ⟨htail, hhead, hseq, hx⟩ := hpc
  have hs : ∀ p, (s.queue.storeData pos x).seq p = s.queue.seq p :=
    fun p => Queue.seq_storeData hcap h.mask pos p x
  have hle := h.head_le
  have hmine : ∀ t', t' ≠ t → (s.threads t').writing ≠ some pos := fun t' hne hw =>
    hne (h.writing_inj t' t pos hw (by rw [ht, Pc.writing]))
  have hdata : ((s.queue.storeData pos x).cell pos).data = s.history.claimed[pos]? := by
    rw [Queue.data_storeData hcap h.mask, if_pos rfl, hx]
  constructor
  · exact h.mask
  · exact h.tail_le_head
  · exact hle
  · exact h.claimed_length
  · exact h.left_eq
  · intro u hu hu'
    have hu₁ : s.queue.tail ≤ u := hu
    have hu₂ : u < s.queue.tail + capacity := hu'
    obtain ⟨hlow, hhigh⟩ := h.slots u hu hu'
    refine ⟨fun hlt => ?_, fun hge => by rw [State.goto, hs]; exact hhigh hge⟩
    by_cases hmod : u % capacity = pos % capacity
    · obtain rfl := eq_of_mod_eq hu₁ hu₂ htail (by omega) hmod
      exact .inl ((hs u).trans hseq)
    · refine (hlow hlt).imp (fun hu => (hs u).trans hu) fun hu => ⟨(hs u).trans hu.1, ?_⟩
      rw [State.goto, Queue.data_storeData hcap h.mask, if_neg hmod]
      exact hu.2
  · exact forall_goto ⟨htail, hhead, (hs pos).trans hseq, hdata⟩ fun t' hne =>
      (h.threads t').storeData hcap h2 h.mask hseq (hmine t' hne) x
  · refine inj_goto h.writing_inj fun t' p hne hp => ?_
    obtain rfl := Option.some.inj hp
    exact hmine t' hne
  · exact inj_goto h.reading_inj fun t' p _ hp => by cases hp
  · exact fun p hp => by rw [State.goto, hs]; exact h.seq_claimed p hp
  · exact fun p hp => by rw [State.goto, hs]; exact h.seq_left p hp
  · exact fun p hp => by rw [State.goto, hs]; exact h.published p hp
  · exact fun p hp => by rw [State.goto, hs]; exact h.released p hp
  · exact h.obtained
  · exact h.obtained_released
  · exact h.released_nodup
  · exact fun p hp => (h.written p hp).imp_right fun he =>
      exists_goto he fun hp => by rw [ht] at hp; exact hp
  · exact fun p hp => (h.taken p hp).imp_right fun he =>
      exists_goto he fun hp => by rw [ht] at hp; cases hp

theorem Inv.enqStoreSequence (hcap : capacity.isPowerOfTwo) (h2 : 2 ≤ capacity)
    (h : Inv capacity s) {pos : ℕ} (ht : s.threads t = .enqStoreSequence pos) :
    Inv capacity ({ s with
      queue := s.queue.storeSequence pos (pos + 1)
      history := { s.history with published := s.history.published ++ [pos] } }.goto t
        (.enqReturned true)) := by
  have hpc := h.threads t
  rw [ht] at hpc
  obtain ⟨htail, hhead, hseq, hdata⟩ := hpc
  have hs := fun u => Queue.seq_storeSequence hcap h.mask pos u (pos + 1)
  have hle := h.head_le
  -- the sequence number of the slot only grows
  have hgrow := Queue.seq_le_storeSequence hcap h.mask (by omega : s.queue.seq pos ≤ pos + 1)
  have hmine : ∀ t', t' ≠ t → (s.threads t').writing ≠ some pos := fun t' hne hw =>
    hne (h.writing_inj t' t pos hw (by rw [ht, Pc.writing]))
  constructor
  · exact h.mask
  · exact h.tail_le_head
  · exact hle
  · exact h.claimed_length
  · exact h.left_eq
  · intro u hu hu'
    have hu₁ : s.queue.tail ≤ u := hu
    have hu₂ : u < s.queue.tail + capacity := hu'
    by_cases hmod : u % capacity = pos % capacity
    · obtain rfl := eq_of_mod_eq hu₁ hu₂ htail (by omega) hmod
      refine ⟨fun _ => .inr ⟨(hs u).trans (if_pos rfl), ?_⟩, fun hge => absurd hge (by
        show ¬ s.queue.head ≤ u
        omega)⟩
      rw [State.goto, Queue.data_storeSequence hcap h.mask]
      exact hdata
    · exact (h.slots u hu hu').storeSequence hcap h.mask hmod
  · exact forall_goto trivial fun t' hne =>
      (h.threads t').publish hcap h2 h.mask hseq hhead (hmine t' hne)
  · exact inj_goto h.writing_inj fun t' p _ hp => by cases hp
  · exact inj_goto h.reading_inj fun t' p _ hp => by cases hp
  · exact fun p hp => (h.seq_claimed p hp).trans (hgrow p)
  · exact fun p hp => (h.seq_left p hp).trans (hgrow p)
  · intro p hp
    rcases List.mem_append.mp hp with hp | hp
    · exact ⟨(h.published p hp).1, (h.published p hp).2.trans (hgrow p)⟩
    · obtain rfl := List.mem_singleton.mp hp
      exact ⟨hhead, ((hs p).trans (if_pos rfl)).ge⟩
  · exact fun p hp => ⟨(h.released p hp).1, (h.released p hp).2.trans (hgrow p)⟩
  · exact h.obtained
  · exact h.obtained_released
  · exact h.released_nodup
  · intro p hp
    by_cases he : p = pos
    · exact .inl (List.mem_append_right _ (List.mem_singleton.mpr he))
    · refine (h.written p hp).imp (List.mem_append_left _) fun hw => exists_goto hw fun hp => ?_
      rw [ht] at hp
      exact absurd (Option.some.inj hp).symm he
  · exact fun p hp => (h.taken p hp).imp_right fun he =>
      exists_goto he fun hp => by rw [ht] at hp; cases hp

/-- The ticket a winning `dequeue` gets is claimed, and its item is in the slot. -/
theorem Inv.tail_published (h2 : 2 ≤ capacity) (h : Inv capacity s)
    (hseq : s.queue.seq s.queue.tail = s.queue.tail + 1) :
    s.queue.tail < s.queue.head ∧
      (s.queue.cell s.queue.tail).data = s.history.claimed[s.queue.tail]? := by
  obtain ⟨hlow, hhigh⟩ := h.slots s.queue.tail le_rfl (by omega)
  rcases Nat.lt_or_ge s.queue.tail s.queue.head with hlt | hge
  · refine ⟨hlt, ?_⟩
    rcases hlow hlt with hs | ⟨-, hd⟩
    · omega
    · exact hd
  · rcases hhigh hge with hs | ⟨p, hp, hs⟩ <;> omega

theorem Inv.deqCas (hcap : capacity.isPowerOfTwo) (h2 : 2 ≤ capacity) (h : Inv capacity s)
    (ht : s.threads t = .deqCas s.queue.tail) :
    Inv capacity ({ s with
      queue := { s.queue with tail := s.queue.tail + 1 }
      history := { s.history with left := s.history.left ++ [s.queue.tail] } }.goto t
        (.deqLoadData s.queue.tail)) := by
  have hpc := h.threads t
  rw [ht] at hpc
  have hseq : s.queue.seq s.queue.tail = s.queue.tail + 1 := hpc.2 rfl
  obtain ⟨hlt, hdata⟩ := h.tail_published h2 hseq
  have hle := h.head_le
  constructor
  · exact h.mask
  · exact hlt
  · show s.queue.head ≤ s.queue.tail + 1 + capacity
    omega
  · exact h.claimed_length
  · show s.history.left ++ [s.queue.tail] = List.range (s.queue.tail + 1)
    rw [h.left_eq, List.range_succ]
  · intro u hu hu'
    have hu₁ : s.queue.tail + 1 ≤ u := hu
    have hu₂ : u < s.queue.tail + 1 + capacity := hu'
    rcases Nat.lt_or_ge u (s.queue.tail + capacity) with hin | hout
    · exact h.slots u (by omega) hin
    · -- the slot just emptied comes back one lap later
      obtain rfl : u = s.queue.tail + capacity := by omega
      refine ⟨fun hlt' => absurd hlt' (by
        show ¬ s.queue.tail + capacity < s.queue.head
        omega), fun _ => .inr ⟨s.queue.tail, rfl, ?_⟩⟩
      refine Eq.trans ?_ hseq
      show (s.queue.cell _).sequence = (s.queue.cell _).sequence
      rw [Queue.cell_eq hcap h.mask (Nat.add_mod_right _ _)]
  · exact forall_goto ⟨Nat.lt_succ_self _, hle, hseq, hdata⟩ fun t' _ =>
      (h.threads t').take hseq
  · exact inj_goto h.writing_inj fun t' p _ hp => by cases hp
  · refine inj_goto h.reading_inj fun t' p _ hp hr => ?_
    obtain rfl : s.queue.tail = p := Option.some.inj hp
    have hok := h.threads t'
    revert hr hok
    cases s.threads t' <;> simp [Pc.reading, ThreadOk] <;> omega
  · exact h.seq_claimed
  · intro p hp
    rcases Nat.lt_succ_iff_lt_or_eq.mp hp with hp | rfl
    · exact h.seq_left p hp
    · exact hseq.ge
  · exact h.published
  · exact fun p hp => ⟨Nat.lt_succ_of_lt (h.released p hp).1, (h.released p hp).2⟩
  · exact fun px hpx => ⟨Nat.lt_succ_of_lt (h.obtained px hpx).1, (h.obtained px hpx).2⟩
  · exact h.obtained_released
  · exact h.released_nodup
  · exact fun p hp => (h.written p hp).imp_right fun he =>
      exists_goto he fun hp => by rw [ht] at hp; cases hp
  · intro p hp
    rcases Nat.lt_succ_iff_lt_or_eq.mp hp with hp | rfl
    · exact (h.taken p hp).imp_right fun he =>
        exists_goto he fun hp => by rw [ht] at hp; cases hp
    · exact .inr ⟨t, by simp [State.goto, Pc.reading]⟩

theorem Inv.deqLoadData (h : Inv capacity s) {pos : ℕ} (ht : s.threads t = .deqLoadData pos) :
    Inv capacity (s.goto t (.deqStoreSequence (s.queue.cell pos).data pos)) := by
  have hpc := h.threads t
  rw [ht] at hpc
  refine { h with threads := ?_, writing_inj := ?_, reading_inj := ?_, written := ?_, taken := ?_ }
  · exact forall_goto hpc fun t' _ => h.threads t'
  · exact inj_goto h.writing_inj fun t' p _ hp => by cases hp
  · refine inj_goto h.reading_inj fun t' p hne hp hr => ?_
    obtain rfl := Option.some.inj hp
    exact hne (h.reading_inj t' t pos hr (by rw [ht, Pc.reading]))
  · exact fun p hp => (h.written p hp).imp_right fun he =>
      exists_goto he fun hp => by rw [ht] at hp; cases hp
  · exact fun p hp => (h.taken p hp).imp_right fun he =>
      exists_goto he fun hp => by rw [ht] at hp; exact hp

theorem Inv.deqStoreSequence (hcap : capacity.isPowerOfTwo) (h2 : 2 ≤ capacity)
    (h : Inv capacity s) {x : Option T} {pos : ℕ} (ht : s.threads t = .deqStoreSequence x pos) :
    Inv capacity ({ s with
      queue := s.queue.storeSequence pos (pos + s.queue.bufferMask + 1)
      history := { s.history with
        obtained := s.history.obtained ++ [(pos, x)]
        released := s.history.released ++ [pos] } }.goto t (.deqReturned true x)) := by
  have hpc := h.threads t
  rw [ht] at hpc
  obtain ⟨htail, hhead, hseq, hx⟩ := hpc
  have hmask : pos + s.queue.bufferMask + 1 = pos + capacity := by
    rw [h.mask]
    omega
  rw [hmask]
  have hs := fun u => Queue.seq_storeSequence hcap h.mask pos u (pos + capacity)
  have hle := h.tail_le_head
  have hgrow := Queue.seq_le_storeSequence hcap h.mask (by omega : s.queue.seq pos ≤ pos + capacity)
  have hmine : ∀ t', t' ≠ t → (s.threads t').reading ≠ some pos := fun t' hne hr =>
    hne (h.reading_inj t' t pos hr (by rw [ht, Pc.reading]))
  constructor
  · exact h.mask
  · exact hle
  · exact h.head_le
  · exact h.claimed_length
  · exact h.left_eq
  · intro u hu hu'
    have hu₁ : s.queue.tail ≤ u := hu
    have hu₂ : u < s.queue.tail + capacity := hu'
    by_cases hmod : u % capacity = pos % capacity
    · -- the slot is free again, for the ticket one lap later
      obtain rfl : u = pos + capacity :=
        eq_of_mod_eq hu₁ hu₂ (by omega) (by omega) (by rw [hmod, Nat.add_mod_right])
      refine ⟨fun hlt => absurd hlt (by
        show ¬ pos + capacity < s.queue.head
        omega), fun _ => .inl ((hs _).trans (if_pos (Nat.add_mod_right _ _)))⟩
    · exact (h.slots u hu hu').storeSequence hcap h.mask hmod
  · exact forall_goto trivial fun t' hne =>
      (h.threads t').release hcap h2 h.mask hseq htail (hmine t' hne) _
  · exact inj_goto h.writing_inj fun t' p _ hp => by cases hp
  · exact inj_goto h.reading_inj fun t' p _ hp => by cases hp
  · exact fun p hp => (h.seq_claimed p hp).trans (hgrow p)
  · exact fun p hp => (h.seq_left p hp).trans (hgrow p)
  · exact fun p hp => ⟨(h.published p hp).1, (h.published p hp).2.trans (hgrow p)⟩
  · intro p hp
    rcases List.mem_append.mp hp with hp | hp
    · exact ⟨(h.released p hp).1, (h.released p hp).2.trans (hgrow p)⟩
    · obtain rfl := List.mem_singleton.mp hp
      exact ⟨htail, ((hs p).trans (if_pos rfl)).ge⟩
  · intro px hpx
    rcases List.mem_append.mp hpx with hpx | hpx
    · exact h.obtained px hpx
    · obtain rfl := List.mem_singleton.mp hpx
      exact ⟨htail, hx⟩
  · show (s.history.obtained ++ [(pos, x)]).map Prod.fst = s.history.released ++ [pos]
    rw [List.map_append, h.obtained_released]
    rfl
  · refine List.nodup_append.mpr ⟨h.released_nodup, by simp, ?_⟩
    rintro p hp _ hq rfl
    obtain rfl := List.mem_singleton.mp hq
    have := (h.released p hp).2
    omega
  · exact fun p hp => (h.written p hp).imp_right fun he =>
      exists_goto he fun hp => by rw [ht] at hp; cases hp
  · intro p hp
    by_cases he : p = pos
    · exact .inl (List.mem_append_right _ (List.mem_singleton.mpr he))
    · refine (h.taken p hp).imp (List.mem_append_left _) fun hr => exists_goto hr fun hp => ?_
      rw [ht] at hp
      exact absurd (Option.some.inj hp).symm he

/-- A thread that can begin a call holds no ticket. -/
theorem Pc.ready_spec {pc : Pc T} (h : pc.ready = true) :
    pc.writing = none ∧ pc.reading = none := by
  cases pc <;> first | exact ⟨rfl, rfl⟩ | cases h

/-- Every access of a thread keeps the invariant. -/
theorem Inv.advance (hcap : capacity.isPowerOfTwo) (h2 : 2 ≤ capacity) (h : Inv capacity s)
    {spurious : Bool} {s' : State T} (ha : s.advance t spurious = some s') : Inv capacity s' := by
  have hok := h.threads t
  -- a thread outside its critical section moves without touching the queue
  have hmove : ∀ {pc}, some (s.goto t pc) = some s' → (s.threads t).writing = none →
      (s.threads t).reading = none → ThreadOk capacity s.queue s.history.claimed pc →
      pc.writing = none → pc.reading = none → Inv capacity s' := by
    intro pc he hw hr hpc hw' hr'
    obtain rfl := Option.some.inj he
    exact h.goto hw hr hpc hw' hr'
  cases hpc : s.threads t with
  | idle => simp only [State.advance, hpc, reduceCtorEq] at ha
  | enqReturned ok => simp only [State.advance, hpc, reduceCtorEq] at ha
  | deqReturned ok x => simp only [State.advance, hpc, reduceCtorEq] at ha
  | enqLoadHead x =>
    simp only [State.advance, hpc] at ha
    exact hmove ha (by rw [hpc]; rfl) (by rw [hpc]; rfl) le_rfl rfl rfl
  | enqLoadSequence x pos =>
    simp only [State.advance, hpc] at ha
    rw [hpc] at hok
    have hw : (s.threads t).writing = none := by rw [hpc]; rfl
    have hr : (s.threads t).reading = none := by rw [hpc]; rfl
    split at ha
    · refine hmove ha hw hr ⟨hok, fun _ => ?_⟩ rfl rfl
      show (s.queue.cell pos).sequence = pos
      omega
    · split at ha <;> exact hmove ha hw hr trivial rfl rfl
  | enqCas x pos =>
    simp only [State.advance, hpc] at ha
    split at ha
    · next hwin =>
      obtain rfl := Option.some.inj ha
      obtain ⟨rfl, -⟩ := hwin
      exact h.enqCas hcap h2 hpc
    · exact hmove ha (by rw [hpc]; rfl) (by rw [hpc]; rfl) le_rfl rfl rfl
  | enqStoreData x pos =>
    simp only [State.advance, hpc] at ha
    obtain rfl := Option.some.inj ha
    exact h.enqStoreData hcap h2 hpc
  | enqStoreSequence pos =>
    simp only [State.advance, hpc] at ha
    obtain rfl := Option.some.inj ha
    exact h.enqStoreSequence hcap h2 hpc
  | deqLoadTail =>
    simp only [State.advance, hpc] at ha
    exact hmove ha (by rw [hpc]; rfl) (by rw [hpc]; rfl) le_rfl rfl rfl
  | deqLoadSequence pos =>
    simp only [State.advance, hpc] at ha
    rw [hpc] at hok
    have hw : (s.threads t).writing = none := by rw [hpc]; rfl
    have hr : (s.threads t).reading = none := by rw [hpc]; rfl
    split at ha
    · refine hmove ha hw hr ⟨hok, fun _ => ?_⟩ rfl rfl
      show (s.queue.cell pos).sequence = pos + 1
      omega
    · split at ha <;> exact hmove ha hw hr trivial rfl rfl
  | deqCas pos =>
    simp only [State.advance, hpc] at ha
    split at ha
    · next hwin =>
      obtain rfl := Option.some.inj ha
      obtain ⟨rfl, -⟩ := hwin
      exact h.deqCas hcap h2 hpc
    · exact hmove ha (by rw [hpc]; rfl) (by rw [hpc]; rfl) le_rfl rfl rfl
  | deqLoadData pos =>
    simp only [State.advance, hpc] at ha
    obtain rfl := Option.some.inj ha
    exact h.deqLoadData hpc
  | deqStoreSequence x pos =>
    simp only [State.advance, hpc] at ha
    obtain rfl := Option.some.inj ha
    exact h.deqStoreSequence hcap h2 hpc

/-- Every action keeps the invariant. -/
theorem Inv.step (hcap : capacity.isPowerOfTwo) (h2 : 2 ≤ capacity) (h : Inv capacity s)
    {a : Action T} {s' : State T} (ha : s.step a = some s') : Inv capacity s' := by
  cases a with
  | enqueue t x =>
    obtain ⟨hready, he⟩ := Option.ite_none_right_eq_some.mp ha
    obtain rfl := Option.some.inj he
    obtain ⟨hw, hr⟩ := Pc.ready_spec hready
    exact h.goto hw hr trivial rfl rfl
  | dequeue t =>
    obtain ⟨hready, he⟩ := Option.ite_none_right_eq_some.mp ha
    obtain rfl := Option.some.inj he
    obtain ⟨hw, hr⟩ := Pc.ready_spec hready
    exact h.goto hw hr trivial rfl rfl
  | advance t spurious => exact h.advance hcap h2 ha

/-- The invariant holds in every reachable state. -/
theorem inv_run (hcap : capacity.isPowerOfTwo) (h2 : 2 ≤ capacity) {q : Queue T}
    (hq : Queue.create capacity = some q) {as : List (Action T)} {s : State T}
    (hr : (machine T).run (State.fresh q) as = some s) : Inv capacity s :=
  Machine.invariant_run (fun _ _ _ h ha => h.step hcap h2 ha) (inv_fresh hcap hq) hr

end MpscQueue

end Logspine
