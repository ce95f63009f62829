import Logspine.Execution
import Logspine.MpscQueueSafety

/-!
# `mpsc_queue` used by one thread

For one thread the queue is a bounded first-in first-out list. `Serves` says so about a
sequence of calls: each of them comes to its end, however often the weak
compare-exchanges fail spuriously before they succeed, and ends as the list says. Nothing
is assumed about a concurrent run here: `Holds` ties the ring of slots to the list.

Full and empty are told apart by the sequence number of one slot, which takes a capacity
of two: with one slot, the number that an `enqueue` leaves is the one that the next
`enqueue` looks for, so that the queue never is full.
-/

namespace Logspine

namespace MpscQueue

variable {T : Type} {capacity : ℕ}

/-! ## The bounded list -/

/-- A call on the queue. -/
inductive Call (T : Type) where
  | enqueue (data : T) : Call T
  | dequeue : Call T

/-- How a call on the list of the items held ends, and the items held then. -/
def Call.onList (capacity : ℕ) : Call T → List T → Pc T × List T
  | enqueue data, items =>
    if items.length < capacity then (.enqReturned true, items ++ [data])
    else (.enqReturned false, items)
  | dequeue, [] => (.deqReturned false none, [])
  | dequeue, x :: items => (.deqReturned true (some x), items)

/-- The call has returned `false`. -/
def Pc.Refused (pc : Pc T) : Prop := pc = .enqReturned false ∨ pc = .deqReturned false none

/-- The action that begins the call on thread `t`. -/
def Call.action (t : ℕ) : Call T → Action T
  | enqueue data => .enqueue t data
  | dequeue => .dequeue t

/-- Thread `t` goes on with its call. -/
def Action.Continues (t : ℕ) (a : Action T) : Prop := ∃ spurious, a = .advance t spurious

/-- A weak compare-exchange fails spuriously. -/
def Action.spurious : Action T → Bool
  | advance _ spurious => spurious
  | enqueue .. | dequeue .. => false

/-- Thread `t` comes to a state with `Q`, unless its compare-exchanges fail spuriously for
ever. -/
abbrev Returns (t : ℕ) (Q : State T → Prop) (s : State T) : Prop :=
  (machine T).Settles (Action.Continues t) (fun a => a.spurious = true) Q s

/-- Thread `t` makes the calls one after another. Each returns, with the result that it has
on the list, and one that is refused leaves the queue as it is. -/
def Serves (capacity t : ℕ) : List (Call T) → List T → State T → Prop
  | [], _, _ => True
  | call :: calls, items, s => ∃ s₀, (machine T).step s (call.action t) = some s₀ ∧
      Returns t (fun s' => s'.threads t = (call.onList capacity items).1 ∧
        ((s'.threads t).Refused → s'.queue = s.queue) ∧
        Serves capacity t calls (call.onList capacity items).2 s') s₀

/-- No `enqueue` among the calls comes when as many items as the capacity are held, of which
there are `held` at first. -/
def NeverFull (capacity : ℕ) : List (Call T) → ℕ → Prop
  | [], _ => True
  | .enqueue _ :: calls, held => held < capacity ∧ NeverFull capacity calls (held + 1)
  | .dequeue :: calls, held => NeverFull capacity calls (held - 1)

/-! ## The ring of slots -/

/-- The queue when no call is under way: the slots from `tail_` to `head_` hold the items,
and all others of the ring are free. -/
structure Holds (capacity : ℕ) (q : Queue T) (items : List T) : Prop where
  mask : q.bufferMask = capacity - 1
  head_eq : q.head = q.tail + items.length
  length_le : items.length ≤ capacity
  full : ∀ i x, items[i]? = some x →
    q.seq (q.tail + i) = q.tail + i + 1 ∧ (q.cell (q.tail + i)).data = some x
  free : ∀ u, q.head ≤ u → u < q.tail + capacity → q.seq u = u

namespace Queue

/-- What an `enqueue` that succeeds makes of the queue. -/
def enqueued (q : Queue T) (x : T) : Queue T :=
  (({ q with head := q.head + 1 } : Queue T).storeData q.head x).storeSequence q.head (q.head + 1)

/-- What a `dequeue` that succeeds makes of the queue. -/
def dequeued (q : Queue T) : Queue T :=
  ({ q with tail := q.tail + 1 } : Queue T).storeSequence q.tail (q.tail + q.bufferMask + 1)

variable {q : Queue T}

theorem seq_enqueued (hcap : capacity.isPowerOfTwo) (hmask : q.bufferMask = capacity - 1) (x : T)
    (u : ℕ) : (q.enqueued x).seq u =
      if u % capacity = q.head % capacity then q.head + 1 else q.seq u := by
  have hmask₁ : ({ q with head := q.head + 1 } : Queue T).bufferMask = capacity - 1 := hmask
  have hmask₂ : (({ q with head := q.head + 1 } : Queue T).storeData q.head x).bufferMask =
      capacity - 1 := hmask
  rw [enqueued, seq_storeSequence hcap hmask₂, seq_storeData hcap hmask₁]
  rfl

theorem data_enqueued (hcap : capacity.isPowerOfTwo) (hmask : q.bufferMask = capacity - 1) (x : T)
    (u : ℕ) : ((q.enqueued x).cell u).data =
      if u % capacity = q.head % capacity then some x else (q.cell u).data := by
  have hmask₁ : ({ q with head := q.head + 1 } : Queue T).bufferMask = capacity - 1 := hmask
  have hmask₂ : (({ q with head := q.head + 1 } : Queue T).storeData q.head x).bufferMask =
      capacity - 1 := hmask
  rw [enqueued, data_storeSequence hcap hmask₂, data_storeData hcap hmask₁]
  rfl

theorem seq_dequeued (hcap : capacity.isPowerOfTwo) (hmask : q.bufferMask = capacity - 1) (u : ℕ) :
    q.dequeued.seq u =
      if u % capacity = q.tail % capacity then q.tail + capacity else q.seq u := by
  have hmask₁ : ({ q with tail := q.tail + 1 } : Queue T).bufferMask = capacity - 1 := hmask
  have hlap : q.tail + q.bufferMask + 1 = q.tail + capacity := by
    rw [hmask, Nat.add_assoc, Nat.sub_add_cancel (Nat.pos_of_isPowerOfTwo hcap)]
  rw [dequeued, seq_storeSequence hcap hmask₁, hlap]
  rfl

theorem data_dequeued (hcap : capacity.isPowerOfTwo) (hmask : q.bufferMask = capacity - 1)
    (u : ℕ) : (q.dequeued.cell u).data = (q.cell u).data := by
  have hmask₁ : ({ q with tail := q.tail + 1 } : Queue T).bufferMask = capacity - 1 := hmask
  rw [dequeued, data_storeSequence hcap hmask₁]
  rfl

end Queue

namespace Holds

variable {q : Queue T} {items : List T}

theorem fresh (hcap : capacity.isPowerOfTwo) (hq : Queue.create capacity = some q) :
    Holds capacity q [] := by
  have hpos : 0 < capacity := Nat.pos_of_isPowerOfTwo hcap
  rw [Queue.create] at hq
  split at hq
  case isTrue => cases hq
  case isFalse =>
    obtain rfl := Option.some.inj hq
    refine ⟨rfl, rfl, Nat.zero_le _, fun i x hx => ?_, fun u _ hu => ?_⟩
    · cases hx
    · show u &&& (capacity - 1) = u
      rw [and_mask hcap]
      exact Nat.mod_eq_of_lt (hu.trans_eq (Nat.zero_add capacity))

theorem enqueue (hcap : capacity.isPowerOfTwo) (h : Holds capacity q items)
    (hroom : items.length < capacity) (x : T) : Holds capacity (q.enqueued x) (items ++ [x]) := by
  have hhead := h.head_eq
  -- the slot of `head_` is no other slot of the ring
  have hother : ∀ u, q.tail ≤ u → u < q.tail + capacity → u ≠ q.head →
      u % capacity ≠ q.head % capacity := fun u hu hu' hne hmod =>
    hne (eq_of_mod_eq hu hu' (by omega) (by omega) hmod)
  have hseq := Queue.seq_enqueued hcap h.mask x
  have hdata := Queue.data_enqueued hcap h.mask x
  refine ⟨h.mask, ?_, ?_, fun i y hy => ?_, fun u hu hu' => ?_⟩
  · rw [List.length_append]
    show q.head + 1 = q.tail + (items.length + 1)
    omega
  · rw [List.length_append]
    exact hroom
  · show (q.enqueued x).seq (q.tail + i) = q.tail + i + 1 ∧
      ((q.enqueued x).cell (q.tail + i)).data = some y
    rcases Nat.lt_or_ge i items.length with hi | hi
    · rw [List.getElem?_append_left hi] at hy
      have hne := hother (q.tail + i) (by omega) (by omega) (by omega)
      rw [hseq, hdata, if_neg hne, if_neg hne]
      exact h.full i y hy
    · rw [List.getElem?_append_right hi, List.getElem?_singleton] at hy
      obtain ⟨hzero, heq⟩ := Option.ite_none_right_eq_some.mp hy
      obtain rfl := Option.some.inj heq
      have hi' : q.tail + i = q.head := by omega
      rw [hseq, hdata, hi', if_pos rfl, if_pos rfl]
      exact ⟨rfl, rfl⟩
  · have hu₁ : q.head + 1 ≤ u := hu
    have hu₂ : u < q.tail + capacity := hu'
    rw [hseq, if_neg (hother u (by omega) hu₂ (by omega))]
    exact h.free u (by omega) hu₂

theorem dequeue (hcap : capacity.isPowerOfTwo) {x : T} (h : Holds capacity q (x :: items)) :
    Holds capacity q.dequeued items := by
  have hhead := h.head_eq
  have hlength := h.length_le
  rw [List.length_cons] at hhead hlength
  have hpos : 0 < capacity := Nat.pos_of_isPowerOfTwo hcap
  have hother : ∀ u, q.tail < u → u < q.tail + capacity →
      u % capacity ≠ q.tail % capacity := fun u hu hu' hmod => by
    have heq := eq_of_mod_eq hu.le hu' le_rfl (by omega) hmod
    omega
  have hseq := Queue.seq_dequeued hcap h.mask
  have hdata := Queue.data_dequeued hcap h.mask
  refine ⟨h.mask, ?_, by omega, fun i y hy => ?_, fun u hu hu' => ?_⟩
  · show q.head = q.tail + 1 + items.length
    omega
  · show q.dequeued.seq (q.tail + 1 + i) = q.tail + 1 + i + 1 ∧
      (q.dequeued.cell (q.tail + 1 + i)).data = some y
    obtain ⟨hi, -⟩ := List.getElem?_eq_some_iff.mp hy
    rw [hseq, hdata, if_neg (hother _ (by omega) (by omega)), Nat.add_assoc q.tail, Nat.add_comm 1]
    exact h.full (i + 1) y hy
  · have hu₁ : q.head ≤ u := hu
    have hu₂ : u < q.tail + 1 + capacity := hu'
    rw [hseq]
    rcases Nat.lt_or_ge u (q.tail + capacity) with hlt | hge
    · rw [if_neg (hother u (by omega) hlt)]
      exact h.free u hu₁ hlt
    · -- the slot that was just released is free for the next lap
      obtain rfl : u = q.tail + capacity := by omega
      rw [Nat.add_mod_right, if_pos rfl]

end Holds

/-! ## One call -/

section Calls

variable {s s' : State T} {t : ℕ} {Q : State T → Prop} {x : T}

theorem State.goto_goto (s : State T) (t : ℕ) (pc pc' : Pc T) :
    (s.goto t pc).goto t pc' = s.goto t pc' := by
  rw [goto, goto, goto, Function.update_idem]

theorem not_spurious (t : ℕ) : ¬ (Action.advance t false : Action T).spurious = true :=
  Bool.false_ne_true

/-- An access without a spurious failure leaves the budget for these. -/
theorem budgeted_advance (h : s.advance t false = some s') (n : ℕ) :
    ((machine T).budgeted fun a => a.spurious = true).step (s, n) (.advance t false) =
      some (s', n) := by
  refine Machine.budgeted_step_of_not ?_ h n
  exact not_spurious t

/-- An access with one outcome. -/
theorem Returns.advance (hstep : ∀ spurious, s.advance t spurious = some s')
    (h : Returns t Q s') : Returns t Q s := by
  refine .later ⟨.advance t false, s', ⟨false, rfl⟩, not_spurious t, hstep false⟩ ?_
  rintro _ s'' ⟨spurious, rfl⟩ hs''
  obtain rfl := Option.some.inj ((hstep spurious).symm.trans hs'')
  exact h

/-- A sequence load and a compare-exchange, which goes back to the load when it fails
spuriously. -/
theorem Returns.retry {s₁ : State T} (s₂ : State T)
    (hload : ∀ spurious, s₁.advance t spurious = some s₂)
    (hwin : s₂.advance t false = some s') (hfail : s₂.advance t true = some s₁)
    (h : Returns t Q s') : Returns t Q s₁ := by
  refine Machine.Settles.retry s₂
    ⟨.advance t false, ⟨false, rfl⟩, not_spurious t, hload false⟩ ?_
    ⟨.advance t false, s', ⟨false, rfl⟩, not_spurious t, hwin⟩ ?_
  · rintro _ s'' ⟨spurious, rfl⟩ hs''
    exact (Option.some.inj ((hload spurious).symm.trans hs'')).symm
  · rintro _ s'' ⟨spurious, rfl⟩ hs''
    cases spurious with
    | false =>
      obtain rfl := Option.some.inj (hwin.symm.trans hs'')
      exact .inr h
    | true => exact .inl ⟨rfl, Option.some.inj (hs''.symm.trans hfail)⟩

/-- A thread that has returned does not go on. -/
theorem not_enabled_of_ready (h : (s.threads t).ready = true) :
    ¬ (machine T).Enabled (Action.Continues t) s := by
  rintro ⟨_, s', ⟨spurious, rfl⟩, hs'⟩
  have hadvance : s.advance t spurious = some s' := hs'
  rw [State.advance] at hadvance
  cases hpc : s.threads t with
  | idle | enqReturned | deqReturned =>
    rw [hpc] at hadvance
    cases hadvance
  | enqLoadHead | enqLoadSequence | enqCas | enqStoreData | enqStoreSequence | deqLoadTail
  | deqLoadSequence | deqCas | deqLoadData | deqStoreSequence =>
    rw [hpc] at h
    cases h

/-- An `enqueue` that finds the slot of `head_` at rest. -/
theorem enqueue_returns (ht : s.threads t = .enqLoadHead x)
    (hseq : s.queue.seq s.queue.head = s.queue.head) :
    Returns t (fun s' => s'.threads t = .enqReturned true ∧ s'.queue = s.queue.enqueued x) s := by
  refine .advance (fun _ => advance_enqLoadHead ht) ?_
  refine .retry (s.goto t (.enqCas x s.queue.head)) (fun _ => ?_)
    (advance_enqCas (State.goto_self ..)) ?_ ?_
  · rw [advance_enqLoadSequence (State.goto_self ..) hseq, State.goto_goto]
  · rw [State.advance, State.goto_self]
    dsimp only
    rw [if_neg (fun h => Bool.false_ne_true h.2.symm), State.goto_goto]
    rfl
  refine .advance (fun _ => advance_enqStoreData (State.goto_self ..)) ?_
  refine .advance (fun _ => advance_enqStoreSequence (State.goto_self ..)) ?_
  exact .now ⟨State.goto_self .., rfl⟩

/-- An `enqueue` that finds the slot of `head_` behind. -/
theorem enqueue_returns_full (ht : s.threads t = .enqLoadHead x)
    (hseq : s.queue.seq s.queue.head < s.queue.head) :
    Returns t (fun s' => s'.threads t = .enqReturned false ∧ s'.queue = s.queue) s := by
  refine .advance (fun _ => advance_enqLoadHead ht) ?_
  refine .advance (fun _ => advance_enqLoadSequence_full (State.goto_self ..) hseq) ?_
  exact .now ⟨State.goto_self .., rfl⟩

/-- A `dequeue` that finds the slot of `tail_` filled. -/
theorem dequeue_returns (ht : s.threads t = .deqLoadTail)
    (hseq : s.queue.seq s.queue.tail = s.queue.tail + 1) :
    Returns t (fun s' => s'.threads t = .deqReturned true (s.queue.cell s.queue.tail).data ∧
      s'.queue = s.queue.dequeued) s := by
  refine .advance (fun _ => advance_deqLoadTail ht) ?_
  refine .retry (s.goto t (.deqCas s.queue.tail)) (fun _ => ?_)
    (advance_deqCas (State.goto_self ..)) ?_ ?_
  · rw [advance_deqLoadSequence (State.goto_self ..) hseq, State.goto_goto]
  · rw [State.advance, State.goto_self]
    dsimp only
    rw [if_neg (fun h => Bool.false_ne_true h.2.symm), State.goto_goto]
    rfl
  refine .advance (fun _ => advance_deqLoadData (State.goto_self ..)) ?_
  refine .advance (fun _ => advance_deqStoreSequence (State.goto_self ..)) ?_
  exact .now ⟨State.goto_self .., rfl⟩

/-- A `dequeue` that finds the slot of `tail_` behind. -/
theorem dequeue_returns_empty (ht : s.threads t = .deqLoadTail)
    (hseq : s.queue.seq s.queue.tail < s.queue.tail + 1) :
    Returns t (fun s' => s'.threads t = .deqReturned false none ∧ s'.queue = s.queue) s := by
  refine .advance (fun _ => advance_deqLoadTail ht) ?_
  refine .advance (fun _ => advance_deqLoadSequence_empty (State.goto_self ..) hseq) ?_
  exact .now ⟨State.goto_self .., rfl⟩

end Calls

/-! ## Sequences of calls -/

section Sequences

variable {s s' : State T} {t : ℕ} {items : List T} {call : Call T} {calls : List (Call T)}

/-- After a call the thread can begin the next one. -/
theorem ready_onList (capacity : ℕ) (call : Call T) (items : List T) :
    (call.onList capacity items).1.ready = true := by
  cases call with
  | enqueue x =>
    rw [Call.onList]
    split <;> rfl
  | dequeue => cases items <;> rfl

theorem neverFull_cons : NeverFull capacity (call :: calls) items.length ↔
    NeverFull capacity [call] items.length ∧
      NeverFull capacity calls (call.onList capacity items).2.length := by
  cases call with
  | enqueue x =>
    rw [NeverFull, NeverFull, NeverFull, Call.onList, and_true]
    refine and_congr_right fun hroom => ?_
    rw [if_pos hroom, List.length_append]
    rfl
  | dequeue =>
    rw [NeverFull, NeverFull, NeverFull, true_and]
    cases items <;> rfl

/-- A call comes to its end on the ring as on the list, unless it is an `enqueue` into a single
slot that is taken. -/
theorem Holds.returns (hcap : capacity.isPowerOfTwo) (h : Holds capacity s.queue items)
    (hready : (s.threads t).ready = true)
    (hfits : 2 ≤ capacity ∨ NeverFull capacity [call] items.length) :
    ∃ s₀, (machine T).step s (call.action t) = some s₀ ∧ Returns t (fun s' =>
      s'.threads t = (call.onList capacity items).1 ∧
      ((s'.threads t).Refused → s'.queue = s.queue) ∧
      Holds capacity s'.queue (call.onList capacity items).2) s₀ := by
  have hpos : 0 < capacity := Nat.pos_of_isPowerOfTwo hcap
  have hhead := h.head_eq
  cases call with
  | enqueue x =>
    refine ⟨s.goto t (.enqLoadHead x), if_pos hready, ?_⟩
    rw [Call.onList]
    by_cases hroom : items.length < capacity
    · have hseq : s.queue.seq s.queue.head = s.queue.head := h.free _ le_rfl (by omega)
      rw [if_pos hroom]
      refine (enqueue_returns (State.goto_self ..) hseq).imp ?_
      rintro s' ⟨hreturned, hqueue⟩
      refine ⟨hreturned, ?_, hqueue ▸ h.enqueue hcap hroom x⟩
      rw [hreturned]
      rintro (⟨⟨⟩⟩ | ⟨⟨⟩⟩)
    · have h2 : 2 ≤ capacity := hfits.resolve_right fun hfull => hroom hfull.1
      have hlength := h.length_le
      have hseq : s.queue.seq s.queue.head < s.queue.head := by
        -- the slot of `head_` is the one of the oldest item
        have hlap : s.queue.head = s.queue.tail + capacity := by omega
        have hlt : 0 < items.length := by omega
        have hfull : s.queue.seq s.queue.tail = s.queue.tail + 1 :=
          (h.full 0 items[0] (List.getElem?_eq_getElem hlt)).1
        have hsame : s.queue.cell s.queue.head = s.queue.cell s.queue.tail :=
          Queue.cell_eq hcap h.mask (by rw [hlap, Nat.add_mod_right])
        calc s.queue.seq s.queue.head = s.queue.tail + 1 :=
              (congrArg Slot.sequence hsame).trans hfull
          _ < s.queue.head := by omega
      rw [if_neg hroom]
      refine (enqueue_returns_full (State.goto_self ..) hseq).imp ?_
      rintro s' ⟨hreturned, hqueue⟩
      exact ⟨hreturned, fun _ => hqueue, hqueue ▸ h⟩
  | dequeue =>
    refine ⟨s.goto t .deqLoadTail, if_pos hready, ?_⟩
    cases items with
    | nil =>
      have hseq : s.queue.seq s.queue.tail = s.queue.tail :=
        h.free _ hhead.le (Nat.lt_add_of_pos_right hpos)
      have hbehind := hseq.trans_lt (Nat.lt_succ_self _)
      refine (dequeue_returns_empty (State.goto_self ..) hbehind).imp ?_
      rintro s' ⟨hreturned, hqueue⟩
      exact ⟨hreturned, fun _ => hqueue, hqueue ▸ h⟩
    | cons x items =>
      obtain ⟨hseq, hdata⟩ := h.full 0 x rfl
      refine (dequeue_returns (State.goto_self ..) hseq).imp ?_
      rintro s' ⟨hreturned, hqueue⟩
      have hreturned' : s'.threads t = .deqReturned true (some x) :=
        hreturned.trans (congrArg (Pc.deqReturned true) hdata)
      refine ⟨hreturned', ?_, hqueue ▸ h.dequeue hcap⟩
      rw [hreturned']
      rintro (⟨⟨⟩⟩ | ⟨⟨⟩⟩)

/-- The calls are served as on the list, unless there is a single slot and an `enqueue` comes
when it is taken. -/
theorem Holds.serves (hcap : capacity.isPowerOfTwo) (h : Holds capacity s.queue items)
    (hready : (s.threads t).ready = true)
    (hfits : 2 ≤ capacity ∨ NeverFull capacity calls items.length) :
    Serves capacity t calls items s := by
  induction calls generalizing items s with
  | nil => trivial
  | cons call calls ih =>
    rw [neverFull_cons] at hfits
    obtain ⟨s₀, hbegin, hreturns⟩ := h.returns hcap hready (hfits.imp_right And.left)
    refine ⟨s₀, hbegin, hreturns.imp ?_⟩
    rintro s' ⟨hreturned, hrefused, hholds⟩
    refine ⟨hreturned, hrefused, ih hholds ?_ (hfits.imp_right And.right)⟩
    rw [hreturned]
    exact ready_onList capacity call items

/-- With one slot, the sequence number that an `enqueue` leaves is the one that the next looks
for. -/
theorem Holds.seq_head_of_one (h : Holds 1 s.queue items) (hfull : items.length = 1) :
    s.queue.seq s.queue.head = s.queue.head := by
  have hcap : Nat.isPowerOfTwo 1 := ⟨0, rfl⟩
  have hhead := h.head_eq
  have hseq := (h.full 0 items[0] (List.getElem?_eq_getElem (hfull ▸ Nat.one_pos))).1
  have hslot : s.queue.head % 1 = (s.queue.tail + 0) % 1 := by omega
  rw [Queue.seq, Queue.cell_eq hcap h.mask hslot]
  exact hseq.trans (by omega)

/-- Calls that a single slot serves as the list never enqueue when it is taken. -/
theorem Serves.neverFull (h : Holds 1 s.queue items) (hready : (s.threads t).ready = true)
    (hserves : Serves 1 t calls items s) : NeverFull 1 calls items.length := by
  have hcap : Nat.isPowerOfTwo 1 := ⟨0, rfl⟩
  have hend : ∀ {pc : Pc T} {s' : State T}, pc.ready = true → s'.threads t = pc →
      ¬ (machine T).Enabled (Action.Continues t) s' := fun hpc hs' =>
    not_enabled_of_ready (hs' ▸ hpc)
  induction calls generalizing items s with
  | nil => trivial
  | cons call calls ih =>
    obtain ⟨s₀, hbegin, hserved⟩ := hserves
    have hfits : NeverFull 1 [call] items.length := by
      cases call with
      | dequeue => trivial
      | enqueue x =>
        refine ⟨?_, trivial⟩
        by_contra hroom
        obtain rfl : s.goto t (.enqLoadHead x) = s₀ :=
          Option.some.inj ((if_pos hready).symm.trans hbegin)
        have hlength : items.length = 1 := le_antisymm h.length_le (not_lt.mp hroom)
        have haccepted := enqueue_returns (s := s.goto t (.enqLoadHead x)) (State.goto_self ..)
          (h.seq_head_of_one hlength)
        obtain ⟨s', ⟨hrefused, -⟩, haccepted, -⟩ := hserved.meet haccepted
          (fun s' hs' => hend (ready_onList 1 _ items) hs'.1) (fun s' hs' => hend rfl hs'.1)
        rw [Call.onList, if_neg hroom, haccepted] at hrefused
        cases hrefused
    obtain ⟨s₁, hbegin', hreturns⟩ := h.returns hcap hready (.inr hfits)
    obtain rfl := Option.some.inj (hbegin.symm.trans hbegin')
    obtain ⟨s', ⟨-, -, hrest⟩, hreturned, -, hholds⟩ := hserved.meet hreturns
      (fun s' hs' => hend (ready_onList 1 call items) hs'.1)
      (fun s' hs' => hend (ready_onList 1 call items) hs'.1)
    refine neverFull_cons.mpr ⟨hfits, ih hholds ?_ hrest⟩
    rw [hreturned]
    exact ready_onList 1 call items

/-- **A queue used by one thread is a bounded first-in first-out list** exactly when it has at
least two slots, or no `enqueue` comes when its only slot is taken. -/
theorem mpscQueue_serves_iff {q : Queue T} (hq : Queue.create capacity = some q) (t : ℕ)
    (calls : List (Call T)) : Serves capacity t calls [] (State.fresh q) ↔
      2 ≤ capacity ∨ NeverFull capacity calls 0 := by
  have hcap := (Queue.create_eq_some hq).1
  have hholds : Holds capacity (State.fresh q).queue [] := .fresh hcap hq
  refine ⟨fun hserves => ?_, hholds.serves hcap rfl⟩
  rcases Nat.lt_or_ge 1 capacity with h2 | h1
  · exact .inl h2
  · obtain rfl : capacity = 1 := le_antisymm h1 (Nat.pos_of_isPowerOfTwo hcap)
    exact .inr (hserves.neverFull hholds rfl)

/-- The smallest queue that works. -/
theorem mpscQueue_serves_iff_two : Serves 2 0 [.enqueue 7, .enqueue 8, .enqueue 9, .dequeue] []
    (State.fresh (⟨1, fun i => ⟨i, none⟩, 0, 0⟩ : Queue ℕ)) :=
  (mpscQueue_serves_iff rfl 0 _).mpr (.inl le_rfl)

/-- The constructor accepts a capacity of one, and the second of two items is not refused. -/
theorem not_serves_one : ∃ q : Queue ℕ, Queue.create 1 = some q ∧
    ¬ Serves 1 0 [.enqueue 7, .enqueue 8] [] (State.fresh q) := by
  have hcap : Nat.isPowerOfTwo 1 := ⟨0, rfl⟩
  refine ⟨_, rfl, fun hserves => ?_⟩
  obtain ⟨-, hfull, -⟩ := hserves.neverFull (.fresh hcap rfl) rfl
  exact absurd hfull (by decide)

/-- After that the queue is out of step: a `dequeue` never returns. -/
theorem Holds.dequeue_diverges {x y : T} {q : Queue T} (h : Holds 1 q [x])
    (hqueue : s.queue = q.enqueued y) (ht : s.threads t = .deqLoadTail) :
    ¬ Returns t (fun s' => (s'.threads t).ready = true) s := by
  have hcap : Nat.isPowerOfTwo 1 := ⟨0, rfl⟩
  have hhead : q.head = q.tail + 1 := h.head_eq
  have hseq : s.queue.seq s.queue.tail = s.queue.tail + 2 := by
    rw [hqueue, Queue.seq_enqueued hcap h.mask, if_pos (by omega), hhead]
    rfl
  intro hreturns
  -- the thread goes from the load of `tail_` to the sequence load and back
  refine Machine.Inevitable.not_of_invariant (I := fun sn => sn.1.queue = s.queue ∧
    (sn.1.threads t = .deqLoadTail ∨ sn.1.threads t = .deqLoadSequence s.queue.tail))
    ?_ ?_ ⟨rfl, .inl ht⟩ (hreturns 0)
  · rintro ⟨s', n⟩ ⟨-, hs' | hs'⟩ hready
    all_goals
      rw [hs'] at hready
      cases hready
  · rintro ⟨s', n⟩ ⟨hsame, hs' | hs'⟩ -
    · refine ⟨.advance t false, (s'.goto t (.deqLoadSequence s'.queue.tail), n), ⟨false, rfl⟩,
        budgeted_advance (advance_deqLoadTail hs') n, hsame, .inr ?_⟩
      rw [State.goto_self, hsame]
    · have hdif : ((s'.queue.cell s.queue.tail).sequence : ℤ) - (s.queue.tail + 1 : ℕ) = 1 := by
        rw [hsame, show (s.queue.cell s.queue.tail).sequence = s.queue.tail + 2 from hseq]
        push_cast
        ring
      have hadvance : s'.advance t false = some (s'.goto t .deqLoadTail) := by
        rw [State.advance, hs']
        dsimp only
        rw [hdif]
        rfl
      exact ⟨.advance t false, (s'.goto t .deqLoadTail, n), ⟨false, rfl⟩,
        budgeted_advance hadvance n, hsame, .inl (State.goto_self ..)⟩

end Sequences

end MpscQueue

end Logspine
