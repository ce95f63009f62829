import Logspine.Execution
import Logspine.MpscQueueInv
import Logspine.TicketQueue

/-!
# Safety of `mpsc_queue` under any interleaving

What the invariant says about every reachable state: the counters stay at most a
lap apart, no two threads work on one slot, every ticket that left hands over
exactly the item its `enqueue` stored, and a refused operation had a reason. In
the abstract the queue is a `TicketQueue`: the winning compare-exchanges are its
operations, and all other accesses are invisible. An operation that nobody disturbs is the one
of the ticket queue from its first access to its last.
-/

namespace Logspine

namespace MpscQueue

variable {T : Type} {capacity : ℕ} {s s' : State T} {t : ℕ} {spurious : Bool}

/-- The ticket of a thread between its winning compare-exchange and its
releasing store. -/
def Pc.working (pc : Pc T) : Option ℕ := pc.writing <|> pc.reading

/-- No two threads work on the same slot. -/
def Exclusive (s : State T) : Prop :=
  ∀ t t' p p', t ≠ t' → (s.threads t).working = some p → (s.threads t').working = some p' →
    p &&& s.queue.bufferMask ≠ p' &&& s.queue.bufferMask

/-- A ticket a thread works on is in reach of the window, and its slot says so. -/
theorem Inv.working_cases (h : Inv capacity s) {p : ℕ} (hp : (s.threads t).working = some p) :
    ((s.threads t).writing = some p ∧ s.queue.tail ≤ p ∧ p < s.queue.head ∧ s.queue.seq p = p) ∨
    ((s.threads t).reading = some p ∧ p < s.queue.tail ∧ s.queue.head ≤ p + capacity ∧
      s.queue.seq p = p + 1) := by
  have hok := h.threads t
  cases hpc : s.threads t <;> rw [hpc] at hok hp <;>
    simp [Pc.working, Pc.writing, Pc.reading] at hp ⊢ <;> subst hp <;>
    exact ⟨rfl, hok.1, hok.2.1, hok.2.2.1⟩

theorem Inv.exclusive (hcap : capacity.isPowerOfTwo) (h2 : 2 ≤ capacity) (h : Inv capacity s) :
    Exclusive s := by
  intro t t' p p' hne hp hp' hslot
  rw [h.mask, and_mask hcap, and_mask hcap] at hslot
  have hle := h.head_le
  have hle' := h.tail_le_head
  rcases h.working_cases hp with ⟨hw, h₁, h₂, h₃⟩ | ⟨hr, h₁, h₂, h₃⟩ <;>
    rcases h.working_cases hp' with ⟨hw', h₁', h₂', h₃'⟩ | ⟨hr', h₁', h₂', h₃'⟩
  · obtain rfl := eq_of_mod_eq h₁ (by omega) h₁' (by omega) hslot
    exact hne (h.writing_inj t t' p hw hw')
  · exact Queue.seq_ne_succ hcap h2 h.mask hslot h₃' h₃
  · exact Queue.seq_ne_succ hcap h2 h.mask hslot.symm h₃ h₃'
  · -- two readers are within one lap below `tail_`
    obtain rfl := eq_of_mod_eq (w := s.queue.head - capacity) (by omega) (by omega) (by omega)
      (by omega) hslot
    exact hne (h.reading_inj t t' p hr hr')

/-- `enqueue` returns `false` at its sequence load, when the slot is behind. -/
theorem advance_enqReturned (ha : s.advance t spurious = some s')
    (hf : s'.threads t = .enqReturned false) :
    ∃ x pos, s.threads t = .enqLoadSequence x pos ∧ s.queue.seq pos < pos := by
  cases hpc : s.threads t <;> simp only [State.advance, hpc, reduceCtorEq] at ha <;>
    grind

/-- `dequeue` returns `false` at its sequence load, when the slot is behind. -/
theorem advance_deqReturned {x : Option T} (ha : s.advance t spurious = some s')
    (hf : s'.threads t = .deqReturned false x) :
    ∃ pos, s.threads t = .deqLoadSequence pos ∧ s.queue.seq pos < pos + 1 := by
  cases hpc : s.threads t <;> simp only [State.advance, hpc, reduceCtorEq] at ha <;>
    grind

/-- An `enqueue` that gives up saw the slot of `head_` not yet released by the
`dequeue` one lap earlier. -/
theorem Inv.enqueue_full (hcap : capacity.isPowerOfTwo) (h : Inv capacity s)
    (ha : s.advance t spurious = some s') (hf : s'.threads t = .enqReturned false) :
    capacity ≤ s.queue.head ∧ s.queue.head - capacity ∉ s.history.released := by
  obtain ⟨x, pos, hpc, hseq⟩ := advance_enqReturned ha hf
  have hok := h.threads t
  rw [hpc] at hok
  have hle : pos ≤ s.queue.head := hok
  -- the position was fresh, since a claimed slot is never behind its ticket
  obtain rfl : pos = s.queue.head := by
    by_contra hne
    have := h.seq_claimed pos (by omega)
    omega
  have hfull : capacity ≤ s.queue.head := by
    rcases Nat.lt_or_ge s.queue.head (s.queue.tail + capacity) with hlt | hge
    · rcases (h.slots _ h.tail_le_head hlt).2 le_rfl with hs | ⟨p, hp, -⟩ <;> omega
    · omega
  refine ⟨hfull, fun hrel => ?_⟩
  have hgrown := (h.released _ hrel).2
  have hmod : (s.queue.head - capacity) % capacity = s.queue.head % capacity := by
    rw [← Nat.add_mod_right, Nat.sub_add_cancel hfull]
  have hsame : s.queue.seq (s.queue.head - capacity) = s.queue.seq s.queue.head := by
    rw [Queue.seq, Queue.cell_eq hcap h.mask hmod]
  omega

/-- A `dequeue` that gives up saw the ticket `tail_` not yet published. -/
theorem Inv.dequeue_empty (h : Inv capacity s) {x : Option T}
    (ha : s.advance t spurious = some s') (hf : s'.threads t = .deqReturned false x) :
    s.queue.tail ∉ s.history.published := by
  obtain ⟨pos, hpc, hseq⟩ := advance_deqReturned ha hf
  have hok := h.threads t
  rw [hpc] at hok
  have hle : pos ≤ s.queue.tail := hok
  obtain rfl : pos = s.queue.tail := by
    by_contra hne
    have := h.seq_left pos (by omega)
    omega
  intro hpub
  have := (h.published _ hpub).2
  omega

/-- **Safety of `mpsc_queue`**, in every state any interleaving reaches. `claimed`
holds, at index `t`, the argument of the `enqueue` that won ticket `t`; `left` the
tickets in the order their `dequeue`s won them. -/
theorem mpscQueue_safe (hcap : capacity.isPowerOfTwo) (h2 : 2 ≤ capacity) {q : Queue T}
    (hq : Queue.create capacity = some q) {as : List (Action T)} {s : State T}
    (hr : (machine T).run (State.fresh q) as = some s) :
    -- the counters
    (s.queue.tail ≤ s.queue.head ∧ s.queue.head ≤ s.queue.tail + capacity) ∧
    -- at most one thread works on a slot
    Exclusive s ∧
    -- the tickets are those claimed, and they leave in order
    s.history.claimed.length = s.queue.head ∧ s.history.left = List.range s.queue.tail ∧
    -- what a `dequeue` obtained is what the `enqueue` of its ticket stored, once
    (∀ px ∈ s.history.obtained, ∃ x, px.2 = some x ∧ s.history.claimed[px.1]? = some x) ∧
    (s.history.obtained.map Prod.fst).Nodup ∧
    -- a ticket that left was obtained, or its `dequeue` is still at work
    (∀ p < s.queue.tail, p ∈ s.history.obtained.map Prod.fst ∨
      ∃ t, (s.threads t).reading = some p) ∧
    -- a ticket inside holds its item, or its `enqueue` is still at work
    (∀ p, s.queue.tail ≤ p → p < s.queue.head → (s.queue.cell p).data = s.history.claimed[p]? ∨
      ∃ t, (s.threads t).writing = some p) ∧
    -- a refused `enqueue` saw the ticket a lap back not released
    (∀ t spurious s', s.advance t spurious = some s' → s'.threads t = .enqReturned false →
      capacity ≤ s.queue.head ∧ s.queue.head - capacity ∉ s.history.released) ∧
    -- a refused `dequeue` saw the ticket `tail_` not published
    (∀ t spurious s' x, s.advance t spurious = some s' → s'.threads t = .deqReturned false x →
      s.queue.tail ∉ s.history.published) := by
  have h := inv_run hcap h2 hq hr
  refine ⟨⟨h.tail_le_head, h.head_le⟩, h.exclusive hcap h2, h.claimed_length, h.left_eq, ?_, ?_, ?_,
    ?_, fun t _ s' ha hf => h.enqueue_full hcap ha hf, fun t _ s' x ha hf => h.dequeue_empty ha hf⟩
  · intro px hpx
    obtain ⟨hlt, hx⟩ := h.obtained px hpx
    have hlen : px.1 < s.history.claimed.length := by
      have := h.tail_le_head
      have := h.claimed_length
      omega
    exact ⟨s.history.claimed[px.1], by rw [hx, List.getElem?_eq_getElem hlen],
      List.getElem?_eq_getElem hlen⟩
  · rw [h.obtained_released]
    exact h.released_nodup
  · rw [h.obtained_released]
    exact h.taken
  · intro p htail hhead
    refine (h.written p hhead).imp_left fun hpub => ?_
    have hseq := (h.published p hpub).2
    rcases (h.slots p htail (by have := h.head_le; omega)).1 hhead with hs | ⟨-, hd⟩
    · omega
    · exact hd

/-- Thread 0 enqueues an item while thread 1 dequeues it; the first
compare-exchange fails spuriously. -/
def handover : List (Action ℕ) :=
  [.enqueue 0 7, .dequeue 1, .advance 0 false, .advance 1 false, .advance 0 false,
    .advance 0 true, .advance 0 false, .advance 0 false, .advance 0 false, .advance 0 false,
    .advance 1 false, .advance 1 false, .advance 1 false, .advance 1 false]

theorem mpscQueue_safe_handover : ∃ s,
    (machine ℕ).run (State.fresh ⟨1, fun i => ⟨i, none⟩, 0, 0⟩) handover = some s ∧
      s.history.obtained = [(0, some 7)] ∧ s.queue.tail ≤ s.queue.head ∧ Exclusive s := by
  obtain ⟨s, hs⟩ : ∃ s, (machine ℕ).run (State.fresh ⟨1, fun i => ⟨i, none⟩, 0, 0⟩) handover =
    some s := ⟨_, rfl⟩
  have hobtained := congrArg (Option.map fun s => s.history.obtained) hs
  have htwo : Nat.isPowerOfTwo 2 := ⟨1, rfl⟩
  obtain ⟨⟨hle, -⟩, hexcl, -⟩ := mpscQueue_safe htwo le_rfl rfl hs
  exact ⟨s, hs, (Option.some.inj hobtained).symm, hle, hexcl⟩

/-! ## The abstract queue -/

/-- The queue as a ticket queue: what was claimed, and how many were taken. -/
def State.tickets (s : State T) : TicketQueue T := ⟨s.history.claimed, s.queue.tail⟩

/-- An access changes the tickets only when a compare-exchange wins: then it puts
the argument of an `enqueue`, or takes the oldest ticket. -/
theorem Inv.advance_tickets (hcap : capacity.isPowerOfTwo) (h2 : 2 ≤ capacity)
    (h : Inv capacity s) (ha : s.advance t spurious = some s') :
    s'.tickets = s.tickets ∨ TicketQueue.Step capacity s.tickets s'.tickets := by
  have hok := h.threads t
  cases hpc : s.threads t <;> simp only [State.advance, hpc, reduceCtorEq] at ha
  case enqCas x pos =>
    rw [hpc] at hok
    split at ha
    case isFalse => exact .inl (by rw [← Option.some.inj ha]; rfl)
    next hwin =>
    obtain rfl := Option.some.inj ha
    obtain ⟨rfl, -⟩ := hwin
    refine .inr (.enqueue (x := x) (TicketQueue.enqueue_eq_some.mpr ⟨?_, rfl⟩))
    show s.history.claimed.length < s.queue.tail + capacity
    rw [h.claimed_length]
    exact h.head_lt hcap h2 (hok.2 rfl)
  case deqCas pos =>
    rw [hpc] at hok
    split at ha
    case isFalse => exact .inl (by rw [← Option.some.inj ha]; rfl)
    next hwin =>
    obtain rfl := Option.some.inj ha
    obtain ⟨rfl, -⟩ := hwin
    have hlt : s.queue.tail < s.history.claimed.length := by
      rw [h.claimed_length]
      exact (h.tail_published h2 (hok.2 rfl)).1
    have hdequeue : s.tickets.dequeue =
        some ((s.queue.tail, s.history.claimed[s.queue.tail]), _) :=
      TicketQueue.dequeue_eq_some.mpr ⟨rfl, List.getElem?_eq_getElem hlt, rfl⟩
    exact .inr (.dequeue hdequeue)
  all_goals
    try split at ha
    all_goals try split at ha
    all_goals exact .inl (by rw [← Option.some.inj ha]; rfl)

/-- **Refinement**: a run of the queue, under any interleaving, is a sequence of
operations of the bounded ticket queue. -/
theorem mpscQueue_refines (hcap : capacity.isPowerOfTwo) (h2 : 2 ≤ capacity) {q : Queue T}
    (hq : Queue.create capacity = some q) {as : List (Action T)} {s : State T}
    (hr : (machine T).run (State.fresh q) as = some s) :
    Relation.ReflTransGen (TicketQueue.Step capacity) .empty s.tickets := by
  have hfresh : (State.fresh q).tickets = TicketQueue.empty := by
    rw [Queue.create] at hq
    split at hq
    · cases hq
    · rw [← Option.some.inj hq]
      rfl
  rw [← hfresh]
  refine Machine.reflTransGen_of_run (f := State.tickets) (I := Inv capacity)
    (fun _ _ _ h ha => h.step hcap h2 ha) ?_ (inv_fresh hcap hq) hr
  intro s a s' h ha
  cases a with
  | enqueue t x =>
    obtain ⟨-, he⟩ := Option.ite_none_right_eq_some.mp ha
    exact .inl (by rw [← Option.some.inj he]; rfl)
  | dequeue t =>
    obtain ⟨-, he⟩ := Option.ite_none_right_eq_some.mp ha
    exact .inl (by rw [← Option.some.inj he]; rfl)
  | advance t spurious => exact h.advance_tickets hcap h2 ha

/-! ## Operations that nobody disturbs -/

/-- With no `dequeue` half done, the slot of `head_` is at rest when the queue has room. -/
theorem Inv.seq_head (hcap : capacity.isPowerOfTwo) (h2 : 2 ≤ capacity) (h : Inv capacity s)
    (hreading : ∀ u, (s.threads u).reading = none)
    (hroom : s.queue.head < s.queue.tail + capacity) : s.queue.seq s.queue.head = s.queue.head := by
  rcases (h.slots _ h.tail_le_head hroom).2 le_rfl with hrest | ⟨p, hp, hseq⟩
  · exact hrest
  · have hsame : s.queue.seq p = s.queue.seq s.queue.head :=
      congrArg Slot.sequence (Queue.cell_eq hcap h.mask (by rw [hp, Nat.add_mod_right]))
    rcases h.taken p (by omega) with hreleased | ⟨u, hu⟩
    · have hle := (h.released p hreleased).2
      omega
    · rw [hreading u] at hu
      cases hu

/-- With no `enqueue` half done, the slot of `tail_` holds the oldest item. -/
theorem Inv.seq_tail (h2 : 2 ≤ capacity) (h : Inv capacity s)
    (hwriting : ∀ u, (s.threads u).writing = none) (hlt : s.queue.tail < s.queue.head) :
    s.queue.seq s.queue.tail = s.queue.tail + 1 ∧
      (s.queue.cell s.queue.tail).data = s.history.claimed[s.queue.tail]? := by
  rcases (h.slots _ le_rfl (by omega)).1 hlt with hempty | hfull
  · rcases h.written _ hlt with hpublished | ⟨u, hu⟩
    · have hle := (h.published _ hpublished).2
      omega
    · rw [hwriting u] at hu
      cases hu
  · exact hfull

/-- The slot of `head_` is behind when the queue is full. -/
theorem Inv.seq_head_lt (hcap : capacity.isPowerOfTwo) (h2 : 2 ≤ capacity) (h : Inv capacity s)
    (hfull : s.queue.head = s.queue.tail + capacity) :
    s.queue.seq s.queue.head < s.queue.head := by
  have hsame : s.queue.seq s.queue.tail = s.queue.seq s.queue.head :=
    congrArg Slot.sequence (Queue.cell_eq hcap h.mask (by rw [hfull, Nat.add_mod_right]))
  rcases (h.slots _ le_rfl (by omega)).1 (by omega) with hseq | ⟨hseq, -⟩ <;> omega

section Advance

variable {data : T} {x : Option T} {pos : ℕ}

theorem advance_enqLoadHead (ht : s.threads t = .enqLoadHead data) :
    s.advance t spurious = some (s.goto t (.enqLoadSequence data s.queue.head)) := by
  rw [State.advance, ht]

/-- The slot is at rest: the thread goes on to its compare-exchange. -/
theorem advance_enqLoadSequence (ht : s.threads t = .enqLoadSequence data pos)
    (hseq : s.queue.seq pos = pos) :
    s.advance t spurious = some (s.goto t (.enqCas data pos)) := by
  rw [State.advance, ht]
  exact if_pos (sub_eq_zero.mpr (congrArg Nat.cast hseq))

/-- The slot is behind: the queue is full. -/
theorem advance_enqLoadSequence_full (ht : s.threads t = .enqLoadSequence data pos)
    (hseq : s.queue.seq pos < pos) :
    s.advance t spurious = some (s.goto t (.enqReturned false)) := by
  have hdif : ((s.queue.seq pos : ℤ) - pos) < 0 := by omega
  rw [State.advance, ht]
  exact (if_neg hdif.ne).trans (if_pos hdif)

theorem advance_enqCas (ht : s.threads t = .enqCas data s.queue.head) :
    s.advance t false = some ({ s with
      queue := { s.queue with head := s.queue.head + 1 }
      history := { s.history with claimed := s.history.claimed ++ [data] } }.goto t
        (.enqStoreData data s.queue.head)) := by
  rw [State.advance, ht]
  exact if_pos ⟨rfl, rfl⟩

theorem advance_enqStoreData (ht : s.threads t = .enqStoreData data pos) :
    s.advance t spurious =
      some ({ s with queue := s.queue.storeData pos data }.goto t (.enqStoreSequence pos)) := by
  rw [State.advance, ht]

theorem advance_enqStoreSequence (ht : s.threads t = .enqStoreSequence pos) :
    s.advance t spurious = some ({ s with
      queue := s.queue.storeSequence pos (pos + 1)
      history := { s.history with published := s.history.published ++ [pos] } }.goto t
        (.enqReturned true)) := by
  rw [State.advance, ht]

theorem advance_deqLoadTail (ht : s.threads t = .deqLoadTail) :
    s.advance t spurious = some (s.goto t (.deqLoadSequence s.queue.tail)) := by
  rw [State.advance, ht]

/-- The slot holds an item: the thread goes on to its compare-exchange. -/
theorem advance_deqLoadSequence (ht : s.threads t = .deqLoadSequence pos)
    (hseq : s.queue.seq pos = pos + 1) : s.advance t spurious = some (s.goto t (.deqCas pos)) := by
  rw [State.advance, ht]
  exact if_pos (sub_eq_zero.mpr (congrArg Nat.cast hseq))

/-- The slot is behind: the queue is empty. -/
theorem advance_deqLoadSequence_empty (ht : s.threads t = .deqLoadSequence pos)
    (hseq : s.queue.seq pos < pos + 1) :
    s.advance t spurious = some (s.goto t (.deqReturned false none)) := by
  have hdif : ((s.queue.seq pos : ℤ) - (pos + 1 : ℕ)) < 0 := by omega
  rw [State.advance, ht]
  exact (if_neg hdif.ne).trans (if_pos hdif)

theorem advance_deqCas (ht : s.threads t = .deqCas s.queue.tail) :
    s.advance t false = some ({ s with
      queue := { s.queue with tail := s.queue.tail + 1 }
      history := { s.history with left := s.history.left ++ [s.queue.tail] } }.goto t
        (.deqLoadData s.queue.tail)) := by
  rw [State.advance, ht]
  exact if_pos ⟨rfl, rfl⟩

theorem advance_deqLoadData (ht : s.threads t = .deqLoadData pos) :
    s.advance t spurious = some (s.goto t (.deqStoreSequence (s.queue.cell pos).data pos)) := by
  rw [State.advance, ht]

theorem advance_deqStoreSequence (ht : s.threads t = .deqStoreSequence x pos) :
    s.advance t spurious = some ({ s with
      queue := s.queue.storeSequence pos (pos + s.queue.bufferMask + 1)
      history := { s.history with
        obtained := s.history.obtained ++ [(pos, x)]
        released := s.history.released ++ [pos] } }.goto t (.deqReturned true x)) := by
  rw [State.advance, ht]

end Advance

/-- **An `enqueue` that nobody disturbs** is the one of the ticket queue. -/
theorem enqueue_alone (hcap : capacity.isPowerOfTwo) (h2 : 2 ≤ capacity) (h : Inv capacity s)
    (hreading : ∀ u, (s.threads u).reading = none) {data : T}
    (ht : s.threads t = .enqLoadHead data) :
    (machine T).Inevitable (· = .advance t false) (fun s' =>
      match s.tickets.enqueue capacity data with
      | some q => s'.threads t = .enqReturned true ∧ s'.tickets = q
      | none => s'.threads t = .enqReturned false ∧ s'.tickets = s.tickets) s := by
  refine .next (advance_enqLoadHead ht) ?_
  by_cases hroom : s.queue.head < s.queue.tail + capacity
  · have hput : s.tickets.enqueue capacity data = some (s.tickets.put data) := by
      refine TicketQueue.enqueue_eq_some.mpr ⟨?_, rfl⟩
      show s.history.claimed.length < s.queue.tail + capacity
      rwa [h.claimed_length]
    rw [hput]
    have hseq := h.seq_head hcap h2 hreading hroom
    refine .next (advance_enqLoadSequence (State.goto_self ..) hseq) ?_
    refine .next (advance_enqCas (State.goto_self ..)) ?_
    refine .next (advance_enqStoreData (State.goto_self ..)) ?_
    refine .next (advance_enqStoreSequence (State.goto_self ..)) ?_
    exact .now ⟨State.goto_self .., rfl⟩
  · have hnone : s.tickets.enqueue capacity data = none := by
      refine if_neg fun hput => hroom ?_
      have hlt : s.history.claimed.length < s.queue.tail + capacity := hput
      rwa [h.claimed_length] at hlt
    rw [hnone]
    have hseq := h.seq_head_lt hcap h2 (Nat.le_antisymm h.head_le (not_lt.mp hroom))
    refine .next (advance_enqLoadSequence_full (State.goto_self ..) hseq) ?_
    exact .now ⟨State.goto_self .., rfl⟩

/-- **A `dequeue` that nobody disturbs** is the one of the ticket queue. -/
theorem dequeue_alone (hcap : capacity.isPowerOfTwo) (h2 : 2 ≤ capacity) (h : Inv capacity s)
    (hwriting : ∀ u, (s.threads u).writing = none) (hreading : ∀ u, (s.threads u).reading = none)
    (ht : s.threads t = .deqLoadTail) :
    (machine T).Inevitable (· = .advance t false) (fun s' =>
      match s.tickets.dequeue with
      | some (px, q) => s'.threads t = .deqReturned true (some px.2) ∧ s'.tickets = q
      | none => s'.threads t = .deqReturned false none ∧ s'.tickets = s.tickets) s := by
  refine .next (advance_deqLoadTail ht) ?_
  by_cases hlt : s.queue.tail < s.queue.head
  · obtain ⟨hseq, hdata⟩ := h.seq_tail h2 hwriting hlt
    have hclaimed : s.queue.tail < s.history.claimed.length := by rwa [h.claimed_length]
    rw [List.getElem?_eq_getElem hclaimed] at hdata
    have htake : s.tickets.dequeue = some ((s.queue.tail, s.history.claimed[s.queue.tail]),
        { s.tickets with taken := s.queue.tail + 1 }) :=
      TicketQueue.dequeue_eq_some.mpr ⟨rfl, List.getElem?_eq_getElem hclaimed, rfl⟩
    rw [htake]
    refine .next (advance_deqLoadSequence (State.goto_self ..) hseq) ?_
    refine .next (advance_deqCas (State.goto_self ..)) ?_
    refine .next (advance_deqLoadData (State.goto_self ..)) ?_
    refine .next (advance_deqStoreSequence (State.goto_self ..)) ?_
    exact .now ⟨(State.goto_self ..).trans (congrArg (Pc.deqReturned true) hdata), rfl⟩
  · have hnone : s.tickets.dequeue = none := by
      refine TicketQueue.dequeue_eq_none.mpr ?_
      show s.history.claimed.length ≤ s.queue.tail
      rw [h.claimed_length]
      exact not_lt.mp hlt
    rw [hnone]
    have heq : s.queue.head = s.queue.tail := Nat.le_antisymm (not_lt.mp hlt) h.tail_le_head
    have hseq := h.seq_head hcap h2 hreading (by omega)
    rw [heq] at hseq
    refine .next (advance_deqLoadSequence_empty (State.goto_self ..) ?_) ?_
    · exact hseq.trans_lt (Nat.lt_succ_self _)
    exact .now ⟨State.goto_self .., rfl⟩

end MpscQueue

end Logspine
