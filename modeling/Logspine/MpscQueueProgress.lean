import Mathlib.Algebra.BigOperators.Ring.Finset
import Mathlib.Algebra.Group.Action.Defs
import Mathlib.Algebra.Order.BigOperators.Group.Finset
import Logspine.MpscQueueSafety

/-!
# `mpsc_queue` makes progress

No operation waits for another one. A thread that repeats its loop has been overtaken: either
its compare-exchange failed spuriously, or another thread won the counter since the thread read
it, so every lap is charged to one of the two (`mpscQueue_accesses`). A thread wins at most once
in a call. Hence calls that are under way all return, however they are interleaved and whichever
of them stop in the middle (`mpscQueue_returns`).
-/

namespace Logspine

namespace MpscQueue

variable {T : Type} {capacity : ℕ} {s s' : State T} {t u : ℕ} {a : Action T}
  {as bs : List (Action T)}

/-- The thread that acts. -/
def Action.thread : Action T → ℕ
  | enqueue t _ | dequeue t | advance t _ => t

/-- The action is an atomic access, not the beginning of a call. -/
def Action.accesses : Action T → Bool
  | advance _ _ => true
  | _ => false

/-- The thread is at its compare-exchange, and has the current value of the counter. -/
def State.agrees (s : State T) (t : ℕ) : Bool :=
  match s.threads t with
  | .enqCas _ pos => decide (s.queue.head = pos)
  | .deqCas pos => decide (s.queue.tail = pos)
  | _ => false

/-- The action is a compare-exchange that wins a ticket. -/
def State.wins (s : State T) : Action T → Bool
  | .advance t false => s.agrees t
  | _ => false

/-- The action is a compare-exchange that fails although the values agree. -/
def State.failsSpuriously (s : State T) : Action T → Bool
  | .advance t true => s.agrees t
  | _ => false

/-- `n` accesses, or one more lap if the position read is not the counter any more. -/
def lap (pos counter n : ℕ) : ℕ := if pos = counter then n else n + 2

/-- How many accesses a call still makes, at most, when no other thread wins its counter. -/
def Pc.accesses (head tail : ℕ) : Pc T → ℕ
  | idle | enqReturned _ | deqReturned _ _ => 0
  | enqLoadHead _ | deqLoadTail => 5
  | enqLoadSequence _ pos => lap pos head 4
  | deqLoadSequence pos => lap pos tail 4
  | enqCas _ pos => lap pos head 3
  | deqCas pos => lap pos tail 3
  | enqStoreData _ _ | deqLoadData _ => 2
  | enqStoreSequence _ | deqStoreSequence _ _ => 1

/-- The call of thread `t` has so many accesses to make. -/
def State.accesses (s : State T) (t : ℕ) : ℕ :=
  (s.threads t).accesses s.queue.head s.queue.tail

/-- The call may still win a ticket. -/
def Pc.races : Pc T → ℕ
  | enqLoadHead _ | enqLoadSequence _ _ | enqCas _ _ => 1
  | deqLoadTail | deqLoadSequence _ | deqCas _ => 1
  | _ => 0

/-! ## One access -/

theorem lap_self (pos n : ℕ) : lap pos pos n = n := if_pos rfl

theorem lap_of_ne {pos counter : ℕ} (h : pos ≠ counter) (n : ℕ) : lap pos counter n = n + 2 :=
  if_neg h

theorem le_lap (pos counter n : ℕ) : n ≤ lap pos counter n := by
  rw [lap]
  split <;> omega

theorem lap_le (pos counter n : ℕ) : lap pos counter n ≤ n + 2 := by
  rw [lap]
  split <;> omega

theorem lap_succ (pos counter n : ℕ) : lap pos counter n + 1 = lap pos counter (n + 1) := by
  rw [lap, lap]
  split <;> rfl

/-- A call makes at most six accesses when it is not overtaken again. -/
theorem Pc.accesses_le (head tail : ℕ) (pc : Pc T) : pc.accesses head tail ≤ 6 := by
  cases pc with
  | enqLoadSequence _ pos | deqLoadSequence pos => exact lap_le ..
  | enqCas _ pos | deqCas pos => exact (lap_le ..).trans (of_decide_eq_true rfl)
  | _ => exact of_decide_eq_true rfl

/-- Another value of the counters costs a thread one more lap. -/
theorem Pc.accesses_le_add (head tail head' tail' : ℕ) (pc : Pc T) :
    pc.accesses head' tail' ≤ pc.accesses head tail + 2 := by
  cases pc with
  | enqLoadSequence _ pos | deqLoadSequence pos | enqCas _ pos | deqCas pos =>
    exact (lap_le ..).trans (Nat.add_le_add_right (le_lap ..) 2)
  | _ => exact Nat.le_add_right _ 2

theorem State.advance_of_ready {spurious : Bool} (h : (s.threads t).ready = true) :
    s.advance t spurious = none := by
  rw [State.advance]
  cases hpc : s.threads t <;> rw [hpc] at h <;> first | rfl | cases h

/-- The slot of `head_` is not ahead of it. -/
theorem Inv.seq_head_le (hcap : capacity.isPowerOfTwo) (h2 : 2 ≤ capacity) (h : Inv capacity s) :
    s.queue.seq s.queue.head ≤ s.queue.head := by
  rcases h.head_le.lt_or_eq with hroom | hfull
  · rcases (h.slots _ h.tail_le_head hroom).2 le_rfl with heq | ⟨p, hp, hseq⟩ <;> omega
  · exact (h.seq_head_lt hcap h2 hfull).le

/-- The slot of `tail_` is at most published. -/
theorem Inv.seq_tail_le (hcap : capacity.isPowerOfTwo) (h2 : 2 ≤ capacity) (h : Inv capacity s) :
    s.queue.seq s.queue.tail ≤ s.queue.tail + 1 := by
  rcases h.tail_le_head.lt_or_eq with hlt | heq
  · rcases (h.slots _ le_rfl (by omega)).1 hlt with hseq | ⟨hseq, -⟩ <;> omega
  · have hle := h.seq_head_le hcap h2
    rw [← heq] at hle
    omega

/-- What an access does to the call that makes it. -/
structure Advanced (s s' : State T) (t : ℕ) (spurious : Bool) : Prop where
  /-- it has fewer accesses to make -/
  own : s'.accesses t + 1 ≤
    s.accesses t + 2 * (s.failsSpuriously (.advance t spurious)).toNat
  /-- the others notice only a ticket that is won -/
  other : ∀ u, u ≠ t →
    s'.accesses u ≤ s.accesses u + 2 * (s.wins (.advance t spurious)).toNat
  /-- it wins at most once -/
  races : (s'.threads t).races + (s.wins (.advance t spurious)).toNat ≤ (s.threads t).races
  /-- the others stay where they are -/
  threads : ∀ u, u ≠ t → s'.threads u = s.threads u

/-- An access that leaves the counters alone. -/
theorem Advanced.goto {s₁ : State T} {pc : Pc T} {spurious : Bool}
    (hthreads : s₁.threads = s.threads) (hhead : s₁.queue.head = s.queue.head)
    (htail : s₁.queue.tail = s.queue.tail) (hwins : s.wins (.advance t spurious) = false)
    (hown : pc.accesses s.queue.head s.queue.tail + 1 ≤
      s.accesses t + 2 * (s.failsSpuriously (.advance t spurious)).toNat)
    (hraces : pc.races ≤ (s.threads t).races) : Advanced s (s₁.goto t pc) t spurious := by
  have hsame : ∀ u, u ≠ t → (s₁.goto t pc).threads u = s.threads u := fun u hu =>
    (Function.update_of_ne hu ..).trans (congrFun hthreads u)
  refine ⟨?_, fun u hu => ?_, ?_, hsame⟩
  · rw [State.accesses, State.goto_self]
    change pc.accesses s₁.queue.head s₁.queue.tail + 1 ≤ _
    rwa [hhead, htail]
  · rw [State.accesses, hsame u hu]
    change (s.threads u).accesses s₁.queue.head s₁.queue.tail ≤ _
    rw [hhead, htail]
    exact Nat.le_add_right _ _
  · rw [State.goto_self, hwins]
    exact hraces

/-- An access that wins a ticket. -/
theorem Advanced.win {s₁ : State T} {pc : Pc T} (hthreads : s₁.threads = s.threads)
    (hwins : s.wins (.advance t false) = true)
    (hown : pc.accesses s₁.queue.head s₁.queue.tail + 1 ≤ s.accesses t)
    (hraces : pc.races + 1 ≤ (s.threads t).races) : Advanced s (s₁.goto t pc) t false := by
  have hsame : ∀ u, u ≠ t → (s₁.goto t pc).threads u = s.threads u := fun u hu =>
    (Function.update_of_ne hu ..).trans (congrFun hthreads u)
  refine ⟨?_, fun u hu => ?_, ?_, hsame⟩
  · rw [State.accesses, State.goto_self]
    exact hown.trans (Nat.le_add_right _ _)
  · rw [State.accesses, hsame u hu, hwins]
    exact Pc.accesses_le_add ..
  · rw [State.goto_self, hwins]
    exact hraces

/-- One access of a thread. A sequence number that is ahead says that the counter has moved on
since the thread read it. -/
theorem Inv.advanced (hcap : capacity.isPowerOfTwo) (h2 : 2 ≤ capacity) (h : Inv capacity s)
    {spurious : Bool} (hs : s.advance t spurious = some s') : Advanced s s' t spurious := by
  have hquiet : ∀ {pc : Pc T}, s.threads t = pc → (∀ data pos, pc ≠ .enqCas data pos) →
      (∀ pos, pc ≠ .deqCas pos) → s.agrees t = false := by
    intro pc ht henq hdeq
    rw [State.agrees, ht]
    cases pc with
    | enqCas data pos => exact absurd rfl (henq data pos)
    | deqCas pos => exact absurd rfl (hdeq pos)
    | _ => rfl
  have hwins : s.agrees t = false → s.wins (.advance t spurious) = false := fun ha => by
    cases spurious
    · exact ha
    · rfl
  have hcost : ∀ {pc : Pc T}, s.threads t = pc →
      s.accesses t = pc.accesses s.queue.head s.queue.tail := fun ht => by
    rw [State.accesses, ht]
  rw [State.advance] at hs
  split at hs
  case h_1 | h_2 | h_3 => cases hs
  case h_4 data ht =>
    obtain rfl := Option.some.inj hs
    have hno := hwins (hquiet ht (by rintro _ _ ⟨⟩) (by rintro _ ⟨⟩))
    refine .goto rfl rfl rfl hno ?_ (by rw [ht]; exact le_rfl)
    rw [hcost ht, Pc.accesses, Pc.accesses, lap_self]
    exact Nat.le_add_right 5 _
  case h_5 data pos ht =>
    have hno := hwins (hquiet ht (by rintro _ _ ⟨⟩) (by rintro _ ⟨⟩))
    have hfresh : pos = s.queue.head → s.queue.seq pos ≤ pos := fun hpos => by
      rw [hpos]
      exact h.seq_head_le hcap h2
    simp only at hs
    split at hs
    case isTrue =>
      obtain rfl := Option.some.inj hs
      refine .goto rfl rfl rfl hno ?_ (by rw [ht]; exact le_rfl)
      rw [hcost ht, Pc.accesses, Pc.accesses, lap_succ]
      exact Nat.le_add_right _ _
    case isFalse =>
      split at hs <;> obtain rfl := Option.some.inj hs
      case isTrue =>
        refine .goto rfl rfl rfl hno ?_ (Nat.zero_le _)
        rw [hcost ht, Pc.accesses, Pc.accesses, ← lap_succ]
        exact Nat.le_add_right_of_le (Nat.succ_le_succ (Nat.zero_le _))
      case isFalse =>
        refine .goto rfl rfl rfl hno ?_ (by rw [ht]; exact le_rfl)
        have hstale : pos ≠ s.queue.head := fun hpos => by
          have hle : (s.queue.cell pos).sequence ≤ _ := hfresh hpos
          omega
        rw [hcost ht, Pc.accesses, Pc.accesses, lap_of_ne hstale]
        exact Nat.le_add_right _ _
  case h_6 data pos ht =>
    split at hs <;> obtain rfl := Option.some.inj hs
    case isTrue hwin =>
      obtain ⟨hpos, rfl⟩ := hwin
      refine .win rfl ?_ ?_ (by rw [ht]; exact le_rfl)
      · rw [State.wins, State.agrees, ht]
        exact decide_eq_true hpos
      · rw [hcost ht, Pc.accesses, Pc.accesses, ← hpos, lap_self]
    case isFalse hlost =>
      refine .goto rfl rfl rfl ?_ ?_ (by rw [ht]; exact le_rfl)
      · cases spurious with
        | true => rfl
        | false =>
          rw [State.wins, State.agrees, ht]
          exact decide_eq_false fun hpos => hlost ⟨hpos, rfl⟩
      · rw [hcost ht, Pc.accesses, lap_self, Pc.accesses]
        by_cases hpos : pos = s.queue.head
        · cases spurious with
          | true =>
            rw [State.failsSpuriously, State.agrees, ht]
            simp only [hpos, lap_self, decide_true, Bool.toNat_true]
            exact le_rfl
          | false => exact absurd ⟨hpos.symm, rfl⟩ hlost
        · rw [lap_of_ne hpos]
          exact Nat.le_add_right 5 _
  case h_7 data pos ht =>
    obtain rfl := Option.some.inj hs
    have hno := hwins (hquiet ht (by rintro _ _ ⟨⟩) (by rintro _ ⟨⟩))
    refine .goto rfl rfl rfl hno ?_ (Nat.zero_le _)
    rw [hcost ht, Pc.accesses, Pc.accesses]
    omega
  case h_8 pos ht =>
    obtain rfl := Option.some.inj hs
    have hno := hwins (hquiet ht (by rintro _ _ ⟨⟩) (by rintro _ ⟨⟩))
    refine .goto rfl rfl rfl hno ?_ (Nat.zero_le _)
    rw [hcost ht, Pc.accesses, Pc.accesses]
    omega
  case h_9 ht =>
    obtain rfl := Option.some.inj hs
    have hno := hwins (hquiet ht (by rintro _ _ ⟨⟩) (by rintro _ ⟨⟩))
    refine .goto rfl rfl rfl hno ?_ (by rw [ht]; exact le_rfl)
    rw [hcost ht, Pc.accesses, Pc.accesses, lap_self]
    exact Nat.le_add_right 5 _
  case h_10 pos ht =>
    have hno := hwins (hquiet ht (by rintro _ _ ⟨⟩) (by rintro _ ⟨⟩))
    have hfresh : pos = s.queue.tail → s.queue.seq pos ≤ pos + 1 := fun hpos => by
      rw [hpos]
      exact h.seq_tail_le hcap h2
    simp only at hs
    split at hs
    case isTrue =>
      obtain rfl := Option.some.inj hs
      refine .goto rfl rfl rfl hno ?_ (by rw [ht]; exact le_rfl)
      rw [hcost ht, Pc.accesses, Pc.accesses, lap_succ]
      exact Nat.le_add_right _ _
    case isFalse =>
      split at hs <;> obtain rfl := Option.some.inj hs
      case isTrue =>
        refine .goto rfl rfl rfl hno ?_ (Nat.zero_le _)
        rw [hcost ht, Pc.accesses, Pc.accesses, ← lap_succ]
        exact Nat.le_add_right_of_le (Nat.succ_le_succ (Nat.zero_le _))
      case isFalse =>
        refine .goto rfl rfl rfl hno ?_ (by rw [ht]; exact le_rfl)
        have hstale : pos ≠ s.queue.tail := fun hpos => by
          have hle : (s.queue.cell pos).sequence ≤ _ := hfresh hpos
          omega
        rw [hcost ht, Pc.accesses, Pc.accesses, lap_of_ne hstale]
        exact Nat.le_add_right _ _
  case h_11 pos ht =>
    split at hs <;> obtain rfl := Option.some.inj hs
    case isTrue hwin =>
      obtain ⟨hpos, rfl⟩ := hwin
      refine .win rfl ?_ ?_ (by rw [ht]; exact le_rfl)
      · rw [State.wins, State.agrees, ht]
        exact decide_eq_true hpos
      · rw [hcost ht, Pc.accesses, Pc.accesses, ← hpos, lap_self]
    case isFalse hlost =>
      refine .goto rfl rfl rfl ?_ ?_ (by rw [ht]; exact le_rfl)
      · cases spurious with
        | true => rfl
        | false =>
          rw [State.wins, State.agrees, ht]
          exact decide_eq_false fun hpos => hlost ⟨hpos, rfl⟩
      · rw [hcost ht, Pc.accesses, lap_self, Pc.accesses]
        by_cases hpos : pos = s.queue.tail
        · cases spurious with
          | true =>
            rw [State.failsSpuriously, State.agrees, ht]
            simp only [hpos, lap_self, decide_true, Bool.toNat_true]
            exact le_rfl
          | false => exact absurd ⟨hpos.symm, rfl⟩ hlost
        · rw [lap_of_ne hpos]
          exact Nat.le_add_right 5 _
  case h_12 pos ht =>
    obtain rfl := Option.some.inj hs
    have hno := hwins (hquiet ht (by rintro _ _ ⟨⟩) (by rintro _ ⟨⟩))
    refine .goto rfl rfl rfl hno ?_ (Nat.zero_le _)
    rw [hcost ht, Pc.accesses, Pc.accesses]
    omega
  case h_13 data pos ht =>
    obtain rfl := Option.some.inj hs
    have hno := hwins (hquiet ht (by rintro _ _ ⟨⟩) (by rintro _ ⟨⟩))
    refine .goto rfl rfl rfl hno ?_ (Nat.zero_le _)
    rw [hcost ht, Pc.accesses, Pc.accesses]
    omega

/-! ## Every interleaving -/

/-- What a step costs thread `t`: one for an access of its own. -/
def Action.isAccessOf (t : ℕ) (a : Action T) : Bool := decide (a.thread = t) && a.accesses

/-- The action begins a call of thread `t`. -/
def Action.isCallOf (t : ℕ) (a : Action T) : Bool := decide (a.thread = t) && !a.accesses

/-- The action wins a ticket for another thread than `t`. -/
def State.winsOther (t : ℕ) (s : State T) (a : Action T) : Bool :=
  decide (a.thread ≠ t) && s.wins a

/-- The action is a compare-exchange of thread `t` that fails spuriously. -/
def State.failsOwn (t : ℕ) (s : State T) (a : Action T) : Bool :=
  decide (a.thread = t) && s.failsSpuriously a

/-- A call begins. -/
theorem State.step_call (h : s.step a = some s') (ha : a.accesses = false) :
    (s.threads a.thread).ready = true ∧
      ∃ pc : Pc T, pc.accesses s.queue.head s.queue.tail = 5 ∧ s' = s.goto a.thread pc := by
  cases a with
  | enqueue t data =>
    rw [State.step] at h
    split at h
    case isTrue hready => exact ⟨hready, _, rfl, (Option.some.inj h).symm⟩
    case isFalse => cases h
  | dequeue t =>
    rw [State.step] at h
    split at h
    case isTrue hready => exact ⟨hready, _, rfl, (Option.some.inj h).symm⟩
    case isFalse => cases h
  | advance t spurious => cases ha

/-- One step of any thread, as thread `t` sees it. -/
theorem Inv.charged (hcap : capacity.isPowerOfTwo) (h2 : 2 ≤ capacity) (h : Inv capacity s)
    (hs : s.step a = some s') :
    s'.accesses t + (a.isAccessOf t).toNat ≤ s.accesses t +
      (5 * (a.isCallOf t).toNat + 2 * (s.winsOther t a).toNat + 2 * (s.failsOwn t a).toNat) := by
  cases haccess : a.accesses with
  | false =>
    obtain ⟨hready, pc, hpc, rfl⟩ := State.step_call hs haccess
    by_cases ht : a.thread = t
    · subst ht
      have hown : (s.goto a.thread pc).accesses a.thread = 5 := by
        rw [State.accesses, State.goto_self]
        exact hpc
      rw [hown, Action.isAccessOf, Action.isCallOf, haccess, decide_eq_true rfl]
      simp only [Bool.and_false, Bool.not_false, Bool.and_self, Bool.toNat_true, Bool.toNat_false]
      omega
    · have hsame : (s.goto a.thread pc).accesses t = s.accesses t := by
        rw [State.accesses, State.accesses]
        exact congrArg _ (Function.update_of_ne (Ne.symm ht) ..)
      rw [hsame, Action.isAccessOf, decide_eq_false ht]
      exact Nat.le_add_right _ _
  | true =>
    cases a with
    | advance u spurious =>
      have hadvanced := h.advanced hcap h2 hs
      by_cases ht : u = t
      · subst ht
        have hown := hadvanced.own
        rw [Action.isAccessOf, State.failsOwn, Action.thread, decide_eq_true rfl, Bool.true_and,
          Bool.true_and, haccess, Bool.toNat_true]
        omega
      · have hother := hadvanced.other t (Ne.symm ht)
        rw [Action.isAccessOf, State.winsOther, Action.thread, decide_eq_false ht,
          decide_eq_true ht, Bool.true_and, Bool.false_and, Bool.toNat_false]
        omega
    | _ => cases haccess

/-- **A thread that repeats its loop has been overtaken.** In every interleaving of any number
of threads, from any reachable state: a thread makes at most five accesses for each call it
begins, six for the one it may be in, two for each ticket that another thread wins, and two for
each of its own compare-exchanges that fails although the values agree. -/
theorem mpscQueue_accesses (hcap : capacity.isPowerOfTwo) (h2 : 2 ≤ capacity) {q : Queue T}
    (hq : Queue.create capacity = some q) (h : (machine T).run (.fresh q) as = some s)
    (h' : (machine T).run s bs = some s') (t : ℕ) :
    bs.countP (Action.isAccessOf t) ≤ 6 + 5 * bs.countP (Action.isCallOf t) +
      2 * (machine T).countAlong (State.winsOther t) s bs +
      2 * (machine T).countAlong (State.failsOwn t) s bs := by
  have hpaid : ∀ s a s', Inv capacity s → True → (machine T).step s a = some s' →
      Inv capacity s' ∧ s'.accesses t + (a.isAccessOf t).toNat ≤ s.accesses t +
        (5 * (a.isCallOf t).toNat + 2 * (s.winsOther t a).toNat + 2 * (s.failsOwn t a).toNat) :=
    fun s a s' hi _ ha => ⟨hi.step hcap h2 ha, hi.charged hcap h2 ha⟩
  obtain ⟨-, hcost⟩ := Machine.cost_le_of_potential (fun s => s.accesses t) _ _ hpaid
    (inv_run hcap h2 hq h) (fun _ _ => trivial) h'
  have hinitial : s.accesses t ≤ 6 := Pc.accesses_le ..
  rw [Machine.costAlong_add, Machine.costAlong_add, Machine.costAlong_mul, Machine.costAlong_mul,
    Machine.costAlong_mul] at hcost
  change (machine T).countAlong (fun _ a => a.isAccessOf t) s bs + _ ≤
    _ + (5 * (machine T).countAlong (fun _ a => a.isCallOf t) s bs +
      2 * (machine T).countAlong (State.winsOther t) s bs +
      2 * (machine T).countAlong (State.failsOwn t) s bs) at hcost
  have hown : (machine T).countAlong (fun _ a => a.isAccessOf t) s bs =
      bs.countP (Action.isAccessOf t) := Machine.countAlong_of_run h'
  have hcalls : (machine T).countAlong (fun _ a => a.isCallOf t) s bs =
      bs.countP (Action.isCallOf t) := Machine.countAlong_of_run h'
  omega

/-- Two threads begin to enqueue. -/
def bothBegun : List (Action ℕ) := [.enqueue 0 7, .enqueue 1 8]

/-- Thread 1 overtakes thread 0, whose compare-exchange then fails twice: the counter has moved
on, and spuriously. -/
def overtaken : List (Action ℕ) :=
  [.advance 0 false, .advance 0 false] ++ List.replicate 5 (.advance 1 false) ++
    [.advance 0 false, .advance 0 false, .advance 0 true] ++ List.replicate 4 (.advance 0 false)

theorem mpscQueue_accesses_overtaken :
    ∃ s s', (machine ℕ).run (State.fresh ⟨1, fun i => ⟨i, none⟩, 0, 0⟩) bothBegun = some s ∧
      (machine ℕ).run s overtaken = some s' ∧ overtaken.countP (Action.isAccessOf 0) = 9 ∧
      overtaken.countP (Action.isAccessOf 0) ≤ 6 + 5 * overtaken.countP (Action.isCallOf 0) +
        2 * (machine ℕ).countAlong (State.winsOther 0) s overtaken +
        2 * (machine ℕ).countAlong (State.failsOwn 0) s overtaken := by
  obtain ⟨s, hs⟩ : ∃ s, (machine ℕ).run (State.fresh ⟨1, fun i => ⟨i, none⟩, 0, 0⟩) bothBegun =
    some s := ⟨_, rfl⟩
  obtain ⟨s', hs'⟩ : ∃ s', (machine ℕ).run s overtaken = some s' := by
    obtain rfl := Option.some.inj hs
    exact ⟨_, rfl⟩
  have htwo : Nat.isPowerOfTwo 2 := ⟨1, rfl⟩
  exact ⟨s, s', hs, hs', rfl, mpscQueue_accesses htwo le_rfl rfl hs hs' 0⟩

/-! ## Calls that are under way return -/

/-- Only the threads below `n` are in a call. -/
structure Racing (capacity n : ℕ) (s : State T) : Prop where
  inv : Inv capacity s
  ready : ∀ t ≥ n, (s.threads t).ready = true

/-- What the calls under way have left to do: every ticket that one of them wins may cost each
of the others one more lap. -/
def State.potential (n : ℕ) (s : State T) : ℕ :=
  ∑ t ∈ Finset.range n, (s.accesses t + 2 * n * (s.threads t).races)

theorem State.potential_le {n : ℕ} (s : State T) : s.potential n ≤ n * (2 * n + 6) := by
  refine (Finset.sum_le_card_nsmul _ _ (2 * n + 6) fun t _ => ?_).trans ?_
  · have hle : s.accesses t ≤ 6 := Pc.accesses_le ..
    have hraces : (s.threads t).races ≤ 1 := by cases s.threads t <;> exact of_decide_eq_true rfl
    have hmul := Nat.mul_le_mul_left (2 * n) hraces
    omega
  · rw [Finset.card_range, smul_eq_mul]

/-- An access lowers the potential. -/
theorem Racing.advance (hcap : capacity.isPowerOfTwo) (h2 : 2 ≤ capacity) {n : ℕ}
    {spurious : Bool} (h : Racing capacity n s) (hs : s.advance t spurious = some s') :
    Racing capacity n s' ∧ s'.potential n + 1 ≤
      s.potential n + 2 * (s.failsSpuriously (.advance t spurious)).toNat := by
  have hadvanced := h.inv.advanced hcap h2 hs
  have hlt : t < n := by
    refine Nat.lt_of_not_le fun hle => ?_
    rw [State.advance_of_ready (h.ready t hle)] at hs
    cases hs
  refine ⟨⟨h.inv.advance hcap h2 hs, fun u hu => ?_⟩, ?_⟩
  · rw [hadvanced.threads u (by omega)]
    exact h.ready u hu
  · have hmem := Finset.mem_range.mpr hlt
    have hcard : ((Finset.range n).erase t).card = n - 1 := by
      rw [Finset.card_erase_of_mem hmem, Finset.card_range]
    have hothers : ∑ u ∈ (Finset.range n).erase t,
        (s'.accesses u + 2 * n * (s'.threads u).races) ≤
        ∑ u ∈ (Finset.range n).erase t, (s.accesses u + 2 * n * (s.threads u).races) +
          (n - 1) * (2 * (s.wins (.advance t spurious)).toNat) := by
      rw [← hcard, ← Finset.sum_const_nat (f := fun _ => 2 * _) fun _ _ => rfl,
        ← Finset.sum_add_distrib]
      refine Finset.sum_le_sum fun u hu => ?_
      have hne := Finset.ne_of_mem_erase hu
      have hle := hadvanced.other u hne
      rw [hadvanced.threads u hne]
      omega
    have hown := hadvanced.own
    have hraces := Nat.mul_le_mul_left (2 * n) hadvanced.races
    rw [State.potential, State.potential, ← Finset.add_sum_erase _ _ hmem,
      ← Finset.add_sum_erase _ _ hmem]
    have hwon : (n - 1) * (2 * (s.wins (.advance t spurious)).toNat) ≤
        2 * n * (s.wins (.advance t spurious)).toNat := by
      rw [← Nat.mul_assoc, Nat.mul_comm (n - 1) 2]
      exact Nat.mul_le_mul_right _ (Nat.mul_le_mul_left 2 (Nat.sub_le n 1))
    rw [Nat.mul_add] at hraces
    omega

/-- A call that is under way can make an access, and its compare-exchange can succeed. -/
theorem State.exists_advance (h : (s.threads t).ready = false) :
    ∃ s', s.advance t false = some s' := by
  rw [State.advance]
  cases hpc : s.threads t with
  | idle | enqReturned ok | deqReturned ok data =>
    rw [hpc] at h
    cases h
  | enqLoadSequence data pos | deqLoadSequence pos =>
    simp only
    split
    · exact ⟨_, rfl⟩
    · split <;> exact ⟨_, rfl⟩
  | enqCas data pos | deqCas pos =>
    simp only
    split <;> exact ⟨_, rfl⟩
  | _ => exact ⟨_, rfl⟩

/-- **Calls that are under way return.** From any reachable state in which only the threads below
`n` are in a call, every schedule of their accesses has at most `n * (2 * n + 6)` of them and two
more for each compare-exchange that fails spuriously, whichever of the threads stop in the
middle. As long as a call has not returned, its thread can make an access, so a schedule that
cannot be continued has brought all of them back. -/
theorem mpscQueue_returns (hcap : capacity.isPowerOfTwo) (h2 : 2 ≤ capacity) {q : Queue T}
    (hq : Queue.create capacity = some q) (h : (machine T).run (.fresh q) as = some s) {n : ℕ}
    (hn : ∀ t ≥ n, (s.threads t).ready = true) (hbs : ∀ a ∈ bs, a.accesses = true)
    (h' : (machine T).run s bs = some s') :
    bs.length ≤ n * (2 * n + 6) + 2 * (machine T).countAlong State.failsSpuriously s bs ∧
      ∀ t, (s'.threads t).ready = true ∨ ∃ s'', s'.advance t false = some s'' := by
  have hstep : ∀ s a s', Racing capacity n s → Action.accesses a = true →
      (machine T).step s a = some s' → Racing capacity n s' ∧
        s'.potential n + 1 ≤ s.potential n + 2 * (s.failsSpuriously a).toNat := by
    intro s a s' hi ha hs
    cases a with
    | advance t spurious => exact hi.advance hcap h2 hs
    | _ => cases ha
  obtain ⟨-, hlen⟩ := Machine.length_le_of_rank 2 (State.potential n) State.failsSpuriously hstep
    ⟨inv_run hcap h2 hq h, hn⟩ hbs h'
  have hle := s.potential_le (n := n)
  refine ⟨by omega, fun t => ?_⟩
  cases hready : (s'.threads t).ready with
  | true => exact .inl rfl
  | false => exact .inr (State.exists_advance hready)

theorem mpscQueue_returns_overtaken :
    ∃ s s', (machine ℕ).run (State.fresh ⟨1, fun i => ⟨i, none⟩, 0, 0⟩) bothBegun = some s ∧
      (machine ℕ).run s overtaken = some s' ∧
      overtaken.length ≤ 2 * (2 * 2 + 6) +
        2 * (machine ℕ).countAlong State.failsSpuriously s overtaken ∧
      ∀ t, (s'.threads t).ready = true ∨ ∃ s'', s'.advance t false = some s'' := by
  have hs : (machine ℕ).run (State.fresh ⟨1, fun i => ⟨i, none⟩, 0, 0⟩) bothBegun =
      some (((State.fresh ⟨1, fun i => ⟨i, none⟩, 0, 0⟩).goto 0 (.enqLoadHead 7)).goto 1
        (.enqLoadHead 8)) := rfl
  obtain ⟨s', hs'⟩ : ∃ s', (machine ℕ).run (((State.fresh ⟨1, fun i => ⟨i, none⟩, 0, 0⟩).goto 0
      (.enqLoadHead 7)).goto 1 (.enqLoadHead 8)) overtaken = some s' := ⟨_, rfl⟩
  have htwo : Nat.isPowerOfTwo 2 := ⟨1, rfl⟩
  refine ⟨_, s', hs, hs', mpscQueue_returns htwo le_rfl rfl hs (fun t ht => ?_) ?_ hs'⟩
  · have hidle : Function.update (Function.update (fun _ => Pc.idle) 0 (.enqLoadHead 7)) 1
        (.enqLoadHead 8) t = (Pc.idle : Pc ℕ) := by
      rw [Function.update_of_ne (by omega), Function.update_of_ne (by omega)]
    exact congrArg Pc.ready hidle
  · intro a ha
    simp only [overtaken, List.mem_append, List.mem_cons, List.mem_replicate, List.not_mem_nil,
      or_false] at ha
    rcases ha with (((rfl | rfl) | ⟨-, rfl⟩) | rfl | rfl | rfl) | ⟨-, rfl⟩ <;> rfl

end MpscQueue

end Logspine
