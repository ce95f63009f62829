import Mathlib.Logic.Function.Basic
import Mathlib.Data.Nat.Notation
import Logspine.Machine

/-!
# `detail::mpsc_queue`, one atomic access at a time

The bounded queue of `detail/mpsc_queue.hpp`, with every atomic load, store and
compare-exchange of `enqueue` and `dequeue` as one step of the thread that runs
it, in any interleaving. Slots carry a sequence number; a position `pos` of the
counters `head_` and `tail_` (a *ticket*) lives in slot `pos & buffer_mask_`.

The counters are natural numbers, so the signed difference `dif` is an integer
and never wraps. A weak compare-exchange may fail spuriously; the action says
when it does. Any thread may call `enqueue` and `dequeue` (despite the name,
`drop_oldest` producers dequeue too).
-/

namespace Logspine

/-- `round_up_to_power_of_2`, on a 64-bit `std::size_t`. -/
def roundUpToPowerOf2 (n : BitVec 64) : BitVec 64 :=
  if n ≤ 1 then 2
  else
    let n := n - 1
    let n := n ||| n >>> 1
    let n := n ||| n >>> 2
    let n := n ||| n >>> 4
    let n := n ||| n >>> 8
    let n := n ||| n >>> 16
    let n := n ||| n >>> 32
    n + 1

namespace MpscQueue

variable {T : Type}

/-- `slot`: a sequence number and the item it guards (`none`: no item was ever
moved in). -/
structure Slot (T : Type) where
  /-- `sequence` -/
  sequence : ℕ
  /-- `data` -/
  data : Option T

/-- The members of `mpsc_queue`. Only the slots up to `bufferMask` exist. -/
structure Queue (T : Type) where
  /-- `buffer_mask_` -/
  bufferMask : ℕ
  /-- `buffer_` -/
  buffer : ℕ → Slot T
  /-- `head_` -/
  head : ℕ
  /-- `tail_` -/
  tail : ℕ

namespace Queue

/-- The constructor: it throws unless the capacity is a power of two. -/
def create (capacity : ℕ) : Option (Queue T) :=
  if capacity = 0 ∨ capacity &&& (capacity - 1) ≠ 0 then none
  else some
    { bufferMask := capacity - 1
      buffer := fun i => ⟨i, none⟩
      head := 0
      tail := 0 }

/-- `&buffer_[pos & buffer_mask_]` -/
def cell (q : Queue T) (pos : ℕ) : Slot T := q.buffer (pos &&& q.bufferMask)

/-- Replace the slot of `pos`. -/
def setCell (q : Queue T) (pos : ℕ) (c : Slot T) : Queue T :=
  { q with buffer := Function.update q.buffer (pos &&& q.bufferMask) c }

/-- `cell->data = std::move(data)` -/
def storeData (q : Queue T) (pos : ℕ) (data : T) : Queue T :=
  q.setCell pos { q.cell pos with data := some data }

/-- `cell->sequence.store(seq)` -/
def storeSequence (q : Queue T) (pos seq : ℕ) : Queue T :=
  q.setCell pos { q.cell pos with sequence := seq }

end Queue

/-- Where a thread is, with the locals that are in scope there. -/
inductive Pc (T : Type) where
  /-- no call of this thread has begun -/
  | idle : Pc T
  /-- `enqueue`: `pos = head_.load()` -/
  | enqLoadHead (data : T) : Pc T
  /-- `enqueue`: `seq = cell->sequence.load()` and the branch on `dif` -/
  | enqLoadSequence (data : T) (pos : ℕ) : Pc T
  /-- `enqueue`: `head_.compare_exchange_weak(pos, pos + 1)` -/
  | enqCas (data : T) (pos : ℕ) : Pc T
  /-- `enqueue`: `cell->data = std::move(data)` -/
  | enqStoreData (data : T) (pos : ℕ) : Pc T
  /-- `enqueue`: `cell->sequence.store(pos + 1)` -/
  | enqStoreSequence (pos : ℕ) : Pc T
  /-- `enqueue` has returned -/
  | enqReturned (ok : Bool) : Pc T
  /-- `dequeue`: `pos = tail_.load()` -/
  | deqLoadTail : Pc T
  /-- `dequeue`: `seq = cell->sequence.load()` and the branch on `dif` -/
  | deqLoadSequence (pos : ℕ) : Pc T
  /-- `dequeue`: `tail_.compare_exchange_weak(pos, pos + 1)` -/
  | deqCas (pos : ℕ) : Pc T
  /-- `dequeue`: `data = std::move(cell->data)` -/
  | deqLoadData (pos : ℕ) : Pc T
  /-- `dequeue`: `cell->sequence.store(pos + buffer_mask_ + 1)` -/
  | deqStoreSequence (data : Option T) (pos : ℕ) : Pc T
  /-- `dequeue` has returned `ok` and left `data` in its argument -/
  | deqReturned (ok : Bool) (data : Option T) : Pc T

namespace Pc

/-- The thread can begin a call. -/
def ready : Pc T → Bool
  | idle | enqReturned _ | deqReturned _ _ => true
  | _ => false

/-- The ticket of an `enqueue` between its winning compare-exchange and its
releasing store. -/
def writing : Pc T → Option ℕ
  | enqStoreData _ pos | enqStoreSequence pos => some pos
  | _ => none

/-- The ticket of a `dequeue` between its winning compare-exchange and its
releasing store. -/
def reading : Pc T → Option ℕ
  | deqLoadData pos | deqStoreSequence _ pos => some pos
  | _ => none

end Pc

/-- History variables: no step reads them. -/
structure History (T : Type) where
  /-- at index `t`, the argument of the `enqueue` that won ticket `t` -/
  claimed : List T
  /-- the tickets whose `enqueue` has made its releasing store -/
  published : List ℕ
  /-- the tickets won by a `dequeue`, in the order of the winning steps -/
  left : List ℕ
  /-- what each finished `dequeue` obtained, with its ticket -/
  obtained : List (ℕ × Option T)
  /-- the tickets whose `dequeue` has made its releasing store -/
  released : List ℕ

/-- The queue, the threads that use it, and the history. -/
structure State (T : Type) where
  /-- the queue object -/
  queue : Queue T
  /-- where each thread is -/
  threads : ℕ → Pc T
  /-- the history -/
  history : History T

/-- A fresh queue that no thread has called yet. -/
def State.fresh (q : Queue T) : State T :=
  { queue := q
    threads := fun _ => .idle
    history := ⟨[], [], [], [], []⟩ }

/-- What a thread may do next. -/
inductive Action (T : Type) where
  /-- the thread calls `enqueue(data)` -/
  | enqueue (thread : ℕ) (data : T) : Action T
  /-- the thread calls `dequeue` -/
  | dequeue (thread : ℕ) : Action T
  /-- the thread makes its next atomic access; `spurious` lets a weak
  compare-exchange fail although the values agree -/
  | advance (thread : ℕ) (spurious : Bool) : Action T

namespace State

/-- Thread `t` moves on to `pc`. -/
def goto (s : State T) (t : ℕ) (pc : Pc T) : State T :=
  { s with threads := Function.update s.threads t pc }

@[simp, grind =] theorem goto_self (s : State T) (t : ℕ) (pc : Pc T) :
    (s.goto t pc).threads t = pc := Function.update_self ..

/-- The next atomic access of thread `t`. -/
def advance (s : State T) (t : ℕ) (spurious : Bool) : Option (State T) :=
  match s.threads t with
  | .idle | .enqReturned _ | .deqReturned _ _ => none
  | .enqLoadHead data => some (s.goto t (.enqLoadSequence data s.queue.head))
  | .enqLoadSequence data pos =>
    let dif : Int := (s.queue.cell pos).sequence - pos
    if dif = 0 then some (s.goto t (.enqCas data pos))
    else if dif < 0 then some (s.goto t (.enqReturned false)) -- Full
    else some (s.goto t (.enqLoadHead data))
  | .enqCas data pos =>
    if s.queue.head = pos ∧ spurious = false then
      some ({ s with
        queue := { s.queue with head := pos + 1 }
        history := { s.history with claimed := s.history.claimed ++ [data] } }.goto t
          (.enqStoreData data pos))
    else some (s.goto t (.enqLoadSequence data s.queue.head))
  | .enqStoreData data pos =>
    some ({ s with queue := s.queue.storeData pos data }.goto t (.enqStoreSequence pos))
  | .enqStoreSequence pos =>
    some ({ s with
      queue := s.queue.storeSequence pos (pos + 1)
      history := { s.history with published := s.history.published ++ [pos] } }.goto t
        (.enqReturned true))
  | .deqLoadTail => some (s.goto t (.deqLoadSequence s.queue.tail))
  | .deqLoadSequence pos =>
    let dif : Int := (s.queue.cell pos).sequence - (pos + 1 : ℕ)
    if dif = 0 then some (s.goto t (.deqCas pos))
    else if dif < 0 then some (s.goto t (.deqReturned false none)) -- Empty
    else some (s.goto t .deqLoadTail)
  | .deqCas pos =>
    if s.queue.tail = pos ∧ spurious = false then
      some ({ s with
        queue := { s.queue with tail := pos + 1 }
        history := { s.history with left := s.history.left ++ [pos] } }.goto t (.deqLoadData pos))
    else some (s.goto t (.deqLoadSequence s.queue.tail))
  | .deqLoadData pos => some (s.goto t (.deqStoreSequence (s.queue.cell pos).data pos))
  | .deqStoreSequence data pos =>
    some ({ s with
      queue := s.queue.storeSequence pos (pos + s.queue.bufferMask + 1)
      history := { s.history with
        obtained := s.history.obtained ++ [(pos, data)]
        released := s.history.released ++ [pos] } }.goto t (.deqReturned true data))

/-- One action. -/
def step (s : State T) : Action T → Option (State T)
  | .enqueue t data => if (s.threads t).ready then some (s.goto t (.enqLoadHead data)) else none
  | .dequeue t => if (s.threads t).ready then some (s.goto t .deqLoadTail) else none
  | .advance t spurious => s.advance t spurious

end State

/-- The queue and its threads as a machine. -/
def machine (T : Type) : Machine (State T) (Action T) := ⟨State.step⟩

end MpscQueue

end Logspine
