import Mathlib.Logic.Function.Basic
import Mathlib.Order.WithBot
import Logspine.Dispatcher
import Logspine.Machine
import Logspine.MpscQueue
import Logspine.TicketQueue

/-!
# `async_dispatcher`, one shared access at a time

Any number of threads call `dispatch` and `flush`, one worker runs `worker_loop`,
and one thread runs `shutdown`. Every atomic load, store and compare-exchange,
every operation of the queue, every lock and unlock of `mutex_` and every call of
a sink is one step; the scheduler picks the order.

* The queue is a `TicketQueue`: an operation takes effect in one step. With
  `atomicQueue = false` an operation may also be refused although there is room
  (or an item), as `mpsc_queue` does while another operation is half done.
* Every `wait_for` can time out, so a wait is: release `mutex_`, then lock it again
  at any later moment. Notifications change nothing in this picture.
* `completed_flush_id_.wait(old)` blocks while the value is `old`.
* The atomic variables are sequentially consistent, and a notification of
  `completed_flush_id_` is part of the store or compare-exchange before it. The source
  uses `release`, `acquire` and `relaxed` without a fence: there a thread may read an old
  value of one variable after a new one of another.
* Flush ids are natural numbers, and `std::numeric_limits<std::uint64_t>::max()` is
  the top element `⊤` above all of them; the other counters are natural numbers.

`History` collects what happened; no step reads it.
-/

universe u

namespace Logspine

namespace AsyncDispatcher

variable {E : Type}

/-! ## Data -/

/-- `overflow_policy` -/
inductive OverflowPolicy where
  | block : OverflowPolicy
  | dropNewest : OverflowPolicy
  | dropOldest : OverflowPolicy
  deriving DecidableEq

/-- `async_options` -/
structure AsyncOptions where
  /-- `queue_capacity` -/
  queueCapacity : BitVec 64 := 8192
  /-- `overflow` -/
  overflow : OverflowPolicy := .dropNewest
  /-- `batch_size` -/
  batchSize : ℕ := 64
  /-- `block_retry_timeout`, in milliseconds -/
  blockRetryTimeout : Int := 5000

/-- The options, and whether an operation of the queue is one indivisible step. -/
structure Config where
  /-- `options_` -/
  options : AsyncOptions
  /-- an operation of the queue is refused only when the queue is full (empty) -/
  atomicQueue : Bool

/-- The capacity of `queue_`, as the constructor computes it. -/
def Config.capacity (cfg : Config) : ℕ := (roundUpToPowerOf2 cfg.options.queueCapacity).toNat

/-- `queue_item`; an event comes with the number of the `dispatch` call that
brought it, in the order in which the calls began. -/
inductive QueueItem (E : Type) where
  /-- a `log_event` -/
  | event (call : ℕ) (e : E) : QueueItem E
  /-- a `flush_request` -/
  | flushRequest (id : ℕ) : QueueItem E
  deriving DecidableEq

/-- An item with the ticket it had in the queue. -/
abbrev Ticketed (E : Type) : Type := ℕ × QueueItem E

/-- An increment of `dropped_events_`. -/
inductive Drop where
  /-- the event of this `dispatch` call was refused -/
  | refused (call : ℕ) : Drop
  /-- the item with this ticket was taken out by a `drop_oldest` producer -/
  | evicted (ticket : ℕ) : Drop
  deriving DecidableEq

/-- Who holds `mutex_`. -/
inductive Owner where
  | thread (t : ℕ) : Owner
  | worker : Owner
  | shutdown : Owner
  deriving DecidableEq

/-! ## Program counters

Each place carries the locals that are in scope there. -/

/-- Places of `enqueue_event`. -/
inductive EventPc (E : Type) where
  /-- `if (stopping_.load())` on entry -/
  | enter : EventPc E
  /-- the first `queue_->enqueue(event)` -/
  | first : EventPc E
  /-- `queue_->enqueue(event)` in the loop -/
  | retry : EventPc E
  /-- `if (stopping_.load())` in the loop -/
  | stopping : EventPc E
  /-- `drop_oldest`: `queue_->dequeue(dummy)` -/
  | evict : EventPc E
  /-- `drop_oldest`: `dropped_events_.fetch_add(1)` for the item just taken out -/
  | evicted (ticket : ℕ) (item : QueueItem E) : EventPc E
  /-- `block`: `lock.lock()` -/
  | waitLock : EventPc E
  /-- `block`: `queue_not_full_.wait_for(lock, 10ms)` begins -/
  | wait : EventPc E
  /-- `block`: inside `wait_for`, without the lock -/
  | waiting : EventPc E
  /-- `dropped_events_.fetch_add(1); return false;` -/
  | drop : EventPc E
  /-- after a successful `enqueue`: `if (sleeping_.load())` -/
  | sleeping : EventPc E
  /-- locking `mutex_` to wake the worker -/
  | lock : EventPc E
  /-- `sleeping_.store(false); queue_not_empty_.notify_one();` -/
  | wake : EventPc E
  /-- the lock goes out of scope, the call returns -/
  | leave : EventPc E

/-- Places of `enqueue_flush_request`. -/
inductive RequestPc where
  /-- `if (stopping_.load())` on entry -/
  | enter : RequestPc
  /-- `queue_->enqueue(item)` -/
  | enqueue : RequestPc
  /-- `if (stopping_.load())` in the loop -/
  | stopping : RequestPc
  /-- `lock.lock()` -/
  | waitLock : RequestPc
  /-- `queue_not_full_.wait_for(lock, 10ms)` begins -/
  | wait : RequestPc
  /-- inside `wait_for`, without the lock -/
  | waiting : RequestPc
  /-- `current = completed_flush_id_.load()` -/
  | raiseLoad : RequestPc
  /-- `current < flush_id && !compare_exchange_weak(current, flush_id)` -/
  | raiseCas (current : WithTop ℕ) : RequestPc
  /-- after a successful `enqueue`: `if (sleeping_.load())` -/
  | sleeping : RequestPc
  /-- locking `mutex_` to wake the worker -/
  | lock : RequestPc
  /-- `sleeping_.store(false); queue_not_empty_.notify_one();` -/
  | wake : RequestPc
  /-- the lock goes out of scope, the call returns -/
  | leave : RequestPc

/-- Places of `flush` after its request is on its way. -/
inductive FlushPc where
  /-- `completed_flush_id_.load() < flush_id` -/
  | test : FlushPc
  /-- the load that is the argument of `wait` -/
  | argument : FlushPc
  /-- `completed_flush_id_.wait(old)` -/
  | wait (old : WithTop ℕ) : FlushPc

/-- Who called `enqueue_flush_request`. -/
inductive Caller (E : Type) where
  /-- `flush`, which began when the calls `before` had returned -/
  | flush (before : List ℕ) : Caller E
  /-- `enqueue_event`, which took the request out of the queue -/
  | evictor (call : ℕ) (e : E) (owns : Bool) : Caller E

/-- Where a client thread is. `owns` says that the thread's `lock` holds `mutex_`. -/
inductive Pc (E : Type) where
  /-- outside any call -/
  | idle : Pc E
  /-- in `enqueue_event` -/
  | event (call : ℕ) (e : E) (owns : Bool) (pc : EventPc E) : Pc E
  /-- in `enqueue_flush_request` -/
  | request (id : ℕ) (caller : Caller E) (owns : Bool) (pc : RequestPc) : Pc E
  /-- in `flush`, before `next_flush_id_.fetch_add(1)` -/
  | flushDraw (before : List ℕ) : Pc E
  /-- in `flush`, in the wait loop -/
  | flush (id : ℕ) (before : List ℕ) (pc : FlushPc) : Pc E

instance (pc : Pc E) : Decidable (pc = .idle) :=
  match pc with
  | .idle => .isTrue rfl
  | .event .. => .isFalse nofun
  | .request .. => .isFalse nofun
  | .flushDraw _ => .isFalse nofun
  | .flush .. => .isFalse nofun

/-- Places of `worker_loop`. -/
inductive WorkerPc (E : Type) where
  /-- `while (!stopping_.load() && ...` -/
  | loopTest : WorkerPc E
  /-- `... !queue_->dequeue(item))` -/
  | tryDequeue : WorkerPc E
  /-- `sleeping_.store(true)` -/
  | setSleeping : WorkerPc E
  /-- `if (queue_->dequeue(item))` -/
  | secondDequeue : WorkerPc E
  /-- `sleeping_.store(false); break;` -/
  | clearSleeping (item : Ticketed E) : WorkerPc E
  /-- `if (stopping_.load()) break;` -/
  | sleepTest : WorkerPc E
  /-- `std::unique_lock lock(mutex_)` -/
  | waitLock : WorkerPc E
  /-- the wait predicate: `stopping_.load() || ...` -/
  | waitStopping : WorkerPc E
  /-- the wait predicate: `... !sleeping_.load()` -/
  | waitSleeping : WorkerPc E
  /-- inside `wait_for`, without the lock -/
  | waiting : WorkerPc E
  /-- the lock goes out of scope -/
  | waitDone : WorkerPc E
  /-- `if (stopping_.load())` after the wait loop, with the item it dequeued -/
  | stopTest (item : Option (Ticketed E)) : WorkerPc E
  /-- stopping: `while (queue_->dequeue(item))` -/
  | drain (batch : List (Ticketed E)) : WorkerPc E
  /-- running: `while (batch.size() < batch_size && queue_->dequeue(item))` -/
  | fill (batch : List (Ticketed E)) : WorkerPc E
  /-- `std::scoped_lock lock(mutex_)` -/
  | notifyLock (batch : List (Ticketed E)) : WorkerPc E
  /-- `queue_not_full_.notify_all()`, and the lock goes out of scope -/
  | notifyUnlock (batch : List (Ticketed E)) : WorkerPc E
  /-- `safe_write`: the call on sink `k` -/
  | write (ticket call : ℕ) (e : E) (rest : List (Ticketed E)) (k : ℕ) : WorkerPc E
  /-- `safe_write`: `sink_failures_.fetch_add(1)` after sink `k` threw -/
  | writeFailed (ticket call : ℕ) (e : E) (rest : List (Ticketed E)) (k : ℕ) : WorkerPc E
  /-- `safe_flush_sinks`: the call on sink `k` -/
  | flushSinks (ticket id : ℕ) (rest : List (Ticketed E)) (k : ℕ) : WorkerPc E
  /-- `safe_flush_sinks`: `sink_failures_.fetch_add(1)` after sink `k` threw -/
  | flushFailed (ticket id : ℕ) (rest : List (Ticketed E)) (k : ℕ) : WorkerPc E
  /-- `current = completed_flush_id_.load()` -/
  | raiseLoad (ticket id : ℕ) (rest : List (Ticketed E)) : WorkerPc E
  /-- `current < fid && !compare_exchange_weak(current, fid)` -/
  | raiseCas (ticket id : ℕ) (rest : List (Ticketed E)) (current : WithTop ℕ) : WorkerPc E
  /-- the last `safe_flush_sinks`: the call on sink `k` -/
  | finalFlush (k : ℕ) : WorkerPc E
  /-- the last `safe_flush_sinks`: `sink_failures_.fetch_add(1)` after sink `k` threw -/
  | finalFailed (k : ℕ) : WorkerPc E
  /-- the worker thread has ended -/
  | exited : WorkerPc E

/-- Places of `shutdown`. -/
inductive ShutdownPc where
  /-- `stopping_.exchange(true)` is still to come -/
  | notStarted : ShutdownPc
  /-- `std::scoped_lock lock(mutex_)` -/
  | lock : ShutdownPc
  /-- `sleeping_.store(false)`, and the notifications -/
  | clearSleeping : ShutdownPc
  /-- the lock goes out of scope -/
  | unlock : ShutdownPc
  /-- `current = completed_flush_id_.load()` -/
  | raiseLoad : ShutdownPc
  /-- `!compare_exchange_weak(current, max)` -/
  | raiseCas (current : WithTop ℕ) : ShutdownPc
  /-- `worker_.join()` -/
  | join : ShutdownPc
  /-- `shutdown` has returned -/
  | joined : ShutdownPc
  deriving DecidableEq

/-! ## The state -/

/-- History variables. -/
structure History (E : Type) where
  /-- the `dispatch` calls that began, with the calling thread -/
  dispatched : List (ℕ × E)
  /-- the numbers of the `dispatch` calls that returned -/
  returned : List ℕ
  /-- the increments of `dropped_events_` -/
  drops : List Drop
  /-- the tickets taken out by `drop_oldest` producers, with the thread and its `dispatch` call -/
  evicted : List (ℕ × ℕ × ℕ)
  /-- the length of `accepted` when each flush id was drawn -/
  draws : List ℕ
  /-- the items the worker has finished with -/
  done : List (Ticketed E)
  /-- the items the worker took out and then overwrote -/
  lost : List (Ticketed E)
  /-- the calls made on the sinks, with the tickets of the events -/
  calls : List (SinkCall (ℕ × E))

/-- The dispatcher with all its threads. -/
structure State (E : Type) where
  /-- `queue_` -/
  queue : TicketQueue (QueueItem E)
  /-- `mutex_` -/
  mutex : Option Owner
  /-- `stopping_` -/
  stopping : Bool
  /-- `sleeping_` -/
  sleeping : Bool
  /-- `completed_flush_id_` -/
  completedFlushId : WithTop ℕ
  /-- `next_flush_id_` -/
  nextFlushId : ℕ
  /-- `dropped_events_` -/
  droppedEvents : ℕ
  /-- `sink_failures_` -/
  sinkFailures : ℕ
  /-- `sinks_` -/
  sinks : List (Sink E)
  /-- the client threads -/
  threads : ℕ → Pc E
  /-- the worker thread -/
  worker : WorkerPc E
  /-- the thread that runs `shutdown` -/
  shutdown : ShutdownPc
  /-- what happened so far -/
  history : History E

/-- A dispatcher just built, before any call. -/
def State.initial (sinks : List (Sink E)) : State E :=
  { queue := .empty
    mutex := none
    stopping := false
    sleeping := false
    completedFlushId := WithTop.some 0
    nextFlushId := 0
    droppedEvents := 0
    sinkFailures := 0
    sinks := sinks
    threads := fun _ => .idle
    worker := .loopTest
    shutdown := .notStarted
    history := ⟨[], [], [], [], [], [], [], []⟩ }

/-- What may happen next. The flag resolves what the program leaves open: a queue
operation succeeds (`true`) or is refused, a weak compare-exchange fails spuriously
(`false`), a wait ends by a notification (`true`) or for good by a timeout. -/
inductive Action (E : Type) where
  /-- thread `t` calls `dispatch(e)` -/
  | dispatch (t : ℕ) (e : E) : Action E
  /-- thread `t` calls `flush()` -/
  | flush (t : ℕ) : Action E
  /-- thread `t` makes its next step -/
  | thread (t : ℕ) (ok : Bool) : Action E
  /-- the worker makes its next step -/
  | worker (ok : Bool) : Action E
  /-- `shutdown` makes its next step -/
  | shutdown (ok : Bool) : Action E

/-! ## Steps shared by several places -/

section Shared

variable {X : Type u}

/-- `queue_->enqueue(x)` succeeds, or is refused. -/
def Config.enqueue (cfg : Config) (q : TicketQueue (QueueItem E)) (x : QueueItem E) (ok : Bool)
    (success : TicketQueue (QueueItem E) → X) (refused : X) : Option X :=
  if ok then (q.enqueue cfg.capacity x).map success
  else if cfg.atomicQueue && (q.enqueue cfg.capacity x).isSome then none
  else some refused

/-- `queue_->dequeue(item)` succeeds, or is refused. -/
def Config.dequeue (cfg : Config) (q : TicketQueue (QueueItem E)) (ok : Bool)
    (success : Ticketed E → TicketQueue (QueueItem E) → X) (refused : X) : Option X :=
  if ok then q.dequeue.map fun r => success r.1 r.2
  else if cfg.atomicQueue && q.dequeue.isSome then none
  else some refused

/-- What an `enqueue` can do: the item gets the next ticket, or nothing happens, which takes a
full queue when operations are atomic. -/
theorem Config.enqueue_cases {cfg : Config} {q : TicketQueue (QueueItem E)} {x : QueueItem E}
    {ok : Bool} {success : TicketQueue (QueueItem E) → X} {refused r : X}
    (h : cfg.enqueue q x ok success refused = some r) :
    (q.HasRoom cfg.capacity ∧ r = success (q.put x)) ∨
      (r = refused ∧ (cfg.atomicQueue = true → ¬ q.HasRoom cfg.capacity)) := by
  rw [Config.enqueue] at h
  split at h
  · obtain ⟨q', hq, rfl⟩ := Option.map_eq_some_iff.mp h
    obtain ⟨hroom, rfl⟩ := TicketQueue.enqueue_eq_some.mp hq
    exact .inl ⟨hroom, rfl⟩
  · obtain ⟨hnone, hr⟩ := Option.ite_none_left_eq_some.mp h
    refine .inr ⟨(Option.some.inj hr).symm, fun ha hroom => hnone ?_⟩
    rw [ha, TicketQueue.enqueue_eq_some.mpr ⟨hroom, rfl⟩]
    rfl

/-- What a `dequeue` can do: it takes the oldest item, or nothing happens, which
takes an empty queue when operations are atomic. -/
theorem Config.dequeue_cases {cfg : Config} {q : TicketQueue (QueueItem E)} {ok : Bool}
    {success : Ticketed E → TicketQueue (QueueItem E) → X} {refused r : X}
    (h : cfg.dequeue q ok success refused = some r) :
    (ok = true ∧ ∃ x, q.accepted[q.taken]? = some x ∧
      r = success (q.taken, x) { q with taken := q.taken + 1 }) ∨
    (ok = false ∧ r = refused ∧ (cfg.atomicQueue = true → q.accepted.length ≤ q.taken)) := by
  rw [Config.dequeue] at h
  split at h
  case isTrue hok =>
    obtain ⟨⟨⟨p, x⟩, q'⟩, hq, rfl⟩ := Option.map_eq_some_iff.mp h
    obtain ⟨rfl, hx, rfl⟩ := TicketQueue.dequeue_eq_some.mp hq
    exact .inl ⟨hok, x, hx, rfl⟩
  case isFalse hok =>
    split at h
    · cases h
    case isFalse hq =>
      refine .inr ⟨Bool.eq_false_iff.mpr hok, (Option.some.inj h).symm, fun ha => ?_⟩
      rw [ha, Bool.true_and, Bool.not_eq_true, Option.isSome_eq_false_iff,
        Option.isNone_iff_eq_none] at hq
      exact TicketQueue.dequeue_eq_none.mp hq

end Shared

namespace State

/-- Thread `t` moves on to `pc`. -/
def goto (s : State E) (t : ℕ) (pc : Pc E) : State E :=
  { s with threads := Function.update s.threads t pc }

/-- The worker moves on to `pc`. -/
def work (s : State E) (pc : WorkerPc E) : State E := { s with worker := pc }

/-- Lock `mutex_`: possible when nobody holds it. -/
def lock (s : State E) (o : Owner) : Option (State E) :=
  if s.mutex = none then some { s with mutex := some o } else none

/-- One compare-exchange of `completed_flush_id_`, from `current` to `id`. -/
def casCompleted (s : State E) (current id : WithTop ℕ) (ok : Bool) : Option (State E) :=
  if s.completedFlushId = current ∧ ok = true then some { s with completedFlushId := id } else none

theorem lock_eq_some {s s' : State E} {o : Owner} :
    s.lock o = some s' ↔ s.mutex = none ∧ s' = { s with mutex := some o } := by
  rw [lock, Option.ite_none_right_eq_some, Option.some.injEq, eq_comm (a := s')]

theorem casCompleted_eq_some {s s' : State E} {current id : WithTop ℕ} {ok : Bool} :
    s.casCompleted current id ok = some s' ↔
      (s.completedFlushId = current ∧ ok = true) ∧ s' = { s with completedFlushId := id } := by
  rw [casCompleted, Option.ite_none_right_eq_some, Option.some.injEq, eq_comm (a := s')]

end State

/-! ## Client threads -/

/-- The next step of `enqueue_event`. -/
def enqueueEvent (cfg : Config) (s : State E) (t call : ℕ) (e : E) (owns ok : Bool) :
    EventPc E → Option (State E)
  | .enter => some (s.goto t (.event call e owns (if s.stopping then .drop else .first)))
  | .first =>
    cfg.enqueue s.queue (.event call e) ok
      (fun q => { s with queue := q }.goto t (.event call e owns .sleeping))
      (s.goto t (.event call e owns .retry))
  | .retry =>
    cfg.enqueue s.queue (.event call e) ok
      (fun q => { s with queue := q }.goto t (.event call e owns .sleeping))
      (s.goto t (.event call e owns .stopping))
  | .stopping =>
    if s.stopping then some (s.goto t (.event call e owns .drop))
    else match cfg.options.overflow with
      | .dropNewest => some (s.goto t (.event call e owns .drop))
      | .dropOldest => some (s.goto t (.event call e owns .evict))
      | .block => some (s.goto t (.event call e owns (if owns then .wait else .waitLock)))
  | .evict =>
    cfg.dequeue s.queue ok
      (fun x q =>
        { s with
          queue := q
          history := { s.history with evicted := s.history.evicted ++ [(x.1, t, call)] } }.goto t
            (.event call e owns (.evicted x.1 x.2)))
      (s.goto t (.event call e owns .retry))
  | .evicted ticket item =>
    let s := { s with
      droppedEvents := s.droppedEvents + 1
      history := { s.history with drops := s.history.drops ++ [Drop.evicted ticket] } }
    match item with
    | .flushRequest id => some (s.goto t (.request id (.evictor call e owns) false .enter))
    | .event _ _ => some (s.goto t (.event call e owns .retry))
  | .waitLock => (s.lock (.thread t)).map fun s => s.goto t (.event call e true .wait)
  | .wait => some ({ s with mutex := none }.goto t (.event call e false .waiting))
  | .waiting =>
    -- only a wait that timed out looks at the clock, and only with a positive timeout
    if ok then (s.lock (.thread t)).map fun s => s.goto t (.event call e true .retry)
    else if 0 < cfg.options.blockRetryTimeout then
      (s.lock (.thread t)).map fun s => s.goto t (.event call e true .drop)
    else none
  | .drop =>
    some ({ s with
      droppedEvents := s.droppedEvents + 1
      history := { s.history with drops := s.history.drops ++ [Drop.refused call] } }.goto t
        (.event call e owns .leave))
  | .sleeping =>
    if s.sleeping then some (s.goto t (.event call e owns (if owns then .wake else .lock)))
    else some (s.goto t (.event call e owns .leave))
  | .lock => (s.lock (.thread t)).map fun s => s.goto t (.event call e true .wake)
  | .wake => some ({ s with sleeping := false }.goto t (.event call e owns .leave))
  | .leave =>
    some ({ s with
      mutex := if owns then none else s.mutex
      history := { s.history with returned := s.history.returned ++ [call] } }.goto t .idle)

/-- Where a thread goes on when `enqueue_flush_request(id)` returns. -/
def Caller.resume (id : ℕ) : Caller E → Pc E
  | .flush before => .flush id before .test
  | .evictor call e owns => .event call e owns .retry

/-- The next step of `enqueue_flush_request`. -/
def enqueueFlushRequest (cfg : Config) (s : State E) (t id : ℕ) (caller : Caller E)
    (owns ok : Bool) : RequestPc → Option (State E)
  | .enter =>
    if s.stopping then some (s.goto t (.request id caller owns .raiseLoad))
    else some (s.goto t (.request id caller owns .enqueue))
  | .enqueue =>
    cfg.enqueue s.queue (.flushRequest id) ok
      (fun q => { s with queue := q }.goto t (.request id caller owns .sleeping))
      (s.goto t (.request id caller owns .stopping))
  | .stopping =>
    if s.stopping then some (s.goto t (.request id caller owns .raiseLoad))
    else some (s.goto t (.request id caller owns (if owns then .wait else .waitLock)))
  | .waitLock => (s.lock (.thread t)).map fun s => s.goto t (.request id caller true .wait)
  | .wait => some ({ s with mutex := none }.goto t (.request id caller false .waiting))
  | .waiting => (s.lock (.thread t)).map fun s => s.goto t (.request id caller true .enqueue)
  | .raiseLoad => some (s.goto t (.request id caller owns (.raiseCas s.completedFlushId)))
  | .raiseCas current =>
    if current < WithTop.some id then
      match s.casCompleted current (WithTop.some id) ok with
      | some s' => some (s'.goto t (.request id caller owns .leave))
      | none => some (s.goto t (.request id caller owns (.raiseCas s.completedFlushId)))
    else some (s.goto t (.request id caller owns .leave))
  | .sleeping =>
    if s.sleeping then some (s.goto t (.request id caller owns (if owns then .wake else .lock)))
    else some (s.goto t (.request id caller owns .leave))
  | .lock => (s.lock (.thread t)).map fun s => s.goto t (.request id caller true .wake)
  | .wake => some ({ s with sleeping := false }.goto t (.request id caller owns .leave))
  | .leave =>
    some ({ s with mutex := if owns then none else s.mutex }.goto t (caller.resume id))

/-- The next step of the wait loop of `flush`. -/
def flushWait (s : State E) (t id : ℕ) (before : List ℕ) : FlushPc → Option (State E)
  | .test =>
    if s.completedFlushId < WithTop.some id then some (s.goto t (.flush id before .argument))
    else some (s.goto t .idle)
  | .argument => some (s.goto t (.flush id before (.wait s.completedFlushId)))
  | .wait old =>
    if s.completedFlushId = old then none else some (s.goto t (.flush id before .test))

/-- The next step of client thread `t`. -/
def threadStep (cfg : Config) (s : State E) (t : ℕ) (ok : Bool) : Option (State E) :=
  match s.threads t with
  | .idle => none
  | .event call e owns pc => enqueueEvent cfg s t call e owns ok pc
  | .request id caller owns pc => enqueueFlushRequest cfg s t id caller owns ok pc
  | .flushDraw before =>
    some ({ s with
      nextFlushId := s.nextFlushId + 1
      history := { s.history with draws := s.history.draws ++ [s.queue.accepted.length] } }.goto t
        (.request (s.nextFlushId + 1) (.flush before) false .enter))
  | .flush id before pc => flushWait s t id before pc

/-! ## The worker -/

/-- The place where the rest of a batch is processed. -/
def processBatch : List (Ticketed E) → WorkerPc E
  | [] => .loopTest
  | (ticket, .event call e) :: rest => .write ticket call e rest 0
  | (ticket, .flushRequest id) :: rest => .flushSinks ticket id rest 0

/-- `batch.size() < options_.batch_size`, while filling a batch. -/
def fillBatch (cfg : Config) (batch : List (Ticketed E)) : WorkerPc E :=
  if batch.length < cfg.options.batchSize then .fill batch else .notifyLock batch

/-- `batch.size() >= options_.batch_size`, while draining the queue. -/
def drainBatch (cfg : Config) (batch : List (Ticketed E)) : WorkerPc E :=
  if batch.length ≥ cfg.options.batchSize then .notifyLock batch else .drain batch

/-- One guarded call of the worker on sink `k`; the place to go on at depends on
whether it threw. -/
def callSink (s : State E) (k : ℕ) (op : SinkOp (ℕ × E)) (next failed : WorkerPc E) :
    Option (State E) :=
  s.sinks[k]?.map fun sink =>
    { s with
      sinks := s.sinks.set k (sink.call (op.map Prod.snd)).1
      worker := if (sink.call (op.map Prod.snd)).2 then failed else next
      history := { s.history with calls := s.history.calls ++ [⟨k, op⟩] } }

/-- `sink_failures_.fetch_add(1)` -/
def countFailure (s : State E) (next : WorkerPc E) : State E :=
  { s with sinkFailures := s.sinkFailures + 1, worker := next }

/-- The worker is done with the first item of its batch. -/
def finish (s : State E) (x : Ticketed E) (rest : List (Ticketed E)) : State E :=
  { s with
    worker := processBatch rest
    history := { s.history with done := s.history.done ++ [x] } }

/-- The next step of `worker_loop`. -/
def workerStep (cfg : Config) (s : State E) (ok : Bool) : Option (State E) :=
  match s.worker with
  | .loopTest => some (s.work (if s.stopping then .stopTest none else .tryDequeue))
  | .tryDequeue =>
    cfg.dequeue s.queue ok (fun x q => { s with queue := q }.work (.stopTest (some x)))
      (s.work .setSleeping)
  | .setSleeping => some ({ s with sleeping := true }.work .secondDequeue)
  | .secondDequeue =>
    cfg.dequeue s.queue ok (fun x q => { s with queue := q }.work (.clearSleeping x))
      (s.work .sleepTest)
  | .clearSleeping x => some ({ s with sleeping := false }.work (.stopTest (some x)))
  | .sleepTest => some (s.work (if s.stopping then .stopTest none else .waitLock))
  | .waitLock => (s.lock .worker).map fun s => s.work .waitStopping
  | .waitStopping => some (s.work (if s.stopping then .waitDone else .waitSleeping))
  | .waitSleeping =>
    if s.sleeping then some ({ s with mutex := none }.work .waiting) else some (s.work .waitDone)
  | .waiting => (s.lock .worker).map fun s => s.work (if ok then .waitStopping else .waitDone)
  | .waitDone => some ({ s with mutex := none }.work .loopTest)
  | .stopTest item =>
    if s.stopping then
      -- the next dequeue overwrites `item`, or it is destroyed
      some ({ s with history := { s.history with lost := s.history.lost ++ item.toList } }.work
        (.drain []))
    else some (s.work (fillBatch cfg item.toList))
  | .drain batch =>
    cfg.dequeue s.queue ok
      (fun x q => { s with queue := q }.work (drainBatch cfg (batch ++ [x])))
      (s.work (if batch.isEmpty then .finalFlush 0 else .notifyLock batch))
  | .fill batch =>
    cfg.dequeue s.queue ok
      (fun x q => { s with queue := q }.work (fillBatch cfg (batch ++ [x])))
      (s.work (.notifyLock batch))
  | .notifyLock batch => (s.lock .worker).map fun s => s.work (.notifyUnlock batch)
  | .notifyUnlock batch => some ({ s with mutex := none }.work (processBatch batch))
  | .write ticket call e rest k =>
    if k < s.sinks.length then
      callSink s k (.write (ticket, e)) (.write ticket call e rest (k + 1))
        (.writeFailed ticket call e rest k)
    else some (finish s (ticket, .event call e) rest)
  | .writeFailed ticket call e rest k =>
    some (countFailure s (.write ticket call e rest (k + 1)))
  | .flushSinks ticket id rest k =>
    if k < s.sinks.length then
      callSink s k .flush (.flushSinks ticket id rest (k + 1)) (.flushFailed ticket id rest k)
    else some (s.work (.raiseLoad ticket id rest))
  | .flushFailed ticket id rest k => some (countFailure s (.flushSinks ticket id rest (k + 1)))
  | .raiseLoad ticket id rest => some (s.work (.raiseCas ticket id rest s.completedFlushId))
  | .raiseCas ticket id rest current =>
    if current < WithTop.some id then
      match s.casCompleted current (WithTop.some id) ok with
      | some s' => some (finish s' (ticket, .flushRequest id) rest)
      | none => some (s.work (.raiseCas ticket id rest s.completedFlushId))
    else some (finish s (ticket, .flushRequest id) rest)
  | .finalFlush k =>
    if k < s.sinks.length then callSink s k .flush (.finalFlush (k + 1)) (.finalFailed k)
    else some (s.work .exited)
  | .finalFailed k => some (countFailure s (.finalFlush (k + 1)))
  | .exited => none

/-! ## Shutdown -/

/-- The next step of `shutdown`, which the destructor calls once. -/
def shutdownStep (s : State E) (ok : Bool) : Option (State E) :=
  match s.shutdown with
  | .notStarted => some { s with stopping := true, shutdown := .lock }
  | .lock => (s.lock .shutdown).map fun s => { s with shutdown := .clearSleeping }
  | .clearSleeping => some { s with sleeping := false, shutdown := .unlock }
  | .unlock => some { s with mutex := none, shutdown := .raiseLoad }
  | .raiseLoad => some { s with shutdown := .raiseCas s.completedFlushId }
  | .raiseCas current =>
    match s.casCompleted current ⊤ ok with
    | some s' => some { s' with shutdown := .join }
    | none => some { s with shutdown := .raiseCas s.completedFlushId }
  | .join =>
    match s.worker with
    | .exited => some { s with shutdown := .joined }
    | _ => none
  | .joined => none

/-! ## The machine -/

/-- One step of the whole system. -/
def step (cfg : Config) (s : State E) : Action E → Option (State E)
  | .dispatch t e =>
    match s.threads t with
    | .idle =>
      some ({ s with
        history := { s.history with dispatched := s.history.dispatched ++ [(t, e)] } }.goto t
          (.event s.history.dispatched.length e false .enter))
    | _ => none
  | .flush t =>
    match s.threads t with
    | .idle => some (s.goto t (.flushDraw s.history.returned))
    | _ => none
  | .thread t ok => threadStep cfg s t ok
  | .worker ok => workerStep cfg s ok
  | .shutdown ok => shutdownStep s ok

/-- The dispatcher with all its threads as a machine. -/
def machine (E : Type) (cfg : Config) : Machine (State E) (Action E) := ⟨step cfg⟩

theorem run_step {cfg : Config} {s t t' : State E} {as : List (Action E)} {a : Action E}
    (h : (machine E cfg).run s as = some t) (ha : step cfg t a = some t') :
    (machine E cfg).run s (as ++ [a]) = some t' := Machine.run_concat.mpr ⟨t, h, ha⟩

end AsyncDispatcher

end Logspine
