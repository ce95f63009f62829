import Logspine.AsyncDispatcher

/-!
# The ledger: where every event and every flush request is

The abstract model of `async_dispatcher`. It forgets locks, wake-ups and program
counters and keeps the book the dispatcher is there to keep: which items obtained
a place in the queue, who took each of them out, what the worker has in hand, which
sink calls it made, and what every client thread carries. A `Move` is one step of
that book, labelled with the `Entry` it makes.

`State.ledger` reads the ledger off a state of the faithful model; every step of
the model is a move or leaves the ledger alone (`Logspine.LedgerRefines`). All
delivery and flush properties are invariants of the moves.
-/

namespace Logspine

namespace AsyncDispatcher

variable {E : Type}

/-! ## The abstract state -/

/-- The flush call of a client thread. -/
inductive FlushCall where
  /-- no flush call -/
  | none : FlushCall
  /-- a call that began when the `dispatch` calls `before` had returned -/
  | started (before : List ℕ) : FlushCall
  /-- a call that has drawn its id -/
  | drawn (id : ℕ) (before : List ℕ) : FlushCall

/-- What a client thread carries. -/
structure Client (E : Type) where
  /-- the `dispatch` call it is in -/
  calling : Option (ℕ × E)
  /-- the event of that call while it has neither a place nor been refused -/
  pending : Option (ℕ × E)
  /-- the ticket it took out of the queue and has not counted yet -/
  popped : Option ℕ
  /-- the flush request in its hands -/
  request : Option ℕ
  /-- the flush call it is in -/
  flushing : FlushCall

/-- A client outside any call. -/
def Client.idle : Client E := ⟨none, none, none, none, .none⟩

/-- The ledger. -/
structure Ledger (E : Type) where
  /-- the items that obtained a place, in ticket order -/
  accepted : List (QueueItem E)
  /-- how many tickets have left the queue -/
  taken : ℕ
  /-- the tickets taken out by producers, with the thread and its `dispatch` call -/
  evicted : List (ℕ × ℕ × ℕ)
  /-- the items in the worker's hands, oldest first -/
  held : List (Ticketed E)
  /-- the items the worker has finished with -/
  done : List (Ticketed E)
  /-- the items the worker overwrote -/
  lost : List (Ticketed E)
  /-- how many sinks were called for the oldest item in the worker's hands -/
  progress : ℕ
  /-- how many sinks the worker has flushed on its way out -/
  closing : Option ℕ
  /-- the calls made on the sinks -/
  calls : List (SinkCall (ℕ × E))
  /-- the sinks, with every exception thrown so far counted -/
  bank : SinkBank E
  /-- the `dispatch` calls that began -/
  dispatched : List (ℕ × E)
  /-- the `dispatch` calls that returned -/
  returned : List ℕ
  /-- the increments of `dropped_events_` -/
  drops : List Drop
  /-- the number of tickets when each flush id was drawn -/
  draws : List ℕ
  /-- `completed_flush_id_` -/
  completed : WithTop ℕ
  /-- `stopping_` -/
  stopping : Bool
  /-- `shutdown` has stored the maximum -/
  stored : Bool
  /-- what the client threads carry -/
  threads : ℕ → Client E

/-- The id of a flush request. -/
def QueueItem.flushId : QueueItem E → Option ℕ
  | event _ _ => none
  | flushRequest id => some id

/-- What the worker does to every sink for an item. -/
def sinkOp : Ticketed E → SinkOp (ℕ × E)
  | (ticket, .event _ e) => .write (ticket, e)
  | (_, .flushRequest _) => .flush

/-- The label of a move: a client call begins, a producer takes an item out of the
queue, the worker overwrites the item in its hands, or none of these. -/
inductive Entry (E : Type) where
  /-- none of the others -/
  | quiet : Entry E
  /-- thread `t` begins a call -/
  | begins (t : ℕ) (call : ClientCall E) : Entry E
  /-- thread `t` takes the oldest item out of the queue -/
  | evicts (t : ℕ) : Entry E
  /-- the worker overwrites an item -/
  | loses : Entry E

/-- A running dispatcher may refuse an event. -/
def AsyncOptions.Refuses (options : AsyncOptions) : Prop :=
  options.overflow = .dropNewest ∨ options.overflow = .block ∧ 0 < options.blockRetryTimeout

/-- Forget the ticket of a sink call. -/
abbrev plain : SinkCall (ℕ × E) → SinkCall E := SinkCall.map Prod.snd

namespace Ledger

/-- Thread `t` now carries `c`. -/
def give (l : Ledger E) (t : ℕ) (c : Client E) : Ledger E :=
  { l with threads := Function.update l.threads t c }

/-- The worker calls a sink. -/
def callSink (l : Ledger E) (c : SinkCall (ℕ × E)) : Ledger E :=
  { l with calls := l.calls ++ [c], bank := l.bank.call (plain c) }

/-- One step of the book. -/
inductive Move (cfg : Config) : Entry E → Ledger E → Ledger E → Prop where
  /-- a thread calls `dispatch(e)` -/
  | beginDispatch {l : Ledger E} {t : ℕ} {e : E} (ht : l.threads t = .idle) :
    Move cfg (.begins t (.dispatch e)) l ({ l with dispatched := l.dispatched ++ [(t, e)] }.give t
      { (Client.idle : Client E) with
        calling := some (l.dispatched.length, e), pending := some (l.dispatched.length, e) })
  /-- a pending event obtains a place -/
  | placeEvent {l : Ledger E} {t c : ℕ} {e : E} (ht : (l.threads t).pending = some (c, e))
    (hn : (l.threads t).popped = none) (hr : (l.threads t).request = none) :
    Move cfg .quiet l ({ l with accepted := l.accepted ++ [QueueItem.event c e] }.give t
      { l.threads t with pending := none })
  /-- a pending event is refused -/
  | refuse {l : Ledger E} {t c : ℕ} {e : E} (ht : (l.threads t).pending = some (c, e))
    (hn : (l.threads t).popped = none) (hr : (l.threads t).request = none)
    (ho : l.stopping = true ∨ cfg.options.Refuses) :
    Move cfg .quiet l ({ l with drops := l.drops ++ [Drop.refused c] }.give t
      { l.threads t with pending := none })
  /-- a `dispatch` call returns -/
  | endDispatch {l : Ledger E} {t c : ℕ} {e : E}
    (ht : l.threads t = { Client.idle with calling := some (c, e) }) :
    Move cfg .quiet l ({ l with returned := l.returned ++ [c] }.give t .idle)
  /-- a producer takes the oldest item out of the queue -/
  | evict {l : Ledger E} {t : ℕ} {x : QueueItem E} {c : ℕ} {e : E}
    (ho : cfg.options.overflow = .dropOldest) (hx : l.accepted[l.taken]? = some x)
    (hp : (l.threads t).pending = some (c, e)) (hn : (l.threads t).popped = none)
    (hr : (l.threads t).request = none) :
    Move cfg (.evicts t) l
      ({ l with taken := l.taken + 1, evicted := l.evicted ++ [(l.taken, t, c)] }.give t
        { l.threads t with popped := some l.taken, request := x.flushId })
  /-- a producer counts the item it took out -/
  | count {l : Ledger E} {t p : ℕ} (ht : (l.threads t).popped = some p) :
    Move cfg .quiet l ({ l with drops := l.drops ++ [Drop.evicted p] }.give t
      { l.threads t with popped := none })
  /-- a thread calls `flush()` -/
  | beginFlush {l : Ledger E} {t : ℕ} (ht : l.threads t = .idle) :
    Move cfg (.begins t .flush) l
      (l.give t { (Client.idle : Client E) with flushing := .started l.returned })
  /-- a flush call draws its id -/
  | draw {l : Ledger E} {t : ℕ} {before : List ℕ}
    (ht : l.threads t = { Client.idle with flushing := .started before }) :
    Move cfg .quiet l ({ l with draws := l.draws ++ [l.accepted.length] }.give t
      { (Client.idle : Client E) with
        request := some (l.draws.length + 1), flushing := .drawn (l.draws.length + 1) before })
  /-- a flush request obtains a place -/
  | placeRequest {l : Ledger E} {t i : ℕ} (ht : (l.threads t).request = some i) :
    Move cfg .quiet l ({ l with accepted := l.accepted ++ [QueueItem.flushRequest i] }.give t
      { l.threads t with request := none })
  /-- a thread that saw `stopping_` gives up its flush request -/
  | abandon {l : Ledger E} {t i : ℕ} (hs : l.stopping = true)
    (ht : (l.threads t).request = some i) :
    Move cfg .quiet l (l.give t { l.threads t with request := none })
  /-- a thread that saw `stopping_` completes a flush id itself -/
  | raise {l : Ledger E} {i : ℕ} (hs : l.stopping = true) (hi : l.completed < WithTop.some i) :
    Move cfg .quiet l { l with completed := WithTop.some i }
  /-- a flush call returns -/
  | endFlush {l : Ledger E} {t i : ℕ} {before : List ℕ}
    (ht : l.threads t = { Client.idle with flushing := .drawn i before })
    (hi : WithTop.some i ≤ l.completed) : Move cfg .quiet l (l.give t .idle)
  /-- the worker takes the oldest item out of the queue -/
  | hand {l : Ledger E} {x : QueueItem E} (hx : l.accepted[l.taken]? = some x)
    (hp : l.progress = 0) (hc : l.closing = none) :
    Move cfg .quiet l { l with taken := l.taken + 1, held := l.held ++ [(l.taken, x)] }
  /-- the worker, stopping, overwrites what it has in hand -/
  | lose {l : Ledger E} (hs : l.stopping = true) (hp : l.progress = 0) :
    Move cfg .loses l { l with held := [], lost := l.lost ++ l.held }
  /-- the worker calls the next sink for the oldest item in its hands -/
  | call {l : Ledger E} {x : Ticketed E} {rest : List (Ticketed E)} (hx : l.held = x :: rest)
    (hp : l.progress < l.bank.sinks.length) :
    Move cfg .quiet l { l.callSink ⟨l.progress, sinkOp x⟩ with progress := l.progress + 1 }
  /-- the worker is done with an event -/
  | finishEvent {l : Ledger E} {p c : ℕ} {e : E} {rest : List (Ticketed E)}
    (hx : l.held = (p, .event c e) :: rest) (hp : l.bank.sinks.length ≤ l.progress) :
    Move cfg .quiet l { l with
      held := rest
      done := l.done ++ [(p, QueueItem.event c e)]
      progress := 0 }
  /-- the worker is done with a flush request: its id is completed -/
  | finishFlush {l : Ledger E} {p i : ℕ} {rest : List (Ticketed E)} {completed : WithTop ℕ}
    (hx : l.held = (p, .flushRequest i) :: rest) (hp : l.bank.sinks.length ≤ l.progress)
    (hle : WithTop.some i ≤ completed)
    (hc : completed = l.completed ∨ (l.completed < completed ∧ completed = WithTop.some i)) :
    Move cfg .quiet l { l with
      held := rest
      done := l.done ++ [(p, QueueItem.flushRequest i)]
      progress := 0
      completed := completed }
  /-- the worker leaves its loop -/
  | close {l : Ledger E} (hs : l.stopping = true) (hh : l.held = []) (hp : l.progress = 0)
    (hc : l.closing = none) (hq : cfg.atomicQueue = true → l.accepted.length ≤ l.taken) :
    Move cfg .quiet l { l with closing := some 0 }
  /-- the worker flushes the next sink on its way out -/
  | farewell {l : Ledger E} {k : ℕ} (hk : l.closing = some k) (hn : k < l.bank.sinks.length) :
    Move cfg .quiet l { l.callSink ⟨k, .flush⟩ with closing := some (k + 1) }
  /-- `shutdown` begins -/
  | stop {l : Ledger E} : Move cfg .quiet l { l with stopping := true }
  /-- `shutdown` stores the maximum -/
  | store {l : Ledger E} (hs : l.stopping = true) :
    Move cfg .quiet l { l with completed := ⊤, stored := true }

end Ledger

/-! ## Reading the ledger off a state -/

/-- The flush request in the hands of a thread at a place of
`enqueue_flush_request`. -/
def RequestPc.inHand (id : ℕ) : RequestPc → Option ℕ
  | enter | enqueue | stopping | waitLock | wait | waiting => some id
  | raiseLoad | raiseCas _ | sleeping | lock | wake | leave => none

/-- What a client thread carries at its place. -/
def Pc.client : Pc E → Client E
  | idle => .idle
  | event c e _ pc =>
    match pc with
    | .sleeping | .lock | .wake | .leave => { (Client.idle : Client E) with calling := some (c, e) }
    | .evicted ticket item =>
      { (Client.idle : Client E) with
        calling := some (c, e), pending := some (c, e), popped := some ticket
        request := item.flushId }
    | _ => { (Client.idle : Client E) with calling := some (c, e), pending := some (c, e) }
  | request id caller _ pc =>
    match caller with
    | .flush before =>
      { (Client.idle : Client E) with request := pc.inHand id, flushing := .drawn id before }
    | .evictor c e _ =>
      { (Client.idle : Client E) with
        calling := some (c, e), pending := some (c, e), request := pc.inHand id }
  | flushDraw before => { (Client.idle : Client E) with flushing := .started before }
  | flush id before _ => { (Client.idle : Client E) with flushing := .drawn id before }

namespace WorkerPc

/-- The items in the worker's hands. -/
def held : WorkerPc E → List (Ticketed E)
  | clearSleeping x => [x]
  | stopTest item => item.toList
  | drain batch | fill batch | notifyLock batch | notifyUnlock batch => batch
  | write ticket call e rest _ | writeFailed ticket call e rest _ =>
    (ticket, .event call e) :: rest
  | flushSinks ticket id rest _ | flushFailed ticket id rest _ | raiseLoad ticket id rest
  | raiseCas ticket id rest _ => (ticket, .flushRequest id) :: rest
  | _ => []

/-- How many of the `n` sinks were called for the oldest of them. -/
def progress (n : ℕ) : WorkerPc E → ℕ
  | write _ _ _ _ k | flushSinks _ _ _ k => k
  | writeFailed _ _ _ _ k | flushFailed _ _ _ k => k + 1
  | raiseLoad _ _ _ | raiseCas _ _ _ _ => n
  | _ => 0

/-- How many of the `n` sinks were flushed after the loop. -/
def closing (n : ℕ) : WorkerPc E → Option ℕ
  | finalFlush k => some k
  | finalFailed k => some (k + 1)
  | exited => some n
  | _ => none

/-- The last sink call threw and is not counted yet. -/
def threw : WorkerPc E → Bool
  | writeFailed _ _ _ _ _ | flushFailed _ _ _ _ | finalFailed _ => true
  | _ => false

end WorkerPc

/-- `shutdown` has stored the maximum. -/
def ShutdownPc.stored : ShutdownPc → Bool
  | join | joined => true
  | _ => false

/-- The ledger of a state. -/
def State.ledger (s : State E) : Ledger E :=
  { accepted := s.queue.accepted
    taken := s.queue.taken
    evicted := s.history.evicted
    held := s.worker.held
    done := s.history.done
    lost := s.history.lost
    progress := s.worker.progress s.sinks.length
    closing := s.worker.closing s.sinks.length
    calls := s.history.calls
    bank :=
      { sinks := s.sinks
        failures := s.sinkFailures + s.worker.threw.toNat
        calls := s.history.calls.map plain }
    dispatched := s.history.dispatched
    returned := s.history.returned
    drops := s.history.drops
    draws := s.history.draws
    completed := s.completedFlushId
    stopping := s.stopping
    stored := s.shutdown.stored
    threads := Pc.client ∘ s.threads }

/-- The entry made at a place of `enqueue_event`. -/
def EventPc.entry (t : ℕ) (ok : Bool) : EventPc E → Entry E
  | evict => if ok then .evicts t else .quiet
  | _ => .quiet

/-- The entry made at a place of the worker. -/
def WorkerPc.entry (stopping : Bool) : WorkerPc E → Entry E
  | stopTest (some _) => if stopping then .loses else .quiet
  | _ => .quiet

/-- The entry an action makes in the ledger. -/
def State.entry (s : State E) : Action E → Entry E
  | .dispatch t e => .begins t (.dispatch e)
  | .flush t => .begins t .flush
  | .thread t ok =>
    match s.threads t with
    | .event _ _ _ pc => pc.entry t ok
    | _ => .quiet
  | .worker _ => s.worker.entry s.stopping
  | .shutdown _ => .quiet

theorem EventPc.entry_cases (t : ℕ) (ok : Bool) (pc : EventPc E) :
    pc.entry t ok = .quiet ∨ (pc = .evict ∧ ok = true ∧ pc.entry t ok = .evicts t) := by
  cases pc with
  | evict =>
    cases ok with
    | false => exact .inl rfl
    | true => exact .inr ⟨rfl, rfl, rfl⟩
  | _ => exact .inl rfl

theorem WorkerPc.entry_cases (stopping : Bool) (pc : WorkerPc E) :
    pc.entry stopping = .quiet ∨
      (stopping = true ∧ (∃ x, pc = .stopTest (some x)) ∧ pc.entry stopping = .loses) := by
  cases pc with
  | stopTest item =>
    cases item with
    | none => exact .inl rfl
    | some x =>
      cases stopping with
      | false => exact .inl rfl
      | true => exact .inr ⟨rfl, ⟨x, rfl⟩, rfl⟩
  | _ => exact .inl rfl

/-- Inversion for `State.entry`. -/
theorem State.entry_cases (s : State E) (a : Action E) :
    s.entry a = .quiet ∨
      (∃ t e, a = .dispatch t e ∧ s.entry a = .begins t (.dispatch e)) ∨
      (∃ t, a = .flush t ∧ s.entry a = .begins t .flush) ∨
      (∃ t call e owns, a = .thread t true ∧ s.threads t = .event call e owns .evict ∧
        s.entry a = .evicts t) ∨
      (∃ ok x, a = .worker ok ∧ s.worker = .stopTest (some x) ∧ s.stopping = true ∧
        s.entry a = .loses) := by
  cases a with
  | dispatch t e => exact .inr (.inl ⟨t, e, rfl, rfl⟩)
  | flush t => exact .inr (.inr (.inl ⟨t, rfl, rfl⟩))
  | thread t ok =>
    rw [State.entry]
    split
    case h_1 call e owns pc hpc =>
      rcases pc.entry_cases t ok with hq | ⟨rfl, rfl, he⟩
      · exact .inl hq
      · exact .inr (.inr (.inr (.inl ⟨t, call, e, owns, rfl, hpc, he⟩)))
    case h_2 => exact .inl rfl
  | worker ok =>
    rcases s.worker.entry_cases s.stopping with hq | ⟨hs, ⟨x, hx⟩, he⟩
    · exact .inl hq
    · exact .inr (.inr (.inr (.inr ⟨ok, x, rfl, hx, hs, he⟩)))
  | shutdown ok => exact .inl rfl

/-- A producer takes an item out at one place only. -/
theorem State.entry_eq_evicts {s : State E} {a : Action E} {t : ℕ} :
    s.entry a = .evicts t ↔
      a = .thread t true ∧ ∃ call e owns, s.threads t = .event call e owns .evict := by
  constructor
  · intro h
    obtain hq | ⟨u, e, -, hq⟩ | ⟨u, -, hq⟩ | ⟨u, call, e, owns, rfl, hpc, hq⟩ |
      ⟨ok, x, -, -, -, hq⟩ := s.entry_cases a <;> rw [hq] at h <;> cases h
    exact ⟨rfl, call, e, owns, hpc⟩
  · rintro ⟨rfl, call, e, owns, hpc⟩
    rw [State.entry, hpc]
    rfl

/-- A call begins with its own action only. -/
theorem State.eq_of_entry_eq_begins {s : State E} {a : Action E} {t : ℕ} {call : ClientCall E}
    (h : s.entry a = .begins t call) : a = .flush t ∨ ∃ e, a = .dispatch t e := by
  obtain hq | ⟨u, e, rfl, hq⟩ | ⟨u, rfl, hq⟩ | ⟨u, _, e, owns, -, -, hq⟩ |
    ⟨ok, x, -, -, -, hq⟩ := s.entry_cases a <;> rw [hq] at h <;> cases h
  · exact .inr ⟨e, rfl⟩
  · exact .inl rfl

/-- The worker overwrites an item at one place only. -/
theorem State.of_entry_eq_loses {s : State E} {a : Action E} (h : s.entry a = .loses) :
    ∃ ok x, a = .worker ok ∧ s.worker = .stopTest (some x) ∧ s.stopping = true := by
  obtain hq | ⟨u, e, -, hq⟩ | ⟨u, -, hq⟩ | ⟨u, _, e, owns, -, -, hq⟩ |
    ⟨ok, x, ha, hx, hs, hq⟩ := s.entry_cases a <;> rw [hq] at h <;> cases h
  exact ⟨ok, x, ha, hx, hs⟩

/-- The ledger of a dispatcher just built. -/
def Ledger.initial (sinks : List (Sink E)) : Ledger E := (State.initial sinks).ledger

end AsyncDispatcher

end Logspine
