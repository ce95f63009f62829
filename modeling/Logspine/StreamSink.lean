import Logspine.Machine
import Logspine.Mutex
import Logspine.Sink
import Logspine.TcpClient

/-!
# `write` over a `tcp_client`, one shared access at a time

`tcp_json_lines_sink` and `otlp_http_sink` write in the same way: the text of the event is
made first, then sent under `mutex_`, and after a failure sent again on a new connection, as
often as the options say. The lock is released during the back-off.

Any number of threads call `write`. Every lock, every connection and every `::send` is one
step, and so is the end of an attempt; the network picks the outcome of a connection and of a
`::send`, which may fail but does not raise `SIGPIPE`, and the scheduler the order. `History`
and `Connection.completed` collect what happened; no step reads them.
-/

universe u

namespace Logspine

namespace StreamSink

variable {E : Type u}

/-- What the two sinks differ in, and the options that both have. -/
structure Config (E : Type u) where
  /-- `options_.reconnect_on_failure` -/
  reconnectOnFailure : Bool
  /-- `options_.max_write_retries` -/
  maxWriteRetries : ℕ
  shouldLog : E → Bool
  /-- the bytes that are sent for an event, `none` when the formatter throws -/
  payload : E → Option Bytes

/-- A call of `write` that has made its text; calls are numbered in the order in which they
have. -/
structure Call (E : Type u) where
  number : ℕ
  event : E
  payload : Bytes

/-- The locals of `write` while it holds the lock. -/
structure Locals (E : Type u) where
  call : Call E
  /-- `retries_remaining` -/
  retriesRemaining : ℕ
  /-- `backoff_ms` -/
  backoffMs : ℕ

/-- Where a thread is. -/
inductive Pc (E : Type u) where
  /-- outside any call -/
  | idle : Pc E
  /-- `std::unique_lock lock(mutex_)` -/
  | lock (call : Call E) : Pc E
  /-- `ensure_connected()` -/
  | ensureConnected (l : Locals E) : Pc E
  /-- `send_all`: `if (!connected_)` -/
  | sendAll (l : Locals E) : Pc E
  /-- `send_all`: `::send` of what is left from the offset on -/
  | send (l : Locals E) (offset : ℕ) : Pc E
  /-- `last_error_message_.clear(); return;` -/
  | sent (l : Locals E) : Pc E
  /-- the `catch` block, with the text of the exception, and what follows it -/
  | failed (l : Locals E) (what : Bytes) : Pc E
  /-- `lock.lock()` after the back-off -/
  | relock (l : Locals E) : Pc E

/-- A connection, as its peer sees it. -/
structure Connection (E : Type u) where
  /-- the bytes that `::send` took -/
  bytes : Bytes
  /-- the calls whose `send_all` came to its end on it -/
  completed : List (Call E)

/-- A connection just made. -/
def Connection.initial : Connection E := ⟨[], []⟩

/-- What happened so far. -/
structure History (E : Type u) where
  /-- the calls, in the order of their numbers -/
  calls : List (Call E)
  /-- the calls that returned -/
  returned : List (Call E)
  /-- the calls that threw -/
  thrown : List (Call E)
  /-- the attempts that came to an end, each with its call and what it threw -/
  attempts : List (Call E × Option Bytes)

/-- A sink with its threads and the connections it has made. -/
structure State (E : Type u) where
  /-- `transport_->client` -/
  client : TcpClient
  /-- in the order in which they were made; a handle is a position here -/
  connections : List (Connection E)
  /-- `mutex_`: the thread that holds it -/
  mutex : Option ℕ
  /-- `statistics_` -/
  statistics : NetworkSinkStatistics
  /-- `last_error_message_` -/
  lastErrorMessage : Bytes
  threads : ℕ → Pc E
  history : History E

/-- A sink just built. -/
def State.initial (client : TcpClient) (connections : List (Connection E)) : State E :=
  ⟨client, connections, none, ⟨0, 0, 0⟩, [], fun _ => .idle, ⟨[], [], [], []⟩⟩

/-- What the constructors do with `options_.lazy_connect`, and with what `connect_tcp_socket`
returns or throws: the sink, or the exception. -/
def construct (lazyConnect : Bool) (result : Except ConnectFailure Unit) :
    Except Bytes (State E) :=
  if lazyConnect then .ok (.initial .initial [])
  else match result with
    | .ok () => .ok (.initial (TcpClient.initial.connect (.ok 0)).1 [Connection.initial])
    | .error failure => .error failure.what

/-- What the scheduler and the network can do. -/
inductive Action (E : Type u) where
  /-- the thread calls `write` -/
  | write (t : ℕ) (event : E) : Action E
  /-- the thread takes its next step, without the network -/
  | step (t : ℕ) : Action E
  /-- the `connect_tcp_socket` of the thread returns or throws -/
  | connect (t : ℕ) (result : Except ConnectFailure Unit) : Action E
  /-- the `::send` of the thread returns -/
  | send (t : ℕ) (result : SendResult) : Action E

/-- The thread that an action is about. -/
def Action.thread : Action E → ℕ
  | write t _ | step t | connect t _ | send t _ => t

/-! ## Steps -/

/-- The thread goes on to `pc`. -/
def State.goto (s : State E) (t : ℕ) (pc : Pc E) : State E :=
  { s with threads := Function.update s.threads t pc }

/-- Something happens on the connection of the client. -/
def State.onConnection (s : State E) (f : Connection E → Connection E) : State E :=
  match s.client.socketHandle with
  | some i => { s with connections := s.connections.modify i f }
  | none => s

/-- The peer gets bytes. -/
def Connection.accept (chunk : Bytes) (c : Connection E) : Connection E :=
  { c with bytes := c.bytes ++ chunk }

/-- The call has sent all. -/
def Connection.complete (call : Call E) (c : Connection E) : Connection E :=
  { c with completed := c.completed ++ [call] }

/-- A call begins, with the text it has made. -/
def State.begin (s : State E) (t : ℕ) (event : E) (payload : Bytes) : State E :=
  let call : Call E := ⟨s.history.calls.length, event, payload⟩
  { s with history.calls := s.history.calls ++ [call] }.goto t (.lock call)

/-- The lock is taken for the first time. -/
def State.firstLock (cfg : Config E) (s : State E) (t : ℕ) (call : Call E) : State E :=
  { s with
    mutex := some t
    statistics.writeAttempts := s.statistics.writeAttempts + 1 }.goto t
    (.ensureConnected
      { call, retriesRemaining := if cfg.reconnectOnFailure then cfg.maxWriteRetries else 0
        backoffMs := 10 })

/-- `while (offset < payload.size())` -/
def State.sendLoop (s : State E) (t : ℕ) (l : Locals E) (offset : ℕ) : State E :=
  if offset < l.call.payload.length then s.goto t (.send l offset)
  else (s.onConnection (Connection.complete l.call)).goto t (.sent l)

/-- A new connection. -/
def State.opened (s : State E) (t : ℕ) (l : Locals E) : State E :=
  { s with
    client := (s.client.connect (.ok s.connections.length)).1
    connections := s.connections ++ [Connection.initial] }.goto t (.sendAll l)

/-- `connect` throws. -/
def State.notOpened (s : State E) (t : ℕ) (l : Locals E) (failure : ConnectFailure) : State E :=
  { s with client := (s.client.connect (.error failure)).1 }.goto t (.failed l failure.what)

/-- `::send` takes bytes. -/
def State.accepted (s : State E) (t : ℕ) (l : Locals E) (offset count : ℕ) : State E :=
  (s.onConnection (Connection.accept ((l.call.payload.drop offset).take count))).sendLoop t l
    (offset + count)

/-- `send_all` closes and throws. -/
def State.sendFailed (s : State E) (t : ℕ) (l : Locals E) : State E :=
  { s with client := s.client.close }.goto t (.failed l (ascii "tcp send failed"))

/-- The call returns. -/
def State.returned (s : State E) (t : ℕ) (l : Locals E) : State E :=
  { s with
    mutex := none
    lastErrorMessage := []
    history.returned := s.history.returned ++ [l.call]
    history.attempts := s.history.attempts ++ [(l.call, none)] }.goto t .idle

/-- The first statements of the `catch` block. -/
def State.recordFailure (s : State E) (l : Locals E) (what : Bytes) : State E :=
  { s with
    statistics.writeFailures := s.statistics.writeFailures + 1
    lastErrorMessage := what
    history.attempts := s.history.attempts ++ [(l.call, some what)] }

/-- The exception leaves the call. -/
def State.thrown (s : State E) (t : ℕ) (l : Locals E) : State E :=
  { s with mutex := none, history.thrown := s.history.thrown ++ [l.call] }.goto t .idle

/-- The connection is closed and the lock released for the back-off. -/
def State.backOff (s : State E) (t : ℕ) (l : Locals E) : State E :=
  { s with
    mutex := none
    statistics.reconnectAttempts := s.statistics.reconnectAttempts + 1
    client := s.client.close }.goto t
    (.relock { l with
      retriesRemaining := l.retriesRemaining - 1
      backoffMs := min (l.backoffMs * 2) 1000 })

/-- The next step of a thread, without the network. -/
def advance (cfg : Config E) (s : State E) (t : ℕ) : Option (State E) :=
  match s.threads t with
  | .idle | .send _ _ => none
  | .lock call => if s.mutex = none then some (s.firstLock cfg t call) else none
  | .ensureConnected l => if s.client.connected then some (s.goto t (.sendAll l)) else none
  | .sendAll l =>
    if s.client.connected then some (s.sendLoop t l 0)
    else some (s.goto t (.failed l (ascii "tcp socket is not connected")))
  | .sent l => some (s.returned t l)
  | .failed l what =>
    if l.retriesRemaining = 0 then some ((s.recordFailure l what).thrown t l)
    else some ((s.recordFailure l what).backOff t l)
  | .relock l =>
    if s.mutex = none then some ({ s with mutex := some t }.goto t (.ensureConnected l)) else none

/-- `connect_tcp_socket` returns or throws. -/
def connected (s : State E) (t : ℕ) (result : Except ConnectFailure Unit) : Option (State E) :=
  match s.threads t with
  | .ensureConnected l =>
    if s.client.connected then none
    else match result with
      | .ok () => some (s.opened t l)
      | .error failure => some (s.notOpened t l failure)
  | _ => none

/-- `::send` returns. -/
def sendReturned (s : State E) (t : ℕ) (result : SendResult) : Option (State E) :=
  match s.threads t with
  | .send l offset =>
    match result with
    | .interrupted => some s
    | .failed => some (s.sendFailed t l)
    | .sent count =>
      if count = 0 then some (s.sendFailed t l)
      else if s.client.connected ∧ offset + count ≤ l.call.payload.length then
        some (s.accepted t l offset count)
      else none
  | _ => none

/-- The sink and its threads as a machine. -/
def machine (cfg : Config E) : Machine (State E) (Action E) where
  step s
    | .write t event =>
      match s.threads t with
      | .idle =>
        if cfg.shouldLog event then
          match cfg.payload event with
          | some payload => some (s.begin t event payload)
          | none => some s
        else some s
      | _ => none
    | .step t => advance cfg s t
    | .connect t result => connected s t result
    | .send t result => sendReturned s t result

/-! ## What a step does -/

variable {cfg : Config E} {s s' : State E} {t : ℕ}

/-- A step of a thread, by where the thread is. -/
inductive Moves (cfg : Config E) (s : State E) (t : ℕ) : State E → Prop where
  /-- an event without text, or an interrupted `::send` -/
  | stay : Moves cfg s t s
  | begin (event : E) (payload : Bytes) (ht : s.threads t = .idle)
      (hp : cfg.payload event = some payload) : Moves cfg s t (s.begin t event payload)
  | lock (call : Call E) (ht : s.threads t = .lock call) (hm : s.mutex = none) :
      Moves cfg s t (s.firstLock cfg t call)
  | relock (l : Locals E) (ht : s.threads t = .relock l) (hm : s.mutex = none) :
      Moves cfg s t ({ s with mutex := some t }.goto t (.ensureConnected l))
  | isConnected (l : Locals E) (ht : s.threads t = .ensureConnected l)
      (hc : s.client.connected = true) : Moves cfg s t (s.goto t (.sendAll l))
  | opened (l : Locals E) (ht : s.threads t = .ensureConnected l)
      (hc : s.client.connected = false) : Moves cfg s t (s.opened t l)
  | notOpened (l : Locals E) (failure : ConnectFailure) (ht : s.threads t = .ensureConnected l)
      (hc : s.client.connected = false) : Moves cfg s t (s.notOpened t l failure)
  | sendAll (l : Locals E) (ht : s.threads t = .sendAll l) (hc : s.client.connected = true) :
      Moves cfg s t (s.sendLoop t l 0)
  | notConnected (l : Locals E) (ht : s.threads t = .sendAll l)
      (hc : s.client.connected = false) :
      Moves cfg s t (s.goto t (.failed l (ascii "tcp socket is not connected")))
  | accepted (l : Locals E) (offset count : ℕ) (ht : s.threads t = .send l offset)
      (hpos : count ≠ 0) (hc : s.client.connected = true)
      (hle : offset + count ≤ l.call.payload.length) : Moves cfg s t (s.accepted t l offset count)
  | sendFailed (l : Locals E) (offset : ℕ) (ht : s.threads t = .send l offset) :
      Moves cfg s t (s.sendFailed t l)
  | returned (l : Locals E) (ht : s.threads t = .sent l) : Moves cfg s t (s.returned t l)
  | thrown (l : Locals E) (what : Bytes) (ht : s.threads t = .failed l what)
      (hr : l.retriesRemaining = 0) : Moves cfg s t ((s.recordFailure l what).thrown t l)
  | backOff (l : Locals E) (what : Bytes) (ht : s.threads t = .failed l what)
      (hr : l.retriesRemaining ≠ 0) : Moves cfg s t ((s.recordFailure l what).backOff t l)

theorem moves_of_advance (h : advance cfg s t = some s') : Moves cfg s t s' := by
  rw [advance] at h
  cases ht : s.threads t with
  | idle =>
    rw [ht] at h
    cases h
  | send l offset =>
    rw [ht] at h
    cases h
  | lock call =>
    rw [ht] at h
    obtain ⟨hm, hs'⟩ := Option.ite_none_right_eq_some.mp h
    obtain rfl := Option.some.inj hs'
    exact .lock call ht hm
  | ensureConnected l =>
    rw [ht] at h
    obtain ⟨hc, hs'⟩ := Option.ite_none_right_eq_some.mp h
    obtain rfl := Option.some.inj hs'
    exact .isConnected l ht hc
  | sendAll l =>
    rw [ht] at h
    dsimp only at h
    split at h
    case isTrue hc =>
      obtain rfl := Option.some.inj h
      exact .sendAll l ht hc
    case isFalse hc =>
      obtain rfl := Option.some.inj h
      exact .notConnected l ht (eq_false_of_ne_true hc)
  | sent l =>
    rw [ht] at h
    obtain rfl := Option.some.inj h
    exact .returned l ht
  | failed l what =>
    rw [ht] at h
    dsimp only at h
    split at h
    case isTrue hr =>
      obtain rfl := Option.some.inj h
      exact .thrown l what ht hr
    case isFalse hr =>
      obtain rfl := Option.some.inj h
      exact .backOff l what ht hr
  | relock l =>
    rw [ht] at h
    obtain ⟨hm, hs'⟩ := Option.ite_none_right_eq_some.mp h
    obtain rfl := Option.some.inj hs'
    exact .relock l ht hm

theorem moves_of_connected {result : Except ConnectFailure Unit}
    (h : connected s t result = some s') : Moves cfg s t s' := by
  rw [connected] at h
  split at h
  case h_1 l ht =>
    obtain ⟨hc, h⟩ := Option.ite_none_left_eq_some.mp h
    have hc := eq_false_of_ne_true hc
    cases result with
    | ok =>
      obtain rfl := Option.some.inj h
      exact .opened l ht hc
    | error failure =>
      obtain rfl := Option.some.inj h
      exact .notOpened l failure ht hc
  case h_2 => cases h

theorem moves_of_sendReturned {result : SendResult} (h : sendReturned s t result = some s') :
    Moves cfg s t s' := by
  rw [sendReturned] at h
  split at h
  case h_1 l offset ht =>
    cases result with
    | interrupted =>
      obtain rfl := Option.some.inj h
      exact .stay
    | failed =>
      obtain rfl := Option.some.inj h
      exact .sendFailed l offset ht
    | sent count =>
      dsimp only at h
      split at h
      case isTrue =>
        obtain rfl := Option.some.inj h
        exact .sendFailed l offset ht
      case isFalse hpos =>
        obtain ⟨⟨hc, hle⟩, hs'⟩ := Option.ite_none_right_eq_some.mp h
        obtain rfl := Option.some.inj hs'
        exact .accepted l offset count ht hpos hc hle
  case h_2 => cases h

/-- Every step of the machine is a step of the thread of its action. -/
theorem moves_thread_of_step {a : Action E} (h : (machine cfg).step s a = some s') :
    Moves cfg s a.thread s' := by
  cases a with
  | write t event =>
    dsimp only [machine] at h
    split at h
    case h_1 ht =>
      split at h
      case isTrue =>
        cases hp : cfg.payload event with
        | some payload =>
          rw [hp] at h
          obtain rfl := Option.some.inj h
          exact .begin event payload ht hp
        | none =>
          rw [hp] at h
          obtain rfl := Option.some.inj h
          exact .stay
      case isFalse =>
        obtain rfl := Option.some.inj h
        exact .stay
    case h_2 => cases h
  | step t => exact moves_of_advance h
  | connect t result => exact moves_of_connected h
  | send t result => exact moves_of_sendReturned h

theorem moves_of_step {a : Action E} (h : (machine cfg).step s a = some s') :
    ∃ t, Moves cfg s t s' := ⟨a.thread, moves_thread_of_step h⟩

theorem goto_threads_self (s : State E) (t : ℕ) (pc : Pc E) : (s.goto t pc).threads t = pc :=
  Function.update_self ..

theorem goto_threads_of_ne (s : State E) {t u : ℕ} (h : u ≠ t) (pc : Pc E) :
    (s.goto t pc).threads u = s.threads u := Function.update_of_ne h ..

/-- What happens on a connection changes nothing else. -/
theorem exists_onConnection (s : State E) (f : Connection E → Connection E) :
    ∃ connections, s.onConnection f = { s with connections := connections } := by
  rw [State.onConnection]
  split
  · exact ⟨_, rfl⟩
  · exact ⟨s.connections, rfl⟩

@[simp] theorem onConnection_history (s : State E) (f : Connection E → Connection E) :
    (s.onConnection f).history = s.history := by
  obtain ⟨connections, h⟩ := exists_onConnection s f
  rw [h]

@[simp] theorem onConnection_threads (s : State E) (f : Connection E → Connection E) :
    (s.onConnection f).threads = s.threads := by
  obtain ⟨connections, h⟩ := exists_onConnection s f
  rw [h]

@[simp] theorem onConnection_client (s : State E) (f : Connection E → Connection E) :
    (s.onConnection f).client = s.client := by
  obtain ⟨connections, h⟩ := exists_onConnection s f
  rw [h]

/-- The loop of `send_all` goes on to `::send` or to its end. -/
theorem exists_sendLoop (s : State E) (t : ℕ) (l : Locals E) (offset : ℕ) :
    ∃ connections pc, s.sendLoop t l offset = { s with connections := connections }.goto t pc ∧
      (pc = .send l offset ∨ pc = .sent l) := by
  rw [State.sendLoop]
  split
  · exact ⟨s.connections, _, rfl, .inl rfl⟩
  · obtain ⟨connections, h⟩ := exists_onConnection s (Connection.complete l.call)
    rw [h]
    exact ⟨connections, _, rfl, .inr rfl⟩

@[simp] theorem sendLoop_history (s : State E) (t : ℕ) (l : Locals E) (offset : ℕ) :
    (s.sendLoop t l offset).history = s.history := by
  obtain ⟨connections, pc, h, -⟩ := exists_sendLoop s t l offset
  rw [h]
  rfl

/-- A step adds a call with the text of its event, or none. -/
theorem Moves.calls (h : Moves cfg s t s') : s'.history.calls = s.history.calls ∨
    ∃ event payload, cfg.payload event = some payload ∧
      s'.history.calls = s.history.calls ++ [⟨s.history.calls.length, event, payload⟩] := by
  cases h with
  | begin event payload ht hp => exact .inr ⟨event, payload, hp, rfl⟩
  | sendAll l ht hc => exact .inl (congrArg History.calls (sendLoop_history s t l 0))
  | accepted l offset count ht hpos hc hle =>
    refine .inl (congrArg History.calls ?_)
    rw [State.accepted, sendLoop_history, onConnection_history]
  | _ => exact .inl rfl

end StreamSink

end Logspine
