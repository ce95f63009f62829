import Mathlib.Data.List.Nodup
import Logspine.GelfChunks
import Logspine.Machine

/-!
# `gelf_udp_sink`, shared by threads

A `write` draws a message id, if it cuts its payload, before it takes the lock; the lock is
released during the back-off, so that the chunks of one call are sent among those of others. A
receiver tells them apart by their ids: whatever it gets, in any order and with duplicates, it
never joins the slices of different calls, and it obtains the payload of every call that has
returned (`receivers_obtain`).

Every `sendto` is one step, and so is every lock and every configuration; the network picks the
outcomes, the scheduler the order.
-/

universe u

namespace Logspine

namespace GelfWriters

open GelfUdpSink

variable {E : Type u}

/-- The options of the sink, and what its filter and its formatter make of an event. -/
structure Config (E : Type u) where
  options : GelfUdpSinkOptions
  shouldLog : E → Bool
  /-- `none` when making the payload throws -/
  payload : E → Option StdString

/-- A call of `write` that has cut its payload. -/
structure Call (E : Type u) where
  event : E
  payload : StdString
  /-- `message_id`, zero for a payload that is not cut -/
  messageId : BitVec 64
  chunks : List Bytes

/-- The locals of `write` behind its first lock. -/
structure Locals (E : Type u) where
  call : Call E
  /-- `retries_remaining` -/
  retriesRemaining : ℕ
  /-- `backoff_ms` -/
  backoffMs : ℕ

/-- Where a thread is. -/
inductive Pc (E : Type u) where
  /-- outside any call -/
  | idle : Pc E
  /-- `std::unique_lock lock(mutex_)` -/
  | lock (call : Call E) : Pc E
  /-- the loop over `chunks`, with those that are left -/
  | send (l : Locals E) (rest : List Bytes) : Pc E
  /-- the `catch` block, with the text of the exception, and what follows it -/
  | failed (l : Locals E) (what : Bytes) : Pc E
  /-- `lock.lock()` after the back-off -/
  | relock (l : Locals E) : Pc E
  /-- `configure_transport()` -/
  | configure (l : Locals E) : Pc E

/-- What happened so far. -/
structure History (E : Type u) where
  calls : List (Call E)
  /-- the calls that returned -/
  returned : List (Call E)
  /-- the calls that threw -/
  thrown : List (Call E)
  /-- the calls of `sendto` -/
  sendto : List SendtoCall

/-- A sink with its threads. -/
structure State (E : Type u) where
  /-- `transport_->client` -/
  client : UdpClient
  /-- `mutex_`: the thread that holds it -/
  mutex : Option ℕ
  /-- `statistics_` -/
  statistics : NetworkSinkStatistics
  /-- `last_error_message_` -/
  lastErrorMessage : Bytes
  /-- the `counter` of `generate_gelf_message_id`, which all sinks of the process share -/
  counter : BitVec 64
  threads : ℕ → Pc E
  history : History E

/-- A sink just built, the first of the process. -/
def State.initial (client : UdpClient) : State E :=
  ⟨client, none, ⟨0, 0, 0⟩, [], 0, fun _ => .idle, ⟨[], [], [], []⟩⟩

/-- What the scheduler and the network can do. -/
inductive Action (E : Type u) where
  /-- the thread calls `write`; `now` is what it reads from the clock if it draws an id -/
  | write (t : ℕ) (event : E) (now : BitVec 64) : Action E
  /-- another sink of the process draws an id -/
  | draw (now : BitVec 64) : Action E
  /-- the thread takes its next step, without the network -/
  | step (t : ℕ) : Action E
  /-- the `sendto` of the thread returns -/
  | sendto (t : ℕ) (result : SendtoResult) : Action E
  /-- the `configure_udp_socket` of the thread returns or throws -/
  | configured (t : ℕ) (result : Except Bytes Bytes) : Action E

/-! ## Steps -/

/-- The thread goes on to `pc`. -/
def State.goto (s : State E) (t : ℕ) (pc : Pc E) : State E :=
  { s with threads := Function.update s.threads t pc }

/-- A call begins, with the chunks it has made. -/
def State.begin (s : State E) (t : ℕ) (counter : BitVec 64) (call : Call E) : State E :=
  { s with counter := counter, history.calls := s.history.calls ++ [call] }.goto t (.lock call)

/-- The lock is taken for the first time. -/
def State.firstLock (cfg : Config E) (s : State E) (t : ℕ) (call : Call E) : State E :=
  { s with
    mutex := some t
    statistics.writeAttempts := s.statistics.writeAttempts + 1 }.goto t
    (.send
      { call
        retriesRemaining :=
          if cfg.options.reconnectOnFailure then cfg.options.maxWriteRetries.toNat else 0
        backoffMs := 10 } call.chunks)

/-- The call returns. -/
def State.returned (s : State E) (t : ℕ) (l : Locals E) : State E :=
  { s with
    mutex := none
    lastErrorMessage := []
    history.returned := s.history.returned ++ [l.call] }.goto t .idle

/-- The exception leaves the call. -/
def State.thrown (s : State E) (t : ℕ) (l : Locals E) : State E :=
  { s with mutex := none, history.thrown := s.history.thrown ++ [l.call] }.goto t .idle

/-- The first statements of the `catch` block. -/
def State.recordFailure (s : State E) (what : Bytes) : State E :=
  { s with
    statistics.writeFailures := s.statistics.writeFailures + 1
    lastErrorMessage := what }

/-- The lock is released for the back-off. -/
def State.backOff (s : State E) (t : ℕ) (l : Locals E) : State E :=
  { s with
    mutex := none
    statistics.reconnectAttempts := s.statistics.reconnectAttempts + 1 }.goto t
    (.relock { l with
      retriesRemaining := l.retriesRemaining - 1
      backoffMs := min (l.backoffMs * 2) 1000 })

/-- A `sendto` has been called. -/
def State.called (s : State E) (datagram : Bytes) (result : SendtoResult) : State E :=
  { s with history.sendto := s.history.sendto ++ [⟨datagram, result⟩] }

/-- `write`, up to its lock. When the chunks are divided by zero, the process ends. -/
def write (cfg : Config E) (s : State E) (t : ℕ) (event : E) (now : BitVec 64) :
    Option (State E) :=
  if cfg.shouldLog event then
    match cfg.payload event with
    | none => some s
    | some payload =>
      let (messageId, counter) :=
        if cfg.options.maxChunkSize < payload.size then generateGelfMessageId now s.counter
        else (0, s.counter)
      (makeChunks messageId cfg.options.maxChunkSize payload).map fun chunks =>
        s.begin t counter ⟨event, payload, messageId, chunks⟩
  else some s

/-- The next step of a thread, without the network. -/
def advance (cfg : Config E) (s : State E) (t : ℕ) : Option (State E) :=
  match s.threads t with
  | .idle | .configure _ => none
  | .lock call => if s.mutex = none then some (s.firstLock cfg t call) else none
  | .send l [] => some (s.returned t l)
  | .send l (_ :: _) =>
    if s.client.destination.isEmpty then
      some (s.goto t (.failed l (ascii "udp socket is not configured")))
    else none
  | .failed l what =>
    if l.retriesRemaining = 0 then some ((s.recordFailure what).thrown t l)
    else some ((s.recordFailure what).backOff t l)
  | .relock l =>
    if s.mutex = none then some ({ s with mutex := some t }.goto t (.configure l)) else none

/-- `sendto` returns. -/
def sendtoReturned (s : State E) (t : ℕ) (result : SendtoResult) : Option (State E) :=
  match s.threads t with
  | .send l (datagram :: rest) =>
    if s.client.destination.isEmpty then none
    else match result with
      | .interrupted => some ((s.called datagram .interrupted).goto t (.send l (datagram :: rest)))
      | .failed =>
        some ({ s.called datagram .failed with client := s.client.close }.goto t
          (.failed l (ascii "udp send failed")))
      | .sent => some ((s.called datagram .sent).goto t (.send l rest))
  | _ => none

/-- `configure_udp_socket` returns or throws; what it throws leaves the call. -/
def configureReturned (s : State E) (t : ℕ) (result : Except Bytes Bytes) : Option (State E) :=
  match s.threads t with
  | .configure l =>
    match s.client.configure result with
    | (client, none) => some ({ s with client := client }.goto t (.send l l.call.chunks))
    | (client, some _) => some ({ s with client := client }.thrown t l)
  | _ => none

/-- The sink and its threads as a machine. -/
def machine (cfg : Config E) : Machine (State E) (Action E) where
  step s
    | .write t event now =>
      match s.threads t with
      | .idle => write cfg s t event now
      | _ => none
    | .draw now => some { s with counter := (generateGelfMessageId now s.counter).2 }
    | .step t => advance cfg s t
    | .sendto t result => sendtoReturned s t result
    | .configured t result => configureReturned s t result

/-- What an action reads from the clock to draw an id. -/
def Config.reading (cfg : Config E) : Action E → Option (BitVec 64)
  | .write _ event now =>
    if cfg.shouldLog event then
      (cfg.payload event).bind fun payload =>
        if cfg.options.maxChunkSize < payload.size then some now else none
    else none
  | .draw now => some now
  | _ => none

/-- What the actions read from the clock. -/
def Config.readings (cfg : Config E) (as : List (Action E)) : List (BitVec 64) :=
  as.filterMap cfg.reading

/-! ## What has been sent -/

variable {cfg : Config E} {s s' s₁ : State E} {as : List (Action E)} {t : ℕ} {pc : Pc E}

/-- All chunks of the call have been sent, up to some. -/
def History.SentBut (history : History E) (call : Call E) (rest : List Bytes) : Prop :=
  ∃ sent, call.chunks = sent ++ rest ∧ ∀ d ∈ sent, ⟨d, .sent⟩ ∈ history.sendto

/-- The call of a thread is known, and what its loop has gone through has been sent. -/
def Pc.Sends (history : History E) : Pc E → Prop
  | idle => True
  | lock call => call ∈ history.calls
  | send l rest => l.call ∈ history.calls ∧ history.SentBut l.call rest
  | failed l _ | relock l | configure l => l.call ∈ history.calls

/-- What has been sent are chunks of calls, and all of those that have returned. -/
structure Sent (cfg : Config E) (s : State E) : Prop where
  threads : ∀ t, (s.threads t).Sends s.history
  chunks : ∀ call ∈ s.history.calls, (∃ event, cfg.payload event = some call.payload) ∧
    makeChunks call.messageId cfg.options.maxChunkSize call.payload = some call.chunks
  sendto : ∀ c ∈ s.history.sendto, ∃ call ∈ s.history.calls, c.datagram ∈ call.chunks
  returned : ∀ call ∈ s.history.returned, call ∈ s.history.calls ∧ s.history.SentBut call []

/-- The history goes on. -/
structure History.Le (history history' : History E) : Prop where
  calls : history.calls ⊆ history'.calls
  sendto : history.sendto ⊆ history'.sendto

theorem History.SentBut.mono {history history' : History E} {call : Call E} {rest : List Bytes}
    (h : history.SentBut call rest) (hle : history.Le history') : history'.SentBut call rest := by
  obtain ⟨sent, hchunks, hsent⟩ := h
  exact ⟨sent, hchunks, fun d hd => hle.sendto (hsent d hd)⟩

theorem Pc.Sends.mono {history history' : History E} (h : pc.Sends history)
    (hle : history.Le history') : pc.Sends history' := by
  cases pc with
  | idle => trivial
  | send l rest => exact ⟨hle.calls h.1, h.2.mono hle⟩
  | _ => exact hle.calls h

/-- A thread goes on, and the history with it. -/
theorem Sent.threads_goto (h : Sent cfg s) (hthreads : s₁.threads = s.threads)
    (hle : s.history.Le s₁.history) (hpc : pc.Sends s₁.history) (u : ℕ) :
    ((s₁.goto t pc).threads u).Sends (s₁.goto t pc).history := by
  refine (Function.forall_update_iff s₁.threads fun _ pc => pc.Sends s₁.history).mpr
    ⟨hpc, fun u _ => ?_⟩ u
  rw [hthreads]
  exact (h.threads u).mono hle

/-- A step that sends nothing and ends no call. -/
theorem Sent.goto (h : Sent cfg s) (hthreads : s₁.threads = s.threads)
    (hcalls : s₁.history.calls = s.history.calls) (hsendto : s₁.history.sendto = s.history.sendto)
    (hreturned : s₁.history.returned = s.history.returned) (hpc : pc.Sends s.history) :
    Sent cfg (s₁.goto t pc) := by
  have hle : s.history.Le s₁.history :=
    ⟨hcalls ▸ List.Subset.refl _, hsendto ▸ List.Subset.refl _⟩
  refine ⟨h.threads_goto hthreads hle (hpc.mono hle), ?_, ?_, ?_⟩
  · change ∀ call ∈ s₁.history.calls, _
    rw [hcalls]
    exact h.chunks
  · change ∀ c ∈ s₁.history.sendto, ∃ call ∈ s₁.history.calls, _
    rw [hsendto, hcalls]
    exact h.sendto
  · change ∀ call ∈ s₁.history.returned, call ∈ s₁.history.calls ∧ s₁.history.SentBut call []
    rw [hreturned, hcalls]
    exact fun call hcall => ⟨(h.returned call hcall).1, (h.returned call hcall).2.mono hle⟩

/-- A thread calls `sendto`. -/
theorem Sent.called (h : Sent cfg s) {l : Locals E} {datagram : Bytes} {rest : List Bytes}
    (ht : s.threads t = .send l (datagram :: rest)) {result : SendtoResult} {c : UdpClient}
    (hpc : pc.Sends (s.called datagram result).history) :
    Sent cfg ({ s.called datagram result with client := c }.goto t pc) := by
  have hle : s.history.Le (s.called datagram result).history :=
    ⟨List.Subset.refl _, List.subset_append_left ..⟩
  have hthread := h.threads t
  rw [ht] at hthread
  obtain ⟨hcall, sent, hchunks, -⟩ := hthread
  refine ⟨h.threads_goto rfl hle hpc, h.chunks, fun c hc => ?_, fun call hreturned => ?_⟩
  · rcases List.mem_append.mp hc with hc | hc
    · exact h.sendto c hc
    · obtain rfl := List.mem_singleton.mp hc
      refine ⟨l.call, hcall, ?_⟩
      rw [hchunks]
      exact List.mem_append_right _ List.mem_cons_self
  · exact ⟨(h.returned call hreturned).1, (h.returned call hreturned).2.mono hle⟩

theorem Sent.sendtoReturned (h : Sent cfg s) {result : SendtoResult}
    (hs : sendtoReturned s t result = some s') : Sent cfg s' := by
  rw [GelfWriters.sendtoReturned] at hs
  split at hs
  case h_1 l datagram rest ht =>
    have hthread := h.threads t
    rw [ht] at hthread
    obtain ⟨hcall, sent, hchunks, hsent⟩ := hthread
    have hle : ∀ result, s.history.Le (s.called datagram result).history := fun _ =>
      ⟨List.Subset.refl _, List.subset_append_left ..⟩
    split at hs
    · cases hs
    · cases result with
      | interrupted =>
        obtain rfl := Option.some.inj hs
        refine h.called ht (c := s.client) ⟨hcall, sent, hchunks, fun d hd => ?_⟩
        exact (hle _).sendto (hsent d hd)
      | failed =>
        obtain rfl := Option.some.inj hs
        exact h.called ht hcall
      | sent =>
        obtain rfl := Option.some.inj hs
        refine h.called ht (c := s.client) ⟨hcall, sent ++ [datagram], ?_, fun d hd => ?_⟩
        · rw [hchunks, List.append_assoc, List.singleton_append]
        · rcases List.mem_append.mp hd with hd | hd
          · exact (hle _).sendto (hsent d hd)
          · rw [List.mem_singleton.mp hd]
            exact List.mem_append_right _ (List.mem_singleton_self _)
  case h_2 => cases hs

theorem Sent.configureReturned (h : Sent cfg s) {result : Except Bytes Bytes}
    (hs : configureReturned s t result = some s') : Sent cfg s' := by
  rw [GelfWriters.configureReturned] at hs
  split at hs
  case h_1 l ht =>
    have hcall := h.threads t
    rw [ht] at hcall
    split at hs
    · obtain rfl := Option.some.inj hs
      exact h.goto rfl rfl rfl rfl ⟨hcall, [], rfl, List.forall_mem_nil _⟩
    · obtain rfl := Option.some.inj hs
      exact h.goto rfl rfl rfl rfl trivial
  case h_2 => cases hs

theorem Sent.advance (h : Sent cfg s) (hs : advance cfg s t = some s') : Sent cfg s' := by
  have hthread := h.threads t
  rw [GelfWriters.advance] at hs
  split at hs
  case h_1 | h_2 => cases hs
  case h_3 call ht =>
    obtain ⟨-, hs'⟩ := Option.ite_none_right_eq_some.mp hs
    obtain rfl := Option.some.inj hs'
    rw [ht] at hthread
    exact h.goto rfl rfl rfl rfl ⟨hthread, [], rfl, List.forall_mem_nil _⟩
  case h_4 l ht =>
    obtain rfl := Option.some.inj hs
    rw [ht] at hthread
    refine ⟨h.threads_goto rfl ⟨List.Subset.refl _, List.Subset.refl _⟩ trivial, h.chunks,
      h.sendto, fun call hcall => ?_⟩
    rcases List.mem_append.mp hcall with hcall | hcall
    · exact h.returned call hcall
    · rw [List.mem_singleton.mp hcall]
      exact hthread
  case h_5 l datagram rest ht =>
    obtain ⟨-, hs'⟩ := Option.ite_none_right_eq_some.mp hs
    obtain rfl := Option.some.inj hs'
    rw [ht] at hthread
    exact h.goto rfl rfl rfl rfl hthread.1
  case h_6 l what ht =>
    rw [ht] at hthread
    split at hs
    · obtain rfl := Option.some.inj hs
      exact h.goto rfl rfl rfl rfl trivial
    · obtain rfl := Option.some.inj hs
      exact h.goto rfl rfl rfl rfl hthread
  case h_7 l ht =>
    obtain ⟨-, hs'⟩ := Option.ite_none_right_eq_some.mp hs
    obtain rfl := Option.some.inj hs'
    rw [ht] at hthread
    exact h.goto rfl rfl rfl rfl hthread

theorem Sent.begin (h : Sent cfg s) {event : E} {payload : StdString}
    {messageId counter : BitVec 64} {chunks : List Bytes}
    (hpayload : cfg.payload event = some payload)
    (hchunks : makeChunks messageId cfg.options.maxChunkSize payload = some chunks) :
    Sent cfg (s.begin t counter ⟨event, payload, messageId, chunks⟩) := by
  have hle : s.history.Le
      (s.begin t counter ⟨event, payload, messageId, chunks⟩).history :=
    ⟨List.subset_append_left .., List.Subset.refl _⟩
  refine ⟨h.threads_goto rfl hle ?_, fun call hcall => ?_, fun c hc => ?_, fun call hcall => ?_⟩
  · exact List.mem_append_right _ (List.mem_singleton_self _)
  · rcases List.mem_append.mp hcall with hcall | hcall
    · exact h.chunks call hcall
    · rw [List.mem_singleton.mp hcall]
      exact ⟨⟨event, hpayload⟩, hchunks⟩
  · obtain ⟨call, hcall, hmem⟩ := h.sendto c hc
    exact ⟨call, hle.calls hcall, hmem⟩
  · exact ⟨hle.calls (h.returned call hcall).1, (h.returned call hcall).2.mono hle⟩

theorem sent_initial (client : UdpClient) : Sent cfg (.initial client) :=
  ⟨fun _ => trivial, List.forall_mem_nil _, List.forall_mem_nil _, List.forall_mem_nil _⟩

/-! ## What has been drawn -/

/-- The payload of the call is cut. -/
def Call.isCut (cfg : Config E) (call : Call E) : Bool :=
  cfg.options.maxChunkSize < call.payload.size

/-- The ids of the calls that cut their payloads are among those drawn, each at its own place. -/
structure Drawn (cfg : Config E) (as : List (Action E)) (s : State E) : Prop where
  counter : s.counter = .ofNat 64 (cfg.readings as).length
  ids : ((s.history.calls.filter (Call.isCut cfg)).map Call.messageId).Sublist
    (messageIds 0 (cfg.readings as))

theorem messageIds_concat (counter now : BitVec 64) (readings : List (BitVec 64)) :
    messageIds counter (readings ++ [now]) = messageIds counter readings ++
      [(generateGelfMessageId now (counter + .ofNat 64 readings.length)).1] := by
  induction readings generalizing counter with
  | nil =>
    rw [List.length_nil, BitVec.add_zero]
    rfl
  | cons reading readings ih =>
    have hadd : counter + 1 + BitVec.ofNat 64 readings.length =
        counter + BitVec.ofNat 64 (readings.length + 1) := by
      rw [BitVec.add_assoc, BitVec.ofNat_add, BitVec.add_comm (BitVec.ofNat 64 readings.length)]
      rfl
    rw [List.cons_append, messageIds, messageIds, List.length_cons, ← hadd]
    exact congrArg _ (ih (counter + 1))

theorem readings_concat (as : List (Action E)) (a : Action E) :
    cfg.readings (as ++ [a]) = cfg.readings as ++ (cfg.reading a).toList := by
  rw [Config.readings, List.filterMap_append, List.filterMap_cons]
  cases cfg.reading a <;> rfl

/-- A step that draws no id and begins no call. -/
theorem Drawn.keep (h : Drawn cfg as s) {a : Action E} (ha : cfg.reading a = none)
    (hcounter : s'.counter = s.counter) (hcalls : s'.history.calls = s.history.calls) :
    Drawn cfg (as ++ [a]) s' := by
  have hreadings : cfg.readings (as ++ [a]) = cfg.readings as := by
    rw [readings_concat, ha]
    exact List.append_nil _
  refine ⟨?_, ?_⟩
  · rw [hreadings, hcounter]
    exact h.counter
  · rw [hreadings, hcalls]
    exact h.ids

/-- An id is drawn. -/
theorem Drawn.draw (h : Drawn cfg as s) {a : Action E} {now : BitVec 64}
    (ha : cfg.reading a = some now) {calls : List (Call E)}
    (hcounter : s'.counter = (generateGelfMessageId now s.counter).2)
    (hcalls : s'.history.calls = s.history.calls ++ calls)
    (hids : ((calls.filter (Call.isCut cfg)).map Call.messageId).Sublist
      [(generateGelfMessageId now s.counter).1]) :
    Drawn cfg (as ++ [a]) s' := by
  have hreadings : cfg.readings (as ++ [a]) = cfg.readings as ++ [now] := by
    rw [readings_concat, ha, Option.toList_some]
  refine ⟨?_, ?_⟩
  · rw [hreadings, hcounter, generateGelfMessageId, h.counter, List.length_append,
      BitVec.ofNat_add]
    rfl
  · have hzero : 0 + BitVec.ofNat 64 (cfg.readings as).length = s.counter := by
      rw [h.counter]
      exact BitVec.zero_add _
    rw [hreadings, messageIds_concat, hzero, hcalls, List.filter_append, List.map_append]
    exact h.ids.append hids

/-- What a step of a thread behind its lock leaves alone. -/
theorem advance_calls (hs : advance cfg s t = some s') :
    s'.counter = s.counter ∧ s'.history.calls = s.history.calls := by
  rw [advance] at hs
  split at hs
  case h_1 | h_2 => cases hs
  case h_4 =>
    obtain rfl := Option.some.inj hs
    exact ⟨rfl, rfl⟩
  case h_6 =>
    split at hs <;> obtain rfl := Option.some.inj hs <;> exact ⟨rfl, rfl⟩
  all_goals
    obtain ⟨-, hs'⟩ := Option.ite_none_right_eq_some.mp hs
    obtain rfl := Option.some.inj hs'
    exact ⟨rfl, rfl⟩

theorem sendtoReturned_calls {result : SendtoResult} (hs : sendtoReturned s t result = some s') :
    s'.counter = s.counter ∧ s'.history.calls = s.history.calls := by
  rw [sendtoReturned] at hs
  split at hs
  · split at hs
    · cases hs
    · cases result <;> obtain rfl := Option.some.inj hs <;> exact ⟨rfl, rfl⟩
  · cases hs

theorem configureReturned_calls {result : Except Bytes Bytes}
    (hs : configureReturned s t result = some s') :
    s'.counter = s.counter ∧ s'.history.calls = s.history.calls := by
  rw [configureReturned] at hs
  split at hs
  · split at hs <;> obtain rfl := Option.some.inj hs <;> exact ⟨rfl, rfl⟩
  · cases hs

/-- What has been sent and what has been drawn, in a state that a run reaches. -/
structure Kept (cfg : Config E) (as : List (Action E)) (s : State E) : Prop where
  sent : Sent cfg s
  drawn : Drawn cfg as s

theorem Kept.write (h : Kept cfg as s) {event : E} {now : BitVec 64}
    (hs : write cfg s t event now = some s') : Kept cfg (as ++ [.write t event now]) s' := by
  rw [GelfWriters.write] at hs
  split at hs
  case isTrue hlog =>
    split at hs
    case h_1 hpayload =>
      obtain rfl := Option.some.inj hs
      refine ⟨h.sent, h.drawn.keep ?_ rfl rfl⟩
      rw [Config.reading, if_pos hlog, hpayload]
      rfl
    case h_2 payload hpayload =>
      have hreading : cfg.reading (.write t event now) =
          if cfg.options.maxChunkSize < payload.size then some now else none := by
        rw [Config.reading, if_pos hlog, hpayload]
        rfl
      by_cases hcut : cfg.options.maxChunkSize < payload.size
      · rw [if_pos hcut] at hs hreading
        obtain ⟨chunks, hchunks, rfl⟩ := Option.map_eq_some_iff.mp hs
        refine ⟨h.sent.begin hpayload hchunks, h.drawn.draw hreading rfl rfl ?_⟩
        exact (List.filter_sublist ..).map _
      · rw [if_neg hcut] at hs hreading
        obtain ⟨chunks, hchunks, rfl⟩ := Option.map_eq_some_iff.mp hs
        have hkeep : Drawn cfg (as ++ [.write t event now]) s := h.drawn.keep hreading rfl rfl
        refine ⟨h.sent.begin hpayload hchunks, hkeep.counter, ?_⟩
        have hnone : [(⟨event, payload, 0, chunks⟩ : Call E)].filter (Call.isCut cfg) = [] :=
          List.filter_cons_of_neg (by rw [Call.isCut, decide_eq_true_iff]; exact hcut)
        change ((List.filter _ (s.history.calls ++ [_])).map _).Sublist _
        rw [List.filter_append, hnone, List.append_nil]
        exact hkeep.ids
  case isFalse hlog =>
    obtain rfl := Option.some.inj hs
    refine ⟨h.sent, h.drawn.keep ?_ rfl rfl⟩
    rw [Config.reading, if_neg hlog]

theorem kept_run {client : UdpClient} (h : (machine cfg).run (.initial client) as = some s) :
    Kept cfg as s := by
  refine Machine.run_induction (P := fun as s => Kept cfg as s)
    ⟨sent_initial client, rfl, List.nil_sublist _⟩ ?_ h
  intro as s a s' _ hi hs
  cases a with
  | write t event now =>
    dsimp only [machine] at hs
    split at hs
    · exact hi.write hs
    · cases hs
  | draw now =>
    obtain rfl := Option.some.inj hs
    exact ⟨⟨hi.sent.threads, hi.sent.chunks, hi.sent.sendto, hi.sent.returned⟩,
      hi.drawn.draw rfl rfl (List.append_nil _).symm (List.nil_sublist _)⟩
  | step t =>
    obtain ⟨hcounter, hcalls⟩ := advance_calls hs
    exact ⟨hi.sent.advance hs, hi.drawn.keep rfl hcounter hcalls⟩
  | sendto t result =>
    obtain ⟨hcounter, hcalls⟩ := sendtoReturned_calls hs
    exact ⟨hi.sent.sendtoReturned hs, hi.drawn.keep rfl hcounter hcalls⟩
  | configured t result =>
    obtain ⟨hcounter, hcalls⟩ := configureReturned_calls hs
    exact ⟨hi.sent.configureReturned hs, hi.drawn.keep rfl hcounter hcalls⟩

/-! ## What a receiver obtains -/

/-- The chunks of a call that cuts its payload. -/
theorem Kept.chunks_of_cut (h : Kept cfg as s) (hmin : 13 ≤ cfg.options.maxChunkSize.toNat)
    {call : Call E} (hcall : call ∈ s.history.calls)
    (hcut : cfg.options.maxChunkSize.toNat < call.payload.bytes.length) :
    call.chunks = (List.range (chunkCount call.payload.bytes
      (cfg.options.maxChunkSize.toNat - 12))).map fun i => Gelf.Chunk.datagram
        ⟨idBytes call.messageId, .ofNat i,
          .ofNat (chunkCount call.payload.bytes (cfg.options.maxChunkSize.toNat - 12)),
          slice call.payload.bytes (cfg.options.maxChunkSize.toNat - 12) i⟩ := by
  obtain ⟨-, hchunks⟩ := h.sent.chunks call hcall
  rw [makeChunks_of_lt call.messageId hmin hcut] at hchunks
  exact (Option.some.inj hchunks).symm

/-- The datagram of a call that does not cut its payload. -/
theorem Kept.chunks_of_whole (h : Kept cfg as s) {call : Call E} (hcall : call ∈ s.history.calls)
    (hwhole : call.payload.bytes.length ≤ cfg.options.maxChunkSize.toNat) :
    call.chunks = [call.payload.bytes] := by
  obtain ⟨-, hchunks⟩ := h.sent.chunks call hcall
  rw [makeChunks_of_le call.messageId hwhole] at hchunks
  exact (Option.some.inj hchunks).symm

theorem isCut_iff {call : Call E} : call.isCut cfg = true ↔
    cfg.options.maxChunkSize.toNat < call.payload.bytes.length := by
  rw [Call.isCut, decide_eq_true_iff, BitVec.lt_def, call.payload.toNat_size]

/-- Calls that cut their payloads are told apart by their ids. -/
theorem Kept.eq_of_id (h : Kept cfg as s) (hids : (messageIds 0 (cfg.readings as)).Nodup)
    {call call' : Call E} (hcall : call ∈ s.history.calls) (hcall' : call' ∈ s.history.calls)
    (hcut : call.isCut cfg = true) (hcut' : call'.isCut cfg = true)
    (hid : idBytes call.messageId = idBytes call'.messageId) : call = call' := by
  have hnodup := h.drawn.ids.nodup hids
  exact List.inj_on_of_nodup_map hnodup (List.mem_filter.mpr ⟨hcall, hcut⟩)
    (List.mem_filter.mpr ⟨hcall', hcut'⟩) (idBytes_inj hid)

/-- What arrives are datagrams that the sink has sent, in any order and with duplicates. -/
def State.Arrives (s : State E) (received : List Bytes) : Prop :=
  ∀ d ∈ received, ∃ c ∈ s.history.sendto, c.datagram = d

/-- All datagrams that the socket took arrive. -/
def State.Delivers (s : State E) (received : List Bytes) : Prop :=
  ∀ c ∈ s.history.sendto, c.result = .sent → c.datagram ∈ received

/-- What a receiver can obtain of the payload of a call: all of it, or its first 128 slices. -/
def Call.obtainable (cfg : Config E) (call : Call E) : Bytes :=
  if call.payload.bytes.length ≤ cfg.options.maxChunkSize.toNat then call.payload.bytes
  else call.payload.bytes.take (128 * (cfg.options.maxChunkSize.toNat - 12))

/-- The chunks with an id that arrive are those of one call. -/
theorem Kept.of_mem_chunksOf (h : Kept cfg as s) (hmin : 13 ≤ cfg.options.maxChunkSize.toNat)
    (hmagic : ∀ event payload, cfg.payload event = some payload →
      payload.bytes.take 2 ≠ Gelf.magic) {received : List Bytes} (hreceived : s.Arrives received)
    {id d : Bytes} (hd : d ∈ Gelf.chunksOf id received) :
    ∃ call ∈ s.history.calls, call.isCut cfg = true ∧ idBytes call.messageId = id ∧
      d ∈ call.chunks := by
  obtain ⟨hmem, hparse⟩ := List.mem_filter.mp hd
  obtain ⟨c, hc, rfl⟩ := hreceived d hmem
  obtain ⟨call, hcall, hchunk⟩ := h.sent.sendto c hc
  refine ⟨call, hcall, ?_⟩
  rcases Nat.lt_or_ge cfg.options.maxChunkSize.toNat call.payload.bytes.length with hcut | hwhole
  · refine ⟨isCut_iff.mpr hcut, ?_, hchunk⟩
    rw [h.chunks_of_cut hmin hcall hcut] at hchunk
    obtain ⟨i, -, hi⟩ := List.mem_map.mp hchunk
    rw [← hi, Gelf.parseChunk_datagram (length_idBytes _)] at hparse
    exact of_decide_eq_true hparse
  · rw [h.chunks_of_whole hcall hwhole, List.mem_singleton] at hchunk
    obtain ⟨⟨event, hpayload⟩, -⟩ := h.sent.chunks call hcall
    rw [hchunk, Gelf.parseChunk_eq_none (hmagic event _ hpayload)] at hparse
    cases hparse

/-- What receivers make of what arrives. -/
structure Obtained (cfg : Config E) (s : State E) (received : List Bytes) : Prop where
  /-- a datagram that is no chunk is the payload of a call -/
  whole : ∀ d ∈ received, Gelf.parseChunk d = none → ∃ call ∈ s.history.calls,
    d = call.payload.bytes
  /-- what is joined of the chunks with an id is the payload of a call with it, or its first 128
  slices -/
  joined : ∀ id text, Gelf.reassemble (Gelf.chunksOf id received) = some text →
    ∃ call ∈ s.history.calls, idBytes call.messageId = id ∧ text = call.obtainable cfg
  /-- when all that the socket took arrives, every call that has returned is obtained -/
  complete : s.Delivers received → ∀ call ∈ s.history.returned,
    call.obtainable cfg ∈ received ∨
      Gelf.reassemble (Gelf.chunksOf (idBytes call.messageId) received) =
        some (call.obtainable cfg)

/-- **Receivers obtain what the calls write.** Any number of threads write to one
`gelf_udp_sink`, whatever the network answers, with and without retries; the datagrams arrive in
any order, with duplicates and with losses. As long as the message ids that the process draws
differ, no receiver ever joins the slices of different calls: what it obtains is the payload of
one call, or the first 128 slices of one that is longer. And when every datagram that the socket
took arrives, it obtains those of all calls that have returned. -/
theorem receivers_obtain (hmin : 13 ≤ cfg.options.maxChunkSize.toNat)
    (hmagic : ∀ event payload, cfg.payload event = some payload →
      payload.bytes.take 2 ≠ Gelf.magic) {client : UdpClient}
    (h : (machine cfg).run (.initial client) as = some s)
    (hids : (messageIds 0 (cfg.readings as)).Nodup) {received : List Bytes}
    (hreceived : s.Arrives received) : Obtained cfg s received := by
  have hkept := kept_run h
  have hm : 0 < cfg.options.maxChunkSize.toNat - 12 := by omega
  have hof : ∀ call ∈ s.history.calls, call.isCut cfg = true →
      ∀ d ∈ Gelf.chunksOf (idBytes call.messageId) received, d ∈ call.chunks := by
    intro call hcall hcut d hd
    obtain ⟨call', hcall', hcut', hid, hchunk⟩ := hkept.of_mem_chunksOf hmin hmagic hreceived hd
    rwa [hkept.eq_of_id hids hcall' hcall hcut' hcut hid] at hchunk
  refine ⟨fun d hd hparse => ?_, fun id text htext => ?_, fun hdelivers call hcall => ?_⟩
  · obtain ⟨c, hc, rfl⟩ := hreceived d hd
    obtain ⟨call, hcall, hchunk⟩ := hkept.sent.sendto c hc
    refine ⟨call, hcall, ?_⟩
    rcases Nat.lt_or_ge cfg.options.maxChunkSize.toNat call.payload.bytes.length with hcut | hwhole
    · rw [hkept.chunks_of_cut hmin hcall hcut] at hchunk
      obtain ⟨i, -, hi⟩ := List.mem_map.mp hchunk
      rw [← hi, Gelf.parseChunk_datagram (length_idBytes _)] at hparse
      cases hparse
    · rwa [hkept.chunks_of_whole hcall hwhole, List.mem_singleton] at hchunk
  · obtain ⟨d, hd⟩ : ∃ d, d ∈ Gelf.chunksOf id received := by
      refine List.exists_mem_of_ne_nil _ fun hnil => ?_
      rw [hnil] at htext
      cases htext
    obtain ⟨call, hcall, hcut, rfl, -⟩ := hkept.of_mem_chunksOf hmin hmagic hreceived hd
    refine ⟨call, hcall, rfl, ?_⟩
    have hlt := isCut_iff.mp hcut
    have hslices : ∀ d ∈ Gelf.chunksOf (idBytes call.messageId) received,
        ∃ i < chunkCount call.payload.bytes (cfg.options.maxChunkSize.toNat - 12),
          d = Gelf.Chunk.datagram ⟨idBytes call.messageId, .ofNat i,
            .ofNat (chunkCount call.payload.bytes (cfg.options.maxChunkSize.toNat - 12)),
            slice call.payload.bytes (cfg.options.maxChunkSize.toNat - 12) i⟩ := by
      intro d hd
      have hchunk := hof call hcall hcut d hd
      rw [hkept.chunks_of_cut hmin hcall hlt] at hchunk
      obtain ⟨i, hi, heq⟩ := List.mem_map.mp hchunk
      exact ⟨i, List.mem_range.mp hi, heq.symm⟩
    rw [Gelf.eq_of_reassemble (length_idBytes _) (chunkCount_lt ..) hslices htext, flatMap_slice,
      take_chunkCount hm, Call.obtainable, if_neg (Nat.not_le.mpr hlt)]
  · obtain ⟨hknown, sent, hchunks, hsent⟩ := hkept.sent.returned call hcall
    rw [List.append_nil] at hchunks
    have harrived : ∀ d ∈ call.chunks, d ∈ received := fun d hd =>
      hdelivers _ (hsent d (hchunks ▸ hd)) rfl
    rcases Nat.lt_or_ge cfg.options.maxChunkSize.toNat call.payload.bytes.length with hlt | hwhole
    · right
      have heq := hkept.chunks_of_cut hmin hknown hlt
      have hne : call.payload.bytes ≠ [] := List.length_pos_iff.mp (by omega)
      rw [Call.obtainable, if_neg (Nat.not_le.mpr hlt)]
      refine reassemble_chunks call.messageId hm hne fun d => ⟨fun hd => ?_, ?_⟩
      · have hchunk := hof call hknown (isCut_iff.mpr hlt) d hd
        rw [heq] at hchunk
        obtain ⟨i, hi, heq⟩ := List.mem_map.mp hchunk
        exact ⟨i, List.mem_range.mp hi, heq.symm⟩
      · rintro ⟨i, hi, rfl⟩
        refine (Gelf.mem_chunksOf_datagram (length_idBytes _)).mpr ⟨harrived _ ?_, rfl⟩
        rw [heq]
        exact List.mem_map.mpr ⟨i, List.mem_range.mpr hi, rfl⟩
    · left
      rw [Call.obtainable, if_pos hwhole]
      refine harrived _ ?_
      rw [hkept.chunks_of_whole hknown hwhole]
      exact List.mem_singleton_self _

/-- Two texts, which are cut into three slices of twelve bytes each. -/
def lettersConfig : Config Bool where
  options := ⟨ascii "127.0.0.1", 12201, ascii "h", true, 1, false, 24⟩
  shouldLog := fun _ => true
  payload := fun capital => some (if capital then ⟨ascii "ABCDEFGHIJKLMNOPQRSTUVWXY", by decide⟩
    else ⟨ascii "abcdefghijklmnopqrstuvwxy", by decide⟩)

/-- The second `sendto` of thread 0 fails; thread 1 writes during the back-off. -/
def backOffRun : List (Action Bool) :=
  [.write 0 false 5, .step 0, .sendto 0 .sent, .sendto 0 .failed, .write 1 true 6, .step 0, .step 1,
    .step 1, .step 1, .step 0, .configured 0 (.ok [1])] ++
    List.replicate 3 (.sendto 0 .sent) ++ [.step 0, .step 1, .configured 1 (.ok [1])] ++
    List.replicate 3 (.sendto 1 .sent) ++ [.step 1]

theorem receivers_obtain_backOffRun :
    ∃ s, (machine lettersConfig).run (.initial ⟨[1]⟩) backOffRun = some s ∧
      s.history.returned.map Call.event = [false, true] ∧
      Obtained lettersConfig s (s.history.sendto.map SendtoCall.datagram).reverse := by
  have hrun : ((machine lettersConfig).run (.initial ⟨[1]⟩) backOffRun).map
      (fun s => s.history.returned.map Call.event) = some [false, true] := by decide
  obtain ⟨s, hs, heq⟩ := Option.map_eq_some_iff.mp hrun
  have hreadings : lettersConfig.readings backOffRun = [5, 6] := rfl
  refine ⟨s, hs, heq, receivers_obtain (by decide) ?_ hs ?_ ?_⟩
  · rintro event payload hpayload
    obtain rfl := Option.some.inj hpayload
    cases event <;> decide
  · rw [hreadings]
    decide
  · intro d hd
    obtain ⟨c, hc, rfl⟩ := List.mem_map.mp (List.mem_reverse.mp hd)
    exact ⟨c, hc, rfl⟩

end GelfWriters

end Logspine
