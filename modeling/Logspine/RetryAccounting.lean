import Logspine.Execution
import Logspine.RetryBooks
import Logspine.StreamFraming

/-!
# Retry accounting

The sinks over a `tcp_client` keep the books of `RetryBooks`: each step of a thread is an entry
or leaves them as they are. So every call that threw has failed in each of its attempts, every
call that returned in each but the last, and the counters add up, in any interleaving. A call
for which no connection and no `::send` fails returns.
-/

universe u

namespace Logspine

namespace StreamSink

variable {E : Type u} {cfg : Config E} {s s' s₀ : State E} {t : ℕ} {as : List (Action E)}

/-! ## The books of a sink -/

/-- `options_.reconnect_on_failure ? options_.max_write_retries : 0U` -/
def Config.retryBudget (cfg : Config E) : ℕ :=
  if cfg.reconnectOnFailure then cfg.maxWriteRetries else 0

/-- How far a place is with its call. -/
def Pc.stage : Pc E → Stage E
  | .idle => .idle
  | .lock call => .waiting call
  | .ensureConnected l | .sendAll l | .send l _ | .sent l | .failed l _ | .relock l =>
    .trying l.call l.retriesRemaining

/-- The books of a state. -/
def State.books (s : State E) : Books E :=
  ⟨fun t => (s.threads t).stage, s.statistics, s.lastErrorMessage, s.history⟩

theorem books_goto (s : State E) (t : ℕ) (pc : Pc E) :
    (s.goto t pc).books = s.books.goto t pc.stage := by
  have hstages : (fun u => (Function.update s.threads t pc u).stage) =
      Function.update (fun u => (s.threads u).stage) t pc.stage := by
    funext u
    by_cases hu : u = t
    · rw [hu, Function.update_self, Function.update_self]
    · rw [Function.update_of_ne hu, Function.update_of_ne hu]
  rw [State.books, Books.goto]
  exact congrArg (Books.mk · s.statistics s.lastErrorMessage s.history) hstages

/-- A thread that stays at a stage makes no entry. -/
theorem books_goto_same {pc : Pc E} (h : (s.threads t).stage = pc.stage) (hs : s'.books = s.books) :
    (s'.goto t pc).books = s.books := by
  have hself : s.books.goto t pc.stage = s.books := by
    rw [← h, Books.goto]
    exact congrArg (Books.mk · s.statistics s.lastErrorMessage s.history)
      (Function.update_eq_self t _)
  rw [books_goto, hs, hself]

theorem books_onConnection (s : State E) (f : Connection E → Connection E) :
    (s.onConnection f).books = s.books := by
  obtain ⟨connections, h⟩ := exists_onConnection s f
  rw [h]
  rfl

theorem books_sendLoop {l : Locals E} (h : (s.threads t).stage = .trying l.call l.retriesRemaining)
    (hs : s'.books = s.books) (offset : ℕ) : (s'.sendLoop t l offset).books = s.books := by
  rw [State.sendLoop]
  split
  · exact books_goto_same h hs
  · exact books_goto_same h ((books_onConnection s' _).trans hs)

/-- The exceptions that threads have caught have a text. -/
def State.Reported (s : State E) : Prop :=
  ∀ t l what, s.threads t = .failed l what → what ≠ []

theorem reported_goto {pc : Pc E} (h : s.Reported) (hpc : ∀ l what, pc = .failed l what → what ≠ [])
    (hs : s'.threads = s.threads) : (s'.goto t pc).Reported := by
  intro u l what hu
  by_cases hut : u = t
  · rw [hut, goto_threads_self] at hu
    exact hpc l what hu
  · rw [goto_threads_of_ne _ hut, hs] at hu
    exact h u l what hu

theorem reported_sendLoop (h : s.Reported) (hs : s'.threads = s.threads) (l : Locals E)
    (offset : ℕ) : (s'.sendLoop t l offset).Reported := by
  obtain ⟨connections, pc, heq, hpc⟩ := exists_sendLoop s' t l offset
  rw [heq]
  refine reported_goto h ?_ hs
  rcases hpc with rfl | rfl <;> rintro _ _ ⟨⟩

/-- A step keeps the texts. -/
theorem State.Reported.moves (h : s.Reported) (hmove : Moves cfg s t s') : s'.Reported := by
  cases hmove with
  | stay => exact h
  | sendAll l ht hc => exact reported_sendLoop h rfl l 0
  | accepted l offset count ht hpos hc hle =>
    exact reported_sendLoop h (onConnection_threads s _) l (offset + count)
  | notOpened l failure ht hc =>
    refine reported_goto h ?_ rfl
    rintro _ _ ⟨⟩
    exact failure.what_ne_nil
  | notConnected l ht hc =>
    refine reported_goto h ?_ rfl
    rintro _ _ ⟨⟩
    decide
  | sendFailed l offset ht =>
    refine reported_goto h ?_ rfl
    rintro _ _ ⟨⟩
    decide
  | _ => exact reported_goto h (by rintro _ _ ⟨⟩) rfl

/-- A step of a thread is an entry into the books, or leaves them as they are. -/
theorem Moves.entry (hmove : Moves cfg s t s') (hs : s.Reported) :
    s'.books = s.books ∨ Books.Entry cfg.retryBudget s.books s'.books := by
  have hstage : ∀ {pc : Pc E}, s.threads t = pc → s.books.stages t = pc.stage := by
    rintro pc rfl
    rfl
  cases hmove with
  | stay => exact .inl rfl
  | begin event payload ht hp =>
    refine .inr ?_
    rw [State.begin, books_goto]
    exact .begin t _ (hstage ht) rfl
  | lock call ht hm =>
    refine .inr ?_
    rw [State.firstLock, books_goto]
    exact .enter t call (hstage ht)
  | sendAll l ht hc => exact .inl (books_sendLoop (by rw [ht]; rfl) rfl 0)
  | accepted l offset count ht hpos hc hle =>
    exact .inl (books_sendLoop (by rw [ht]; rfl) (books_onConnection s _) (offset + count))
  | returned l ht =>
    refine .inr ?_
    rw [State.returned, books_goto]
    exact .succeed t l.call l.retriesRemaining (hstage ht)
  | thrown l what ht hr =>
    refine .inr ?_
    rw [State.thrown, books_goto]
    exact .giveUp t l.call what ((hstage ht).trans (congrArg (Stage.trying l.call) hr))
      (hs t l what ht)
  | backOff l what ht hr =>
    refine .inr ?_
    rw [State.backOff, books_goto]
    refine .retry t l.call (l.retriesRemaining - 1) what ((hstage ht).trans ?_) (hs t l what ht)
    exact congrArg (Stage.trying l.call) (by omega)
  | relock l ht hm => exact .inl (books_goto_same (by rw [ht]; rfl) rfl)
  | isConnected l ht hc => exact .inl (books_goto_same (by rw [ht]; rfl) rfl)
  | opened l ht hc => exact .inl (books_goto_same (by rw [ht]; rfl) rfl)
  | notOpened l failure ht hc => exact .inl (books_goto_same (by rw [ht]; rfl) rfl)
  | notConnected l ht hc => exact .inl (books_goto_same (by rw [ht]; rfl) rfl)
  | sendFailed l offset ht => exact .inl (books_goto_same (by rw [ht]; rfl) rfl)

/-- A sink just built has done nothing yet. -/
theorem initial_of_construct {lazyConnect : Bool} {result : Except ConnectFailure Unit}
    (h : construct lazyConnect result = .ok s) :
    ∃ (client : TcpClient) (connections : List (Connection E)),
      s = .initial client connections := by
  unfold construct at h
  split at h
  · exact ⟨_, _, (Except.ok.inj h).symm⟩
  · cases result with
    | ok => exact ⟨_, _, (Except.ok.inj h).symm⟩
    | error failure => cases h

theorem books_construct {lazyConnect : Bool} {result : Except ConnectFailure Unit}
    (h : construct lazyConnect result = .ok s) : s.books = Books.initial ∧ s.Reported := by
  obtain ⟨client, connections, rfl⟩ := initial_of_construct h
  exact ⟨rfl, by rintro _ _ _ ⟨⟩⟩

/-- The books of every state reached. -/
theorem kept_run {lazyConnect : Bool} {result : Except ConnectFailure Unit}
    (h₀ : construct lazyConnect result = .ok s₀) (hrun : (machine cfg).run s₀ as = some s) :
    s.books.Kept cfg.retryBudget := by
  obtain ⟨hbooks, hreported⟩ := books_construct h₀
  have hpath : Relation.ReflTransGen (Books.Entry cfg.retryBudget) s₀.books s.books := by
    refine Machine.reflTransGen_of_run (I := State.Reported) (fun s a s' hs hstep => ?_)
      (fun s a s' hs hstep => ?_) hreported hrun
    · exact hs.moves (moves_thread_of_step hstep)
    · exact (moves_thread_of_step hstep).entry hs
  rw [hbooks] at hpath
  exact Books.kept_initial.entries hpath

/-! ## Calls -/

/-- The action is a write that passes the filter. -/
def Action.logs (cfg : Config E) : Action E → Bool
  | write _ event => cfg.shouldLog event
  | _ => false

/-- A thread inside a call begins none. -/
theorem Moves.calls_of_running (hmove : Moves cfg s t s') (ht : s.threads t ≠ .idle) :
    s'.history.calls = s.history.calls := by
  cases hmove with
  | begin event payload hidle hp => exact absurd hidle ht
  | sendAll l ht hc => exact congrArg History.calls (sendLoop_history s t l 0)
  | accepted l offset count ht hpos hc hle =>
    refine congrArg History.calls ?_
    rw [State.accepted, sendLoop_history, onConnection_history]
  | _ => rfl

/-- What an action other than `write` asks for is asked for inside a call. -/
theorem running_of_step {a : Action E} (h : (machine cfg).step s a = some s')
    (ha : ∀ t event, a ≠ .write t event) : s.threads a.thread ≠ .idle := by
  intro hidle
  cases a with
  | write t event => exact ha t event rfl
  | step t =>
    have hnone : advance cfg s t = none := by rw [advance, show s.threads t = .idle from hidle]
    rw [show (machine cfg).step s (.step t) = advance cfg s t from rfl, hnone] at h
    cases h
  | connect t result =>
    have hnone : connected s t result = none := by
      rw [connected, show s.threads t = .idle from hidle]
    rw [show (machine cfg).step s (.connect t result) = connected s t result from rfl, hnone] at h
    cases h
  | send t result =>
    have hnone : sendReturned s t result = none := by
      rw [sendReturned, show s.threads t = .idle from hidle]
    rw [show (machine cfg).step s (.send t result) = sendReturned s t result from rfl, hnone] at h
    cases h

/-- What a `write` does. -/
theorem write_step {event : E} (hpayload : cfg.payload event ≠ none)
    (h : (machine cfg).step s (.write t event) = some s') : s.threads t = .idle ∧
      if cfg.shouldLog event then
        ∃ payload, cfg.payload event = some payload ∧ s' = s.begin t event payload
      else s' = s := by
  dsimp only [machine] at h
  split at h
  case h_1 ht =>
    refine ⟨ht, ?_⟩
    split at h
    case isTrue hlog =>
      rw [if_pos hlog]
      obtain ⟨payload, hp⟩ := Option.ne_none_iff_exists'.mp hpayload
      rw [hp] at h
      exact ⟨payload, hp, (Option.some.inj h).symm⟩
    case isFalse hlog =>
      rw [if_neg hlog]
      exact (Option.some.inj h).symm
  case h_2 => cases h

/-- A step adds a call when it is a write that passes the filter. -/
theorem length_calls_step (hpayload : ∀ event, cfg.payload event ≠ none) {a : Action E}
    (h : (machine cfg).step s a = some s') : s'.history.calls.length =
      s.history.calls.length + if a.logs cfg then 1 else 0 := by
  have hother : (∀ t event, a ≠ .write t event) → s'.history.calls = s.history.calls :=
    fun ha => (moves_thread_of_step h).calls_of_running (running_of_step h ha)
  cases a with
  | write t event =>
    obtain ⟨-, hs'⟩ := write_step (hpayload event) h
    rw [Action.logs]
    split at hs'
    case isTrue hlog =>
      obtain ⟨payload, -, rfl⟩ := hs'
      rw [if_pos hlog]
      exact List.length_append
    case isFalse hlog =>
      rw [hs', if_neg hlog]
      rfl
  | step t => rw [hother (by rintro _ _ ⟨⟩)]; rfl
  | connect t result => rw [hother (by rintro _ _ ⟨⟩)]; rfl
  | send t result => rw [hother (by rintro _ _ ⟨⟩)]; rfl

/-- The calls of a run are its writes that pass the filter. -/
theorem length_calls_run (hpayload : ∀ event, cfg.payload event ≠ none)
    (hcalls : s₀.history.calls = []) (hrun : (machine cfg).run s₀ as = some s) :
    s.history.calls.length = as.countP (Action.logs cfg) := by
  refine Machine.run_induction (P := fun (as : List (Action E)) (s : State E) =>
    s.history.calls.length = as.countP (Action.logs cfg)) ?_ (fun as s a s' _ hs hstep => ?_) hrun
  · rw [hcalls]
    rfl
  · rw [List.countP_append, List.countP_singleton, ← hs, length_calls_step hpayload hstep]

/-! ## Writes that return -/

/-- The network fails the action: a connection is not made, or a `::send` takes nothing. -/
def Action.Fails : Action E → Prop
  | connect _ (.error _) => True
  | send _ result => result = .failed ∨ result = .sent 0
  | _ => False

/-- The action takes its thread on: the network does not fail it, nor interrupt a `::send`. -/
def Action.TakesOn (t : ℕ) (a : Action E) : Prop :=
  a.thread = t ∧ ¬ a.Fails ∧ a ≠ .send t .interrupted

/-- The call at a place where nothing has failed since it began. -/
def Pc.onCourse : Pc E → Option (Call E)
  | .lock call => some call
  | .ensureConnected l | .sendAll l | .send l _ | .sent l => some l.call
  | .idle | .failed _ _ | .relock _ => none

/-- How many steps a place is from the end of its call, at most. -/
def Pc.rank : Pc E → ℕ
  | .lock call => call.payload.length + 5
  | .ensureConnected l => l.call.payload.length + 4
  | .sendAll l => l.call.payload.length + 3
  | .send l offset => l.call.payload.length - offset + 2
  | .sent _ => 1
  | .idle | .failed _ _ | .relock _ => 0

/-- The thread relies on a connection. -/
def Pc.online : Pc E → Bool
  | .sendAll _ | .send _ _ => true
  | _ => false

/-- A thread that relies on a connection has one. -/
def State.Online (s : State E) : Prop :=
  ∀ t, (s.threads t).online = true → s.client.connected = true

theorem holds_of_online {pc : Pc E} (h : pc.online = true) : pc.holds = true := by
  cases pc with
  | sendAll l => rfl
  | send l offset => rfl
  | _ => cases h

/-- A thread that holds the lock goes on: no other one relies on the connection. -/
theorem online_inside {pc : Pc E} (howner : Owned Pc.holds s.threads s.mutex)
    (ht : (s.threads t).holds = true) (hs : s'.threads = s.threads)
    (hpc : pc.online = true → s'.client.connected = true) : (s'.goto t pc).Online := by
  intro u hu
  by_cases hut : u = t
  · rw [hut, goto_threads_self] at hu
    exact hpc hu
  · rw [goto_threads_of_ne _ hut, hs] at hu
    have hmutex := (howner u).mp (holds_of_online hu)
    rw [(howner t).mp ht] at hmutex
    exact absurd (Option.some.inj hmutex).symm hut

/-- A thread goes on and leaves the client as it is. -/
theorem online_outside {pc : Pc E} (h : s.Online) (hs : s'.threads = s.threads)
    (hclient : s'.client = s.client) (hpc : pc.online = false) : (s'.goto t pc).Online := by
  intro u hu
  by_cases hut : u = t
  · rw [hut, goto_threads_self, hpc] at hu
    cases hu
  · rw [goto_threads_of_ne _ hut, hs] at hu
    show s'.client.connected = true
    rw [hclient]
    exact h u hu

theorem online_sendLoop {l : Locals E} {offset : ℕ} (howner : Owned Pc.holds s.threads s.mutex)
    (ht : (s.threads t).holds = true) (hs : s'.threads = s.threads)
    (hc : s'.client.connected = true) : (s'.sendLoop t l offset).Online := by
  obtain ⟨connections, pc, heq, -⟩ := exists_sendLoop s' t l offset
  rw [heq]
  exact online_inside howner ht hs fun _ => hc

/-- A step keeps the connections that threads rely on. -/
theorem State.Online.moves (h : s.Online) (hframed : s.Framed) (hmove : Moves cfg s t s') :
    s'.Online := by
  have howner := hframed.owner
  cases hmove with
  | stay => exact h
  | begin event payload ht hp => exact online_outside h rfl rfl rfl
  | lock call ht hm => exact online_outside h rfl rfl rfl
  | relock l ht hm => exact online_outside h rfl rfl rfl
  | isConnected l ht hc => exact online_inside howner (by rw [ht]; rfl) rfl fun _ => hc
  | opened l ht hc => exact online_inside howner (by rw [ht]; rfl) rfl fun _ => rfl
  | notOpened l failure ht hc => exact online_inside howner (by rw [ht]; rfl) rfl (by rintro ⟨⟩)
  | sendAll l ht hc => exact online_sendLoop howner (by rw [ht]; rfl) rfl hc
  | notConnected l ht hc => exact online_outside h rfl rfl rfl
  | accepted l offset count ht hpos hc hle =>
    refine online_sendLoop howner (by rw [ht]; rfl) (onConnection_threads s _) ?_
    rw [onConnection_client]
    exact hc
  | sendFailed l offset ht => exact online_inside howner (by rw [ht]; rfl) rfl (by rintro ⟨⟩)
  | returned l ht => exact online_outside h rfl rfl rfl
  | thrown l what ht hr => exact online_outside h rfl rfl rfl
  | backOff l what ht hr => exact online_inside howner (by rw [ht]; rfl) rfl (by rintro ⟨⟩)

/-- The steps of a call on course that the network does not fail. -/
inductive Advances (cfg : Config E) (s : State E) (a : Action E) : State E → Prop where
  | interrupted (ha : a = .send a.thread .interrupted) : Advances cfg s a s
  | lock (call : Call E) (ht : s.threads a.thread = .lock call) (hm : s.mutex = none) :
      Advances cfg s a (s.firstLock cfg a.thread call)
  | isConnected (l : Locals E) (ht : s.threads a.thread = .ensureConnected l) :
      Advances cfg s a (s.goto a.thread (.sendAll l))
  | opened (l : Locals E) (ht : s.threads a.thread = .ensureConnected l) :
      Advances cfg s a (s.opened a.thread l)
  | sendAll (l : Locals E) (ht : s.threads a.thread = .sendAll l) :
      Advances cfg s a (s.sendLoop a.thread l 0)
  | accepted (l : Locals E) (offset count : ℕ) (ht : s.threads a.thread = .send l offset)
      (hpos : count ≠ 0) (hle : offset + count ≤ l.call.payload.length) :
      Advances cfg s a (s.accepted a.thread l offset count)
  | returned (l : Locals E) (ht : s.threads a.thread = .sent l) :
      Advances cfg s a (s.returned a.thread l)

theorem advances_of_step {a : Action E} {call : Call E}
    (hcourse : (s.threads a.thread).onCourse = some call) (honline : s.Online) (ha : ¬ a.Fails)
    (h : (machine cfg).step s a = some s') : Advances cfg s a s' := by
  cases a with
  | write t event =>
    dsimp only [machine] at h
    split at h
    case h_1 ht =>
      rw [show s.threads (Action.write t event).thread = .idle from ht] at hcourse
      cases hcourse
    case h_2 => cases h
  | step t =>
    have hstep : advance cfg s t = some s' := h
    have hcourse' : (s.threads t).onCourse = some call := hcourse
    rw [advance] at hstep
    cases ht : s.threads t with
    | lock call =>
      rw [ht] at hstep
      obtain ⟨hm, hs'⟩ := Option.ite_none_right_eq_some.mp hstep
      obtain rfl := Option.some.inj hs'
      exact .lock call ht hm
    | ensureConnected l =>
      rw [ht] at hstep
      obtain ⟨-, hs'⟩ := Option.ite_none_right_eq_some.mp hstep
      obtain rfl := Option.some.inj hs'
      exact .isConnected l ht
    | sendAll l =>
      have hc : s.client.connected = true := honline t (by rw [ht]; rfl)
      rw [ht] at hstep
      dsimp only at hstep
      rw [if_pos hc] at hstep
      obtain rfl := Option.some.inj hstep
      exact .sendAll l ht
    | sent l =>
      rw [ht] at hstep
      obtain rfl := Option.some.inj hstep
      exact .returned l ht
    | send l offset =>
      rw [ht] at hstep
      cases hstep
    | _ =>
      rw [ht] at hcourse'
      cases hcourse'
  | connect t result =>
    have hstep : connected s t result = some s' := h
    rw [connected] at hstep
    split at hstep
    case h_1 l ht =>
      obtain ⟨-, hs'⟩ := Option.ite_none_left_eq_some.mp hstep
      cases result with
      | ok =>
        obtain rfl := Option.some.inj hs'
        exact .opened l ht
      | error failure => exact absurd trivial ha
    case h_2 => cases hstep
  | send t result =>
    have hstep : sendReturned s t result = some s' := h
    rw [sendReturned] at hstep
    split at hstep
    case h_1 l offset ht =>
      cases result with
      | interrupted =>
        obtain rfl := Option.some.inj hstep
        exact .interrupted rfl
      | failed => exact absurd (.inl rfl) ha
      | sent count =>
        have hpos : count ≠ 0 := fun hzero => ha (.inr (congrArg SendResult.sent hzero))
        dsimp only at hstep
        rw [if_neg hpos] at hstep
        obtain ⟨⟨-, hle⟩, hs'⟩ := Option.ite_none_right_eq_some.mp hstep
        obtain rfl := Option.some.inj hs'
        exact .accepted l offset count ht hpos hle
    case h_2 => cases hstep

/-- A call on course stays on course or returns. -/
theorem Advances.onCourse {a : Action E} (h : Advances cfg s a s') {call : Call E}
    (hcourse : (s.threads a.thread).onCourse = some call) :
    (s'.threads a.thread).onCourse = some call ∨ call ∈ s'.history.returned := by
  have hloop : ∀ (s₁ : State E) (l : Locals E) (offset : ℕ), l.call = call →
      ((s₁.sendLoop a.thread l offset).threads a.thread).onCourse = some call := by
    rintro s₁ l offset rfl
    rcases exists_sendLoop s₁ a.thread l offset with ⟨connections, pc, heq, rfl | rfl⟩
    · rw [heq, goto_threads_self]
      rfl
    · rw [heq, goto_threads_self]
      rfl
  cases h with
  | interrupted ha => exact .inl hcourse
  | lock c ht hm =>
    rw [ht] at hcourse
    obtain rfl := Option.some.inj hcourse
    rw [State.firstLock, goto_threads_self]
    exact .inl rfl
  | isConnected l ht =>
    rw [ht] at hcourse
    obtain rfl := Option.some.inj hcourse
    rw [goto_threads_self]
    exact .inl rfl
  | opened l ht =>
    rw [ht] at hcourse
    obtain rfl := Option.some.inj hcourse
    rw [State.opened, goto_threads_self]
    exact .inl rfl
  | sendAll l ht =>
    rw [ht] at hcourse
    exact .inl (hloop s l 0 (Option.some.inj hcourse))
  | accepted l offset count ht hpos hle =>
    rw [ht] at hcourse
    exact .inl (hloop _ l (offset + count) (Option.some.inj hcourse))
  | returned l ht =>
    rw [ht] at hcourse
    obtain rfl := Option.some.inj hcourse
    exact .inr (List.mem_append_right _ (List.mem_singleton_self _))

/-- A call on course comes nearer to its end. -/
theorem Advances.rank_lt {a : Action E} (h : Advances cfg s a s')
    (ha : a ≠ .send a.thread .interrupted) :
    (s'.threads a.thread).rank < (s.threads a.thread).rank := by
  have hloop : ∀ (s₁ : State E) (l : Locals E) (offset : ℕ),
      ((s₁.sendLoop a.thread l offset).threads a.thread).rank ≤
        l.call.payload.length - offset + 2 := by
    intro s₁ l offset
    rcases exists_sendLoop s₁ a.thread l offset with ⟨connections, pc, heq, rfl | rfl⟩
    · rw [heq, goto_threads_self]
      exact Nat.le_refl _
    · rw [heq, goto_threads_self]
      exact Nat.le_add_left 1 _
  cases h with
  | interrupted ha' => exact absurd ha' ha
  | lock c ht hm =>
    rw [State.firstLock, goto_threads_self, ht]
    exact Nat.lt_succ_self _
  | isConnected l ht =>
    rw [goto_threads_self, ht]
    exact Nat.lt_succ_self _
  | opened l ht =>
    rw [State.opened, goto_threads_self, ht]
    exact Nat.lt_succ_self _
  | sendAll l ht =>
    have hle := hloop s l 0
    rw [ht, Pc.rank]
    omega
  | accepted l offset count ht hpos hle =>
    have hle' := hloop
      (s.onConnection (Connection.accept ((l.call.payload.drop offset).take count))) l
      (offset + count)
    rw [State.accepted, ht, Pc.rank]
    omega
  | returned l ht =>
    rw [State.returned, goto_threads_self, ht]
    exact Nat.zero_lt_one

theorem onConnection_mutex (s : State E) (f : Connection E → Connection E) :
    (s.onConnection f).mutex = s.mutex := by
  obtain ⟨connections, h⟩ := exists_onConnection s f
  rw [h]

theorem sendLoop_mutex (s : State E) (t : ℕ) (l : Locals E) (offset : ℕ) :
    (s.sendLoop t l offset).mutex = s.mutex := by
  obtain ⟨connections, pc, h, -⟩ := exists_sendLoop s t l offset
  rw [h]
  rfl

/-- The lock stays free or with the thread of the call. -/
theorem Advances.mutex {a : Action E} (h : Advances cfg s a s')
    (hm : s.mutex = none ∨ s.mutex = some a.thread) :
    s'.mutex = none ∨ s'.mutex = some a.thread := by
  cases h with
  | lock c ht hm' => exact .inr rfl
  | sendAll l ht => rwa [sendLoop_mutex]
  | accepted l offset count ht hpos hle => rwa [State.accepted, sendLoop_mutex, onConnection_mutex]
  | returned l ht => exact .inl rfl
  | _ => exact hm

/-- A call on course can go on when the lock is free or its own. -/
theorem enabled_of_onCourse (hframed : s.Framed) (honline : s.Online) {call : Call E}
    (hcourse : (s.threads t).onCourse = some call) (hm : s.mutex = none ∨ s.mutex = some t) :
    (machine cfg).Enabled (Action.TakesOn t) s := by
  have hstep : ∀ s', advance cfg s t = some s' → (machine cfg).Enabled (Action.TakesOn t) s :=
    fun s' h => ⟨.step t, s', ⟨rfl, id, by rintro ⟨⟩⟩, h⟩
  have hrange := hframed.inRange t
  cases ht : s.threads t with
  | lock call =>
    have hfree : s.mutex = none := by
      refine hm.resolve_right fun hown => ?_
      have hholds := (hframed.owner t).mpr hown
      rw [ht] at hholds
      cases hholds
    exact hstep _ (by rw [advance, ht]; exact if_pos hfree)
  | ensureConnected l =>
    by_cases hc : s.client.connected = true
    · exact hstep _ (by rw [advance, ht]; exact if_pos hc)
    · refine ⟨.connect t (.ok ()), s.opened t l, ⟨rfl, id, by rintro ⟨⟩⟩, ?_⟩
      show connected s t (.ok ()) = some (s.opened t l)
      rw [connected, ht]
      exact if_neg hc
  | sendAll l =>
    have hc : s.client.connected = true := honline t (by rw [ht]; rfl)
    exact hstep _ (by rw [advance, ht]; exact if_pos hc)
  | send l offset =>
    have hc : s.client.connected = true := honline t (by rw [ht]; rfl)
    rw [ht] at hrange
    have hlt : offset < l.call.payload.length := hrange
    -- the socket takes all that is left
    have hpos : l.call.payload.length - offset ≠ 0 := by omega
    have hnot : ¬ (Action.send (E := E) t (.sent (l.call.payload.length - offset))).Fails := by
      rintro (hfailed | hzero)
      · cases hfailed
      · exact hpos (SendResult.sent.inj hzero)
    refine ⟨.send t (.sent (l.call.payload.length - offset)),
      s.accepted t l offset (l.call.payload.length - offset), ⟨rfl, hnot, by rintro ⟨⟩⟩, ?_⟩
    · show sendReturned s t (.sent (l.call.payload.length - offset)) = some _
      rw [sendReturned, ht]
      exact (if_neg hpos).trans (if_pos ⟨hc, by omega⟩)
  | sent l => exact hstep _ (by rw [advance, ht])
  | _ =>
    rw [ht] at hcourse
    cases hcourse

/-- The call returns, when its thread goes on alone and the network does not fail it. -/
def State.ReturnsAlone (cfg : Config E) (s : State E) (t : ℕ) (call : Call E) : Prop :=
  (machine cfg).Inevitable (Action.TakesOn t) (fun s' => call ∈ s'.history.returned) s

theorem returnsAlone (hframed : s.Framed) (honline : s.Online) {call : Call E}
    (hcourse : (s.threads t).onCourse = some call) (hm : s.mutex = none ∨ s.mutex = some t) :
    s.ReturnsAlone cfg t call := by
  refine Machine.Inevitable.of_rank (I := fun s : State E => s.Framed ∧ s.Online ∧
    (call ∈ s.history.returned ∨ (s.threads t).onCourse = some call ∧
      (s.mutex = none ∨ s.mutex = some t))) (fun s => (s.threads t).rank) ?_ ?_
    ⟨hframed, honline, .inr ⟨hcourse, hm⟩⟩
  · rintro s ⟨hframed, honline, hreturned | ⟨hcourse, hm⟩⟩ hnot
    · exact absurd hreturned hnot
    · exact enabled_of_onCourse hframed honline hcourse hm
  · rintro s a s' ⟨hframed, honline, hreturned | ⟨hcourse, hm⟩⟩ hnot ⟨rfl, hfails, hsend⟩ hstep
    · exact absurd hreturned hnot
    · have hmove := moves_thread_of_step hstep
      have hadvance := advances_of_step hcourse honline hfails hstep
      refine ⟨⟨hframed.moves hmove, honline.moves hframed hmove, ?_⟩, hadvance.rank_lt hsend⟩
      rcases hadvance.onCourse hcourse with hcourse' | hreturned
      · exact .inr ⟨hcourse', hadvance.mutex hm⟩
      · exact .inl hreturned

/-- A step of one thread leaves the others where they are. -/
theorem Moves.threads_of_ne (hmove : Moves cfg s t s') {u : ℕ} (hu : u ≠ t) :
    s'.threads u = s.threads u := by
  have hloop : ∀ {s₁ : State E} (l : Locals E) (offset : ℕ), s₁.threads = s.threads →
      (s₁.sendLoop t l offset).threads u = s.threads u := by
    intro s₁ l offset hs₁
    obtain ⟨connections, pc, heq, -⟩ := exists_sendLoop s₁ t l offset
    rw [heq, goto_threads_of_ne _ hu, hs₁]
  cases hmove with
  | stay => rfl
  | sendAll l ht hc => exact hloop l 0 rfl
  | accepted l offset count ht hpos hc hle =>
    exact hloop l (offset + count) (onConnection_threads s _)
  | _ => exact goto_threads_of_ne _ hu _

/-- A call that returned has returned. -/
theorem Moves.returned_subset (hmove : Moves cfg s t s') :
    s.history.returned ⊆ s'.history.returned := by
  cases hmove with
  | sendAll l ht hc => rw [sendLoop_history]; exact List.Subset.refl _
  | accepted l offset count ht hpos hc hle =>
    rw [State.accepted, sendLoop_history, onConnection_history]
    exact List.Subset.refl _
  | returned l ht => exact List.subset_append_left _ _
  | _ => exact List.Subset.refl _

/-- What holds of a call for which the network fails nothing: it has returned, or is on course,
and returns when its thread goes on alone. -/
def State.Succeeds (cfg : Config E) (s : State E) (t : ℕ) (call : Call E) : Prop :=
  call ∈ s.history.returned ∨ (s.threads t).onCourse = some call ∧
    (s.mutex = none ∨ s.mutex = some t → s.ReturnsAlone cfg t call)

/-- A call on course succeeds, in any run in which the network fails nothing that its thread
asks for. -/
theorem succeeds_run {bs : List (Action E)} {call : Call E} (hframed : s.Framed)
    (honline : s.Online) (hcourse : (s.threads t).onCourse = some call)
    (hrun : (machine cfg).run s bs = some s') (hbs : ∀ a ∈ bs, a.thread = t → ¬ a.Fails) :
    s'.Succeeds cfg t call := by
  have hinv : s'.Framed ∧ s'.Online ∧
      (call ∈ s'.history.returned ∨ (s'.threads t).onCourse = some call) := by
    refine Machine.run_induction (P := fun (bs : List (Action E)) (s' : State E) =>
      (∀ a ∈ bs, a.thread = t → ¬ a.Fails) → s'.Framed ∧ s'.Online ∧
        (call ∈ s'.history.returned ∨ (s'.threads t).onCourse = some call))
      (fun _ => ⟨hframed, honline, .inr hcourse⟩) ?_ hrun hbs
    intro bs s₁ a s₂ _ ih hstep hbs
    obtain ⟨hbs', ha⟩ := List.forall_mem_append.mp hbs
    obtain ⟨hframed₁, honline₁, hcall⟩ := ih hbs'
    have hmove := moves_thread_of_step hstep
    refine ⟨hframed₁.moves hmove, honline₁.moves hframed₁ hmove, ?_⟩
    rcases hcall with hreturned | hcourse₁
    · exact .inl (hmove.returned_subset hreturned)
    · by_cases hthread : a.thread = t
      · have hfails := ha a (List.mem_singleton_self a) hthread
        rw [← hthread] at hcourse₁ ⊢
        exact ((advances_of_step hcourse₁ honline₁ hfails hstep).onCourse hcourse₁).symm
      · rw [hmove.threads_of_ne (Ne.symm hthread)]
        exact .inr hcourse₁
  rcases hinv with ⟨hframed', honline', hreturned | hcourse'⟩
  · exact .inl hreturned
  · exact .inr ⟨hcourse', returnsAlone hframed' honline' hcourse'⟩

/-! ## The accounts -/

/-- What a sink accounts for, after a run. -/
structure Accounts (cfg : Config E) (as : List (Action E)) (s : State E) : Prop where
  /-- a write that threw has made all attempts, and each failed -/
  thrown : ∀ call ∈ s.history.thrown,
    (s.books.outcomes call.number).length = cfg.retryBudget + 1 ∧
      Books.AllFailed (s.books.outcomes call.number)
  /-- a write that returned has made no more, and only the last one succeeded -/
  returned : ∀ call ∈ s.history.returned, ∃ failures,
    s.books.outcomes call.number = failures ++ [none] ∧ failures.length ≤ cfg.retryBudget ∧
      Books.AllFailed failures
  /-- a write for which the network fails nothing succeeds, whatever happened before -/
  succeeds : ∀ t event s₁ bs s₂, cfg.shouldLog event = true →
    (machine cfg).step s (.write t event) = some s₁ → (machine cfg).run s₁ bs = some s₂ →
      (∀ a ∈ bs, a.thread = t → ¬ a.Fails) → ∃ call, call.number = s.history.calls.length ∧
        call.event = event ∧ s₂.Succeeds cfg t call
  /-- the counters, while no write is in progress -/
  statistics : (∀ t, s.threads t = .idle) →
    s.statistics.writeAttempts = as.countP (Action.logs cfg) ∧
      s.statistics.writeFailures = s.statistics.reconnectAttempts + s.history.thrown.length
  /-- the message is empty when there was no attempt, or the last one succeeded -/
  message : s.lastErrorMessage = [] ↔
    ∀ attempt, s.history.attempts.getLast? = some attempt → attempt.2 = none

theorem online_construct {lazyConnect : Bool} {result : Except ConnectFailure Unit}
    (h : construct lazyConnect result = .ok s) : s.Online := by
  obtain ⟨client, connections, rfl⟩ := initial_of_construct h
  rintro t ⟨⟩

theorem online_run {lazyConnect : Bool} {result : Except ConnectFailure Unit}
    (h₀ : construct lazyConnect result = .ok s₀) (hrun : (machine cfg).run s₀ as = some s) :
    s.Framed ∧ s.Online := by
  refine Machine.invariant_run (I := fun s : State E => s.Framed ∧ s.Online)
    (fun s a s' hs hstep => ?_) ⟨framed_construct h₀, online_construct h₀⟩ hrun
  have hmove := moves_thread_of_step hstep
  exact ⟨hs.1.moves hmove, hs.2.moves hs.1 hmove⟩

/-- **Retry accounting**, of any sink over a `tcp_client` whose formatter does not throw. -/
theorem accounts_run {lazyConnect : Bool} {result : Except ConnectFailure Unit}
    (hpayload : ∀ event, cfg.payload event ≠ none) (h₀ : construct lazyConnect result = .ok s₀)
    (hrun : (machine cfg).run s₀ as = some s) : Accounts cfg as s := by
  have hkept := kept_run h₀ hrun
  refine ⟨hkept.tallied.thrown, hkept.tallied.returned, ?_, ?_, hkept.counted.message⟩
  · intro t event s₁ bs s₂ hlog hstep hbs hfails
    obtain ⟨hframed, honline⟩ := online_run h₀ hrun
    have hmove := moves_thread_of_step hstep
    obtain ⟨-, hs₁⟩ := write_step (hpayload event) hstep
    rw [if_pos hlog] at hs₁
    obtain ⟨payload, -, rfl⟩ := hs₁
    refine ⟨⟨s.history.calls.length, event, payload⟩, rfl, rfl, ?_⟩
    refine succeeds_run (hframed.moves hmove) (honline.moves hframed hmove) ?_ hbs hfails
    rw [State.begin, goto_threads_self]
    rfl
  · intro hidle
    obtain ⟨client, connections, rfl⟩ := initial_of_construct h₀
    have hattempts := hkept.counted.attempts_of_idle fun t => congrArg Pc.stage (hidle t)
    exact ⟨hattempts.trans (length_calls_run hpayload rfl hrun), hkept.counted.failures⟩

end StreamSink

end Logspine
