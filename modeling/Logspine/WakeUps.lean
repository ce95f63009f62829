import Logspine.Locking
import Logspine.QueueSteps

/-!
# No wake-up is lost

The worker that finds the queue empty stores `sleeping_`, looks at the queue once more and
waits until `sleeping_` is cleared. A producer puts its item into the queue and then loads
`sleeping_`. The worker's second look and the producer's load cannot both miss the other:
while the worker dozes with `sleeping_` set and something is in the queue, a producer is
still to load `sleeping_`, or is on its way to clear it (`Watched`). The 50 ms of the wait
are not needed for this.
-/

namespace Logspine

namespace AsyncDispatcher

variable {E : Type} {cfg : Config} {s s' s₁ : State E} {as : List (Action E)}
  {sinks : List (Sink E)}

/-! ## Who sleeps and who wakes -/

/-- The worker has found the queue empty twice, and waits or is about to. -/
def WorkerPc.dozing : WorkerPc E → Bool
  | sleepTest | waitLock | waitStopping | waitSleeping | waiting => true
  | _ => false

/-- The thread has put its item into the queue and is still to load `sleeping_`, or has
seen it set and is on its way to clear it. -/
def Pc.wakes : Pc E → Bool
  | event _ _ _ .sleeping | event _ _ _ .lock | event _ _ _ .wake => true
  | request _ _ _ .sleeping | request _ _ _ .lock | request _ _ _ .wake => true
  | _ => false

/-- Something is in the queue. -/
def State.Waits (s : State E) : Prop := s.queue.taken < s.queue.accepted.length

/-- A worker that dozes over an item in the queue is about to be woken. -/
def Watched (s : State E) : Prop :=
  s.worker.dozing = true → s.sleeping = true → s.Waits → ∃ t, (s.threads t).wakes = true

/-! ## One step of a client thread -/

/-- What a step of thread `t` has to do with wake-ups: it ends where the thread wakes the
worker, or it adds nothing to the queue, and a thread that was to wake the worker has found
`sleeping_` clear or has cleared it. -/
def WakeStep (t : ℕ) (s s' : State E) : Prop :=
  (s'.sleeping = true → s.sleeping = true) ∧ ((s'.threads t).wakes = true ∨
    (s'.Waits → s.Waits) ∧ (s'.sleeping = true → (s.threads t).wakes = false))

/-- A step that leaves the queue and `sleeping_` alone and does not begin at a waking place. -/
theorem WakeStep.quiet {t : ℕ} {pc : Pc E} (hw : (s.threads t).wakes = false)
    (hq : s₁.queue = s.queue) (hs : s₁.sleeping = s.sleeping) : WakeStep t s (s₁.goto t pc) := by
  refine ⟨fun h => hs ▸ h, .inr ⟨fun h => ?_, fun _ => hw⟩⟩
  change s₁.queue.taken < s₁.queue.accepted.length at h
  rwa [hq] at h

/-- A step to a waking place. -/
theorem WakeStep.wakes {t : ℕ} {pc : Pc E} (hpc : pc.wakes = true)
    (hs : s₁.sleeping = true → s.sleeping = true) : WakeStep t s (s₁.goto t pc) := by
  refine ⟨hs, .inl ?_⟩
  change (Function.update s₁.threads t pc t).wakes = true
  rwa [Function.update_self]

/-- A step after which `sleeping_` is clear. -/
theorem WakeStep.clear {t : ℕ} {pc : Pc E} (hq : s₁.queue = s.queue) (hs : s₁.sleeping = false) :
    WakeStep t s (s₁.goto t pc) := by
  have hne : ∀ {p : Prop}, (s₁.goto t pc).sleeping = true → p := fun h => nomatch hs.symm.trans h
  refine ⟨hne, .inr ⟨fun h => ?_, hne⟩⟩
  change s₁.queue.taken < s₁.queue.accepted.length at h
  rwa [hq] at h

/-- A producer takes the oldest item out. -/
theorem WakeStep.take {t : ℕ} {pc : Pc E} (hw : (s.threads t).wakes = false)
    (hq : s₁.queue = { s.queue with taken := s.queue.taken + 1 })
    (hs : s₁.sleeping = s.sleeping) : WakeStep t s (s₁.goto t pc) := by
  refine ⟨fun h => hs ▸ h, .inr ⟨fun h => ?_, fun _ => hw⟩⟩
  change s₁.queue.taken < s₁.queue.accepted.length at h
  rw [hq] at h
  exact Nat.lt_of_succ_lt h

section Client

variable {t call : ℕ} {e : E} {owns ok : Bool}

/-- A step of `enqueue_event`. -/
theorem enqueueEvent_wake {pc : EventPc E} (ht : s.threads t = .event call e owns pc)
    (h : enqueueEvent cfg s t call e owns ok pc = some s') : WakeStep t s s' := by
  have hw : (s.threads t).wakes = (Pc.event call e owns pc).wakes := congrArg Pc.wakes ht
  cases enqueueEvent_moves h with
  | firstPut | retryPut | asleepHeld | asleepFree | lock => exact .wakes rfl fun h => h
  | evict => exact .take hw rfl rfl
  | awake hs => exact .clear rfl hs
  | wake => exact .clear rfl rfl
  | _ => exact .quiet hw rfl rfl

/-- A step of `enqueue_flush_request`. -/
theorem enqueueFlushRequest_wake {id : ℕ} {caller : Caller E} {pc : RequestPc}
    (ht : s.threads t = .request id caller owns pc)
    (h : enqueueFlushRequest cfg s t id caller owns ok pc = some s') : WakeStep t s s' := by
  have hw : (s.threads t).wakes = (Pc.request id caller owns pc).wakes := congrArg Pc.wakes ht
  cases enqueueFlushRequest_moves h with
  | put | asleepHeld | asleepFree | lock => exact .wakes rfl fun h => h
  | awake hs => exact .clear rfl hs
  | wake => exact .clear rfl rfl
  | _ => exact .quiet hw rfl rfl

/-- A step of a client thread. -/
theorem threadStep_wake (h : threadStep cfg s t ok = some s') : WakeStep t s s' := by
  rw [threadStep] at h
  split at h
  case h_1 => cases h
  case h_2 ht => exact enqueueEvent_wake ht h
  case h_3 ht => exact enqueueFlushRequest_wake ht h
  case h_4 before ht =>
    obtain rfl := Option.some.inj h
    exact .quiet (congrArg Pc.wakes ht) rfl rfl
  case h_5 id before pc ht =>
    have hw : (s.threads t).wakes = false := congrArg Pc.wakes ht
    cases pc with
    | test =>
      rw [flushWait] at h
      split at h <;> obtain rfl := Option.some.inj h <;> exact .quiet hw rfl rfl
    | argument =>
      obtain rfl := Option.some.inj h
      exact .quiet hw rfl rfl
    | wait old =>
      rw [flushWait] at h
      split at h
      · cases h
      · obtain rfl := Option.some.inj h
        exact .quiet hw rfl rfl

end Client

/-! ## One step of the worker -/

/-- What a step of the worker has to do with sleeping: it begins to doze only over an empty
queue, and while it dozes it stores nothing. -/
structure DozeStep (s s' : State E) : Prop where
  waits : s'.Waits → s.Waits
  dozes : s'.worker.dozing = true → s.Waits →
    s.worker.dozing = true ∧ s'.sleeping = s.sleeping

theorem DozeStep.awake (hq : s'.Waits → s.Waits) (hw : s'.worker.dozing = false) :
    DozeStep s s' := ⟨hq, fun h => nomatch hw.symm.trans h⟩

/-- The worker takes the oldest item out. -/
theorem DozeStep.take (hq : s'.queue = { s.queue with taken := s.queue.taken + 1 })
    (hw : s'.worker.dozing = false) : DozeStep s s' := by
  refine .awake (fun h => ?_) hw
  rw [State.Waits, hq] at h
  exact Nat.lt_of_succ_lt h

theorem dozing_fillBatch (batch : List (Ticketed E)) :
    (fillBatch cfg batch).dozing = false := by
  rw [fillBatch]
  split <;> rfl

theorem dozing_drainBatch (batch : List (Ticketed E)) :
    (drainBatch cfg batch).dozing = false := by
  rw [drainBatch]
  split <;> rfl

theorem dozing_processBatch : ∀ batch : List (Ticketed E), (processBatch batch).dozing = false
  | [] | (_, .event _ _) :: _ | (_, .flushRequest _) :: _ => rfl

/-- A guarded call on a sink keeps the worker awake. -/
theorem DozeStep.callSink {k : ℕ} {op : SinkOp (ℕ × E)} {next failed : WorkerPc E}
    (h : callSink s k op next failed = some s') (hn : next.dozing = false)
    (hf : failed.dozing = false) : DozeStep s s' := by
  have hw := callSink_place (P := fun pc => pc.dozing = false) h hn hf
  obtain ⟨sink, -, rfl⟩ := Option.map_eq_some_iff.mp h
  exact .awake id hw

/-- A step of `worker_loop`, when only an empty queue refuses a `dequeue`. -/
theorem workerStep_doze {ok : Bool} (hatomic : cfg.atomicQueue = true)
    (h : workerStep cfg s ok = some s') : DozeStep s s' := by
  obtain ⟨r, pc, rfl, hm⟩ := workerStep_moves h
  cases hm with
  | tryTaken | secondTaken => exact .take rfl rfl
  | secondRefused hempty =>
    -- the second look: the worker dozes only if the queue is empty now
    exact ⟨id, fun _ hwaits => absurd (hempty hatomic) (Nat.not_le.mpr hwaits)⟩
  | sleepStop | sleepOn | waitLock | waitStop | waitOn | waitAsleep | waitAwake | notified
  | timedOut => exact ⟨id, fun _ _ => ⟨rfl, rfl⟩⟩
  | keep => exact .awake id (dozing_fillBatch _)
  | drainTaken => exact .take rfl (dozing_drainBatch _)
  | fillTaken => exact .take rfl (dozing_fillBatch _)
  | write _ hcall | flush _ hcall | finalFlush _ hcall => exact .callSink hcall rfl rfl
  | notifyUnlock | written | raised | raisedBefore => exact .awake id (dozing_processBatch _)
  | _ => exact .awake id rfl

/-! ## Every run -/

/-- `shutdown` leaves the queue alone and never sets `sleeping_`. -/
theorem shutdownStep_wake {ok : Bool} (h : shutdownStep s ok = some s') :
    s'.queue = s.queue ∧ (s'.sleeping = true → s.sleeping = true) := by
  rw [shutdownStep] at h
  split at h
  case h_2 =>
    obtain ⟨s₁, hl, rfl⟩ := Option.map_eq_some_iff.mp h
    obtain ⟨-, rfl⟩ := State.lock_eq_some.mp hl
    exact ⟨rfl, id⟩
  case h_3 =>
    obtain rfl := Option.some.inj h
    exact ⟨rfl, by rintro ⟨⟩⟩
  case h_6 =>
    split at h <;> obtain rfl := Option.some.inj h
    case h_1 s₁ hcas =>
      obtain ⟨-, rfl⟩ := State.casCompleted_eq_some.mp hcas
      exact ⟨rfl, id⟩
    case h_2 => exact ⟨rfl, id⟩
  case h_7 =>
    split at h
    · obtain rfl := Option.some.inj h
      exact ⟨rfl, id⟩
    · cases h
  case h_8 => cases h
  all_goals
    obtain rfl := Option.some.inj h
    exact ⟨rfl, id⟩

/-- Only the worker sets `sleeping_`. -/
theorem step_sleeping {a : Action E} (hworker : a.actor ≠ .worker) (h : step cfg s a = some s')
    (hs : s'.sleeping = true) : s.sleeping = true := by
  cases a with
  | dispatch t e =>
    rw [step] at h
    split at h
    · obtain rfl := Option.some.inj h
      exact hs
    · cases h
  | flush t =>
    rw [step] at h
    split at h
    · obtain rfl := Option.some.inj h
      exact hs
    · cases h
  | thread t ok => exact (threadStep_wake h).1 hs
  | worker ok => exact absurd rfl hworker
  | shutdown ok => exact (shutdownStep_wake h).2 hs

/-- A thread that takes no step goes on watching. -/
theorem Watched.other {t : ℕ} (h : Watched s) (hthreads : ∀ u, u ≠ t → s'.threads u = s.threads u)
    (hworker : s'.worker = s.worker) (hwake : WakeStep t s s') : Watched s' := by
  intro hdoze hsleeping hwaits
  obtain ⟨hset, hwakes | ⟨hqueue, hquiet⟩⟩ := hwake
  · exact ⟨t, hwakes⟩
  · obtain ⟨u, hu⟩ := h (hworker ▸ hdoze) (hset hsleeping) (hqueue hwaits)
    refine ⟨u, ?_⟩
    rw [hthreads u]
    · exact hu
    · rintro rfl
      cases (hquiet hsleeping).symm.trans hu

/-- Every step keeps watch. -/
theorem step_watched (hatomic : cfg.atomicQueue = true) {a : Action E} (hc : Control cfg s)
    (hl : Locked cfg s) (hi : Watched s) (h : step cfg s a = some s') : Watched s' := by
  have hmove := step_scheduled hc hl.lockOk h
  have hbegin : ∀ {t : ℕ} {pc : Pc E} {s₁ : State E}, s.threads t = .idle →
      s₁.threads = s.threads ∧ s₁.worker = s.worker ∧ s₁.queue = s.queue ∧
        s₁.sleeping = s.sleeping → Watched (s₁.goto t pc) := by
    intro t pc s₁ ht hs
    have hquiet : WakeStep t s (s₁.goto t pc) :=
      .quiet (congrArg Pc.wakes ht) hs.2.2.1 hs.2.2.2
    refine hi.other (fun u hu => ?_) hs.2.1 hquiet
    exact (Function.update_of_ne hu ..).trans (congrFun hs.1 u)
  cases a with
  | dispatch t e =>
    rw [step] at h
    split at h
    case h_1 ht =>
      obtain rfl := Option.some.inj h
      exact hbegin ht ⟨rfl, rfl, rfl, rfl⟩
    case h_2 => cases h
  | flush t =>
    rw [step] at h
    split at h
    case h_1 ht =>
      obtain rfl := Option.some.inj h
      exact hbegin ht ⟨rfl, rfl, rfl, rfl⟩
    case h_2 => cases h
  | thread t ok =>
    exact hi.other (fun u hu => hmove.threads u fun he => hu (Owner.thread.inj he).symm)
      (hmove.worker (by rintro ⟨⟩)) (threadStep_wake h)
  | worker ok =>
    have hdoze := workerStep_doze hatomic h
    intro hd hs hw
    obtain ⟨hdozing, hsame⟩ := hdoze.dozes hd (hdoze.waits hw)
    obtain ⟨t, ht⟩ := hi hdozing (hsame ▸ hs) (hdoze.waits hw)
    exact ⟨t, by rw [hmove.threads t (by rintro ⟨⟩)]; exact ht⟩
  | shutdown ok =>
    obtain ⟨hqueue, hset⟩ := shutdownStep_wake h
    intro hd hs hw
    rw [hmove.worker (by rintro ⟨⟩)] at hd
    rw [State.Waits, hqueue] at hw
    obtain ⟨t, ht⟩ := hi hd (hset hs) hw
    exact ⟨t, by rw [hmove.threads t (by rintro ⟨⟩)]; exact ht⟩

/-- Every run keeps watch. -/
theorem watched_run (hatomic : cfg.atomicQueue = true)
    (h : (machine E cfg).run (.initial sinks) as = some s) : Watched s := by
  refine Machine.run_induction (P := fun _ s => Watched s) ?_ ?_ h
  · intro hdoze
    cases hdoze
  · exact fun as s a s' hs hi ha => step_watched hatomic (control_run hs) (locked_run hs) hi ha

/-- **No wake-up is lost** under sequential consistency. In every state that any interleaving of
threads, worker and `shutdown` reaches, with any overflow policy: when something is in the queue
and the worker waits, or is past its second look at the queue and about to wait, then `sleeping_`
is clear already, or some thread that has put an item into the queue is on its way to load it, to
lock `mutex_` and to clear it. So the worker never waits over an item once the calls under way
have returned. -/
theorem no_wakeup_lost (hatomic : cfg.atomicQueue = true)
    (h : (machine E cfg).run (.initial sinks) as = some s) :
    Watched s ∧ ((∀ t, s.threads t = .idle) → s.Waits → s.worker.dozing = true →
      s.sleeping = false) := by
  have hwatched := watched_run hatomic h
  refine ⟨hwatched, fun hidle hwaits hdoze => ?_⟩
  cases hsleeping : s.sleeping with
  | false => rfl
  | true =>
    obtain ⟨t, ht⟩ := hwatched hdoze hsleeping hwaits
    rw [hidle t] at ht
    cases ht

/-- The worker finds the queue empty twice, and before it locks `mutex_` a thread puts an event
into the queue. -/
def dozingRun : List (Action ℕ) :=
  [true, false, true, false, true].map .worker ++
    [.dispatch 0 7, .thread 0 true, .thread 0 true]

theorem no_wakeup_lost_dozingRun :
    ∃ s, (machine ℕ ⟨{}, true⟩).run (.initial []) dozingRun = some s ∧
      (s.worker.dozing, s.sleeping, decide (0 < s.queue.accepted.length)) = (true, true, true) ∧
      Watched s := by
  have hrun : ((machine ℕ ⟨{}, true⟩).run (.initial []) dozingRun).map (fun s =>
      (s.worker.dozing, s.sleeping, decide (0 < s.queue.accepted.length))) =
        some (true, true, true) := by decide
  obtain ⟨s, hs, heq⟩ := Option.map_eq_some_iff.mp hrun
  exact ⟨s, hs, heq, (no_wakeup_lost rfl hs).1⟩

end AsyncDispatcher

end Logspine
