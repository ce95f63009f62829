import Logspine.LedgerRefines

/-!
# Who moves, who holds the lock, and how far it is

The scheduler's side of `async_dispatcher`: a step of one thread leaves the other
threads where they are, `mutex_` belongs to the thread whose place says so, a
thread that holds it can always go on, and once `shutdown` has stored the maximum
every step of a thread in a call brings it closer to its return.
-/

namespace Logspine

namespace AsyncDispatcher

variable {E : Type} {cfg : Config} {s s' s₁ : State E} {as : List (Action E)}
  {sinks : List (Sink E)}

/-! ## Owners of the lock -/

/-- The thread's lock holds `mutex_`. -/
def Pc.owns : Pc E → Bool
  | event _ _ owns _ | request _ _ owns _ => owns
  | _ => false

/-- The worker holds `mutex_`. -/
def WorkerPc.owns : WorkerPc E → Bool
  | waitStopping | waitSleeping | waitDone | notifyUnlock _ => true
  | _ => false

/-- `shutdown` holds `mutex_`. -/
def ShutdownPc.owns : ShutdownPc → Bool
  | clearSleeping | unlock => true
  | _ => false

/-- Where a thread may hold `mutex_`: a thread that evicts does not, and no thread
waits for what it holds. -/
def Pc.LockOk (options : AsyncOptions) : Pc E → Prop
  | event _ _ owns pc =>
    match pc with
    | .waitLock | .waiting | .lock | .evict | .evicted _ _ => owns = false
    | .wait => owns = true
    | .wake | .leave => True
    | _ => owns = true → options.overflow = .block
  | request _ caller owns pc =>
    (match caller with
      | .evictor _ _ outer => outer = false
      | .flush _ => True) ∧
    match pc with
    | .waitLock | .waiting | .lock => owns = false
    | .wait => owns = true
    | _ => True
  | _ => True

/-- What a step of `o` does to `mutex_`: nothing, lock it, or unlock it. -/
def MutexStep (o : Owner) (owned owned' : Bool) (m m' : Option Owner) : Prop :=
  (m' = m ∧ owned' = owned) ∨ (m = none ∧ m' = some o ∧ owned' = true) ∨
    (owned = true ∧ m' = none ∧ owned' = false)

/-- A call returns and gives back what it has. -/
theorem MutexStep.unlockOwned (t : ℕ) (owns : Bool) {m : Option Owner} :
    MutexStep (.thread t) owns false m (if owns then none else m) := by
  cases owns with
  | false => exact .inl ⟨rfl, rfl⟩
  | true => exact .inr (.inr ⟨rfl, rfl, rfl⟩)

/-! ## How far a call is from its return, after the maximum was stored -/

/-- Steps left in `enqueue_flush_request`. -/
def RequestPc.rank (id : ℕ) : RequestPc → ℕ
  | enter => 7
  | enqueue => 6
  | stopping => 5
  | waitLock => 9
  | wait => 8
  | waiting => 7
  | raiseLoad => 4
  | raiseCas current => if current < WithTop.some id then 3 else 2
  | sleeping => 4
  | lock => 3
  | wake => 2
  | leave => 1

/-- Steps left in `enqueue_event`. -/
def EventPc.rank : EventPc E → ℕ
  | enter => 8
  | first => 7
  | retry => 6
  | stopping => 5
  | evict => 15
  | evicted _ _ => 14
  | waitLock => 9
  | wait => 8
  | waiting => 7
  | drop => 2
  | sleeping => 4
  | lock => 3
  | wake => 2
  | leave => 1

/-- Steps left in the wait loop of `flush`. -/
def FlushPc.rank : FlushPc → ℕ
  | test => 1
  | argument => 3
  | wait _ => 2

/-- Steps left after `enqueue_flush_request` returned. -/
def Caller.rank : Caller E → ℕ
  | flush _ => 1
  | evictor _ _ _ => 6

/-- A bound on the steps a client thread still makes in its call. -/
def Pc.rank : Pc E → ℕ
  | idle => 0
  | event _ _ _ pc => pc.rank
  | request id caller _ pc => caller.rank + pc.rank id
  | flushDraw _ => 9
  | flush _ _ pc => pc.rank

/-- A bound on the steps the worker still makes before it unlocks `mutex_`. -/
def WorkerPc.rank : WorkerPc E → ℕ
  | waitStopping => 3
  | waitSleeping => 2
  | waitDone | notifyUnlock _ => 1
  | _ => 0

/-! ## One step of a client thread -/

/-- What a step of thread `t` does besides its effect on the ledger. -/
structure ThreadStep (cfg : Config) (t : ℕ) (s s' : State E) : Prop where
  threads : ∀ u, u ≠ t → s'.threads u = s.threads u
  worker : s'.worker = s.worker
  shutdown : s'.shutdown = s.shutdown
  lockOk : (s'.threads t).LockOk cfg.options
  mutex : MutexStep (.thread t) (s.threads t).owns (s'.threads t).owns s.mutex s'.mutex
  rank : s.stopping = true → s.completedFlushId = ⊤ →
    (s'.threads t).rank < (s.threads t).rank
  wait : ∀ id before, s'.threads t = .flush id before (.wait ⊤) → s.completedFlushId = ⊤ ∧
    s.threads t = .flush id before .argument

/-- Assemble a `ThreadStep` from the place `pc` before and the place `pc'` after. -/
theorem ThreadStep.goto {t : ℕ} {pc pc' : Pc E} (ht : s.threads t = pc)
    (hs : s₁.threads = s.threads ∧ s₁.worker = s.worker ∧ s₁.shutdown = s.shutdown)
    (hl : pc'.LockOk cfg.options)
    (hm : MutexStep (.thread t) pc.owns pc'.owns s.mutex s₁.mutex)
    (hr : s.stopping = true → s.completedFlushId = ⊤ → pc'.rank < pc.rank)
    (hw : ∀ id before, pc' = .flush id before (.wait ⊤) → s.completedFlushId = ⊤ ∧
      pc = .flush id before .argument) : ThreadStep cfg t s (s₁.goto t pc') := by
  have hpc' : (s₁.goto t pc').threads t = pc' := Function.update_self ..
  refine ⟨fun u hu => ?_, hs.2.1, hs.2.2, ?_, ?_, ?_, ?_⟩
  · exact (Function.update_of_ne hu ..).trans (congrFun hs.1 u)
  · rw [hpc']
    exact hl
  · rw [hpc', ht]
    exact hm
  · rw [hpc', ht]
    exact hr
  · rw [hpc', ht]
    exact hw

section Client

variable {t call : ℕ} {e : E} {owns ok : Bool}

/-- A step of `enqueue_event`. -/
theorem enqueueEvent_step {pc : EventPc E}
    (hk : (Pc.event call e owns pc).Knows cfg.options s.stopping)
    (hl : (Pc.event call e owns pc).LockOk cfg.options)
    (ht : s.threads t = .event call e owns pc)
    (h : enqueueEvent cfg s t call e owns ok pc = some s') : ThreadStep cfg t s s' := by
  cases enqueueEvent_moves h with
  | enterStop | firstPut | firstRefused | retryPut | retryRefused | stop | evict =>
    exact ThreadStep.goto ht ⟨rfl, rfl, rfl⟩ hl (.inl ⟨rfl, rfl⟩)
      (fun _ _ => of_decide_eq_true rfl) (by rintro _ _ ⟨⟩)
  | enterOn hns | dropNewest hns =>
    exact ThreadStep.goto ht ⟨rfl, rfl, rfl⟩ hl (.inl ⟨rfl, rfl⟩)
      (fun hs => by cases hs.symm.trans hns) (by rintro _ _ ⟨⟩)
  | dropOldest hns ho =>
    -- a thread that evicts is not one that blocks
    have hown : owns = false := Bool.eq_false_iff.mpr fun hown => by cases ho.symm.trans (hl hown)
    exact ThreadStep.goto ht ⟨rfl, rfl, rfl⟩ hown (.inl ⟨rfl, rfl⟩)
      (fun hs => by cases hs.symm.trans hns) (by rintro _ _ ⟨⟩)
  | blockHeld hns _ howns | blockFree hns _ howns =>
    exact ThreadStep.goto ht ⟨rfl, rfl, rfl⟩ howns (.inl ⟨rfl, rfl⟩)
      (fun hs => by cases hs.symm.trans hns) (by rintro _ _ ⟨⟩)
  | evictRefused | evictedEvent =>
    exact ThreadStep.goto ht ⟨rfl, rfl, rfl⟩ (fun hown => by cases hown.symm.trans hl)
      (.inl ⟨rfl, rfl⟩) (fun _ _ => of_decide_eq_true rfl) (by rintro _ _ ⟨⟩)
  | evictedRequest =>
    exact ThreadStep.goto ht ⟨rfl, rfl, rfl⟩ ⟨hl, trivial⟩ (.inl ⟨rfl, Eq.symm hl⟩)
      (fun _ _ => of_decide_eq_true rfl) (by rintro _ _ ⟨⟩)
  | waitLock hfree =>
    exact ThreadStep.goto ht ⟨rfl, rfl, rfl⟩ rfl (.inr (.inl ⟨hfree, rfl, rfl⟩))
      (fun _ _ => of_decide_eq_true rfl) (by rintro _ _ ⟨⟩)
  | wait =>
    exact ThreadStep.goto ht ⟨rfl, rfl, rfl⟩ rfl (.inr (.inr ⟨hl, rfl, rfl⟩))
      (fun _ _ => of_decide_eq_true rfl) (by rintro _ _ ⟨⟩)
  | notified hfree | timedOut hfree =>
    exact ThreadStep.goto ht ⟨rfl, rfl, rfl⟩ (fun _ => hk) (.inr (.inl ⟨hfree, rfl, rfl⟩))
      (fun _ _ => of_decide_eq_true rfl) (by rintro _ _ ⟨⟩)
  | asleepFree _ howns =>
    exact ThreadStep.goto ht ⟨rfl, rfl, rfl⟩ howns (.inl ⟨rfl, rfl⟩)
      (fun _ _ => of_decide_eq_true rfl) (by rintro _ _ ⟨⟩)
  | drop | asleepHeld | awake | wake =>
    exact ThreadStep.goto ht ⟨rfl, rfl, rfl⟩ trivial (.inl ⟨rfl, rfl⟩)
      (fun _ _ => of_decide_eq_true rfl) (by rintro _ _ ⟨⟩)
  | lock hfree =>
    exact ThreadStep.goto ht ⟨rfl, rfl, rfl⟩ trivial (.inr (.inl ⟨hfree, rfl, rfl⟩))
      (fun _ _ => of_decide_eq_true rfl) (by rintro _ _ ⟨⟩)
  | leave =>
    exact ThreadStep.goto ht ⟨rfl, rfl, rfl⟩ trivial (.unlockOwned t owns)
      (fun _ _ => of_decide_eq_true rfl) (by rintro _ _ ⟨⟩)

/-- A step of `enqueue_flush_request`. -/
theorem enqueueFlushRequest_step {id : ℕ} {caller : Caller E} {pc : RequestPc}
    (hl : (Pc.request id caller owns pc).LockOk cfg.options)
    (ht : s.threads t = .request id caller owns pc)
    (h : enqueueFlushRequest cfg s t id caller owns ok pc = some s') : ThreadStep cfg t s s' := by
  obtain ⟨hcaller, hpc⟩ := hl
  -- within the function the rest of the caller counts the same
  have hrank : ∀ {pc' : RequestPc} {owns' : Bool}, pc'.rank id < pc.rank id →
      (Pc.request id caller owns' pc').rank < (Pc.request id caller owns pc).rank :=
    fun h => Nat.add_lt_add_left h _
  cases enqueueFlushRequest_moves h with
  | enterStop | enterOn | put | refused | stop | asleepHeld | awake | wake =>
    exact ThreadStep.goto ht ⟨rfl, rfl, rfl⟩ ⟨hcaller, trivial⟩ (.inl ⟨rfl, rfl⟩)
      (fun _ _ => hrank (of_decide_eq_true rfl)) (by rintro _ _ ⟨⟩)
  | blockHeld hns howns | blockFree hns howns =>
    exact ThreadStep.goto ht ⟨rfl, rfl, rfl⟩ ⟨hcaller, howns⟩ (.inl ⟨rfl, rfl⟩)
      (fun hs => by cases hs.symm.trans hns) (by rintro _ _ ⟨⟩)
  | waitLock hfree =>
    exact ThreadStep.goto ht ⟨rfl, rfl, rfl⟩ ⟨hcaller, rfl⟩ (.inr (.inl ⟨hfree, rfl, rfl⟩))
      (fun _ _ => hrank (of_decide_eq_true rfl)) (by rintro _ _ ⟨⟩)
  | wait =>
    exact ThreadStep.goto ht ⟨rfl, rfl, rfl⟩ ⟨hcaller, rfl⟩ (.inr (.inr ⟨hpc, rfl, rfl⟩))
      (fun _ _ => hrank (of_decide_eq_true rfl)) (by rintro _ _ ⟨⟩)
  | waiting hfree | lock hfree =>
    exact ThreadStep.goto ht ⟨rfl, rfl, rfl⟩ ⟨hcaller, trivial⟩
      (.inr (.inl ⟨hfree, rfl, rfl⟩)) (fun _ _ => hrank (of_decide_eq_true rfl)) (by rintro _ _ ⟨⟩)
  | raiseLoad =>
    refine ThreadStep.goto ht ⟨rfl, rfl, rfl⟩ ⟨hcaller, trivial⟩ (.inl ⟨rfl, rfl⟩)
      (fun _ hc => hrank ?_) (by rintro _ _ ⟨⟩)
    change RequestPc.rank id (.raiseCas s.completedFlushId) < 4
    rw [hc, RequestPc.rank, if_neg not_top_lt]
    exact of_decide_eq_true rfl
  | raised hlt hcur =>
    exact ThreadStep.goto ht ⟨rfl, rfl, rfl⟩ ⟨hcaller, trivial⟩ (.inl ⟨rfl, rfl⟩)
      (fun _ hc => absurd (hc.symm.trans hcur ▸ hlt) not_top_lt) (by rintro _ _ ⟨⟩)
  | raiseMissed hlt =>
    refine ThreadStep.goto ht ⟨rfl, rfl, rfl⟩ ⟨hcaller, trivial⟩ (.inl ⟨rfl, rfl⟩)
      (fun _ hc => hrank ?_) (by rintro _ _ ⟨⟩)
    rw [RequestPc.rank, RequestPc.rank, hc, if_neg not_top_lt, if_pos hlt]
    exact of_decide_eq_true rfl
  | raisedBefore hge =>
    refine ThreadStep.goto ht ⟨rfl, rfl, rfl⟩ ⟨hcaller, trivial⟩ (.inl ⟨rfl, rfl⟩)
      (fun _ _ => hrank ?_) (by rintro _ _ ⟨⟩)
    rw [RequestPc.rank, RequestPc.rank, if_neg hge]
    exact of_decide_eq_true rfl
  | asleepFree _ howns =>
    exact ThreadStep.goto ht ⟨rfl, rfl, rfl⟩ ⟨hcaller, howns⟩ (.inl ⟨rfl, rfl⟩)
      (fun _ _ => hrank (of_decide_eq_true rfl)) (by rintro _ _ ⟨⟩)
  | leave =>
    cases caller with
    | flush before =>
      exact ThreadStep.goto ht ⟨rfl, rfl, rfl⟩ trivial (.unlockOwned t owns)
        (fun _ _ => of_decide_eq_true rfl) (by rintro _ _ ⟨⟩)
    | evictor call e outer =>
      obtain rfl : outer = false := hcaller
      exact ThreadStep.goto ht ⟨rfl, rfl, rfl⟩ (by rintro ⟨⟩) (.unlockOwned t owns)
        (fun _ _ => of_decide_eq_true rfl) (by rintro _ _ ⟨⟩)

/-- A step of the wait loop of `flush`. -/
theorem flushWait_step {id : ℕ} {before : List ℕ} {pc : FlushPc}
    (ht : s.threads t = .flush id before pc) (h : flushWait s t id before pc = some s') :
    ThreadStep cfg t s s' := by
  cases pc with
  | test =>
    rw [flushWait] at h
    split at h <;> obtain rfl := Option.some.inj h
    case isTrue hlt =>
      exact ThreadStep.goto ht ⟨rfl, rfl, rfl⟩ trivial (.inl ⟨rfl, rfl⟩)
        (fun _ hc => absurd (hc ▸ hlt) not_top_lt) (by rintro _ _ ⟨⟩)
    case isFalse =>
      exact ThreadStep.goto ht ⟨rfl, rfl, rfl⟩ trivial (.inl ⟨rfl, rfl⟩)
        (fun _ _ => of_decide_eq_true rfl) (by rintro _ _ ⟨⟩)
  | argument =>
    obtain rfl := Option.some.inj h
    refine ThreadStep.goto ht ⟨rfl, rfl, rfl⟩ trivial (.inl ⟨rfl, rfl⟩)
      (fun _ _ => of_decide_eq_true rfl) fun id' before' heq => ?_
    obtain ⟨rfl, rfl, hwait⟩ := Pc.flush.inj heq
    exact ⟨FlushPc.wait.inj hwait, rfl⟩
  | wait old =>
    rw [flushWait] at h
    split at h
    · cases h
    · obtain rfl := Option.some.inj h
      exact ThreadStep.goto ht ⟨rfl, rfl, rfl⟩ trivial (.inl ⟨rfl, rfl⟩)
        (fun _ _ => of_decide_eq_true rfl) (by rintro _ _ ⟨⟩)

/-- A step of a client thread. -/
theorem threadStep_step (hk : (s.threads t).Knows cfg.options s.stopping)
    (hl : (s.threads t).LockOk cfg.options) (h : threadStep cfg s t ok = some s') :
    ThreadStep cfg t s s' := by
  rw [threadStep] at h
  split at h
  case h_1 => cases h
  case h_2 ht => exact enqueueEvent_step (ht ▸ hk) (ht ▸ hl) ht h
  case h_3 ht => exact enqueueFlushRequest_step (ht ▸ hl) ht h
  case h_4 before ht =>
    obtain rfl := Option.some.inj h
    exact ThreadStep.goto ht ⟨rfl, rfl, rfl⟩ ⟨trivial, trivial⟩ (.inl ⟨rfl, rfl⟩)
      (fun _ _ => of_decide_eq_true rfl) (by rintro _ _ ⟨⟩)
  case h_5 ht => exact flushWait_step ht h

end Client

/-! ## One step of the worker and of `shutdown` -/

/-- What a step of the worker does besides its effect on the ledger. -/
structure WorkerStep (s s' : State E) : Prop where
  threads : s'.threads = s.threads
  shutdown : s'.shutdown = s.shutdown
  mutex : MutexStep .worker s.worker.owns s'.worker.owns s.mutex s'.mutex
  rank : s.worker.owns = true → s'.worker.owns = true → s'.worker.rank < s.worker.rank

/-- Assemble a `WorkerStep` that begins and ends without the lock. -/
theorem WorkerStep.outside (hs : s'.threads = s.threads ∧ s'.shutdown = s.shutdown ∧
    s'.mutex = s.mutex) (hw : s.worker.owns = false) (hw' : s'.worker.owns = false) :
    WorkerStep s s' where
  threads := hs.1
  shutdown := hs.2.1
  mutex := .inl ⟨hs.2.2, hw'.trans hw.symm⟩
  rank h := nomatch h.symm.trans hw

/-- Assemble a `WorkerStep` that locks `mutex_`. -/
theorem WorkerStep.lock {pc : WorkerPc E} (hfree : s.mutex = none)
    (hw : s.worker.owns = false) (hpc : pc.owns = true) :
    WorkerStep s ({ s with mutex := some .worker }.work pc) :=
  ⟨rfl, rfl, .inr (.inl ⟨hfree, rfl, hpc⟩), fun h => nomatch h.symm.trans hw⟩

/-- Assemble a `WorkerStep` that unlocks `mutex_`. -/
theorem WorkerStep.unlock (hs : s'.threads = s.threads ∧ s'.shutdown = s.shutdown ∧
    s'.mutex = none) (hw : s.worker.owns = true) (hw' : s'.worker.owns = false) :
    WorkerStep s s' where
  threads := hs.1
  shutdown := hs.2.1
  mutex := .inr (.inr ⟨hw, hs.2.2, hw'⟩)
  rank _ h := nomatch h.symm.trans hw'

/-- A guarded call on a sink is made without the lock. -/
theorem WorkerStep.callSink {k : ℕ} {op : SinkOp (ℕ × E)} {next failed : WorkerPc E}
    (h : callSink s k op next failed = some s') (hw : s.worker.owns = false)
    (hn : next.owns = false) (hf : failed.owns = false) : WorkerStep s s' := by
  have hw' := callSink_place (P := fun pc => pc.owns = false) h hn hf
  obtain ⟨sink, -, rfl⟩ := Option.map_eq_some_iff.mp h
  exact WorkerStep.outside ⟨rfl, rfl, rfl⟩ hw hw'

theorem owns_fillBatch (batch : List (Ticketed E)) : (fillBatch cfg batch).owns = false := by
  rw [fillBatch]
  split <;> rfl

theorem owns_drainBatch (batch : List (Ticketed E)) : (drainBatch cfg batch).owns = false := by
  rw [drainBatch]
  split <;> rfl

theorem owns_processBatch : ∀ batch : List (Ticketed E), (processBatch batch).owns = false
  | [] | (_, .event _ _) :: _ | (_, .flushRequest _) :: _ => rfl

/-- A step of `worker_loop`. -/
theorem workerStep_step {ok : Bool} (h : workerStep cfg s ok = some s') : WorkerStep s s' := by
  obtain ⟨r, pc, rfl, hm⟩ := workerStep_moves h
  cases hm with
  | waitLock hfree | notified _ hfree | timedOut _ hfree | notifyLock hfree =>
    exact .lock hfree rfl rfl
  | waitAsleep | waitDone => exact .unlock ⟨rfl, rfl, rfl⟩ rfl rfl
  | notifyUnlock => exact .unlock ⟨rfl, rfl, rfl⟩ rfl (owns_processBatch _)
  | waitStop | waitOn | waitAwake =>
    exact ⟨rfl, rfl, .inl ⟨rfl, rfl⟩, fun _ _ => of_decide_eq_true rfl⟩
  | keep | fillTaken => exact .outside ⟨rfl, rfl, rfl⟩ rfl (owns_fillBatch _)
  | drainTaken => exact .outside ⟨rfl, rfl, rfl⟩ rfl (owns_drainBatch _)
  | write _ hcall | flush _ hcall | finalFlush _ hcall => exact .callSink hcall rfl rfl rfl
  | written | raised | raisedBefore => exact .outside ⟨rfl, rfl, rfl⟩ rfl (owns_processBatch _)
  | _ => exact .outside ⟨rfl, rfl, rfl⟩ rfl rfl

/-- What a step of `shutdown` does besides its effect on the ledger. -/
structure ShutdownStep (s s' : State E) : Prop where
  threads : s'.threads = s.threads
  worker : s'.worker = s.worker
  mutex : MutexStep .shutdown s.shutdown.owns s'.shutdown.owns s.mutex s'.mutex
  joined : s'.shutdown = .joined → s.worker = .exited

/-- A step of `shutdown`. -/
theorem shutdownStep_step {ok : Bool} (h : shutdownStep s ok = some s') : ShutdownStep s s' := by
  rw [shutdownStep] at h
  split at h
  case h_1 hs =>
    obtain rfl := Option.some.inj h
    exact ⟨rfl, rfl, .inl ⟨rfl, hs ▸ rfl⟩, by rintro ⟨⟩⟩
  case h_2 hs =>
    obtain ⟨s₁, hl, rfl⟩ := Option.map_eq_some_iff.mp h
    obtain ⟨hnone, rfl⟩ := State.lock_eq_some.mp hl
    exact ⟨rfl, rfl, .inr (.inl ⟨hnone, rfl, rfl⟩), by rintro ⟨⟩⟩
  case h_3 hs =>
    obtain rfl := Option.some.inj h
    exact ⟨rfl, rfl, .inl ⟨rfl, hs ▸ rfl⟩, by rintro ⟨⟩⟩
  case h_4 hs =>
    obtain rfl := Option.some.inj h
    exact ⟨rfl, rfl, .inr (.inr ⟨hs ▸ rfl, rfl, rfl⟩), by rintro ⟨⟩⟩
  case h_5 hs =>
    obtain rfl := Option.some.inj h
    exact ⟨rfl, rfl, .inl ⟨rfl, hs ▸ rfl⟩, by rintro ⟨⟩⟩
  case h_6 current hs =>
    split at h <;> obtain rfl := Option.some.inj h
    case h_1 s₁ hcas =>
      obtain ⟨-, rfl⟩ := State.casCompleted_eq_some.mp hcas
      exact ⟨rfl, rfl, .inl ⟨rfl, hs ▸ rfl⟩, by rintro ⟨⟩⟩
    case h_2 => exact ⟨rfl, rfl, .inl ⟨rfl, hs ▸ rfl⟩, by rintro ⟨⟩⟩
  case h_7 hs =>
    split at h
    case h_1 hw =>
      obtain rfl := Option.some.inj h
      exact ⟨rfl, rfl, .inl ⟨rfl, hs ▸ rfl⟩, fun _ => hw⟩
    case h_2 => cases h
  case h_8 => cases h

/-! ## The lock and its owner -/

/-- The place of `o` says that it holds `mutex_`. -/
def State.owns (s : State E) : Owner → Bool
  | .thread t => (s.threads t).owns
  | .worker => s.worker.owns
  | .shutdown => s.shutdown.owns

/-- Who takes a step. -/
def Action.actor : Action E → Owner
  | dispatch t _ | flush t | thread t _ => .thread t
  | worker _ => .worker
  | shutdown _ => .shutdown

/-- `mutex_` is held by the one whose place says so. -/
structure Locked (cfg : Config) (s : State E) : Prop where
  owner : ∀ o, s.owns o = true ↔ s.mutex = some o
  lockOk : ∀ t, (s.threads t).LockOk cfg.options

theorem locked_initial (sinks : List (Sink E)) : Locked cfg (.initial sinks) where
  owner o := by cases o <;> exact iff_of_false Bool.false_ne_true nofun
  lockOk _ := trivial

/-- What a step of `o` does to the places and to `mutex_`. -/
structure Scheduled (cfg : Config) (o : Owner) (s s' : State E) : Prop where
  threads : ∀ t, o ≠ .thread t → s'.threads t = s.threads t
  worker : o ≠ .worker → s'.worker = s.worker
  shutdown : o ≠ .shutdown → s'.shutdown = s.shutdown
  mutex : MutexStep o (s.owns o) (s'.owns o) s.mutex s'.mutex
  lockOk : ∀ t, (s'.threads t).LockOk cfg.options

theorem Scheduled.owns {o p : Owner} (h : Scheduled cfg o s s') (hne : o ≠ p) :
    s'.owns p = s.owns p := by
  cases p with
  | thread t => exact congrArg Pc.owns (h.threads t hne)
  | worker => exact congrArg WorkerPc.owns (h.worker hne)
  | shutdown => exact congrArg ShutdownPc.owns (h.shutdown hne)

theorem ThreadStep.scheduled {t : ℕ} (hl : ∀ u, (s.threads u).LockOk cfg.options)
    (h : ThreadStep cfg t s s') : Scheduled cfg (.thread t) s s' where
  threads u hne := h.threads u fun hu => hne (congrArg Owner.thread hu.symm)
  worker _ := h.worker
  shutdown _ := h.shutdown
  mutex := h.mutex
  lockOk u := by
    rcases eq_or_ne u t with rfl | hne
    · exact h.lockOk
    · rw [h.threads u hne]
      exact hl u

/-- Every step is scheduled for its actor. -/
theorem step_scheduled {a : Action E} (hc : Control cfg s)
    (hl : ∀ u, (s.threads u).LockOk cfg.options) (h : step cfg s a = some s') :
    Scheduled cfg a.actor s s' := by
  -- the first step of a call leaves an idle thread in a place without the lock
  have hbegin : ∀ {t : ℕ} {pc : Pc E} {s₁ : State E}, s.threads t = .idle →
      s₁.threads = s.threads ∧ s₁.worker = s.worker ∧ s₁.shutdown = s.shutdown ∧
        s₁.mutex = s.mutex → pc.owns = false → pc.LockOk cfg.options →
      Scheduled cfg (.thread t) s (s₁.goto t pc) := by
    intro t pc s₁ ht hs hpc hok
    have hself : (s₁.goto t pc).threads t = pc := Function.update_self ..
    have hother : ∀ u, u ≠ t → (s₁.goto t pc).threads u = s.threads u := fun u hu =>
      (Function.update_of_ne hu ..).trans (congrFun hs.1 u)
    refine ⟨fun u hne => hother u fun hu => hne (congrArg Owner.thread hu.symm),
      fun _ => hs.2.1, fun _ => hs.2.2.1, .inl ⟨hs.2.2.2, ?_⟩, fun u => ?_⟩
    · change ((s₁.goto t pc).threads t).owns = (s.threads t).owns
      rw [hself, ht, hpc]
      rfl
    · rcases eq_or_ne u t with rfl | hne
      · rw [hself]
        exact hok
      · rw [hother u hne]
        exact hl u
  cases a with
  | dispatch t e =>
    rw [step] at h
    split at h
    case h_1 ht =>
      obtain rfl := Option.some.inj h
      exact hbegin ht ⟨rfl, rfl, rfl, rfl⟩ rfl (by rintro ⟨⟩)
    case h_2 => cases h
  | flush t =>
    rw [step] at h
    split at h
    case h_1 ht =>
      obtain rfl := Option.some.inj h
      exact hbegin ht ⟨rfl, rfl, rfl, rfl⟩ rfl trivial
    case h_2 => cases h
  | thread t ok => exact (threadStep_step (hc.threads t) (hl t) h).scheduled hl
  | worker ok =>
    have hw := workerStep_step h
    exact ⟨fun t _ => congrFun hw.threads t, fun hne => absurd rfl hne, fun _ => hw.shutdown,
      hw.mutex, fun t => by rw [hw.threads]; exact hl t⟩
  | shutdown ok =>
    have hw := shutdownStep_step h
    exact ⟨fun t _ => congrFun hw.threads t, fun _ => hw.worker, fun hne => absurd rfl hne,
      hw.mutex, fun t => by rw [hw.threads]; exact hl t⟩

/-- A step keeps `mutex_` and its owner together. -/
theorem Locked.step {o : Owner} (h : Locked cfg s) (hm : Scheduled cfg o s s') :
    Locked cfg s' := by
  refine ⟨fun p => ?_, hm.lockOk⟩
  rcases eq_or_ne o p with rfl | hne
  · rcases hm.mutex with ⟨hmutex, hown⟩ | ⟨-, hmutex, hown⟩ | ⟨-, hmutex, hown⟩
    · rw [hmutex, hown]
      exact h.owner o
    · exact iff_of_true hown hmutex
    · rw [hmutex, hown]
      exact iff_of_false Bool.false_ne_true (by rintro ⟨⟩)
  · rw [hm.owns hne]
    rcases hm.mutex with ⟨hmutex, -⟩ | ⟨hnone, hmutex, -⟩ | ⟨hown, hmutex, -⟩
    · rw [hmutex]
      exact h.owner p
    · refine iff_of_false (fun hp => ?_) (fun hp => hne (Option.some.inj (hmutex.symm.trans hp)))
      cases hnone.symm.trans ((h.owner p).mp hp)
    · refine iff_of_false (fun hp => hne ?_) (fun hp => by cases hmutex.symm.trans hp)
      exact Option.some.inj (((h.owner o).mp hown).symm.trans ((h.owner p).mp hp))

/-- What the scheduler knows in every reachable state. -/
theorem locked_run (h : (machine E cfg).run (.initial sinks) as = some s) : Locked cfg s := by
  refine (Machine.invariant_run (I := fun s => Control cfg s ∧ Locked cfg s) ?_
    ⟨control_initial sinks, locked_initial sinks⟩ h).2
  rintro s a s' ⟨hc, hl⟩ ha
  exact ⟨(step_refined hc ha).1, hl.step (step_scheduled hc hl.lockOk ha)⟩

/-! ## Who can move -/

section Enabled

variable {X : Type*}

/-- An `enqueue` succeeds or is refused. -/
theorem Config.exists_enqueue (cfg : Config) (q : TicketQueue (QueueItem E)) (x : QueueItem E)
    (success : TicketQueue (QueueItem E) → X) (refused : X) :
    ∃ ok r, cfg.enqueue q x ok success refused = some r := by
  cases hq : q.enqueue cfg.capacity x with
  | none =>
    refine ⟨false, refused, ?_⟩
    rw [Config.enqueue, hq, Option.isSome_none, Bool.and_false]
    rfl
  | some q' =>
    refine ⟨true, success q', ?_⟩
    rw [Config.enqueue, hq]
    rfl

/-- A `dequeue` succeeds or is refused. -/
theorem Config.exists_dequeue (cfg : Config) (q : TicketQueue (QueueItem E))
    (success : Ticketed E → TicketQueue (QueueItem E) → X) (refused : X) :
    ∃ ok r, cfg.dequeue q ok success refused = some r := by
  cases hq : q.dequeue with
  | none =>
    refine ⟨false, refused, ?_⟩
    rw [Config.dequeue, hq, Option.isSome_none, Bool.and_false]
    rfl
  | some r =>
    refine ⟨true, success r.1 r.2, ?_⟩
    rw [Config.dequeue, hq]
    rfl

end Enabled

theorem State.exists_lock (h : s.mutex = none) (o : Owner) (f : State E → State E) :
    ∃ s', (s.lock o).map f = some s' := ⟨_, by rw [State.lock, if_pos h]; rfl⟩

/-- The next step of the thread locks `mutex_`. -/
def Pc.locks : Pc E → Bool
  | event _ _ _ .waitLock | event _ _ _ .waiting | event _ _ _ .lock => true
  | request _ _ _ .waitLock | request _ _ _ .waiting | request _ _ _ .lock => true
  | _ => false

/-- A thread that locks does not hold `mutex_`. -/
theorem Pc.LockOk.owns_of_locks {options : AsyncOptions} {pc : Pc E} (h : pc.LockOk options)
    (hlocks : pc.locks = true) : pc.owns = false := by
  rw [Pc.locks.eq_def] at hlocks
  split at hlocks
  · exact h
  · exact h
  · exact h
  · exact h.2
  · exact h.2
  · exact h.2
  · cases hlocks

/-- A thread that locks can, when `mutex_` is free or its own. -/
theorem Pc.LockOk.free {options : AsyncOptions} {pc : Pc E} (h : pc.LockOk options)
    (hm : s.mutex = none ∨ pc.owns = true) (hlocks : pc.locks = true) : s.mutex = none := by
  refine hm.resolve_right fun hown => ?_
  rw [h.owns_of_locks hlocks] at hown
  cases hown

/-- A thread in a call can make its next step, unless that locks `mutex_` and another has it,
or waits for `completed_flush_id_` to change. -/
theorem exists_threadStep {t : ℕ} (hne : s.threads t ≠ .idle)
    (hm : (s.threads t).locks = true → s.mutex = none)
    (hw : ∀ id before, s.threads t ≠ .flush id before (.wait s.completedFlushId)) :
    ∃ ok s', threadStep cfg s t ok = some s' := by
  cases hpc : s.threads t with
  | idle => exact absurd hpc hne
  | event call e owns pc =>
    rw [hpc] at hm
    simp only [threadStep, hpc]
    cases pc with
    | first => exact cfg.exists_enqueue ..
    | retry => exact cfg.exists_enqueue ..
    | evict =>
      simp only [enqueueEvent]
      exact cfg.exists_dequeue ..
    | waitLock => exact ⟨true, State.exists_lock (hm rfl) _ _⟩
    | waiting => exact ⟨true, State.exists_lock (hm rfl) _ _⟩
    | lock => exact ⟨true, State.exists_lock (hm rfl) _ _⟩
    | stopping =>
      refine ⟨true, ?_⟩
      rw [enqueueEvent]
      split
      · exact ⟨_, rfl⟩
      · split <;> exact ⟨_, rfl⟩
    | sleeping =>
      refine ⟨true, ?_⟩
      rw [enqueueEvent]
      split <;> exact ⟨_, rfl⟩
    | evicted ticket item => cases item <;> exact ⟨true, _, rfl⟩
    | _ => exact ⟨true, _, rfl⟩
  | request id caller owns pc =>
    rw [hpc] at hm
    simp only [threadStep, hpc]
    cases pc with
    | enqueue => exact cfg.exists_enqueue ..
    | waitLock => exact ⟨true, State.exists_lock (hm rfl) _ _⟩
    | waiting => exact ⟨true, State.exists_lock (hm rfl) _ _⟩
    | lock => exact ⟨true, State.exists_lock (hm rfl) _ _⟩
    | raiseCas current =>
      refine ⟨true, ?_⟩
      rw [enqueueFlushRequest]
      split
      · split <;> exact ⟨_, rfl⟩
      · exact ⟨_, rfl⟩
    | wait => exact ⟨true, _, rfl⟩
    | raiseLoad => exact ⟨true, _, rfl⟩
    | wake => exact ⟨true, _, rfl⟩
    | leave => exact ⟨true, _, rfl⟩
    | _ =>
      refine ⟨true, ?_⟩
      rw [enqueueFlushRequest]
      split <;> exact ⟨_, rfl⟩
  | flushDraw before => exact ⟨true, _, by rw [threadStep, hpc]⟩
  | flush id before pc =>
    simp only [threadStep, hpc]
    cases pc with
    | test =>
      refine ⟨true, ?_⟩
      rw [flushWait]
      split <;> exact ⟨_, rfl⟩
    | argument => exact ⟨true, _, rfl⟩
    | wait old =>
      have hold : s.completedFlushId ≠ old := fun h => hw id before (h ▸ hpc)
      exact ⟨true, _, if_neg hold⟩

/-- A worker that holds the lock can make its next step. -/
theorem exists_workerStep (h : s.worker.owns = true) : ∃ ok s', workerStep cfg s ok = some s' := by
  refine ⟨true, ?_⟩
  rw [workerStep]
  cases hpc : s.worker with
  | waitStopping => exact ⟨_, rfl⟩
  | waitSleeping =>
    cases hs : s.sleeping with
    | false => exact ⟨_, if_neg Bool.false_ne_true⟩
    | true => exact ⟨_, if_pos rfl⟩
  | waitDone => exact ⟨_, rfl⟩
  | notifyUnlock batch => exact ⟨_, rfl⟩
  | _ =>
    rw [hpc] at h
    cases h

end AsyncDispatcher

end Logspine
