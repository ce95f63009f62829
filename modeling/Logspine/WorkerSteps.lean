import Logspine.FlushReturns
import Logspine.WakeUps

/-!
# How far a running dispatcher is

Two measures for the time before `shutdown`. A thread with `mutex_` is a bounded number of its
steps from giving it back (`State.hold`). The worker is a bounded number of its steps from its
next look at the queue (`State.distance`): each step brings it closer, but for the dequeue that
ends the way and for the wait that begins with `sleeping_` set (`workerStep_works`).
-/

namespace Logspine

namespace AsyncDispatcher

variable {E : Type} {cfg : Config} {s s' s₁ : State E} {as : List (Action E)}
  {sinks : List (Sink E)}

/-! ## Giving the lock back -/

/-- A bound on the steps of a thread in `enqueue_event` before it gives the lock back. -/
def EventPc.hold : EventPc E → ℕ
  | enter => 6
  | first => 5
  | retry => 4
  | stopping => 3
  | wait => 2
  | drop => 2
  | sleeping => 3
  | wake => 2
  | leave => 1
  | _ => 0

/-- A bound on the steps of a thread in `enqueue_flush_request` before it gives the lock back. -/
def RequestPc.hold : RequestPc → ℕ
  | enter => 5
  | enqueue => 4
  | stopping => 3
  | wait => 2
  | sleeping => 3
  | wake => 2
  | leave => 1
  | _ => 0

/-- A bound on the steps of a thread before it gives the lock back. -/
def Pc.hold : Pc E → ℕ
  | event _ _ _ pc => pc.hold
  | request _ _ _ pc => pc.hold
  | _ => 0

/-- A bound on the steps of `o` before it gives the lock back. -/
def State.hold (s : State E) : Owner → ℕ
  | .thread t => (s.threads t).hold
  | .worker => s.worker.rank
  | .shutdown => 0

/-- What a step of a thread with the lock leaves to do: the lock is given back, or it is
closer to that. -/
def Holds (t : ℕ) (s s' : State E) : Prop :=
  (s'.threads t).owns = true → (s'.threads t).hold < (s.threads t).hold

theorem Holds.goto {t : ℕ} {pc pc' : Pc E} (ht : s.threads t = pc)
    (h : pc'.owns = true → pc'.hold < pc.hold) : Holds t s (s₁.goto t pc') := by
  have hpc' : (s₁.goto t pc').threads t = pc' := Function.update_self ..
  rw [Holds, hpc', ht]
  exact h

section Client

variable {t call : ℕ} {e : E} {ok : Bool}

/-- A step of `enqueue_event` with the lock. -/
theorem enqueueEvent_holds {pc : EventPc E} (hrunning : s.stopping = false)
    (hl : (Pc.event call e true pc).LockOk cfg.options)
    (ht : s.threads t = .event call e true pc)
    (h : enqueueEvent cfg s t call e true ok pc = some s') : Holds t s s' := by
  cases enqueueEvent_moves h with
  | enterStop hs | stop hs => cases hs.symm.trans hrunning
  | dropNewest _ ho | dropOldest _ ho => cases ho.symm.trans (hl rfl)
  | blockFree _ _ howns | asleepFree _ howns => cases howns
  | evict | evictRefused | evictedEvent | evictedRequest | waitLock | notified | timedOut
  | lock => cases hl
  | wait | leave => exact .goto ht (by rintro ⟨⟩)
  | _ => exact .goto ht fun _ => of_decide_eq_true rfl

/-- A step of `enqueue_flush_request` with the lock. -/
theorem enqueueFlushRequest_holds {id : ℕ} {caller : Caller E} {pc : RequestPc}
    (hrunning : s.stopping = false)
    (hk : (Pc.request id caller true pc).Knows cfg.options s.stopping)
    (hl : (Pc.request id caller true pc).LockOk cfg.options)
    (ht : s.threads t = .request id caller true pc)
    (h : enqueueFlushRequest cfg s t id caller true ok pc = some s') : Holds t s s' := by
  obtain ⟨hcaller, hpc⟩ := hl
  cases enqueueFlushRequest_moves h with
  | enterStop hs | stop hs => cases hs.symm.trans hrunning
  | blockFree _ howns | asleepFree _ howns => cases howns
  | waitLock | waiting | lock => cases hpc
  | raiseLoad | raised | raiseMissed | raisedBefore => cases hk.symm.trans hrunning
  | wait => exact .goto ht (by rintro ⟨⟩)
  | leave =>
    cases caller with
    | flush before => exact .goto ht (by rintro ⟨⟩)
    | evictor call e outer =>
      obtain rfl : outer = false := hcaller
      exact .goto ht (by rintro ⟨⟩)
  | _ => exact .goto ht fun _ => of_decide_eq_true rfl

/-- A step of a thread with the lock brings it closer to giving the lock back. -/
theorem threadStep_holds (hrunning : s.stopping = false)
    (hk : (s.threads t).Knows cfg.options s.stopping) (hl : (s.threads t).LockOk cfg.options)
    (howns : (s.threads t).owns = true) (h : threadStep cfg s t ok = some s') : Holds t s s' := by
  rw [threadStep] at h
  split at h
  case h_1 => cases h
  case h_2 call e owns pc ht =>
    rw [ht] at howns
    obtain rfl : owns = true := howns
    exact enqueueEvent_holds hrunning (ht ▸ hl) ht h
  case h_3 id caller owns pc ht =>
    rw [ht] at howns
    obtain rfl : owns = true := howns
    exact enqueueFlushRequest_holds hrunning (ht ▸ hk) (ht ▸ hl) ht h
  case h_4 before ht =>
    rw [ht] at howns
    cases howns
  case h_5 ht =>
    rw [ht] at howns
    cases howns

end Client

/-- While `shutdown` has not begun, it does not have the lock. -/
theorem Control.shutdown_owns (hc : Control cfg s) (hrunning : s.stopping = false) :
    s.owns .shutdown = false := by
  have hnot : s.shutdown = .notStarted := by
    by_contra hne
    cases hrunning.symm.trans (hc.stopping.mpr hne)
  change s.shutdown.owns = false
  rw [hnot]
  rfl

/-- While `shutdown` has not begun, whoever has the lock can go on. -/
theorem enabled_of_holds {o : Owner} (hc : Control cfg s) (hl : Locked cfg s)
    (hrunning : s.stopping = false) (ho : s.owns o = true) :
    (machine E cfg).Enabled (fun a => a.continues = some o) s := by
  cases o with
  | thread t =>
    obtain ⟨ok, s', hs'⟩ := exists_threadStep (ne_idle_of_owns ho) ((hl.lockOk t).free (.inr ho))
      fun id before ht => by
        change (s.threads t).owns = true at ho
        rw [ht] at ho
        cases ho
    exact ⟨.thread t ok, s', rfl, hs'⟩
  | worker =>
    obtain ⟨ok, s', hs'⟩ : ∃ ok s', workerStep cfg s ok = some s' := exists_workerStep ho
    exact ⟨.worker ok, s', rfl, hs'⟩
  | shutdown => cases ho.symm.trans (hc.shutdown_owns hrunning)

/-- While `shutdown` has not begun, a step of the owner brings it closer to giving the lock
back. -/
theorem hold_lt {a : Action E} {o : Owner} (hc : Control cfg s) (hl : Locked cfg s)
    (hrunning : s.stopping = false) (ho : s.owns o = true) (ho' : s'.owns o = true)
    (ha : a.continues = some o) (h : step cfg s a = some s') : s'.hold o < s.hold o := by
  cases a with
  | dispatch t e => cases ha
  | flush t => cases ha
  | thread t ok =>
    obtain rfl := Option.some.inj ha
    exact threadStep_holds hrunning (hc.threads t) (hl.lockOk t) ho h ho'
  | worker ok =>
    obtain rfl := Option.some.inj ha
    exact (workerStep_step h).rank ho ho'
  | shutdown ok =>
    obtain rfl := Option.some.inj ha
    cases ho.symm.trans (hc.shutdown_owns hrunning)

/-- A step of another leaves the owner where it is. -/
theorem hold_eq {a : Action E} {o : Owner} (hc : Control cfg s) (hl : Locked cfg s)
    (ho : s.owns o = true) (ha : a.continues ≠ some o) (h : step cfg s a = some s') :
    s'.hold o = s.hold o := by
  rcases Action.actor_of_continues ha with hne | ⟨t, rfl, hbegin⟩
  · have hm := step_scheduled hc hl.lockOk h
    cases o with
    | thread t => exact congrArg Pc.hold (hm.threads t hne)
    | worker => exact congrArg WorkerPc.rank (hm.worker hne)
    | shutdown => rfl
  · exact absurd (idle_of_begins hbegin h) (ne_idle_of_owns ho)

/-! ## How far the worker is from its next look at the queue -/

/-- What one item of a batch costs the worker of a dispatcher with `n` sinks, at most. -/
def itemSteps (n : ℕ) : ℕ := 2 * n + 6

/-- What the compare-exchange of `completed_flush_id_` costs, with the value it expects and the
value there is. -/
def casSteps (current completed : WithTop ℕ) : ℕ := if current = completed then 1 else 2

theorem casSteps_self (completed : WithTop ℕ) : casSteps completed completed = 1 := if_pos rfl

theorem casSteps_of_ne {current completed : WithTop ℕ} (h : current ≠ completed) :
    casSteps current completed = 2 := if_neg h

theorem casSteps_pos (current completed : WithTop ℕ) : 0 < casSteps current completed := by
  rw [casSteps]
  split <;> exact Nat.succ_pos _

/-- A bound on the steps of the worker before it looks at the queue at the head of its loop,
with `n` sinks and batches of at most `b` items. A place of `shutdown` has none. -/
def WorkerPc.distance (n b : ℕ) (completed : WithTop ℕ) : WorkerPc E → ℕ
  | tryDequeue | secondDequeue => 1
  | loopTest | setSleeping => 2
  | waitDone => 3
  | waitSleeping => 4
  | waitStopping => 5
  | waitLock | waiting => 6
  | sleepTest => 7
  | write _ _ _ rest k => rest.length * itemSteps n + 2 * (n - k) + 3
  | writeFailed _ _ _ rest k => rest.length * itemSteps n + 2 * (n - (k + 1)) + 4
  | flushSinks _ _ rest k => rest.length * itemSteps n + 2 * (n - k) + 6
  | flushFailed _ _ rest k => rest.length * itemSteps n + 2 * (n - (k + 1)) + 7
  | raiseLoad _ _ rest => rest.length * itemSteps n + 5
  | raiseCas _ _ rest current => rest.length * itemSteps n + casSteps current completed + 2
  | notifyUnlock batch => batch.length * itemSteps n + 3
  | notifyLock batch => batch.length * itemSteps n + 4
  | fill batch => (b - batch.length) * (itemSteps n + 1) + batch.length * itemSteps n + 5
  | stopTest _ => b * (itemSteps n + 1) + itemSteps n + 6
  | clearSleeping _ => b * (itemSteps n + 1) + itemSteps n + 7
  | drain _ | finalFlush _ | finalFailed _ | exited => 0

/-- The distance of the worker in a state. -/
def State.distance (cfg : Config) (s : State E) : ℕ :=
  s.worker.distance s.sinks.length cfg.options.batchSize s.completedFlushId

/-- The worker fills a batch only while there is room in it. -/
def WorkerPc.Filling (b : ℕ) : WorkerPc E → Prop
  | fill batch => batch.length < b
  | _ => True

section Distance

variable {n b : ℕ} {completed : WithTop ℕ}

theorem distance_processBatch_le (batch : List (Ticketed E)) :
    (processBatch batch).distance n b completed ≤ batch.length * itemSteps n + 2 := by
  match batch with
  | [] => simp [processBatch, WorkerPc.distance]
  | (_, .event _ _) :: rest =>
    simp only [processBatch, WorkerPc.distance, List.length_cons, itemSteps, Nat.succ_mul]
    omega
  | (_, .flushRequest _) :: rest =>
    simp only [processBatch, WorkerPc.distance, List.length_cons, itemSteps, Nat.succ_mul]
    omega

/-- An item of the batch costs what `itemSteps` says, and it is in the batch or still to be
taken. -/
theorem distance_fillBatch_le (batch : List (Ticketed E)) :
    (fillBatch cfg batch).distance n cfg.options.batchSize completed ≤
      (cfg.options.batchSize - batch.length) * (itemSteps n + 1) +
        batch.length * itemSteps n + 5 := by
  rw [fillBatch]
  split
  · exact le_rfl
  · simp only [WorkerPc.distance]
    omega

theorem filling_fillBatch (batch : List (Ticketed E)) :
    (fillBatch cfg batch).Filling cfg.options.batchSize := by
  rw [fillBatch]
  split
  case isTrue h => exact h
  case isFalse => trivial

theorem filling_processBatch : ∀ batch : List (Ticketed E), (processBatch batch).Filling b
  | [] | (_, .event _ _) :: _ | (_, .flushRequest _) :: _ => trivial

end Distance

/-! ## One step of the worker -/

/-- The step of the worker would be a compare-exchange that fails although the value is the
expected one. -/
def Spurious (s : State E) (ok : Bool) : Prop :=
  ok = false ∧ ∃ ticket id rest, s.worker = .raiseCas ticket id rest s.completedFlushId ∧
    s.completedFlushId < WithTop.some id

/-- A spurious failure changes nothing. -/
theorem Spurious.eq {ok : Bool} (hs : Spurious s ok) (h : workerStep cfg s ok = some s') :
    s' = s := by
  obtain ⟨rfl, ticket, id, rest, hw, hlt⟩ := hs
  simp only [workerStep, hw, if_pos hlt, State.casCompleted, and_false, Bool.false_eq_true,
    if_false, Option.some.injEq] at h
  rw [← h, State.work, ← hw]

/-- What a step of the worker does while `shutdown` has not begun: it brings the worker closer
to the head of its loop; or, with nothing in hand, it takes an item out, or finds the queue
empty, or begins a wait with `sleeping_` set. -/
def Works (cfg : Config) (s s' : State E) : Prop :=
  s'.distance cfg < s.distance cfg ∨ s.worker.held = [] ∧ (s.queue.taken < s'.queue.taken ∨
    ¬ s.Waits ∨ s.worker = .waitSleeping ∧ s.sleeping = true)

/-- A guarded call on a sink. -/
theorem Works.callSink {k : ℕ} {op : SinkOp (ℕ × E)} {next failed : WorkerPc E}
    (h : callSink s k op next failed = some s')
    (hn : next.distance s.sinks.length cfg.options.batchSize s.completedFlushId < s.distance cfg)
    (hf : failed.distance s.sinks.length cfg.options.batchSize s.completedFlushId <
      s.distance cfg) : Works cfg s s' := by
  obtain ⟨sink, -, rfl⟩ := Option.map_eq_some_iff.mp h
  left
  change (if (sink.call (op.map Prod.snd)).2 = true then failed else next).distance
    (s.sinks.set k _).length _ _ < _
  rw [List.length_set]
  split
  · exact hf
  · exact hn

/-- The rest of the batch is processed next. -/
theorem Works.processBatch {rest : List (Ticketed E)} (hn : s₁.sinks = s.sinks)
    (h : rest.length * itemSteps s.sinks.length + 2 < s.distance cfg) :
    Works cfg s (s₁.work (processBatch rest)) := by
  rw [← hn] at h
  exact .inl ((distance_processBatch_le rest).trans_lt h)

/-- A step of `worker_loop` while `shutdown` has not begun. -/
theorem workerStep_works {ok : Bool} (hatomic : cfg.atomicQueue = true)
    (hrunning : s.stopping = false)
    (hk : s.worker.Knows s.sinks.length s.stopping s.completedFlushId)
    (hfill : s.worker.Filling cfg.options.batchSize) (hspurious : ¬ Spurious s ok)
    (h : workerStep cfg s ok = some s') : Works cfg s s' := by
  obtain ⟨r, pc, rfl, hm⟩ := workerStep_moves h
  replace hrunning : r.stopping = false := hrunning
  have hempty : ∀ {q : TicketQueue (QueueItem E)},
      (cfg.atomicQueue = true → q.accepted.length ≤ q.taken) →
        ¬ q.taken < q.accepted.length := fun hq => Nat.not_lt.mpr (hq hatomic)
  cases hm with
  | loopStop hs | sleepStop hs | waitStop hs | lose hs => cases hrunning.symm.trans hs
  | loopOn | setSleeping => exact .inl (Nat.lt_succ_self 1)
  | tryTaken | secondTaken => exact .inr ⟨rfl, .inl (Nat.lt_succ_self _)⟩
  | tryRefused hq | secondRefused hq => exact .inr ⟨rfl, .inr (.inl (hempty hq))⟩
  | sleepOn => exact .inl (Nat.lt_succ_self 6)
  | waitLock => exact .inl (Nat.lt_succ_self 5)
  | waitOn => exact .inl (Nat.lt_succ_self 4)
  | waitAsleep hs => exact .inr ⟨rfl, .inr (.inr ⟨rfl, hs⟩)⟩
  | waitAwake => exact .inl (Nat.lt_succ_self 3)
  | notified | timedOut =>
    left
    simp [State.distance, State.work, WorkerPc.distance]
  | waitDone => exact .inl (Nat.lt_succ_self 2)
  | @keep item =>
    refine .inl ((distance_fillBatch_le (n := r.sinks.length) item.toList).trans_lt ?_)
    change _ < cfg.options.batchSize * (itemSteps r.sinks.length + 1) +
      itemSteps r.sinks.length + 6
    have hle : (cfg.options.batchSize - item.toList.length) * (itemSteps r.sinks.length + 1) ≤
      cfg.options.batchSize * (itemSteps r.sinks.length + 1) :=
      Nat.mul_le_mul_right _ (Nat.sub_le _ _)
    have hitem : item.toList.length * itemSteps r.sinks.length ≤ itemSteps r.sinks.length := by
      cases item <;> simp
    omega
  | drainTaken | drainEmpty | drainRefused => cases hrunning.symm.trans hk
  | @fillTaken batch x =>
    refine .inl ((distance_fillBatch_le (n := r.sinks.length) _).trans_lt ?_)
    change (cfg.options.batchSize - (batch ++ [(_, x)]).length) *
        (itemSteps r.sinks.length + 1) +
        (batch ++ [(_, x)]).length * itemSteps r.sinks.length + 5 <
      (cfg.options.batchSize - batch.length) * (itemSteps r.sinks.length + 1) +
        batch.length * itemSteps r.sinks.length + 5
    obtain ⟨room, hroom⟩ := Nat.exists_eq_add_of_lt (show batch.length < _ from hfill)
    rw [List.length_append, List.length_singleton, hroom,
      show batch.length + room + 1 - (batch.length + 1) = room by omega,
      show batch.length + room + 1 - batch.length = room + 1 by omega,
      Nat.succ_mul, Nat.succ_mul]
    omega
  | @fillRefused batch =>
    left
    change batch.length * itemSteps r.sinks.length + 4 <
      (cfg.options.batchSize - batch.length) * (itemSteps r.sinks.length + 1) +
        batch.length * itemSteps r.sinks.length + 5
    omega
  | @notifyUnlock batch => exact .processBatch rfl (Nat.lt_succ_self _)
  | write hlt hcall | flush hlt hcall =>
    replace hlt : _ < r.sinks.length := hlt
    refine .callSink hcall ?_ ?_ <;>
      simp only [State.distance, State.work, WorkerPc.distance] <;> omega
  | written =>
    refine .processBatch rfl ?_
    simp only [State.distance, State.work, WorkerPc.distance]
    omega
  | flushed =>
    left
    simp only [State.distance, State.work, WorkerPc.distance]
    omega
  | raiseLoad =>
    left
    simp only [State.distance, State.work, WorkerPc.distance, casSteps_self]
    omega
  | @raised ticket id rest current | @raisedBefore ticket id rest current =>
    refine .processBatch rfl ?_
    have hpos := casSteps_pos current r.completedFlushId
    simp only [State.distance, State.work, WorkerPc.distance]
    omega
  | @raiseMissed ticket id rest current hlt hmissed =>
    -- the exchange failed, and not spuriously: the value was another one
    left
    have hne : current ≠ r.completedFlushId := by
      rintro rfl
      exact hspurious ⟨hmissed rfl, ticket, id, rest, rfl, hlt⟩
    simp only [State.distance, State.work, WorkerPc.distance, casSteps_self,
      casSteps_of_ne hne]
    omega
  | finalFlush | finalFlushed | finalFailed => cases hrunning.symm.trans hk.2
  | clearSleeping | notifyLock | writeFailed | flushFailed => exact .inl (Nat.lt_succ_self _)

/-- The worker is on its way back from a wait to the head of its loop. -/
def WorkerPc.returning : WorkerPc E → Bool
  | sleepTest | waitLock | waitStopping | waitSleeping | waiting => true
  | waitDone | loopTest | tryDequeue => true
  | _ => false

/-- On the way back over a queue with something in it the worker does not set `sleeping_`, and
the way ends where it takes an item out. -/
theorem workerStep_returning {ok : Bool} (hatomic : cfg.atomicQueue = true)
    (hrunning : s.stopping = false) (hw : s.worker.returning = true) (hwaits : s.Waits)
    (h : workerStep cfg s ok = some s') :
    s.queue.taken < s'.queue.taken ∨
      s'.worker.returning = true ∧ s'.sleeping = s.sleeping := by
  obtain ⟨r, pc, rfl, hm⟩ := workerStep_moves h
  replace hrunning : r.stopping = false := hrunning
  cases hm with
  | loopStop hs | sleepStop hs => cases hrunning.symm.trans hs
  | tryTaken => exact .inl (Nat.lt_succ_self _)
  | tryRefused hempty => exact absurd (hempty hatomic) (Nat.not_le.mpr hwaits)
  | loopOn | sleepOn | waitLock | waitStop | waitOn | waitAsleep | waitAwake | notified
  | timedOut | waitDone => exact .inr ⟨rfl, rfl⟩
  | _ => cases hw

/-- A step of the worker keeps a batch that is being filled below its size. -/
theorem workerStep_filling {ok : Bool} (hfill : s.worker.Filling cfg.options.batchSize)
    (h : workerStep cfg s ok = some s') : s'.worker.Filling cfg.options.batchSize := by
  obtain ⟨r, pc, rfl, hm⟩ := workerStep_moves h
  cases hm with
  | keep | fillTaken => exact filling_fillBatch _
  | @drainTaken batch x =>
    change (drainBatch cfg _).Filling _
    rw [drainBatch]
    split <;> trivial
  | notifyUnlock | written | raised | raisedBefore => exact filling_processBatch _
  | write _ hcall | flush _ hcall | finalFlush _ hcall =>
    exact callSink_place (P := WorkerPc.Filling _) hcall trivial trivial
  | _ => trivial

/-- In every run a batch that is being filled is below its size. -/
theorem filling_run (h : (machine E cfg).run (.initial sinks) as = some s) :
    s.worker.Filling cfg.options.batchSize := by
  refine Machine.run_induction (P := fun _ s => s.worker.Filling cfg.options.batchSize) trivial
    ?_ h
  intro as s a s' hs hfill ha
  by_cases hworker : a.actor = .worker
  · cases a with
    | worker ok => exact workerStep_filling hfill ha
    | _ => cases hworker
  · rw [(step_scheduled (control_run hs) (locked_run hs).lockOk ha).worker hworker]
    exact hfill

/-- The worker can go on when the lock is free, as long as it has not ended. -/
theorem exists_workerStep_of_free (hmutex : s.mutex = none) (hne : s.worker ≠ .exited) :
    ∃ ok s', workerStep cfg s ok = some s' := by
  have hsink : ∀ {k : ℕ} {op : SinkOp (ℕ × E)} {next failed : WorkerPc E},
      k < s.sinks.length → ∃ s', callSink s k op next failed = some s' := fun hk =>
    ⟨_, by rw [callSink, List.getElem?_eq_getElem hk]; rfl⟩
  cases hpc : s.worker with
  | tryDequeue =>
    simp only [workerStep, hpc]
    exact cfg.exists_dequeue ..
  | secondDequeue =>
    simp only [workerStep, hpc]
    exact cfg.exists_dequeue ..
  | drain batch =>
    simp only [workerStep, hpc]
    exact cfg.exists_dequeue ..
  | fill batch =>
    simp only [workerStep, hpc]
    exact cfg.exists_dequeue ..
  | waitLock =>
    simp only [workerStep, hpc]
    exact ⟨true, State.exists_lock hmutex _ _⟩
  | waiting =>
    simp only [workerStep, hpc]
    exact ⟨true, State.exists_lock hmutex _ _⟩
  | notifyLock batch =>
    simp only [workerStep, hpc]
    exact ⟨true, State.exists_lock hmutex _ _⟩
  | waitSleeping =>
    refine ⟨true, ?_⟩
    simp only [workerStep, hpc]
    split <;> exact ⟨_, rfl⟩
  | stopTest item =>
    refine ⟨true, ?_⟩
    simp only [workerStep, hpc]
    split <;> exact ⟨_, rfl⟩
  | write ticket call e rest k =>
    refine ⟨true, ?_⟩
    simp only [workerStep, hpc]
    split
    case isTrue hk => exact hsink hk
    case isFalse => exact ⟨_, rfl⟩
  | flushSinks ticket id rest k =>
    refine ⟨true, ?_⟩
    simp only [workerStep, hpc]
    split
    case isTrue hk => exact hsink hk
    case isFalse => exact ⟨_, rfl⟩
  | raiseCas ticket id rest current =>
    refine ⟨true, ?_⟩
    simp only [workerStep, hpc]
    split
    · split <;> exact ⟨_, rfl⟩
    · exact ⟨_, rfl⟩
  | finalFlush k =>
    refine ⟨true, ?_⟩
    simp only [workerStep, hpc]
    split
    case isTrue hk => exact hsink hk
    case isFalse => exact ⟨_, rfl⟩
  | exited => exact absurd hpc hne
  | _ =>
    simp only [workerStep, hpc]
    exact ⟨true, _, rfl⟩

end AsyncDispatcher

end Logspine
