import Logspine.AsyncDispatcher

/-!
# What each place of `worker_loop` does

`WorkerMove` lists the steps of the worker by the place it is at, with what it finds there and
the state it leaves behind. Whatever is said about a step of the worker is read off this list:
only `workerStep_moves` looks into `workerStep`.
-/

namespace Logspine

namespace AsyncDispatcher

variable {E : Type} {cfg : Config} {s s' : State E} {ok : Bool}

theorem work_worker (s : State E) (pc : WorkerPc E) : (s.work pc).worker = pc := rfl

/-- The oldest item is taken out of `queue_`. -/
def State.take (s : State E) : State E :=
  { s with queue := { s.queue with taken := s.queue.taken + 1 } }

/-- The steps of the worker from `s`, by the place it is at. -/
inductive WorkerMove (cfg : Config) (s : State E) (ok : Bool) : WorkerPc E → State E → Prop where
  | loopStop (h : s.stopping = true) : WorkerMove cfg s ok .loopTest (s.work (.stopTest none))
  | loopOn (h : s.stopping = false) : WorkerMove cfg s ok .loopTest (s.work .tryDequeue)
  | tryTaken {x : QueueItem E} (hx : s.queue.accepted[s.queue.taken]? = some x) :
    WorkerMove cfg s ok .tryDequeue (s.take.work (.stopTest (some (s.queue.taken, x))))
  | tryRefused (hempty : cfg.atomicQueue = true → s.queue.accepted.length ≤ s.queue.taken) :
    WorkerMove cfg s ok .tryDequeue (s.work .setSleeping)
  | setSleeping : WorkerMove cfg s ok .setSleeping ({ s with sleeping := true }.work .secondDequeue)
  | secondTaken {x : QueueItem E} (hx : s.queue.accepted[s.queue.taken]? = some x) :
    WorkerMove cfg s ok .secondDequeue (s.take.work (.clearSleeping (s.queue.taken, x)))
  | secondRefused (hempty : cfg.atomicQueue = true → s.queue.accepted.length ≤ s.queue.taken) :
    WorkerMove cfg s ok .secondDequeue (s.work .sleepTest)
  | clearSleeping {x : Ticketed E} :
    WorkerMove cfg s ok (.clearSleeping x) ({ s with sleeping := false }.work (.stopTest (some x)))
  | sleepStop (h : s.stopping = true) : WorkerMove cfg s ok .sleepTest (s.work (.stopTest none))
  | sleepOn (h : s.stopping = false) : WorkerMove cfg s ok .sleepTest (s.work .waitLock)
  | waitLock (hfree : s.mutex = none) :
    WorkerMove cfg s ok .waitLock ({ s with mutex := some .worker }.work .waitStopping)
  | waitStop (h : s.stopping = true) : WorkerMove cfg s ok .waitStopping (s.work .waitDone)
  | waitOn (h : s.stopping = false) : WorkerMove cfg s ok .waitStopping (s.work .waitSleeping)
  | waitAsleep (h : s.sleeping = true) :
    WorkerMove cfg s ok .waitSleeping ({ s with mutex := none }.work .waiting)
  | waitAwake (h : s.sleeping = false) : WorkerMove cfg s ok .waitSleeping (s.work .waitDone)
  | notified (hok : ok = true) (hfree : s.mutex = none) :
    WorkerMove cfg s ok .waiting ({ s with mutex := some .worker }.work .waitStopping)
  | timedOut (hok : ok = false) (hfree : s.mutex = none) :
    WorkerMove cfg s ok .waiting ({ s with mutex := some .worker }.work .waitDone)
  | waitDone : WorkerMove cfg s ok .waitDone ({ s with mutex := none }.work .loopTest)
  | lose {item : Option (Ticketed E)} (h : s.stopping = true) :
    WorkerMove cfg s ok (.stopTest item)
      ({ s with history := { s.history with lost := s.history.lost ++ item.toList } }.work
        (.drain []))
  | keep {item : Option (Ticketed E)} (h : s.stopping = false) :
    WorkerMove cfg s ok (.stopTest item) (s.work (fillBatch cfg item.toList))
  | drainTaken {batch : List (Ticketed E)} {x : QueueItem E}
    (hx : s.queue.accepted[s.queue.taken]? = some x) :
    WorkerMove cfg s ok (.drain batch)
      (s.take.work (drainBatch cfg (batch ++ [(s.queue.taken, x)])))
  | drainEmpty (hempty : cfg.atomicQueue = true → s.queue.accepted.length ≤ s.queue.taken) :
    WorkerMove cfg s ok (.drain []) (s.work (.finalFlush 0))
  | drainRefused {x : Ticketed E} {batch : List (Ticketed E)} :
    WorkerMove cfg s ok (.drain (x :: batch)) (s.work (.notifyLock (x :: batch)))
  | fillTaken {batch : List (Ticketed E)} {x : QueueItem E}
    (hx : s.queue.accepted[s.queue.taken]? = some x) :
    WorkerMove cfg s ok (.fill batch)
      (s.take.work (fillBatch cfg (batch ++ [(s.queue.taken, x)])))
  | fillRefused {batch : List (Ticketed E)} :
    WorkerMove cfg s ok (.fill batch) (s.work (.notifyLock batch))
  | notifyLock {batch : List (Ticketed E)} (hfree : s.mutex = none) :
    WorkerMove cfg s ok (.notifyLock batch)
      ({ s with mutex := some .worker }.work (.notifyUnlock batch))
  | notifyUnlock {batch : List (Ticketed E)} :
    WorkerMove cfg s ok (.notifyUnlock batch) ({ s with mutex := none }.work (processBatch batch))
  | write {ticket call : ℕ} {e : E} {rest : List (Ticketed E)} {k : ℕ} {s' : State E}
    (hk : k < s.sinks.length)
    (hcall : callSink s k (.write (ticket, e)) (.write ticket call e rest (k + 1))
      (.writeFailed ticket call e rest k) = some s') :
    WorkerMove cfg s ok (.write ticket call e rest k) s'
  | written {ticket call : ℕ} {e : E} {rest : List (Ticketed E)} {k : ℕ}
    (hk : s.sinks.length ≤ k) :
    WorkerMove cfg s ok (.write ticket call e rest k)
      ({ s with history := { s.history with
        done := s.history.done ++ [(ticket, QueueItem.event call e)] } }.work (processBatch rest))
  | writeFailed {ticket call : ℕ} {e : E} {rest : List (Ticketed E)} {k : ℕ} :
    WorkerMove cfg s ok (.writeFailed ticket call e rest k)
      ({ s with sinkFailures := s.sinkFailures + 1 }.work (.write ticket call e rest (k + 1)))
  | flush {ticket id : ℕ} {rest : List (Ticketed E)} {k : ℕ} {s' : State E}
    (hk : k < s.sinks.length)
    (hcall : callSink s k .flush (.flushSinks ticket id rest (k + 1))
      (.flushFailed ticket id rest k) = some s') :
    WorkerMove cfg s ok (.flushSinks ticket id rest k) s'
  | flushed {ticket id : ℕ} {rest : List (Ticketed E)} {k : ℕ} (hk : s.sinks.length ≤ k) :
    WorkerMove cfg s ok (.flushSinks ticket id rest k) (s.work (.raiseLoad ticket id rest))
  | flushFailed {ticket id : ℕ} {rest : List (Ticketed E)} {k : ℕ} :
    WorkerMove cfg s ok (.flushFailed ticket id rest k)
      ({ s with sinkFailures := s.sinkFailures + 1 }.work (.flushSinks ticket id rest (k + 1)))
  | raiseLoad {ticket id : ℕ} {rest : List (Ticketed E)} :
    WorkerMove cfg s ok (.raiseLoad ticket id rest)
      (s.work (.raiseCas ticket id rest s.completedFlushId))
  | raised {ticket id : ℕ} {rest : List (Ticketed E)} {current : WithTop ℕ}
    (hlt : current < WithTop.some id) (hcur : s.completedFlushId = current) :
    WorkerMove cfg s ok (.raiseCas ticket id rest current)
      ({ s with
        completedFlushId := WithTop.some id
        history := { s.history with
          done := s.history.done ++ [(ticket, QueueItem.flushRequest id)] } }.work
        (processBatch rest))
  | raiseMissed {ticket id : ℕ} {rest : List (Ticketed E)} {current : WithTop ℕ}
    (hlt : current < WithTop.some id) (hmissed : s.completedFlushId = current → ok = false) :
    WorkerMove cfg s ok (.raiseCas ticket id rest current)
      (s.work (.raiseCas ticket id rest s.completedFlushId))
  | raisedBefore {ticket id : ℕ} {rest : List (Ticketed E)} {current : WithTop ℕ}
    (hle : WithTop.some id ≤ current) :
    WorkerMove cfg s ok (.raiseCas ticket id rest current)
      ({ s with history := { s.history with
        done := s.history.done ++ [(ticket, QueueItem.flushRequest id)] } }.work
        (processBatch rest))
  | finalFlush {k : ℕ} {s' : State E} (hk : k < s.sinks.length)
    (hcall : callSink s k .flush (.finalFlush (k + 1)) (.finalFailed k) = some s') :
    WorkerMove cfg s ok (.finalFlush k) s'
  | finalFlushed {k : ℕ} (hk : s.sinks.length ≤ k) :
    WorkerMove cfg s ok (.finalFlush k) (s.work .exited)
  | finalFailed {k : ℕ} :
    WorkerMove cfg s ok (.finalFailed k)
      ({ s with sinkFailures := s.sinkFailures + 1 }.work (.finalFlush (k + 1)))

/-- A step of `worker_loop` is one of the list. -/
theorem workerStep_moves (h : workerStep cfg s ok = some s') :
    ∃ (r : State E) (pc : WorkerPc E), s = r.work pc ∧ WorkerMove cfg (r.work pc) ok pc s' := by
  obtain ⟨r, pc, rfl⟩ : ∃ (r : State E) (pc : WorkerPc E), s = r.work pc := ⟨s, s.worker, rfl⟩
  refine ⟨r, pc, rfl, ?_⟩
  cases pc with
  | loopTest =>
    obtain rfl := Option.some.inj h
    split
    case isTrue hs => exact .loopStop hs
    case isFalse hs => exact .loopOn (Bool.eq_false_iff.mpr hs)
  | tryDequeue =>
    simp only [workerStep, work_worker] at h
    rcases Config.dequeue_cases h with ⟨-, x, hx, rfl⟩ | ⟨-, rfl, hempty⟩
    · exact .tryTaken hx
    · exact .tryRefused hempty
  | setSleeping =>
    obtain rfl := Option.some.inj h
    exact .setSleeping
  | secondDequeue =>
    simp only [workerStep, work_worker] at h
    rcases Config.dequeue_cases h with ⟨-, x, hx, rfl⟩ | ⟨-, rfl, hempty⟩
    · exact .secondTaken hx
    · exact .secondRefused hempty
  | clearSleeping x =>
    obtain rfl := Option.some.inj h
    exact .clearSleeping
  | sleepTest =>
    obtain rfl := Option.some.inj h
    split
    case isTrue hs => exact .sleepStop hs
    case isFalse hs => exact .sleepOn (Bool.eq_false_iff.mpr hs)
  | waitLock =>
    obtain ⟨s₁, hl, rfl⟩ := Option.map_eq_some_iff.mp h
    obtain ⟨hfree, rfl⟩ := State.lock_eq_some.mp hl
    exact .waitLock hfree
  | waitStopping =>
    obtain rfl := Option.some.inj h
    split
    case isTrue hs => exact .waitStop hs
    case isFalse hs => exact .waitOn (Bool.eq_false_iff.mpr hs)
  | waitSleeping =>
    simp only [workerStep, work_worker] at h
    split at h <;> obtain rfl := Option.some.inj h
    case isTrue hs => exact .waitAsleep hs
    case isFalse hs => exact .waitAwake (Bool.eq_false_iff.mpr hs)
  | waiting =>
    obtain ⟨s₁, hl, rfl⟩ := Option.map_eq_some_iff.mp h
    obtain ⟨hfree, rfl⟩ := State.lock_eq_some.mp hl
    cases hok : ok with
    | true => exact .notified rfl hfree
    | false => exact .timedOut rfl hfree
  | waitDone =>
    obtain rfl := Option.some.inj h
    exact .waitDone
  | stopTest item =>
    simp only [workerStep, work_worker] at h
    split at h <;> obtain rfl := Option.some.inj h
    case isTrue hs => exact .lose hs
    case isFalse hs => exact .keep (Bool.eq_false_iff.mpr hs)
  | drain batch =>
    simp only [workerStep, work_worker] at h
    rcases Config.dequeue_cases h with ⟨-, x, hx, rfl⟩ | ⟨-, rfl, hempty⟩
    · exact .drainTaken hx
    · cases batch with
      | nil => exact .drainEmpty hempty
      | cons x rest => exact .drainRefused
  | fill batch =>
    simp only [workerStep, work_worker] at h
    rcases Config.dequeue_cases h with ⟨-, x, hx, rfl⟩ | ⟨-, rfl, -⟩
    · exact .fillTaken hx
    · exact .fillRefused
  | notifyLock batch =>
    obtain ⟨s₁, hl, rfl⟩ := Option.map_eq_some_iff.mp h
    obtain ⟨hfree, rfl⟩ := State.lock_eq_some.mp hl
    exact .notifyLock hfree
  | notifyUnlock batch =>
    obtain rfl := Option.some.inj h
    exact .notifyUnlock
  | write ticket call e rest k =>
    simp only [workerStep, work_worker] at h
    split at h
    case isTrue hk => exact .write hk h
    case isFalse hk =>
      obtain rfl := Option.some.inj h
      exact .written (not_lt.mp hk)
  | writeFailed ticket call e rest k =>
    obtain rfl := Option.some.inj h
    exact .writeFailed
  | flushSinks ticket id rest k =>
    simp only [workerStep, work_worker] at h
    split at h
    case isTrue hk => exact .flush hk h
    case isFalse hk =>
      obtain rfl := Option.some.inj h
      exact .flushed (not_lt.mp hk)
  | flushFailed ticket id rest k =>
    obtain rfl := Option.some.inj h
    exact .flushFailed
  | raiseLoad ticket id rest =>
    obtain rfl := Option.some.inj h
    exact .raiseLoad
  | raiseCas ticket id rest current =>
    simp only [workerStep, work_worker] at h
    split at h
    case isTrue hlt =>
      split at h <;> obtain rfl := Option.some.inj h
      case h_1 s₁ hcas =>
        obtain ⟨⟨hcur, -⟩, rfl⟩ := State.casCompleted_eq_some.mp hcas
        exact .raised hlt hcur
      case h_2 hcas =>
        refine .raiseMissed hlt fun hcur => Bool.eq_false_iff.mpr fun hok => ?_
        cases hcas.symm.trans (State.casCompleted_eq_some.mpr ⟨⟨hcur, hok⟩, rfl⟩)
    case isFalse hlt =>
      obtain rfl := Option.some.inj h
      exact .raisedBefore (not_lt.mp hlt)
  | finalFlush k =>
    simp only [workerStep, work_worker] at h
    split at h
    case isTrue hk => exact .finalFlush hk h
    case isFalse hk =>
      obtain rfl := Option.some.inj h
      exact .finalFlushed (not_lt.mp hk)
  | finalFailed k =>
    obtain rfl := Option.some.inj h
    exact .finalFailed
  | exited => cases h

/-- After a guarded call on a sink the worker is at one of two places. -/
theorem callSink_place {P : WorkerPc E → Prop} {k : ℕ} {op : SinkOp (ℕ × E)}
    {next failed : WorkerPc E} (h : callSink s k op next failed = some s') (hn : P next)
    (hf : P failed) : P s'.worker := by
  obtain ⟨sink, -, rfl⟩ := Option.map_eq_some_iff.mp h
  change P (if _ then _ else _)
  split
  · exact hf
  · exact hn

end AsyncDispatcher

end Logspine
