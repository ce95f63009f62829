import Logspine.AsyncDispatcher

/-!
# What each place of `enqueue_event` and `enqueue_flush_request` does

`EventMove` and `RequestMove` list the steps of a client thread by the place it is at, with what
it finds there and the state it leaves behind, as `WorkerMove` does for the worker.
-/

namespace Logspine

namespace AsyncDispatcher

variable {E : Type}

section Moves

variable (cfg : Config) (s : State E) (t call id : ℕ) (e : E) (caller : Caller E) (owns ok : Bool)

/-- The steps of thread `t` from `s`, by the place of `enqueue_event` it is at. -/
inductive EventMove : EventPc E → State E → Prop where
  | enterStop (h : s.stopping = true) : EventMove .enter (s.goto t (.event call e owns .drop))
  | enterOn (h : s.stopping = false) : EventMove .enter (s.goto t (.event call e owns .first))
  | firstPut (hroom : s.queue.HasRoom cfg.capacity) :
    EventMove .first
      ({ s with queue := s.queue.put (.event call e) }.goto t (.event call e owns .sleeping))
  | firstRefused (hfull : cfg.atomicQueue = true → ¬ s.queue.HasRoom cfg.capacity) :
    EventMove .first (s.goto t (.event call e owns .retry))
  | retryPut (hroom : s.queue.HasRoom cfg.capacity) :
    EventMove .retry
      ({ s with queue := s.queue.put (.event call e) }.goto t (.event call e owns .sleeping))
  | retryRefused (hfull : cfg.atomicQueue = true → ¬ s.queue.HasRoom cfg.capacity) :
    EventMove .retry (s.goto t (.event call e owns .stopping))
  | stop (h : s.stopping = true) : EventMove .stopping (s.goto t (.event call e owns .drop))
  | dropNewest (h : s.stopping = false) (ho : cfg.options.overflow = .dropNewest) :
    EventMove .stopping (s.goto t (.event call e owns .drop))
  | dropOldest (h : s.stopping = false) (ho : cfg.options.overflow = .dropOldest) :
    EventMove .stopping (s.goto t (.event call e owns .evict))
  | blockHeld (h : s.stopping = false) (ho : cfg.options.overflow = .block) (howns : owns = true) :
    EventMove .stopping (s.goto t (.event call e owns .wait))
  | blockFree (h : s.stopping = false) (ho : cfg.options.overflow = .block) (howns : owns = false) :
    EventMove .stopping (s.goto t (.event call e owns .waitLock))
  | evict {x : QueueItem E} (hok : ok = true) (hx : s.queue.accepted[s.queue.taken]? = some x) :
    EventMove .evict
      ({ s with
        queue := { s.queue with taken := s.queue.taken + 1 }
        history := { s.history with
          evicted := s.history.evicted ++ [(s.queue.taken, t, call)] } }.goto t
            (.event call e owns (.evicted s.queue.taken x)))
  | evictRefused (hok : ok = false)
    (hempty : cfg.atomicQueue = true → s.queue.accepted.length ≤ s.queue.taken) :
    EventMove .evict (s.goto t (.event call e owns .retry))
  | evictedEvent {ticket c : ℕ} {e' : E} :
    EventMove (.evicted ticket (.event c e'))
      ({ s with
        droppedEvents := s.droppedEvents + 1
        history := { s.history with drops := s.history.drops ++ [Drop.evicted ticket] } }.goto t
          (.event call e owns .retry))
  | evictedRequest {ticket id : ℕ} :
    EventMove (.evicted ticket (.flushRequest id))
      ({ s with
        droppedEvents := s.droppedEvents + 1
        history := { s.history with drops := s.history.drops ++ [Drop.evicted ticket] } }.goto t
          (.request id (.evictor call e owns) false .enter))
  | waitLock (hfree : s.mutex = none) :
    EventMove .waitLock ({ s with mutex := some (.thread t) }.goto t (.event call e true .wait))
  | wait : EventMove .wait ({ s with mutex := none }.goto t (.event call e false .waiting))
  | notified (hfree : s.mutex = none) :
    EventMove .waiting ({ s with mutex := some (.thread t) }.goto t (.event call e true .retry))
  | timedOut (hfree : s.mutex = none) (htimeout : 0 < cfg.options.blockRetryTimeout) :
    EventMove .waiting ({ s with mutex := some (.thread t) }.goto t (.event call e true .drop))
  | drop :
    EventMove .drop
      ({ s with
        droppedEvents := s.droppedEvents + 1
        history := { s.history with drops := s.history.drops ++ [Drop.refused call] } }.goto t
          (.event call e owns .leave))
  | asleepHeld (h : s.sleeping = true) (howns : owns = true) :
    EventMove .sleeping (s.goto t (.event call e owns .wake))
  | asleepFree (h : s.sleeping = true) (howns : owns = false) :
    EventMove .sleeping (s.goto t (.event call e owns .lock))
  | awake (h : s.sleeping = false) : EventMove .sleeping (s.goto t (.event call e owns .leave))
  | lock (hfree : s.mutex = none) :
    EventMove .lock ({ s with mutex := some (.thread t) }.goto t (.event call e true .wake))
  | wake : EventMove .wake ({ s with sleeping := false }.goto t (.event call e owns .leave))
  | leave :
    EventMove .leave
      ({ s with
        mutex := if owns then none else s.mutex
        history := { s.history with returned := s.history.returned ++ [call] } }.goto t .idle)

/-- The steps of thread `t` from `s`, by the place of `enqueue_flush_request` it is at. -/
inductive RequestMove : RequestPc → State E → Prop where
  | enterStop (h : s.stopping = true) :
    RequestMove .enter (s.goto t (.request id caller owns .raiseLoad))
  | enterOn (h : s.stopping = false) :
    RequestMove .enter (s.goto t (.request id caller owns .enqueue))
  | put (hroom : s.queue.HasRoom cfg.capacity) :
    RequestMove .enqueue
      ({ s with queue := s.queue.put (.flushRequest id) }.goto t
        (.request id caller owns .sleeping))
  | refused (hfull : cfg.atomicQueue = true → ¬ s.queue.HasRoom cfg.capacity) :
    RequestMove .enqueue (s.goto t (.request id caller owns .stopping))
  | stop (h : s.stopping = true) :
    RequestMove .stopping (s.goto t (.request id caller owns .raiseLoad))
  | blockHeld (h : s.stopping = false) (howns : owns = true) :
    RequestMove .stopping (s.goto t (.request id caller owns .wait))
  | blockFree (h : s.stopping = false) (howns : owns = false) :
    RequestMove .stopping (s.goto t (.request id caller owns .waitLock))
  | waitLock (hfree : s.mutex = none) :
    RequestMove .waitLock
      ({ s with mutex := some (.thread t) }.goto t (.request id caller true .wait))
  | wait : RequestMove .wait ({ s with mutex := none }.goto t (.request id caller false .waiting))
  | waiting (hfree : s.mutex = none) :
    RequestMove .waiting
      ({ s with mutex := some (.thread t) }.goto t (.request id caller true .enqueue))
  | raiseLoad :
    RequestMove .raiseLoad (s.goto t (.request id caller owns (.raiseCas s.completedFlushId)))
  | raised {current : WithTop ℕ} (hlt : current < WithTop.some id)
    (hcur : s.completedFlushId = current) :
    RequestMove (.raiseCas current)
      ({ s with completedFlushId := WithTop.some id }.goto t (.request id caller owns .leave))
  | raiseMissed {current : WithTop ℕ} (hlt : current < WithTop.some id) :
    RequestMove (.raiseCas current)
      (s.goto t (.request id caller owns (.raiseCas s.completedFlushId)))
  | raisedBefore {current : WithTop ℕ} (hle : ¬ current < WithTop.some id) :
    RequestMove (.raiseCas current) (s.goto t (.request id caller owns .leave))
  | asleepHeld (h : s.sleeping = true) (howns : owns = true) :
    RequestMove .sleeping (s.goto t (.request id caller owns .wake))
  | asleepFree (h : s.sleeping = true) (howns : owns = false) :
    RequestMove .sleeping (s.goto t (.request id caller owns .lock))
  | awake (h : s.sleeping = false) :
    RequestMove .sleeping (s.goto t (.request id caller owns .leave))
  | lock (hfree : s.mutex = none) :
    RequestMove .lock ({ s with mutex := some (.thread t) }.goto t (.request id caller true .wake))
  | wake : RequestMove .wake ({ s with sleeping := false }.goto t (.request id caller owns .leave))
  | leave :
    RequestMove .leave
      ({ s with mutex := if owns then none else s.mutex }.goto t (caller.resume id))

end Moves

variable {cfg : Config} {s s' : State E} {t call id : ℕ} {e : E} {caller : Caller E}
  {owns ok : Bool}

/-- A step of `enqueue_event` is one of the list. -/
theorem enqueueEvent_moves {pc : EventPc E}
    (h : enqueueEvent cfg s t call e owns ok pc = some s') :
    EventMove cfg s t call e owns ok pc s' := by
  cases pc with
  | enter =>
    obtain rfl := Option.some.inj h
    split
    case isTrue hs => exact .enterStop hs
    case isFalse hs => exact .enterOn (Bool.eq_false_iff.mpr hs)
  | first =>
    rcases Config.enqueue_cases h with ⟨hroom, rfl⟩ | ⟨rfl, hfull⟩
    · exact .firstPut hroom
    · exact .firstRefused hfull
  | retry =>
    rcases Config.enqueue_cases h with ⟨hroom, rfl⟩ | ⟨rfl, hfull⟩
    · exact .retryPut hroom
    · exact .retryRefused hfull
  | stopping =>
    rw [enqueueEvent] at h
    split at h
    case isTrue hs =>
      obtain rfl := Option.some.inj h
      exact .stop hs
    case isFalse hs =>
      replace hs := Bool.eq_false_iff.mpr hs
      split at h <;> obtain rfl := Option.some.inj h
      case h_1 ho => exact .dropNewest hs ho
      case h_2 ho => exact .dropOldest hs ho
      case h_3 ho =>
        split
        case isTrue howns => exact .blockHeld hs ho howns
        case isFalse howns => exact .blockFree hs ho (Bool.eq_false_iff.mpr howns)
  | evict =>
    rw [enqueueEvent] at h
    rcases Config.dequeue_cases h with ⟨hok, x, hx, rfl⟩ | ⟨hok, rfl, hempty⟩
    · exact .evict hok hx
    · exact .evictRefused hok hempty
  | evicted ticket item =>
    cases item with
    | event c e' =>
      obtain rfl := Option.some.inj h
      exact .evictedEvent
    | flushRequest id =>
      obtain rfl := Option.some.inj h
      exact .evictedRequest
  | waitLock =>
    obtain ⟨s₁, hl, rfl⟩ := Option.map_eq_some_iff.mp h
    obtain ⟨hfree, rfl⟩ := State.lock_eq_some.mp hl
    exact .waitLock hfree
  | wait =>
    obtain rfl := Option.some.inj h
    exact .wait
  | waiting =>
    rw [enqueueEvent] at h
    split at h
    case isTrue =>
      obtain ⟨s₁, hl, rfl⟩ := Option.map_eq_some_iff.mp h
      obtain ⟨hfree, rfl⟩ := State.lock_eq_some.mp hl
      exact .notified hfree
    case isFalse =>
      obtain ⟨htimeout, h⟩ := Option.ite_none_right_eq_some.mp h
      obtain ⟨s₁, hl, rfl⟩ := Option.map_eq_some_iff.mp h
      obtain ⟨hfree, rfl⟩ := State.lock_eq_some.mp hl
      exact .timedOut hfree htimeout
  | drop =>
    obtain rfl := Option.some.inj h
    exact .drop
  | sleeping =>
    rw [enqueueEvent] at h
    split at h <;> obtain rfl := Option.some.inj h
    case isTrue hs =>
      split
      case isTrue howns => exact .asleepHeld hs howns
      case isFalse howns => exact .asleepFree hs (Bool.eq_false_iff.mpr howns)
    case isFalse hs => exact .awake (Bool.eq_false_iff.mpr hs)
  | lock =>
    obtain ⟨s₁, hl, rfl⟩ := Option.map_eq_some_iff.mp h
    obtain ⟨hfree, rfl⟩ := State.lock_eq_some.mp hl
    exact .lock hfree
  | wake =>
    obtain rfl := Option.some.inj h
    exact .wake
  | leave =>
    obtain rfl := Option.some.inj h
    exact .leave

/-- A step of `enqueue_flush_request` is one of the list. -/
theorem enqueueFlushRequest_moves {pc : RequestPc}
    (h : enqueueFlushRequest cfg s t id caller owns ok pc = some s') :
    RequestMove cfg s t id caller owns pc s' := by
  cases pc with
  | enter =>
    rw [enqueueFlushRequest] at h
    split at h <;> obtain rfl := Option.some.inj h
    case isTrue hs => exact .enterStop hs
    case isFalse hs => exact .enterOn (Bool.eq_false_iff.mpr hs)
  | enqueue =>
    rcases Config.enqueue_cases h with ⟨hroom, rfl⟩ | ⟨rfl, hfull⟩
    · exact .put hroom
    · exact .refused hfull
  | stopping =>
    rw [enqueueFlushRequest] at h
    split at h <;> obtain rfl := Option.some.inj h
    case isTrue hs => exact .stop hs
    case isFalse hs =>
      replace hs := Bool.eq_false_iff.mpr hs
      split
      case isTrue howns => exact .blockHeld hs howns
      case isFalse howns => exact .blockFree hs (Bool.eq_false_iff.mpr howns)
  | waitLock =>
    obtain ⟨s₁, hl, rfl⟩ := Option.map_eq_some_iff.mp h
    obtain ⟨hfree, rfl⟩ := State.lock_eq_some.mp hl
    exact .waitLock hfree
  | wait =>
    obtain rfl := Option.some.inj h
    exact .wait
  | waiting =>
    obtain ⟨s₁, hl, rfl⟩ := Option.map_eq_some_iff.mp h
    obtain ⟨hfree, rfl⟩ := State.lock_eq_some.mp hl
    exact .waiting hfree
  | raiseLoad =>
    obtain rfl := Option.some.inj h
    exact .raiseLoad
  | raiseCas current =>
    rw [enqueueFlushRequest] at h
    split at h
    case isTrue hlt =>
      split at h <;> obtain rfl := Option.some.inj h
      case h_1 s₁ hcas =>
        obtain ⟨⟨hcur, -⟩, rfl⟩ := State.casCompleted_eq_some.mp hcas
        exact .raised hlt hcur
      case h_2 => exact .raiseMissed hlt
    case isFalse hle =>
      obtain rfl := Option.some.inj h
      exact .raisedBefore hle
  | sleeping =>
    rw [enqueueFlushRequest] at h
    split at h <;> obtain rfl := Option.some.inj h
    case isTrue hs =>
      split
      case isTrue howns => exact .asleepHeld hs howns
      case isFalse howns => exact .asleepFree hs (Bool.eq_false_iff.mpr howns)
    case isFalse hs => exact .awake (Bool.eq_false_iff.mpr hs)
  | lock =>
    obtain ⟨s₁, hl, rfl⟩ := Option.map_eq_some_iff.mp h
    obtain ⟨hfree, rfl⟩ := State.lock_eq_some.mp hl
    exact .lock hfree
  | wake =>
    obtain rfl := Option.some.inj h
    exact .wake
  | leave =>
    obtain rfl := Option.some.inj h
    exact .leave

end AsyncDispatcher

end Logspine
