import Logspine.ClientMoves
import Logspine.WorkerMoves

/-!
# What the dispatcher does to its queue

Every step of `async_dispatcher` leaves `queue_` as it is, or is one operation of the
`TicketQueue` (`step_queue`). So in every state reached the queue is between empty and full.
-/

namespace Logspine

namespace AsyncDispatcher

variable {E : Type} {cfg : Config} {s s' s₁ : State E} {as : List (Action E)}
  {sinks : List (Sink E)}

/-- The queue stays as it is, or one operation is made. -/
def Operates (cfg : Config) (s s' : State E) : Prop :=
  s'.queue = s.queue ∨ TicketQueue.Step cfg.capacity s.queue s'.queue

theorem Operates.put {x : QueueItem E} (hroom : s.queue.HasRoom cfg.capacity)
    (h : s'.queue = s.queue.put x) : Operates cfg s s' :=
  .inr (.enqueue (TicketQueue.enqueue_eq_some.mpr ⟨hroom, h⟩))

theorem Operates.take {x : QueueItem E} (hx : s.queue.accepted[s.queue.taken]? = some x)
    (h : s'.queue = { s.queue with taken := s.queue.taken + 1 }) : Operates cfg s s' := by
  have hdequeue : s.queue.dequeue = some ((s.queue.taken, x), s'.queue) :=
    TicketQueue.dequeue_eq_some.mpr ⟨rfl, hx, h⟩
  exact .inr (.dequeue hdequeue)

/-- Locking `mutex_` is no operation of the queue. -/
theorem Operates.lock {o : Owner} {f : State E → State E} (h : (s.lock o).map f = some s')
    (hf : ∀ s, (f s).queue = s.queue) : Operates cfg s s' := by
  obtain ⟨s₁, hlock, rfl⟩ := Option.map_eq_some_iff.mp h
  obtain ⟨-, rfl⟩ := State.lock_eq_some.mp hlock
  exact .inl (hf _)

/-- Nor is a compare-exchange of `completed_flush_id_`. -/
theorem Operates.cas {current id : WithTop ℕ} {ok : Bool}
    (hcas : s.casCompleted current id ok = some s₁) (h : s'.queue = s₁.queue) :
    Operates cfg s s' := by
  obtain ⟨-, rfl⟩ := State.casCompleted_eq_some.mp hcas
  exact .inl h

/-- Nor is a call on a sink. -/
theorem Operates.callSink {k : ℕ} {op : SinkOp (ℕ × E)} {next failed : WorkerPc E}
    (h : callSink s k op next failed = some s') : Operates cfg s s' := by
  obtain ⟨sink, -, rfl⟩ := Option.map_eq_some_iff.mp h
  exact .inl rfl

section Client

variable {t call id : ℕ} {e : E} {owns ok : Bool}

theorem enqueueEvent_queue {pc : EventPc E}
    (h : enqueueEvent cfg s t call e owns ok pc = some s') : Operates cfg s s' := by
  cases enqueueEvent_moves h with
  | firstPut hroom | retryPut hroom => exact .put hroom rfl
  | evict _ hx => exact .take hx rfl
  | _ => exact .inl rfl

theorem enqueueFlushRequest_queue {caller : Caller E} {pc : RequestPc}
    (h : enqueueFlushRequest cfg s t id caller owns ok pc = some s') : Operates cfg s s' := by
  cases enqueueFlushRequest_moves h with
  | put hroom => exact .put hroom rfl
  | _ => exact .inl rfl

theorem threadStep_queue (h : threadStep cfg s t ok = some s') : Operates cfg s s' := by
  rw [threadStep] at h
  split at h
  case h_1 => cases h
  case h_2 => exact enqueueEvent_queue h
  case h_3 => exact enqueueFlushRequest_queue h
  case h_4 =>
    obtain rfl := Option.some.inj h
    exact .inl rfl
  case h_5 id before pc _ =>
    cases pc with
    | argument =>
      obtain rfl := Option.some.inj h
      exact .inl rfl
    | test =>
      rw [flushWait] at h
      split at h <;> obtain rfl := Option.some.inj h <;> exact .inl rfl
    | wait old =>
      rw [flushWait] at h
      split at h
      · cases h
      · obtain rfl := Option.some.inj h
        exact .inl rfl

end Client

theorem workerStep_queue {ok : Bool} (h : workerStep cfg s ok = some s') : Operates cfg s s' := by
  obtain ⟨r, pc, rfl, hm⟩ := workerStep_moves h
  cases hm with
  | tryTaken hx | secondTaken hx | drainTaken hx | fillTaken hx => exact .take hx rfl
  | write _ hcall | flush _ hcall | finalFlush _ hcall => exact .callSink hcall
  | _ => exact .inl rfl

theorem shutdownStep_queue {ok : Bool} (h : shutdownStep s ok = some s') : Operates cfg s s' := by
  rw [shutdownStep] at h
  cases hs : s.shutdown with
  | lock =>
    rw [hs] at h
    exact .lock h fun _ => rfl
  | raiseCas current =>
    rw [hs] at h
    dsimp only at h
    split at h <;> obtain rfl := Option.some.inj h
    case h_1 s₁ hcas => exact .cas hcas rfl
    case h_2 => exact .inl rfl
  | join =>
    rw [hs] at h
    dsimp only at h
    split at h
    · obtain rfl := Option.some.inj h
      exact .inl rfl
    · cases h
  | joined =>
    rw [hs] at h
    cases h
  | _ =>
    rw [hs] at h
    obtain rfl := Option.some.inj h
    exact .inl rfl

/-- A step of the dispatcher is at most one operation of its queue. -/
theorem step_queue {a : Action E} (h : step cfg s a = some s') : Operates cfg s s' := by
  cases a with
  | dispatch t e =>
    rw [step] at h
    split at h
    · obtain rfl := Option.some.inj h
      exact .inl rfl
    · cases h
  | flush t =>
    rw [step] at h
    split at h
    · obtain rfl := Option.some.inj h
      exact .inl rfl
    · cases h
  | thread t ok => exact threadStep_queue h
  | worker ok => exact workerStep_queue h
  | shutdown ok => exact shutdownStep_queue h

/-- **Refinement**: a run of the dispatcher uses its queue as a bounded ticket queue. -/
theorem queue_refines (h : (machine E cfg).run (.initial sinks) as = some s) :
    Relation.ReflTransGen (TicketQueue.Step cfg.capacity) .empty s.queue :=
  Machine.reflTransGen_of_run (f := State.queue) (I := fun _ => True) (fun _ _ _ _ _ => trivial)
    (fun _ _ _ _ hstep => step_queue hstep) trivial h

/-- The queue of a state reached is between empty and full. -/
theorem within_run (h : (machine E cfg).run (.initial sinks) as = some s) :
    s.queue.Within cfg.capacity :=
  TicketQueue.Within.of_steps .empty (queue_refines h)

end AsyncDispatcher

end Logspine
