import Logspine.DropOldest
import Logspine.FlushRequests
import Logspine.WorkerSteps

/-!
# What is lost to overflow

An event is refused only by a policy that may refuse it, an item is evicted only by
`drop_oldest`, and both only when the queue was found full in the very call that does it
(`overflow_justified`). What the dispatcher keeps alive is bounded: the queue by its capacity and
the worker's batch by `batch_size` (`backlog_bounded`).
-/

namespace Logspine

namespace AsyncDispatcher

variable {E : Type} {cfg : Config} {s s' s₁ : State E} {as : List (Action E)}
  {sinks : List (Sink E)} {t call : ℕ}

/-! ## Why an event is lost -/

/-- At some moment of the run so far, `dispatch` call `call` of thread `t` was under way and the
condition held. -/
def During (cfg : Config) (sinks : List (Sink E)) (as : List (Action E)) (t call : ℕ)
    (P : State E → Prop) : Prop :=
  ∃ bs s e owns pc, bs <+: as ∧ (machine E cfg).run (.initial sinks) bs = some s ∧
    s.threads t = .event call e owns pc ∧ P s

/-- The queue is full. -/
def State.Full (cfg : Config) (s : State E) : Prop := cfg.capacity ≤ s.queue.content.length

/-- A call may refuse its event: shutdown has begun, or the policy allows it and the queue was
full. -/
def MayRefuse (cfg : Config) (sinks : List (Sink E)) (as : List (Action E)) (t call : ℕ) : Prop :=
  During cfg sinks as t call (fun s => s.stopping = true) ∨
    cfg.options.Refuses ∧ During cfg sinks as t call (State.Full cfg)

/-- What has happened in a `dispatch` call that is at a place of `enqueue_event`. -/
def Pc.Justified (cfg : Config) (sinks : List (Sink E)) (as : List (Action E)) (t : ℕ) :
    Pc E → Prop
  | event call _ _ pc =>
    match pc with
    | .stopping | .evict | .waitLock | .wait | .waiting =>
      During cfg sinks as t call (State.Full cfg)
    | .drop => MayRefuse cfg sinks as t call
    | _ => True
  | _ => True

/-- Every loss has its reason. -/
structure Justified (cfg : Config) (sinks : List (Sink E)) (as : List (Action E))
    (s : State E) : Prop where
  threads : ∀ t, (s.threads t).Justified cfg sinks as t
  /-- an event is refused in a call that may refuse it -/
  refused : ∀ c, Drop.refused c ∈ s.history.drops → ∃ t, MayRefuse cfg sinks as t c
  /-- an item is evicted under `drop_oldest`, in a call that found the queue full -/
  evicted : ∀ p t c, (p, t, c) ∈ s.history.evicted → cfg.options.overflow = .dropOldest ∧
    During cfg sinks as t c (State.Full cfg)

theorem During.mono {P : State E → Prop} {bs : List (Action E)}
    (h : During cfg sinks as t call P) : During cfg sinks (as ++ bs) t call P := by
  obtain ⟨bs, s, e, owns, pc, hbs, hs⟩ := h
  exact ⟨bs, s, e, owns, pc, hbs.trans (List.prefix_append ..), hs⟩

theorem MayRefuse.mono {bs : List (Action E)} (h : MayRefuse cfg sinks as t call) :
    MayRefuse cfg sinks (as ++ bs) t call :=
  h.imp During.mono fun ⟨hrefuses, hfull⟩ => ⟨hrefuses, hfull.mono⟩

theorem Pc.Justified.mono {pc : Pc E} {bs : List (Action E)} (h : pc.Justified cfg sinks as t) :
    pc.Justified cfg sinks (as ++ bs) t := by
  cases pc with
  | event call e owns pc =>
    cases pc with
    | stopping | evict | waitLock | wait | waiting => exact During.mono h
    | drop => exact MayRefuse.mono h
    | _ => trivial
  | _ => trivial

/-- A step that loses nothing. -/
theorem Justified.same {a : Action E} (h : Justified cfg sinks as s)
    (hthreads : ∀ u, (s'.threads u).Justified cfg sinks (as ++ [a]) u)
    (hdrops : ∀ c, Drop.refused c ∈ s'.history.drops → Drop.refused c ∈ s.history.drops)
    (hevicted : s'.history.evicted = s.history.evicted) :
    Justified cfg sinks (as ++ [a]) s' := by
  refine ⟨hthreads, fun c hc => ?_, fun p t c hc => ?_⟩
  · obtain ⟨t, ht⟩ := h.refused c (hdrops c hc)
    exact ⟨t, ht.mono⟩
  · obtain ⟨hpolicy, hfull⟩ := h.evicted p t c (hevicted ▸ hc)
    exact ⟨hpolicy, hfull.mono⟩

theorem Justified.forall_goto {pc : Pc E} {a : Action E} (h : Justified cfg sinks as s)
    (hthreads : s₁.threads = s.threads) (hpc : pc.Justified cfg sinks (as ++ [a]) t) (u : ℕ) :
    ((s₁.goto t pc).threads u).Justified cfg sinks (as ++ [a]) u := by
  change (Function.update s₁.threads t pc u).Justified cfg sinks (as ++ [a]) u
  rcases eq_or_ne u t with rfl | hne
  · rw [Function.update_self]
    exact hpc
  · rw [Function.update_of_ne hne, hthreads]
    exact (h.threads u).mono

/-- A thread goes on to its next place and loses nothing. -/
theorem Justified.goto {pc : Pc E} {a : Action E} (h : Justified cfg sinks as s)
    (hthreads : s₁.threads = s.threads) (hdrops : s₁.history.drops = s.history.drops)
    (hevicted : s₁.history.evicted = s.history.evicted)
    (hpc : pc.Justified cfg sinks (as ++ [a]) t) :
    Justified cfg sinks (as ++ [a]) (s₁.goto t pc) :=
  h.same (h.forall_goto hthreads hpc) (fun _ hc => hdrops ▸ hc) hevicted

/-! ## One step -/

/-- A step of `enqueue_event`. -/
theorem enqueueEvent_justified {e : E} {owns ok : Bool} {pc : EventPc E} {a : Action E}
    (hatomic : cfg.atomicQueue = true) (hrun : (machine E cfg).run (.initial sinks) as = some s)
    (h : Justified cfg sinks as s) (ht : s.threads t = .event call e owns pc)
    (hs : enqueueEvent cfg s t call e owns ok pc = some s') :
    Justified cfg sinks (as ++ [a]) s' := by
  have hnow : ∀ {P : State E → Prop}, P s → During cfg sinks (as ++ [a]) t call P := fun hP =>
    ⟨as, s, e, owns, pc, List.prefix_append .., hrun, ht, hP⟩
  have hpast : (s.threads t).Justified cfg sinks (as ++ [a]) t := (h.threads t).mono
  rw [ht] at hpast
  have hknows := (control_run hrun).threads t
  rw [ht] at hknows
  cases enqueueEvent_moves hs with
  | enterStop hstop | stop hstop => exact h.goto rfl rfl rfl (.inl (hnow hstop))
  | retryRefused hfull =>
    refine h.goto rfl rfl rfl (hnow ?_)
    exact TicketQueue.le_length_content (within_run hrun).taken_le (hfull hatomic)
  | dropNewest _ hpolicy => exact h.goto rfl rfl rfl (.inr ⟨.inl hpolicy, hpast⟩)
  | dropOldest | blockHeld | blockFree | waitLock | wait => exact h.goto rfl rfl rfl hpast
  | evict =>
    refine ⟨h.forall_goto rfl trivial, fun c hc => ?_, fun p u c hc => ?_⟩
    · obtain ⟨u, hu⟩ := h.refused c hc
      exact ⟨u, hu.mono⟩
    · rcases List.mem_append.mp hc with hc | hc
      · obtain ⟨hpolicy, hfull⟩ := h.evicted p u c hc
        exact ⟨hpolicy, hfull.mono⟩
      · obtain ⟨rfl, rfl⟩ := Prod.mk.inj (Prod.mk.inj (List.mem_singleton.mp hc)).2
        exact ⟨hknows, hpast⟩
  | evictedEvent | evictedRequest =>
    refine h.same (h.forall_goto rfl trivial) (fun c hc => ?_) rfl
    rcases List.mem_append.mp hc with hc | hc
    · exact hc
    · cases List.mem_singleton.mp hc
  | timedOut _ htimeout => exact h.goto rfl rfl rfl (.inr ⟨.inr ⟨hknows, htimeout⟩, hpast⟩)
  | drop =>
    refine ⟨h.forall_goto rfl trivial, fun c hc => ?_, fun p u c hc => ?_⟩
    · rcases List.mem_append.mp hc with hc | hc
      · obtain ⟨u, hu⟩ := h.refused c hc
        exact ⟨u, hu.mono⟩
      · obtain rfl := Drop.refused.inj (List.mem_singleton.mp hc)
        exact ⟨t, hpast⟩
    · obtain ⟨hpolicy, hfull⟩ := h.evicted p u c hc
      exact ⟨hpolicy, hfull.mono⟩
  | _ => exact h.goto rfl rfl rfl trivial

/-- A step of `enqueue_flush_request` loses no event. -/
theorem enqueueFlushRequest_justified {id : ℕ} {caller : Caller E} {owns ok : Bool}
    {pc : RequestPc} {a : Action E} (h : Justified cfg sinks as s)
    (hs : enqueueFlushRequest cfg s t id caller owns ok pc = some s') :
    Justified cfg sinks (as ++ [a]) s' := by
  cases enqueueFlushRequest_moves hs with
  | leave =>
    refine h.goto rfl rfl rfl ?_
    cases caller <;> trivial
  | _ => exact h.goto rfl rfl rfl trivial

/-- A move that no client makes loses nothing. -/
theorem Ledger.Move.drops_eq {b : Entry E} {l l' : Ledger E} (m : Ledger.Move cfg b l l')
    (hthreads : l'.threads = l.threads) : l'.drops = l.drops ∧ l'.evicted = l.evicted := by
  cases m with
  | @refuse _ u c e ht hn hr ho =>
    have hu := congrArg Client.pending (congrFun hthreads u)
    rw [Ledger.give_same, ht] at hu
    cases hu
  | @evict _ u x c e ho hx hp hn hr =>
    have hu := congrArg Client.popped (congrFun hthreads u)
    rw [Ledger.give_same, hn] at hu
    cases hu
  | @count _ u p ht =>
    have hu := congrArg Client.popped (congrFun hthreads u)
    rw [Ledger.give_same, ht] at hu
    cases hu
  | _ => exact ⟨rfl, rfl⟩

/-- A step of worker or `shutdown` loses no event to overflow. -/
theorem Justified.other {a : Action E} (hc : Control cfg s) (h : Justified cfg sinks as s)
    (hthreads : s'.threads = s.threads) (hs : step cfg s a = some s') :
    Justified cfg sinks (as ++ [a]) s' := by
  have hsame : s'.history.drops = s.history.drops ∧ s'.history.evicted = s.history.evicted := by
    rcases step_refined hc hs with ⟨-, ⟨-, hl⟩ | hm⟩
    · exact ⟨congrArg Ledger.drops hl, congrArg Ledger.evicted hl⟩
    · exact hm.drops_eq (congrArg (Pc.client ∘ ·) hthreads)
  refine h.same (fun u => ?_) (fun c hc => hsame.1 ▸ hc) hsame.2
  rw [hthreads]
  exact (h.threads u).mono

/-- **Nothing is lost without need.** In every state that any interleaving reaches: an event is
refused only if at some moment of its `dispatch` call shutdown had begun, or if the policy is
`drop_newest`, or `block` with a positive timeout, and at some moment of the call the queue was
full; and an item is taken out by a producer only under `drop_oldest`, and at some moment of the
call that takes it out the queue was full. -/
theorem overflow_justified (hatomic : cfg.atomicQueue = true)
    (h : (machine E cfg).run (.initial sinks) as = some s) : Justified cfg sinks as s := by
  have hinitial : Justified cfg sinks [] (.initial sinks) :=
    ⟨fun _ => trivial, fun _ hc => absurd hc List.not_mem_nil,
      fun _ _ _ hx => absurd hx List.not_mem_nil⟩
  refine Machine.run_induction (P := fun as s => Justified cfg sinks as s) hinitial ?_ h
  intro as s a s' hrun hi hs
  have hmove := step_scheduled (control_run hrun) (locked_run hrun).lockOk hs
  cases a with
  | dispatch t e =>
    replace hs : step cfg s (.dispatch t e) = some s' := hs
    rw [step] at hs
    split at hs
    case h_1 =>
      obtain rfl := Option.some.inj hs
      exact hi.goto rfl rfl rfl trivial
    case h_2 => cases hs
  | flush t =>
    replace hs : step cfg s (.flush t) = some s' := hs
    rw [step] at hs
    split at hs
    case h_1 =>
      obtain rfl := Option.some.inj hs
      exact hi.goto rfl rfl rfl trivial
    case h_2 => cases hs
  | thread t ok =>
    replace hs : threadStep cfg s t ok = some s' := hs
    rw [threadStep] at hs
    split at hs
    case h_1 => cases hs
    case h_2 ht => exact enqueueEvent_justified hatomic hrun hi ht hs
    case h_3 => exact enqueueFlushRequest_justified hi hs
    case h_4 =>
      obtain rfl := Option.some.inj hs
      exact hi.goto rfl rfl rfl trivial
    case h_5 pc ht =>
      cases pc <;> rw [flushWait] at hs
      case argument =>
        obtain rfl := Option.some.inj hs
        exact hi.goto rfl rfl rfl trivial
      case test =>
        split at hs <;> obtain rfl := Option.some.inj hs <;> exact hi.goto rfl rfl rfl trivial
      case wait =>
        split at hs
        · cases hs
        · obtain rfl := Option.some.inj hs
          exact hi.goto rfl rfl rfl trivial
  | worker ok =>
    exact hi.other (control_run hrun) (funext fun t => hmove.threads t (by rintro ⟨⟩)) hs
  | shutdown ok =>
    exact hi.other (control_run hrun) (funext fun t => hmove.threads t (by rintro ⟨⟩)) hs

theorem overflow_justified_overflowRun :
    ∃ s, (machine ℕ evicting).run (.initial [quietSink ℕ, brokenSink ℕ]) overflowRun = some s ∧
      (0, 0, 2) ∈ s.history.evicted ∧
      Justified evicting [quietSink ℕ, brokenSink ℕ] overflowRun s := by
  have hrun : ((machine ℕ evicting).run (.initial [quietSink ℕ, brokenSink ℕ]) overflowRun).map
      (fun s => decide ((0, 0, 2) ∈ s.history.evicted)) = some true := by decide
  obtain ⟨s, hs, heq⟩ := Option.map_eq_some_iff.mp hrun
  exact ⟨s, hs, of_decide_eq_true heq, overflow_justified rfl hs⟩

/-! ## What is kept alive -/

/-- The items in the worker's hands, and the one it is about to take for its batch. -/
def WorkerPc.load : WorkerPc E → ℕ
  | fill batch | drain batch => batch.length + 1
  | pc => pc.held.length

/-- The most items a worker has in hand. -/
def Config.batchLimit (cfg : Config) : ℕ := max 1 cfg.options.batchSize

section Load

theorem WorkerPc.length_held_le (pc : WorkerPc E) : pc.held.length ≤ pc.load := by
  cases pc <;> first | exact le_rfl | exact Nat.le_succ _

theorem load_processBatch : ∀ batch : List (Ticketed E), (processBatch batch).load = batch.length
  | [] | (_, .event _ _) :: _ | (_, .flushRequest _) :: _ => rfl

theorem load_fillBatch {batch : List (Ticketed E)} (h : batch.length ≤ cfg.batchLimit) :
    (fillBatch cfg batch).load ≤ cfg.batchLimit := by
  rw [fillBatch]
  split
  case isTrue hlt => exact (Nat.succ_le_of_lt hlt).trans (le_max_right ..)
  case isFalse => exact h

theorem load_drainBatch {batch : List (Ticketed E)} (h : batch.length ≤ cfg.batchLimit) :
    (drainBatch cfg batch).load ≤ cfg.batchLimit := by
  rw [drainBatch]
  split
  case isTrue => exact h
  case isFalse hlt => exact (Nat.succ_le_of_lt (not_le.mp hlt)).trans (le_max_right ..)

end Load

/-- A step of the worker keeps its batch small. -/
theorem workerStep_load {ok : Bool} (hload : s.worker.load ≤ cfg.batchLimit)
    (h : workerStep cfg s ok = some s') : s'.worker.load ≤ cfg.batchLimit := by
  obtain ⟨r, pc, rfl, hm⟩ := workerStep_moves h
  rw [work_worker] at hload
  have hone : 1 ≤ cfg.batchLimit := le_max_left ..
  have hrest : ∀ {rest : List (Ticketed E)}, rest.length + 1 ≤ cfg.batchLimit →
      (processBatch rest).load ≤ cfg.batchLimit := fun hle =>
    (load_processBatch _).trans_le ((Nat.le_succ _).trans hle)
  cases hm with
  | tryTaken | secondTaken | lose => exact hone
  | keep => exact load_fillBatch hload
  | drainTaken =>
    refine load_drainBatch ?_
    rw [List.length_append]
    exact hload
  | fillTaken =>
    refine load_fillBatch ?_
    rw [List.length_append]
    exact hload
  | drainRefused | fillRefused => exact (Nat.le_succ _).trans hload
  | notifyUnlock => exact (load_processBatch _).trans_le hload
  | write _ hcall | flush _ hcall | finalFlush _ hcall =>
    exact callSink_place (P := fun pc => pc.load ≤ cfg.batchLimit) hcall hload hload
  | written | raised | raisedBefore => exact hrest hload
  | clearSleeping | notifyLock | writeFailed | flushed | flushFailed | raiseLoad | raiseMissed =>
    exact hload
  | _ => exact Nat.zero_le _

theorem load_run (h : (machine E cfg).run (.initial sinks) as = some s) :
    s.worker.load ≤ cfg.batchLimit := by
  refine Machine.run_induction (P := fun _ s => s.worker.load ≤ cfg.batchLimit)
    (Nat.zero_le _) ?_ h
  intro as s a s' hrun hi hs
  have hmove := step_scheduled (control_run hrun) (locked_run hrun).lockOk hs
  cases a with
  | worker ok => exact workerStep_load hi hs
  | _ =>
    rw [hmove.worker (by rintro ⟨⟩)]
    exact hi

/-- **The backlog is bounded.** In every state that any interleaving reaches, with any overflow
policy and whatever the sinks do: the queue holds at most its capacity and the worker at most
`batch_size` items, so all items that ever obtained a place, but for as many, have been
processed, evicted or overwritten. -/
theorem backlog_bounded (h : (machine E cfg).run (.initial sinks) as = some s) :
    s.queue.content.length ≤ cfg.capacity ∧ s.worker.held.length ≤ cfg.batchLimit ∧
      s.queue.accepted.length ≤ s.history.done.length + s.history.evicted.length +
        s.history.lost.length + cfg.capacity + cfg.batchLimit := by
  have hwithin := within_run h
  have hheld := (s.worker.length_held_le).trans (load_run h)
  have htickets := (books_run h).tickets.custody.length_eq
  have htaken : s.history.evicted.length +
      (s.history.done.length + s.history.lost.length + s.worker.held.length) =
        s.queue.taken := by
    rw [List.length_append, List.length_map, List.length_map, List.length_range, Ledger.handed,
      List.length_append, List.length_append] at htickets
    exact htickets
  refine ⟨?_, hheld, ?_⟩
  · rw [TicketQueue.content, List.length_drop]
    have hle := hwithin.length_le
    omega
  · have hle := hwithin.length_le
    omega

theorem backlog_bounded_overflowRun :
    ∃ s, (machine ℕ evicting).run (.initial [quietSink ℕ, brokenSink ℕ]) overflowRun = some s ∧
      s.queue.accepted.length = 3 ∧ s.queue.content.length ≤ evicting.capacity ∧
      s.worker.held.length ≤ evicting.batchLimit ∧
      s.queue.accepted.length ≤ s.history.done.length + s.history.evicted.length +
        s.history.lost.length + evicting.capacity + evicting.batchLimit := by
  have hrun : ((machine ℕ evicting).run (.initial [quietSink ℕ, brokenSink ℕ]) overflowRun).map
      (fun s => s.queue.accepted.length) = some 3 := by decide
  obtain ⟨s, hs, heq⟩ := Option.map_eq_some_iff.mp hrun
  exact ⟨s, hs, heq, backlog_bounded hs⟩

end AsyncDispatcher

end Logspine
