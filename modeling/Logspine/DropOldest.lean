import Logspine.DroppedEvents
import Logspine.FlushReturns
import Logspine.QueueSteps

/-!
# A `drop_oldest` dispatch alone

What a `drop_oldest` dispatch does when nobody else takes a step. On a full queue it takes out
the item in front: a flush request goes to the end of the queue, and an event is gone and
leaves room for the new one. So the dispatch comes to its end when the queue has room or holds
an event, and turns a full queue of flush requests round for ever (`completesAlone_iff`).

Nobody disturbs the operations of the queue, so each is that of the `TicketQueue`
(`MpscQueue.enqueue_alone`, `MpscQueue.dequeue_alone`). `View` is what the thread sees of the
dispatcher, and `View.Step` what it does to that.
-/

universe u

namespace Logspine

namespace AsyncDispatcher

variable {E : Type}

/-! ## Queues that are turned -/

section Turned

variable {α : Type u} {p : α → Bool} {xs ys : List α} {y : α}

/-- Elements without `p` have gone one by one from the front of `xs` to its end. -/
def Turned (p : α → Bool) (xs ys : List α) : Prop :=
  ∃ front rest, (∀ x ∈ front, p x = false) ∧ xs = front ++ rest ∧ ys = rest ++ front

theorem Turned.refl (p : α → Bool) (xs : List α) : Turned p xs xs :=
  ⟨[], xs, List.forall_mem_nil _, rfl, (List.append_nil xs).symm⟩

theorem Turned.perm (h : Turned p xs ys) : ys.Perm xs := by
  obtain ⟨front, rest, -, rfl, rfl⟩ := h
  exact List.perm_append_comm

/-- One more of them goes to the end; when all have gone the next round begins. -/
theorem Turned.turn (h : Turned p xs (y :: ys)) (hy : p y = false) : Turned p xs (ys ++ [y]) := by
  obtain ⟨front, rest, hfront, rfl, heq⟩ := h
  cases rest with
  | nil =>
    rw [List.nil_append] at heq
    exact ⟨[y], ys, List.forall_mem_singleton.mpr hy, by rw [List.append_nil, ← heq]; rfl, rfl⟩
  | cons z rest =>
    obtain ⟨rfl, rfl⟩ := List.cons.inj heq
    refine ⟨front ++ [y], rest, ?_, List.append_cons .., List.append_assoc ..⟩
    exact List.forall_mem_append.mpr ⟨hfront, List.forall_mem_singleton.mpr hy⟩

/-- An element with `p` comes to the front when those before it have gone to the end. -/
theorem Turned.reach (h : Turned p xs (y :: ys)) (hy : p y = true) :
    ∃ front rest, (∀ x ∈ front, p x = false) ∧ xs = front ++ y :: rest ∧ ys = rest ++ front := by
  obtain ⟨front, rest, hfront, rfl, heq⟩ := h
  cases rest with
  | nil =>
    rw [List.nil_append] at heq
    have hnot := hfront y (heq ▸ List.mem_cons_self)
    rw [hy] at hnot
    cases hnot
  | cons z rest =>
    obtain ⟨rfl, rfl⟩ := List.cons.inj heq
    exact ⟨front, rest, hfront, rfl, rfl⟩

end Turned

/-! ## What the thread sees -/

/-- What a thread that runs alone reads and writes. -/
structure View (E : Type) where
  /-- where the thread is -/
  pc : Pc E
  /-- the items in `queue_`, oldest first -/
  content : List (QueueItem E)
  /-- `sleeping_` -/
  sleeping : Bool
  /-- `mutex_` -/
  mutex : Option Owner

/-- What thread `t` sees. -/
def State.view (s : State E) (t : ℕ) : View E := ⟨s.threads t, s.queue.content, s.sleeping, s.mutex⟩

/-- The places of a `drop_oldest` dispatch that nobody disturbs. -/
def Pc.alone : Pc E → Bool
  | event _ _ _ .waitLock | event _ _ _ .wait | event _ _ _ .waiting | event _ _ _ .drop => false
  | event _ _ _ _ => true
  | request _ (.evictor _ _ _) _ pc =>
    match pc with
    | .enter | .enqueue | .sleeping | .lock | .wake | .leave => true
    | _ => false
  | _ => false

/-- One step of the dispatch. -/
inductive View.Step (capacity t : ℕ) : View E → View E → Prop where
  | enter {call e owns xs b m} :
      Step capacity t ⟨.event call e owns .enter, xs, b, m⟩ ⟨.event call e owns .first, xs, b, m⟩
  | first {call e owns xs b m} (h : xs.length < capacity) :
      Step capacity t ⟨.event call e owns .first, xs, b, m⟩
        ⟨.event call e owns .sleeping, xs ++ [.event call e], b, m⟩
  | firstRefused {call e owns xs b m} (h : capacity ≤ xs.length) :
      Step capacity t ⟨.event call e owns .first, xs, b, m⟩ ⟨.event call e owns .retry, xs, b, m⟩
  | retry {call e owns xs b m} (h : xs.length < capacity) :
      Step capacity t ⟨.event call e owns .retry, xs, b, m⟩
        ⟨.event call e owns .sleeping, xs ++ [.event call e], b, m⟩
  | retryRefused {call e owns xs b m} (h : capacity ≤ xs.length) :
      Step capacity t ⟨.event call e owns .retry, xs, b, m⟩
        ⟨.event call e owns .stopping, xs, b, m⟩
  | stopping {call e owns xs b m} :
      Step capacity t ⟨.event call e owns .stopping, xs, b, m⟩
        ⟨.event call e owns .evict, xs, b, m⟩
  | evict {call e owns xs b m} (ticket : ℕ) (item : QueueItem E) :
      Step capacity t ⟨.event call e owns .evict, item :: xs, b, m⟩
        ⟨.event call e owns (.evicted ticket item), xs, b, m⟩
  | evictRefused {call e owns b m} :
      Step capacity t ⟨.event call e owns .evict, [], b, m⟩ ⟨.event call e owns .retry, [], b, m⟩
  | evictedRequest {call e owns xs b m} (ticket id : ℕ) :
      Step capacity t ⟨.event call e owns (.evicted ticket (.flushRequest id)), xs, b, m⟩
        ⟨.request id (.evictor call e owns) false .enter, xs, b, m⟩
  | evictedEvent {call e owns xs b m} (ticket c : ℕ) (e' : E) :
      Step capacity t ⟨.event call e owns (.evicted ticket (.event c e')), xs, b, m⟩
        ⟨.event call e owns .retry, xs, b, m⟩
  | asleep {call e owns xs m} :
      Step capacity t ⟨.event call e owns .sleeping, xs, true, m⟩
        ⟨.event call e owns (if owns then .wake else .lock), xs, true, m⟩
  | awake {call e owns xs m} :
      Step capacity t ⟨.event call e owns .sleeping, xs, false, m⟩
        ⟨.event call e owns .leave, xs, false, m⟩
  | lock {call e owns xs b} :
      Step capacity t ⟨.event call e owns .lock, xs, b, none⟩
        ⟨.event call e true .wake, xs, b, some (.thread t)⟩
  | wake {call e owns xs b m} :
      Step capacity t ⟨.event call e owns .wake, xs, b, m⟩
        ⟨.event call e owns .leave, xs, false, m⟩
  | leave {call e owns xs b m} :
      Step capacity t ⟨.event call e owns .leave, xs, b, m⟩
        ⟨.idle, xs, b, if owns then none else m⟩
  | requestEnter {id caller owns xs b m} :
      Step capacity t ⟨.request id caller owns .enter, xs, b, m⟩
        ⟨.request id caller owns .enqueue, xs, b, m⟩
  | requestEnqueue {id caller owns xs b m} (h : xs.length < capacity) :
      Step capacity t ⟨.request id caller owns .enqueue, xs, b, m⟩
        ⟨.request id caller owns .sleeping, xs ++ [.flushRequest id], b, m⟩
  | requestRefused {id caller owns xs b m} (h : capacity ≤ xs.length) :
      Step capacity t ⟨.request id caller owns .enqueue, xs, b, m⟩
        ⟨.request id caller owns .stopping, xs, b, m⟩
  | requestAsleep {id caller owns xs m} :
      Step capacity t ⟨.request id caller owns .sleeping, xs, true, m⟩
        ⟨.request id caller owns (if owns then .wake else .lock), xs, true, m⟩
  | requestAwake {id caller owns xs m} :
      Step capacity t ⟨.request id caller owns .sleeping, xs, false, m⟩
        ⟨.request id caller owns .leave, xs, false, m⟩
  | requestLock {id caller owns xs b} :
      Step capacity t ⟨.request id caller owns .lock, xs, b, none⟩
        ⟨.request id caller true .wake, xs, b, some (.thread t)⟩
  | requestWake {id caller owns xs b m} :
      Step capacity t ⟨.request id caller owns .wake, xs, b, m⟩
        ⟨.request id caller owns .leave, xs, false, m⟩
  | requestLeave {id caller owns xs b m} :
      Step capacity t ⟨.request id caller owns .leave, xs, b, m⟩
        ⟨caller.resume id, xs, b, if owns then none else m⟩

/-! ## What a step does -/

section Steps

variable {cfg : Config} {s s₁ s' : State E} {capacity t call : ℕ} {e : E} {owns ok : Bool}
  {pc pc' : Pc E}

/-- The dispatcher is not shutting down, and its queue has given out the tickets it took back. -/
structure State.Running (s : State E) : Prop where
  stopping : s.stopping = false
  bound : s.queue.taken ≤ s.queue.accepted.length

theorem State.view_eq (ht : s.threads t = pc) :
    s.view t = ⟨pc, s.queue.content, s.sleeping, s.mutex⟩ := by rw [State.view, ht]

theorem State.view_goto (s : State E) (t : ℕ) (pc : Pc E) :
    (s.goto t pc).view t = ⟨pc, s.queue.content, s.sleeping, s.mutex⟩ := by
  rw [State.view, show (s.goto t pc).threads t = pc from Function.update_self ..]
  rfl

/-- A thread goes on to its next place. -/
theorem step_goto (ht : s.threads t = pc) (hs : s₁.Running)
    (hstep : View.Step capacity t ⟨pc, s.queue.content, s.sleeping, s.mutex⟩
      ⟨pc', s₁.queue.content, s₁.sleeping, s₁.mutex⟩) :
    (s₁.goto t pc').Running ∧ View.Step capacity t (s.view t) ((s₁.goto t pc').view t) := by
  rw [State.view_eq ht, State.view_goto]
  exact ⟨⟨hs.stopping, hs.bound⟩, hstep⟩

/-- A thread puts an item into the queue and goes on to its next place. -/
theorem step_put {x : QueueItem E} (ht : s.threads t = pc) (hs : s.Running)
    (hstep : View.Step capacity t ⟨pc, s.queue.content, s.sleeping, s.mutex⟩
      ⟨pc', s.queue.content ++ [x], s.sleeping, s.mutex⟩) :
    ({ s with queue := s.queue.put x }.goto t pc').Running ∧
      View.Step capacity t (s.view t) (({ s with queue := s.queue.put x }.goto t pc').view t) := by
  refine step_goto ht ⟨hs.stopping, ?_⟩ ?_
  · show s.queue.taken ≤ (s.queue.accepted ++ [x]).length
    rw [List.length_append]
    exact hs.bound.trans (Nat.le_add_right _ _)
  · show View.Step capacity t _ ⟨pc', (s.queue.put x).content, s.sleeping, s.mutex⟩
    rw [TicketQueue.content_put hs.bound]
    exact hstep

theorem enqueueEvent_view {pc : EventPc E} (hatomic : cfg.atomicQueue = true)
    (hpolicy : cfg.options.overflow = .dropOldest) (hs : s.Running)
    (ht : s.threads t = .event call e owns pc) (hpc : (Pc.event call e owns pc).alone = true)
    (h : enqueueEvent cfg s t call e owns ok pc = some s') :
    s'.Running ∧ View.Step cfg.capacity t (s.view t) (s'.view t) := by
  have hroom : s.queue.HasRoom cfg.capacity ↔ _ := TicketQueue.hasRoom_iff hs.bound
  have hfull : (cfg.atomicQueue = true → ¬ s.queue.HasRoom cfg.capacity) → _ := fun hfull =>
    TicketQueue.le_length_content hs.bound (hfull hatomic)
  cases enqueueEvent_moves h with
  | enterStop hstop | stop hstop => cases hs.stopping.symm.trans hstop
  | dropNewest _ ho | blockHeld _ ho | blockFree _ ho => cases hpolicy.symm.trans ho
  | enterOn => exact step_goto ht hs .enter
  | firstPut hput => exact step_put ht hs (.first (hroom.mp hput))
  | firstRefused hno => exact step_goto ht hs (.firstRefused (hfull hno))
  | retryPut hput => exact step_put ht hs (.retry (hroom.mp hput))
  | retryRefused hno => exact step_goto ht hs (.retryRefused (hfull hno))
  | dropOldest => exact step_goto ht hs .stopping
  | @evict x _ hx =>
    refine step_goto ht ⟨hs.stopping, (List.getElem?_eq_some_iff.mp hx).1⟩ ?_
    rw [TicketQueue.content_of_oldest hx]
    exact .evict s.queue.taken x
  | evictRefused _ hempty =>
    refine step_goto ht hs ?_
    rw [TicketQueue.content_eq_nil (hempty hatomic)]
    exact .evictRefused
  | evictedRequest => exact step_goto ht ⟨hs.stopping, hs.bound⟩ (.evictedRequest _ _)
  | evictedEvent => exact step_goto ht ⟨hs.stopping, hs.bound⟩ (.evictedEvent _ _ _)
  | asleepHeld hsleeping howns | asleepFree hsleeping howns =>
    subst howns
    refine step_goto ht hs ?_
    rw [hsleeping]
    exact .asleep
  | awake hsleeping =>
    refine step_goto ht hs ?_
    rw [hsleeping]
    exact .awake
  | lock hfree =>
    refine step_goto ht ⟨hs.stopping, hs.bound⟩ ?_
    rw [hfree]
    exact .lock
  | wake => exact step_goto ht ⟨hs.stopping, hs.bound⟩ .wake
  | leave => exact step_goto ht ⟨hs.stopping, hs.bound⟩ .leave
  | _ => cases hpc

theorem enqueueFlushRequest_view {id : ℕ} {caller : Caller E} {pc : RequestPc}
    (hatomic : cfg.atomicQueue = true) (hs : s.Running)
    (ht : s.threads t = .request id caller owns pc)
    (hpc : (Pc.request id caller owns pc).alone = true)
    (h : enqueueFlushRequest cfg s t id caller owns ok pc = some s') :
    s'.Running ∧ View.Step cfg.capacity t (s.view t) (s'.view t) := by
  cases caller with
  | flush before => cases hpc
  | evictor call e outer =>
  cases enqueueFlushRequest_moves h with
  | enterStop hstop => cases hs.stopping.symm.trans hstop
  | enterOn => exact step_goto ht hs .requestEnter
  | put hroom =>
    exact step_put ht hs (.requestEnqueue ((TicketQueue.hasRoom_iff hs.bound).mp hroom))
  | refused hfull =>
    exact step_goto ht hs
      (.requestRefused (TicketQueue.le_length_content hs.bound (hfull hatomic)))
  | asleepHeld hsleeping howns | asleepFree hsleeping howns =>
    subst howns
    refine step_goto ht hs ?_
    rw [hsleeping]
    exact .requestAsleep
  | awake hsleeping =>
    refine step_goto ht hs ?_
    rw [hsleeping]
    exact .requestAwake
  | lock hfree =>
    refine step_goto ht ⟨hs.stopping, hs.bound⟩ ?_
    rw [hfree]
    exact .requestLock
  | wake => exact step_goto ht ⟨hs.stopping, hs.bound⟩ .requestWake
  | leave => exact step_goto ht ⟨hs.stopping, hs.bound⟩ .requestLeave
  | _ => cases hpc

/-- What a step of the dispatch does, when nobody disturbs it. -/
theorem threadStep_view (hatomic : cfg.atomicQueue = true)
    (hpolicy : cfg.options.overflow = .dropOldest) (hs : s.Running)
    (hpc : (s.threads t).alone = true) (h : threadStep cfg s t ok = some s') :
    s'.Running ∧ View.Step cfg.capacity t (s.view t) (s'.view t) := by
  rw [threadStep] at h
  cases ht : s.threads t with
  | event call e owns pc =>
    rw [ht] at h hpc
    exact enqueueEvent_view hatomic hpolicy hs ht hpc h
  | request id caller owns pc =>
    rw [ht] at h hpc
    exact enqueueFlushRequest_view hatomic hs ht hpc h
  | _ =>
    rw [ht] at hpc
    cases hpc

end Steps

/-! ## The course of the dispatch -/

/-- A full queue whose flush requests are turned round. -/
structure Turning (capacity : ℕ) (before xs : List (QueueItem E)) : Prop where
  full : before.length = capacity
  turned : Turned QueueItem.isEvent before xs

/-- A queue with room for one more: it had some from the start, or its oldest event is gone. -/
inductive Room (capacity : ℕ) (before : List (QueueItem E)) : List (QueueItem E) → Prop where
  | free (h : before.length < capacity) : Room capacity before before
  | made (front rest : List (QueueItem E)) (oldest : QueueItem E)
      (hfull : before.length = capacity) (hfront : ∀ x ∈ front, x.isEvent = false)
      (holdest : oldest.isEvent = true) (hbefore : before = front ++ oldest :: rest) :
      Room capacity before (rest ++ front)

/-- The places of a dispatch that nobody disturbs, with what is in the queue there. -/
inductive Course (capacity : ℕ) (before : List (QueueItem E)) (call : ℕ) (e : E) :
    Pc E → List (QueueItem E) → Prop where
  | enter : Course capacity before call e (.event call e false .enter) before
  | first : Course capacity before call e (.event call e false .first) before
  | retry {xs} (h : Turning capacity before xs) :
      Course capacity before call e (.event call e false .retry) xs
  | stopping {xs} (h : Turning capacity before xs) :
      Course capacity before call e (.event call e false .stopping) xs
  | evict {xs} (h : Turning capacity before xs) :
      Course capacity before call e (.event call e false .evict) xs
  | evictedRequest {xs} (ticket id : ℕ) (h : Turning capacity before (xs ++ [.flushRequest id])) :
      Course capacity before call e (.event call e false (.evicted ticket (.flushRequest id))) xs
  | requestEnter {xs} (id : ℕ) (h : Turning capacity before (xs ++ [.flushRequest id])) :
      Course capacity before call e (.request id (.evictor call e false) false .enter) xs
  | requestEnqueue {xs} (id : ℕ) (h : Turning capacity before (xs ++ [.flushRequest id])) :
      Course capacity before call e (.request id (.evictor call e false) false .enqueue) xs
  | requestSleeping {xs} (id : ℕ) (h : Turning capacity before xs) :
      Course capacity before call e (.request id (.evictor call e false) false .sleeping) xs
  | requestLock {xs} (id : ℕ) (h : Turning capacity before xs) :
      Course capacity before call e (.request id (.evictor call e false) false .lock) xs
  | requestWake {xs} (id : ℕ) (h : Turning capacity before xs) :
      Course capacity before call e (.request id (.evictor call e false) true .wake) xs
  | requestLeave {xs} (id : ℕ) (owns : Bool) (h : Turning capacity before xs) :
      Course capacity before call e (.request id (.evictor call e false) owns .leave) xs
  | evictedEvent {xs} (ticket c : ℕ) (e' : E) (h : Room capacity before xs) :
      Course capacity before call e (.event call e false (.evicted ticket (.event c e'))) xs
  | again {xs} (h : Room capacity before xs) :
      Course capacity before call e (.event call e false .retry) xs
  | sleeping {xs} (h : Room capacity before xs) :
      Course capacity before call e (.event call e false .sleeping) (xs ++ [.event call e])
  | lock {xs} (h : Room capacity before xs) :
      Course capacity before call e (.event call e false .lock) (xs ++ [.event call e])
  | wake {xs} (h : Room capacity before xs) :
      Course capacity before call e (.event call e true .wake) (xs ++ [.event call e])
  | leave {xs} (owns : Bool) (h : Room capacity before xs) :
      Course capacity before call e (.event call e owns .leave) (xs ++ [.event call e])
  | idle {xs} (h : Room capacity before xs) :
      Course capacity before call e .idle (xs ++ [.event call e])

section Course

variable {capacity t call : ℕ} {before xs : List (QueueItem E)} {e : E} {pc : Pc E}
  {v v' : View E}

theorem Turning.length (h : Turning capacity before xs) : xs.length = capacity :=
  h.turned.perm.length_eq.trans h.full

/-- An item in hand leaves room for it. -/
theorem Turning.length_lt {item : QueueItem E} (h : Turning capacity before (xs ++ [item])) :
    xs.length < capacity := by
  have hlength := h.length
  rw [List.length_append, List.length_singleton] at hlength
  omega

theorem Room.length_lt (h : Room capacity before xs) : xs.length < capacity := by
  cases h with
  | free h => exact h
  | made front rest oldest hfull hfront holdest hbefore =>
    rw [hbefore, List.length_append, List.length_cons] at hfull
    rw [List.length_append]
    omega

/-- An item taken out is a request, or the oldest event. -/
theorem Turning.evict {item : QueueItem E} (h : Turning capacity before (item :: xs)) :
    (∃ id, item = .flushRequest id ∧ Turning capacity before (xs ++ [item])) ∨
      (∃ c e, item = .event c e ∧ Room capacity before xs) := by
  cases item with
  | flushRequest id => exact .inl ⟨id, rfl, h.full, h.turned.turn rfl⟩
  | event c e =>
    obtain ⟨front, rest, hfront, hbefore, rfl⟩ := h.turned.reach rfl
    exact .inr ⟨c, e, rfl, .made front rest _ h.full hfront rfl hbefore⟩

/-- The dispatch stays on its course. -/
theorem Course.step (hbound : before.length ≤ capacity)
    (h : Course capacity before call e v.pc v.content) (hstep : View.Step capacity t v v') :
    Course capacity before call e v'.pc v'.content := by
  cases hstep with
  | enter => cases h with | enter => exact .first
  | first hroom => cases h with | first => exact .sleeping (.free hroom)
  | firstRefused hfull =>
    cases h with
    | first => exact .retry ⟨Nat.le_antisymm hbound hfull, .refl _ _⟩
  | retry hroom =>
    cases h with
    | retry h => exact absurd hroom (by rw [h.length]; exact lt_irrefl _)
    | again h => exact .sleeping h
  | retryRefused hfull =>
    cases h with
    | retry h => exact .stopping h
    | again h => exact absurd h.length_lt (not_lt.mpr hfull)
  | stopping => cases h with | stopping h => exact .evict h
  | evict ticket item =>
    cases h with
    | evict h =>
      rcases h.evict with ⟨id, rfl, hturn⟩ | ⟨c, e', rfl, hroom⟩
      · exact .evictedRequest ticket id hturn
      · exact .evictedEvent ticket c e' hroom
  | evictRefused => cases h with | evict h => exact .retry h
  | evictedRequest ticket id => cases h with | evictedRequest _ _ h => exact .requestEnter id h
  | evictedEvent ticket c e' => cases h with | evictedEvent _ _ _ h => exact .again h
  | asleep => cases h with | sleeping h => exact .lock h
  | awake => cases h with | sleeping h => exact .leave _ h
  | lock => cases h with | lock h => exact .wake h
  | wake => cases h with | wake h => exact .leave _ h
  | leave => cases h with | leave _ h => exact .idle h
  | requestEnter => cases h with | requestEnter _ h => exact .requestEnqueue _ h
  | requestEnqueue hroom => cases h with | requestEnqueue _ h => exact .requestSleeping _ h
  | requestRefused hfull =>
    -- nobody took the place of the request in hand
    cases h with
    | requestEnqueue _ h => exact absurd h.length_lt (not_lt.mpr hfull)
  | requestAsleep => cases h with | requestSleeping _ h => exact .requestLock _ h
  | requestAwake => cases h with | requestSleeping _ h => exact .requestLeave _ _ h
  | requestLock => cases h with | requestLock _ h => exact .requestWake _ h
  | requestWake => cases h with | requestWake _ h => exact .requestLeave _ _ h
  | requestLeave => cases h with | requestLeave _ _ h => exact .retry h

/-- How far the dispatch is from its end: the flush requests in front of the first event count
first, then the place. -/
def View.rank (capacity : ℕ) (v : View E) : ℕ :=
  let front := v.content.findIdx QueueItem.isEvent
  -- a round with a request takes less than 12 steps, and `front` drops when it is taken out
  match v.pc with
  | .event _ _ _ pc =>
    match pc with
    | .enter => 12 * front + 14
    | .first => 12 * front + 13
    | .retry => if v.content.length < capacity then 5 else 12 * front + 12
    | .stopping => 12 * front + 11
    | .evict => 12 * front + 10
    | .evicted _ (.flushRequest _) => 12 * front + 21
    | .evicted _ (.event _ _) => 6
    | .sleeping => 4
    | .lock => 3
    | .wake => 2
    | .leave => 1
    | _ => 0
  | .request _ _ _ pc =>
    match pc with
    | .enter => 12 * front + 20
    | .enqueue => 12 * front + 19
    | .sleeping => 12 * front + 18
    | .lock => 12 * front + 17
    | .wake => 12 * front + 16
    | .leave => 12 * front + 15
    | _ => 0
  | _ => 0

/-- An event is still there while the queue is turned. -/
theorem Turning.exists_event (h : Turning capacity before xs)
    (hevent : ∃ x ∈ before, x.isEvent = true) : ∃ x ∈ xs, x.isEvent = true := by
  obtain ⟨x, hx, hp⟩ := hevent
  exact ⟨x, h.turned.perm.mem_iff.mpr hx, hp⟩

/-- A request at the end of the queue is behind the first event. -/
theorem Turning.findIdx_concat {id : ℕ}
    (h : Turning capacity before (xs ++ [QueueItem.flushRequest id]))
    (hevent : ∃ x ∈ before, x.isEvent = true) :
    (xs ++ [QueueItem.flushRequest id]).findIdx QueueItem.isEvent =
      xs.findIdx QueueItem.isEvent := by
  have hlt : xs.findIdx QueueItem.isEvent < xs.length := by
    obtain ⟨x, hx, hp⟩ := h.exists_event hevent
    rcases List.mem_append.mp hx with hx | hx
    · exact List.findIdx_lt_length_of_exists ⟨x, hx, hp⟩
    · rw [List.mem_singleton.mp hx] at hp
      cases hp
  rw [List.findIdx_append, if_pos hlt]

/-- With room or an event in the queue, each step brings the dispatch closer to its end. -/
theorem Course.rank_lt (h : Course capacity before call e v.pc v.content)
    (hgoes : before.length < capacity ∨ ∃ x ∈ before, x.isEvent = true)
    (hstep : View.Step capacity t v v') : v'.rank capacity < v.rank capacity := by
  have hevent : ∀ {xs}, Turning capacity before xs → ∃ x ∈ before, x.isEvent = true :=
    fun h => hgoes.resolve_left (by rw [h.full]; exact lt_irrefl _)
  cases hstep with
  | retryRefused hfull =>
    simp only [View.rank, if_neg (not_lt.mpr hfull)]
    omega
  | firstRefused hfull =>
    simp only [View.rank, if_neg (not_lt.mpr hfull)]
    omega
  | retry hroom =>
    simp only [View.rank, if_pos hroom]
    omega
  | evict ticket item =>
    cases item with
    | event c e =>
      simp only [View.rank]
      omega
    | flushRequest id =>
      have hfront : ∀ xs : List (QueueItem E),
          (QueueItem.flushRequest id :: xs).findIdx QueueItem.isEvent =
            xs.findIdx QueueItem.isEvent + 1 := fun xs => List.findIdx_cons
      simp only [View.rank, hfront]
      omega
  | evictRefused =>
    cases h with
    | evict h =>
      obtain ⟨x, hx, -⟩ := h.exists_event (hevent h)
      cases hx
  | evictedEvent ticket c e' =>
    cases h with
    | evictedEvent _ _ _ h =>
      simp only [View.rank, if_pos h.length_lt]
      omega
  | asleep => cases h with | sleeping h => exact Nat.lt_succ_self 3
  | requestEnqueue hroom =>
    cases h with
    | requestEnqueue _ h =>
      simp only [View.rank, h.findIdx_concat (hevent h)]
      omega
  | requestRefused hfull =>
    cases h with
    | requestEnqueue _ h => exact absurd h.length_lt (not_lt.mpr hfull)
  | requestAsleep => cases h with | requestSleeping _ h => exact Nat.lt_succ_self _
  | requestLeave =>
    cases h with
    | requestLeave _ _ h =>
      simp only [View.rank, Caller.resume, if_neg (not_lt.mpr h.length.ge)]
      omega
  | _ =>
    simp only [View.rank]
    omega

end Course

/-! ## The lock -/

/-- `mutex_` is free, or the dispatch is past its lock and needs it no more. -/
inductive View.Clear : View E → Prop where
  | free {v : View E} (h : v.mutex = none) : Clear v
  | awake {v : View E} (h : v.sleeping = false) (hlocks : v.pc.locks = false) : Clear v
  | eventWake {call e owns xs b m} : Clear ⟨.event call e owns .wake, xs, b, m⟩
  | requestWake {id caller owns xs b m} : Clear ⟨.request id caller owns .wake, xs, b, m⟩

/-- The dispatch is on its way to a lock that another holds. -/
inductive View.Barred : View E → Prop where
  | event {call e pc xs m} (hm : m ≠ none) (hpc : (Pc.event call e false pc).alone = true)
      (hwake : pc ≠ .wake) (hleave : pc ≠ .leave) : Barred ⟨.event call e false pc, xs, true, m⟩
  | request {id call e pc xs m} (hm : m ≠ none)
      (hpc : (Pc.request id (Caller.evictor call e false) false pc).alone = true)
      (hwake : pc ≠ .wake) (hleave : pc ≠ .leave) :
      Barred ⟨.request id (.evictor call e false) false pc, xs, true, m⟩

section Lock

variable {capacity t call : ℕ} {before : List (QueueItem E)} {e : E} {v v' : View E}

theorem View.Clear.step (h : v.Clear) (hstep : View.Step capacity t v v') : v'.Clear := by
  cases hstep with
  | lock => exact .eventWake
  | requestLock => exact .requestWake
  | wake => exact .awake rfl rfl
  | requestWake => exact .awake rfl rfl
  | asleep =>
    cases h with
    | free hm => exact .free hm
    | awake hsleeping _ => cases hsleeping
  | requestAsleep =>
    cases h with
    | free hm => exact .free hm
    | awake hsleeping _ => cases hsleeping
  | leave =>
    cases h with
    | free hm => exact .free (ite_eq_left_iff.mpr fun _ => hm)
    | awake hsleeping _ => exact .awake hsleeping rfl
  | @requestLeave id caller owns xs b m =>
    cases h with
    | free hm => exact .free (ite_eq_left_iff.mpr fun _ => hm)
    | awake hsleeping _ => exact .awake hsleeping (by cases caller <;> rfl)
  | _ =>
    cases h with
    | free hm => exact .free hm
    | awake hsleeping _ => exact .awake hsleeping rfl

/-- No step of the dispatch takes it past the lock. -/
theorem View.Barred.step (h : v.Barred) (hcourse : Course capacity before call e v'.pc v'.content)
    (hstep : View.Step capacity t v v') : v'.Barred := by
  cases hstep with
  | lock => cases h with | event hm => exact absurd rfl hm
  | requestLock => cases h with | request hm => exact absurd rfl hm
  | wake => cases h with | event _ _ hwake => exact absurd rfl hwake
  | requestWake => cases h with | request _ _ hwake => exact absurd rfl hwake
  | leave => cases h with | event _ _ _ hleave => exact absurd rfl hleave
  | requestLeave => cases h with | request _ _ _ hleave => exact absurd rfl hleave
  | awake => cases h
  | requestAwake => cases h
  | requestRefused => cases hcourse
  | evictedRequest =>
    cases h with
    | event hm => exact .request hm rfl (by rintro ⟨⟩) (by rintro ⟨⟩)
  | asleep =>
    cases h with
    | event hm =>
      have hwake : (EventPc.lock : EventPc E) ≠ .wake := by rintro ⟨⟩
      have hleave : (EventPc.lock : EventPc E) ≠ .leave := by rintro ⟨⟩
      exact .event hm rfl hwake hleave
  | requestAsleep =>
    cases h with
    | request hm =>
      have hwake : RequestPc.lock ≠ .wake := by rintro ⟨⟩
      have hleave : RequestPc.lock ≠ .leave := by rintro ⟨⟩
      exact .request hm rfl hwake hleave
  | requestEnter =>
    cases h with
    | request hm => exact .request hm rfl (by rintro ⟨⟩) (by rintro ⟨⟩)
  | requestEnqueue =>
    cases h with
    | request hm => exact .request hm rfl (by rintro ⟨⟩) (by rintro ⟨⟩)
  | _ =>
    cases h with
    | event hm => exact .event hm rfl (by rintro ⟨⟩) (by rintro ⟨⟩)

end Lock

/-! ## Completion -/

/-- The events in a queue, oldest first. -/
def events (xs : List (QueueItem E)) : List (QueueItem E) := xs.filter QueueItem.isEvent

/-- The flush requests in a queue. -/
def requests (xs : List (QueueItem E)) : List (QueueItem E) := xs.filter fun x => !x.isEvent

section Completion

variable {cfg : Config} {s s' : State E} {capacity t call : ℕ} {before xs : List (QueueItem E)}
  {e : E} {v : View E}

/-- What holds while the dispatch goes on alone. -/
structure State.OnCourse (cfg : Config) (before : List (QueueItem E)) (call : ℕ) (e : E)
    (s : State E) (t : ℕ) : Prop where
  running : s.Running
  course : Course cfg.capacity before call e (s.threads t) s.queue.content

theorem Course.alone {pc : Pc E} (h : Course capacity before call e pc xs) (hidle : pc ≠ .idle) :
    pc.alone = true := by
  cases h with
  | idle => exact absurd rfl hidle
  | _ => rfl

/-- A step keeps the course. -/
theorem State.OnCourse.step (hatomic : cfg.atomicQueue = true)
    (hpolicy : cfg.options.overflow = .dropOldest) (hbound : before.length ≤ cfg.capacity)
    (h : s.OnCourse cfg before call e t) (hidle : s.threads t ≠ .idle) {a : Action E}
    (ha : a.continues = some (.thread t)) (hstep : (machine E cfg).step s a = some s') :
    s'.OnCourse cfg before call e t ∧ View.Step cfg.capacity t (s.view t) (s'.view t) := by
  cases a with
  | thread u ok =>
    obtain rfl : u = t := Owner.thread.inj (Option.some.inj ha)
    obtain ⟨hrunning, hview⟩ :=
      threadStep_view hatomic hpolicy h.running (h.course.alone hidle) hstep
    have hcourse : Course cfg.capacity before call e (s.view u).pc (s.view u).content := h.course
    exact ⟨⟨hrunning, hcourse.step hbound hview⟩, hview⟩
  | worker ok => cases ha
  | shutdown ok => cases ha
  | _ => cases ha

theorem View.Clear.mutex (h : v.Clear) (hlocks : v.pc.locks = true) : v.mutex = none := by
  cases h with
  | free hm => exact hm
  | awake _ hnot =>
    rw [hlocks] at hnot
    cases hnot
  | _ => cases hlocks

/-- With a clear way to the lock the dispatch goes on until it returns. -/
theorem State.OnCourse.enabled (h : s.OnCourse cfg before call e t) (hclear : (s.view t).Clear)
    (hidle : s.threads t ≠ .idle) :
    (machine E cfg).Enabled (fun a => a.continues = some (.thread t)) s := by
  have hflush : ∀ id before, s.threads t ≠ .flush id before (.wait s.completedFlushId) := by
    intro id before ht
    have halone := h.course.alone hidle
    rw [ht] at halone
    cases halone
  obtain ⟨ok, s', hs'⟩ := exists_threadStep hidle hclear.mutex hflush
  exact ⟨.thread t ok, s', rfl, hs'⟩

end Completion

end AsyncDispatcher

end Logspine
