import Logspine.Conservation

/-!
# What `dropped_events()` counts

At a moment at which no `dispatch` call is in progress, the calls made are the events
handed to the worker, those still queued and those counted as dropped, but for one
slip: a `drop_oldest` producer counts every item it takes out, also a flush request,
which is put back into the queue (`accounting`). So the counter is exact just when no
flush request was ever taken out (`droppedEvents_exact_iff`).
-/

namespace Logspine

namespace AsyncDispatcher

variable {E : Type} {cfg : Config} {sinks : List (Sink E)} {l : Ledger E} {s : State E}
  {as : List (Action E)}

/-- The item is an event. -/
def QueueItem.isEvent (x : QueueItem E) : Bool := x.call.isSome

/-- No `dispatch` call is in progress: all that began have returned. -/
def State.NoDispatch (s : State E) : Prop :=
  ∀ c < s.history.dispatched.length, c ∈ s.history.returned

instance (s : State E) : Decidable s.NoDispatch := inferInstanceAs (Decidable (∀ _ < _, _))

/-- How many events were handed to the worker. -/
def State.handedEvents (s : State E) : ℕ :=
  (s.history.done ++ s.history.lost ++ s.worker.held).countP fun x => x.2.isEvent

/-- How many events are still in the queue. -/
def State.queuedEvents (s : State E) : ℕ := s.queue.content.countP QueueItem.isEvent

/-- How many flush requests were taken out by producers. -/
def State.evictedRequests (s : State E) : ℕ :=
  s.history.evicted.countP fun x => (s.queue.accepted[x.1]?.bind QueueItem.flushId).isSome

/-! ## Counting -/

/-- When every call has returned, every call is settled. -/
theorem Books.length_settled (h : Books sinks l)
    (hq : ∀ c < l.dispatched.length, c ∈ l.returned) :
    l.settled.length = l.dispatched.length := by
  have hperm : l.settled.Perm (List.range l.dispatched.length) := by
    refine (List.perm_ext_iff_of_nodup h.dispatches.nodup List.nodup_range).mpr fun c => ?_
    rw [List.mem_range]
    refine ⟨h.dispatches.began c, fun hc => ?_⟩
    obtain ⟨⟨t, e⟩, hte⟩ : ∃ x, l.dispatched[c]? = some x := ⟨_, List.getElem?_eq_getElem hc⟩
    rcases h.dispatches.fate c t e hte with hm | hp
    · exact hm
    · exact absurd ((h.clients t).pending _ hp) ((h.dispatches.returned c (hq c hc)).2 t e)
  rw [hperm.length_eq, List.length_range]

/-- When every call has returned, every ticket taken out by a producer is counted. -/
theorem Books.length_counted (h : Books sinks l)
    (hq : ∀ c < l.dispatched.length, c ∈ l.returned) :
    l.counted.length = l.evicted.length := by
  have hnodup : (l.evicted.map Prod.fst).Nodup :=
    (List.nodup_append.mp (h.tickets.custody.nodup_iff.mpr List.nodup_range)).1
  have hperm : l.counted.Perm (l.evicted.map Prod.fst) := by
    refine (List.perm_ext_iff_of_nodup h.counted.nodup hnodup).mpr fun p => ?_
    refine ⟨h.counted.evicted p, fun hp => ?_⟩
    obtain ⟨⟨q, t, c⟩, ht, rfl⟩ := List.mem_map.mp hp
    rcases h.counted.fate q t c ht with hc | hpop
    · exact hc
    · -- whoever has an uncounted ticket is in a call
      obtain ⟨⟨c, e⟩, hpend⟩ := Option.ne_none_iff_exists'.mp
        ((h.clients t).popped (hpop ▸ Option.some_ne_none q))
      have hcall := (h.clients t).pending _ hpend
      have hc := (List.getElem?_eq_some_iff.mp ((h.clients t).calling c e hcall)).1
      exact absurd hcall ((h.dispatches.returned c (hq c hc)).2 t e)
  rw [hperm.length_eq, List.length_map]

/-- Every drop is a refused event or an item taken out. -/
theorem length_drops (l : Ledger E) :
    l.drops.length = (l.drops.filterMap Drop.refusedCall).length + l.counted.length := by
  rw [Ledger.counted, List.length_filterMap_eq_countP, List.length_filterMap_eq_countP,
    List.length_eq_countP_add_countP fun d => (Drop.refusedCall d).isSome]
  refine congrArg _ (List.countP_congr fun d _ => ?_)
  cases d <;> exact Iff.rfl

/-- Counting the items before a ticket by their tickets. -/
theorem countP_range (xs : List (QueueItem E)) (n : ℕ) :
    (List.range n).countP (fun p => xs[p]?.any QueueItem.isEvent) =
      (xs.take n).countP QueueItem.isEvent := by
  induction n with
  | zero => rfl
  | succ n ih =>
    rw [List.range_succ, List.countP_append, ih, List.take_add_one, List.countP_append,
      List.countP_singleton]
    cases hx : xs[n]? with
    | none => rfl
    | some x => rw [Option.any_some, Option.toList_some, List.countP_singleton]

/-- The events that left the queue went to the worker, or were taken out. -/
theorem Tickets.countP_taken (h : Tickets l) :
    (l.accepted.take l.taken).countP QueueItem.isEvent =
      l.evicted.countP (fun x => l.accepted[x.1]?.any QueueItem.isEvent) +
        l.handed.countP fun x => x.2.isEvent := by
  rw [← countP_range, ← h.custody.countP_eq, List.countP_append, List.countP_map,
    List.countP_map]
  refine congrArg _ (List.countP_congr fun x hx => ?_)
  rw [Function.comp_apply, h.items x hx, Option.any_some]

/-- What producers took out is events and flush requests. -/
theorem Tickets.length_evicted (h : Tickets l) :
    l.evicted.length = l.evicted.countP (fun x => l.accepted[x.1]?.any QueueItem.isEvent) +
      l.evicted.countP fun x => (l.accepted[x.1]?.bind QueueItem.flushId).isSome := by
  rw [List.length_eq_countP_add_countP fun x => l.accepted[x.1]?.any QueueItem.isEvent]
  refine congrArg _ (List.countP_congr fun x hx => ?_)
  have hlt : x.1 < l.accepted.length := (h.evicted_lt hx).trans_le h.bound
  rw [List.getElem?_eq_getElem hlt]
  cases l.accepted[x.1] <;> exact Iff.rfl

/-- **Accounting**: when no call is in progress, the calls made and the flush requests
taken out are the events handed to the worker, the events queued and the drops. -/
theorem accounting (h : (machine E cfg).run (.initial sinks) as = some s)
    (hq : s.NoDispatch) :
    s.history.dispatched.length + s.evictedRequests =
      s.handedEvents + s.queuedEvents + s.droppedEvents := by
  have hb := books_run h
  have hsettled : (s.queue.accepted.filterMap QueueItem.call).length +
      (s.history.drops.filterMap Drop.refusedCall).length = s.history.dispatched.length := by
    rw [← List.length_append]
    exact hb.length_settled hq
  have hdrops : s.droppedEvents = (s.history.drops.filterMap Drop.refusedCall).length +
      s.history.evicted.length := by
    rw [(control_run h).dropped]
    exact hb.length_counted hq ▸ length_drops s.ledger
  have hplaced : (s.queue.accepted.filterMap QueueItem.call).length =
      (s.queue.accepted.take s.queue.taken).countP QueueItem.isEvent + s.queuedEvents := by
    rw [List.length_filterMap_eq_countP, State.queuedEvents, TicketQueue.content,
      ← List.countP_append, List.take_append_drop]
    rfl
  have htaken : (s.queue.accepted.take s.queue.taken).countP QueueItem.isEvent =
      s.history.evicted.countP (fun x => s.queue.accepted[x.1]?.any QueueItem.isEvent) +
        s.handedEvents := hb.tickets.countP_taken
  have hevicted : s.history.evicted.length =
      s.history.evicted.countP (fun x => s.queue.accepted[x.1]?.any QueueItem.isEvent) +
        s.evictedRequests := hb.tickets.length_evicted
  omega

/-! ## When the counter is exact -/

/-- The step does not make a `drop_oldest` producer take out a flush request. -/
def KeepsRequests (s : State E) (a : Action E) : Prop :=
  ∀ t call e owns i, a = .thread t true → s.threads t = .event call e owns .evict →
    s.queue.content.head? ≠ some (.flushRequest i)

theorem keepsRequests_iff {a : Action E} :
    KeepsRequests s a ↔ ∀ t i, s.entry a = .evicts t →
      s.queue.accepted[s.queue.taken]? ≠ some (.flushRequest i) := by
  rw [KeepsRequests, TicketQueue.content, List.head?_drop]
  constructor
  · intro h t i he
    obtain ⟨ha, call, e, owns, hpc⟩ := State.entry_eq_evicts.mp he
    exact h t call e owns i ha hpc
  · intro h t call e owns i ha hpc
    exact h t i (State.entry_eq_evicts.mpr ⟨ha, call, e, owns, hpc⟩)

/-- What one move does to the tickets taken out and their items. -/
theorem Tickets.evicted_move {l' : Ledger E} {b : Entry E} (h : Tickets l)
    (m : Ledger.Move cfg b l l') :
    (∀ p t, (p, t) ∈ l.evicted → l'.accepted[p]? = l.accepted[p]?) ∧
      ((l'.evicted = l.evicted ∧ ∀ t, b ≠ .evicts t) ∨
        ∃ t c, b = .evicts t ∧ l'.evicted = l.evicted ++ [(l.taken, t, c)] ∧
          l'.accepted = l.accepted) := by
  have hplace : ∀ (x : QueueItem E) p t, (p, t) ∈ l.evicted →
      (l.accepted ++ [x])[p]? = l.accepted[p]? := fun x p t hp =>
    List.getElem?_append_left ((h.evicted_lt hp).trans_le h.bound)
  cases m with
  | placeEvent => exact ⟨hplace _, .inl ⟨rfl, nofun⟩⟩
  | placeRequest => exact ⟨hplace _, .inl ⟨rfl, nofun⟩⟩
  | evict => exact ⟨fun _ _ _ => rfl, .inr ⟨_, _, rfl, rfl, rfl⟩⟩
  | _ => exact ⟨fun _ _ _ => rfl, .inl ⟨rfl, nofun⟩⟩

/-- No flush request was taken out just when no step took one out. -/
theorem evictedRequests_eq_zero (h : (machine E cfg).run (.initial sinks) as = some s) :
    (∀ p t, (p, t) ∈ s.history.evicted → ∀ i, s.queue.accepted[p]? ≠ some (.flushRequest i)) ↔
      (machine E cfg).Meets KeepsRequests (.initial sinks) as := by
  refine Machine.run_induction (P := fun as s => (∀ p t, (p, t) ∈ s.history.evicted →
    ∀ i, s.queue.accepted[p]? ≠ some (.flushRequest i)) ↔
      (machine E cfg).Meets KeepsRequests (.initial sinks) as) ?_ ?_ h
  · exact iff_of_true nofun trivial
  · intro as s a s' hs ih ha
    rw [Machine.meets_concat hs, ← ih, keepsRequests_iff]
    rcases step_refined (control_run hs) ha with ⟨-, ⟨hq, hl⟩ | hm⟩
    · have hev : s'.history.evicted = s.history.evicted := congrArg Ledger.evicted hl
      have hac : s'.queue.accepted = s.queue.accepted := congrArg Ledger.accepted hl
      rw [hev, hac]
      refine (and_iff_left fun t i he => ?_).symm
      rw [hq] at he
      cases he
    · rcases (books_run hs).tickets.evicted_move hm with ⟨hold, ⟨hev, hne⟩ | ⟨t, c, hb, hev, hac⟩⟩
      · change s'.history.evicted = s.history.evicted at hev
        rw [hev, and_iff_left fun t i he => absurd he (hne t)]
        exact forall₃_congr fun p t hp => forall_congr' fun i =>
          not_congr (Eq.congr_left (hold p t hp))
      · change s'.history.evicted = s.history.evicted ++ [(s.queue.taken, t, c)] at hev
        change s'.queue.accepted = s.queue.accepted at hac
        rw [hev, hac]
        constructor
        · intro hall
          refine ⟨fun p u hp => hall p u (List.mem_append_left _ hp), fun u i he => ?_⟩
          exact hall _ (t, c) (List.mem_append_right _ (List.mem_singleton_self _)) i
        · rintro ⟨hall, hkeep⟩ p u hp i
          rcases List.mem_append.mp hp with hp | hp
          · exact hall p u hp i
          · obtain ⟨rfl, rfl⟩ := Prod.mk.inj (List.mem_singleton.mp hp)
            exact hkeep t i hb

/-- The count of drops is exact just in the runs in which no producer took out a flush
request: then, when no `dispatch` call is in progress, the calls made are the
events handed to the worker, those still queued and `dropped_events()`. -/
theorem droppedEvents_exact_iff (h : (machine E cfg).run (.initial sinks) as = some s)
    (hq : s.NoDispatch) :
    s.history.dispatched.length = s.handedEvents + s.queuedEvents + s.droppedEvents ↔
      (machine E cfg).Meets KeepsRequests (.initial sinks) as := by
  rw [← evictedRequests_eq_zero h]
  have hacc := accounting h hq
  have hzero : s.evictedRequests = 0 ↔ ∀ p t, (p, t) ∈ s.history.evicted →
      ∀ i, s.queue.accepted[p]? ≠ some (.flushRequest i) := by
    rw [State.evictedRequests, List.countP_eq_zero]
    constructor
    · intro hall p t hp i hi
      refine hall (p, t) hp ?_
      rw [hi]
      rfl
    · rintro hall ⟨p, t⟩ hp hsome
      cases hx : s.queue.accepted[p]? with
      | none => rw [hx] at hsome; cases hsome
      | some x =>
        rw [hx] at hsome
        cases x with
        | event c e => cases hsome
        | flushRequest i => exact hall p t hp i hx
  rw [← hzero]
  omega

theorem droppedEvents_exact_iff_overflowRun :
    ∃ s, (machine ℕ evicting).run (.initial [quietSink ℕ, brokenSink ℕ]) overflowRun = some s ∧
      s.NoDispatch ∧
      (s.history.dispatched.length = s.handedEvents + s.queuedEvents + s.droppedEvents ↔
        (machine ℕ evicting).Meets KeepsRequests (.initial [quietSink ℕ, brokenSink ℕ])
          overflowRun) := by
  have hrun : ((machine ℕ evicting).run (.initial [quietSink ℕ, brokenSink ℕ]) overflowRun).map
      (fun s => decide s.NoDispatch) = some true := by decide
  obtain ⟨s, hs, hq⟩ := Option.map_eq_some_iff.mp hrun
  exact ⟨s, hs, of_decide_eq_true hq, droppedEvents_exact_iff hs (of_decide_eq_true hq)⟩

/-- A flush call puts its request into a queue of two, and a second `dispatch` call finds
the queue full: it takes out the request and puts it back, then takes out an event. -/
def requeueRun : List (Action ℕ) :=
  .flush 0 :: steps 0 [true, true, true, true, true] ++
  .dispatch 1 10 :: steps 1 [true, true, true, true] ++
  .dispatch 1 11 :: steps 1 [true, false, false, true, true, true, true, true, true, true,
    false, true, true, true, true, true, true]

/-- Two calls were made, one event is queued and none was handed to the worker, but two
drops are counted. -/
theorem droppedEvents_requeueRun :
    ∃ s, (machine ℕ evicting).run (.initial [quietSink ℕ]) requeueRun = some s ∧
      s.shutdown = .notStarted ∧ s.NoDispatch ∧ s.history.dispatched.length = 2 ∧
      s.handedEvents = 0 ∧ s.queuedEvents = 1 ∧ s.droppedEvents = 2 ∧
      s.history.dispatched.length ≠ s.handedEvents + s.queuedEvents + s.droppedEvents := by
  have hrun : ((machine ℕ evicting).run (.initial [quietSink ℕ]) requeueRun).map
      (fun s => (s.shutdown, decide s.NoDispatch, s.history.dispatched.length, s.handedEvents,
        s.queuedEvents, s.droppedEvents)) = some (.notStarted, true, 2, 0, 1, 2) := by decide
  obtain ⟨s, hs, heq⟩ := Option.map_eq_some_iff.mp hrun
  simp only [Prod.mk.injEq, decide_eq_true_eq] at heq
  obtain ⟨hsd, hq, h₁, h₂, h₃, h₄⟩ := heq
  exact ⟨s, hs, hsd, hq, h₁, h₂, h₃, h₄, by omega⟩

end AsyncDispatcher

end Logspine
