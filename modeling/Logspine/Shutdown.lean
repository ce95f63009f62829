import Logspine.DroppedEvents
import Logspine.Locking

/-!
# What `shutdown` delivers

The worker drains the queue before it ends, and what it drains is written and flushed.
One event can slip through: the worker takes an item out of the queue in the test of
its wait loop, `shutdown` sets `stopping_`, and the worker, which now tests `stopping_`,
goes on to drain the queue into the same variable. The item in it is neither in the
queue nor in the batch. `shutdown_delivers_iff` says that this is the only way to lose
an event.
-/

namespace Logspine

namespace AsyncDispatcher

variable {E : Type} {cfg : Config} {sinks : List (Sink E)} {l l' : Ledger E}
  {s s' s₁ : State E} {as bs : List (Action E)}

/-- The step is not the test of `stopping_` that makes the worker overwrite an event. -/
def KeepsInHand (s : State E) : Action E → Prop
  | .worker _ => ∀ p c e, s.worker = .stopTest (some (p, .event c e)) → s.stopping = false
  | _ => True

/-- What a dispatcher owes its clients when it has stopped. -/
structure Delivered (s : State E) : Prop where
  /-- every event that obtained a place and was not evicted was written once to every sink -/
  once : ∀ p c e, s.queue.accepted[p]? = some (.event c e) →
    p ∉ s.history.evicted.map Prod.fst →
    ∀ k < s.sinks.length, (s.given k).filter (·.1 = p) = [(p, e)]
  /-- in queue order -/
  sorted : ∀ k < s.sinks.length, ((s.given k).map Prod.fst).Pairwise (· < ·)
  /-- every sink was flushed after its last write -/
  flushed : ∀ k < s.sinks.length, ∃ earlier later, s.history.calls = earlier ++ later ∧
    givenTo k later = [] ∧ ⟨k, .flush⟩ ∈ later

/-! ## After the last `dispatch` call -/

/-- No event is on its way to the queue, and none was left in it by the worker. -/
structure Winding (l : Ledger E) : Prop where
  pending : ∀ t, (l.threads t).pending = none
  closed : l.closing ≠ none → ∀ (p c : ℕ) (e : E), l.taken ≤ p →
    l.accepted[p]? ≠ some (.event c e)

/-- A move that begins no `dispatch` call keeps it so. -/
theorem Winding.move {b : Entry E} (ha : cfg.atomicQueue = true) (h : Winding l)
    (m : Ledger.Move cfg b l l') (hb : ∀ t e, b ≠ .begins t (.dispatch e)) : Winding l' := by
  have hgive : ∀ {t : ℕ} {c : Client E}, c.pending = none →
      ∀ u, (Function.update l.threads t c u).pending = none := fun hc =>
    Ledger.forall_give (P := fun _ c => c.pending = none) hc fun u _ => h.pending u
  cases m with
  | beginDispatch => exact absurd rfl (hb _ _)
  | placeEvent ht => exact nomatch ht.symm.trans (h.pending _)
  | refuse ht => exact nomatch ht.symm.trans (h.pending _)
  | evict ho hx hp => exact nomatch hp.symm.trans (h.pending _)
  | endDispatch => exact ⟨hgive rfl, h.closed⟩
  | count => exact ⟨hgive (h.pending _), h.closed⟩
  | beginFlush => exact ⟨hgive rfl, h.closed⟩
  | draw => exact ⟨hgive rfl, h.closed⟩
  | placeRequest =>
    refine ⟨hgive (h.pending _), fun hc p c e hp hx => ?_⟩
    rcases getElem?_concat hx with hx | ⟨-, hx⟩
    · exact h.closed hc p c e hp hx
    · cases hx
  | abandon => exact ⟨hgive (h.pending _), h.closed⟩
  | endFlush => exact ⟨hgive rfl, h.closed⟩
  | hand hx hp hc => exact { h with closed := fun hn => absurd hc hn }
  | close hs hh hp hc hq =>
    refine { h with closed := fun _ p c e hp hx => ?_ }
    rw [List.getElem?_eq_none ((hq ha).trans hp)] at hx
    cases hx
  | farewell hk => exact { h with closed := fun _ => h.closed (hk ▸ Option.some_ne_none _) }
  | _ => exact { h with }

/-- No event is on its way when no `dispatch` call is in progress. -/
theorem Books.winding (h : Books sinks s.ledger) (hc : Control cfg s)
    (hs : s.shutdown = .notStarted) (hq : s.NoDispatch) : Winding s.ledger where
  pending t := by
    refine Option.eq_none_iff_forall_ne_some.mpr ?_
    rintro ⟨c, e⟩ hpend
    have hcall := (h.clients t).pending _ hpend
    have hlt := (List.getElem?_eq_some_iff.mp ((h.clients t).calling c e hcall)).1
    exact (h.dispatches.returned c (hq c hlt)).2 t e hcall
  closed hclosing := absurd (hc.closing_eq_none
    (Bool.eq_false_iff.mpr fun hst => hc.stopping.mp hst hs)) hclosing

theorem winding_run (ha : cfg.atomicQueue = true) (hc : Control cfg s₁) (hw : Winding s₁.ledger)
    (hb : ∀ a ∈ bs, ∀ t e, a ≠ .dispatch t e) (h : (machine E cfg).run s₁ bs = some s) :
    Winding s.ledger := by
  refine (Machine.run_induction (P := fun bs s => (∀ a ∈ bs, ∀ t e, a ≠ .dispatch t e) →
    Control cfg s ∧ Winding s.ledger) (fun _ => ⟨hc, hw⟩) ?_ h hb).2
  intro bs s a s' _ ih hstep hb
  obtain ⟨hc, hw⟩ := ih fun a hm => hb a (List.mem_append_left _ hm)
  rcases step_refined hc hstep with ⟨hc', ⟨-, hl⟩ | hm⟩
  · exact ⟨hc', hl ▸ hw⟩
  · refine ⟨hc', hw.move ha hm fun t e he => ?_⟩
    rcases State.eq_of_entry_eq_begins he with rfl | ⟨e', rfl⟩
    · cases he
    · exact hb _ (List.mem_append_right _ (List.mem_singleton_self _)) t e' rfl

/-! ## The worker has ended when `shutdown` returns -/

theorem exited_of_joined (h : (machine E cfg).run (.initial sinks) as = some s)
    (hj : s.shutdown = .joined) : s.worker = .exited := by
  refine Machine.run_induction (P := fun _ s => s.shutdown = .joined → s.worker = .exited)
    (fun hj => by cases hj) ?_ h hj
  intro as s a s' hs ih ha hj
  have hm := step_scheduled (control_run hs) (locked_run hs).lockOk ha
  cases a with
  | worker ok =>
    have hw : s.worker = .exited := ih ((workerStep_step ha).shutdown ▸ hj)
    replace ha : workerStep cfg s ok = some s' := ha
    rw [workerStep, hw] at ha
    cases ha
  | shutdown ok =>
    have hstep := shutdownStep_step ha
    exact hstep.worker.trans (hstep.joined hj)
  | _ =>
    exact (hm.worker (by rintro ⟨⟩)).trans (ih ((hm.shutdown (by rintro ⟨⟩)) ▸ hj))

/-! ## Overwritten events -/

theorem Ledger.Move.lost {b : Entry E} (m : Ledger.Move cfg b l l') :
    (b = .loses ∧ l'.lost = l.lost ++ l.held) ∨ (b ≠ .loses ∧ l'.lost = l.lost) := by
  cases m with
  | lose => exact .inl ⟨rfl, rfl⟩
  | _ => exact .inr ⟨nofun, rfl⟩

theorem keepsInHand_iff {a : Action E} :
    KeepsInHand s a ↔ (s.entry a = .loses → ∀ x ∈ s.worker.held, eventOf x = none) := by
  constructor
  · intro h he x hx
    obtain ⟨ok, ⟨p, item⟩, rfl, hw, hs⟩ := State.of_entry_eq_loses he
    rw [hw] at hx
    obtain rfl := List.mem_singleton.mp hx
    cases item with
    | event c e => exact nomatch hs.symm.trans (h p c e hw)
    | flushRequest i => rfl
  · intro h
    cases a with
    | worker ok =>
      intro p c e hw
      refine Bool.eq_false_iff.mpr fun hs => ?_
      have he : s.entry (.worker ok) = .loses := by
        rw [State.entry, hw, WorkerPc.entry, if_pos hs]
      have hx := h he (p, .event c e) (by rw [hw]; exact List.mem_singleton_self _)
      cases hx
    | _ => trivial

/-- No event was overwritten just when no step overwrote one. -/
theorem lost_iff_meets (hc : Control cfg s₁) (hlost : s₁.history.lost = [])
    (h : (machine E cfg).run s₁ bs = some s) :
    (∀ x ∈ s.history.lost, eventOf x = none) ↔ (machine E cfg).Meets KeepsInHand s₁ bs := by
  refine (Machine.run_induction (P := fun bs s => Control cfg s ∧
    ((∀ x ∈ s.history.lost, eventOf x = none) ↔ (machine E cfg).Meets KeepsInHand s₁ bs))
    ⟨hc, iff_of_true (by rw [hlost]; exact nofun) trivial⟩ ?_ h).2
  rintro bs s a s' hs ⟨hc, ih⟩ ha
  rw [Machine.meets_concat hs, ← ih, keepsInHand_iff]
  rcases step_refined hc ha with ⟨hc', ⟨hq, hl⟩ | hm⟩
  · have hlost' : s'.history.lost = s.history.lost := congrArg Ledger.lost hl
    rw [hlost', and_iff_left fun he => nomatch hq.symm.trans he]
    exact ⟨hc', Iff.rfl⟩
  · refine ⟨hc', ?_⟩
    rcases hm.lost with ⟨hb, hlost'⟩ | ⟨hb, hlost'⟩
    · change s'.history.lost = s.history.lost ++ s.worker.held at hlost'
      rw [hlost', List.forall_mem_append]
      exact and_congr_right fun _ => ⟨fun h _ => h, fun h => h hb⟩
    · change s'.history.lost = s.history.lost at hlost'
      rw [hlost', and_iff_left fun he => absurd he hb]

/-! ## What was delivered -/

/-- What a worker that has ended leaves behind: every event that obtained a place was
taken out by a producer, overwritten, or written to every sink. -/
theorem Books.delivered_iff (h : Books sinks s.ledger) (hw : Winding s.ledger)
    (hexit : s.worker = .exited) :
    Delivered s ↔ sinks = [] ∨ ∀ x ∈ s.history.lost, eventOf x = none := by
  have hn : s.sinks.length = sinks.length := h.calls.length_sinks
  have hheld : s.ledger.held = [] := congrArg WorkerPc.held hexit
  have hclosing : s.ledger.closing = some s.sinks.length :=
    congrArg (WorkerPc.closing s.sinks.length) hexit
  have hprogress : s.ledger.progress = 0 := congrArg (WorkerPc.progress s.sinks.length) hexit
  have hgiven : ∀ k < s.sinks.length, s.given k = s.ledger.written := by
    intro k hk
    have hwriting : s.ledger.writing k = [] := by
      rw [Ledger.writing, hprogress, if_neg (Nat.not_lt_zero k)]
    exact (h.calls.givenTo_calls (hn ▸ hk)).trans (by rw [hwriting, List.append_nil])
  have hsorted : (s.ledger.written.map Prod.fst).Pairwise (· < ·) :=
    (List.append_nil s.ledger.done ▸ hheld ▸ h.tickets.sorted).sublist
      (map_fst_filterMap_eventOf_sublist _)
  constructor
  · intro hd
    refine or_iff_not_imp_left.mpr fun hne x hx => ?_
    have hk : 0 < s.sinks.length := hn ▸ List.length_pos_of_ne_nil hne
    cases hev : eventOf x with
    | none => rfl
    | some y =>
      -- an overwritten event was given to nobody
      obtain ⟨c, rfl⟩ := eventOf_eq_some.mp hev
      have hitem : s.ledger.accepted[y.1]? = some (.event c y.2) :=
        h.tickets.items _ (List.mem_append_left _ (List.mem_append_right _ hx))
      have hnodup := h.tickets.custody.nodup_iff.mpr List.nodup_range
      rw [Ledger.handed, hheld, List.append_nil, List.map_append] at hnodup
      obtain ⟨-, hhanded, hdisj⟩ := List.nodup_append.mp hnodup
      have hxm := List.mem_map_of_mem (f := Prod.fst) hx
      have honce := hd.once y.1 c y.2 hitem
        (fun he => hdisj _ he _ (List.mem_append_right _ hxm) rfl) 0 hk
      rw [hgiven 0 hk] at honce
      have hmem : y ∈ s.ledger.written :=
        (List.mem_filter.mp (honce ▸ List.mem_singleton_self _)).1
      obtain ⟨z, hz, hzy⟩ := List.mem_filterMap.mp hmem
      obtain ⟨c', rfl⟩ := eventOf_eq_some.mp hzy
      exact absurd rfl ((List.nodup_append.mp hhanded).2.2 _
        (List.mem_map_of_mem (f := Prod.fst) hz) _ hxm)
  · rintro (rfl | hlost)
    · have hnone : ∀ k, ¬ k < s.sinks.length := fun k hk => by
        rw [hn] at hk
        exact Nat.not_lt_zero k hk
      exact ⟨fun _ _ _ _ _ k hk => absurd hk (hnone k), fun k hk => absurd hk (hnone k),
        fun k hk => absurd hk (hnone k)⟩
    · refine ⟨fun p c e hp hev k hk => ?_, fun k hk => ?_, fun k hk => ?_⟩
      · rw [hgiven k hk]
        refine filter_fst_eq_singleton (hsorted.imp ne_of_lt) (h.tickets.mem_written hp ?_)
        have hlt : p < s.ledger.taken := not_le.mp fun hle =>
          hw.closed (hclosing ▸ Option.some_ne_none _) p c e hle hp
        obtain he | hh := List.mem_append.mp
          (h.tickets.custody.mem_iff.mpr (List.mem_range.mpr hlt))
        · exact absurd he hev
        · rw [Ledger.handed, hheld, List.append_nil, List.map_append] at hh
          rcases List.mem_append.mp hh with hd | hl
          · exact hd
          · obtain ⟨⟨q, item⟩, hx, rfl⟩ := List.mem_map.mp hl
            have hitem : s.ledger.accepted[q]? = some item :=
              h.tickets.items _ (List.mem_append_left _ (List.mem_append_right _ hx))
            obtain rfl := Option.some.inj (hp.symm.trans hitem)
            cases hlost _ hx
      · rw [hgiven k hk]
        exact hsorted
      · have hcalls := h.calls.calls
        rw [hclosing] at hcalls
        refine ⟨_, _, hcalls, givenTo_farewell _ _ _, ?_⟩
        rw [farewell, Option.getD_some, hn, List.take_of_length_le (length_forEachSink _ _).le]
        exact mem_forEachSink.mpr ⟨hn ▸ hk, rfl⟩

/-- **Shutdown delivers everything, unless the worker overwrites an event.** No `dispatch`
call is in progress in `s₁`, before shutdown, and none begins later; in `s` `shutdown`
has joined the worker. Then every event that obtained a place and was not evicted has
been written once to every sink, in queue order, and flushed after that, if and only
if there is no sink or no step of the worker overwrote an event. -/
theorem shutdown_delivers_iff (hatomic : cfg.atomicQueue = true)
    (h₁ : (machine E cfg).run (.initial sinks) as = some s₁) (hs₁ : s₁.shutdown = .notStarted)
    (hq : s₁.NoDispatch) (h : (machine E cfg).run s₁ bs = some s)
    (hb : ∀ a ∈ bs, ∀ t e, a ≠ .dispatch t e) (hj : s.shutdown = .joined) :
    Delivered s ↔ sinks = [] ∨ (machine E cfg).Meets KeepsInHand s₁ bs := by
  have hc := control_run h₁
  have hbooks := books_run h₁
  have hrun : (machine E cfg).run (.initial sinks) (as ++ bs) = some s :=
    Machine.run_append.mpr ⟨s₁, h₁, h⟩
  have hlost : s₁.history.lost = [] :=
    hbooks.barrier.lost (Bool.eq_false_iff.mpr fun hst => hc.stopping.mp hst hs₁)
  rw [(books_run hrun).delivered_iff (winding_run hatomic hc (hbooks.winding hc hs₁ hq) hb h)
    (exited_of_joined hrun hj), lost_iff_meets hc hlost h]

/-! ## Two runs of `shutdown` -/

/-- One `dispatch` call, from beginning to end. -/
def oneDispatch : List (Action ℕ) := .dispatch 0 10 :: steps 0 [true, true, true, true]

/-- `stopping_` is set after the worker has tested it with the event in hand. -/
def drainedRun : List (Action ℕ) :=
  [true, true, true].map .worker ++ .shutdown true ::
    [false, true, true, true, true, true, true, false, true, true].map .worker ++
    List.replicate 6 (.shutdown true)

theorem shutdown_delivers_iff_drainedRun :
    ∃ s₁ s, (machine ℕ evicting).run (.initial [quietSink ℕ]) oneDispatch = some s₁ ∧
      (machine ℕ evicting).run s₁ drainedRun = some s ∧ Delivered s := by
  have hrun : (((machine ℕ evicting).run (.initial [quietSink ℕ]) oneDispatch).bind fun s₁ =>
      ((machine ℕ evicting).run s₁ drainedRun).map fun s =>
        (s₁.shutdown, decide s₁.NoDispatch, s₁.history.lost.length, s.shutdown,
          s.history.lost.length)) = some (.notStarted, true, 0, .joined, 0) := by decide
  have hb : ∀ a ∈ drainedRun, ∀ t e, a ≠ .dispatch t e := by
    intro a ha t e
    rintro rfl
    simp [drainedRun] at ha
  obtain ⟨s₁, h₁, hrun⟩ := Option.bind_eq_some_iff.mp hrun
  obtain ⟨s, h, heq⟩ := Option.map_eq_some_iff.mp hrun
  simp only [Prod.mk.injEq, decide_eq_true_eq, List.length_eq_zero_iff] at heq
  obtain ⟨hs₁, hq, hlost₁, hj, hlost⟩ := heq
  refine ⟨s₁, s, h₁, h, (shutdown_delivers_iff rfl h₁ hs₁ hq h hb hj).mpr (.inr ?_)⟩
  exact (lost_iff_meets (control_run h₁) hlost₁ h).mp (by rw [hlost]; exact nofun)

/-- `stopping_` is set between the dequeue and the test. -/
def overwrittenRun : List (Action ℕ) :=
  [true, true].map .worker ++ .shutdown true :: [true, false, true, true].map .worker ++
    List.replicate 6 (.shutdown true)

/-- The event of a call that returned before shutdown began is in the queue, is not evicted,
and no sink is given it. -/
theorem shutdown_overwrittenRun :
    ∃ s₁ s, (machine ℕ evicting).run (.initial [quietSink ℕ]) oneDispatch = some s₁ ∧
      s₁.shutdown = .notStarted ∧ s₁.NoDispatch ∧
      (machine ℕ evicting).run s₁ overwrittenRun = some s ∧
      (∀ a ∈ overwrittenRun, ∀ t e, a ≠ .dispatch t e) ∧ s.shutdown = .joined ∧
      s.queue.accepted[0]? = some (.event 0 10) ∧ s.history.evicted = [] ∧ s.sinks.length = 1 ∧
      s.given 0 = [] ∧ ¬ Delivered s := by
  have hrun : (((machine ℕ evicting).run (.initial [quietSink ℕ]) oneDispatch).bind fun s₁ =>
      ((machine ℕ evicting).run s₁ overwrittenRun).map fun s =>
        (s₁.shutdown, decide s₁.NoDispatch, s.shutdown,
          decide (s.queue.accepted[0]? = some (.event 0 10)),
          s.history.evicted.length, (s.given 0).length)) =
      some (.notStarted, true, .joined, true, 0, 0) := by decide
  have hb : ∀ a ∈ overwrittenRun, ∀ t e, a ≠ .dispatch t e := by
    intro a ha t e
    rintro rfl
    simp [overwrittenRun] at ha
  obtain ⟨s₁, h₁, hrun⟩ := Option.bind_eq_some_iff.mp hrun
  obtain ⟨s, h, heq⟩ := Option.map_eq_some_iff.mp hrun
  simp only [Prod.mk.injEq, decide_eq_true_eq, List.length_eq_zero_iff] at heq
  obtain ⟨hs₁, hq, hj, hitem, hev, hgiven⟩ := heq
  have hn : s.sinks.length = 1 :=
    (books_run (Machine.run_append.mpr ⟨s₁, h₁, h⟩)).calls.length_sinks
  refine ⟨s₁, s, h₁, hs₁, hq, h, hb, hj, hitem, hev, hn, hgiven, fun hd => ?_⟩
  have honce := hd.once 0 0 10 hitem (by rw [hev]; exact List.not_mem_nil) 0
    (hn ▸ Nat.zero_lt_one)
  rw [hgiven] at honce
  cases honce

end AsyncDispatcher

end Logspine
