import Logspine.FlushRequests

/-!
# Conservation and order

Read off the books of a reachable state: every event that obtained a place is in one
place, and all sinks are given the same events in queue order.
-/

namespace Logspine

namespace AsyncDispatcher

variable {E : Type} {cfg : Config} {sinks : List (Sink E)} {l : Ledger E} {s : State E}
  {as : List (Action E)}

/-! ## What a sink is given -/

/-- The event of an item, with its ticket. -/
def eventOf (x : Ticketed E) : Option (ℕ × E) := (sinkOp x).event

theorem eventOf_eq_some {x : Ticketed E} {p : ℕ} {e : E} :
    eventOf x = some (p, e) ↔ ∃ c, x = (p, .event c e) := by
  obtain ⟨q, item⟩ := x
  cases item with
  | event c e' =>
    constructor
    · intro h
      obtain ⟨rfl, rfl⟩ := Prod.mk.inj (Option.some.inj h)
      exact ⟨c, rfl⟩
    · rintro ⟨c', h⟩
      obtain ⟨rfl, hitem⟩ := Prod.mk.inj h
      obtain ⟨-, rfl⟩ := QueueItem.event.inj hitem
      rfl
  | flushRequest i =>
    constructor
    · intro h
      cases h
    · rintro ⟨c', h⟩
      cases (Prod.mk.inj h).2

/-- The events of the items finished with. -/
def Ledger.written (l : Ledger E) : List (ℕ × E) := l.done.filterMap eventOf

/-- The event the worker is writing, as far as sink `k` has been given it. -/
def Ledger.writing (l : Ledger E) (k : ℕ) : List (ℕ × E) :=
  if k < l.progress then l.held.head?.elim [] fun x => (eventOf x).toList else []

theorem givenTo_script {k n : ℕ} (hk : k < n) (x : Ticketed E) :
    givenTo k (script n x) = (eventOf x).toList := by
  rw [script, givenTo_forEachSink, if_pos hk, eventOf]

theorem givenTo_flatMap_script {k n : ℕ} (hk : k < n) (xs : List (Ticketed E)) :
    givenTo k (xs.flatMap (script n)) = xs.filterMap eventOf := by
  induction xs with
  | nil => rfl
  | cons x xs ih =>
    rw [List.flatMap_cons, givenTo_append, ih, givenTo_script hk, List.filterMap_cons]
    cases eventOf x <;> rfl

theorem givenTo_started {k n : ℕ} (hk : k < n) (held : List (Ticketed E)) (progress : ℕ) :
    givenTo k (started n held progress) =
      if k < progress then held.head?.elim [] fun x => (eventOf x).toList else [] := by
  cases held with
  | nil => split <;> rfl
  | cons x rest =>
    rw [started, script, take_forEachSink, givenTo_forEachSink]
    by_cases hp : k < progress
    · rw [if_pos (lt_min hp hk), if_pos hp]
      rfl
    · rw [if_neg fun h => hp (h.trans_le (min_le_left _ _)), if_neg hp]

theorem givenTo_farewell (k n : ℕ) (closing : Option ℕ) :
    givenTo k (farewell (E := E) n closing) = [] := by
  rw [farewell, take_forEachSink, givenTo_forEachSink]
  split <;> rfl

/-- What sink `k` has been given: the events finished with, and the one being written
if it is past sink `k`. -/
theorem Calls.givenTo_calls (h : Calls sinks l) {k : ℕ} (hk : k < sinks.length) :
    givenTo k l.calls = l.written ++ l.writing k := by
  rw [h.calls, givenTo_append, givenTo_append, givenTo_flatMap_script hk, givenTo_started hk,
    givenTo_farewell, List.append_nil, Ledger.written, Ledger.writing]

/-- The part of the items in hand that sink `k` has been given. -/
theorem Ledger.writing_sublist (l : Ledger E) (k : ℕ) :
    (l.writing k).Sublist (l.held.filterMap eventOf) := by
  rw [Ledger.writing]
  split
  · cases l.held with
    | nil => exact List.Sublist.refl _
    | cons x rest =>
      rw [List.filterMap_cons, List.head?_cons, Option.elim_some]
      cases eventOf x with
      | none => exact List.nil_sublist _
      | some y => exact List.Sublist.cons_cons y (List.nil_sublist _)
  · exact List.nil_sublist _

theorem map_fst_filterMap_eventOf_sublist (xs : List (Ticketed E)) :
    ((xs.filterMap eventOf).map Prod.fst).Sublist (xs.map Prod.fst) := by
  induction xs with
  | nil => exact List.Sublist.refl _
  | cons x xs ih =>
    rw [List.filterMap_cons]
    cases hx : eventOf x with
    | none => exact ih.cons _
    | some y =>
      obtain ⟨c, rfl⟩ := eventOf_eq_some.mp hx
      exact ih.cons_cons _

/-- The events given to a sink stand in queue order. -/
theorem Tickets.sorted_given (h : Tickets l) (k : ℕ) :
    ((l.written ++ l.writing k).map Prod.fst).Pairwise (· < ·) := by
  refine h.sorted.sublist (List.Sublist.trans ?_ (map_fst_filterMap_eventOf_sublist _))
  rw [List.filterMap_append]
  exact ((List.Sublist.refl _).append (l.writing_sublist k)).map _

/-- An event given to a sink is an item the worker took out. -/
theorem Ledger.mem_given {k p : ℕ} {e : E} (h : (p, e) ∈ l.written ++ l.writing k) :
    ∃ c, (p, QueueItem.event c e) ∈ l.done ++ l.held := by
  have hmem : (p, e) ∈ (l.done ++ l.held).filterMap eventOf := by
    rw [List.filterMap_append]
    exact ((List.Sublist.refl _).append (l.writing_sublist k)).subset h
  obtain ⟨x, hx, he⟩ := List.mem_filterMap.mp hmem
  obtain ⟨c, rfl⟩ := eventOf_eq_some.mp he
  exact ⟨c, hx⟩

theorem filter_fst_eq_singleton {T : Type} {xs : List (ℕ × T)} {p : ℕ} {e : T}
    (hn : (xs.map Prod.fst).Nodup) (h : (p, e) ∈ xs) : xs.filter (·.1 = p) = [(p, e)] := by
  induction xs with
  | nil => cases h
  | cons x xs ih =>
    obtain ⟨hx, hn⟩ := List.nodup_cons.mp hn
    have hrest : ∀ q, q ∉ xs.map Prod.fst → xs.filter (·.1 = q) = [] := by
      intro q hq
      refine List.filter_eq_nil_iff.mpr fun y hy heq => hq ?_
      exact of_decide_eq_true heq ▸ List.mem_map_of_mem hy
    rcases List.mem_cons.mp h with rfl | h
    · rw [List.filter_cons, if_pos (decide_eq_true rfl), hrest p hx]
    · have hne : x.1 ≠ p := fun heq => hx (heq ▸ List.mem_map_of_mem (f := Prod.fst) h)
      rw [List.filter_cons, if_neg fun heq => hne (of_decide_eq_true heq), ih hn h]

/-! ## Where an event is -/

/-- Where an event that obtained a place can be. -/
inductive Whereabouts where
  | queued : Whereabouts
  | held : Whereabouts
  | written : Whereabouts
  | evicted : Whereabouts

/-- The item with a ticket is still queued, in the worker's hands, finished with by the
worker, or taken out by a producer. -/
def State.IsAt (s : State E) (p : ℕ) : Whereabouts → Prop
  | .queued => s.queue.taken ≤ p
  | .held => p ∈ s.worker.held.map Prod.fst
  | .written => p ∈ s.history.done.map Prod.fst
  | .evicted => p ∈ s.history.evicted.map Prod.fst

/-- The event the worker is writing. -/
def State.writing (s : State E) : Option (ℕ × E) :=
  match s.worker with
  | .write ticket _ e _ _ | .writeFailed ticket _ e _ _ => some (ticket, e)
  | _ => none

/-- What sink `k` has been given, with tickets. -/
def State.given (s : State E) (k : ℕ) : List (ℕ × E) := givenTo k s.history.calls

/-- Conservation and order: what holds of the events that obtained a place. -/
structure Conserved (s : State E) : Prop where
  /-- each is in one place -/
  place : ∀ p c e, s.queue.accepted[p]? = some (.event c e) → ∃! w, s.IsAt p w
  /-- each evicted one was taken out by one producer, in one call -/
  evictor : ∀ p, s.IsAt p .evicted → ∃! x : ℕ × ℕ, (p, x) ∈ s.history.evicted
  /-- each written one was written once to every sink -/
  written : ∀ p c e, s.queue.accepted[p]? = some (.event c e) → s.IsAt p .written →
    ∀ k < s.sinks.length, (s.given k).filter (·.1 = p) = [(p, e)]
  /-- none was written that is queued or evicted -/
  unwritten : ∀ p, s.IsAt p .queued ∨ s.IsAt p .evicted →
    ∀ k < s.sinks.length, (s.given k).filter (·.1 = p) = []
  /-- all sinks are given the same, up to the event being written -/
  common : ∃ all : List (ℕ × E), ∀ k < s.sinks.length,
    s.given k = all ∨ ∃ x, s.writing = some x ∧ s.given k = all ++ [x]
  /-- in queue order -/
  sorted : ∀ k < s.sinks.length, ((s.given k).map Prod.fst).Pairwise (· < ·)
  /-- and nothing but events that obtained a place -/
  given : ∀ k < s.sinks.length, ∀ x ∈ s.given k,
    ∃ c t, s.queue.accepted[x.1]? = some (.event c x.2) ∧
      s.history.dispatched[c]? = some (t, x.2)
  /-- so each thread's events in the order of its calls -/
  threads : ∀ k < s.sinks.length, (s.given k).Pairwise fun x y =>
    ∀ c c' t, s.queue.accepted[x.1]? = some (.event c x.2) →
      s.queue.accepted[y.1]? = some (.event c' y.2) →
      s.history.dispatched[c]? = some (t, x.2) → s.history.dispatched[c']? = some (t, y.2) →
      c < c'

/-- What is being written is the event of the item in the worker's hands. -/
theorem writing_ledger (s : State E) (k : ℕ) :
    s.ledger.writing k = [] ∨ ∃ x, s.writing = some x ∧ s.ledger.writing k = [x] := by
  rw [Ledger.writing]
  split
  case isFalse => exact .inl rfl
  case isTrue hk =>
    change k < s.worker.progress _ at hk
    change s.worker.held.head?.elim [] _ = [] ∨ ∃ x, _ ∧ s.worker.held.head?.elim [] _ = [x]
    rw [State.writing]
    cases hw : s.worker with
    | write ticket call e rest k => exact .inr ⟨_, rfl, rfl⟩
    | writeFailed ticket call e rest k => exact .inr ⟨_, rfl, rfl⟩
    | flushSinks | flushFailed | raiseLoad | raiseCas => exact .inl rfl
    | _ =>
      rw [hw] at hk
      exact absurd hk (Nat.not_lt_zero k)

/-- When nothing is lost, a ticket is in one place. -/
theorem Tickets.isAt_unique (h : Tickets s.ledger) (hlost : s.history.lost = []) (p : ℕ) :
    ∃! w, s.IsAt p w := by
  have hcustody := h.custody
  have hhanded : s.ledger.handed = s.history.done ++ s.worker.held := by
    change s.history.done ++ s.history.lost ++ s.worker.held = _
    rw [hlost, List.append_nil]
  rw [hhanded, List.map_append] at hcustody
  change (s.history.evicted.map Prod.fst ++ (s.history.done.map Prod.fst ++
    s.worker.held.map Prod.fst)).Perm (List.range s.queue.taken) at hcustody
  have hmem : p ∈ s.history.evicted.map Prod.fst ∨ p ∈ s.history.done.map Prod.fst ∨
      p ∈ s.worker.held.map Prod.fst ↔ p < s.queue.taken := by
    rw [← List.mem_range, ← hcustody.mem_iff, List.mem_append, List.mem_append]
  obtain ⟨-, hnodup, hdisj⟩ := List.nodup_append.mp (hcustody.nodup_iff.mpr List.nodup_range)
  obtain ⟨-, -, hdisj'⟩ := List.nodup_append.mp hnodup
  have hev : p ∈ s.history.evicted.map Prod.fst → p ∈ s.history.done.map Prod.fst ∨
      p ∈ s.worker.held.map Prod.fst → False :=
    fun he hd => hdisj p he p (List.mem_append.mpr hd) rfl
  have hdh : p ∈ s.history.done.map Prod.fst → p ∈ s.worker.held.map Prod.fst → False :=
    fun hd hh => hdisj' p hd p hh rfl
  have hq : s.queue.taken ≤ p → ¬ p < s.queue.taken := not_lt.mpr
  rcases lt_or_ge p s.queue.taken with hlt | hge
  · rcases hmem.mpr hlt with he | hd | hh
    · refine ⟨.evicted, he, fun w hw => ?_⟩
      cases w with
      | queued => exact absurd hlt (hq hw)
      | held => exact (hev he (.inr hw)).elim
      | written => exact (hev he (.inl hw)).elim
      | evicted => rfl
    · refine ⟨.written, hd, fun w hw => ?_⟩
      cases w with
      | queued => exact absurd hlt (hq hw)
      | held => exact (hdh hd hw).elim
      | written => rfl
      | evicted => exact (hev hw (.inl hd)).elim
    · refine ⟨.held, hh, fun w hw => ?_⟩
      cases w with
      | queued => exact absurd hlt (hq hw)
      | held => rfl
      | written => exact (hdh hw hh).elim
      | evicted => exact (hev hw (.inr hh)).elim
  · refine ⟨.queued, hge, fun w hw => ?_⟩
    cases w with
    | queued => rfl
    | held => exact absurd (hmem.mp (.inr (.inr hw))) (hq hge)
    | written => exact absurd (hmem.mp (.inr (.inl hw))) (hq hge)
    | evicted => exact absurd (hmem.mp (.inl hw)) (hq hge)

/-- Only what the worker took out is given to a sink. -/
theorem isAt_of_given {k p : ℕ} {e : E} (h : (p, e) ∈ s.ledger.written ++ s.ledger.writing k) :
    s.IsAt p .written ∨ s.IsAt p .held := by
  obtain ⟨c, hc⟩ := Ledger.mem_given h
  rcases List.mem_append.mp hc with hd | hh
  · exact .inl (List.mem_map_of_mem (f := Prod.fst) hd)
  · exact .inr (List.mem_map_of_mem (f := Prod.fst) hh)

/-- An event the worker has finished with is among the events written. -/
theorem Tickets.mem_written (h : Tickets s.ledger) {p c : ℕ} {e : E}
    (hp : s.queue.accepted[p]? = some (.event c e)) (hw : s.IsAt p .written) :
    (p, e) ∈ s.ledger.written := by
  obtain ⟨⟨q, item⟩, hx, rfl⟩ := List.mem_map.mp hw
  have hitem : s.queue.accepted[q]? = some item :=
    h.items _ (List.mem_append_left _ (List.mem_append_left _ hx))
  obtain rfl := Option.some.inj (hp.symm.trans hitem)
  exact List.mem_filterMap.mpr ⟨_, hx, rfl⟩

/-- **Conservation and order**: in every reachable state in which shutdown has not
begun, each event that obtained a place is in one place, all sinks are given the same
events in queue order, and each thread's events in the order of its calls. The sinks
are arbitrary, so this holds whichever of their calls throw. -/
theorem dispatcher_conserves (h : (machine E cfg).run (.initial sinks) as = some s)
    (hs : s.shutdown = .notStarted) : Conserved s := by
  have hb := books_run h
  have hlost : s.history.lost = [] :=
    hb.barrier.lost (Bool.eq_false_iff.mpr fun hst => (control_run h).stopping.mp hst hs)
  have hn : s.sinks.length = sinks.length := hb.calls.length_sinks
  have hgiven : ∀ k < s.sinks.length, s.given k = s.ledger.written ++ s.ledger.writing k :=
    fun k hk => hb.calls.givenTo_calls (hn ▸ hk)
  have hplace := hb.tickets.isAt_unique hlost
  have hsorted : ∀ k < s.sinks.length, ((s.given k).map Prod.fst).Pairwise (· < ·) :=
    fun k hk => hgiven k hk ▸ hb.tickets.sorted_given k
  have hitems : ∀ k < s.sinks.length, ∀ x ∈ s.given k,
      ∃ c t, s.queue.accepted[x.1]? = some (.event c x.2) ∧
        s.history.dispatched[c]? = some (t, x.2) := by
    rintro k hk ⟨p, e⟩ hx
    rw [hgiven k hk] at hx
    obtain ⟨c, hc⟩ := Ledger.mem_given hx
    have hp : s.queue.accepted[p]? = some (.event c e) := by
      refine hb.tickets.items (p, .event c e) ?_
      rcases List.mem_append.mp hc with hd | hh
      · exact List.mem_append_left _ (List.mem_append_left _ hd)
      · exact List.mem_append_right _ hh
    obtain ⟨t, ht⟩ := hb.dispatches.event p c e hp
    exact ⟨c, t, hp, ht⟩
  refine ⟨fun p c e _ => hplace p, ?_, ?_, ?_, ?_, hsorted, hitems, ?_⟩
  · intro p hp
    obtain ⟨⟨q, x⟩, hx, rfl⟩ := List.mem_map.mp hp
    exact ⟨x, hx, fun y hy => hb.tickets.evictor_unique hy hx⟩
  · intro p c e hp hw k hk
    refine filter_fst_eq_singleton ((hsorted k hk).imp ne_of_lt) ?_
    rw [hgiven k hk]
    exact List.mem_append_left _ (hb.tickets.mem_written hp hw)
  · intro p hp k hk
    refine List.filter_eq_nil_iff.mpr ?_
    rintro ⟨q, e⟩ hx heq
    obtain rfl : q = p := of_decide_eq_true heq
    rw [hgiven k hk] at hx
    rcases hp with hq | he <;> obtain hw | hh := isAt_of_given hx
    · exact absurd ((hplace q).unique hq hw) nofun
    · exact absurd ((hplace q).unique hq hh) nofun
    · exact absurd ((hplace q).unique he hw) nofun
    · exact absurd ((hplace q).unique he hh) nofun
  · refine ⟨s.ledger.written, fun k hk => ?_⟩
    rw [hgiven k hk]
    rcases writing_ledger s k with hnil | ⟨x, hx, hone⟩
    · exact .inl (by rw [hnil, List.append_nil])
    · exact .inr ⟨x, hx, by rw [hone]⟩
  · intro k hk
    refine (List.pairwise_map.mp (hsorted k hk)).imp ?_
    intro x y hlt c c' t hx hy hc hc'
    exact hb.dispatches.order x.1 y.1 c c' x.2 y.2 hlt hx hy t hc hc'

/-! ## A run with an overflow -/

/-- A sink whose calls succeed. -/
def quietSink (E : Type) : Sink E := ⟨Unit, (), fun _ _ => ((), false), fun _ => ((), false)⟩

/-- A sink whose every `write` throws. -/
def brokenSink (E : Type) : Sink E := ⟨Unit, (), fun _ _ => ((), true), fun _ => ((), false)⟩

/-- A queue of two that evicts. -/
def evicting : Config := ⟨{ queueCapacity := 2, overflow := .dropOldest, batchSize := 2 }, true⟩

/-- Thread `t` makes its next steps. -/
def steps (t : ℕ) (oks : List Bool) : List (Action ℕ) := oks.map (.thread t)

/-- Three calls on a queue of two: the last one evicts the event of the first, and the
worker writes the event of the second to a quiet and a broken sink. -/
def overflowRun : List (Action ℕ) :=
  .dispatch 0 10 :: steps 0 [true, true, true, true] ++
  .dispatch 1 11 :: steps 1 [true, true, true, true] ++
  .dispatch 0 12 :: steps 0 [true, false, false, true, true, true, true, true, true] ++
  [true, true, true, true, false, true, true, true, true, true, true, true].map .worker

theorem dispatcher_conserves_overflowRun :
    ∃ s, (machine ℕ evicting).run (.initial [quietSink ℕ, brokenSink ℕ]) overflowRun = some s ∧
      (s.shutdown, s.history.evicted) = (.notStarted, [(0, 0, 2)]) ∧ Conserved s := by
  have hrun : ((machine ℕ evicting).run (.initial [quietSink ℕ, brokenSink ℕ]) overflowRun).map
      (fun s => (s.shutdown, s.history.evicted)) = some (.notStarted, [(0, 0, 2)]) := by decide
  obtain ⟨s, hs, heq⟩ := Option.map_eq_some_iff.mp hrun
  exact ⟨s, hs, heq, dispatcher_conserves hs (Prod.mk.inj heq).1⟩

end AsyncDispatcher

end Logspine
