import Logspine.Dispatches

/-!
# Flush requests: who has them, and where they stand in the queue

Invariants of the ledger's moves about flush ids. `Requests` says that a drawn id that
is not completed has a holder as long as nobody has begun to shut down, that
there is never a second holder, and that a request never stands before the place
where the queue ended when its id was drawn. `Barrier` ties the ids of the running
flush calls and the completed id to the queue.
-/

namespace Logspine

namespace AsyncDispatcher

variable {E : Type} {cfg : Config} {l l' : Ledger E}

/-! ## Drawn ids and holders -/

/-- The id `i` was drawn when `d` items had obtained a place. -/
def Ledger.DrawnAt (l : Ledger E) (i d : ℕ) : Prop := 1 ≤ i ∧ l.draws[i - 1]? = some d

/-- A place a flush request can be in. -/
inductive Place where
  /-- in the hands of a client thread -/
  | thread (t : ℕ) : Place
  /-- in the queue -/
  | queue (ticket : ℕ) : Place
  /-- in the hands of the worker -/
  | worker (ticket : ℕ) : Place

/-- The flush request `i` is at a place. -/
def Ledger.Holds (l : Ledger E) (i : ℕ) : Place → Prop
  | .thread t => (l.threads t).request = some i
  | .queue p => l.taken ≤ p ∧ l.accepted[p]? = some (.flushRequest i)
  | .worker p => (p, QueueItem.flushRequest i) ∈ l.held

theorem Ledger.holds_give_same {l : Ledger E} {t i : ℕ} {c : Client E} :
    (l.give t c).Holds i (.thread t) ↔ c.request = some i := by
  rw [Ledger.Holds, Ledger.give_same]

/-- The other threads hold what they held. -/
theorem Ledger.holds_give_of_ne {l : Ledger E} {t u i : ℕ} {c : Client E} (hne : u ≠ t) :
    (l.give t c).Holds i (.thread u) ↔ l.Holds i (.thread u) := by
  rw [Ledger.Holds, Ledger.give_of_ne _ _ hne, Ledger.Holds]

/-- Which flush requests are alive, and where. -/
structure Requests (l : Ledger E) : Prop where
  drawn : ∀ t i, (l.threads t).request = some i → ∃ d, l.DrawnAt i d
  placed : ∀ p i, l.accepted[p]? = some (.flushRequest i) → ∃ d, l.DrawnAt i d ∧ d ≤ p
  bounded : ∀ d ∈ l.draws, d ≤ l.accepted.length
  unique : ∀ i a b, l.Holds i a → l.Holds i b → a = b
  alive : ∀ i d, l.DrawnAt i d →
    WithTop.some i ≤ l.completed ∨ (∃ a, l.Holds i a) ∨ (l.stopping = true ∧ l.stored = false)
  stored : l.stored = true → l.completed = ⊤

theorem requests_initial (sinks : List (Sink E)) : Requests (.initial sinks) where
  drawn _ _ h := nomatch h
  placed _ _ h := nomatch h
  bounded _ h := absurd h List.not_mem_nil
  unique _ a _ ha := by
    cases a with
    | thread t => cases ha
    | queue p => cases ha.2
    | worker p => cases ha
  alive _ _ h := nomatch h.2
  stored h := nomatch h

theorem Ledger.DrawnAt.concat {i d : ℕ} (h : l.DrawnAt i d) (d' : ℕ) :
    ({ l with draws := l.draws ++ [d'] } : Ledger E).DrawnAt i d :=
  ⟨h.1, getElem?_concat_of_some d' h.2⟩

namespace Requests

/-- Every holder holds a drawn id. -/
theorem drawn_of_holds (hl : Tickets l) (h : Requests l) {i : ℕ} {a : Place} (ha : l.Holds i a) :
    ∃ d, l.DrawnAt i d := by
  cases a with
  | thread t => exact h.drawn t i ha
  | queue p =>
    obtain ⟨d, hd, -⟩ := h.placed p i ha.2
    exact ⟨d, hd⟩
  | worker p =>
    obtain ⟨d, hd, -⟩ := h.placed p i (hl.items _ (List.mem_append_right _ ha))
    exact ⟨d, hd⟩

/-- Each holder after the move held before it. -/
theorem unique_of_shrink (h : Requests l) (hs : ∀ i a, l'.Holds i a → l.Holds i a) (i : ℕ)
    (a b : Place) (ha : l'.Holds i a) (hb : l'.Holds i b) : a = b :=
  h.unique i a b (hs i a ha) (hs i b hb)

/-- Each holder after the move held before it, or took over from `old`. -/
theorem unique_of_transfer (h : Requests l) (old new : Place)
    (hs : ∀ i a, l'.Holds i a →
      l.Holds i a ∨ (a = new ∧ l.Holds i old ∧ ¬ l'.Holds i old)) (i : ℕ)
    (a b : Place) (ha : l'.Holds i a) (hb : l'.Holds i b) : a = b := by
  rcases hs i a ha with ha' | ⟨rfl, hold, hgone⟩
  · rcases hs i b hb with hb' | ⟨rfl, hold, hgone⟩
    · exact h.unique i a b ha' hb'
    · exact absurd (h.unique i a old ha' hold ▸ ha) hgone
  · rcases hs i b hb with hb' | ⟨rfl, -, -⟩
    · exact absurd (h.unique i b old hb' hold ▸ hb) hgone
    · rfl

/-- What keeps the ids alive: every holder passes its request on, completes it, or has
seen `stopping_`. -/
theorem alive_of_pass (h : Requests l) (hdraws : l'.draws = l.draws)
    (hstored : l'.stored = true → l'.completed = ⊤) (hmono : l.completed ≤ l'.completed)
    (hstop : l.stopping = true → l'.stopping = true)
    (hpass : ∀ i a, l.Holds i a →
      WithTop.some i ≤ l'.completed ∨ (∃ b, l'.Holds i b) ∨ l'.stopping = true) (i d : ℕ)
    (hd : l'.DrawnAt i d) :
    WithTop.some i ≤ l'.completed ∨ (∃ a, l'.Holds i a) ∨
      (l'.stopping = true ∧ l'.stored = false) := by
  have hstopping : l'.stopping = true → WithTop.some i ≤ l'.completed ∨ (∃ a, l'.Holds i a) ∨
      (l'.stopping = true ∧ l'.stored = false) := by
    intro hs
    cases hst : l'.stored with
    | false => exact .inr (.inr ⟨hs, rfl⟩)
    | true => exact .inl (hstored hst ▸ le_top)
  rw [Ledger.DrawnAt, hdraws] at hd
  rcases h.alive i d hd with hc | ⟨a, ha⟩ | ⟨hs, -⟩
  · exact .inl (hc.trans hmono)
  · rcases hpass i a ha with hc | hb | hs
    · exact .inl hc
    · exact .inr (.inl hb)
    · exact hstopping hs
  · exact hstopping (hstop hs)

/-- Thread `t` carries something else, but has the same request in its hands. -/
theorem carry (h : Requests l) {t : ℕ} {c : Client E} (hr : c.request = (l.threads t).request) :
    Requests (l.give t c) := by
  have hsame : ∀ u, ((l.give t c).threads u).request = (l.threads u).request :=
    Ledger.forall_give (P := fun u x => x.request = (l.threads u).request) hr fun _ _ => rfl
  have hholds : ∀ i a, (l.give t c).Holds i a ↔ l.Holds i a := by
    intro i a
    cases a with
    | thread u => exact (hsame u).congr_left
    | queue p => exact Iff.rfl
    | worker p => exact Iff.rfl
  refine ⟨fun u i hi => h.drawn u i (hsame u ▸ hi), h.placed, h.bounded, ?_, fun i d hd => ?_,
    h.stored⟩
  · exact h.unique_of_shrink fun i a ha => (hholds i a).mp ha
  · simp only [hholds]
    exact h.alive i d hd

/-- An event obtains a place. -/
theorem placeEvent (h : Requests l) (c : ℕ) (e : E) :
    Requests { l with accepted := l.accepted ++ [QueueItem.event c e] } := by
  have hplaced : ∀ {p i : ℕ}, (l.accepted ++ [QueueItem.event c e])[p]? =
      some (.flushRequest i) ↔ l.accepted[p]? = some (.flushRequest i) := by
    intro p i
    refine ⟨fun hp => ?_, getElem?_concat_of_some _⟩
    rcases getElem?_concat hp with hp | ⟨-, heq⟩
    · exact hp
    · cases heq
  have hholds : ∀ i a, Ledger.Holds { l with accepted := l.accepted ++ [QueueItem.event c e] } i a ↔
      l.Holds i a := by
    intro i a
    cases a with
    | thread u => exact Iff.rfl
    | queue p => exact and_congr_right fun _ => hplaced
    | worker p => exact Iff.rfl
  refine ⟨h.drawn, fun p i hp => h.placed p i (hplaced.mp hp), fun d hd => ?_, ?_,
    fun i d hd => ?_, h.stored⟩
  · rw [List.length_append]
    exact (h.bounded d hd).trans (Nat.le_add_right _ _)
  · exact h.unique_of_shrink fun i a ha => (hholds i a).mp ha
  · simp only [hholds]
    exact h.alive i d hd

/-- A flush call draws its id. -/
theorem draw (hl : Tickets l) (h : Requests l) {t : ℕ} {c : Client E}
    (ht : (l.threads t).request = none) (hc : c.request = some (l.draws.length + 1)) :
    Requests ({ l with draws := l.draws ++ [l.accepted.length] }.give t c) := by
  have hnew : (l.draws ++ [l.accepted.length])[l.draws.length + 1 - 1]? =
      some l.accepted.length := List.getElem?_concat_length
  have hgive : ∀ {i a}, l.Holds i a →
      ({ l with draws := l.draws ++ [l.accepted.length] }.give t c).Holds i a := by
    intro i a ha
    cases a with
    | thread u =>
      rcases eq_or_ne u t with rfl | hne
      · exact absurd (ht.symm.trans ha) nofun
      · exact (Ledger.holds_give_of_ne hne).mpr ha
    | queue p => exact ha
    | worker p => exact ha
  have hback : ∀ i a, ({ l with draws := l.draws ++ [l.accepted.length] }.give t c).Holds i a →
      l.Holds i a ∨ (a = .thread t ∧ i = l.draws.length + 1) := by
    intro i a ha
    cases a with
    | thread u =>
      rcases eq_or_ne u t with rfl | hne
      · rw [Ledger.holds_give_same, hc] at ha
        exact .inr ⟨rfl, (Option.some.inj ha).symm⟩
      · exact .inl ((Ledger.holds_give_of_ne hne).mp ha)
    | queue p => exact .inl ha
    | worker p => exact .inl ha
  -- nobody held the id before it was drawn
  have hfresh : ∀ a, ¬ l.Holds (l.draws.length + 1) a := by
    intro a ha
    obtain ⟨d, -, hd⟩ := h.drawn_of_holds hl ha
    exact lt_irrefl _ (List.getElem?_eq_some_iff.mp hd).1
  refine ⟨?_, ?_, ?_, ?_, ?_, h.stored⟩
  · refine Ledger.forall_give (P := fun _ x => ∀ i, x.request = some i →
      ∃ d, Ledger.DrawnAt { l with draws := l.draws ++ [l.accepted.length] } i d)
      (fun i hi => ?_) fun u _ i hi => ?_
    · obtain rfl := Option.some.inj (hc.symm.trans hi)
      exact ⟨_, Nat.le_add_left _ _, hnew⟩
    · obtain ⟨d, hd⟩ := h.drawn u i hi
      exact ⟨d, hd.concat _⟩
  · intro p i hp
    obtain ⟨d, hd, hle⟩ := h.placed p i hp
    exact ⟨d, hd.concat _, hle⟩
  · intro d hd
    rcases List.mem_append.mp hd with hd | hd
    · exact h.bounded d hd
    · exact (List.mem_singleton.mp hd).le
  · intro i a b ha hb
    rcases hback i a ha with ha | ⟨rfl, rfl⟩
    · rcases hback i b hb with hb | ⟨rfl, rfl⟩
      · exact h.unique i a b ha hb
      · exact absurd ha (hfresh a)
    · rcases hback _ b hb with hb | ⟨rfl, -⟩
      · exact absurd hb (hfresh b)
      · rfl
  · rintro i d ⟨hi, hd⟩
    rcases getElem?_concat hd with hd | ⟨hlen, -⟩
    · rcases h.alive i d ⟨hi, hd⟩ with hc' | ⟨a, ha⟩ | hs
      · exact .inl hc'
      · exact .inr (.inl ⟨a, hgive ha⟩)
      · exact .inr (.inr hs)
    · obtain rfl : i = l.draws.length + 1 := by omega
      refine .inr (.inl ⟨.thread t, ?_⟩)
      rw [Ledger.holds_give_same, hc]

/-- A flush request moves from a thread's hands into the queue. -/
theorem placeRequest (hl : Tickets l) (h : Requests l) {t i : ℕ} {c : Client E}
    (ht : (l.threads t).request = some i) (hc : c.request = none) :
    Requests ({ l with accepted := l.accepted ++ [QueueItem.flushRequest i] }.give t c) := by
  have hback : ∀ j a, ({ l with accepted := l.accepted ++ [QueueItem.flushRequest i] }.give t
      c).Holds j a → l.Holds j a ∨ (a = .queue l.accepted.length ∧ l.Holds j (.thread t) ∧
        ¬ ({ l with accepted := l.accepted ++ [QueueItem.flushRequest i] }.give t c).Holds j
          (.thread t)) := by
    intro j a ha
    cases a with
    | thread u =>
      rcases eq_or_ne u t with rfl | hne
      · rw [Ledger.holds_give_same, hc] at ha
        cases ha
      · exact .inl ((Ledger.holds_give_of_ne hne).mp ha)
    | queue p =>
      obtain ⟨hp, hj⟩ := ha
      rcases getElem?_concat hj with hj | ⟨rfl, heq⟩
      · exact .inl ⟨hp, hj⟩
      · cases heq
        refine .inr ⟨rfl, ht, ?_⟩
        rw [Ledger.holds_give_same, hc]
        exact nofun
    | worker p => exact .inl ha
  refine ⟨?_, ?_, ?_, h.unique_of_transfer _ _ hback, ?_, h.stored⟩
  · refine Ledger.forall_give (P := fun _ x => ∀ i, x.request = some i → ∃ d, l.DrawnAt i d)
      (fun j hj => ?_) fun u _ => h.drawn u
    rw [hc] at hj
    cases hj
  · intro p j hp
    rcases getElem?_concat hp with hp | ⟨rfl, heq⟩
    · exact h.placed p j hp
    · cases heq
      obtain ⟨d, hd⟩ := h.drawn t i ht
      exact ⟨d, hd, h.bounded d (List.mem_of_getElem? hd.2)⟩
  · intro d hd
    exact (h.bounded d hd).trans (List.length_append ▸ Nat.le_add_right _ _)
  · refine h.alive_of_pass rfl h.stored le_rfl id fun j a ha => .inr (.inl ?_)
    cases a with
    | thread u =>
      rcases eq_or_ne u t with rfl | hne
      · obtain rfl := Option.some.inj (ht.symm.trans ha)
        exact ⟨.queue l.accepted.length, hl.bound, List.getElem?_concat_length⟩
      · exact ⟨.thread u, (Ledger.holds_give_of_ne hne).mpr ha⟩
    | queue p => exact ⟨.queue p, ha.1, getElem?_concat_of_some _ ha.2⟩
    | worker p => exact ⟨.worker p, ha⟩

/-- A producer takes an item out of the queue; a flush request stays in its hands. -/
theorem evict (h : Requests l) {t call : ℕ} {x : QueueItem E} {c : Client E}
    (hx : l.accepted[l.taken]? = some x) (ht : (l.threads t).request = none)
    (hc : c.request = x.flushId) :
    Requests
      ({ l with taken := l.taken + 1, evicted := l.evicted ++ [(l.taken, t, call)] }.give t c) := by
  have hitem : ∀ {j}, x.flushId = some j → x = .flushRequest j := by
    intro j hj
    cases x with
    | event call e => cases hj
    | flushRequest i => exact congrArg _ (Option.some.inj hj)
  have hback : ∀ j a, ({ l with
      taken := l.taken + 1, evicted := l.evicted ++ [(l.taken, t, call)] }.give t c).Holds j a →
      l.Holds j a ∨ (a = .thread t ∧ l.Holds j (.queue l.taken) ∧
        ¬ ({ l with taken := l.taken + 1, evicted := l.evicted ++ [(l.taken, t, call)] }.give t
          c).Holds j (.queue l.taken)) := by
    intro j a ha
    cases a with
    | thread u =>
      rcases eq_or_ne u t with rfl | hne
      · rw [Ledger.holds_give_same, hc] at ha
        exact .inr ⟨rfl, ⟨le_rfl, hitem ha ▸ hx⟩, fun hq => Nat.not_succ_le_self _ hq.1⟩
      · exact .inl ((Ledger.holds_give_of_ne hne).mp ha)
    | queue p => exact .inl ⟨(Nat.le_succ _).trans ha.1, ha.2⟩
    | worker p => exact .inl ha
  refine ⟨?_, h.placed, h.bounded, h.unique_of_transfer _ _ hback, ?_, h.stored⟩
  · refine Ledger.forall_give (P := fun _ x => ∀ i, x.request = some i → ∃ d, l.DrawnAt i d)
      (fun j hj => ?_) fun u _ => h.drawn u
    obtain ⟨d, hd, -⟩ := h.placed _ j (hitem (hc.symm.trans hj) ▸ hx)
    exact ⟨d, hd⟩
  · refine h.alive_of_pass rfl h.stored le_rfl id fun j a ha => .inr (.inl ?_)
    cases a with
    | thread u =>
      rcases eq_or_ne u t with rfl | hne
      · exact absurd (ht.symm.trans ha) nofun
      · exact ⟨.thread u, (Ledger.holds_give_of_ne hne).mpr ha⟩
    | queue p =>
      obtain ⟨hp, hj⟩ := ha
      rcases hp.eq_or_lt with rfl | hlt
      · refine ⟨.thread t, ?_⟩
        obtain rfl := Option.some.inj (hx.symm.trans hj)
        rw [Ledger.holds_give_same, hc]
        rfl
      · exact ⟨.queue p, hlt, hj⟩
    | worker p => exact ⟨.worker p, ha⟩

/-- The worker takes the oldest item out of the queue. -/
theorem hand (h : Requests l) {x : QueueItem E} (hx : l.accepted[l.taken]? = some x) :
    Requests { l with taken := l.taken + 1, held := l.held ++ [(l.taken, x)] } := by
  have hback : ∀ j a, Ledger.Holds { l with
      taken := l.taken + 1, held := l.held ++ [(l.taken, x)] } j a →
      l.Holds j a ∨ (a = .worker l.taken ∧ l.Holds j (.queue l.taken) ∧
        ¬ Ledger.Holds { l with taken := l.taken + 1, held := l.held ++ [(l.taken, x)] } j
          (.queue l.taken)) := by
    intro j a ha
    cases a with
    | thread u => exact .inl ha
    | queue p => exact .inl ⟨(Nat.le_succ _).trans ha.1, ha.2⟩
    | worker p =>
      rcases List.mem_append.mp ha with ha | ha
      · exact .inl ha
      · obtain ⟨rfl, rfl⟩ := Prod.mk.inj (List.mem_singleton.mp ha)
        exact .inr ⟨rfl, ⟨le_rfl, hx⟩, fun hq => Nat.not_succ_le_self _ hq.1⟩
  refine ⟨h.drawn, h.placed, h.bounded, h.unique_of_transfer _ _ hback, ?_, h.stored⟩
  refine h.alive_of_pass rfl h.stored le_rfl id fun j a ha => .inr (.inl ?_)
  cases a with
  | thread u => exact ⟨.thread u, ha⟩
  | queue p =>
    obtain ⟨hp, hj⟩ := ha
    rcases hp.eq_or_lt with rfl | hlt
    · obtain rfl := Option.some.inj (hx.symm.trans hj)
      exact ⟨.worker l.taken, List.mem_append_right _ (List.mem_singleton_self _)⟩
    · exact ⟨.queue p, hlt, hj⟩
  | worker p => exact ⟨.worker p, List.mem_append_left _ ha⟩

/-- The worker lets go of items; what it lets go of is completed, or is no request, or
the dispatcher is stopping. -/
theorem release (h : Requests l) {held : List (Ticketed E)} {completed : WithTop ℕ}
    (hsub : ∀ x ∈ held, x ∈ l.held) (hmono : l.completed ≤ completed)
    (hgone : ∀ p i, (p, QueueItem.flushRequest i) ∈ l.held →
      (p, QueueItem.flushRequest i) ∈ held ∨ WithTop.some i ≤ completed ∨ l.stopping = true) :
    Requests { l with held := held, completed := completed } := by
  have hstored : l.stored = true → completed = ⊤ :=
    fun hs => top_le_iff.mp (h.stored hs ▸ hmono)
  refine ⟨h.drawn, h.placed, h.bounded, h.unique_of_shrink fun i a ha => ?_, ?_, hstored⟩
  · cases a with
    | thread u => exact ha
    | queue p => exact ha
    | worker p => exact hsub _ ha
  · refine h.alive_of_pass rfl hstored hmono id fun i a ha => ?_
    cases a with
    | thread u => exact .inr (.inl ⟨.thread u, ha⟩)
    | queue p => exact .inr (.inl ⟨.queue p, ha⟩)
    | worker p =>
      rcases hgone p i ha with hin | hc | hs
      · exact .inr (.inl ⟨.worker p, hin⟩)
      · exact .inl hc
      · exact .inr (.inr hs)

/-- A thread that saw `stopping_` gives up its request. -/
theorem abandon (h : Requests l) (hs : l.stopping = true) {t : ℕ} {c : Client E}
    (hc : c.request = none) : Requests (l.give t c) := by
  have hback : ∀ i a, (l.give t c).Holds i a → l.Holds i a := by
    intro i a ha
    cases a with
    | thread u =>
      rcases eq_or_ne u t with rfl | hne
      · rw [Ledger.holds_give_same, hc] at ha
        cases ha
      · exact (Ledger.holds_give_of_ne hne).mp ha
    | queue p => exact ha
    | worker p => exact ha
  refine ⟨fun u i hi => h.drawn u i (hback i (.thread u) hi), h.placed, h.bounded,
    h.unique_of_shrink hback, ?_, h.stored⟩
  exact h.alive_of_pass rfl h.stored le_rfl id fun _ _ _ => .inr (.inr hs)

theorem move {b : Entry E} (hl : Tickets l) (h : Requests l)
    (m : Ledger.Move cfg b l l') : Requests l' := by
  cases m with
  | @beginDispatch _ t e ht =>
    have h' : Requests { l with dispatched := l.dispatched ++ [(t, e)] } := { h with }
    exact h'.carry (by rw [ht])
  | placeEvent => exact (h.placeEvent _ _).carry rfl
  | @refuse _ t c e ht hn hr =>
    have h' : Requests { l with drops := l.drops ++ [Drop.refused c] } := { h with }
    exact h'.carry rfl
  | @endDispatch _ t c e ht =>
    have h' : Requests { l with returned := l.returned ++ [c] } := { h with }
    exact h'.carry (by rw [ht])
  | evict ho hx hp hn hr => exact h.evict hx hr rfl
  | @count _ t p ht =>
    have h' : Requests { l with drops := l.drops ++ [Drop.evicted p] } := { h with }
    exact h'.carry rfl
  | beginFlush ht => exact h.carry (by rw [ht])
  | draw ht => exact h.draw hl (by rw [ht]; rfl) rfl
  | placeRequest ht => exact h.placeRequest hl ht rfl
  | abandon hs => exact h.abandon hs rfl
  | raise hs hi =>
    exact { h.release (fun _ hx => hx) hi.le fun _ _ hm => .inl hm with }
  | endFlush ht => exact h.carry (by rw [ht])
  | hand hx => exact h.hand hx
  | lose hs =>
    exact { h.release (fun _ hx => absurd hx List.not_mem_nil) le_rfl
      fun _ _ _ => .inr (.inr hs) with }
  | finishEvent hx =>
    refine { h.release (fun _ hm => hx ▸ List.mem_cons_of_mem _ hm) le_rfl
      fun p i hm => ?_ with }
    rw [hx] at hm
    rcases List.mem_cons.mp hm with heq | hm
    · cases heq
    · exact .inl hm
  | finishFlush hx hp hle hc =>
    refine { h.release (fun _ hm => hx ▸ List.mem_cons_of_mem _ hm) ?_ fun p i hm => ?_ with }
    · rcases hc with rfl | ⟨hlt, -⟩
      · exact le_rfl
      · exact hlt.le
    · rw [hx] at hm
      rcases List.mem_cons.mp hm with heq | hm
      · cases heq
        exact .inr (.inl hle)
      · exact .inl hm
  | stop =>
    refine { h with alive := ?_ }
    exact h.alive_of_pass rfl h.stored le_rfl (fun _ => rfl) fun _ _ _ => .inr (.inr rfl)
  | store hs =>
    refine { h with alive := fun _ _ _ => .inl le_top, stored := fun _ => rfl }
  | _ => exact { h with }

end Requests

/-! ## Ids against the queue -/

/-- The `dispatch` calls that had returned when a flush call began. -/
def FlushCall.before : FlushCall → List ℕ
  | none => []
  | started before | drawn _ before => before

/-- How the running flush calls and the completed id stand to the queue. -/
structure Barrier (l : Ledger E) : Prop where
  ordered : l.draws.Pairwise (· ≤ ·)
  before : ∀ t, ∀ c ∈ (l.threads t).flushing.before, c ∈ l.returned
  drawn : ∀ t i before, (l.threads t).flushing = .drawn i before →
    ∃ d, l.DrawnAt i d ∧ ∀ c ∈ before, ∀ (p : ℕ) (e : E),
      l.accepted[p]? = some (.event c e) → p < d
  completed : l.stopping = false →
    l.completed = WithTop.some 0 ∨
      ∃ p j, l.completed = WithTop.some j ∧ (p, QueueItem.flushRequest j) ∈ l.done
  lost : l.stopping = false → l.lost = []

theorem barrier_initial (sinks : List (Sink E)) : Barrier (.initial sinks) where
  ordered := List.Pairwise.nil
  before _ _ h := absurd h List.not_mem_nil
  drawn _ _ _ h := nomatch h
  completed _ := .inl rfl
  lost _ := rfl

/-- Later ids were drawn when the queue was longer. -/
theorem Barrier.le_of_le (h : Barrier l) {i j d d' : ℕ} (hij : i ≤ j) (hd : l.DrawnAt i d)
    (hd' : l.DrawnAt j d') : d ≤ d' := by
  obtain ⟨hi, hd⟩ := hd
  obtain ⟨hj, hd'⟩ := hd'
  obtain ⟨hli, rfl⟩ := List.getElem?_eq_some_iff.mp hd
  obtain ⟨hlj, rfl⟩ := List.getElem?_eq_some_iff.mp hd'
  rcases hij.eq_or_lt with rfl | hlt
  · exact le_rfl
  · exact List.pairwise_iff_getElem.mp h.ordered _ _ hli hlj (by omega)

namespace Barrier

/-- Thread `t` carries something else, but is in the same flush call. -/
theorem carry (h : Barrier l) {t : ℕ} {c : Client E} (hf : c.flushing = (l.threads t).flushing) :
    Barrier (l.give t c) where
  ordered := h.ordered
  before := Ledger.forall_give (P := fun _ x => ∀ k ∈ x.flushing.before, k ∈ l.returned)
    (hf ▸ h.before t) fun u _ => h.before u
  drawn := Ledger.forall_give (P := fun _ x => ∀ i before, x.flushing = .drawn i before →
    ∃ d, l.DrawnAt i d ∧ ∀ c ∈ before, ∀ (p : ℕ) (e : E),
      l.accepted[p]? = some (.event c e) → p < d) (hf ▸ h.drawn t) fun u _ => h.drawn u
  completed := h.completed
  lost := h.lost

/-- Thread `t` is in no flush call any more. -/
theorem leave (h : Barrier l) {t : ℕ} {c : Client E} (hf : c.flushing = .none) :
    Barrier (l.give t c) where
  ordered := h.ordered
  before := Ledger.forall_give (P := fun _ x => ∀ k ∈ x.flushing.before, k ∈ l.returned)
    (hf ▸ nofun) fun u _ => h.before u
  drawn := Ledger.forall_give (P := fun _ x => ∀ i before, x.flushing = .drawn i before →
    ∃ d, l.DrawnAt i d ∧ ∀ c ∈ before, ∀ (p : ℕ) (e : E),
      l.accepted[p]? = some (.event c e) → p < d) (hf ▸ nofun) fun u _ => h.drawn u
  completed := h.completed
  lost := h.lost

/-- An item obtains a place; if it is an event, its call has not returned. -/
theorem place (h : Barrier l) {x : QueueItem E}
    (hx : ∀ c e, x = .event c e → c ∉ l.returned) :
    Barrier { l with accepted := l.accepted ++ [x] } := by
  refine { h with drawn := fun t i before hf => ?_ }
  obtain ⟨d, hd, hlt⟩ := h.drawn t i before hf
  refine ⟨d, hd, fun c hc p e hp => ?_⟩
  rcases getElem?_concat hp with hp | ⟨-, rfl⟩
  · exact hlt c hc p e hp
  · refine absurd (h.before t c ?_) (hx c e rfl)
    rw [hf]
    exact hc

theorem move {b : Entry E} (hc : Clients l) (hd : Dispatches l)
    (hr : Requests l) (h : Barrier l) (m : Ledger.Move cfg b l l') : Barrier l' := by
  cases m with
  | @beginDispatch _ t e ht =>
    have h' : Barrier { l with dispatched := l.dispatched ++ [(t, e)] } := { h with }
    exact h'.leave rfl
  | @placeEvent _ t c e ht =>
    refine (h.place (x := .event c e) fun k x hk hm => ?_).carry rfl
    cases hk
    exact (hd.returned c hm).2 t e ((hc t).pending _ ht)
  | @refuse _ t c e ht =>
    have h' : Barrier { l with drops := l.drops ++ [Drop.refused c] } := { h with }
    exact h'.carry rfl
  | @endDispatch _ t c e ht =>
    have h' : Barrier { l with returned := l.returned ++ [c] } :=
      { h with before := fun u k hk => List.mem_append_left _ (h.before u k hk) }
    exact h'.leave rfl
  | @evict _ t x c =>
    have h' : Barrier { l with taken := l.taken + 1, evicted := l.evicted ++ [(l.taken, t, c)] } :=
      { h with }
    exact h'.carry rfl
  | @count _ t p ht =>
    have h' : Barrier { l with drops := l.drops ++ [Drop.evicted p] } := { h with }
    exact h'.carry rfl
  | beginFlush ht =>
    refine { h with before := ?_, drawn := ?_ }
    · exact Ledger.forall_give (P := fun _ x => ∀ k ∈ x.flushing.before, k ∈ l.returned)
        (fun _ hk => hk) fun u _ => h.before u
    · exact Ledger.forall_give (P := fun _ x => ∀ i before, x.flushing = .drawn i before →
        ∃ d, l.DrawnAt i d ∧ ∀ c ∈ before, ∀ (p : ℕ) (e : E),
          l.accepted[p]? = some (.event c e) → p < d) nofun fun u _ => h.drawn u
  | @draw _ t before ht =>
    have hbefore : ∀ k ∈ before, k ∈ l.returned := by
      have hb := h.before t
      rw [ht] at hb
      exact hb
    refine { h with ordered := ?_, before := ?_, drawn := ?_ }
    · refine List.pairwise_append.mpr ⟨h.ordered, List.pairwise_singleton _ _, ?_⟩
      intro d hd d' hd'
      obtain rfl := List.mem_singleton.mp hd'
      exact hr.bounded d hd
    · exact Ledger.forall_give (P := fun _ x => ∀ k ∈ x.flushing.before, k ∈ l.returned)
        hbefore fun u _ => h.before u
    · refine Ledger.forall_give (P := fun _ x => ∀ i before, x.flushing = .drawn i before →
        ∃ d, Ledger.DrawnAt { l with draws := l.draws ++ [l.accepted.length] } i d ∧
          ∀ c ∈ before, ∀ (p : ℕ) (e : E), l.accepted[p]? = some (.event c e) → p < d)
        (fun i b hb => ?_) fun u _ i b hb => ?_
      · obtain ⟨rfl, rfl⟩ := FlushCall.drawn.inj hb
        exact ⟨l.accepted.length, ⟨Nat.le_add_left _ _, List.getElem?_concat_length⟩,
          fun _ _ p e hp => (List.getElem?_eq_some_iff.mp hp).1⟩
      · obtain ⟨d, hdrawn, hlt⟩ := h.drawn u i b hb
        exact ⟨d, hdrawn.concat _, hlt⟩
  | @placeRequest _ t i ht => exact (h.place (x := .flushRequest i) nofun).carry rfl
  | abandon => exact h.carry rfl
  | raise hs => exact { h with completed := fun hn => absurd (hs.symm.trans hn) nofun }
  | endFlush ht => exact h.leave rfl
  | lose hs => exact { h with lost := fun hn => absurd (hs.symm.trans hn) nofun }
  | @finishEvent _ p c e rest hx hp =>
    refine { h with completed := fun hn => ?_ }
    rcases h.completed hn with h0 | ⟨q, j, hj, hm⟩
    · exact .inl h0
    · exact .inr ⟨q, j, hj, List.mem_append_left _ hm⟩
  | @finishFlush _ p i rest completed hx hp hle hc =>
    refine { h with completed := fun hn => ?_ }
    rcases hc with rfl | ⟨-, rfl⟩
    · rcases h.completed hn with h0 | ⟨q, j, hj, hm⟩
      · exact .inl h0
      · exact .inr ⟨q, j, hj, List.mem_append_left _ hm⟩
    · exact .inr ⟨p, i, rfl, List.mem_append_right _ (List.mem_singleton_self _)⟩
  | stop => exact { h with completed := nofun, lost := nofun }
  | store hs =>
    exact { h with completed := fun hn => absurd (hs.symm.trans hn) nofun }
  | _ => exact { h with }

end Barrier

/-! ## All the books together -/

/-- The invariant of the ledger. -/
structure Books (sinks : List (Sink E)) (l : Ledger E) : Prop where
  tickets : Tickets l
  calls : Calls sinks l
  clients : Clients l
  dispatches : Dispatches l
  counted : Counted l
  requests : Requests l
  barrier : Barrier l

theorem books_initial (sinks : List (Sink E)) : Books sinks (.initial sinks) where
  tickets := tickets_initial sinks
  calls := calls_initial sinks
  clients := clients_initial sinks
  dispatches := dispatches_initial sinks
  counted := counted_initial sinks
  requests := requests_initial sinks
  barrier := barrier_initial sinks

/-- Every move keeps the books. -/
theorem Books.move {sinks : List (Sink E)} {b : Entry E} (h : Books sinks l)
    (m : Ledger.Move cfg b l l') : Books sinks l' where
  tickets := h.tickets.move m
  calls := h.calls.move m
  clients := h.clients.move m
  dispatches := h.dispatches.move h.clients m
  counted := h.counted.move h.tickets m
  requests := h.requests.move h.tickets m
  barrier := h.barrier.move h.clients h.dispatches h.requests m

/-- The books of every reachable state. -/
theorem books_run {s : State E} {sinks : List (Sink E)} {as : List (Action E)}
    (h : (machine E cfg).run (.initial sinks) as = some s) : Books sinks s.ledger :=
  ledger_invariant (fun _ _ _ hi m => hi.move m) (books_initial sinks) h

end AsyncDispatcher

end Logspine
