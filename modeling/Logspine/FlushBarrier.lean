import Logspine.DroppedEvents

/-!
# `flush()` is a barrier

A flush call returns when some id at least its own has been completed. The request
that completed it stood behind every event placed before the call drew its id, and the
worker makes its calls in queue order, so those events are written before that
request's flush of the sinks.
-/

namespace Logspine

namespace AsyncDispatcher

variable {E : Type} {cfg : Config} {sinks : List (Sink E)} {l l' : Ledger E}
  {s₀ s₁ s s' : State E} {as bs : List (Action E)} {t : ℕ}

/-! ## One flush call through a run -/

/-- The thread is out of every call, or in the flush call that began when the calls
`before` had returned. -/
def Client.FlushesSince (before : List ℕ) (c : Client E) : Prop :=
  c = .idle ∨ c.flushing = .started before ∨ ∃ i, c.flushing = .drawn i before

theorem Client.FlushesSince.of_flushing {before : List ℕ} {c c' : Client E}
    (h : c.FlushesSince before) (hne : c ≠ .idle) (hf : c'.flushing = c.flushing) :
    c'.FlushesSince before := by
  rw [FlushesSince, hf]
  exact .inr (h.resolve_left hne)

/-- A move of which thread `t` begins no call keeps it in its flush call. -/
theorem Ledger.Move.flushesSince {b : Entry E} (m : Ledger.Move cfg b l l')
    (hb : ∀ call, b ≠ .begins t call) {before : List ℕ}
    (h : (l.threads t).FlushesSince before) : (l'.threads t).FlushesSince before := by
  have hgive : ∀ {u : ℕ} {c : Client E},
      (u = t → (l.threads u).FlushesSince before → c.FlushesSince before) →
      (Function.update l.threads u c t).FlushesSince before := by
    intro u c hc
    rcases eq_or_ne t u with rfl | hne
    · rw [Function.update_self]
      exact hc rfl h
    · rw [Function.update_of_ne hne]
      exact h
  cases m with
  | beginDispatch => exact hgive fun ht _ => absurd rfl (ht ▸ hb _)
  | beginFlush => exact hgive fun ht _ => absurd rfl (ht ▸ hb _)
  | placeEvent hu =>
    exact hgive fun _ hf => hf.of_flushing (fun heq => by rw [heq] at hu; cases hu) rfl
  | refuse hu =>
    exact hgive fun _ hf => hf.of_flushing (fun heq => by rw [heq] at hu; cases hu) rfl
  | endDispatch => exact hgive fun _ _ => .inl rfl
  | evict ho hx hp =>
    exact hgive fun _ hf => hf.of_flushing (fun heq => by rw [heq] at hp; cases hp) rfl
  | count hu =>
    exact hgive fun _ hf => hf.of_flushing (fun heq => by rw [heq] at hu; cases hu) rfl
  | draw hu =>
    refine hgive fun _ hf => .inr (.inr ⟨l.draws.length + 1, ?_⟩)
    rw [hu] at hf
    rcases hf with heq | heq | ⟨i, heq⟩
    · cases congrArg Client.flushing heq
    · rw [FlushCall.started.inj heq]
    · cases heq
  | placeRequest hu =>
    exact hgive fun _ hf => hf.of_flushing (fun heq => by rw [heq] at hu; cases hu) rfl
  | abandon hs hu =>
    exact hgive fun _ hf => hf.of_flushing (fun heq => by rw [heq] at hu; cases hu) rfl
  | endFlush => exact hgive fun _ _ => .inl rfl
  | _ => exact h

/-- A run in which thread `t` begins no call keeps it in its flush call. -/
theorem flushesSince_run {before : List ℕ} (hc : Control cfg s₁)
    (h : (s₁.ledger.threads t).FlushesSince before)
    (hb : ∀ a ∈ bs, a ≠ .flush t ∧ ∀ e, a ≠ .dispatch t e)
    (hr : (machine E cfg).run s₁ bs = some s) : (s.ledger.threads t).FlushesSince before := by
  refine (Machine.run_induction (P := fun bs s => (∀ a ∈ bs, a ≠ .flush t ∧ ∀ e, a ≠
    .dispatch t e) → Control cfg s ∧ (s.ledger.threads t).FlushesSince before)
    (fun _ => ⟨hc, h⟩) ?_ hr hb).2
  intro bs s a s' _ ih ha hb
  obtain ⟨hc, hf⟩ := ih fun a hm => hb a (List.mem_append_left _ hm)
  rcases step_refined hc ha with ⟨hc', ⟨-, hl⟩ | hm⟩
  · exact ⟨hc', hl ▸ hf⟩
  · refine ⟨hc', hm.flushesSince (fun call he => ?_) hf⟩
    obtain ⟨hflush, hdispatch⟩ := hb a (List.mem_append_right _ (List.mem_singleton_self _))
    rcases State.eq_of_entry_eq_begins he with rfl | ⟨e, rfl⟩
    · exact hflush rfl
    · exact hdispatch e rfl

/-! ## What is behind a completed id -/

/-- The sinks' calls so far split in two: the later ones flush every sink, and before them
every event of the calls `before` was written to every sink, unless it was refused
or taken out of the queue. -/
def State.BarrierFor (s : State E) (before : List ℕ) : Prop :=
  ∃ earlier later, s.history.calls = earlier ++ later ∧
    (∀ k < s.sinks.length, ⟨k, .flush⟩ ∈ later) ∧
    ∀ c ∈ before, Drop.refused c ∈ s.history.drops ∨
      ∃ p e, s.queue.accepted[p]? = some (.event c e) ∧
        (p ∈ s.history.evicted.map Prod.fst ∨
          ∀ k < s.sinks.length, ⟨k, .write (p, e)⟩ ∈ earlier)

theorem mem_script {n k : ℕ} (x : Ticketed E) (hk : k < n) : ⟨k, sinkOp x⟩ ∈ script n x :=
  mem_forEachSink.mpr ⟨hk, rfl⟩

/-- An item placed before one the worker finished with was taken out by a producer, or
the worker finished with it earlier. -/
theorem Tickets.done_before (h : Tickets l) (hlost : l.lost = []) {A C : List (Ticketed E)}
    {x : Ticketed E} (hdone : l.done = A ++ x :: C) {p : ℕ} {y : QueueItem E}
    (hp : l.accepted[p]? = some y) (hlt : p < x.1) :
    p ∈ l.evicted.map Prod.fst ∨ (p, y) ∈ A := by
  have hx : x.1 < l.taken := by
    refine h.handed_lt (List.mem_append_left _ (List.mem_append_left _ ?_))
    rw [hdone]
    exact List.mem_append_right _ List.mem_cons_self
  have hsorted := h.sorted
  rw [hdone, List.append_assoc, List.map_append, List.pairwise_append] at hsorted
  obtain he | hh := List.mem_append.mp
    (h.custody.mem_iff.mpr (List.mem_range.mpr (hlt.trans hx)))
  · exact .inl he
  · obtain ⟨z, hz, rfl⟩ := List.mem_map.mp hh
    obtain rfl := Option.some.inj (hp.symm.trans (h.items z hz))
    rw [Ledger.handed, hlost, List.append_nil, hdone, List.append_assoc] at hz
    rcases List.mem_append.mp hz with hA | hrest
    · exact .inr hA
    · -- the worker took the items after `x` later
      rcases List.mem_cons.mp hrest with rfl | hrest
      · exact absurd hlt (lt_irrefl _)
      · have hafter := (List.pairwise_cons.mp hsorted.2.1).1 z.1 (List.mem_map_of_mem hrest)
        exact absurd (hlt.trans hafter) (lt_irrefl _)

/-- What a completed id is worth, while nobody shuts down. -/
theorem Books.barrierFor (h : Books sinks s.ledger) (hs : s.stopping = false) {t i : ℕ}
    {before : List ℕ} (ht : (s.ledger.threads t).flushing = .drawn i before)
    (hi : WithTop.some i ≤ s.completedFlushId) : s.BarrierFor before := by
  have hn : s.sinks.length = sinks.length := h.calls.length_sinks
  obtain ⟨d, hdrawn, hbefore⟩ := h.barrier.drawn t i before ht
  rcases h.barrier.completed hs with h0 | ⟨p, j, hj, hdone⟩
  · -- id 0 is never drawn
    change s.completedFlushId = _ at h0
    rw [h0] at hi
    have hle : i ≤ 0 := WithTop.coe_le_coe.mp hi
    exact absurd (hdrawn.1.trans hle) (Nat.not_succ_le_zero 0)
  · change s.completedFlushId = _ at hj
    rw [hj] at hi
    have hij : i ≤ j := WithTop.coe_le_coe.mp hi
    have hitem := h.tickets.items _ (List.mem_append_left _ (List.mem_append_left _ hdone))
    obtain ⟨d', hdrawn', hle⟩ := h.requests.placed p j hitem
    have hdp : d ≤ p := (h.barrier.le_of_le hij hdrawn hdrawn').trans hle
    obtain ⟨A, C, hsplit⟩ := List.append_of_mem hdone
    have hcalls : s.history.calls = A.flatMap (script sinks.length) ++
        (script sinks.length (p, .flushRequest j) ++ C.flatMap (script sinks.length) ++
          started sinks.length s.worker.held (s.worker.progress s.sinks.length) ++
          farewell sinks.length (s.worker.closing s.sinks.length)) := by
      refine h.calls.calls.trans ?_
      rw [hsplit, List.flatMap_append, List.flatMap_cons]
      simp only [List.append_assoc]
      rfl
    refine ⟨_, _, hcalls, fun k hk => ?_, fun c hc => ?_⟩
    · refine List.mem_append_left _ (List.mem_append_left _ (List.mem_append_left _ ?_))
      exact mem_script _ (hn ▸ hk)
    · have hret : c ∈ s.history.returned := h.barrier.before t c (by rw [ht]; exact hc)
      obtain ⟨hlt, hcalling⟩ := h.dispatches.returned c hret
      obtain ⟨⟨u, e⟩, hue⟩ : ∃ x, s.ledger.dispatched[c]? = some x :=
        ⟨_, List.getElem?_eq_getElem hlt⟩
      rcases h.dispatches.fate c u e hue with hsettled | hpend
      · rcases List.mem_append.mp hsettled with hplaced | hrefused
        · obtain ⟨x, hx, hxc⟩ := List.mem_filterMap.mp hplaced
          obtain ⟨q, hq, rfl⟩ := List.getElem_of_mem hx
          cases hev : s.ledger.accepted[q] with
          | flushRequest i' => rw [hev] at hxc; cases hxc
          | event c' e' =>
            rw [hev] at hxc
            obtain rfl := Option.some.inj hxc
            have hq' : s.queue.accepted[q]? = some (.event c' e') :=
              List.getElem?_eq_some_iff.mpr ⟨hq, hev⟩
            refine .inr ⟨q, e', hq', ?_⟩
            have hqp : q < p := (hbefore c' hc q e' hq').trans_le hdp
            rcases h.tickets.done_before (h.barrier.lost hs) hsplit hq' hqp with he | hA
            · exact .inl he
            · exact .inr fun k hk => List.mem_flatMap.mpr ⟨_, hA, mem_script _ (hn ▸ hk)⟩
        · obtain ⟨x, hx, hxc⟩ := List.mem_filterMap.mp hrefused
          cases x with
          | evicted q => cases hxc
          | refused c' =>
            obtain rfl := Option.some.inj hxc
            exact .inl hx
      · exact absurd ((h.clients u).pending _ hpend) (hcalling u e)

/-! ## The barrier -/

theorem Pc.client_eq_idle {pc : Pc E} (h : pc.client = .idle) : pc = .idle := by
  cases pc with
  | idle => rfl
  | event call e owns pc => cases pc <;> cases congrArg Client.calling h
  | request id caller owns pc =>
    cases caller with
    | flush before => cases congrArg Client.flushing h
    | evictor call e owns' => cases congrArg Client.calling h
  | flushDraw before => cases congrArg Client.flushing h
  | flush id before pc => cases congrArg Client.flushing h

/-- The move that ends a flush call. -/
theorem Ledger.Move.endFlush_of_idle {b : Entry E} (m : Ledger.Move cfg b l l')
    {before : List ℕ} (hf : (l.threads t).FlushesSince before) (hne : l.threads t ≠ .idle)
    (hidle : l'.threads t = .idle) :
    ∃ i, (l.threads t).flushing = .drawn i before ∧ WithTop.some i ≤ l.completed ∧
      l' = l.give t .idle := by
  have hflush : (l.threads t).flushing ≠ .none := by
    rcases hf.resolve_left hne with hf | ⟨i, hf⟩ <;> rw [hf] <;> exact nofun
  have hgive : ∀ {u : ℕ} {c : Client E}, Function.update l.threads u c t = .idle →
      t = u ∧ c = .idle := by
    intro u c h
    rcases eq_or_ne t u with rfl | hut
    · exact ⟨rfl, Function.update_self t c l.threads ▸ h⟩
    · rw [Function.update_of_ne hut] at h
      exact absurd h hne
  have hkeep : ∀ {u : ℕ} {c : Client E}, Function.update l.threads u c t = .idle →
      c.flushing = (l.threads u).flushing → False := by
    intro u c h hc
    obtain ⟨rfl, rfl⟩ := hgive h
    exact hflush hc.symm
  cases m with
  | beginDispatch hu => exact (hkeep hidle (by rw [hu])).elim
  | placeEvent => exact (hkeep hidle rfl).elim
  | refuse => exact (hkeep hidle rfl).elim
  | endDispatch hu => exact (hkeep hidle (by rw [hu])).elim
  | evict => exact (hkeep hidle rfl).elim
  | count => exact (hkeep hidle rfl).elim
  | beginFlush => cases congrArg Client.flushing (hgive hidle).2
  | draw => cases congrArg Client.flushing (hgive hidle).2
  | placeRequest => exact (hkeep hidle rfl).elim
  | abandon => exact (hkeep hidle rfl).elim
  | @endFlush _ u i before' hu hi =>
    obtain ⟨rfl, -⟩ := hgive hidle
    rw [hu] at hf
    rcases hf with heq | heq | ⟨i', heq⟩
    · cases congrArg Client.flushing heq
    · cases heq
    · obtain ⟨rfl, rfl⟩ := FlushCall.drawn.inj heq
      exact ⟨i, by rw [hu], hi, rfl⟩
  | _ => exact absurd hidle hne

/-- **`flush()` is a barrier**: thread `t` calls `flush()` in `s₀`, does not begin another
call on the way to `s`, and returns with the step to `s'`. If shutdown has not begun,
every event whose `dispatch` call had returned in `s₀` has been written to every sink
and every sink was flushed after that, but for the events refused or evicted. -/
theorem flush_barrier {ok : Bool} (h₀ : (machine E cfg).run (.initial sinks) as = some s₀)
    (hcall : step cfg s₀ (.flush t) = some s₁) (h₁ : (machine E cfg).run s₁ bs = some s)
    (hb : ∀ a ∈ bs, a ≠ .flush t ∧ ∀ e, a ≠ .dispatch t e)
    (hret : step cfg s (.thread t ok) = some s') (hidle : s'.threads t = .idle)
    (hs : s'.shutdown = .notStarted) : s'.BarrierFor s₀.history.returned := by
  have hrun₁ := run_step h₀ hcall
  have hrun : (machine E cfg).run (.initial sinks) (as ++ [.flush t] ++ bs) = some s :=
    Machine.run_append.mpr ⟨s₁, hrun₁, h₁⟩
  have hrun' := run_step hrun hret
  have hsince : (s₁.ledger.threads t).FlushesSince s₀.history.returned := by
    rw [step] at hcall
    split at hcall
    · obtain rfl := Option.some.inj hcall
      rw [ledger_goto, Ledger.give_same]
      exact .inr (.inl rfl)
    · cases hcall
  have hf := flushesSince_run (control_run hrun₁) hsince hb h₁
  have hne : s.ledger.threads t ≠ .idle := by
    intro heq
    have hpc : s.threads t = .idle := Pc.client_eq_idle heq
    simp only [step, threadStep, hpc] at hret
    cases hret
  have hidle' : s'.ledger.threads t = .idle := congrArg Pc.client hidle
  rcases step_refined (control_run hrun) hret with ⟨-, ⟨-, hl⟩ | hm⟩
  · exact absurd (hl ▸ hidle') hne
  · obtain ⟨i, hi, hle, hl⟩ := hm.endFlush_of_idle hf hne hidle'
    have hstop : s'.stopping = false :=
      Bool.eq_false_iff.mpr fun hst => (control_run hrun').stopping.mp hst hs
    have hbarrier : s.BarrierFor s₀.history.returned :=
      (books_run hrun).barrierFor ((congrArg Ledger.stopping hl).symm.trans hstop) hi hle
    have hcalls : s'.history.calls = s.history.calls := congrArg Ledger.calls hl
    have hdrops : s'.history.drops = s.history.drops := congrArg Ledger.drops hl
    have hevicted : s'.history.evicted = s.history.evicted := congrArg Ledger.evicted hl
    have haccepted : s'.queue.accepted = s.queue.accepted := congrArg Ledger.accepted hl
    have hsinks : s'.sinks = s.sinks := congrArg (fun l => l.bank.sinks) hl
    rw [State.BarrierFor, hcalls, hdrops, hevicted, haccepted, hsinks]
    exact hbarrier

/-- An event is dispatched before a flush call begins. -/
def beforeFlush : List (Action ℕ) := .dispatch 1 10 :: steps 1 [true, true, true, true]

/-- The flush call puts its request into the queue, and the worker processes both items. -/
def duringFlush : List (Action ℕ) :=
  steps 0 [true, true, true, true, true] ++ (List.replicate 16 true).map .worker

theorem flush_barrier_duringFlush :
    ∃ s, (machine ℕ evicting).run (.initial [quietSink ℕ, brokenSink ℕ])
        (beforeFlush ++ [.flush 0] ++ duringFlush ++ [.thread 0 true]) = some s ∧
      s.BarrierFor [0] := by
  have hrun : (((machine ℕ evicting).run (.initial [quietSink ℕ, brokenSink ℕ])
      beforeFlush).bind fun s₀ => (step evicting s₀ (.flush 0)).bind fun s₁ =>
        ((machine ℕ evicting).run s₁ duringFlush).bind fun s =>
          (step evicting s (.thread 0 true)).map fun s' =>
            (s₀.history.returned, s'.shutdown, decide (s'.threads 0 = .idle))) =
      some ([0], .notStarted, true) := by decide
  have hb : ∀ a ∈ duringFlush, a ≠ .flush 0 ∧ ∀ e, a ≠ .dispatch 0 e := by
    intro a ha
    obtain ha | ha := List.mem_append.mp ha <;>
      obtain ⟨ok, -, rfl⟩ := List.mem_map.mp ha <;> exact ⟨nofun, nofun⟩
  obtain ⟨s₀, h₀, hrun⟩ := Option.bind_eq_some_iff.mp hrun
  obtain ⟨s₁, hcall, hrun⟩ := Option.bind_eq_some_iff.mp hrun
  obtain ⟨s, h₁, hrun⟩ := Option.bind_eq_some_iff.mp hrun
  obtain ⟨s', hret, heq⟩ := Option.map_eq_some_iff.mp hrun
  simp only [Prod.mk.injEq, decide_eq_true_eq] at heq
  obtain ⟨hbefore, hs, hidle⟩ := heq
  have hrun' := Machine.run_append.mpr ⟨s₁, run_step h₀ hcall, h₁⟩
  refine ⟨s', run_step hrun' hret, ?_⟩
  rw [← hbefore]
  exact flush_barrier h₀ hcall h₁ hb hret hidle hs

end AsyncDispatcher

end Logspine
