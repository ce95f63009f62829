import Logspine.Conservation
import Logspine.Locking

/-!
# One client: the asynchronous run agrees with the synchronous one

When one thread makes all the calls, nothing is refused and nobody shuts down, the
queue is the client's program, item by item (`Solo`). When the last call, a flush, has
returned, the worker has finished with the whole queue, so the calls it made on the
sinks are the ones the inline loop of `sync_dispatcher` makes.
-/

namespace Logspine

namespace AsyncDispatcher

variable {E : Type} {cfg : Config} {sinks : List (Sink E)} {l l' : Ledger E} {s s' : State E}
  {as : List (Action E)} {t : ℕ} {program : List (ClientCall E)}

/-! ## The program and the queue -/

/-- The client call an item stands for. -/
def QueueItem.clientCall : QueueItem E → ClientCall E
  | event _ e => .dispatch e
  | flushRequest _ => .flush

/-- The client call an action begins. -/
def Action.clientCall : Action E → Option (ClientCall E)
  | dispatch _ e => some (.dispatch e)
  | flush _ => some .flush
  | _ => none

/-- The client call an entry begins. -/
def Entry.clientCall : Entry E → Option (ClientCall E)
  | begins _ call => some call
  | _ => none

theorem clientCall_entry (s : State E) (a : Action E) : (s.entry a).clientCall = a.clientCall := by
  obtain hq | ⟨u, e, rfl, hq⟩ | ⟨u, rfl, hq⟩ | ⟨u, c, e, owns, rfl, -, hq⟩ |
    ⟨ok, x, rfl, -, -, hq⟩ := s.entry_cases a
  · rw [hq]
    cases a with
    | dispatch u e => cases hq
    | flush u => cases hq
    | _ => rfl
  all_goals rw [hq]; rfl

theorem append_quiet (program : List (ClientCall E)) :
    program ++ (Entry.quiet : Entry E).clientCall.toList = program := List.append_nil program

/-- What the only client can carry, and the calls it began that have no place in the
queue yet. -/
inductive Client.Alone : Client E → List (ClientCall E) → Prop where
  /-- outside any call, or about to return from `dispatch` -/
  | returning (calling : Option (ℕ × E)) : Alone ⟨calling, none, none, none, .none⟩ []
  /-- in `dispatch`, with its event -/
  | event (x : ℕ × E) : Alone ⟨some x, some x, none, none, .none⟩ [.dispatch x.2]
  /-- in `flush`, before it drew its id -/
  | flush (before : List ℕ) : Alone ⟨none, none, none, none, .started before⟩ [.flush]
  /-- in `flush`, with its request -/
  | request (i : ℕ) (before : List ℕ) : Alone ⟨none, none, none, some i, .drawn i before⟩ [.flush]
  /-- in `flush`, in the wait loop -/
  | waiting (i : ℕ) (before : List ℕ) : Alone ⟨none, none, none, none, .drawn i before⟩ []

/-- Thread `t` is the only client, and has begun the calls of `program`. -/
structure Solo (t : ℕ) (program : List (ClientCall E)) (l : Ledger E) : Prop where
  running : l.stopping = false
  evicted : l.evicted = []
  others : ∀ u, u ≠ t → l.threads u = .idle
  alone : ∃ out, (l.threads t).Alone out ∧ l.accepted.map QueueItem.clientCall ++ out = program
  placed : ∀ p i, l.accepted[p]? = some (.flushRequest i) → l.DrawnAt i p ∧
    (WithTop.some i ≤ l.completed ∨ ∃ before, (l.threads t).flushing = .drawn i before)
  drawn : ∀ i, (l.threads t).request = some i → l.DrawnAt i l.accepted.length

theorem solo_initial (sinks : List (Sink E)) : Solo t [] (.initial sinks) where
  running := rfl
  evicted := rfl
  others _ _ := rfl
  alone := ⟨[], .returning none, rfl⟩
  placed _ _ h := nomatch h
  drawn _ h := nomatch h

namespace Solo

theorem eq_of_busy (h : Solo t program l) {u : ℕ} (hu : l.threads u ≠ .idle) : u = t :=
  by_contra fun hne => hu (h.others u hne)

/-- The only client gets something else to carry. -/
theorem give {c : Client E} {out : List (ClientCall E)} (hr : l.stopping = false)
    (he : l.evicted = []) (ho : ∀ u, u ≠ t → l.threads u = .idle) (hc : c.Alone out)
    (hout : l.accepted.map QueueItem.clientCall ++ out = program)
    (hp : ∀ p i, l.accepted[p]? = some (.flushRequest i) → l.DrawnAt i p ∧
      (WithTop.some i ≤ l.completed ∨ ∃ before, c.flushing = .drawn i before))
    (hd : ∀ i, c.request = some i → l.DrawnAt i l.accepted.length) :
    Solo t program (l.give t c) := by
  refine ⟨hr, he, fun u hu => (l.give_of_ne c hu).trans (ho u hu), ⟨out, ?_, hout⟩, ?_, ?_⟩
  · rw [l.give_same]
    exact hc
  · rw [l.give_same]
    exact hp
  · rw [l.give_same]
    exact hd

/-- A client in no flush call waits for nothing. -/
theorem completed_of_flushing (h : Solo t program l)
    (hf : ∀ i before, (l.threads t).flushing ≠ .drawn i before) {p i : ℕ}
    (hp : l.accepted[p]? = some (.flushRequest i)) :
    l.DrawnAt i p ∧ WithTop.some i ≤ l.completed := by
  rcases h.placed p i hp with ⟨hd, hle | ⟨before, hb⟩⟩
  · exact ⟨hd, hle⟩
  · exact absurd hb (hf i before)

theorem move {b : Entry E} (ho : cfg.options.overflow = .block)
    (hto : cfg.options.blockRetryTimeout ≤ 0) (h : Solo t program l)
    (m : Ledger.Move cfg b l l') (hb : ∀ u call, b = .begins u call → u = t)
    (hs : l'.stopping = false) : Solo t (program ++ b.clientCall.toList) l' := by
  have hrun : l.stopping ≠ true := Bool.eq_false_iff.mp h.running
  obtain ⟨out, hc, hout⟩ := h.alone
  cases m with
  | @beginDispatch _ u e hu =>
    obtain rfl := hb u _ rfl
    rw [hu, Client.idle] at hc
    cases hc
    refine give h.running h.evicted h.others (.event _) ?_ (fun p i hp => ?_) nofun
    · rw [← hout, List.append_nil]
      rfl
    · obtain ⟨hd, hle⟩ := h.completed_of_flushing (by rw [hu]; exact nofun) hp
      exact ⟨hd, .inl hle⟩
  | @placeEvent _ u c e hu =>
    obtain rfl := h.eq_of_busy fun hidle => by rw [hidle] at hu; cases hu
    have hplaced := h.placed
    generalize l.threads u = cl at hu hc hplaced ⊢
    cases hc with
    | event x =>
      obtain rfl := Option.some.inj hu
      rw [append_quiet]
      refine give h.running h.evicted h.others (.returning _) ?_ (fun p i hp => ?_) nofun
      · rw [← hout, List.map_append, List.append_nil]
        rfl
      · rcases getElem?_concat hp with hp | ⟨-, hp⟩
        · exact hplaced p i hp
        · cases hp
    | _ => cases hu
  | refuse hu hn hr hrefuse =>
    rcases hrefuse with hst | hrefuse | ⟨-, hpos⟩
    · exact absurd hst hrun
    · exact nomatch ho.symm.trans hrefuse
    · exact absurd hpos (not_lt.mpr hto)
  | @endDispatch _ u c e hu =>
    obtain rfl := h.eq_of_busy fun hidle => by rw [hidle] at hu; cases hu
    rw [hu, Client.idle] at hc
    cases hc
    rw [append_quiet]
    refine give h.running h.evicted h.others (.returning none) hout (fun p i hp => ?_) nofun
    obtain ⟨hd, hle⟩ := h.completed_of_flushing (by rw [hu]; exact nofun) hp
    exact ⟨hd, .inl hle⟩
  | evict hev => exact nomatch ho.symm.trans hev
  | @count _ u p hu =>
    obtain rfl := h.eq_of_busy fun hidle => by rw [hidle] at hu; cases hu
    generalize l.threads u = cl at hu hc
    cases hc <;> cases hu
  | @beginFlush _ u hu =>
    obtain rfl := hb u _ rfl
    rw [hu, Client.idle] at hc
    cases hc
    refine give h.running h.evicted h.others (.flush _) ?_ (fun p i hp => ?_) nofun
    · rw [← hout, List.append_nil]
      rfl
    · obtain ⟨hd, hle⟩ := h.completed_of_flushing (by rw [hu]; exact nofun) hp
      exact ⟨hd, .inl hle⟩
  | @draw _ u before hu =>
    obtain rfl := h.eq_of_busy fun hidle => by rw [hidle] at hu; cases hu
    rw [hu, Client.idle] at hc
    cases hc
    rw [append_quiet]
    refine give h.running h.evicted h.others (.request _ before) hout (fun p i hp => ?_)
      fun i hi => ?_
    · obtain ⟨hd, hle⟩ := h.completed_of_flushing (by rw [hu]; exact nofun) hp
      exact ⟨Ledger.DrawnAt.concat hd _, .inl hle⟩
    · obtain rfl := Option.some.inj hi
      exact ⟨Nat.le_add_left 1 _, List.getElem?_concat_length⟩
  | @placeRequest _ u i hu =>
    obtain rfl := h.eq_of_busy fun hidle => by rw [hidle] at hu; cases hu
    have hplaced := h.placed
    have hdrawn := h.drawn i hu
    generalize l.threads u = cl at hu hc hplaced ⊢
    cases hc with
    | request i' before =>
      obtain rfl := Option.some.inj hu
      rw [append_quiet]
      refine give h.running h.evicted h.others (.waiting _ before) ?_ (fun p i hp => ?_) nofun
      · rw [← hout, List.map_append, List.append_nil]
        rfl
      · rcases getElem?_concat hp with hp | ⟨rfl, hitem⟩
        · exact hplaced p i hp
        · obtain rfl := QueueItem.flushRequest.inj hitem
          exact ⟨hdrawn, .inr ⟨before, rfl⟩⟩
    | _ => cases hu
  | abandon hst => exact absurd hst hrun
  | raise hst => exact absurd hst hrun
  | @endFlush _ u i before hu hi =>
    obtain rfl := h.eq_of_busy fun hidle => by rw [hidle] at hu; cases hu
    have hplaced := h.placed
    rw [hu] at hc hplaced
    cases hc
    rw [append_quiet]
    refine give h.running h.evicted h.others (.returning none) hout (fun p j hp => ?_) nofun
    rcases hplaced p j hp with ⟨hd, hle | ⟨before', hb'⟩⟩
    · exact ⟨hd, .inl hle⟩
    · obtain ⟨rfl, -⟩ := FlushCall.drawn.inj hb'
      exact ⟨hd, .inl hi⟩
  | finishFlush hx hp hle hcomp =>
    rw [append_quiet]
    refine ⟨h.running, h.evicted, h.others, h.alone, fun p i hp => ?_, h.drawn⟩
    obtain ⟨hd, hi⟩ := h.placed p i hp
    refine ⟨hd, hi.imp_left fun hi => hi.trans ?_⟩
    rcases hcomp with rfl | ⟨hlt, -⟩
    · exact le_rfl
    · exact hlt.le
  | lose hst => exact absurd hst hrun
  | close hst => exact absurd hst hrun
  | stop => cases hs
  | store hst => exact absurd hst hrun
  | _ =>
    rw [append_quiet]
    exact { h with }

end Solo

/-- A run in which only thread `t` and the worker take steps. -/
theorem solo_run (ho : cfg.options.overflow = .block) (hto : cfg.options.blockRetryTimeout ≤ 0)
    (h : (machine E cfg).run (.initial sinks) as = some s)
    (hsolo : ∀ a ∈ as, a.actor = .thread t ∨ a.actor = .worker) :
    Solo t (as.filterMap Action.clientCall) s.ledger := by
  refine (Machine.run_induction (P := fun as s => (∀ a ∈ as, a.actor = .thread t ∨
    a.actor = .worker) → s.shutdown = .notStarted ∧ Solo t (as.filterMap Action.clientCall)
      s.ledger) (fun _ => ⟨rfl, solo_initial sinks⟩) ?_ h hsolo).2
  intro as s a s' hs ih ha hsolo
  obtain ⟨hshut, hl⟩ := ih fun b hb => hsolo b (List.mem_append_left _ hb)
  have hact := hsolo a (List.mem_append_right _ (List.mem_singleton_self a))
  have hc := control_run hs
  have hshut' : s'.shutdown = .notStarted := by
    refine ((step_scheduled hc (locked_run hs).lockOk ha).shutdown ?_).trans hshut
    rcases hact with hact | hact <;> rw [hact] <;> exact nofun
  obtain ⟨hc', hm⟩ := step_refined hc ha
  refine ⟨hshut', ?_⟩
  have hcalls : (as ++ [a]).filterMap Action.clientCall =
      as.filterMap Action.clientCall ++ (s.entry a).clientCall.toList := by
    rw [List.filterMap_append, clientCall_entry]
    cases hcall : a.clientCall <;> simp [hcall]
  rw [hcalls]
  rcases hm with ⟨hq, heq⟩ | hm
  · rw [hq, heq, append_quiet]
    exact hl
  · refine hl.move ho hto hm (fun u call he => ?_)
      (Bool.eq_false_iff.mpr fun hst => hc'.stopping.mp hst hshut')
    rcases State.eq_of_entry_eq_begins he with rfl | ⟨e, rfl⟩ <;>
    · rcases hact with hact | hact
      · exact Owner.thread.inj hact
      · cases hact

/-! ## When the last flush has returned -/

theorem map_snd_eq {T : Type} {xs : List (ℕ × T)} {ys : List T}
    (hfst : xs.map Prod.fst = List.range ys.length) (hitems : ∀ x ∈ xs, ys[x.1]? = some x.2) :
    xs.map Prod.snd = ys := by
  have hlen : xs.length = ys.length := by
    rw [← List.length_map (f := Prod.fst), hfst, List.length_range]
  refine List.ext_getElem (by rw [List.length_map, hlen]) fun p hp hp' => ?_
  rw [List.length_map] at hp
  have hindex : xs[p].1 = p := by
    have hget := List.getElem_map (l := xs) (i := p) Prod.fst
      (h := by rw [List.length_map]; exact hp)
    simp only [hfst, List.getElem_range] at hget
    exact hget.symm
  have hitem := hitems xs[p] (List.getElem_mem hp)
  rw [hindex, List.getElem?_eq_getElem hp'] at hitem
  rw [List.getElem_map, ← Option.some.inj hitem]

/-- An id at least that of the newest request in the queue was completed, so the worker
has finished with the whole queue. -/
theorem Books.finished (h : Books sinks l) (hsolo : Solo t (program ++ [.flush]) l)
    (hidle : l.threads t = .idle) : l.held = [] ∧ l.done.map Prod.snd = l.accepted ∧
      l.accepted.map QueueItem.clientCall = program ++ [.flush] := by
  obtain ⟨out, hc, hout⟩ := hsolo.alone
  have hplaced := fun p i => hsolo.completed_of_flushing (p := p) (i := i)
    (by rw [hidle]; exact nofun)
  rw [hidle, Client.idle] at hc
  cases hc
  rw [List.append_nil] at hout
  -- the newest item is a flush request, and its id is completed
  have hlen : l.accepted.length = program.length + 1 := by
    rw [← List.length_map (f := QueueItem.clientCall), hout, List.length_append]
    rfl
  obtain ⟨i, hi⟩ : ∃ i, l.accepted[program.length]? = some (.flushRequest i) := by
    have hlast : (l.accepted.map QueueItem.clientCall)[program.length]? = some .flush := by
      rw [hout, List.getElem?_concat_length]
    rw [List.getElem?_map, Option.map_eq_some_iff] at hlast
    obtain ⟨x, hx, hcall⟩ := hlast
    cases x with
    | event c e => cases hcall
    | flushRequest i => exact ⟨i, hx⟩
  obtain ⟨hdrawn, hle⟩ := hplaced _ _ hi
  -- the request that completed it was placed no earlier
  obtain ⟨q, j, hj, hdone⟩ := (h.barrier.completed hsolo.running).resolve_left fun h0 => by
    rw [h0] at hle
    exact absurd (hdrawn.1.trans (WithTop.coe_le_coe.mp hle)) (Nat.not_succ_le_zero 0)
  rw [hj] at hle
  have hitem := h.tickets.items _ (List.mem_append_left _ (List.mem_append_left _ hdone))
  obtain ⟨d, hd, hdq⟩ := h.requests.placed q j hitem
  have hq : program.length ≤ q :=
    (h.barrier.le_of_le (WithTop.coe_le_coe.mp hle) hdrawn hd).trans hdq
  have htaken : l.taken = l.accepted.length := by
    have hlt := h.tickets.handed_lt (List.mem_append_left _ (List.mem_append_left _ hdone))
    have hbound := h.tickets.bound
    change q < l.taken at hlt
    omega
  have hcustody := h.tickets.custody
  have hhanded : l.handed = l.done ++ l.held := by
    rw [Ledger.handed, h.barrier.lost hsolo.running, List.append_nil]
  rw [hsolo.evicted, List.map_nil, List.nil_append, htaken, hhanded] at hcustody
  -- what is in hand was taken out after everything that is done
  have hheld : l.held = [] := by
    refine List.eq_nil_iff_forall_not_mem.mpr fun x hx => ?_
    have hsorted := h.tickets.sorted
    rw [List.map_append, List.pairwise_append] at hsorted
    have hlt := hsorted.2.2 q (List.mem_map_of_mem (f := Prod.fst) hdone) x.1
      (List.mem_map_of_mem hx)
    have hx' := h.tickets.handed_lt (List.mem_append_right _ hx)
    omega
  rw [hheld, List.append_nil] at hcustody
  have hsorted := h.tickets.sorted
  rw [hheld, List.append_nil] at hsorted
  refine ⟨hheld, map_snd_eq (hcustody.eq_of_pairwise ?_ hsorted List.pairwise_lt_range)
    fun x hx => h.tickets.items x ?_, hout⟩
  · exact fun a b _ _ hab hba => absurd hab (Nat.lt_asymm hba)
  · exact List.mem_append_left _ (List.mem_append_left _ hx)

/-- What the worker does for an item is what `sync_dispatcher` does for its call. -/
theorem map_plain_script (n : ℕ) (x : Ticketed E) :
    (script n x).map plain = forEachSink n x.2.clientCall.op := by
  obtain ⟨p, item⟩ := x
  rw [script, forEachSink, List.map_map]
  cases item <;> rfl

/-- **The asynchronous dispatcher agrees with the synchronous one**: thread `t` is the only
client of a dispatcher that blocks without a timeout, its calls are `program` and then
a flush, and the flush has returned. Then the sinks, the calls made on them and the
failures counted are those of the same calls on `sync_dispatcher`. -/
theorem async_agrees_with_sync (ho : cfg.options.overflow = .block)
    (hto : cfg.options.blockRetryTimeout ≤ 0)
    (h : (machine E cfg).run (.initial sinks) as = some s)
    (hsolo : ∀ a ∈ as, a.actor = .thread t ∨ a.actor = .worker)
    (hprogram : as.filterMap Action.clientCall = program ++ [.flush])
    (hidle : s.threads t = .idle) :
    (⟨s.sinks, s.sinkFailures, s.history.calls.map plain⟩ : SinkBank E) =
      SyncDispatcher.run sinks (program ++ [.flush]) := by
  have hb := books_run h
  have hs : Solo t (program ++ [.flush]) s.ledger := hprogram ▸ solo_run ho hto h hsolo
  obtain ⟨hheld, hdone, hout⟩ := hb.finished hs (congrArg Pc.client hidle)
  have hclosing : s.ledger.closing = none := (control_run h).closing_eq_none hs.running
  have hcalls : s.history.calls.map plain =
      (program ++ [ClientCall.flush]).flatMap
        fun c : ClientCall E => forEachSink sinks.length c.op := by
    have hmade := hb.calls.calls
    rw [hheld, hclosing, farewell, Option.getD_none, List.take_zero, List.append_nil, started,
      List.append_nil] at hmade
    change s.history.calls = _ at hmade
    rw [hmade, List.map_flatMap, ← hout, ← hdone, List.map_map, List.flatMap_map]
    exact List.flatMap_congr fun x _ => map_plain_script _ x
  have hthrew : s.worker.threw = false := by
    change s.worker.held = [] at hheld
    change s.worker.closing _ = none at hclosing
    cases hw : s.worker with
    | writeFailed ticket call e rest k =>
      rw [hw] at hheld
      cases hheld
    | flushFailed ticket id rest k =>
      rw [hw] at hheld
      cases hheld
    | finalFailed k =>
      rw [hw] at hclosing
      cases hclosing
    | _ => rfl
  have hbank := hb.calls.bank
  rw [SyncDispatcher.run_eq_replay, ← hcalls]
  refine Eq.trans ?_ hbank
  rw [State.ledger, hthrew]
  rfl

/-- A queue of two that blocks without a timeout. -/
def blocking : Config :=
  ⟨{ queueCapacity := 2, overflow := .block, batchSize := 2, blockRetryTimeout := 0 }, true⟩

/-- Two events and a flush through a queue of two: the flush request waits for room, which
the worker makes. -/
def blockedRun : List (Action ℕ) :=
  .dispatch 0 10 :: steps 0 [true, true, true, true] ++
  .dispatch 0 11 :: steps 0 [true, true, true, true] ++
  .flush 0 :: steps 0 [true, true, false, true, true, true] ++
  (List.replicate 12 true).map .worker ++ steps 0 [true, true, true, true] ++
  [true, true, true, false, true, true, true, true, true, true].map .worker ++
  [.thread 0 true]

theorem async_agrees_with_sync_blockedRun :
    ∃ s, (machine ℕ blocking).run (.initial [brokenSink ℕ]) blockedRun = some s ∧
      (⟨s.sinks, s.sinkFailures, s.history.calls.map plain⟩ : SinkBank ℕ) =
        SyncDispatcher.run [brokenSink ℕ] ([.dispatch 10, .dispatch 11] ++ [.flush]) := by
  have hrun : ((machine ℕ blocking).run (.initial [brokenSink ℕ]) blockedRun).map
      (fun s => decide (s.threads 0 = .idle)) = some true := by decide
  obtain ⟨s, hs, hidle⟩ := Option.map_eq_some_iff.mp hrun
  have hsolo : ∀ a ∈ blockedRun, a.actor = .thread 0 ∨ a.actor = .worker := by decide
  exact ⟨s, hs, async_agrees_with_sync rfl le_rfl hs hsolo rfl (of_decide_eq_true hidle)⟩

end AsyncDispatcher

end Logspine
