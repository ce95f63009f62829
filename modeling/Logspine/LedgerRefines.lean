import Logspine.ClientMoves
import Logspine.Ledger
import Logspine.WorkerMoves

/-!
# The dispatcher refines its ledger

Every step of `async_dispatcher` leaves its ledger alone or is one move of it
(`step_refines`), so every run is a sequence of moves. What a step needs to know
besides the ledger, because a thread remembers it in its program counter, is
the `Control` invariant: for instance that a thread which completes a flush id on
its own has seen `stopping_`.
-/

namespace Logspine

namespace AsyncDispatcher

variable {E : Type} {cfg : Config} {s s' s₁ : State E}

/-! ## What the program counters remember -/

/-- What a client thread at a place knows. -/
def Pc.Knows (options : AsyncOptions) (stopping : Bool) : Pc E → Prop
  | event _ _ _ pc =>
    match pc with
    | .drop => stopping = true ∨ options.Refuses
    | .evict | .evicted _ _ => options.overflow = .dropOldest
    | .waitLock | .wait | .waiting => options.overflow = .block
    | _ => True
  | request _ _ _ pc =>
    match pc with
    | .raiseLoad | .raiseCas _ => stopping = true
    | _ => True
  | _ => True

/-- What the worker of a dispatcher with `n` sinks knows at a place. -/
def WorkerPc.Knows (n : ℕ) (stopping : Bool) (completed : WithTop ℕ) : WorkerPc E → Prop
  | drain _ | stopTest none => stopping = true
  | raiseCas _ _ _ current => current ≤ completed
  | flushSinks _ _ _ k => k ≤ n
  | flushFailed _ _ _ k => k < n
  | finalFlush k => k ≤ n ∧ stopping = true
  | finalFailed k => k < n ∧ stopping = true
  | exited => stopping = true
  | _ => True

theorem Pc.Knows.mono {options : AsyncOptions} {stopping : Bool} {pc : Pc E}
    (h : pc.Knows options stopping) : pc.Knows options true := by
  cases pc with
  | event call e owns pc => cases pc <;> first | exact .inl rfl | exact h
  | request id caller owns pc => cases pc <;> first | exact rfl | exact h
  | _ => exact h

theorem WorkerPc.Knows.mono {n : ℕ} {stopping stopping' : Bool} {completed completed' : WithTop ℕ}
    {pc : WorkerPc E} (h : pc.Knows n stopping completed) (hs : stopping = true → stopping' = true)
    (hc : completed ≤ completed') : pc.Knows n stopping' completed' := by
  cases pc with
  | raiseCas ticket id rest current => exact le_trans h hc
  | drain batch => exact hs h
  | exited => exact hs h
  | finalFlush k => exact ⟨h.1, hs h.2⟩
  | finalFailed k => exact ⟨h.1, hs h.2⟩
  | stopTest item =>
    cases item with
    | none => exact hs h
    | some x => trivial
  | _ => exact h

/-- The invariant that ties the program counters to the shared variables, and
the counters to the history. -/
structure Control (cfg : Config) (s : State E) : Prop where
  stopping : s.stopping = true ↔ s.shutdown ≠ .notStarted
  threads : ∀ t, (s.threads t).Knows cfg.options s.stopping
  worker : s.worker.Knows s.sinks.length s.stopping s.completedFlushId
  dropped : s.droppedEvents = s.history.drops.length
  drawn : s.nextFlushId = s.history.draws.length

theorem control_initial (sinks : List (Sink E)) : Control cfg (State.initial sinks) where
  stopping := ⟨fun h => absurd h Bool.false_ne_true, fun h => absurd rfl h⟩
  threads _ := trivial
  worker := trivial
  dropped := rfl
  drawn := rfl

theorem Control.goto {t : ℕ} {pc : Pc E} (h : Control cfg s)
    (hpc : pc.Knows cfg.options s.stopping) : Control cfg (s.goto t pc) where
  stopping := h.stopping
  threads u := by
    change (Function.update s.threads t pc u).Knows cfg.options s.stopping
    rw [Function.update_apply]
    split
    · exact hpc
    · exact h.threads u
  worker := h.worker
  dropped := h.dropped
  drawn := h.drawn

theorem Control.work {pc : WorkerPc E} (h : Control cfg s)
    (hpc : pc.Knows s.sinks.length s.stopping s.completedFlushId) : Control cfg (s.work pc) where
  stopping := h.stopping
  threads := h.threads
  worker := hpc
  dropped := h.dropped
  drawn := h.drawn

/-- Raising `completed_flush_id_` keeps the invariant. -/
theorem Control.raise {completed : WithTop ℕ} (h : Control cfg s)
    (hc : s.completedFlushId ≤ completed) :
    Control cfg { s with completedFlushId := completed } where
  stopping := h.stopping
  threads := h.threads
  worker := h.worker.mono id hc
  dropped := h.dropped
  drawn := h.drawn

/-- A worker that leaves its loop has seen `stopping_`. -/
theorem Control.closing_eq_none {n : ℕ} (h : Control cfg s) (hs : s.stopping = false) :
    s.worker.closing n = none := by
  have hstop : s.stopping ≠ true := Bool.eq_false_iff.mp hs
  have hk := h.worker
  cases hw : s.worker <;> rw [hw] at hk <;>
    first | rfl | exact absurd hk.2 hstop | exact absurd hk hstop

/-! ## One step -/

/-- A step from `s` to `s'` keeps `Control`, and is a move of the ledger or, when it
makes no entry, leaves the ledger alone. -/
def Refined (cfg : Config) (b : Entry E) (s s' : State E) : Prop :=
  Control cfg s' ∧ ((b = .quiet ∧ s'.ledger = s.ledger) ∨ Ledger.Move cfg b s.ledger s'.ledger)

theorem ledger_goto (s : State E) (t : ℕ) (pc : Pc E) :
    (s.goto t pc).ledger = s.ledger.give t pc.client := by
  simp only [State.ledger, State.goto, Ledger.give, Function.comp_update]

theorem Ledger.give_threads (l : Ledger E) (t : ℕ) : l.give t (l.threads t) = l := by
  rw [give, Function.update_eq_self]

theorem ledger_threads {t : ℕ} {pc : Pc E} (ht : s.threads t = pc) :
    s.ledger.threads t = pc.client := congrArg Pc.client ht

/-- A step of thread `t` that changes nothing the ledger records. -/
theorem Refined.quiet {t : ℕ} {pc pc' : Pc E} (ht : s.threads t = pc) (hc : Control cfg s₁)
    (hl : s₁.ledger = s.ledger) (hclient : pc'.client = pc.client)
    (hpc : pc'.Knows cfg.options s₁.stopping) : Refined cfg .quiet s (s₁.goto t pc') := by
  refine ⟨hc.goto hpc, .inl ⟨rfl, ?_⟩⟩
  rw [ledger_goto, hl, hclient, ← ledger_threads ht, Ledger.give_threads]

/-- A step of thread `t` that is a move. -/
theorem Refined.move {t : ℕ} {pc' : Pc E} {b : Entry E} {l : Ledger E}
    {c : Client E} (m : Ledger.Move cfg b s.ledger (l.give t c)) (hc : Control cfg s₁)
    (hl : s₁.ledger = l) (hclient : pc'.client = c)
    (hpc : pc'.Knows cfg.options s₁.stopping) : Refined cfg b s (s₁.goto t pc') := by
  refine ⟨hc.goto hpc, .inr ?_⟩
  rw [ledger_goto, hl, hclient]
  exact m

section Client

variable {t call : ℕ} {e : E} {owns ok : Bool}

/-- A step of `enqueue_event`. -/
theorem enqueueEvent_refined {pc : EventPc E} (hc : Control cfg s)
    (ht : s.threads t = .event call e owns pc)
    (h : enqueueEvent cfg s t call e owns ok pc = some s') :
    Refined cfg (pc.entry t ok) s s' := by
  have hcl : s.ledger.threads t = (Pc.event call e owns pc).client := ledger_threads ht
  have hk : (Pc.event call e owns pc).Knows cfg.options s.stopping := ht ▸ hc.threads t
  have hdrop : ∀ d : Drop, s.droppedEvents + 1 = (s.history.drops ++ [d]).length := fun d => by
    rw [List.length_append, hc.dropped]
    rfl
  cases enqueueEvent_moves h with
  | enterStop hs | stop hs => exact Refined.quiet ht hc rfl rfl (.inl hs)
  | firstPut | retryPut =>
    exact Refined.move (.placeEvent (by rw [hcl]; rfl) (by rw [hcl]; rfl) (by rw [hcl]; rfl))
      { hc with } rfl (by rw [hcl]; rfl) trivial
  | dropNewest _ ho => exact Refined.quiet ht hc rfl rfl (.inr (.inl ho))
  | dropOldest _ ho | blockHeld _ ho | blockFree _ ho => exact Refined.quiet ht hc rfl rfl ho
  | evict hok hx =>
    subst hok
    exact Refined.move (.evict hk hx (by rw [hcl]; rfl) (by rw [hcl]; rfl) (by rw [hcl]; rfl))
      { hc with } rfl (by rw [hcl]; rfl) hk
  | evictRefused hok =>
    subst hok
    exact Refined.quiet ht hc rfl rfl trivial
  | evictedEvent | evictedRequest =>
    exact Refined.move (.count (by rw [hcl]; rfl)) { hc with dropped := hdrop _ } rfl
      (by rw [hcl]; rfl) trivial
  | waitLock | wait => exact Refined.quiet ht { hc with } rfl rfl hk
  | timedOut _ hpos => exact Refined.quiet ht { hc with } rfl rfl (.inr (.inr ⟨hk, hpos⟩))
  | drop =>
    exact Refined.move (.refuse (by rw [hcl]; rfl) (by rw [hcl]; rfl) (by rw [hcl]; rfl) hk)
      { hc with dropped := hdrop _ } rfl (by rw [hcl]; rfl) trivial
  | leave => exact Refined.move (.endDispatch hcl) { hc with } rfl rfl trivial
  | _ => exact Refined.quiet ht { hc with } rfl rfl trivial

/-- A step of `enqueue_flush_request`. -/
theorem enqueueFlushRequest_refined {id : ℕ} {caller : Caller E} {pc : RequestPc}
    (hc : Control cfg s) (ht : s.threads t = .request id caller owns pc)
    (h : enqueueFlushRequest cfg s t id caller owns ok pc = some s') : Refined cfg .quiet s s' := by
  have hcl : s.ledger.threads t = (Pc.request id caller owns pc).client := ledger_threads ht
  have hk : (Pc.request id caller owns pc).Knows cfg.options s.stopping := ht ▸ hc.threads t
  have hhand : (s.ledger.threads t).request = pc.inHand id := by
    rw [hcl]
    cases caller <;> rfl
  have hclient : ∀ pc' owns', (Pc.request id caller owns' pc').client =
      { s.ledger.threads t with request := pc'.inHand id } := by
    intro pc' owns'
    rw [hcl]
    cases caller <;> rfl
  have hsame : ∀ pc' owns', pc'.inHand id = pc.inHand id →
      (Pc.request id caller owns' pc').client = (Pc.request id caller owns pc).client := by
    intro pc' owns' hp
    rw [hclient, hp, ← hhand, ← hcl]
  have habandon : pc.inHand id = some id → s.stopping = true →
      s' = s.goto t (.request id caller owns .raiseLoad) → Refined cfg .quiet s s' := by
    rintro hp hs rfl
    exact Refined.move (.abandon hs (hhand.trans hp)) hc rfl (hclient ..) hs
  cases enqueueFlushRequest_moves h with
  | enterStop hs | stop hs => exact habandon rfl hs rfl
  | put => exact Refined.move (.placeRequest hhand) { hc with } rfl (hclient ..) trivial
  | raiseLoad | raiseMissed => exact Refined.quiet ht hc rfl (hsame _ _ rfl) hk
  | raised hlt hcur =>
    rw [← hcur] at hlt
    refine ⟨(hc.raise hlt.le).goto trivial, .inr ?_⟩
    have hgive : ({ s with completedFlushId := WithTop.some id } : State E).ledger.give t
        (s.ledger.threads t) = { s.ledger with completed := WithTop.some id } :=
      Ledger.give_threads _ t
    rw [ledger_goto, hsame .leave owns rfl, ← hcl, hgive]
    exact .raise hk hlt
  | leave =>
    cases caller with
    | flush before => exact Refined.quiet ht { hc with } rfl rfl trivial
    | evictor call e owns' => exact Refined.quiet ht { hc with } rfl rfl trivial
  | _ => exact Refined.quiet ht { hc with } rfl (hsame _ _ rfl) trivial

/-- A step of the wait loop of `flush`. -/
theorem flushWait_refined {id : ℕ} {before : List ℕ} {pc : FlushPc} (hc : Control cfg s)
    (ht : s.threads t = .flush id before pc) (h : flushWait s t id before pc = some s') :
    Refined cfg .quiet s s' := by
  cases pc with
  | test =>
    rw [flushWait] at h
    split at h <;> obtain rfl := Option.some.inj h
    case isTrue => exact Refined.quiet ht hc rfl rfl trivial
    case isFalse hle =>
      exact Refined.move (.endFlush (ledger_threads ht) (not_lt.mp hle)) hc rfl rfl trivial
  | argument =>
    obtain rfl := Option.some.inj h
    exact Refined.quiet ht hc rfl rfl trivial
  | wait old =>
    rw [flushWait] at h
    split at h
    · cases h
    · obtain rfl := Option.some.inj h
      exact Refined.quiet ht hc rfl rfl trivial

/-- A step of a client thread. -/
theorem threadStep_refined (hc : Control cfg s) (h : threadStep cfg s t ok = some s') :
    Refined cfg (s.entry (.thread t ok)) s s' := by
  rw [threadStep] at h
  rw [State.entry]
  split at h
  case h_1 => cases h
  case h_2 ht =>
    rw [ht]
    exact enqueueEvent_refined hc ht h
  case h_3 ht =>
    rw [ht]
    exact enqueueFlushRequest_refined hc ht h
  case h_4 before ht =>
    rw [ht]
    obtain rfl := Option.some.inj h
    refine Refined.move (.draw (ledger_threads ht)) { hc with drawn := ?_ } rfl ?_ trivial
    · rw [List.length_append, ← hc.drawn]
      rfl
    · rw [hc.drawn]
      rfl
  case h_5 ht =>
    rw [ht]
    exact flushWait_refined hc ht h

end Client

section Worker

variable {pc pc' : WorkerPc E} {ok : Bool}

/-- A step of the worker that changes nothing the ledger records. -/
theorem Refined.quietWork (hc : Control cfg s₁) (hl : (s₁.work pc').ledger = s.ledger)
    (hpc : pc'.Knows s₁.sinks.length s₁.stopping s₁.completedFlushId) :
    Refined cfg .quiet s (s₁.work pc') := ⟨hc.work hpc, .inl ⟨rfl, hl⟩⟩

/-- A step of the worker that is a move. -/
theorem Refined.moveWork {b : Entry E} {l : Ledger E} (m : Ledger.Move cfg b s.ledger l)
    (hc : Control cfg s₁) (hl : (s₁.work pc').ledger = l)
    (hpc : pc'.Knows s₁.sinks.length s₁.stopping s₁.completedFlushId) :
    Refined cfg b s (s₁.work pc') := by
  subst hl
  exact ⟨hc.work hpc, .inr m⟩

/-- Two places of the worker at which the ledger is the same. -/
structure SamePlace (n : ℕ) (pc pc' : WorkerPc E) : Prop where
  held : pc.held = pc'.held
  progress : pc.progress n = pc'.progress n
  closing : pc.closing n = pc'.closing n
  threw : pc.threw = pc'.threw

theorem SamePlace.ledger (h : SamePlace s.sinks.length pc pc') :
    (s.work pc).ledger = (s.work pc').ledger := by
  have hwork : ∀ pc : WorkerPc E, (s.work pc).ledger = { s.ledger with
      held := pc.held
      progress := pc.progress s.sinks.length
      closing := pc.closing s.sinks.length
      bank := { s.ledger.bank with failures := s.sinkFailures + pc.threw.toNat } } := fun _ => rfl
  rw [hwork, hwork, h.held, h.progress, h.closing, h.threw]

theorem samePlace_fillBatch (n : ℕ) (batch : List (Ticketed E)) :
    SamePlace n (fillBatch cfg batch) (.fill batch) := by
  rw [fillBatch]
  split <;> exact ⟨rfl, rfl, rfl, rfl⟩

theorem samePlace_drainBatch (n : ℕ) (batch : List (Ticketed E)) :
    SamePlace n (drainBatch cfg batch) (.drain batch) := by
  rw [drainBatch]
  split <;> exact ⟨rfl, rfl, rfl, rfl⟩

theorem samePlace_processBatch (n : ℕ) (batch : List (Ticketed E)) :
    SamePlace n (processBatch batch) (.notifyUnlock batch) := by
  cases batch with
  | nil => exact ⟨rfl, rfl, rfl, rfl⟩
  | cons x rest =>
    obtain ⟨ticket, item⟩ := x
    cases item <;> exact ⟨rfl, rfl, rfl, rfl⟩

theorem knows_fillBatch {n : ℕ} {stopping : Bool} {completed : WithTop ℕ}
    (batch : List (Ticketed E)) : (fillBatch cfg batch).Knows n stopping completed := by
  rw [fillBatch]
  split <;> trivial

theorem knows_drainBatch {n : ℕ} {stopping : Bool} {completed : WithTop ℕ}
    (batch : List (Ticketed E)) (h : stopping = true) :
    (drainBatch cfg batch).Knows n stopping completed := by
  rw [drainBatch]
  split
  · trivial
  · exact h

theorem knows_processBatch {n : ℕ} {stopping : Bool} {completed : WithTop ℕ}
    (batch : List (Ticketed E)) : (processBatch batch).Knows n stopping completed := by
  cases batch with
  | nil => trivial
  | cons x rest =>
    obtain ⟨ticket, item⟩ := x
    cases item with
    | event call e => trivial
    | flushRequest id => exact Nat.zero_le n

/-- A guarded call on a sink, in the ledger. -/
theorem callSink_ledger {k : ℕ} {op : SinkOp (ℕ × E)} {next failed : WorkerPc E}
    (h : callSink s k op next failed = some s') (hw : s.worker.threw = false)
    (hn : next.threw = false) (hf : failed.threw = true) (hheld : failed.held = next.held)
    (hprogress : failed.progress s.sinks.length = next.progress s.sinks.length)
    (hclosing : failed.closing s.sinks.length = next.closing s.sinks.length) :
    s'.ledger = { s.ledger.callSink ⟨k, op⟩ with
      held := next.held
      progress := next.progress s.sinks.length
      closing := next.closing s.sinks.length } := by
  obtain ⟨sink, hsink, rfl⟩ := Option.map_eq_some_iff.mp h
  have hbank : s.ledger.bank.call (plain ⟨k, op⟩) =
      ⟨s.sinks.set k (sink.call (op.map Prod.snd)).1,
        s.sinkFailures + (sink.call (op.map Prod.snd)).2.toNat,
        (s.history.calls ++ [SinkCall.mk k op]).map plain⟩ := by
    rw [SinkBank.call]
    simp only [State.ledger, plain, SinkCall.map, hsink, hw, Bool.toNat_false, Nat.add_zero,
      List.map_append, List.map_cons, List.map_nil]
  rw [Ledger.callSink, hbank]
  simp only [State.ledger, List.length_set]
  cases (sink.call (op.map Prod.snd)).2 with
  | false => simp only [Bool.false_eq_true, if_false, hn, Bool.toNat_false]
  | true => simp only [if_true, hf, hheld, hprogress, hclosing]

/-- A guarded call on a sink keeps the invariant. -/
theorem Control.callSink {k : ℕ} {op : SinkOp (ℕ × E)} {next failed : WorkerPc E}
    (hc : Control cfg s) (h : callSink s k op next failed = some s')
    (hn : next.Knows s.sinks.length s.stopping s.completedFlushId)
    (hf : failed.Knows s.sinks.length s.stopping s.completedFlushId) : Control cfg s' := by
  obtain ⟨sink, -, rfl⟩ := Option.map_eq_some_iff.mp h
  refine { hc with worker := ?_ }
  simp only [List.length_set]
  split
  · exact hf
  · exact hn

/-- A step of `worker_loop`. -/
theorem workerStep_refined (hc : Control cfg s) (h : workerStep cfg s ok = some s') :
    Refined cfg (s.worker.entry s.stopping) s s' := by
  obtain ⟨r, pc, rfl, hm⟩ := workerStep_moves h
  have hk := hc.worker
  cases hm with
  | loopStop hs | sleepStop hs => exact Refined.quietWork hc rfl hs
  | tryTaken hx | secondTaken hx =>
    exact Refined.moveWork (.hand hx rfl rfl) { hc with } rfl trivial
  | @lose item hs =>
    cases item with
    | none =>
      refine Refined.quietWork { hc with } ?_ hs
      simp only [State.ledger, State.work, Option.toList_none, List.append_nil]
      rfl
    | some x =>
      rw [work_worker, WorkerPc.entry, if_pos hs]
      exact Refined.moveWork (.lose hs rfl) { hc with } rfl hs
  | @keep item hs =>
    have hentry : (r.work (.stopTest item)).worker.entry (r.work (.stopTest item)).stopping =
        .quiet := by
      cases item with
      | none => rfl
      | some x => exact if_neg (Bool.eq_false_iff.mp hs)
    rw [hentry]
    exact Refined.quietWork hc (samePlace_fillBatch _ _).ledger (knows_fillBatch _)
  | drainTaken hx =>
    exact Refined.moveWork (.hand hx rfl rfl) { hc with }
      (SamePlace.ledger (samePlace_drainBatch _ _)) (knows_drainBatch _ hk)
  | drainEmpty hempty =>
    exact Refined.moveWork (.close hk rfl rfl rfl hempty) hc rfl ⟨Nat.zero_le _, hk⟩
  | fillTaken hx =>
    exact Refined.moveWork (.hand hx rfl rfl) { hc with }
      (SamePlace.ledger (samePlace_fillBatch _ _)) (knows_fillBatch _)
  | notifyUnlock =>
    exact Refined.quietWork { hc with } (samePlace_processBatch _ _).ledger (knows_processBatch _)
  | @write ticket call e rest k _ hlt hcall =>
    refine ⟨hc.callSink hcall trivial trivial, .inr ?_⟩
    rw [callSink_ledger hcall rfl rfl rfl rfl rfl rfl]
    exact .call (l := (r.work (.write ticket call e rest k)).ledger) rfl hlt
  | written hge =>
    exact Refined.moveWork (.finishEvent (l := (r.work _).ledger) rfl hge) { hc with }
      (SamePlace.ledger (samePlace_processBatch _ _)) (knows_processBatch _)
  | @flush ticket id rest k _ hlt hcall =>
    refine ⟨hc.callSink hcall (Nat.succ_le_of_lt hlt) hlt, .inr ?_⟩
    rw [callSink_ledger hcall rfl rfl rfl rfl rfl rfl]
    exact .call (l := (r.work (.flushSinks ticket id rest k)).ledger) rfl hlt
  | flushed hge =>
    have hkn := le_antisymm hk hge
    exact Refined.quietWork hc (SamePlace.ledger ⟨rfl, hkn.symm, rfl, rfl⟩) trivial
  | flushFailed => exact Refined.quietWork { hc with } rfl (Nat.succ_le_of_lt hk)
  | raiseLoad | raiseMissed => exact Refined.quietWork hc rfl (le_refl r.completedFlushId)
  | raised hlt hcur =>
    rw [← hcur] at hlt
    exact Refined.moveWork
      (.finishFlush (l := (r.work _).ledger) rfl le_rfl le_rfl (.inr ⟨hlt, rfl⟩))
      { hc.raise hlt.le with } (SamePlace.ledger (samePlace_processBatch _ _))
      (knows_processBatch _)
  | raisedBefore hle =>
    exact Refined.moveWork (.finishFlush rfl le_rfl (le_trans hle hk) (.inl rfl)) { hc with }
      (SamePlace.ledger (samePlace_processBatch _ _)) (knows_processBatch _)
  | @finalFlush k _ hlt hcall =>
    refine ⟨hc.callSink hcall ⟨Nat.succ_le_of_lt hlt, hk.2⟩ ⟨hlt, hk.2⟩, .inr ?_⟩
    rw [callSink_ledger hcall rfl rfl rfl rfl rfl rfl]
    exact .farewell (l := (r.work _).ledger) rfl hlt
  | finalFlushed hge =>
    have hkn := le_antisymm hk.1 hge
    exact Refined.quietWork hc (SamePlace.ledger ⟨rfl, rfl, congrArg some hkn.symm, rfl⟩) hk.2
  | finalFailed =>
    exact Refined.quietWork { hc with } rfl ⟨Nat.succ_le_of_lt hk.1, hk.2⟩
  | _ => exact Refined.quietWork { hc with } rfl trivial

end Worker

/-! ## Shutdown, and the whole system -/

/-- A step of `shutdown` that changes nothing the ledger records. -/
theorem Refined.quietShutdown {pc : ShutdownPc} (s₁ : State E) (hc : Control cfg s)
    (hl : s₁.ledger = s.ledger) (hs : s.shutdown ≠ .notStarted) (hpc : pc ≠ .notStarted)
    (hc₁ : Control cfg s₁) (hstored : pc.stored = s₁.shutdown.stored)
    (hstop : s₁.stopping = s.stopping) :
    Refined cfg .quiet s { s₁ with shutdown := pc } := by
  refine ⟨{ hc₁ with stopping := ?_ }, .inl ⟨rfl, ?_⟩⟩
  · change s₁.stopping = true ↔ pc ≠ .notStarted
    rw [hstop]
    exact iff_of_true (hc.stopping.mpr hs) hpc
  · rw [← hl]
    simp only [State.ledger, hstored]

/-- A step of `shutdown`. -/
theorem shutdownStep_refined {ok : Bool} (hc : Control cfg s)
    (h : shutdownStep s ok = some s') : Refined cfg .quiet s s' := by
  rw [shutdownStep] at h
  split at h
  case h_1 hs =>
    obtain rfl := Option.some.inj h
    refine ⟨⟨iff_of_true rfl nofun, fun t => (hc.threads t).mono,
      hc.worker.mono (fun _ => rfl) le_rfl, hc.dropped, hc.drawn⟩, .inr ?_⟩
    have hl : ({ s with stopping := true, shutdown := .lock } : State E).ledger =
        { s.ledger with stopping := true } := by
      simp only [State.ledger, hs, ShutdownPc.stored]
    rw [hl]
    exact .stop
  case h_2 hs =>
    obtain ⟨s₁, hl, rfl⟩ := Option.map_eq_some_iff.mp h
    obtain ⟨-, rfl⟩ := State.lock_eq_some.mp hl
    exact Refined.quietShutdown { s with mutex := some .shutdown } hc rfl (hs ▸ nofun) nofun
      { hc with } (hs ▸ rfl) rfl
  case h_3 hs =>
    obtain rfl := Option.some.inj h
    exact Refined.quietShutdown { s with sleeping := false } hc rfl (hs ▸ nofun) nofun
      { hc with } (hs ▸ rfl) rfl
  case h_4 hs =>
    obtain rfl := Option.some.inj h
    exact Refined.quietShutdown { s with mutex := none } hc rfl (hs ▸ nofun) nofun
      { hc with } (hs ▸ rfl) rfl
  case h_5 hs =>
    obtain rfl := Option.some.inj h
    exact Refined.quietShutdown s hc rfl (hs ▸ nofun) nofun hc (hs ▸ rfl) rfl
  case h_6 current hs =>
    have hstop : s.stopping = true := hc.stopping.mpr (hs ▸ nofun)
    split at h <;> obtain rfl := Option.some.inj h
    case h_1 s₁ hcas =>
      obtain ⟨-, rfl⟩ := State.casCompleted_eq_some.mp hcas
      refine ⟨{ hc.raise le_top with stopping := iff_of_true hstop nofun }, .inr ?_⟩
      exact .store hstop
    case h_2 => exact Refined.quietShutdown s hc rfl (hs ▸ nofun) nofun hc (hs ▸ rfl) rfl
  case h_7 hs =>
    split at h
    · obtain rfl := Option.some.inj h
      exact Refined.quietShutdown s hc rfl (hs ▸ nofun) nofun hc (hs ▸ rfl) rfl
    · cases h
  case h_8 => cases h

/-- **Refinement**: every step of the dispatcher keeps `Control`, and is a move
of the ledger or leaves it alone. -/
theorem step_refined {a : Action E} (hc : Control cfg s) (h : step cfg s a = some s') :
    Refined cfg (s.entry a) s s' := by
  cases a with
  | dispatch t e =>
    rw [step] at h
    split at h
    case h_1 ht =>
      obtain rfl := Option.some.inj h
      exact Refined.move (.beginDispatch (ledger_threads ht)) { hc with } rfl rfl trivial
    case h_2 => cases h
  | flush t =>
    rw [step] at h
    split at h
    case h_1 ht =>
      obtain rfl := Option.some.inj h
      exact Refined.move (.beginFlush (ledger_threads ht)) hc rfl rfl trivial
    case h_2 => cases h
  | thread t ok => exact threadStep_refined hc h
  | worker ok => exact workerStep_refined hc h
  | shutdown ok => exact shutdownStep_refined hc h

/-! ## Runs -/

theorem control_run {sinks : List (Sink E)} {as : List (Action E)}
    (h : (machine E cfg).run (.initial sinks) as = some s) : Control cfg s :=
  Machine.invariant_run (I := Control cfg) (fun _ _ _ hc ha => (step_refined hc ha).1)
    (control_initial sinks) h

/-- An invariant of the moves is an invariant of the dispatcher's ledger. -/
theorem ledger_invariant {I : Ledger E → Prop}
    (hmove : ∀ b l l', I l → Ledger.Move cfg b l l' → I l') {sinks : List (Sink E)}
    {as : List (Action E)} (h₀ : I (.initial sinks))
    (h : (machine E cfg).run (.initial sinks) as = some s) : I s.ledger := by
  refine (Machine.invariant_run (I := fun s => Control cfg s ∧ I s.ledger) ?_
    ⟨control_initial sinks, h₀⟩ h).2
  rintro s a s' ⟨hc, hi⟩ ha
  rcases step_refined hc ha with ⟨hc', ⟨-, hl⟩ | hm⟩
  · exact ⟨hc', hl ▸ hi⟩
  · exact ⟨hc', hmove _ _ _ hi hm⟩

end AsyncDispatcher

end Logspine
