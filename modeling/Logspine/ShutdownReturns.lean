import Logspine.Shutdown
import Logspine.WorkerSteps

/-!
# `shutdown()` returns

The destructor runs when no client thread is in a call any more. From then on only the worker
and `shutdown` move, and whoever of them is scheduled, each step but a spurious failure of a
compare-exchange lowers `State.windSteps`: the worker drains the queue, batch by batch, flushes
the sinks and ends; `shutdown` clears `sleeping_`, stores the maximum and joins the worker. The
two meet at `completed_flush_id_` only, where the exchange of one can cost the other one more
try. A schedule that cannot go on has joined the worker.
-/

namespace Logspine

namespace AsyncDispatcher

variable {E : Type} {cfg : Config} {s s' s₁ : State E} {as bs : List (Action E)}
  {sinks : List (Sink E)}

/-! ## The measure -/

theorem casSteps_le (current completed completed' : WithTop ℕ) :
    casSteps current completed ≤ casSteps current completed' + 1 := by
  have hpos := casSteps_pos current completed'
  rw [casSteps]
  split <;> omega

/-- The steps of a worker of `n` sinks that flushes them and ends, after its last look at the
queue, at most. -/
def farewellSteps (n : ℕ) : ℕ := 2 * n + 2

/-- The steps of a stopping worker, at most, when the queue stays empty. -/
def WorkerPc.windSteps (n : ℕ) (completed : WithTop ℕ) : WorkerPc E → ℕ
  | exited => 0
  | finalFlush k => 2 * (n - k) + 1
  | finalFailed k => 2 * (n - (k + 1)) + 2
  | drain [] => farewellSteps n + 1
  | drain (_ :: batch) => (batch.length + 1) * itemSteps n + farewellSteps n + 6
  | stopTest _ => farewellSteps n + 2
  | loopTest | clearSleeping _ | sleepTest => farewellSteps n + 3
  | waitDone | secondDequeue => farewellSteps n + 4
  | waitStopping | setSleeping => farewellSteps n + 5
  | waiting | waitLock | tryDequeue => farewellSteps n + 6
  | waitSleeping => farewellSteps n + 7
  | write _ _ _ rest k => rest.length * itemSteps n + 2 * (n - k) + farewellSteps n + 4
  | writeFailed _ _ _ rest k =>
    rest.length * itemSteps n + 2 * (n - (k + 1)) + farewellSteps n + 5
  | flushSinks _ _ rest k => rest.length * itemSteps n + 2 * (n - k) + farewellSteps n + 7
  | flushFailed _ _ rest k =>
    rest.length * itemSteps n + 2 * (n - (k + 1)) + farewellSteps n + 8
  | raiseLoad _ _ rest => rest.length * itemSteps n + farewellSteps n + 6
  | raiseCas _ _ rest current =>
    rest.length * itemSteps n + casSteps current completed + farewellSteps n + 4
  | notifyUnlock batch => batch.length * itemSteps n + farewellSteps n + 4
  | notifyLock batch => batch.length * itemSteps n + farewellSteps n + 5
  | fill batch => batch.length * itemSteps n + farewellSteps n + 6

/-- The steps of `shutdown`, at most. -/
def ShutdownPc.windSteps (completed : WithTop ℕ) : ShutdownPc → ℕ
  | notStarted => 9
  | lock => 8
  | clearSleeping => 7
  | unlock => 6
  | raiseLoad => 5
  | raiseCas current => casSteps current completed + 2
  | join => 1
  | joined => 0

/-- The steps of the worker of a stopping dispatcher, at most. -/
def State.workerWindSteps (s : State E) : ℕ :=
  (s.queue.accepted.length - s.queue.taken) * (itemSteps s.sinks.length + 6) +
    s.worker.windSteps s.sinks.length s.completedFlushId

/-- The steps of a stopping dispatcher in which no client is in a call, at most: those of the
worker, with the items still in the queue, and those of `shutdown`. -/
def State.windSteps (s : State E) : ℕ :=
  s.workerWindSteps + s.shutdown.windSteps s.completedFlushId

/-- A compare-exchange of the worker or of `shutdown` fails although the value is the expected
one. -/
def State.failsSpuriously (s : State E) : Action E → Bool
  | .worker false =>
    match s.worker with
    | .raiseCas _ id _ current => decide (current = s.completedFlushId ∧ current < WithTop.some id)
    | _ => false
  | .shutdown false =>
    match s.shutdown with
    | .raiseCas current => decide (current = s.completedFlushId)
    | _ => false
  | _ => false

/-- An action of the worker or of `shutdown`. -/
def Action.Winds (a : Action E) : Prop := a.actor = .worker ∨ a.actor = .shutdown

section Measure

variable {n : ℕ} {completed completed' : WithTop ℕ}

/-- Another value of `completed_flush_id_` costs the worker one more try. -/
theorem WorkerPc.windSteps_le (pc : WorkerPc E) :
    pc.windSteps n completed ≤ pc.windSteps n completed' + 1 := by
  cases pc with
  | raiseCas ticket id rest current =>
    have hle := casSteps_le current completed completed'
    simp only [windSteps]
    omega
  | drain batch => cases batch <;> exact Nat.le_succ _
  | _ => exact Nat.le_succ _

/-- And `shutdown` as well. -/
theorem ShutdownPc.windSteps_le (pc : ShutdownPc) :
    pc.windSteps completed ≤ pc.windSteps completed' + 1 := by
  cases pc with
  | raiseCas current =>
    have hle := casSteps_le current completed completed'
    simp only [windSteps]
    omega
  | _ => exact Nat.le_succ _

theorem windSteps_processBatch_le (batch : List (Ticketed E)) :
    (processBatch batch).windSteps n completed ≤
      batch.length * itemSteps n + farewellSteps n + 3 := by
  match batch with
  | [] => simp [processBatch, WorkerPc.windSteps]
  | (_, .event _ _) :: rest =>
    simp only [processBatch, WorkerPc.windSteps, List.length_cons, itemSteps, Nat.succ_mul]
    omega
  | (_, .flushRequest _) :: rest =>
    simp only [processBatch, WorkerPc.windSteps, List.length_cons, itemSteps, Nat.succ_mul]
    omega

theorem windSteps_fillBatch_le (batch : List (Ticketed E)) :
    (fillBatch cfg batch).windSteps n completed ≤
      batch.length * itemSteps n + farewellSteps n + 6 := by
  rw [fillBatch]
  split
  · exact le_rfl
  · exact Nat.le_succ _

theorem windSteps_drainBatch_le (batch : List (Ticketed E)) :
    (drainBatch cfg batch).windSteps n completed ≤
      batch.length * itemSteps n + farewellSteps n + 6 := by
  rw [drainBatch]
  split
  · exact Nat.le_succ _
  · cases batch with
    | nil =>
      simp only [WorkerPc.windSteps]
      omega
    | cons x batch => exact le_rfl

end Measure

/-! ## One step of the worker -/

/-- A dequeue takes what one item costs. -/
theorem workerWindSteps_take {pc : WorkerPc E} {x : QueueItem E}
    (hx : s.queue.accepted[s.queue.taken]? = some x)
    (hpc : pc.windSteps s.sinks.length s.completedFlushId + 1 ≤
      itemSteps s.sinks.length + 6 + s.worker.windSteps s.sinks.length s.completedFlushId) :
    ({ s with queue := { s.queue with taken := s.queue.taken + 1 } }.work pc).workerWindSteps + 1 ≤
      s.workerWindSteps := by
  obtain ⟨hlt, -⟩ := List.getElem?_eq_some_iff.mp hx
  obtain ⟨rest, hrest⟩ := Nat.exists_eq_add_of_lt hlt
  simp only [State.workerWindSteps, State.work, hrest]
  rw [show s.queue.taken + rest + 1 - (s.queue.taken + 1) = rest by omega,
    show s.queue.taken + rest + 1 - s.queue.taken = rest + 1 by omega, Nat.succ_mul]
  omega

/-- What a step of a stopping worker does: its steps become fewer, by two when it completes a
flush id. -/
def Winds (s s' : State E) : Prop :=
  s'.completedFlushId = s.completedFlushId ∧ s'.workerWindSteps + 1 ≤ s.workerWindSteps ∨
    s'.workerWindSteps + 2 ≤ s.workerWindSteps

/-- A step that leaves queue, sinks and completed id alone. -/
theorem Winds.work {pc : WorkerPc E} (hq : s₁.queue = s.queue) (hn : s₁.sinks = s.sinks)
    (hc : s₁.completedFlushId = s.completedFlushId)
    (hpc : pc.windSteps s.sinks.length s.completedFlushId + 1 ≤
      s.worker.windSteps s.sinks.length s.completedFlushId) : Winds s (s₁.work pc) := by
  refine .inl ⟨hc, ?_⟩
  simp only [State.workerWindSteps, State.work, hq, hn, hc]
  omega

/-- A guarded call on a sink. -/
theorem Winds.callSink {k : ℕ} {op : SinkOp (ℕ × E)} {next failed : WorkerPc E}
    (h : callSink s k op next failed = some s')
    (hn : next.windSteps s.sinks.length s.completedFlushId + 1 ≤
      s.worker.windSteps s.sinks.length s.completedFlushId)
    (hf : failed.windSteps s.sinks.length s.completedFlushId + 1 ≤
      s.worker.windSteps s.sinks.length s.completedFlushId) : Winds s s' := by
  obtain ⟨sink, -, rfl⟩ := Option.map_eq_some_iff.mp h
  refine .inl ⟨rfl, ?_⟩
  simp only [State.workerWindSteps, List.length_set]
  split <;> omega

/-- A step of a stopping worker. -/
theorem workerStep_winds {ok : Bool} (hstop : s.stopping = true)
    (hs : s.failsSpuriously (.worker ok) = false) (h : workerStep cfg s ok = some s') :
    Winds s s' := by
  obtain ⟨r, pc, rfl, hm⟩ := workerStep_moves h
  replace hstop : r.stopping = true := hstop
  cases hm with
  | loopOn hns | sleepOn hns | waitOn hns | keep hns => cases hstop.symm.trans hns
  | tryTaken hx | secondTaken hx =>
    refine .inl ⟨rfl, workerWindSteps_take (s := r.work _) hx ?_⟩
    simp only [State.work, WorkerPc.windSteps]
    omega
  | waitAwake =>
    refine .work rfl rfl rfl ?_
    simp only [State.work, WorkerPc.windSteps]
    omega
  | timedOut => exact .work rfl rfl rfl (Nat.le_succ _)
  | @drainTaken batch x hx =>
    refine .inl ⟨rfl, workerWindSteps_take (s := r.work (.drain batch)) hx ?_⟩
    refine (Nat.succ_le_succ (windSteps_drainBatch_le _)).trans ?_
    rw [List.length_append, List.length_singleton, Nat.succ_mul]
    cases batch <;> simp only [State.work, WorkerPc.windSteps, List.length_cons,
      List.length_nil] <;> omega
  | drainEmpty =>
    refine .work rfl rfl rfl ?_
    simp only [State.work, WorkerPc.windSteps, farewellSteps]
    omega
  | @fillTaken batch x hx =>
    refine .inl ⟨rfl, workerWindSteps_take (s := r.work (.fill batch)) hx ?_⟩
    refine (Nat.succ_le_succ (windSteps_fillBatch_le _)).trans ?_
    rw [List.length_append, List.length_singleton, Nat.succ_mul]
    simp only [State.work, WorkerPc.windSteps]
    omega
  | @notifyUnlock batch =>
    exact .work rfl rfl rfl (Nat.succ_le_succ (windSteps_processBatch_le batch))
  | write hlt hcall | flush hlt hcall | finalFlush hlt hcall =>
    replace hlt : _ < r.sinks.length := hlt
    refine .callSink hcall ?_ ?_ <;> simp only [State.work, WorkerPc.windSteps] <;> omega
  | @written ticket call e rest k =>
    refine .work rfl rfl rfl ((Nat.succ_le_succ (windSteps_processBatch_le rest)).trans ?_)
    simp only [State.work, WorkerPc.windSteps]
    omega
  | flushed | finalFlushed =>
    refine .work rfl rfl rfl ?_
    simp only [State.work, WorkerPc.windSteps]
    omega
  | raiseLoad =>
    refine .work rfl rfl rfl ?_
    simp only [State.work, WorkerPc.windSteps, casSteps_self]
    omega
  | @raised ticket id rest current =>
    right
    have hfinish : (processBatch rest).windSteps r.sinks.length (WithTop.some id) ≤ _ :=
      windSteps_processBatch_le rest
    have hcost : (WorkerPc.raiseCas ticket id rest current).windSteps r.sinks.length
        r.completedFlushId = rest.length * itemSteps r.sinks.length +
          casSteps current r.completedFlushId + farewellSteps r.sinks.length + 4 := rfl
    have hpos := casSteps_pos current r.completedFlushId
    simp only [State.workerWindSteps, State.work, hcost]
    omega
  | @raiseMissed ticket id rest current hlt hmissed =>
    -- the exchange failed, and not spuriously: the value was another one
    have hne : current ≠ r.completedFlushId := by
      rintro rfl
      obtain rfl := hmissed rfl
      rw [State.failsSpuriously] at hs
      exact of_decide_eq_false hs ⟨rfl, hlt⟩
    refine .work rfl rfl rfl ?_
    simp only [State.work, WorkerPc.windSteps, casSteps_self, casSteps_of_ne hne]
    omega
  | @raisedBefore ticket id rest current =>
    have hpos := casSteps_pos current r.completedFlushId
    refine .work rfl rfl rfl ((Nat.succ_le_succ (windSteps_processBatch_le rest)).trans ?_)
    simp only [State.work, WorkerPc.windSteps]
    omega
  | _ => exact .work rfl rfl rfl le_rfl

/-! ## One step of `shutdown` -/

/-- A step of `shutdown` brings it closer to its return, by two when it stores the maximum. -/
theorem shutdownStep_winds {ok : Bool} (hs : s.failsSpuriously (.shutdown ok) = false)
    (h : shutdownStep s ok = some s') :
    s'.queue = s.queue ∧ s'.sinks = s.sinks ∧
      (s'.completedFlushId = s.completedFlushId ∧
        s'.shutdown.windSteps s.completedFlushId + 1 ≤ s.shutdown.windSteps s.completedFlushId ∨
      s'.shutdown = .join ∧ ∃ current, s.shutdown = .raiseCas current) := by
  rw [shutdownStep] at h
  split at h
  case h_1 hpc =>
    obtain rfl := Option.some.inj h
    exact ⟨rfl, rfl, .inl ⟨rfl, by rw [hpc]; exact le_rfl⟩⟩
  case h_2 hpc =>
    obtain ⟨s₁, hl, rfl⟩ := Option.map_eq_some_iff.mp h
    obtain ⟨-, rfl⟩ := State.lock_eq_some.mp hl
    exact ⟨rfl, rfl, .inl ⟨rfl, by rw [hpc]; exact le_rfl⟩⟩
  case h_3 hpc =>
    obtain rfl := Option.some.inj h
    exact ⟨rfl, rfl, .inl ⟨rfl, by rw [hpc]; exact le_rfl⟩⟩
  case h_4 hpc =>
    obtain rfl := Option.some.inj h
    exact ⟨rfl, rfl, .inl ⟨rfl, by rw [hpc]; exact le_rfl⟩⟩
  case h_5 hpc =>
    obtain rfl := Option.some.inj h
    refine ⟨rfl, rfl, .inl ⟨rfl, ?_⟩⟩
    simp only [hpc, ShutdownPc.windSteps, casSteps_self]
    exact Nat.le_succ 4
  case h_6 current hpc =>
    split at h <;> obtain rfl := Option.some.inj h
    case h_1 s₁ hcas =>
      obtain ⟨-, rfl⟩ := State.casCompleted_eq_some.mp hcas
      exact ⟨rfl, rfl, .inr ⟨rfl, current, hpc⟩⟩
    case h_2 hcas =>
      have hne : current ≠ s.completedFlushId := by
        rintro rfl
        cases ok with
        | false =>
          rw [State.failsSpuriously, hpc] at hs
          exact of_decide_eq_false hs rfl
        | true => cases hcas.symm.trans (State.casCompleted_eq_some.mpr ⟨⟨rfl, rfl⟩, rfl⟩)
      refine ⟨rfl, rfl, .inl ⟨rfl, ?_⟩⟩
      simp only [hpc, ShutdownPc.windSteps, casSteps_self, casSteps_of_ne hne]
      exact le_rfl
  case h_7 hpc =>
    split at h
    · obtain rfl := Option.some.inj h
      exact ⟨rfl, rfl, .inl ⟨rfl, by rw [hpc]; exact le_rfl⟩⟩
    · cases h
  case h_8 => cases h

/-! ## Every schedule of the two -/

/-- A step that fails spuriously changes nothing. -/
theorem eq_of_failsSpuriously {a : Action E} (hs : s.failsSpuriously a = true)
    (h : step cfg s a = some s') : s' = s := by
  rw [State.failsSpuriously.eq_def] at hs
  split at hs
  case h_1 =>
    split at hs
    case h_1 ticket id rest current hw =>
      obtain ⟨rfl, hlt⟩ := of_decide_eq_true hs
      have hspurious : Spurious s false := ⟨rfl, ticket, id, rest, hw, hlt⟩
      have hstep : workerStep cfg s false = some s' := h
      exact hspurious.eq hstep
    case h_2 => cases hs
  case h_2 =>
    split at hs
    case h_1 current hpc =>
      obtain rfl := of_decide_eq_true hs
      simp only [step, shutdownStep, hpc, State.casCompleted, and_false, Bool.false_eq_true,
        if_false, Option.some.injEq] at h
      rw [← h, ← hpc]
    case h_2 => cases hs
  case h_3 => cases hs

/-- No client is in a call, and `shutdown` has begun. -/
structure Stopping (cfg : Config) (s : State E) : Prop where
  control : Control cfg s
  locked : Locked cfg s
  stopping : s.stopping = true
  idle : ∀ t, s.threads t = .idle

/-- A step of the worker or of `shutdown` lowers the measure, unless it fails spuriously. -/
theorem Stopping.move {a : Action E} (h : Stopping cfg s) (ha : a.Winds)
    (hs : step cfg s a = some s') :
    Stopping cfg s' ∧ s'.windSteps + 1 ≤ s.windSteps + (s.failsSpuriously a).toNat := by
  have hmove := step_scheduled h.control h.locked.lockOk hs
  have hnext : Stopping cfg s' := by
    have hcontrol := (step_refined h.control hs).1
    refine ⟨hcontrol, h.locked.step hmove, ?_, fun t => ?_⟩
    · refine hcontrol.stopping.mpr fun hnot => ?_
      have hbegun := h.control.stopping.mp h.stopping
      rcases ha with ha | ha
      · exact hbegun ((hmove.shutdown (by rw [ha]; rintro ⟨⟩)).symm.trans hnot)
      · cases a with
        | shutdown ok =>
          replace hs : shutdownStep s ok = some s' := hs
          rw [shutdownStep.eq_def] at hs
          split at hs
          case h_1 hpc => exact hbegun hpc
          case h_2 =>
            obtain ⟨s₁, -, rfl⟩ := Option.map_eq_some_iff.mp hs
            cases hnot
          case h_6 => split at hs <;> obtain rfl := Option.some.inj hs <;> cases hnot
          case h_7 =>
            split at hs
            · obtain rfl := Option.some.inj hs
              cases hnot
            · cases hs
          case h_8 => cases hs
          all_goals
            obtain rfl := Option.some.inj hs
            cases hnot
        | _ => cases ha
    · rw [hmove.threads t (by rcases ha with ha | ha <;> rw [ha] <;> rintro ⟨⟩)]
      exact h.idle t
  refine ⟨hnext, ?_⟩
  cases hfails : s.failsSpuriously a with
  | true =>
    rw [eq_of_failsSpuriously hfails hs]
    exact le_rfl
  | false =>
    rw [Bool.toNat_false, Nat.add_zero, State.windSteps, State.windSteps]
    rcases ha with ha | ha
    · cases a with
      | worker ok =>
        rw [hmove.shutdown (by rw [ha]; rintro ⟨⟩)]
        have hstep : workerStep cfg s ok = some s' := hs
        rcases workerStep_winds h.stopping hfails hstep with ⟨hc, hle⟩ | hle
        · rw [hc]
          omega
        · have hcas : s.shutdown.windSteps s'.completedFlushId ≤
              s.shutdown.windSteps s.completedFlushId + 1 := s.shutdown.windSteps_le
          omega
      | _ => cases ha
    · cases a with
      | shutdown ok =>
        obtain ⟨hq, hn, ⟨hc, hle⟩ | ⟨hjoin, current, hpc⟩⟩ := shutdownStep_winds hfails hs
        · rw [State.workerWindSteps, State.workerWindSteps, hq, hn, hc,
            hmove.worker (by rw [ha]; rintro ⟨⟩)]
          omega
        · have hcas : s.worker.windSteps s.sinks.length s'.completedFlushId ≤
              s.worker.windSteps s.sinks.length s.completedFlushId + 1 := s.worker.windSteps_le
          have hpos := casSteps_pos current s.completedFlushId
          rw [State.workerWindSteps, State.workerWindSteps, hq, hn, hjoin, hpc,
            hmove.worker (by rw [ha]; rintro ⟨⟩), ShutdownPc.windSteps, ShutdownPc.windSteps]
          omega
      | _ => cases ha

/-- At its compare-exchange the worker can succeed. -/
theorem exists_exchange {ok : Bool} (hs : s.failsSpuriously (.worker ok) = true) :
    ∃ s', workerStep cfg s true = some s' := by
  cases ok with
  | true => cases hs
  | false =>
    rw [State.failsSpuriously] at hs
    split at hs
    case h_1 ticket id rest current hw =>
      rw [workerStep, hw]
      simp only
      split
      · split <;> exact ⟨_, rfl⟩
      · exact ⟨_, rfl⟩
    case h_2 => cases hs

/-- As long as `shutdown` has not returned, it or the worker can make a step that is no spurious
failure. -/
theorem Stopping.exists_step (h : Stopping cfg s) (hne : s.shutdown ≠ .joined) :
    ∃ a s', Action.Winds a ∧ step cfg s a = some s' ∧ s.failsSpuriously a = false := by
  have hworker : (∃ ok s', workerStep cfg s ok = some s') →
      ∃ a s', Action.Winds a ∧ step cfg s a = some s' ∧ s.failsSpuriously a = false := by
    rintro ⟨ok, s', hs'⟩
    cases hfails : s.failsSpuriously (.worker ok) with
    | false => exact ⟨.worker ok, s', .inl rfl, hs', hfails⟩
    | true =>
      obtain ⟨s'', hs''⟩ : ∃ s'', workerStep cfg s true = some s'' := exists_exchange hfails
      exact ⟨.worker true, s'', .inl rfl, hs'', rfl⟩
  have hshutdown : (∃ s', shutdownStep s true = some s') →
      ∃ a s', Action.Winds a ∧ step cfg s a = some s' ∧ s.failsSpuriously a = false :=
    fun ⟨s', hs'⟩ => ⟨.shutdown true, s', .inr rfl, hs', rfl⟩
  cases hm : s.mutex with
  | none =>
    by_cases hexit : s.worker = .exited
    · refine hshutdown ?_
      cases hpc : s.shutdown with
      | notStarted => exact absurd hpc (h.control.stopping.mp h.stopping)
      | lock =>
        rw [shutdownStep, hpc]
        exact State.exists_lock hm _ _
      | raiseCas current =>
        rw [shutdownStep, hpc]
        simp only
        split <;> exact ⟨_, rfl⟩
      | join =>
        rw [shutdownStep, hpc, hexit]
        exact ⟨_, rfl⟩
      | joined => exact absurd hpc hne
      | _ =>
        rw [shutdownStep, hpc]
        exact ⟨_, rfl⟩
    · exact hworker (exists_workerStep_of_free hm hexit)
  | some o =>
    have howns := (h.locked.owner o).mpr hm
    cases o with
    | thread t => exact absurd (h.idle t) (ne_idle_of_owns howns)
    | worker => exact hworker (exists_workerStep howns)
    | shutdown =>
      refine hshutdown ?_
      change s.shutdown.owns = true at howns
      cases hpc : s.shutdown with
      | clearSleeping =>
        rw [shutdownStep, hpc]
        exact ⟨_, rfl⟩
      | unlock =>
        rw [shutdownStep, hpc]
        exact ⟨_, rfl⟩
      | _ =>
        rw [hpc] at howns
        cases howns

/-- **`shutdown()` returns.** Let no client be in a call when `shutdown` has begun, in any state
that any run reaches, with any overflow policy and whatever is in the queue. Then every schedule
of the steps of worker and `shutdown` is bounded by `windSteps` and the number of spurious
failures in it, and one that cannot be continued has joined the worker, which has ended. -/
theorem shutdown_returns (h : (machine E cfg).run (.initial sinks) as = some s)
    (hidle : ∀ t, s.threads t = .idle) (hbegun : s.shutdown ≠ .notStarted)
    (hbs : ∀ a ∈ bs, Action.Winds a) (h' : (machine E cfg).run s bs = some s') :
    bs.length ≤ s.windSteps + (machine E cfg).countAlong State.failsSpuriously s bs ∧
      ((∃ a s'', Action.Winds a ∧ step cfg s' a = some s'' ∧ s'.failsSpuriously a = false) ∨
        s'.shutdown = .joined ∧ s'.worker = .exited) := by
  have hstop : Stopping cfg s :=
    ⟨control_run h, locked_run h, (control_run h).stopping.mpr hbegun, hidle⟩
  obtain ⟨hend, hlen⟩ := Machine.length_le_of_rank (M := machine E cfg) (I := Stopping cfg) 1
    State.windSteps State.failsSpuriously
    (fun s a s' hi ha hs => by rw [Nat.one_mul]; exact hi.move ha hs) hstop hbs h'
  rw [Nat.one_mul] at hlen
  refine ⟨(Nat.le_add_right _ _).trans hlen, ?_⟩
  by_cases hj : s'.shutdown = .joined
  · exact .inr ⟨hj, exited_of_joined (Machine.run_append.mpr ⟨s, h, h'⟩) hj⟩
  · exact .inl (hend.exists_step hj)

/-- The worker has a batch in hand when `shutdown` begins. -/
def begunRun : List (Action ℕ) :=
  oneDispatch ++ [true, true, true].map .worker ++ [.shutdown true]

/-- The worker processes its batch, finds the queue empty and ends; an exchange of `shutdown`
fails spuriously. -/
def joinedRun : List (Action ℕ) :=
  [true, true, true, true, false].map .shutdown ++
    [false, true, true, true, true, true, true, false, true, true].map .worker ++
    [.shutdown true, .shutdown true]

theorem shutdown_returns_joinedRun :
    ∃ s s', (machine ℕ evicting).run (.initial [quietSink ℕ]) begunRun = some s ∧
      (machine ℕ evicting).run s joinedRun = some s' ∧
      joinedRun.length ≤ s.windSteps + (machine ℕ evicting).countAlong State.failsSpuriously s
        joinedRun ∧
      ((∃ a s'', Action.Winds a ∧ step evicting s' a = some s'' ∧
        s'.failsSpuriously a = false) ∨ s'.shutdown = .joined ∧ s'.worker = .exited) := by
  have hrun : (((machine ℕ evicting).run (.initial [quietSink ℕ]) begunRun).bind fun s =>
      ((machine ℕ evicting).run s joinedRun).map fun s' =>
        (decide (s.threads 0 = .idle), s.shutdown)) = some (true, .lock) := by decide
  obtain ⟨s, hs, hrun⟩ := Option.bind_eq_some_iff.mp hrun
  obtain ⟨s', hs', heq⟩ := Option.map_eq_some_iff.mp hrun
  simp only [Prod.mk.injEq, decide_eq_true_eq] at heq
  have hidle : ∀ t, s.threads t = .idle := by
    intro t
    cases t with
    | zero => exact heq.1
    | succ t =>
      refine idle_run (fun a ha => ?_) hs
      simp only [begunRun, oneDispatch, steps, List.map_cons, List.map_nil, List.cons_append,
        List.nil_append, List.mem_cons, List.not_mem_nil, or_false] at ha
      rcases ha with rfl | rfl | rfl | rfl | rfl | rfl | rfl | rfl | rfl <;> rintro ⟨⟩
  have hbs : ∀ a ∈ joinedRun, Action.Winds a := by
    intro a ha
    simp only [joinedRun, List.mem_append, List.mem_map, List.mem_cons, List.not_mem_nil,
      or_false] at ha
    rcases ha with (⟨_, -, rfl⟩ | ⟨_, -, rfl⟩) | rfl | rfl
    exacts [.inr rfl, .inl rfl, .inr rfl, .inr rfl]
  have hreturns := shutdown_returns hs hidle (by rw [heq.2]; rintro ⟨⟩) hbs hs'
  exact ⟨s, s', hs, hs', hreturns.1, hreturns.2⟩

end AsyncDispatcher

end Logspine
