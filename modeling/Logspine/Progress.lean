import Logspine.Conservation
import Logspine.FlushBarrier
import Logspine.WorkerSteps

/-!
# Every accepted item is processed

Liveness of a dispatcher that is not shut down. Threads and worker are scheduled fairly, and
a compare-exchange that the worker repeats for ever succeeds at last; a wait need never time
out. Then `mutex_` is released again and again (`RunsFairly.exists_unlocked`), the worker moves
again and again (`RunsFairly.exists_moves`), a queue with something in it loses its oldest item
(`RunsFairly.exists_taken`), and what the worker has in hand it finishes
(`RunsFairly.exists_done`).

The worker's distance to its next look at the queue drops with every move, but for the loop in
which it waits while `sleeping_` is set. There the watching thread (`Logspine.WakeUps`) comes in.
-/

namespace Logspine

namespace AsyncDispatcher

variable {E : Type} {cfg : Config} {s s' : State E} {as : List (Action E)}
  {sinks : List (Sink E)}

/-! ## A dispatcher that runs for ever -/

/-- The worker is about to try its compare-exchange. -/
def WorkerPc.exchanging : WorkerPc E → Bool
  | raiseCas _ _ _ _ => true
  | _ => false

/-- An execution in which `shutdown` is never called: threads and worker are scheduled fairly,
an operation of the queue is refused only when the queue is full (empty), and a
compare-exchange that the worker repeats for ever does not always fail spuriously. No wait need
ever time out. -/
structure RunsFairly (sinks : List (Sink E)) (x : (machine E cfg).Execution) : Prop where
  start : x.state 0 = .initial sinks
  atomic : cfg.atomicQueue = true
  running : ∀ n, (x.state n).stopping = false
  threads : ∀ t, x.Fair fun a => a.continues = some (.thread t)
  worker : x.Fair fun a => a.continues = some .worker
  exchange : ∀ k, (∀ n ≥ k, (x.state n).worker.exchanging = true) →
    ∃ n ≥ k, x.action n = some (.worker true)

/-- The steps of a waking thread before it clears `sleeping_`. -/
def Pc.wakeSteps : Pc E → ℕ
  | event _ _ _ .sleeping | request _ _ _ .sleeping => 3
  | event _ _ _ .lock | request _ _ _ .lock => 2
  | _ => 1

/-- A step of a waking thread clears `sleeping_`, or it brings the thread closer to that. -/
theorem threadStep_wakeSteps {t : ℕ} {ok : Bool} (hw : (s.threads t).wakes = true)
    (hsleeping : s.sleeping = true) (h : threadStep cfg s t ok = some s') :
    s'.sleeping = false ∨ (s'.threads t).wakeSteps < (s.threads t).wakeSteps := by
  have hgoto : ∀ {s₁ : State E} {pc pc' : Pc E}, s.threads t = pc → pc'.wakeSteps < pc.wakeSteps →
      ((s₁.goto t pc').threads t).wakeSteps < (s.threads t).wakeSteps := by
    intro s₁ pc pc' ht hlt
    rw [ht]
    change (Function.update s₁.threads t pc' t).wakeSteps < _
    rwa [Function.update_self]
  rw [threadStep] at h
  split at h
  case h_1 => cases h
  case h_2 call e owns pc ht =>
    rw [ht] at hw
    cases pc with
    | sleeping =>
      rw [enqueueEvent, if_pos hsleeping] at h
      obtain rfl := Option.some.inj h
      refine .inr (hgoto ht ?_)
      split <;> exact of_decide_eq_true rfl
    | lock =>
      obtain ⟨s₁, -, rfl⟩ := Option.map_eq_some_iff.mp h
      exact .inr (hgoto ht (of_decide_eq_true rfl))
    | wake =>
      obtain rfl := Option.some.inj h
      exact .inl rfl
    | _ => cases hw
  case h_3 id caller owns pc ht =>
    rw [ht] at hw
    cases pc with
    | sleeping =>
      rw [enqueueFlushRequest, if_pos hsleeping] at h
      obtain rfl := Option.some.inj h
      refine .inr (hgoto ht ?_)
      split <;> exact of_decide_eq_true rfl
    | lock =>
      obtain ⟨s₁, -, rfl⟩ := Option.map_eq_some_iff.mp h
      exact .inr (hgoto ht (of_decide_eq_true rfl))
    | wake =>
      obtain rfl := Option.some.inj h
      exact .inl rfl
    | _ => cases hw
  case h_4 ht =>
    rw [ht] at hw
    cases hw
  case h_5 ht =>
    rw [ht] at hw
    cases hw

/-- A step of the worker that is no spurious failure. -/
def Moves (x : (machine E cfg).Execution) (n : ℕ) : Prop :=
  ∃ ok, x.action n = some (.worker ok) ∧ ¬ Spurious (x.state n) ok

/-- Only the worker completes flush ids while `shutdown` has not begun. -/
theorem Ledger.Move.completed_eq {l l' : Ledger E} {b : Entry E} (m : Ledger.Move cfg b l l')
    (hrunning : l.stopping = false) (hheld : l'.held = l.held) : l'.completed = l.completed := by
  cases m with
  | raise hs => cases hrunning.symm.trans hs
  | store hs => cases hrunning.symm.trans hs
  | @finishFlush _ _ _ rest _ hx => exact absurd (hheld.trans hx).symm (List.cons_ne_self _ rest)
  | _ => rfl

/-- What the running worker has in hand stays there until it is done. -/
theorem Ledger.Move.held_or_done {l l' : Ledger E} {b : Entry E} (m : Ledger.Move cfg b l l')
    (hrunning : l.stopping = false) {x : Ticketed E} (hx : x ∈ l.held ∨ x ∈ l.done) :
    x ∈ l'.held ∨ x ∈ l'.done := by
  have hfinish : ∀ {y : Ticketed E} {rest : List (Ticketed E)}, l.held = y :: rest →
      x ∈ rest ∨ x ∈ l.done ++ [y] := by
    intro y rest hy
    rcases hx with hx | hx
    · rcases List.mem_cons.mp (hy ▸ hx) with rfl | hx
      · exact .inr (List.mem_append_right _ (List.mem_singleton_self x))
      · exact .inl hx
    · exact .inr (List.mem_append_left _ hx)
  cases m with
  | lose hs => cases hrunning.symm.trans hs
  | hand => exact hx.imp_left (List.mem_append_left _)
  | finishEvent hy => exact hfinish hy
  | finishFlush hy => exact hfinish hy
  | _ => exact hx

section Queue

variable {x : (machine E cfg).Execution}

/-- The queue only grows at its end and loses its oldest items. -/
theorem queue_mono {m n : ℕ} (hn : m ≤ n) :
    (x.state m).queue.taken ≤ (x.state n).queue.taken ∧
      (x.state m).queue.accepted <+: (x.state n).queue.accepted := by
  induction n, hn using Nat.le_induction with
  | base => exact ⟨le_rfl, List.prefix_rfl⟩
  | succ n _ ih =>
    cases ha : x.action n with
    | none =>
      rw [Machine.Execution.state_of_stutter ha]
      exact ih
    | some a =>
      rcases step_queue (Machine.Execution.step_of_action ha) with hsame | hop
      · rw [hsame]
        exact ih
      · exact ⟨ih.1.trans hop.mono.1, ih.2.trans hop.mono.2⟩

/-- As long as nothing is taken out of it, a queue with something in it has something in it. -/
theorem waits_of_same {m n : ℕ} (hn : m ≤ n) (hwaits : (x.state m).Waits)
    (hsame : (x.state n).queue.taken = (x.state m).queue.taken) : (x.state n).Waits :=
  (hsame.trans_lt hwaits).trans_le (queue_mono hn).2.length_le

end Queue

namespace RunsFairly

variable {x : (machine E cfg).Execution} (h : RunsFairly sinks x)

include h

theorem exists_run (n : ℕ) : ∃ as, (machine E cfg).run (.initial sinks) as = some (x.state n) :=
  exists_run_at h.start n

theorem control (n : ℕ) : Control cfg (x.state n) := by
  obtain ⟨as, has⟩ := h.exists_run n
  exact control_run has

theorem locked (n : ℕ) : Locked cfg (x.state n) := by
  obtain ⟨as, has⟩ := h.exists_run n
  exact locked_run has

theorem books (n : ℕ) : Books sinks (x.state n).ledger := by
  obtain ⟨as, has⟩ := h.exists_run n
  exact books_run has

theorem watched (n : ℕ) : Watched (x.state n) := by
  obtain ⟨as, has⟩ := h.exists_run n
  exact watched_run h.atomic has

/-- `mutex_` is released again and again. -/
theorem exists_unlocked (k : ℕ) : ∃ n ≥ k, (x.state n).mutex = none := by
  refine exists_unlocked_of_rank h.start State.hold ?_ ?_ ?_ ?_
  · intro n _ o ho
    cases o with
    | thread t => exact h.threads t
    | worker => exact h.worker
    | shutdown => cases ho.symm.trans ((h.control n).shutdown_owns (h.running n))
  · exact fun n _ o ho => enabled_of_holds (h.control n) (h.locked n) (h.running n) ho
  · exact fun n _ o a ho ho' ha hs =>
      hold_lt (h.control n) (h.locked n) (h.running n) ho ho' ha hs
  · exact fun n _ o a ho ha hs => hold_eq (h.control n) (h.locked n) ho ha hs

theorem worker_ne_exited (n : ℕ) : (x.state n).worker ≠ .exited := by
  intro hw
  have hk := (h.control n).worker
  rw [hw] at hk
  cases (h.running n).symm.trans hk

/-- The worker moves again and again. -/
theorem exists_moves (k : ℕ) : ∃ n ≥ k, Moves x n := by
  have hsteps : ∀ k, ∃ n ≥ k, ∃ ok, x.action n = some (.worker ok) := by
    intro k
    obtain ⟨n, hn, a, ha, hworker⟩ := h.worker (fun k => by
      obtain ⟨n, hn, hfree⟩ := h.exists_unlocked k
      obtain ⟨ok, s', hs'⟩ : ∃ ok s', workerStep cfg (x.state n) ok = some s' :=
        exists_workerStep_of_free hfree (h.worker_ne_exited n)
      exact ⟨n, hn, .worker ok, s', rfl, hs'⟩) k
    cases a with
    | worker ok => exact ⟨n, hn, ok, ha⟩
    | _ => cases hworker
  by_contra hnone
  have hspurious : ∀ n ≥ k, ∀ ok, x.action n = some (.worker ok) → Spurious (x.state n) ok :=
    fun n hn ok ha => by_contra fun hs => hnone ⟨n, hn, ok, ha, hs⟩
  obtain ⟨j, hj, ok, ha⟩ := hsteps k
  -- from its first spurious failure on the worker stays at the compare-exchange
  have hstays : ∀ n ≥ j, (x.state n).worker.exchanging = true := by
    intro n hn
    induction n, hn using Nat.le_induction with
    | base =>
      obtain ⟨-, ticket, id, rest, hw, -⟩ := hspurious j hj ok ha
      rw [hw]
      rfl
    | succ n hn ih =>
      cases hact : x.action n with
      | none =>
        rw [Machine.Execution.state_of_stutter hact]
        exact ih
      | some a =>
        have hstep : step cfg (x.state n) a = some (x.state (n + 1)) :=
          Machine.Execution.step_of_action hact
        by_cases hworker : a.actor = .worker
        · cases a with
          | worker ok =>
            rw [(hspurious n (hj.trans hn) ok hact).eq hstep]
            exact ih
          | _ => cases hworker
        · rw [(step_scheduled (h.control n) (h.locked n).lockOk hstep).worker hworker]
          exact ih
  obtain ⟨n, hn, hact⟩ := h.exchange j hstays
  obtain ⟨hok, -⟩ := hspurious n (hj.trans hn) true hact
  cases hok

/-- Who is not the worker leaves the worker's distance as it is. -/
theorem distance_other {n : ℕ} {a : Action E} (ha : x.action n = some a)
    (hworker : a.actor ≠ .worker) :
    (x.state (n + 1)).distance cfg = (x.state n).distance cfg ∧
      (x.state (n + 1)).worker = (x.state n).worker := by
  have hstep : step cfg (x.state n) a = some (x.state (n + 1)) :=
    Machine.Execution.step_of_action ha
  have hw := (step_scheduled (h.control n) (h.locked n).lockOk hstep).worker hworker
  have hsinks : (x.state (n + 1)).sinks.length = (x.state n).sinks.length :=
    (h.books (n + 1)).calls.length_sinks.trans (h.books n).calls.length_sinks.symm
  have hcompleted : (x.state (n + 1)).completedFlushId = (x.state n).completedFlushId := by
    rcases step_refined (h.control n) hstep with ⟨-, ⟨-, hl⟩ | hm⟩
    · exact congrArg Ledger.completed hl
    · exact hm.completed_eq (h.running n) (congrArg WorkerPc.held hw)
  exact ⟨by rw [State.distance, State.distance, hw, hsinks, hcompleted], hw⟩

/-! ### The watching thread clears `sleeping_` -/

/-- A thread that is to wake the worker gets to clear `sleeping_`, unless another does. -/
theorem exists_awake {m t : ℕ} (ht : ((x.state m).threads t).wakes = true) :
    ∃ n ≥ m, (x.state n).sleeping = false := by
  by_contra hnone
  have hset : ∀ n ≥ m, (x.state n).sleeping = true := fun n hn =>
    Bool.eq_true_of_not_eq_false fun hs => hnone ⟨n, hn, hs⟩
  have hother : ∀ {n : ℕ} {a : Action E}, x.action n = some a → a.continues ≠ some (.thread t) →
      ((x.state n).threads t).wakes = true →
        (x.state (n + 1)).threads t = (x.state n).threads t := by
    intro n a ha hne hw
    have hstep := Machine.Execution.step_of_action ha
    rcases Action.actor_of_continues hne with hactor | ⟨u, hu, hbegin⟩
    · exact (step_scheduled (h.control n) (h.locked n).lockOk hstep).threads t hactor
    · obtain rfl := Owner.thread.inj hu
      rw [idle_of_begins hbegin hstep] at hw
      cases hw
  -- as long as `sleeping_` is set, the thread is on its way to clear it
  have hwakes : ∀ n ≥ m, ((x.state n).threads t).wakes = true := by
    intro n hn
    induction n, hn using Nat.le_induction with
    | base => exact ht
    | succ n hn ih =>
      cases ha : x.action n with
      | none =>
        rw [Machine.Execution.state_of_stutter ha]
        exact ih
      | some a =>
        by_cases hcont : a.continues = some (.thread t)
        · cases a with
          | thread u ok =>
            obtain rfl := Owner.thread.inj (Option.some.inj hcont)
            have hstep : threadStep cfg (x.state n) u ok = some (x.state (n + 1)) :=
              Machine.Execution.step_of_action ha
            obtain ⟨-, hw | ⟨-, hquiet⟩⟩ := threadStep_wake hstep
            · exact hw
            · cases (hquiet (hset _ (hn.trans (Nat.le_succ n)))).symm.trans ih
          | _ => cases hcont
        · rw [hother ha hcont ih]
          exact ih
  refine hnone (Machine.Execution.exists_of_rank (x := x)
    (P := fun a => a.continues = some (.thread t)) (Q := fun s => s.sleeping = false)
    (fun s => (s.threads t).wakeSteps) ?_ ?_ ?_)
  · intro _
    refine h.threads t fun k => ?_
    obtain ⟨n, hn, hfree⟩ := h.exists_unlocked (max k m)
    have hw := hwakes n ((le_max_right k m).trans hn)
    obtain ⟨ok, s', hs'⟩ : ∃ ok s', threadStep cfg (x.state n) t ok = some s' :=
      exists_threadStep (fun hidle => by rw [hidle] at hw; cases hw) (fun _ => hfree)
        (fun id before hflush => by rw [hflush] at hw; cases hw)
    exact ⟨n, (le_max_left k m).trans hn, .thread t ok, s', rfl, hs'⟩
  · intro n hn a hP ha _
    cases a with
    | thread u ok =>
      obtain rfl := Owner.thread.inj (Option.some.inj hP)
      exact threadStep_wakeSteps (hwakes n hn) (hset n hn) (Machine.Execution.step_of_action ha)
    | _ => cases hP
  · intro n hn a hP ha _
    rw [hother ha hP (hwakes n hn)]
    exact .inr le_rfl

/-! ### The worker takes items out and finishes them -/

/-- What is no move leaves the worker's distance as it is. -/
theorem distance_of_not_moves {n : ℕ} (hmoves : ¬ Moves x n) :
    (x.state (n + 1)).distance cfg = (x.state n).distance cfg := by
  cases ha : x.action n with
  | none => rw [Machine.Execution.state_of_stutter ha]
  | some a =>
    by_cases hworker : a.actor = .worker
    · cases a with
      | worker ok =>
        have hspurious : Spurious (x.state n) ok := by_contra fun hs => hmoves ⟨ok, ha, hs⟩
        have hstep : workerStep cfg (x.state n) ok = some (x.state (n + 1)) :=
          Machine.Execution.step_of_action ha
        rw [hspurious.eq hstep]
      | _ => cases hworker
    · exact (h.distance_other ha hworker).1

/-- What a move of the worker does. -/
theorem works_of_moves {n : ℕ} (hmoves : Moves x n) : Works cfg (x.state n) (x.state (n + 1)) := by
  obtain ⟨ok, ha, hspurious⟩ := hmoves
  obtain ⟨as, has⟩ := h.exists_run n
  exact workerStep_works h.atomic (h.running n) (h.control n).worker (filling_run has) hspurious
    (Machine.Execution.step_of_action ha)

/-- As long as there is something in the queue, the worker takes an item out. -/
theorem exists_worker_taken {m : ℕ} (hall : ∀ n ≥ m, (x.state n).Waits) :
    ∃ n ≥ m, ∃ ok, x.action n = some (.worker ok) ∧
      (x.state n).queue.taken < (x.state (n + 1)).queue.taken := by
  by_contra hnone
  have hstay : ∀ n ≥ m, ∀ ok, x.action n = some (.worker ok) →
      ¬ (x.state n).queue.taken < (x.state (n + 1)).queue.taken :=
    fun n hn ok ha hlt => hnone ⟨n, hn, ok, ha, hlt⟩
  -- a worker that takes nothing out ends in a wait with `sleeping_` set, again and again
  have hdozes : ∀ k ≥ m, ∃ n ≥ k, (x.state n).worker = .waitSleeping ∧
      (x.state n).sleeping = true := by
    intro k hk
    refine Machine.Execution.exists_of_moves (x := x) (Q := fun s => s.worker = .waitSleeping ∧
      s.sleeping = true) (State.distance cfg) (Moves x) (fun _ => h.exists_moves) ?_ ?_
    · intro n hn hmoves hq
      rcases h.works_of_moves hmoves with hlt | ⟨-, htaken | hempty | hwait⟩
      · exact .inr hlt
      · obtain ⟨ok, ha, -⟩ := hmoves
        exact absurd htaken (hstay n (hk.trans hn) ok ha)
      · exact absurd (hall n (hk.trans hn)) hempty
      · exact absurd hwait hq
    · exact fun n _ hmoves _ => .inr (h.distance_of_not_moves hmoves).le
  obtain ⟨n₁, hn₁, hw, hs⟩ := hdozes m le_rfl
  -- from there on it returns, and nobody sets `sleeping_`
  have hstep : ∀ n ≥ n₁, (x.state n).worker.returning = true →
      (x.state (n + 1)).worker.returning = true ∧
        ((x.state (n + 1)).sleeping = true → (x.state n).sleeping = true) := by
    intro n hn hret
    cases ha : x.action n with
    | none =>
      rw [Machine.Execution.state_of_stutter ha]
      exact ⟨hret, id⟩
    | some a =>
      have hact : step cfg (x.state n) a = some (x.state (n + 1)) :=
        Machine.Execution.step_of_action ha
      by_cases hworker : a.actor = .worker
      · cases a with
        | worker ok =>
          rcases workerStep_returning h.atomic (h.running n) hret (hall n (hn₁.trans hn)) hact with
            htaken | ⟨hret', hsleep⟩
          · exact absurd htaken (hstay n (hn₁.trans hn) ok ha)
          · exact ⟨hret', fun hset => hsleep ▸ hset⟩
        | _ => cases hworker
      · rw [(h.distance_other ha hworker).2]
        exact ⟨hret, step_sleeping hworker hact⟩
  have hreturning : ∀ n ≥ n₁, (x.state n).worker.returning = true := by
    intro n hn
    induction n, hn using Nat.le_induction with
    | base =>
      rw [hw]
      rfl
    | succ n hn ih => exact (hstep n hn ih).1
  -- so the watching thread wakes it for good
  obtain ⟨t, ht⟩ := h.watched n₁ (by rw [hw]; rfl) hs (hall n₁ hn₁)
  obtain ⟨n₂, hn₂, hclear⟩ := h.exists_awake ht
  have hawake : ∀ n ≥ n₂, (x.state n).sleeping = false := by
    intro n hn
    induction n, hn using Nat.le_induction with
    | base => exact hclear
    | succ n hn ih =>
      refine Bool.eq_false_iff.mpr fun hset => ?_
      cases ((hstep n (hn₂.trans hn) (hreturning n (hn₂.trans hn))).2 hset).symm.trans ih
  obtain ⟨n₃, hn₃, -, hset⟩ := hdozes n₂ (hn₁.trans hn₂)
  cases hset.symm.trans (hawake n₃ hn₃)

/-- The oldest item in the queue is taken out. -/
theorem exists_taken {m : ℕ} (hwaits : (x.state m).Waits) :
    ∃ n ≥ m, (x.state m).queue.taken < (x.state n).queue.taken := by
  by_contra hnone
  have hsame : ∀ n ≥ m, (x.state n).queue.taken = (x.state m).queue.taken := fun n hn =>
    le_antisymm (Nat.le_of_not_lt fun hlt => hnone ⟨n, hn, hlt⟩) (queue_mono hn).1
  obtain ⟨n, hn, -, -, hlt⟩ :=
    h.exists_worker_taken fun n hn => waits_of_same hn hwaits (hsame n hn)
  rw [hsame n hn, hsame (n + 1) (hn.trans (Nat.le_succ n))] at hlt
  exact lt_irrefl _ hlt

/-- Every ticket is taken out. -/
theorem exists_taken_ticket {m p : ℕ} (hp : p < (x.state m).queue.accepted.length) :
    ∃ n ≥ m, p < (x.state n).queue.taken := by
  have hreach : ∀ d, ∃ n ≥ m, (x.state m).queue.taken + d ≤ (x.state n).queue.taken ∨
      p < (x.state n).queue.taken := by
    intro d
    induction d with
    | zero => exact ⟨m, le_rfl, .inl le_rfl⟩
    | succ d ih =>
      obtain ⟨n, hn, hle | hlt⟩ := ih
      · rcases Nat.lt_or_ge p (x.state n).queue.taken with hlt | hge
        · exact ⟨n, hn, .inr hlt⟩
        · have hlen := (queue_mono (x := x) hn).2.length_le
          obtain ⟨k, hk, htaken⟩ := h.exists_taken (m := n) (hge.trans_lt (hp.trans_le hlen))
          exact ⟨k, hn.trans hk, .inl (Nat.succ_le_of_lt (hle.trans_lt htaken))⟩
      · exact ⟨n, hn, .inr hlt⟩
  obtain ⟨n, hn, hle | hlt⟩ := hreach (p + 1)
  · exact ⟨n, hn, (Nat.lt_succ_self p).trans_le ((Nat.le_add_left _ _).trans hle)⟩
  · exact ⟨n, hn, hlt⟩

/-- What the worker has in hand it finishes. -/
theorem exists_done {m : ℕ} {y : Ticketed E} (hy : y ∈ (x.state m).worker.held) :
    ∃ n ≥ m, y ∈ (x.state n).history.done := by
  have hkept : ∀ n ≥ m, y ∈ (x.state n).worker.held ∨ y ∈ (x.state n).history.done := by
    intro n hn
    induction n, hn using Nat.le_induction with
    | base => exact .inl hy
    | succ n hn ih =>
      cases ha : x.action n with
      | none =>
        rw [Machine.Execution.state_of_stutter ha]
        exact ih
      | some a =>
        rcases step_refined (h.control n) (Machine.Execution.step_of_action ha) with
          ⟨-, ⟨-, hl⟩ | hm⟩
        · change y ∈ (x.state (n + 1)).ledger.held ∨ y ∈ (x.state (n + 1)).ledger.done
          rw [hl]
          exact ih
        · exact hm.held_or_done (h.running n) ih
  refine Machine.Execution.exists_of_moves (x := x) (Q := fun s => y ∈ s.history.done)
    (State.distance cfg) (Moves x) (fun _ => h.exists_moves) ?_ ?_
  · intro n hn hmoves hq
    rcases h.works_of_moves hmoves with hlt | ⟨hheld, -⟩
    · exact .inr hlt
    · have hin := (hkept n hn).resolve_right hq
      rw [hheld] at hin
      cases hin
  · exact fun n _ hmoves _ => .inr (h.distance_of_not_moves hmoves).le

end RunsFairly

/-! ## Every item that obtained a place -/

/-- The id of a flush request that was processed is completed. -/
theorem completed_of_done {p i : ℕ} (h : (machine E cfg).run (.initial sinks) as = some s)
    (hd : (p, QueueItem.flushRequest i) ∈ s.history.done) :
    WithTop.some i ≤ s.completedFlushId := by
  refine ledger_invariant (I := fun l => ∀ p i, (p, QueueItem.flushRequest i) ∈ l.done →
    WithTop.some i ≤ l.completed) ?_ (fun _ _ => nofun) h p i hd
  intro b l l' hi m p i hd
  cases m with
  | finishEvent =>
    rcases List.mem_append.mp hd with hd | hd
    · exact hi p i hd
    · cases List.mem_singleton.mp hd
  | finishFlush hx hp hle hc =>
    rcases List.mem_append.mp hd with hd | hd
    · refine (hi p i hd).trans ?_
      rcases hc with rfl | ⟨hlt, -⟩
      · exact le_rfl
      · exact hlt.le
    · cases List.mem_singleton.mp hd
      exact hle
  | raise hs hlt => exact (hi p i hd).trans hlt.le
  | store => exact le_top
  | _ => exact hi p i hd

/-- **Every accepted item is processed.** In every execution without `shutdown` that schedules
threads and worker fairly, with any overflow policy and however their waits end: an
event or flush request that has obtained a place in the queue is taken out by a `drop_oldest`
producer, or the worker finishes with it, and has then called every sink for it and completed
its flush id. -/
theorem item_processed {x : (machine E cfg).Execution} (h : RunsFairly sinks x) {m p : ℕ}
    {item : QueueItem E} (hp : (x.state m).queue.accepted[p]? = some item) :
    ∃ n ≥ m, (∃ t, (p, t) ∈ (x.state n).history.evicted) ∨
      (p, item) ∈ (x.state n).history.done ∧
        (∀ k < sinks.length, ⟨k, sinkOp (p, item)⟩ ∈ (x.state n).history.calls) ∧
        ∀ i, item.flushId = some i → WithTop.some i ≤ (x.state n).completedFlushId := by
  -- what is done has been done to every sink
  have hfinal : ∀ n ≥ m, (p, item) ∈ (x.state n).history.done →
      (∀ k < sinks.length, ⟨k, sinkOp (p, item)⟩ ∈ (x.state n).history.calls) ∧
        ∀ i, item.flushId = some i → WithTop.some i ≤ (x.state n).completedFlushId := by
    intro n _ hd
    refine ⟨fun k hk => ?_, fun i hi => ?_⟩
    · change _ ∈ (x.state n).ledger.calls
      rw [(h.books n).calls.calls, List.append_assoc]
      exact List.mem_append_left _ (List.mem_flatMap.mpr ⟨_, hd, mem_script _ hk⟩)
    · obtain ⟨as, has⟩ := h.exists_run n
      cases item with
      | event c e => cases hi
      | flushRequest j =>
        obtain rfl := Option.some.inj hi
        exact completed_of_done has hd
  obtain ⟨n, hn, htaken⟩ := h.exists_taken_ticket (List.getElem?_eq_some_iff.mp hp).1
  have hitem : (x.state n).queue.accepted[p]? = some item := by
    obtain ⟨rest, hrest⟩ := (queue_mono hn).2
    rw [← hrest, List.getElem?_append_left (List.getElem?_eq_some_iff.mp hp).1]
    exact hp
  have htickets := (h.books n).tickets
  have hlost : (x.state n).history.lost = [] := (h.books n).barrier.lost (h.running n)
  obtain he | hh := List.mem_append.mp
    (htickets.custody.mem_iff.mpr (List.mem_range.mpr htaken))
  · obtain ⟨⟨q, t⟩, hq, rfl⟩ := List.mem_map.mp he
    exact ⟨n, hn, .inl ⟨t, hq⟩⟩
  · obtain ⟨⟨q, item'⟩, hq, rfl⟩ := List.mem_map.mp hh
    obtain rfl : item' = item := Option.some.inj ((htickets.items _ hq).symm.trans hitem)
    rw [Ledger.handed, show (x.state n).ledger.lost = [] from hlost, List.append_nil] at hq
    rcases List.mem_append.mp hq with hd | hheld
    · exact ⟨n, hn, .inr ⟨hd, hfinal n hn hd⟩⟩
    · obtain ⟨k, hk, hd⟩ := h.exists_done hheld
      exact ⟨k, hn.trans hk, .inr ⟨hd, hfinal k (hn.trans hk) hd⟩⟩

/-! ## Executions in which the worker waits for ever -/

/-- The worker waits with `sleeping_` set, nobody has the lock, and every thread is idle or waits
for a change of `completed_flush_id_`. -/
structure State.AtRest (s : State E) : Prop where
  worker : s.worker = .waiting
  mutex : s.mutex = none
  stopping : s.stopping = false
  sleeping : s.sleeping = true
  threads : ∀ t, s.threads t = .idle ∨
    ∃ id before, s.threads t = .flush id before (.wait s.completedFlushId)

/-- The wait of the worker, woken up for nothing. -/
def doze : List (Action E) := [.worker true, .worker true, .worker true]

/-- Woken up for nothing, the worker goes back to its wait. -/
theorem State.AtRest.run_doze (h : s.AtRest) : (machine E cfg).run s doze = some s := by
  obtain ⟨hw, hm, hs, hsleep, -⟩ := h
  cases s
  simp only at hw hm hs hsleep
  subst hw hm hs hsleep
  rfl

/-- Along the loop nothing happens that a thread waits for. -/
theorem State.AtRest.prefix_doze (h : s.AtRest) {cs : List (Action E)} {u : State E}
    (hcs : cs <+: doze) (hu : (machine E cfg).run s cs = some u) :
    u.threads = s.threads ∧ u.completedFlushId = s.completedFlushId := by
  obtain ⟨hw, hm, hs, hsleep, -⟩ := h
  cases s
  simp only at hw hm hs hsleep
  subst hw hm hs hsleep
  have hlen : cs = doze.take cs.length := List.prefix_iff_eq_take.mp hcs
  have hle : cs.length ≤ 3 := hcs.length_le
  rw [hlen] at hu
  obtain h0 | h1 | h2 | h3 : cs.length = 0 ∨ cs.length = 1 ∨ cs.length = 2 ∨ cs.length = 3 := by
    omega
  · rw [h0] at hu
    cases hu
    exact ⟨rfl, rfl⟩
  · rw [h1] at hu
    cases hu
    exact ⟨rfl, rfl⟩
  · rw [h2] at hu
    cases hu
    exact ⟨rfl, rfl⟩
  · rw [h3] at hu
    cases hu
    exact ⟨rfl, rfl⟩

/-- A thread that is idle or waits for a change does not go on. -/
theorem not_enabled_of_atRest {t : ℕ} (h : s.threads t = .idle ∨
    ∃ id before, s.threads t = .flush id before (.wait s.completedFlushId)) :
    ¬ (machine E cfg).Enabled (fun a => a.continues = some (.thread t)) s := by
  rintro ⟨a, s', ha, hs'⟩
  cases a with
  | thread u ok =>
    obtain rfl := Owner.thread.inj (Option.some.inj ha)
    replace hs' : threadStep cfg s u ok = some s' := hs'
    rw [threadStep] at hs'
    rcases h with hidle | ⟨id, before, hwait⟩
    · rw [hidle] at hs'
      cases hs'
    · rw [hwait] at hs'
      simp only [flushWait, if_true] at hs'
      cases hs'
  | _ => cases ha

/-- An execution in which nobody calls `shutdown` is one of a running dispatcher. -/
theorem running_of_actions {x : (machine E cfg).Execution} (h₀ : x.state 0 = .initial sinks)
    (hact : ∀ n a, x.action n = some a → a.actor ≠ .shutdown) (n : ℕ) :
    (x.state n).stopping = false := by
  have hnot : (x.state n).shutdown = .notStarted := by
    induction n with
    | zero =>
      rw [h₀]
      rfl
    | succ n ih =>
      cases ha : x.action n with
      | none => rw [Machine.Execution.state_of_stutter ha, ih]
      | some a =>
        obtain ⟨as, has⟩ := exists_run_at h₀ n
        have hstep : step cfg (x.state n) a = some (x.state (n + 1)) :=
          Machine.Execution.step_of_action ha
        rw [(step_scheduled (control_run has) (locked_run has).lockOk hstep).shutdown
          (hact n a ha), ih]
  obtain ⟨as, has⟩ := exists_run_at h₀ n
  exact Bool.eq_false_iff.mpr fun hs => (control_run has).stopping.mp hs hnot

/-- A run to a state at rest, and then the worker waits for ever. -/
def restingExecution (has : (machine E cfg).run (.initial sinks) as = some s) (h : s.AtRest) :
    (machine E cfg).Execution :=
  .lasso has h.run_doze (List.cons_ne_nil _ _)

/-- Such an execution is fair. -/
theorem runsFairly_restingExecution (hatomic : cfg.atomicQueue = true)
    (has : (machine E cfg).run (.initial sinks) as = some s) (h : s.AtRest)
    (hact : ∀ a ∈ as, a.actor ≠ .shutdown) : RunsFairly sinks (restingExecution has h) where
  start := Machine.Execution.lasso_state_zero _ _ _
  atomic := hatomic
  running := running_of_actions (Machine.Execution.lasso_state_zero _ _ _) fun n a ha => by
    rcases Machine.Execution.mem_of_lasso_action _ _ _ ha with ha | ha
    · exact hact a ha
    · simp only [doze, List.mem_cons, List.not_mem_nil, or_false, or_self] at ha
      rw [ha]
      nofun
  threads t := Machine.Execution.lasso_fair_of_rest _ _ _ fun cs u hcs hu => by
    obtain ⟨hthreads, hcompleted⟩ := h.prefix_doze hcs hu
    refine not_enabled_of_atRest ?_
    rw [hthreads, hcompleted]
    exact h.threads t
  worker _ k := by
    obtain ⟨n, hn, ha⟩ := Machine.Execution.lasso_recurs has h.run_doze
      (List.cons_ne_nil _ _) (List.mem_cons_self ..) k
    exact ⟨n, hn, _, ha, rfl⟩
  exchange k _ := Machine.Execution.lasso_recurs has h.run_doze (List.cons_ne_nil _ _)
    (List.mem_cons_self ..) k

/-- The worker waits. -/
def WorkerPc.isWaiting : WorkerPc E → Bool
  | waiting => true
  | _ => false

theorem WorkerPc.eq_waiting {pc : WorkerPc E} (h : pc.isWaiting = true) : pc = .waiting := by
  cases pc with
  | waiting => rfl
  | _ => cases h

/-- A thread dispatches an event, and the worker waits when it has written it. -/
def deliveryRun : List (Action ℕ) :=
  .dispatch 0 7 :: steps 0 [true, true, true, true] ++
    [true, true, true, false, true, true, true, true, true, false, true, false, true, true, true,
      true].map .worker

theorem atRest_deliveryRun : ∃ s, (machine ℕ defaults).run (.initial [quietSink ℕ]) deliveryRun =
    some s ∧ s.AtRest ∧ s.queue.accepted[0]? = some (.event 0 7) := by
  have hrun : ((machine ℕ defaults).run (.initial [quietSink ℕ]) deliveryRun).map (fun s =>
      (s.worker.isWaiting, s.mutex.isNone, s.stopping, s.sleeping, decide (s.threads 0 = .idle),
        decide (s.queue.accepted[0]? = some (.event 0 7)))) =
      some (true, true, false, true, true, true) := by decide
  obtain ⟨s, hs, heq⟩ := Option.map_eq_some_iff.mp hrun
  simp only [Prod.mk.injEq, decide_eq_true_eq] at heq
  obtain ⟨hw, hm, hst, hsl, ht, haccepted⟩ := heq
  have hothers : ∀ u, u ≠ 0 → s.threads u = .idle := by
    intro u hu
    refine idle_run (fun a ha hact => hu ?_) hs
    have hactor : ∀ a ∈ deliveryRun, a.actor = .thread 0 ∨ a.actor = .worker := by decide
    rcases hactor a ha with h | h <;> rw [h] at hact <;> cases hact
    rfl
  refine ⟨s, hs, ⟨WorkerPc.eq_waiting hw, Option.isNone_iff_eq_none.mp hm, hst, hsl,
    fun t => .inl ?_⟩, haccepted⟩
  rcases eq_or_ne t 0 with rfl | hne
  · exact ht
  · exact hothers t hne

/-- An execution in which the event of the run is processed. -/
theorem item_processed_deliveryRun :
    ∃ (x : (machine ℕ defaults).Execution) (m : ℕ), RunsFairly [quietSink ℕ] x ∧
      (x.state m).queue.accepted[0]? = some (.event 0 7) ∧
      ∃ n ≥ m, (∃ t, (0, t) ∈ (x.state n).history.evicted) ∨
        (0, QueueItem.event 0 7) ∈ (x.state n).history.done ∧
          (∀ k < [quietSink ℕ].length,
            ⟨k, sinkOp (0, .event 0 7)⟩ ∈ (x.state n).history.calls) ∧
          ∀ i, (QueueItem.event 0 7).flushId = some i →
            WithTop.some i ≤ (x.state n).completedFlushId := by
  obtain ⟨s, hs, hrest, haccepted⟩ := atRest_deliveryRun
  have hfair := runsFairly_restingExecution rfl hs hrest (by decide)
  have hp : ((restingExecution hs hrest).state deliveryRun.length).queue.accepted[0]? =
      some (.event 0 7) := by
    have hstate := Machine.Execution.lasso_state_of_le hs hrest.run_doze
      (List.cons_ne_nil _ _) (Nat.le_refl deliveryRun.length)
    rw [List.take_length, hs] at hstate
    change (Machine.Execution.state (restingExecution hs hrest) _).queue.accepted[0]? = _
    rw [restingExecution, ← Option.some.inj hstate]
    exact haccepted
  exact ⟨_, _, hfair, hp, item_processed hfair hp⟩

end AsyncDispatcher

end Logspine
