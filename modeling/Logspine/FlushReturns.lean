import Logspine.Execution
import Logspine.FlushRequests
import Logspine.Locking

/-!
# Every `flush()` returns, but for one race

A flush id that was drawn is completed, or its one request is alive, or `shutdown`
is still to store the maximum (`Requests`). What is left is the wait loop of `flush`:

    while (completed_flush_id_.load() < flush_id)
      completed_flush_id_.wait(completed_flush_id_.load());

The second load can read the maximum that `shutdown` stored after the first. Then the
thread waits for a change of a value that never changes again. Without that race
every call returns once the maximum is stored, under any fair scheduler.
-/

namespace Logspine

namespace AsyncDispatcher

variable {E : Type} {cfg : Config} {sinks : List (Sink E)} {l l' : Ledger E} {s s' : State E}
  {as bs : List (Action E)}

/-! ## The completed id -/

/-- `completed_flush_id_` never decreases, and only `shutdown` stores the maximum. -/
theorem Ledger.Move.completed {b : Entry E} (m : Ledger.Move cfg b l l') :
    l.completed ≤ l'.completed ∧
      ((l.completed = ⊤ → l.stored = true) → l'.completed = ⊤ → l'.stored = true) := by
  cases m with
  | raise hs hi => exact ⟨hi.le, fun _ => nofun⟩
  | finishFlush hx hp hle hc =>
    rcases hc with rfl | ⟨hlt, rfl⟩
    · exact ⟨le_rfl, id⟩
    · exact ⟨hlt.le, fun _ => nofun⟩
  | store hs => exact ⟨le_top, fun _ _ => rfl⟩
  | _ => exact ⟨le_rfl, id⟩

theorem step_completed {a : Action E} (hc : Control cfg s) (h : step cfg s a = some s') :
    s.completedFlushId ≤ s'.completedFlushId := by
  rcases step_refined hc h with ⟨-, ⟨-, hl⟩ | hm⟩
  · exact (congrArg Ledger.completed hl).ge
  · exact hm.completed.1

theorem completed_run (hc : Control cfg s) (h : (machine E cfg).run s bs = some s') :
    s.completedFlushId ≤ s'.completedFlushId := by
  refine (Machine.invariant_run (I := fun r => Control cfg r ∧
    s.completedFlushId ≤ r.completedFlushId) ?_ ⟨hc, le_rfl⟩ h).2
  rintro r a r' ⟨hc, hle⟩ ha
  exact ⟨(step_refined hc ha).1, hle.trans (step_completed hc ha)⟩

theorem stored_of_completed (h : (machine E cfg).run (.initial sinks) as = some s)
    (htop : s.completedFlushId = ⊤) : s.shutdown.stored = true :=
  ledger_invariant (I := fun l => l.completed = ⊤ → l.stored = true)
    (fun _ _ _ hi m => m.completed.2 hi) nofun h htop

/-- Whoever stored the maximum set `stopping_` before. -/
theorem Control.stopping_of_stored (h : Control cfg s) (hs : s.shutdown.stored = true) :
    s.stopping = true := h.stopping.mpr fun hn => by rw [hn] at hs; cases hs

/-! ## Fair executions -/

/-- Who goes on with what it is doing; clients begin calls when they like. -/
def Action.continues : Action E → Option Owner
  | dispatch _ _ | flush _ => none
  | thread t _ => some (.thread t)
  | worker _ => some .worker
  | shutdown _ => some .shutdown

/-- Every thread, the worker and `shutdown` are scheduled fairly. -/
def FairlyScheduled (x : (machine E cfg).Execution) : Prop :=
  ∀ o, x.Fair fun a => a.continues = some o

/-- The step is the load of the argument of `wait`, and it reads the maximum. -/
def ReadsMax (s : State E) : Action E → Prop
  | .thread t _ => s.completedFlushId = ⊤ ∧ ∃ id before, s.threads t = .flush id before .argument
  | _ => False

/-- An actor that does not go on with what it is doing begins a call. -/
theorem Action.actor_of_continues {a : Action E} {o : Owner} (h : a.continues ≠ some o) :
    a.actor ≠ o ∨ ∃ t, o = .thread t ∧ (a = .flush t ∨ ∃ e, a = .dispatch t e) := by
  by_cases ho : a.actor = o
  · subst ho
    cases a with
    | dispatch t e => exact .inr ⟨t, rfl, .inr ⟨e, rfl⟩⟩
    | flush t => exact .inr ⟨t, rfl, .inl rfl⟩
    | _ => exact absurd rfl h
  · exact .inl ho

/-- A call begins on an idle thread. -/
theorem idle_of_begins {a : Action E} {t : ℕ} (ha : a = .flush t ∨ ∃ e, a = .dispatch t e)
    (h : step cfg s a = some s') : s.threads t = .idle := by
  rcases ha with rfl | ⟨e, rfl⟩ <;>
  · rw [step] at h
    split at h
    case h_1 ht => exact ht
    case h_2 => cases h

/-- The maximum is stored, and everybody can see `stopping_`. -/
structure State.Settled (s : State E) : Prop where
  completed : s.completedFlushId = ⊤
  stored : s.shutdown.stored = true
  stopping : s.stopping = true

/-- A bound on the steps of `o` before it gives the lock back. -/
def State.lockRank (s : State E) : Owner → ℕ
  | .thread t => (s.threads t).rank
  | .worker => s.worker.rank
  | .shutdown => 0

theorem ShutdownPc.owns_of_stored {pc : ShutdownPc} (h : pc.stored = true) : pc.owns = false := by
  cases pc <;> first | rfl | cases h

theorem ne_idle_of_owns {t : ℕ} (h : s.owns (.thread t) = true) : s.threads t ≠ .idle := by
  intro ht
  change (s.threads t).owns = true at h
  rw [ht] at h
  cases h

/-- Whoever holds the lock can go on. -/
theorem enabled_of_owns {o : Owner} (hl : Locked cfg s) (hs : s.Settled)
    (hw : ∀ t id before, s.threads t ≠ .flush id before (.wait ⊤)) (ho : s.owns o = true) :
    (machine E cfg).Enabled (fun a => a.continues = some o) s := by
  cases o with
  | thread t =>
    obtain ⟨ok, s', hs'⟩ := exists_threadStep (ne_idle_of_owns ho)
      ((hl.lockOk t).free (.inr ho)) (hs.completed ▸ hw t)
    exact ⟨.thread t ok, s', rfl, hs'⟩
  | worker =>
    obtain ⟨ok, s', hs'⟩ : ∃ ok s', workerStep cfg s ok = some s' := exists_workerStep ho
    exact ⟨.worker ok, s', rfl, hs'⟩
  | shutdown => exact nomatch ho.symm.trans (ShutdownPc.owns_of_stored hs.stored)

/-- A step of the owner brings it closer to giving the lock back. -/
theorem lockRank_lt {a : Action E} {o : Owner} (hc : Control cfg s) (hl : Locked cfg s)
    (hs : s.Settled) (ho : s.owns o = true) (ho' : s'.owns o = true)
    (ha : a.continues = some o) (h : step cfg s a = some s') : s'.lockRank o < s.lockRank o := by
  cases a with
  | dispatch t e => cases ha
  | flush t => cases ha
  | thread t ok =>
    obtain rfl := Option.some.inj ha
    exact (threadStep_step (hc.threads t) (hl.lockOk t) h).rank hs.stopping hs.completed
  | worker ok =>
    obtain rfl := Option.some.inj ha
    exact (workerStep_step h).rank ho ho'
  | shutdown ok =>
    obtain rfl := Option.some.inj ha
    exact nomatch ho.symm.trans (ShutdownPc.owns_of_stored hs.stored)

/-- A step of another leaves the owner where it is. -/
theorem lockRank_eq {a : Action E} {o : Owner} (hc : Control cfg s) (hl : Locked cfg s)
    (ho : s.owns o = true) (ha : a.continues ≠ some o) (h : step cfg s a = some s') :
    s'.lockRank o = s.lockRank o := by
  rcases Action.actor_of_continues ha with hne | ⟨t, rfl, hbegin⟩
  · have hm := step_scheduled hc hl.lockOk h
    cases o with
    | thread t => exact congrArg Pc.rank (hm.threads t hne)
    | worker => exact congrArg WorkerPc.rank (hm.worker hne)
    | shutdown => rfl
  · exact absurd (idle_of_begins hbegin h) (ne_idle_of_owns ho)

section Fair

variable {x : (machine E cfg).Execution} {n₀ : ℕ}

theorem exists_run_at (h₀ : x.state 0 = .initial sinks) (n : ℕ) :
    ∃ as, (machine E cfg).run (.initial sinks) as = some (x.state n) := h₀ ▸ x.exists_run n

/-- The stored maximum stays. -/
theorem settled_from (h₀ : x.state 0 = .initial sinks)
    (hstored : (x.state n₀).shutdown.stored = true) :
    ∀ n ≥ n₀, (x.state n).Settled := by
  intro n hn
  have htop : (x.state n).completedFlushId = ⊤ := by
    refine (Machine.Execution.invariant_from (I := fun s => Control cfg s ∧
      s.completedFlushId = ⊤) ?_ ?_ n hn).2
    · rintro s a s' ⟨hc, htop⟩ ha
      exact ⟨(step_refined hc ha).1, top_le_iff.mp (htop ▸ step_completed hc ha)⟩
    · obtain ⟨as, has⟩ := exists_run_at h₀ n₀
      exact ⟨control_run has, (books_run has).requests.stored hstored⟩
  obtain ⟨as, has⟩ := exists_run_at h₀ n
  have hs := stored_of_completed has htop
  exact ⟨htop, hs, (control_run has).stopping_of_stored hs⟩

/-- Without the race nobody waits for the maximum to change. -/
theorem not_waiting_for_max (h₀ : x.state 0 = .initial sinks)
    (hrace : ∀ n a, x.action n = some a → ¬ ReadsMax (x.state n) a) :
    ∀ n t id before, (x.state n).threads t ≠ .flush id before (.wait ⊤) := by
  intro n
  induction n with
  | zero =>
    intro t id before
    rw [h₀]
    exact nofun
  | succ n ih =>
    intro t id before heq
    cases ha : x.action n with
    | none => exact ih t id before (Machine.Execution.state_of_stutter ha ▸ heq)
    | some a =>
      have hstep := Machine.Execution.step_of_action ha
      obtain ⟨as, has⟩ := exists_run_at h₀ n
      have hl := locked_run has
      by_cases hact : a.continues = some (.thread t)
      · cases a with
        | thread u ok =>
          obtain rfl := Owner.thread.inj (Option.some.inj hact)
          have hts := threadStep_step ((control_run has).threads u) (hl.lockOk u) hstep
          obtain ⟨htop, harg⟩ := hts.wait id before heq
          exact hrace n _ ha ⟨htop, id, before, harg⟩
        | _ => cases hact
      · rcases Action.actor_of_continues hact with hne | ⟨u, hu, hbegin⟩
        · have hsame := (step_scheduled (control_run has) hl.lockOk hstep).threads t hne
          exact ih t id before (hsame ▸ heq)
        · obtain rfl := Owner.thread.inj hu
          have hidle := idle_of_begins hbegin hstep
          rcases hbegin with rfl | ⟨e, rfl⟩ <;>
          · simp only [machine, step, hidle, Option.some.injEq] at hstep
            rw [← hstep, State.goto] at heq
            simp only [Function.update_self] at heq
            cases heq

/-- A lock that is never free never changes hands. -/
theorem mutex_kept (h₀ : x.state 0 = .initial sinks) {k : ℕ} {o : Owner}
    (hlocked : ∀ n ≥ k, (x.state n).mutex ≠ none) (ho : (x.state k).mutex = some o) :
    ∀ n ≥ k, (x.state n).mutex = some o := by
  intro n hn
  induction n, hn using Nat.le_induction with
  | base => exact ho
  | succ n hn ih =>
    cases ha : x.action n with
    | none => rw [Machine.Execution.state_of_stutter ha, ih]
    | some a =>
      obtain ⟨as, has⟩ := exists_run_at h₀ n
      have hm := step_scheduled (control_run has) (locked_run has).lockOk
        (Machine.Execution.step_of_action ha)
      rcases hm.mutex with ⟨hsame, -⟩ | ⟨hfree, -⟩ | ⟨-, hfree, -⟩
      · rw [hsame, ih]
      · exact absurd hfree (hlocked n hn)
      · exact absurd hfree (hlocked (n + 1) (hn.trans (Nat.le_succ n)))

/-- A lock is released again and again, when its owner can always go on and each of its steps
lowers a rank that nobody else raises. -/
theorem exists_unlocked_of_rank (h₀ : x.state 0 = .initial sinks) (rank : State E → Owner → ℕ)
    {k : ℕ} (hfair : ∀ n ≥ k, ∀ o, (x.state n).owns o = true → x.Fair fun a => a.continues = some o)
    (henabled : ∀ n ≥ k, ∀ o, (x.state n).owns o = true →
      (machine E cfg).Enabled (fun a => a.continues = some o) (x.state n))
    (hown : ∀ n ≥ k, ∀ o a, (x.state n).owns o = true → (x.state (n + 1)).owns o = true →
      a.continues = some o → step cfg (x.state n) a = some (x.state (n + 1)) →
        rank (x.state (n + 1)) o < rank (x.state n) o)
    (hother : ∀ n ≥ k, ∀ o a, (x.state n).owns o = true → a.continues ≠ some o →
      step cfg (x.state n) a = some (x.state (n + 1)) →
        rank (x.state (n + 1)) o = rank (x.state n) o) :
    ∃ n ≥ k, (x.state n).mutex = none := by
  by_contra hnone
  have hlocked : ∀ n ≥ k, (x.state n).mutex ≠ none := fun n hn h => hnone ⟨n, hn, h⟩
  obtain ⟨o, ho⟩ := Option.ne_none_iff_exists'.mp (hlocked k le_rfl)
  have hkeep := mutex_kept h₀ hlocked ho
  have howns : ∀ n ≥ k, (x.state n).owns o = true := fun n hn => by
    obtain ⟨as, has⟩ := exists_run_at h₀ n
    exact ((locked_run has).owner o).mpr (hkeep n hn)
  -- the owner can always go on, and each of its steps brings it closer to giving the lock back
  obtain ⟨n, hn, hQ⟩ := Machine.Execution.exists_of_rank (x := x) (m := k)
    (P := fun a => a.continues = some o) (Q := fun s => s.mutex ≠ some o)
    (fun s => rank s o)
    (fun _ => hfair k le_rfl o (howns k le_rfl) fun j =>
      ⟨max j k, le_max_left j k, henabled _ (le_max_right j k) o (howns _ (le_max_right j k))⟩)
    (fun n hn a hP ha _ => .inr (hown n hn o a (howns n hn)
      (howns (n + 1) (hn.trans (Nat.le_succ n))) hP (Machine.Execution.step_of_action ha)))
    (fun n hn a hP ha _ => .inr (hother n hn o a (howns n hn) hP
      (Machine.Execution.step_of_action ha)).le)
  exact hQ (hkeep n hn)

/-- The lock is released again and again. -/
theorem exists_unlocked (h₀ : x.state 0 = .initial sinks) (hfair : FairlyScheduled x)
    (hsettled : ∀ n ≥ n₀, (x.state n).Settled)
    (hwait : ∀ n t id before, (x.state n).threads t ≠ .flush id before (.wait ⊤)) :
    ∀ k ≥ n₀, ∃ n ≥ k, (x.state n).mutex = none := by
  intro k hk
  refine exists_unlocked_of_rank h₀ State.lockRank (fun _ _ o _ => hfair o) ?_ ?_ ?_
  · intro n hn o ho
    obtain ⟨as, has⟩ := exists_run_at h₀ n
    exact enabled_of_owns (locked_run has) (hsettled n (hk.trans hn)) (hwait n) ho
  · intro n hn o a ho ho' ha h
    obtain ⟨as, has⟩ := exists_run_at h₀ n
    exact lockRank_lt (control_run has) (locked_run has) (hsettled n (hk.trans hn)) ho ho' ha h
  · intro n hn o a ho ha h
    obtain ⟨as, has⟩ := exists_run_at h₀ n
    exact lockRank_eq (control_run has) (locked_run has) ho ha h

/-- Once the maximum is stored every call returns, unless its thread waits for the
maximum to change. -/
theorem exists_returned (h₀ : x.state 0 = .initial sinks) (hfair : FairlyScheduled x)
    (hstored : (x.state n₀).shutdown.stored = true)
    (hwait : ∀ n t id before, (x.state n).threads t ≠ .flush id before (.wait ⊤)) (t : ℕ) :
    ∃ n ≥ n₀, (x.state n).threads t = .idle := by
  have hsettled := settled_from h₀ hstored
  refine Machine.Execution.exists_of_rank (x := x) (m := n₀)
    (P := fun a => a.continues = some (.thread t)) (Q := fun s => s.threads t = .idle)
    (fun s => (s.threads t).rank) ?_ ?_ ?_
  · intro hbusy
    refine hfair (.thread t) fun k => ?_
    obtain ⟨n, hn, hfree⟩ := exists_unlocked h₀ hfair hsettled hwait (max k n₀) (le_max_right k n₀)
    have hn₀ : n ≥ n₀ := (le_max_right k n₀).trans hn
    obtain ⟨as, has⟩ := exists_run_at h₀ n
    obtain ⟨ok, s', hs'⟩ := exists_threadStep (hbusy n hn₀)
      (((locked_run has).lockOk t).free (.inl hfree)) ((hsettled n hn₀).completed ▸ hwait n t)
    exact ⟨n, (le_max_left k n₀).trans hn, .thread t ok, s', rfl, hs'⟩
  · intro n hn a hP ha _
    obtain ⟨as, has⟩ := exists_run_at h₀ n
    cases a with
    | thread u ok =>
      obtain rfl := Owner.thread.inj (Option.some.inj hP)
      exact .inr ((threadStep_step ((control_run has).threads u) ((locked_run has).lockOk u)
        (Machine.Execution.step_of_action ha)).rank (hsettled n hn).stopping
        (hsettled n hn).completed)
    | _ => cases hP
  · intro n hn a hP ha hbusy
    obtain ⟨as, has⟩ := exists_run_at h₀ n
    have hstep := Machine.Execution.step_of_action ha
    rcases Action.actor_of_continues hP with hne | ⟨u, hu, hbegin⟩
    · have hm := step_scheduled (control_run has) (locked_run has).lockOk hstep
      exact .inr (congrArg Pc.rank (hm.threads t hne)).le
    · obtain rfl := Owner.thread.inj hu
      exact absurd (idle_of_begins hbegin hstep) hbusy

end Fair

/-! ## No flush is stranded -/

/-- Thread `t` waits for a change of the maximum that `shutdown` stored. -/
def State.Stuck (s : State E) (t : ℕ) : Prop :=
  s.completedFlushId = ⊤ ∧ ∃ id before, s.threads t = .flush id before (.wait ⊤)

/-- What waits for the maximum to change waits for ever. -/
theorem State.Stuck.from {x : (machine E cfg).Execution}
    {t m : ℕ}
    (h : (x.state m).Stuck t) (h₀ : x.state 0 = .initial sinks) :
    ∀ n ≥ m, (x.state n).Stuck t := by
  intro n hn
  induction n, hn using Nat.le_induction with
  | base => exact h
  | succ n hn ih =>
    cases ha : x.action n with
    | none => rw [Machine.Execution.state_of_stutter ha]; exact ih
    | some a =>
      have hstep : step cfg (x.state n) a = some (x.state (n + 1)) :=
        Machine.Execution.step_of_action ha
      obtain ⟨as, has⟩ := exists_run_at h₀ n
      obtain ⟨htop, id, before, ht⟩ := ih
      have htop' := top_le_iff.mp (htop ▸ step_completed (control_run has) hstep)
      refine ⟨htop', id, before, ?_⟩
      by_cases hact : a.actor = .thread t
      · cases a with
        | thread u ok =>
          obtain rfl := Owner.thread.inj hact
          simp only [step, threadStep, ht, flushWait, htop, if_true] at hstep
          cases hstep
        | dispatch u e =>
          obtain rfl := Owner.thread.inj hact
          cases ht.symm.trans (idle_of_begins (.inr ⟨e, rfl⟩) hstep)
        | flush u =>
          obtain rfl := Owner.thread.inj hact
          cases ht.symm.trans (idle_of_begins (.inl rfl) hstep)
        | _ => cases hact
      · rw [(step_scheduled (control_run has) (locked_run has).lockOk hstep).threads t hact]
        exact ht

/-- **No flush is stranded, but for one race.** In every reachable state the completed id
only grows, and a flush call that drew an id has it completed, or its request is
alive in exactly one place, or `shutdown` is on its way to store the maximum. Under a fair
scheduler every call returns once the maximum is stored, if and only if no flush call
reads the maximum as the argument of its `wait`. -/
theorem flush_not_stranded (cfg : Config) (sinks : List (Sink E)) :
    (∀ as s, (machine E cfg).run (.initial sinks) as = some s →
      (∀ bs s', (machine E cfg).run s bs = some s' →
        s.completedFlushId ≤ s'.completedFlushId) ∧
      ∀ t i before, (s.threads t).client.flushing = .drawn i before →
        WithTop.some i ≤ s.completedFlushId ∨ (∃! a, s.ledger.Holds i a) ∨
          (s.stopping = true ∧ s.shutdown.stored = false)) ∧
    ∀ x : (machine E cfg).Execution, x.state 0 = .initial sinks → FairlyScheduled x →
      ((∀ n, (x.state n).shutdown.stored = true → ∀ t, ∃ m ≥ n, (x.state m).threads t = .idle) ↔
        ∀ n a, x.action n = some a → ¬ ReadsMax (x.state n) a) := by
  refine ⟨fun as s h => ⟨fun bs s' h' => completed_run (control_run h) h', ?_⟩, ?_⟩
  · intro t i before ht
    have hbooks := books_run h
    obtain ⟨d, hdrawn, -⟩ := hbooks.barrier.drawn t i before ht
    rcases hbooks.requests.alive i d hdrawn with hle | ⟨a, ha⟩ | hstop
    · exact .inl hle
    · exact .inr (.inl ⟨a, ha, fun b hb => hbooks.requests.unique i b a hb ha⟩)
    · exact .inr (.inr hstop)
  · intro x h₀ hfair
    constructor
    · rintro hreturn n (_ | _ | ⟨t, ok⟩ | _ | _) ha hmax
      case thread =>
        obtain ⟨htop, id, before, ht⟩ := hmax
        have hstep := Machine.Execution.step_of_action ha
        simp only [machine, step, threadStep, ht, flushWait, Option.some.injEq] at hstep
        have hstuck : (x.state (n + 1)).Stuck t := by
          rw [← hstep]
          refine ⟨htop, id, before, ?_⟩
          rw [State.goto, htop]
          exact Function.update_self ..
        obtain ⟨as, has⟩ := exists_run_at h₀ (n + 1)
        obtain ⟨m, hm, hidle⟩ := hreturn (n + 1) (stored_of_completed has hstuck.1) t
        obtain ⟨-, id', before', ht'⟩ := hstuck.from h₀ m hm
        cases hidle.symm.trans ht'
      all_goals exact hmax
    · intro hrace n hstored t
      exact exists_returned h₀ hfair hstored (not_waiting_for_max h₀ hrace) t

/-- A run in which thread `t` takes no step leaves it idle. -/
theorem idle_run {t : ℕ} (hb : ∀ a ∈ as, a.actor ≠ .thread t)
    (h : (machine E cfg).run (.initial sinks) as = some s) : s.threads t = .idle := by
  refine Machine.run_induction (P := fun as s => (∀ a ∈ as, a.actor ≠ .thread t) →
    s.threads t = .idle) (fun _ => rfl) ?_ h hb
  intro as s a s' hs ih ha hb
  rw [(step_scheduled (control_run hs) (locked_run hs).lockOk ha).threads t
    (hb a (List.mem_append_right _ (List.mem_singleton_self a)))]
  exact ih fun b hm => hb b (List.mem_append_left _ hm)

/-- When a thread is stuck, the others are idle and `shutdown` has returned, nothing moves. -/
theorem at_rest {t : ℕ} (ht : s.Stuck t) (hothers : ∀ u, u ≠ t → s.threads u = .idle)
    (hw : s.worker = .exited) (hs : s.shutdown = .joined) (o : Owner) :
    ¬ (machine E cfg).Enabled (fun a => a.continues = some o) s := by
  rintro ⟨a, s', ha, h⟩
  replace h : step cfg s a = some s' := h
  cases a with
  | dispatch u e => cases ha
  | flush u => cases ha
  | thread u ok =>
    rw [step, threadStep] at h
    rcases eq_or_ne u t with rfl | hne
    · obtain ⟨htop, id, before, hpc⟩ := ht
      rw [hpc] at h
      simp only [flushWait, htop, if_true] at h
      cases h
    · rw [hothers u hne] at h
      cases h
  | worker ok =>
    rw [step, workerStep, hw] at h
    cases h
  | shutdown ok =>
    rw [step, shutdownStep, hs] at h
    cases h

/-- The default options. -/
def defaults : Config := ⟨{}, true⟩

/-- A flush call finds its id not completed, `shutdown` stores the maximum, and the
argument of `wait` is loaded after that. -/
def strandedRun : List (Action ℕ) :=
  .flush 0 :: List.replicate 6 (.thread 0 true) ++ List.replicate 6 (.shutdown true) ++
    .thread 0 true :: [true, true, true, false, true, true, true, true, true, true, true, false,
      true].map .worker ++ [.shutdown true]

/-- A worker that has ended. -/
def WorkerPc.hasExited : WorkerPc E → Bool
  | exited => true
  | _ => false

/-- The first flush call waits for `completed_flush_id_` to differ from the maximum. -/
def Pc.waitsForTop : Pc E → Bool
  | flush 1 _ (.wait old) => old = ⊤
  | _ => false

theorem WorkerPc.eq_exited {pc : WorkerPc E} (h : pc.hasExited = true) : pc = .exited := by
  cases pc with
  | exited => rfl
  | _ => cases h

theorem Pc.eq_wait {pc : Pc E} (h : pc.waitsForTop = true) :
    ∃ before, pc = .flush 1 before (.wait ⊤) := by
  rw [waitsForTop.eq_def] at h
  split at h
  case h_1 before old =>
    obtain rfl := of_decide_eq_true h
    exact ⟨before, rfl⟩
  case h_2 => cases h

/-- A fair execution in which a flush call never returns, although the maximum is
stored, the worker has ended and `shutdown` has returned. -/
theorem stranded_strandedRun :
    ∃ x : (machine ℕ defaults).Execution, x.state 0 = .initial [] ∧ FairlyScheduled x ∧
      ∃ n, (x.state n).shutdown = .joined ∧
        ∀ m ≥ n, ∃ before, (x.state m).threads 0 = .flush 1 before (.wait ⊤) := by
  have hrun : ((machine ℕ defaults).run (.initial []) strandedRun).map (fun s =>
      (s.shutdown, decide (s.completedFlushId = ⊤), s.worker.hasExited,
        (s.threads 0).waitsForTop)) = some (.joined, true, true, true) := by decide
  obtain ⟨s, hs, heq⟩ := Option.map_eq_some_iff.mp hrun
  simp only [Prod.mk.injEq, decide_eq_true_eq] at heq
  obtain ⟨hshut, htop, hw, ht⟩ := heq
  have hworker : s.worker = .exited := WorkerPc.eq_exited hw
  obtain ⟨before, hpc⟩ := Pc.eq_wait ht
  have hothers : ∀ u, u ≠ 0 → s.threads u = .idle := by
    intro u hu
    refine idle_run (fun a ha hact => hu ?_) hs
    have hactor : ∀ a ∈ strandedRun, a.actor = .thread 0 ∨ a.actor = .worker ∨
      a.actor = .shutdown := by decide
    rcases hactor a ha with h | h | h <;> rw [h] at hact <;> cases hact
    rfl
  refine ⟨.ofRun hs, Machine.Execution.ofRun_state_zero hs,
    fun o => Machine.Execution.ofRun_fair hs (at_rest ⟨htop, 1, before, hpc⟩ hothers hworker
      hshut o), strandedRun.length, ?_, fun m hm => ⟨before, ?_⟩⟩
  · rw [Machine.Execution.ofRun_state_of_le hs le_rfl]
    exact hshut
  · rw [Machine.Execution.ofRun_state_of_le hs hm]
    exact hpc

end AsyncDispatcher

end Logspine
