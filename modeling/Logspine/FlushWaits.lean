import Logspine.Progress

/-!
# When `flush()` returns

`flush` waits in two loads of `completed_flush_id_`:

    while (completed_flush_id_.load() < flush_id)
      completed_flush_id_.wait(completed_flush_id_.load());

The worker can complete the id between them. Then the second load reads a value that is past
the id, and the thread waits for a change of it: until a later flush call is completed, or
`shutdown` stores the maximum, or for ever. A call whose id is completed returns just when it
does not end in such a wait (`flush_returns_iff`), and without another call nothing ends it
(`flush_hangs_overtakenRun`). The race with `shutdown` alone is in `Logspine.FlushReturns`.
-/

namespace Logspine

namespace AsyncDispatcher

variable {E : Type} {cfg : Config} {sinks : List (Sink E)} {x : (machine E cfg).Execution}

/-- From moment `n` on thread `t` waits for a change of a value that is past the id of its flush
call, and the value never changes again. -/
structure HangsFrom (x : (machine E cfg).Execution) (t n : ℕ) : Prop where
  waits : ∃ id before, WithTop.some id ≤ (x.state n).completedFlushId ∧
    (x.state n).threads t = .flush id before (.wait (x.state n).completedFlushId)
  constant : ∀ k ≥ n, (x.state k).completedFlushId = (x.state n).completedFlushId

/-- Who is not thread `t` leaves a busy thread `t` where it is. -/
theorem thread_other (h₀ : x.state 0 = .initial sinks) {t n : ℕ} {a : Action E}
    (ha : x.action n = some a) (hcont : a.continues ≠ some (.thread t))
    (hbusy : (x.state n).threads t ≠ .idle) :
    (x.state (n + 1)).threads t = (x.state n).threads t := by
  obtain ⟨as, has⟩ := exists_run_at h₀ n
  have hstep := Machine.Execution.step_of_action ha
  rcases Action.actor_of_continues hcont with hactor | ⟨u, hu, hbegin⟩
  · exact (step_scheduled (control_run has) (locked_run has).lockOk hstep).threads t hactor
  · obtain rfl := Owner.thread.inj hu
    exact absurd (idle_of_begins hbegin hstep) hbusy

/-- A thread that hangs goes on hanging. -/
theorem HangsFrom.threads {t n : ℕ} (h : HangsFrom x t n) (h₀ : x.state 0 = .initial sinks) :
    ∀ k ≥ n, (x.state k).threads t = (x.state n).threads t := by
  obtain ⟨⟨id, before, -, ht⟩, hconst⟩ := h
  intro k hk
  induction k, hk using Nat.le_induction with
  | base => rfl
  | succ k hk ih =>
    cases ha : x.action k with
    | none => rw [Machine.Execution.state_of_stutter ha, ih]
    | some a =>
      by_cases hcont : a.continues = some (.thread t)
      · cases a with
        | thread u ok =>
          obtain rfl := Owner.thread.inj (Option.some.inj hcont)
          have hstep : threadStep cfg (x.state k) u ok = some (x.state (k + 1)) :=
            Machine.Execution.step_of_action ha
          simp only [threadStep, ih.trans ht, flushWait, hconst k hk, if_true] at hstep
          cases hstep
        | _ => cases hcont
      · rw [thread_other h₀ ha hcont (by rw [ih, ht]; rintro ⟨⟩), ih]

/-- The completed id only grows. -/
theorem completed_mono (h₀ : x.state 0 = .initial sinks) {m n : ℕ} (hn : m ≤ n) :
    (x.state m).completedFlushId ≤ (x.state n).completedFlushId := by
  induction n, hn using Nat.le_induction with
  | base => exact le_rfl
  | succ n _ ih =>
    cases ha : x.action n with
    | none =>
      rw [Machine.Execution.state_of_stutter ha]
      exact ih
    | some a =>
      obtain ⟨as, has⟩ := exists_run_at h₀ n
      exact ih.trans (step_completed (control_run has) (Machine.Execution.step_of_action ha))

section Returns

variable {t m id : ℕ} {before : List ℕ} {pc : FlushPc}

/-- A step of thread `t` in the wait loop, once its id is completed, brings it closer to its
return. -/
theorem flushWait_rank {s s' : State E} {ok : Bool} (ht : s.threads t = .flush id before pc)
    (hid : WithTop.some id ≤ s.completedFlushId) (h : threadStep cfg s t ok = some s') :
    s'.threads t = .idle ∨ ∃ pc', s'.threads t = .flush id before pc' ∧ pc'.rank < pc.rank := by
  have hgoto : ∀ {s₁ : State E} {pc' : Pc E}, (s₁.goto t pc').threads t = pc' := by
    intro s₁ pc'
    exact Function.update_self ..
  rw [threadStep, ht] at h
  cases pc with
  | test =>
    simp only [flushWait, if_neg hid.not_gt, Option.some.injEq] at h
    rw [← h]
    exact .inl hgoto
  | argument =>
    obtain rfl := Option.some.inj h
    exact .inr ⟨_, hgoto, Nat.lt_succ_self 2⟩
  | wait old =>
    simp only [flushWait] at h
    split at h
    · cases h
    · obtain rfl := Option.some.inj h
      exact .inr ⟨_, hgoto, Nat.lt_succ_self 1⟩

/-- A thread in the wait loop stays in it until its call returns. -/
theorem flush_stays (h₀ : x.state 0 = .initial sinks)
    (ht : (x.state m).threads t = .flush id before pc)
    (hbusy : ∀ n ≥ m, (x.state n).threads t ≠ .idle) :
    ∀ n ≥ m, ∃ pc, (x.state n).threads t = .flush id before pc := by
  intro n hn
  induction n, hn using Nat.le_induction with
  | base => exact ⟨pc, ht⟩
  | succ n hn ih =>
    obtain ⟨pc', ht'⟩ := ih
    cases ha : x.action n with
    | none => exact ⟨pc', by rw [Machine.Execution.state_of_stutter ha, ht']⟩
    | some a =>
      by_cases hcont : a.continues = some (.thread t)
      · cases a with
        | thread u ok =>
          obtain rfl := Owner.thread.inj (Option.some.inj hcont)
          have hstep : threadStep cfg (x.state n) u ok = some (x.state (n + 1)) :=
            Machine.Execution.step_of_action ha
          have hnext := hbusy (n + 1) (hn.trans (Nat.le_succ n))
          rw [threadStep, ht'] at hstep
          cases pc' with
          | test =>
            simp only [flushWait] at hstep
            split at hstep <;> obtain heq := Option.some.inj hstep <;> rw [← heq] at hnext ⊢
            · exact ⟨_, Function.update_self ..⟩
            · exact absurd (Function.update_self ..) hnext
          | argument =>
            rw [← Option.some.inj hstep]
            exact ⟨_, Function.update_self ..⟩
          | wait old =>
            simp only [flushWait] at hstep
            split at hstep
            · cases hstep
            · rw [← Option.some.inj hstep]
              exact ⟨_, Function.update_self ..⟩
        | _ => cases hcont
      · exact ⟨pc', by rw [thread_other h₀ ha hcont (hbusy n hn), ht']⟩

/-- **When a flush call returns.** In every execution, with any overflow policy and with or
without `shutdown`: a call of `flush()` in its wait loop, whose id is completed at some moment
and whose thread is scheduled fairly, returns if and only if it does not come to wait for a
change of a value past its id that never changes again. -/
theorem flush_returns_iff (h₀ : x.state 0 = .initial sinks)
    (hfair : x.Fair fun a => a.continues = some (.thread t))
    (ht : (x.state m).threads t = .flush id before pc)
    (hid : ∃ n, WithTop.some id ≤ (x.state n).completedFlushId) :
    (∃ n ≥ m, (x.state n).threads t = .idle) ↔
      ¬ ∃ n ≥ m, HangsFrom x t n ∧ ∀ k ≥ m, k ≤ n → (x.state k).threads t ≠ .idle := by
  constructor
  · rintro ⟨n₁, hn₁, hidle⟩ ⟨n, hn, hhang, hbusy⟩
    have hlt : n ≤ n₁ := Nat.le_of_not_lt fun hlt => hbusy n₁ hn₁ hlt.le hidle
    obtain ⟨id', before', -, hwait⟩ := hhang.waits
    have hstuck := hhang.threads h₀ n₁ hlt
    rw [hidle, hwait] at hstuck
    cases hstuck
  · intro hnot
    by_contra hnone
    have hbusy : ∀ n ≥ m, (x.state n).threads t ≠ .idle := fun n hn hidle => hnone ⟨n, hn, hidle⟩
    have hstays := flush_stays h₀ ht hbusy
    obtain ⟨k₀, hk₀⟩ := hid
    have hdone : ∀ n ≥ max m k₀, WithTop.some id ≤ (x.state n).completedFlushId := fun n hn =>
      hk₀.trans (completed_mono h₀ ((le_max_right m k₀).trans hn))
    suffices hreturn : ∃ n ≥ max m k₀, (x.state n).threads t = .idle by
      obtain ⟨n, hn, hidle⟩ := hreturn
      exact hbusy n ((le_max_left m k₀).trans hn) hidle
    refine Machine.Execution.exists_of_rank (x := x)
      (P := fun a => a.continues = some (.thread t)) (Q := fun s => s.threads t = .idle)
      (fun s => (s.threads t).rank) ?_ ?_ ?_
    · -- a thread that is never enabled again hangs
      intro _
      refine hfair fun k => ?_
      by_contra hrest
      have hrest : ∀ n ≥ k, ¬ (machine E cfg).Enabled (fun a => a.continues = some (.thread t))
          (x.state n) := fun n hn he => hrest ⟨n, hn, he⟩
      have hm : m ≤ max k (max m k₀) := (le_max_left m k₀).trans (le_max_right k _)
      have hwaits : ∀ n ≥ max k (max m k₀),
          (x.state n).threads t = .flush id before (.wait (x.state n).completedFlushId) := by
        intro n hn
        obtain ⟨pc', ht'⟩ := hstays n (hm.trans hn)
        by_contra hne
        obtain ⟨ok, s', hs'⟩ : ∃ ok s', threadStep cfg (x.state n) t ok = some s' :=
          exists_threadStep (hbusy n (hm.trans hn))
            (fun hlocks => by rw [ht'] at hlocks; cases hlocks)
            (fun id' before' hflush => hne (by
              obtain ⟨rfl, rfl, -⟩ := Pc.flush.inj (ht'.symm.trans hflush)
              exact hflush))
        exact hrest n ((le_max_left k _).trans hn) ⟨.thread t ok, s', rfl, hs'⟩
      refine hnot ⟨_, hm, ⟨⟨id, before, hdone _ (le_max_right k _), hwaits _ le_rfl⟩, ?_⟩,
        fun j hj _ => hbusy j hj⟩
      intro j hj
      induction j, hj using Nat.le_induction with
      | base => rfl
      | succ j hj ih =>
        rw [← ih]
        -- nothing but a step of the thread itself moves it
        have hsame : (x.state (j + 1)).threads t = (x.state j).threads t := by
          cases ha : x.action j with
          | none => rw [Machine.Execution.state_of_stutter ha]
          | some a =>
            refine thread_other h₀ ha (fun hcont => ?_) (hbusy j (hm.trans hj))
            exact hrest j ((le_max_left k _).trans hj)
              ⟨a, _, hcont, Machine.Execution.step_of_action ha⟩
        rw [hwaits j hj, hwaits (j + 1) (hj.trans (Nat.le_succ j))] at hsame
        exact FlushPc.wait.inj (Pc.flush.inj hsame).2.2
    · intro n hn a hP ha _
      obtain ⟨pc', ht'⟩ := hstays n ((le_max_left m k₀).trans hn)
      cases a with
      | thread u ok =>
        obtain rfl := Owner.thread.inj (Option.some.inj hP)
        have hstep : threadStep cfg (x.state n) u ok = some (x.state (n + 1)) :=
          Machine.Execution.step_of_action ha
        rcases flushWait_rank ht' (hdone n hn) hstep with hidle | ⟨pc'', ht'', hlt⟩
        · exact .inl hidle
        · right
          rw [ht', ht'']
          exact hlt
      | _ => cases hP
    · intro n hn a hP ha _
      rw [thread_other h₀ ha hP (hbusy n ((le_max_left m k₀).trans hn))]
      exact .inr le_rfl

end Returns

/-! ## A call that hangs -/

/-- A flush call finds its id not completed, the worker completes it, and the argument of `wait`
is loaded after that. -/
def overtakenRun : List (Action ℕ) :=
  .flush 0 :: List.replicate 6 (.thread 0 true) ++
    [true, true, true, false, true, true, true, true, true, true].map .worker ++
    .thread 0 true :: [true, false, true, false, true, true, true, true].map .worker

/-- The flush call with id `id` waits for a change of `old`. -/
def Pc.waitsWith (id : ℕ) (old : WithTop ℕ) : Pc E → Bool
  | flush id' _ (.wait old') => decide (id' = id) && decide (old' = old)
  | _ => false

theorem Pc.eq_wait_of_waitsWith {id : ℕ} {old : WithTop ℕ} {pc : Pc E}
    (h : pc.waitsWith id old = true) : ∃ before, pc = .flush id before (.wait old) := by
  rw [waitsWith.eq_def] at h
  split at h
  case h_1 id' before old' =>
    obtain ⟨hid, hold⟩ := Bool.and_eq_true_iff.mp h
    obtain rfl := of_decide_eq_true hid
    obtain rfl := of_decide_eq_true hold
    exact ⟨before, rfl⟩
  case h_2 => cases h

/-- `flush()` can hang although nobody calls `shutdown`: its request was processed, its id is
completed, and it never returns. -/
theorem flush_hangs_overtakenRun :
    ∃ (x : (machine ℕ defaults).Execution) (m : ℕ), RunsFairly [quietSink ℕ] x ∧
      (∃ before pc, (x.state m).threads 0 = .flush 1 before pc) ∧
      (x.state m).completedFlushId = WithTop.some 1 ∧
      ¬ ∃ n ≥ m, (x.state n).threads 0 = .idle := by
  have hrun : ((machine ℕ defaults).run (.initial [quietSink ℕ]) overtakenRun).map (fun s =>
      (s.worker.isWaiting, s.mutex.isNone, s.stopping, s.sleeping,
        decide (s.completedFlushId = WithTop.some 1),
        (s.threads 0).waitsWith 1 (WithTop.some 1))) =
      some (true, true, false, true, true, true) := by decide
  obtain ⟨s, hs, heq⟩ := Option.map_eq_some_iff.mp hrun
  simp only [Prod.mk.injEq, decide_eq_true_eq] at heq
  obtain ⟨hw, hm, hst, hsl, hc, ht⟩ := heq
  obtain ⟨before, hpc⟩ := Pc.eq_wait_of_waitsWith ht
  have hothers : ∀ u, u ≠ 0 → s.threads u = .idle := by
    intro u hu
    refine idle_run (fun a ha hact => hu ?_) hs
    have hactor : ∀ a ∈ overtakenRun, a.actor = .thread 0 ∨ a.actor = .worker := by decide
    rcases hactor a ha with h | h <;> rw [h] at hact <;> cases hact
    rfl
  have hrest : s.AtRest := by
    refine ⟨WorkerPc.eq_waiting hw, Option.isNone_iff_eq_none.mp hm, hst, hsl, fun t => ?_⟩
    rcases eq_or_ne t 0 with rfl | hne
    · exact .inr ⟨1, before, hc ▸ hpc⟩
    · exact .inl (hothers t hne)
  have hfair := runsFairly_restingExecution rfl hs hrest (by decide)
  -- from the end of the run on the thread and the completed id stay as they are
  have hstate : ∀ n ≥ overtakenRun.length,
      ((restingExecution hs hrest).state n).threads = s.threads ∧
        ((restingExecution hs hrest).state n).completedFlushId = s.completedFlushId := by
    intro n hn
    obtain ⟨cs, hcs, hu⟩ := Machine.Execution.exists_prefix_of_lasso hs hrest.run_doze
      (List.cons_ne_nil _ _) hn
    exact hrest.prefix_doze hcs hu
  have hpc' : ((restingExecution hs hrest).state overtakenRun.length).threads 0 =
      .flush 1 before (.wait (WithTop.some 1)) := by
    rw [(hstate _ le_rfl).1, hpc]
  have hc' : ∀ n ≥ overtakenRun.length,
      ((restingExecution hs hrest).state n).completedFlushId = WithTop.some 1 :=
    fun n hn => (hstate n hn).2.trans hc
  refine ⟨_, overtakenRun.length, hfair, ⟨before, _, hpc'⟩, hc' _ le_rfl, ?_⟩
  rw [flush_returns_iff hfair.start (hfair.threads 0) hpc' ⟨_, (hc' _ le_rfl).ge⟩]
  refine not_not_intro ⟨_, le_rfl, ⟨⟨1, before, (hc' _ le_rfl).ge, ?_⟩, fun k hk => ?_⟩, ?_⟩
  · rw [hpc', hc' _ le_rfl]
  · rw [hc' k hk, hc' _ le_rfl]
  · intro k hk hle hidle
    obtain rfl := le_antisymm hle hk
    cases hidle.symm.trans hpc'

end AsyncDispatcher

end Logspine
