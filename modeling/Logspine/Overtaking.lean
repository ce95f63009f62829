import Mathlib.Order.WellFounded
import Logspine.FlushWaits
import Logspine.Overflow

/-!
# Calls that do not return

A `dispatch` that finds the queue full waits, evicts or refuses, a `flush` waits until its request
has a place, and both may find the place taken by another thread each time they try again. That is
the only way in which they do not return (`calls_return_unless_overtaken`): a thread that is never
overtaken any more has the worker make room for it. Under `drop_newest` a `dispatch` always
returns.

What keeps the account is the load: the items in the queue and those that the thread may still put
there (`Ledger.load`). Only other threads raise it, and the worker lowers it.
-/

namespace Logspine

namespace AsyncDispatcher

variable {E : Type} {cfg : Config} {s s' s₁ : State E} {sinks : List (Sink E)} {t : ℕ}

/-! ## Where a call may wait -/

/-- The thread is in `enqueue_event` or `enqueue_flush_request`, or about to be. -/
def Pc.placing : Pc E → Bool
  | idle | flush _ _ _ => false
  | _ => true

/-- Only `drop_oldest` puts back what it took out. -/
def Pc.Evicting (options : AsyncOptions) : Pc E → Prop
  | request _ (.evictor _ _ _) _ _ => options.overflow = .dropOldest
  | _ => True

/-- The call that thread `t` was in is over: a `dispatch` has returned, a `flush` has put its
request into the queue and waits. -/
structure State.Left (t : ℕ) (calling : Option (ℕ × E)) (s : State E) : Prop where
  placing : (s.threads t).placing = false
  returned : ∀ call e, calling = some (call, e) → call ∈ s.history.returned
  waits : calling = none → ∃ id before, s.threads t = .flush id before .test

/-- Steps left in `enqueue_flush_request` while the queue is never full. -/
def RequestPc.onward : RequestPc → ℕ
  | stopping => 9
  | waitLock => 8
  | wait => 7
  | waiting | enter => 6
  | enqueue => 5
  | sleeping => 4
  | lock => 3
  | wake => 2
  | leave => 1
  | raiseLoad | raiseCas _ => 0

/-- Steps left in `enqueue_event` while the queue is never full. -/
def EventPc.onward : EventPc E → ℕ
  | stopping => 14
  | evict => 13
  | evicted _ _ => 12
  | waitLock => 8
  | wait => 7
  | waiting | enter => 6
  | first | retry => 5
  | sleeping => 4
  | lock => 3
  | drop | wake => 2
  | leave => 1

/-- Steps left in a call before it returns or waits for its flush id, while the queue is never
full. -/
def Pc.onward : Pc E → ℕ
  | event _ _ _ pc => pc.onward
  | request _ (.evictor _ _ _) _ pc => pc.onward + 5
  | request _ (.flush _) _ pc => pc.onward
  | flushDraw _ => 7
  | _ => 0

/-- A step from one place of a call to another. -/
structure Pc.Onward (cfg : Config) (s : State E) (pc pc' : Pc E) : Prop where
  placing : pc'.placing = true
  calling : pc'.client.calling = pc.client.calling
  evicting : pc'.Evicting cfg.options
  onward : ¬ s.Full cfg → pc'.onward < pc.onward
  newest : cfg.options.overflow = .dropNewest → pc.client.calling ≠ none → pc'.rank < pc.rank

theorem threads_goto (s : State E) (t : ℕ) (pc : Pc E) : (s.goto t pc).threads t = pc :=
  Function.update_self ..

theorem Pc.Onward.goto {pc pc' : Pc E} (ht : s.threads t = pc) (h : Pc.Onward cfg s pc pc') :
    (s.threads t).Onward cfg s ((s₁.goto t pc').threads t) := by
  rw [ht, threads_goto]
  exact h

section Steps

variable {call id : ℕ} {e : E} {caller : Caller E} {owns owns' ok : Bool}

theorem calling_event {pc : EventPc E} :
    (Pc.event call e owns pc).client.calling = some (call, e) := by
  cases pc <;> rfl

/-- A step from one place of `enqueue_event` to another. -/
theorem onward_event {pc pc' : EventPc E} (ht : s.threads t = .event call e owns pc)
    (honward : ¬ s.Full cfg → pc'.onward < pc.onward)
    (hnewest : cfg.options.overflow = .dropNewest → pc'.rank < pc.rank) :
    (s.threads t).Onward cfg s ((s₁.goto t (.event call e owns' pc')).threads t) :=
  .goto ht ⟨rfl, calling_event.trans calling_event.symm, trivial, honward,
    fun h _ => hnewest h⟩

/-- A step from one place of `enqueue_flush_request` to another. -/
theorem onward_request {pc pc' : RequestPc} (ht : s.threads t = .request id caller owns pc)
    (hevicting : (s.threads t).Evicting cfg.options)
    (honward : ¬ s.Full cfg → pc'.onward < pc.onward) :
    (s.threads t).Onward cfg s ((s₁.goto t (.request id caller owns' pc')).threads t) := by
  rw [ht] at hevicting
  cases caller with
  | flush before =>
    exact .goto ht ⟨rfl, rfl, trivial, honward, fun _ hcalling => absurd rfl hcalling⟩
  | evictor call e outer =>
    exact .goto ht ⟨rfl, rfl, hevicting, fun hroom => Nat.add_lt_add_right (honward hroom) 5,
      fun hnewest => by cases hevicting.symm.trans hnewest⟩

/-- A step of `enqueue_event`. -/
theorem enqueueEvent_onward {pc : EventPc E} (hatomic : cfg.atomicQueue = true) (hs : s.Running)
    (ht : s.threads t = .event call e owns pc)
    (hknows : (s.threads t).Knows cfg.options s.stopping)
    (h : enqueueEvent cfg s t call e owns ok pc = some s') :
    (s.threads t).Onward cfg s (s'.threads t) ∨ s'.Left t (s.threads t).client.calling := by
  -- the places that `drop_newest` does not come to
  have holdest : cfg.options.overflow = .dropOldest → cfg.options.overflow ≠ .dropNewest :=
    fun h h' => by cases h.symm.trans h'
  have hblock : cfg.options.overflow = .block → cfg.options.overflow ≠ .dropNewest :=
    fun h h' => by cases h.symm.trans h'
  rw [ht] at hknows
  -- with room in the queue no `enqueue` is refused
  have hroom (hfull : cfg.atomicQueue = true → ¬ s.queue.HasRoom cfg.capacity) : s.Full cfg :=
    TicketQueue.le_length_content hs.bound (hfull hatomic)
  cases enqueueEvent_moves h with
  | enterStop hstop | stop hstop => cases hs.stopping.symm.trans hstop
  | firstRefused hfull | retryRefused hfull =>
    exact .inl (onward_event ht (absurd (hroom hfull)) fun _ => of_decide_eq_true rfl)
  | dropOldest _ ho =>
    exact .inl (onward_event ht (fun _ => of_decide_eq_true rfl) fun h => absurd h (holdest ho))
  | blockHeld _ ho | blockFree _ ho =>
    exact .inl (onward_event ht (fun _ => of_decide_eq_true rfl) fun h => absurd h (hblock ho))
  | evict | evictRefused | evictedEvent =>
    exact .inl (onward_event ht (fun _ => of_decide_eq_true rfl) fun h => absurd h (holdest hknows))
  | evictedRequest =>
    exact .inl (.goto ht ⟨rfl, rfl, hknows, fun _ => of_decide_eq_true rfl,
      fun h _ => absurd h (holdest hknows)⟩)
  | waitLock | wait | notified | timedOut =>
    exact .inl (onward_event ht (fun _ => of_decide_eq_true rfl) fun h => absurd h (hblock hknows))
  | leave =>
    rw [ht]
    refine .inr ⟨congrArg Pc.placing (threads_goto ..), fun c e' heq => ?_,
      fun hnone => by cases hnone⟩
    obtain ⟨rfl, rfl⟩ := Prod.mk.inj (Option.some.inj heq)
    exact List.mem_append_right _ (List.mem_singleton_self call)
  | _ =>
    exact .inl (onward_event ht (fun _ => of_decide_eq_true rfl) fun _ => of_decide_eq_true rfl)

/-- A step of `enqueue_flush_request`. -/
theorem enqueueFlushRequest_onward {pc : RequestPc} (hatomic : cfg.atomicQueue = true)
    (hs : s.Running) (ht : s.threads t = .request id caller owns pc)
    (hknows : (s.threads t).Knows cfg.options s.stopping)
    (hevicting : (s.threads t).Evicting cfg.options)
    (h : enqueueFlushRequest cfg s t id caller owns ok pc = some s') :
    (s.threads t).Onward cfg s (s'.threads t) ∨ s'.Left t (s.threads t).client.calling := by
  rw [ht] at hknows
  cases enqueueFlushRequest_moves h with
  | enterStop hstop | stop hstop => cases hs.stopping.symm.trans hstop
  | refused hfull =>
    refine .inl (onward_request ht hevicting (absurd ?_))
    exact TicketQueue.le_length_content hs.bound (hfull hatomic)
  | raiseLoad | raised | raiseMissed | raisedBefore => cases hs.stopping.symm.trans hknows
  | leave =>
    cases caller with
    | flush before =>
      rw [ht]
      have hwaits : (({ s with mutex := if owns then none else s.mutex } : State E).goto t
        ((Caller.flush before).resume id)).threads t = .flush id before .test := threads_goto ..
      exact .inr ⟨congrArg Pc.placing hwaits, fun c e' heq => (by cases heq),
        fun _ => ⟨id, before, hwaits⟩⟩
    | evictor call e outer =>
      rw [ht] at hevicting
      exact .inl (.goto ht ⟨rfl, rfl, trivial, fun _ => of_decide_eq_true rfl,
        fun hnewest => by cases hevicting.symm.trans hnewest⟩)
  | _ => exact .inl (onward_request ht hevicting fun _ => of_decide_eq_true rfl)

/-- A step of a thread in a call that may wait for room. -/
theorem threadStep_onward (hatomic : cfg.atomicQueue = true) (hs : s.Running)
    (hplacing : (s.threads t).placing = true)
    (hknows : (s.threads t).Knows cfg.options s.stopping)
    (hevicting : (s.threads t).Evicting cfg.options) (h : threadStep cfg s t ok = some s') :
    (s.threads t).Onward cfg s (s'.threads t) ∨ s'.Left t (s.threads t).client.calling := by
  cases ht : s.threads t with
  | idle => cases (congrArg Pc.placing ht).symm.trans hplacing
  | flush id before pc => cases (congrArg Pc.placing ht).symm.trans hplacing
  | event call e owns pc =>
    rw [threadStep, ht] at h
    exact ht ▸ enqueueEvent_onward hatomic hs ht hknows h
  | request id caller owns pc =>
    rw [threadStep, ht] at h
    exact ht ▸ enqueueFlushRequest_onward hatomic hs ht hknows hevicting h
  | flushDraw before =>
    rw [threadStep, ht] at h
    obtain rfl := Option.some.inj h
    rw [← ht]
    exact .inl (.goto ht ⟨rfl, rfl, trivial, fun _ => of_decide_eq_true rfl,
      fun _ hcalling => absurd rfl hcalling⟩)

theorem evicting_of_not_placing {pc : Pc E} (h : pc.placing = false) :
    pc.Evicting cfg.options := by
  cases pc with
  | idle => trivial
  | flush id before pc => trivial
  | _ => cases h

/-- A thread that is outside `dispatch` and waits for its flush id does not come back by
itself. -/
theorem threadStep_not_placing (hplacing : (s.threads t).placing = false)
    (h : threadStep cfg s t ok = some s') : (s'.threads t).placing = false := by
  have hgoto : ∀ {pc : Pc E}, pc.placing = false → ((s.goto t pc).threads t).placing = false :=
    fun hpc => (congrArg Pc.placing (threads_goto ..)).trans hpc
  cases ht : s.threads t with
  | idle =>
    rw [threadStep, ht] at h
    cases h
  | flush id before pc =>
    rw [threadStep, ht] at h
    dsimp only at h
    cases pc with
    | test =>
      rw [flushWait] at h
      split at h
      all_goals
        obtain rfl := Option.some.inj h
        exact hgoto rfl
    | argument =>
      obtain rfl := Option.some.inj h
      exact hgoto rfl
    | wait old =>
      obtain ⟨-, h⟩ := Option.ite_none_left_eq_some.mp h
      obtain rfl := Option.some.inj h
      exact hgoto rfl
  | _ => cases (congrArg Pc.placing ht).symm.trans hplacing

end Steps

/-! ## The load -/

/-- What a flush call may still put into the queue. -/
def FlushCall.toPut : FlushCall → ℕ
  | started _ => 1
  | _ => 0

/-- How many items a thread may still put into the queue. -/
def Client.toPut (c : Client E) : ℕ :=
  c.pending.isSome.toNat + c.request.isSome.toNat + c.flushing.toPut

/-- The items in the queue, and those that thread `t` may still put there. -/
def Ledger.load (l : Ledger E) (t : ℕ) : ℕ :=
  l.accepted.length - l.taken + (l.threads t).toPut

/-- The load does not grow, and thread `t` has no new event. -/
structure Lightens (t : ℕ) (l l' : Ledger E) : Prop where
  load : l'.load t ≤ l.load t
  pending : (l'.threads t).pending.isSome = true → (l.threads t).pending.isSome = true

theorem Lightens.same {l l' : Ledger E} (ht : l'.threads t = l.threads t)
    (h : l'.accepted.length - l'.taken ≤ l.accepted.length - l.taken) : Lightens t l l' := by
  refine ⟨?_, fun hp => ht ▸ hp⟩
  rw [Ledger.load, Ledger.load, ht]
  exact Nat.add_le_add_right h _

/-- Thread `u` goes on and carries something else. -/
theorem Lightens.give {l l₁ : Ledger E} {u : ℕ} {c : Client E} (hthreads : l₁.threads = l.threads)
    (hother : u ≠ t → l₁.accepted.length - l₁.taken ≤ l.accepted.length - l.taken)
    (hself : u = t → l₁.accepted.length - l₁.taken + c.toPut ≤ l.load u ∧
      (c.pending.isSome = true → (l.threads u).pending.isSome = true)) :
    Lightens t l (l₁.give u c) := by
  rcases eq_or_ne u t with rfl | hne
  · obtain ⟨hload, hpending⟩ := hself rfl
    refine ⟨?_, fun hp => hpending ?_⟩
    · rw [Ledger.load, Ledger.give_same]
      exact hload
    · rwa [Ledger.give_same] at hp
  · refine .same ?_ (hother hne)
    rw [Ledger.give_of_ne _ _ hne.symm, hthreads]

/-- Nothing but an item of another thread raises the load. -/
theorem Ledger.Move.lightens {l l' : Ledger E} {b : Entry E} (m : Ledger.Move cfg b l l')
    (hle : l.taken ≤ l.accepted.length) (hbusy : l.threads t ≠ .idle)
    (hput : l'.accepted = l.accepted ∨ ∀ u, u ≠ t → l'.threads u = l.threads u) :
    Lightens t l l' := by
  -- no other thread puts anything into the queue
  have hplaced : ∀ {x : QueueItem E} {u : ℕ} {c : Client E}, u ≠ t → c ≠ l.threads u →
      l' = { l with accepted := l.accepted ++ [x] }.give u c →
        l.accepted.length + 1 - l.taken ≤ l.accepted.length - l.taken := by
    rintro x u c hne hc rfl
    rcases hput with hsame | hothers
    · have hlength : l.accepted.length + 1 = l.accepted.length :=
        List.length_append.symm.trans (congrArg List.length hsame)
      exact absurd hlength (Nat.succ_ne_self _)
    · exact absurd ((Ledger.give_same ..).symm.trans (hothers u hne)) hc
  cases m with
  | beginDispatch ht =>
    exact .give rfl (fun _ => le_rfl) fun heq => absurd (heq ▸ ht) hbusy
  | beginFlush ht =>
    exact .give rfl (fun _ => le_rfl) fun heq => absurd (heq ▸ ht) hbusy
  | placeEvent ht =>
    refine .give rfl (fun hne => ?_) fun _ => ⟨?_, fun hp => by cases hp⟩
    · rw [List.length_append]
      exact hplaced hne (fun hc => by rw [← hc] at ht; cases ht) rfl
    · rw [Ledger.load, Client.toPut, Client.toPut, ht, List.length_append]
      simp only [Option.isSome_some, Option.isSome_none, Bool.toNat_true, Bool.toNat_false,
        List.length_singleton]
      omega
  | placeRequest ht =>
    refine .give rfl (fun hne => ?_) fun _ => ⟨?_, id⟩
    · rw [List.length_append]
      exact hplaced hne (fun hc => by rw [← hc] at ht; cases ht) rfl
    · rw [Ledger.load, Client.toPut, Client.toPut, ht, List.length_append]
      simp only [Option.isSome_some, Option.isSome_none, Bool.toNat_true, Bool.toNat_false,
        List.length_singleton]
      omega
  | refuse ht =>
    refine .give rfl (fun _ => le_rfl) fun _ => ⟨?_, fun hp => by cases hp⟩
    rw [Ledger.load, Client.toPut, Client.toPut]
    simp only [Option.isSome_none, Bool.toNat_false]
    omega
  | endDispatch ht => exact .give rfl (fun _ => le_rfl) fun _ => ⟨Nat.le_add_right _ _, by
      rintro ⟨⟩⟩
  | endFlush ht => exact .give rfl (fun _ => le_rfl) fun _ => ⟨Nat.le_add_right _ _, by
      rintro ⟨⟩⟩
  | @evict _ u x c e ho hx hp hn hr =>
    have hlt := (List.getElem?_eq_some_iff.mp hx).1
    refine .give rfl (fun _ => Nat.sub_le_sub_left (Nat.le_succ _) _) fun _ => ⟨?_, id⟩
    have hone : x.flushId.isSome.toNat ≤ 1 := Bool.toNat_le _
    rw [Ledger.load, Client.toPut, Client.toPut, hr]
    simp only [Option.isSome_none, Bool.toNat_false]
    omega
  | count ht => exact .give rfl (fun _ => le_rfl) fun _ => ⟨le_rfl, id⟩
  | draw ht =>
    refine .give rfl (fun _ => le_rfl) fun _ => ⟨?_, fun hp => by cases hp⟩
    rw [Ledger.load, ht]
    exact le_rfl
  | abandon hs ht =>
    refine .give rfl (fun _ => le_rfl) fun _ => ⟨?_, id⟩
    rw [Ledger.load, Client.toPut, Client.toPut]
    simp only [Option.isSome_none, Bool.toNat_false]
    omega
  | hand => exact .same rfl (Nat.sub_le_sub_left (Nat.le_succ _) _)
  | _ => exact .same rfl le_rfl

/-- An item that the worker takes lowers the load. -/
theorem Ledger.Move.load_lt {l l' : Ledger E} {b : Entry E} (m : Ledger.Move cfg b l l')
    (hthreads : l'.threads = l.threads) (htaken : l.taken < l'.taken) : l'.load t < l.load t := by
  cases m with
  | @evict _ u x c e ho hx hp hn hr =>
    have hpopped := congrArg Client.popped ((Ledger.give_same ..).symm.trans (congrFun hthreads u))
    cases hpopped.trans hn
  | hand hx =>
    have hlt := (List.getElem?_eq_some_iff.mp hx).1
    exact Nat.add_lt_add_right (Nat.sub_lt_sub_left hlt (Nat.lt_succ_self _)) _
  | _ => exact absurd htaken (Nat.lt_irrefl _)

theorem client_ne_idle {pc : Pc E} (h : pc.placing = true) : pc.client ≠ .idle := by
  intro hidle
  cases pc with
  | event call e owns pc => cases calling_event.symm.trans (congrArg Client.calling hidle)
  | request id caller owns pc =>
    cases caller with
    | flush before => cases congrArg Client.flushing hidle
    | evictor call e outer => cases congrArg Client.calling hidle
  | flushDraw before => cases congrArg Client.flushing hidle
  | _ => cases h

/-- Besides its event, a thread has one item in its hands at most. -/
theorem toPut_le (pc : Pc E) : pc.client.toPut ≤ pc.client.pending.isSome.toNat + 1 := by
  have hone : ∀ {c : Client E}, c.flushing.toPut = 0 →
      c.toPut ≤ c.pending.isSome.toNat + 1 := fun hc => by
    rw [Client.toPut, hc]
    exact Nat.add_le_add_left (Bool.toNat_le _) _
  cases pc with
  | event call e owns pc => cases pc <;> exact hone rfl
  | request id caller owns pc => cases caller <;> exact hone rfl
  | flushDraw before => exact le_rfl
  | _ => exact hone rfl

theorem pending_le_toPut (c : Client E) : c.pending.isSome.toNat ≤ c.toPut :=
  (Nat.le_add_right _ _).trans (Nat.le_add_right _ _)

/-- A queue that was full is not empty while the load is the same and the thread has no new
event. -/
theorem waits_of_load (hcap : 2 ≤ cfg.capacity) (hfull : s.Full cfg)
    (hload : s'.ledger.load t = s.ledger.load t)
    (hpending : (s'.threads t).client.pending.isSome = true →
      (s.threads t).client.pending.isSome = true) : s'.Waits := by
  have hroom : cfg.capacity ≤ s.queue.accepted.length - s.queue.taken :=
    hfull.trans_eq List.length_drop
  have hle := toPut_le (s'.threads t)
  have hpend := Bool.toNat_le_toNat hpending
  have hge := pending_le_toPut (s.threads t).client
  change s'.queue.accepted.length - s'.queue.taken + (s'.threads t).client.toPut =
    s.queue.accepted.length - s.queue.taken + (s.threads t).client.toPut at hload
  change s'.queue.taken < s'.queue.accepted.length
  omega

/-- Numbers that do not grow stay the same at last. -/
theorem exists_constant {f : ℕ → ℕ} {k : ℕ} (hf : ∀ n ≥ k, f (n + 1) ≤ f n) :
    ∃ n₀ ≥ k, ∀ n ≥ n₀, f n = f n₀ := by
  obtain ⟨n₀, hn₀, hmin⟩ := (InvImage.wf f wellFounded_lt).has_min {n | k ≤ n} ⟨k, Nat.le_refl k⟩
  refine ⟨n₀, hn₀, fun n hn => le_antisymm ?_ (not_lt.mp (hmin n (le_trans hn₀ hn)))⟩
  induction n, hn using Nat.le_induction with
  | base => exact le_rfl
  | succ n hn ih => exact (hf n (le_trans hn₀ hn)).trans ih

/-! ## A thread that is not overtaken -/

/-- Again and again, an item of another thread obtains a place. -/
def Overtaken (x : (machine E cfg).Execution) (t : ℕ) : Prop :=
  ∀ k, ∃ n ≥ k, ∃ a, x.action n = some a ∧ a.actor ≠ .thread t ∧
    (x.state n).queue.accepted.length < (x.state (n + 1)).queue.accepted.length

namespace RunsFairly

variable {x : (machine E cfg).Execution} (h : RunsFairly sinks x)

include h

theorem runningState (n : ℕ) : (x.state n).Running := by
  obtain ⟨as, has⟩ := h.exists_run n
  exact ⟨h.running n, (within_run has).taken_le⟩

/-- Only a `drop_oldest` dispatcher puts requests back. -/
theorem evicting (n : ℕ) : ((x.state n).threads t).Evicting cfg.options := by
  induction n with
  | zero =>
    rw [h.start]
    trivial
  | succ n ih =>
    cases ha : x.action n with
    | none =>
      rw [Machine.Execution.state_of_stutter ha]
      exact ih
    | some a =>
      have hstep : step cfg (x.state n) a = some (x.state (n + 1)) :=
        Machine.Execution.step_of_action ha
      by_cases hactor : a.actor = .thread t
      · cases a with
        | dispatch u e =>
          obtain rfl := Owner.thread.inj hactor
          rw [step] at hstep
          split at hstep
          · rw [← Option.some.inj hstep, threads_goto]
            trivial
          · cases hstep
        | flush u =>
          obtain rfl := Owner.thread.inj hactor
          rw [step] at hstep
          split at hstep
          · rw [← Option.some.inj hstep, threads_goto]
            trivial
          · cases hstep
        | thread u ok =>
          obtain rfl := Owner.thread.inj hactor
          cases hplacing : ((x.state n).threads u).placing with
          | false => exact evicting_of_not_placing (threadStep_not_placing hplacing hstep)
          | true =>
            rcases threadStep_onward h.atomic (h.runningState n) hplacing
              ((h.control n).threads u) ih hstep with honward | hleft
            · exact honward.evicting
            · exact evicting_of_not_placing hleft.placing
        | _ => cases hactor
      · rw [(step_scheduled (h.control n) (h.locked n).lockOk hstep).threads t hactor]
        exact ih

section Stays

variable {m : ℕ} {calling : Option (ℕ × E)}
  (hplacing : ((x.state m).threads t).placing = true)
  (hcalling : ((x.state m).threads t).client.calling = calling)
  (hnever : ∀ n ≥ m, ¬ (x.state n).Left t calling)

include hplacing hcalling hnever

/-- A thread that never leaves its call stays in it. -/
theorem stays : ∀ n ≥ m, ((x.state n).threads t).placing = true ∧
    ((x.state n).threads t).client.calling = calling := by
  intro n hn
  induction n, hn using Nat.le_induction with
  | base => exact ⟨hplacing, hcalling⟩
  | succ n hn ih =>
    cases ha : x.action n with
    | none =>
      rw [Machine.Execution.state_of_stutter ha]
      exact ih
    | some a =>
      by_cases hcont : a.continues = some (.thread t)
      · cases a with
        | thread u ok =>
          obtain rfl := Owner.thread.inj (Option.some.inj hcont)
          rcases threadStep_onward h.atomic (h.runningState n) ih.1 ((h.control n).threads u)
            (h.evicting n) (Machine.Execution.step_of_action ha) with honward | hleft
          · exact ⟨honward.placing, honward.calling.trans ih.2⟩
          · exact absurd (ih.2 ▸ hleft) (hnever _ (hn.trans (Nat.le_succ n)))
        | _ => cases hcont
      · rw [thread_other h.start ha hcont fun hidle => by rw [hidle] at ih; cases ih.1]
        exact ih

/-- What such a thread does next. -/
theorem onward_of_stays {n : ℕ} (hn : m ≤ n) {ok : Bool} (ha : x.action n = some (.thread t ok)) :
    ((x.state n).threads t).Onward cfg (x.state n) ((x.state (n + 1)).threads t) := by
  obtain ⟨hplace, hcall⟩ := h.stays hplacing hcalling hnever n hn
  rcases threadStep_onward h.atomic (h.runningState n) hplace ((h.control n).threads t)
    (h.evicting n) (Machine.Execution.step_of_action ha) with honward | hleft
  · exact honward
  · exact absurd (hcall ▸ hleft) (hnever _ (hn.trans (Nat.le_succ n)))

/-- It makes steps again and again, so no rank drops with each of them. -/
theorem not_rank {k : ℕ} (hk : m ≤ k) (rank : Pc E → ℕ)
    (hrank : ∀ n ≥ k, ∀ ok, x.action n = some (.thread t ok) →
      rank ((x.state (n + 1)).threads t) < rank ((x.state n).threads t)) : False := by
  have hstays := h.stays hplacing hcalling hnever
  suffices hfalse : ∃ n ≥ k, False by
    obtain ⟨-, -, hfalse⟩ := hfalse
    exact hfalse
  refine Machine.Execution.exists_of_rank (x := x) (Q := fun _ => False)
    (P := fun a => a.continues = some (.thread t)) (fun s => rank (s.threads t)) ?_ ?_ ?_
  · intro _
    refine h.threads t fun j => ?_
    obtain ⟨n, hn, hfree⟩ := h.exists_unlocked (max j m)
    have hplace := (hstays n ((le_max_right j m).trans hn)).1
    obtain ⟨ok, s', hs'⟩ : ∃ ok s', threadStep cfg (x.state n) t ok = some s' :=
      exists_threadStep (fun hidle => by rw [hidle] at hplace; cases hplace) (fun _ => hfree)
        (fun id before hflush => by rw [hflush] at hplace; cases hplace)
    exact ⟨n, (le_max_left j m).trans hn, .thread t ok, s', rfl, hs'⟩
  · intro n hn a hP ha _
    cases a with
    | thread u ok =>
      obtain rfl := Owner.thread.inj (Option.some.inj hP)
      exact .inr (hrank n hn ok ha)
    | _ => cases hP
  · intro n hn a hP ha _
    refine .inr (congrArg rank (thread_other h.start ha hP fun hidle => ?_)).le
    have hplace := (hstays n (hk.trans hn)).1
    rw [hidle] at hplace
    cases hplace

/-- Unless other threads overtake it, the load shrinks. -/
theorem lightens {k : ℕ} (hk : m ≤ k)
    (hnot : ∀ n ≥ k, ∀ a, x.action n = some a → a.actor ≠ .thread t →
      (x.state (n + 1)).queue.accepted.length ≤ (x.state n).queue.accepted.length) :
    ∀ n ≥ k, Lightens t (x.state n).ledger (x.state (n + 1)).ledger := by
  intro n hn
  cases ha : x.action n with
  | none =>
    rw [Machine.Execution.state_of_stutter ha]
    exact .same rfl le_rfl
  | some a =>
    have hstep : step cfg (x.state n) a = some (x.state (n + 1)) :=
      Machine.Execution.step_of_action ha
    rcases step_refined (h.control n) hstep with ⟨-, ⟨-, hl⟩ | hm⟩
    · rw [hl]
      exact .same rfl le_rfl
    · refine hm.lightens (h.runningState n).bound ?_ ?_
      · exact client_ne_idle (h.stays hplacing hcalling hnever n (hk.trans hn)).1
      · by_cases hactor : a.actor = .thread t
        · refine .inr fun u hu => congrArg Pc.client ?_
          refine (step_scheduled (h.control n) (h.locked n).lockOk hstep).threads u fun heq => ?_
          exact hu (Owner.thread.inj (heq.symm.trans hactor))
        · have hprefix := (queue_mono (x := x) (Nat.le_succ n)).2
          exact .inl (List.IsPrefix.eq_of_length_le hprefix (hnot n hn a ha hactor)).symm

/-- It finds the queue full again and again. -/
theorem exists_full {k : ℕ} (hk : m ≤ k) : ∃ n ≥ k, (x.state n).Full cfg := by
  by_contra hroom
  refine h.not_rank hplacing hcalling hnever hk Pc.onward fun n hn ok ha => ?_
  exact (h.onward_of_stays hplacing hcalling hnever (hk.trans hn) ha).onward
    fun hfull => hroom ⟨n, hn, hfull⟩

/-- A thread that never leaves its call is overtaken again and again. -/
theorem overtaken (hcap : 2 ≤ cfg.capacity) : Overtaken x t := by
  by_contra hnot
  obtain ⟨k, hk, hlight⟩ : ∃ k ≥ m, ∀ n ≥ k,
      Lightens t (x.state n).ledger (x.state (n + 1)).ledger := by
    simp only [Overtaken, not_forall, not_exists, not_and, not_lt] at hnot
    obtain ⟨k, hk⟩ := hnot
    exact ⟨max k m, le_max_right k m, h.lightens hplacing hcalling hnever (le_max_right k m)
      fun n hn => hk n ((le_max_left k m).trans hn)⟩
  -- from some moment on the load stays as it is, and then the queue is full at some moment
  obtain ⟨n₀, hn₀, hconst⟩ := exists_constant (f := fun n => (x.state n).ledger.load t)
    fun n hn => (hlight n hn).load
  obtain ⟨n₁, hn₁, hfull⟩ := h.exists_full hplacing hcalling hnever (hk.trans hn₀)
  -- after that it is never empty, and the worker takes something out
  have hpending : ∀ n ≥ n₁, ((x.state n).threads t).client.pending.isSome = true →
      ((x.state n₁).threads t).client.pending.isSome = true := by
    intro n hn
    induction n, hn using Nat.le_induction with
    | base => exact id
    | succ n hn ih => exact fun hp => ih ((hlight n (hn₀.trans (hn₁.trans hn))).pending hp)
  obtain ⟨n, hn, ok, ha, htaken⟩ := h.exists_worker_taken fun n (hn : n₁ ≤ n) =>
    waits_of_load hcap hfull ((hconst n (hn₁.trans hn)).trans (hconst n₁ hn₁).symm)
      (hpending n hn)
  have hstep : step cfg (x.state n) (.worker ok) = some (x.state (n + 1)) :=
    Machine.Execution.step_of_action ha
  have hsched := step_scheduled (h.control n) (h.locked n).lockOk hstep
  have hthreads : (x.state (n + 1)).ledger.threads = (x.state n).ledger.threads :=
    funext fun u => congrArg Pc.client (hsched.threads u (by rintro ⟨⟩))
  have hsame := (hconst (n + 1) (hn₁.trans (hn.trans (Nat.le_succ n)))).trans
    (hconst n (hn₁.trans hn)).symm
  rcases step_refined (h.control n) hstep with ⟨-, ⟨-, hl⟩ | hm⟩
  · exact htaken.ne (congrArg Ledger.taken hl).symm
  · exact (hm.load_lt hthreads htaken).ne hsame

end Stays

end RunsFairly

/-- **A call that does not return is overtaken for ever.** In every execution without `shutdown`
that schedules threads and worker fairly and in which a compare-exchange that the worker repeats
does not fail spuriously for ever, with any overflow policy and however the waits end: a
`dispatch` call returns, or, under `block` and `drop_oldest`, items of other threads obtain places
again and again; and a `flush` call puts its request into the queue, or the same goes on. -/
theorem calls_return_unless_overtaken {x : (machine E cfg).Execution} (h : RunsFairly sinks x)
    (hcap : 2 ≤ cfg.capacity) {m : ℕ} (ht : ((x.state m).threads t).placing = true) :
    (∀ call e, ((x.state m).threads t).client.calling = some (call, e) →
      (∃ n ≥ m, call ∈ (x.state n).history.returned) ∨
        cfg.options.overflow ≠ .dropNewest ∧ Overtaken x t) ∧
    (((x.state m).threads t).client.calling = none →
      (∃ n ≥ m, ∃ id before, (x.state n).threads t = .flush id before .test) ∨ Overtaken x t) := by
  refine ⟨fun call e hcalling => ?_, fun hcalling => ?_⟩
  · by_cases hleft : ∃ n ≥ m, (x.state n).Left t (some (call, e))
    · obtain ⟨n, hn, hleft⟩ := hleft
      exact .inl ⟨n, hn, hleft.returned call e rfl⟩
    · have hnever : ∀ n ≥ m, ¬ (x.state n).Left t (some (call, e)) :=
        fun n hn hl => hleft ⟨n, hn, hl⟩
      refine .inr ⟨fun hnewest => ?_, h.overtaken ht hcalling hnever hcap⟩
      refine h.not_rank ht hcalling hnever le_rfl Pc.rank fun n hn ok ha => ?_
      refine (h.onward_of_stays ht hcalling hnever hn ha).newest hnewest ?_
      rw [(h.stays ht hcalling hnever n hn).2]
      exact Option.some_ne_none _
  · by_cases hleft : ∃ n ≥ m, (x.state n).Left t none
    · obtain ⟨n, hn, hleft⟩ := hleft
      exact .inl ⟨n, hn, hleft.waits rfl⟩
    · exact .inr (h.overtaken ht hcalling (fun n hn hl => hleft ⟨n, hn, hl⟩) hcap)

/-- The event of `deliveryRun`, dispatched under `drop_newest`. -/
theorem calls_return_unless_overtaken_deliveryRun :
    ∃ (x : (machine ℕ defaults).Execution) (m : ℕ), RunsFairly [quietSink ℕ] x ∧
      ((x.state m).threads 0).client.calling = some (0, 7) ∧
      ∃ n ≥ m, 0 ∈ (x.state n).history.returned := by
  obtain ⟨s, hs, hrest, -⟩ := atRest_deliveryRun
  have hfair := runsFairly_restingExecution rfl hs hrest (by decide)
  have hfirst : ((machine ℕ defaults).run (.initial [quietSink ℕ]) (deliveryRun.take 1)).map
      (fun s => ((s.threads 0).placing, (s.threads 0).client.calling)) =
        some (true, some (0, 7)) := by decide
  have hstate := Machine.Execution.lasso_state_of_le hs hrest.run_doze (List.cons_ne_nil _ _)
    (show 1 ≤ deliveryRun.length by decide)
  rw [hstate] at hfirst
  obtain ⟨hplacing, hcalling⟩ := Prod.mk.inj (Option.some.inj hfirst)
  refine ⟨restingExecution hs hrest, 1, hfair, hcalling, ?_⟩
  rcases (calls_return_unless_overtaken hfair (by decide) hplacing).1 0 7 hcalling with
    hreturned | ⟨hpolicy, -⟩
  · exact hreturned
  · exact absurd rfl hpolicy

end AsyncDispatcher

end Logspine
