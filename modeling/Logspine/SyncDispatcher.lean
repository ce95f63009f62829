import Logspine.CriticalSection
import Logspine.Dispatcher

/-!
# `sync_dispatcher`, shared by threads

`dispatch`, `flush` and `sink_failures` hold `mutex_` from their first line to their last, and
each call on a sink is one step of the thread that holds it. Whatever the scheduler does, the
sinks are called as if the calls were made one after another (`calls_serialized`).
-/

namespace Logspine

namespace SyncDispatcher

open Guarded

variable {E : Type}

/-- A call on a `sync_dispatcher`. -/
inductive Call (E : Type) where
  /-- `dispatch(event)` or `flush()` -/
  | client (call : ClientCall E) : Call E
  | droppedEvents : Call E
  | sinkFailures : Call E
  deriving DecidableEq

/-- `sync_dispatcher`: the loops over `sinks_` and the reading of `sink_failures_` are inside
the lock; `dropped_events` takes none. -/
def guarded : Guarded (SinkBank E) (Call E) (Option ℕ) where
  enters
    | .droppedEvents => false
    | _ => true
  body
    | .client call, b => (List.range b.sinks.length).map fun k b => b.call ⟨k, call.op⟩
    | _, _ => []
  answer
    | .client _, _ => none
    | .droppedEvents, _ => some 0
    | .sinkFailures, b => some b.failures

/-- The call on the dispatcher's sinks, if it is one. -/
def Call.client? : Call E → Option (ClientCall E)
  | client call => some call
  | _ => none

/-- What the calls ask of the sinks. -/
def clients (cs : List (ℕ × Call E)) : List (ClientCall E) := cs.filterMap fun c => c.2.client?

/-! ## One call after another -/

/-- The first calls of a loop over the sinks. -/
theorem runBody_map (b : SinkBank E) (op : SinkOp E) (ks : List ℕ) :
    runBody b (ks.map fun k b => b.call ⟨k, op⟩) = b.replay (ks.map fun k => ⟨k, op⟩) := by
  induction ks generalizing b with
  | nil => rfl
  | cons k ks ih => exact ih (b.call ⟨k, op⟩)

/-- The first steps of `dispatch` or `flush` inside the lock. -/
theorem runBody_take (b : SinkBank E) (call : ClientCall E) (k : ℕ) :
    runBody b ((guarded.body (.client call) b).take k) =
      b.replay (forEachSink (min k b.sinks.length) call.op) := by
  change runBody b (((List.range b.sinks.length).map _).take k) = _
  rw [← List.map_take, List.take_range, runBody_map]
  rfl

theorem perform_client (b : SinkBank E) (call : ClientCall E) :
    guarded.perform b (.client call) = SyncDispatcher.perform b call := by
  rw [perform_eq_replay, Guarded.perform, forEachSink]
  exact runBody_map ..

theorem clients_concat (cs : List (ℕ × Call E)) (t : ℕ) (call : Call E) :
    clients (cs ++ [(t, call)]) = clients cs ++ call.client?.toList := by
  rw [clients, List.filterMap_append]
  cases call <;> rfl

/-- The calls, made one after another, are the client's program. -/
theorem performs_eq_run (sinks : List (Sink E)) (cs : List (ℕ × Call E)) :
    guarded.performs ⟨sinks, 0, []⟩ (cs.map Prod.snd) = run sinks (clients cs) := by
  induction cs using List.reverseRecOn with
  | nil => rfl
  | append_singleton cs c ih =>
    obtain ⟨t, call⟩ := c
    rw [List.map_append, List.map_singleton, performs_concat, ih, clients_concat, run, run,
      List.foldl_append]
    cases call with
    | client call => exact perform_client ..
    | _ => rfl

theorem length_sinks_run (sinks : List (Sink E)) (program : List (ClientCall E)) :
    (run sinks program).sinks.length = sinks.length := by
  rw [run_eq_replay, SinkBank.length_sinks_replay]

/-! ## Every interleaving -/

variable {sinks : List (Sink E)} {as : List (Action (Call E))}
  {s : Guarded.State (SinkBank E) (Call E) (Option ℕ)}

/-- The sinks after the calls, made one after another, and after the first `k` calls of a loop. -/
def partway (sinks : List (Sink E)) (before : List (ℕ × Call E)) (call : ClientCall E) (k : ℕ) :
    SinkBank E :=
  (run sinks (clients before)).replay (forEachSink (min k sinks.length) call.op)

/-- What holds of a `sync_dispatcher` in every state. -/
structure Serialized (sinks : List (Sink E)) (as : List (Action (Call E)))
    (s : Guarded.State (SinkBank E) (Call E) (Option ℕ)) : Prop where
  /-- no sink is called by two threads at once -/
  exclusive : ∀ t u, (s.threads t).holds = true → (s.threads u).holds = true → t = u
  /-- the sinks are where the calls that have taken the lock lead them, or partway through the
  loop of the last one -/
  bank : s.shared = run sinks (clients s.entered) ∨ ∃ t before call k, s.mutex = some t ∧
    s.entered = before ++ [(t, .client call)] ∧ s.shared = partway sinks before call k
  /-- `sink_failures` returns what the calls before it lead to -/
  failures : ∀ t n, (t, .sinkFailures, some n) ∈ s.answers → ∃ before,
    before ++ [(t, .sinkFailures)] <+: s.entered ∧ n = (run sinks (clients before)).failures
  /-- a thread that is in no call has made its calls in its own order -/
  order : ∀ t, s.threads t = .idle → callsOf t s.entered = callsOf t (guarded.begun as)
  /-- a call that takes the lock later comes later -/
  later : ∀ bs s', guarded.machine.run s bs = some s' → s.entered <+: s'.entered
  /-- every call can return -/
  returns : ∀ t, ∃ s', guarded.machine.Reaches s s' ∧ s'.threads t = .idle

/-- **The calls are serialized.** In every state that any interleaving of any number of threads
reaches, whichever calls of whichever sinks throw: no sink is called by two threads at once, the
sinks and `sink_failures_` are where the calls lead them when they are made one after another in
the order in which they took the lock, or partway through the loop of the last one, every value
that `sink_failures` returned is the one of its place in that order, and every call can return. -/
theorem calls_serialized (h : guarded.machine.run (.initial ⟨sinks, 0, []⟩) as = some s) :
    Serialized sinks as s := by
  have hserial := serial_run h
  have hanswers : ∀ t n cs, (t, Call.sinkFailures, some n) ∈
      guarded.replies (⟨sinks, 0, []⟩ : SinkBank E) cs → ∃ before,
        before ++ [(t, .sinkFailures)] <+: cs ∧ n = (run sinks (clients before)).failures := by
    intro t n cs hmem
    obtain ⟨before, hprefix, hn⟩ := mem_replies hmem
    refine ⟨before, hprefix, ?_⟩
    rw [performs_concat, performs_eq_run] at hn
    exact Option.some.inj hn
  refine ⟨fun t u => hserial.exclusive, ?_, fun t n hmem => ?_, fun t ht => ?_,
    fun bs s' => entered_prefix, exists_returned hserial⟩
  · cases hm : s.mutex with
    | none => exact .inl ((hserial.free hm).1.trans (performs_eq_run ..))
    | some t =>
      obtain ⟨c, rest, ht⟩ := hserial.exists_inside hm
      obtain ⟨before, made, hentered, -, hbody, hshared⟩ := hserial.held t c rest ht
      rw [performs_eq_run] at hbody hshared
      cases c with
      | client call =>
        refine .inr ⟨t, before, call, made.length, rfl, hentered, hshared.trans ?_⟩
        have hmade := congrArg (List.take made.length) hbody
        rw [List.take_left] at hmade
        conv_lhs => rw [← hmade]
        rw [runBody_take, length_sinks_run]
        rfl
      | _ =>
        refine .inl ?_
        obtain ⟨rfl, -⟩ := List.append_eq_nil_iff.mp hbody.symm
        rw [hshared, hentered, clients_concat]
        exact congrArg (run sinks) (List.append_nil _).symm
  · cases hm : s.mutex with
    | none =>
      rw [(hserial.free hm).2] at hmem
      exact hanswers t n _ hmem
    | some u =>
      obtain ⟨c, rest, hu⟩ := hserial.exists_inside hm
      obtain ⟨before, made, hentered, hreplies, -, -⟩ := hserial.held u c rest hu
      rw [hreplies] at hmem
      obtain ⟨earlier, hprefix, hn⟩ := hanswers t n _ hmem
      refine ⟨earlier, List.IsPrefix.trans hprefix ?_, hn⟩
      rw [hentered]
      exact List.prefix_append ..
  · have horder := hserial.order t
    rw [ht] at horder
    exact (List.append_nil _).symm.trans horder

/-- A sink that adds up the numbers it is given, and throws at a zero. -/
def addingSink : Sink ℕ := ⟨ℕ, 0, fun sum n => (sum + n, n == 0), fun sum => (sum, false)⟩

/-- Thread 1 begins to read the failures while thread 0 is in its loop. -/
def contended : List (Action (Call ℕ)) :=
  [.call 0 (.client (.dispatch 0)), .step 0, .step 0, .call 1 .sinkFailures, .step 0, .step 0,
    .step 1, .step 1]

theorem calls_serialized_contended :
    ∃ s, guarded.machine.run (.initial ⟨[addingSink, addingSink], 0, []⟩) contended = some s ∧
      (1, .sinkFailures, some 2) ∈ s.answers ∧
      Serialized [addingSink, addingSink] contended s := by
  refine ⟨_, rfl, ?_, calls_serialized rfl⟩
  exact List.mem_cons_of_mem _ (List.mem_cons_self ..)

end SyncDispatcher

end Logspine
