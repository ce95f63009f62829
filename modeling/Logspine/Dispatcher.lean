import Mathlib.Data.List.Basic
import Mathlib.Data.Nat.Basic
import Mathlib.Data.Nat.Notation
import Mathlib.Data.Int.Notation

/-!
# Sinks and the synchronous dispatcher

A sink is a deterministic state machine whose `write` and `flush` may throw. A
dispatcher only ever calls it and counts the exceptions, so everything a
dispatcher does to its sinks is a list of calls: `SinkBank` performs such a list
and remembers it. `SyncDispatcher` is the inline loop of `sync_dispatcher.cpp`
over that bank.

Dispatchers never look inside an event, so the event type stays a parameter `E`.
-/

namespace Logspine

variable {E A B : Type}

/-- A call on a sink: `write(event)` or `flush()`. -/
inductive SinkOp (A : Type) where
  /-- `write(event)` -/
  | write (event : A) : SinkOp A
  /-- `flush()` -/
  | flush : SinkOp A
  deriving DecidableEq

/-- A call on the sink with a given index. -/
structure SinkCall (A : Type) where
  /-- the index in `sinks_` -/
  sink : ℕ
  /-- the call -/
  op : SinkOp A
  deriving DecidableEq

/-- Rename the event of a call. -/
def SinkOp.map (f : A → B) : SinkOp A → SinkOp B
  | write event => write (f event)
  | flush => flush

/-- Rename the event of a call. -/
def SinkCall.map (f : A → B) (c : SinkCall A) : SinkCall B := ⟨c.sink, c.op.map f⟩

/-- The calls of one loop over `n` sinks. -/
def forEachSink (n : ℕ) (op : SinkOp A) : List (SinkCall A) := (List.range n).map fun k => ⟨k, op⟩

/-- The event of a call, if it is a `write`. -/
def SinkOp.event : SinkOp A → Option A
  | write event => some event
  | flush => none

/-- The event a call hands to sink `k`. -/
def SinkCall.eventFor (k : ℕ) (c : SinkCall A) : Option A :=
  if c.sink = k then c.op.event else none

/-- The events sink `k` is given by a list of calls. -/
def givenTo (k : ℕ) (cs : List (SinkCall A)) : List A := cs.filterMap (SinkCall.eventFor k)

theorem forEachSink_succ (n : ℕ) (op : SinkOp A) :
    forEachSink (n + 1) op = forEachSink n op ++ [⟨n, op⟩] := by
  rw [forEachSink, List.range_succ, List.map_append]
  rfl

theorem length_forEachSink (n : ℕ) (op : SinkOp A) : (forEachSink n op).length = n := by
  rw [forEachSink, List.length_map, List.length_range]

/-- The first `m` calls of a loop over `n` sinks are a loop over the first of them. -/
theorem take_forEachSink (n m : ℕ) (op : SinkOp A) :
    (forEachSink n op).take m = forEachSink (min m n) op := by
  rw [forEachSink, ← List.map_take, List.take_range]
  rfl

theorem mem_forEachSink {n : ℕ} {op : SinkOp A} {c : SinkCall A} :
    c ∈ forEachSink n op ↔ c.sink < n ∧ c.op = op := by
  rw [forEachSink, List.mem_map]
  constructor
  · rintro ⟨k, hk, rfl⟩
    exact ⟨List.mem_range.mp hk, rfl⟩
  · rintro ⟨hk, rfl⟩
    exact ⟨c.sink, List.mem_range.mpr hk, rfl⟩

theorem givenTo_append (k : ℕ) (cs ds : List (SinkCall A)) :
    givenTo k (cs ++ ds) = givenTo k cs ++ givenTo k ds := List.filterMap_append ..

/-- One loop hands the event to each sink once. -/
theorem givenTo_forEachSink (k n : ℕ) (op : SinkOp A) :
    givenTo k (forEachSink n op) = if k < n then op.event.toList else [] := by
  induction n with
  | zero => rfl
  | succ n ih =>
    rw [forEachSink_succ, givenTo_append, ih]
    rcases lt_trichotomy k n with hlt | rfl | hgt
    · rw [if_pos hlt, if_pos (Nat.lt_succ_of_lt hlt)]
      simp only [givenTo, SinkCall.eventFor, List.filterMap_cons, if_neg (Nat.ne_of_gt hlt),
        List.filterMap_nil, List.append_nil]
    · rw [if_neg (lt_irrefl k), if_pos (Nat.lt_succ_self k)]
      cases op <;> simp only [givenTo, SinkCall.eventFor, SinkOp.event, if_true,
        List.filterMap_cons, List.filterMap_nil, List.nil_append, Option.toList_some,
        Option.toList_none]
    · rw [if_neg (Nat.lt_asymm hgt), if_neg (Nat.not_lt.mpr hgt)]
      simp only [givenTo, SinkCall.eventFor, List.filterMap_cons, if_neg (Nat.ne_of_lt hgt),
        List.filterMap_nil, List.append_nil]

/-- `sink`: a state machine; the flag says that the call threw. -/
structure Sink (E : Type) where
  /-- the type of its state -/
  State : Type
  /-- its state -/
  state : State
  /-- `write` -/
  write : State → E → State × Bool
  /-- `flush` -/
  flush : State → State × Bool

/-- Call a sink: its next state, and whether the call threw. -/
def Sink.call (s : Sink E) : SinkOp E → Sink E × Bool
  | .write event => ({ s with state := (s.write s.state event).1 }, (s.write s.state event).2)
  | .flush => ({ s with state := (s.flush s.state).1 }, (s.flush s.state).2)

/-- Sinks, the exceptions counted so far, and the calls made so far. -/
structure SinkBank (E : Type) where
  /-- `sinks_` -/
  sinks : List (Sink E)
  /-- `sink_failures_` -/
  failures : ℕ
  /-- the calls made, in order -/
  calls : List (SinkCall E)

namespace SinkBank

/-- One guarded call: an exception is counted and goes no further. -/
def call (b : SinkBank E) (c : SinkCall E) : SinkBank E :=
  match b.sinks[c.sink]? with
  | none => b
  | some s =>
    { sinks := b.sinks.set c.sink (s.call c.op).1
      failures := b.failures + (s.call c.op).2.toNat
      calls := b.calls ++ [c] }

/-- Make the calls one after another. -/
def replay (b : SinkBank E) (cs : List (SinkCall E)) : SinkBank E := cs.foldl call b

theorem replay_append (b : SinkBank E) (cs ds : List (SinkCall E)) :
    b.replay (cs ++ ds) = (b.replay cs).replay ds := List.foldl_append ..

@[simp] theorem replay_nil (b : SinkBank E) : b.replay [] = b := rfl

theorem replay_concat (b : SinkBank E) (cs : List (SinkCall E)) (c : SinkCall E) :
    b.replay (cs ++ [c]) = (b.replay cs).call c := by
  rw [replay_append]
  rfl

@[simp] theorem length_sinks_call (b : SinkBank E) (c : SinkCall E) :
    (b.call c).sinks.length = b.sinks.length := by
  rw [call]
  split
  · rfl
  · exact List.length_set ..

@[simp] theorem length_sinks_replay (b : SinkBank E) (cs : List (SinkCall E)) :
    (b.replay cs).sinks.length = b.sinks.length := by
  induction cs generalizing b with
  | nil => rfl
  | cons c cs ih => rw [replay, List.foldl_cons, ← replay, ih, length_sinks_call]

end SinkBank

/-! ## `sync_dispatcher` -/

/-- A call of a dispatcher's client. -/
inductive ClientCall (E : Type) where
  /-- `dispatch(event)` -/
  | dispatch (event : E) : ClientCall E
  /-- `flush()` -/
  | flush : ClientCall E
  deriving DecidableEq

/-- What a dispatcher does to every sink for a client's call. -/
def ClientCall.op : ClientCall E → SinkOp E
  | dispatch event => .write event
  | flush => .flush

namespace SyncDispatcher

/-- `sync_dispatcher::dispatch`: write to every sink in turn. -/
def dispatch (b : SinkBank E) (event : E) : SinkBank E :=
  (List.range b.sinks.length).foldl (fun b k => b.call ⟨k, .write event⟩) b

/-- `sync_dispatcher::flush`: flush every sink in turn. -/
def flush (b : SinkBank E) : SinkBank E :=
  (List.range b.sinks.length).foldl (fun b k => b.call ⟨k, .flush⟩) b

/-- One call of a client. -/
def perform (b : SinkBank E) : ClientCall E → SinkBank E
  | .dispatch event => dispatch b event
  | .flush => flush b

/-- A client's program, run from `sinks`. -/
def run (sinks : List (Sink E)) (program : List (ClientCall E)) : SinkBank E :=
  program.foldl perform ⟨sinks, 0, []⟩

theorem perform_eq_replay (b : SinkBank E) (c : ClientCall E) :
    perform b c = b.replay (forEachSink b.sinks.length c.op) := by
  cases c <;> rw [SinkBank.replay, forEachSink, List.foldl_map] <;> rfl

/-- A synchronous run makes, for each client call, one loop over the sinks. -/
theorem run_eq_replay (sinks : List (Sink E)) (program : List (ClientCall E)) :
    run sinks program = (⟨sinks, 0, []⟩ : SinkBank E).replay
      (program.flatMap fun c => forEachSink sinks.length c.op) := by
  have hgen : ∀ b : SinkBank E, b.sinks.length = sinks.length → program.foldl perform b =
      b.replay (program.flatMap fun c => forEachSink sinks.length c.op) := by
    induction program with
    | nil => intro b _; rfl
    | cons c program ih =>
      intro b hb
      rw [List.foldl_cons, List.flatMap_cons, SinkBank.replay_append, perform_eq_replay, hb]
      exact ih _ (by rw [SinkBank.length_sinks_replay, hb])
  exact hgen _ rfl

end SyncDispatcher

end Logspine
