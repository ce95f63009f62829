import Mathlib.Algebra.BigOperators.Group.Finset.Piecewise
import Logspine.Conservation

/-!
# Every sink is given the same

A sink is called by the worker alone, and what it throws goes no further than
`sink_failures_`. So a sink is where its own calls lead it, whatever the other sinks do
(`SinkBank.sinks_replay`), `sink_failures_` is the sum of what the sinks throw when each is
called alone (`SinkBank.failures_replay`), and all of them are given the same operations in the
same order, an earlier sink being ahead of a later one by at most the operation under way.
-/

namespace Logspine

variable {E A B : Type}

/-! ## One sink among others -/

/-- The operations that a list of calls performs on sink `k`. -/
def opsFor (k : ℕ) (cs : List (SinkCall A)) : List (SinkOp A) :=
  cs.filterMap fun c => if c.sink = k then some c.op else none

/-- Perform operations on a sink that is on its own. -/
def Sink.perform (s : Sink E) (ops : List (SinkOp E)) : Sink E :=
  ops.foldl (fun s op => (s.call op).1) s

/-- How many of the operations throw. -/
def Sink.throws : Sink E → List (SinkOp E) → ℕ
  | _, [] => 0
  | s, op :: ops => (s.call op).2.toNat + (s.call op).1.throws ops

/-- How many of the calls throw that a list of calls makes on sink `k`. -/
def throwsOf (sinks : List (Sink E)) (cs : List (SinkCall E)) (k : ℕ) : ℕ :=
  sinks[k]?.elim 0 fun s => s.throws (opsFor k cs)

theorem opsFor_append (k : ℕ) (cs ds : List (SinkCall A)) :
    opsFor k (cs ++ ds) = opsFor k cs ++ opsFor k ds := List.filterMap_append ..

theorem opsFor_singleton (k : ℕ) (c : SinkCall A) :
    opsFor k [c] = if c.sink = k then [c.op] else [] := by
  rw [opsFor, List.filterMap_cons]
  split
  case h_1 hnone =>
    rw [if_neg fun h => nomatch (if_pos h).symm.trans hnone]
    rfl
  case h_2 op hsome =>
    obtain ⟨h, hop⟩ := Option.ite_none_right_eq_some.mp hsome
    rw [if_pos h, ← Option.some.inj hop]
    rfl

/-- One loop performs the operation once on each sink. -/
theorem opsFor_forEachSink (k n : ℕ) (op : SinkOp A) :
    opsFor k (forEachSink n op) = if k < n then [op] else [] := by
  induction n with
  | zero => rfl
  | succ n ih =>
    rw [forEachSink_succ, opsFor_append, ih, opsFor_singleton]
    rcases lt_trichotomy k n with hlt | rfl | hgt
    · rw [if_pos hlt, if_pos (Nat.lt_succ_of_lt hlt), if_neg (Nat.ne_of_gt hlt), List.append_nil]
    · rw [if_neg (lt_irrefl k), if_pos (Nat.lt_succ_self k), if_pos rfl, List.nil_append]
    · rw [if_neg (Nat.lt_asymm hgt), if_neg (Nat.not_lt.mpr hgt), if_neg (Nat.ne_of_lt hgt),
        List.append_nil]

theorem Sink.throws_append (s : Sink E) (ops ops' : List (SinkOp E)) :
    s.throws (ops ++ ops') = s.throws ops + (s.perform ops).throws ops' := by
  induction ops generalizing s with
  | nil => exact (Nat.zero_add _).symm
  | cons op ops ih =>
    rw [List.cons_append, throws, throws, ih, Nat.add_assoc]
    rfl

namespace SinkBank

/-- **Isolation**: a sink is where its own calls lead it. -/
theorem sinks_replay (b : SinkBank E) (cs : List (SinkCall E)) (k : ℕ) :
    (b.replay cs).sinks[k]? = b.sinks[k]?.map fun s => s.perform (opsFor k cs) := by
  induction cs generalizing b with
  | nil => exact (Option.map_id' ..).symm
  | cons c cs ih =>
    rw [replay, List.foldl_cons, ← replay, ih, ← List.singleton_append, opsFor_append,
      opsFor_singleton, call]
    split
    case h_1 hnone =>
      split
      case isTrue hk =>
        rw [← hk, hnone]
        rfl
      case isFalse => rfl
    case h_2 s hs =>
      by_cases hk : c.sink = k
      · rw [if_pos hk, ← hk, List.getElem?_set_self (List.getElem?_eq_some_iff.mp hs).1, hs]
        rfl
      · rw [if_neg hk, List.getElem?_set_ne hk]
        rfl

/-- The exceptions counted are those that the sinks throw, each called on its own. -/
theorem failures_replay (b : SinkBank E) (cs : List (SinkCall E)) :
    (b.replay cs).failures =
      b.failures + ∑ k ∈ Finset.range b.sinks.length, throwsOf b.sinks cs k := by
  induction cs using List.reverseRecOn with
  | nil =>
    rw [Finset.sum_eq_zero, Nat.add_zero, replay_nil]
    intro k _
    rw [throwsOf]
    cases b.sinks[k]? <;> rfl
  | append_singleton cs c ih =>
    have hconcat : ∀ k, throwsOf b.sinks (cs ++ [c]) k = throwsOf b.sinks cs k +
        if k = c.sink then (b.replay cs).sinks[c.sink]?.elim 0 fun s => (s.call c.op).2.toNat
        else 0 := by
      intro k
      rw [throwsOf, throwsOf, opsFor_append, opsFor_singleton, sinks_replay]
      by_cases hk : k = c.sink
      · subst hk
        rw [if_pos rfl, if_pos rfl]
        cases b.sinks[c.sink]? with
        | none => rfl
        | some s => exact Sink.throws_append ..
      · rw [if_neg hk, if_neg (Ne.symm hk), List.append_nil, Nat.add_zero]
    rw [Finset.sum_congr rfl fun k _ => hconcat k, Finset.sum_add_distrib, Finset.sum_ite_eq',
      replay_concat, ← Nat.add_assoc, ← ih, call]
    split
    case h_1 hnone =>
      rw [hnone]
      split <;> rfl
    case h_2 s hs =>
      obtain ⟨hlt, -⟩ := List.getElem?_eq_some_iff.mp hs
      rw [length_sinks_replay] at hlt
      rw [if_pos (Finset.mem_range.mpr hlt), hs]
      rfl

end SinkBank

namespace AsyncDispatcher

variable {cfg : Config} {s : State E} {as : List (Action E)} {sinks : List (Sink E)}
  {l : Ledger E}

/-! ## The sinks of a dispatcher -/

/-- The operation under way, and how many of the sinks have performed it. -/
def Ledger.underWay (l : Ledger E) : SinkOp (ℕ × E) × ℕ :=
  match l.held with
  | x :: _ => (sinkOp x, l.progress)
  | [] => (.flush, l.closing.getD 0)

/-- Each sink has performed what is done, and maybe the operation under way. -/
theorem Calls.opsFor_calls (h : Calls sinks l) {k : ℕ} (hk : k < sinks.length) :
    opsFor k l.calls =
      l.done.map sinkOp ++ if k < l.underWay.2 then [l.underWay.1] else [] := by
  have hloop : ∀ (m : ℕ) (op : SinkOp (ℕ × E)),
      opsFor k ((forEachSink sinks.length op).take m) = if k < m then [op] else [] := by
    intro m op
    rw [take_forEachSink, opsFor_forEachSink]
    by_cases hm : k < m
    · rw [if_pos hm, if_pos (lt_min hm hk)]
    · rw [if_neg hm, if_neg fun hlt => hm (lt_of_lt_of_le hlt (min_le_left ..))]
  have hdone : opsFor k (l.done.flatMap (script sinks.length)) = l.done.map sinkOp := by
    induction l.done with
    | nil => rfl
    | cons x xs ih =>
      rw [List.flatMap_cons, opsFor_append, ih, script, opsFor_forEachSink, if_pos hk]
      rfl
  rw [h.calls, opsFor_append, opsFor_append, hdone, List.append_assoc, Ledger.underWay]
  congr 1
  cases hheld : l.held with
  | nil =>
    rw [started, farewell, hloop]
    rfl
  | cons x rest =>
    rw [started, script, hloop, h.closing_eq_none hheld, farewell, Option.getD_none,
      List.take_zero]
    exact List.append_nil _

/-- What holds of the sinks of a dispatcher in every state. -/
structure FannedOut (sinks : List (Sink E)) (s : State E) : Prop where
  /-- a sink is where its own calls lead it -/
  alone : ∀ k, s.sinks[k]? =
    sinks[k]?.map fun sink : Sink E => sink.perform (opsFor k (s.history.calls.map plain))
  /-- `sink_failures_` counts what the sinks throw, but for the exception just thrown -/
  failures : s.sinkFailures + s.worker.threw.toNat =
    ∑ k ∈ Finset.range sinks.length, throwsOf sinks (s.history.calls.map plain) k
  /-- a sink performs the operations of the items the worker is done with, and if it is one of
  the first `m` also the operation under way -/
  same : ∃ (op : SinkOp (ℕ × E)) (m : ℕ), ∀ k < sinks.length,
    opsFor k s.history.calls = s.history.done.map sinkOp ++ if k < m then [op] else []

/-- **Every sink is given the same.** In every state that any interleaving reaches, with any
overflow policy, with or without `shutdown`, and whichever calls of whichever sinks throw: a
sink is where its own calls alone lead it, `sink_failures_` is the number of calls that threw,
and all sinks perform the same operations in the same order, with at most one that the earlier
sinks have performed and the later ones have not. -/
theorem sinks_fannedOut (h : (machine E cfg).run (.initial sinks) as = some s) :
    FannedOut sinks s := by
  have hcalls := (books_run h).calls
  have hbank : s.ledger.bank = (⟨sinks, 0, []⟩ : SinkBank E).replay (s.history.calls.map plain) :=
    hcalls.bank
  refine ⟨fun k => ?_, ?_, ?_⟩
  · rw [← SinkBank.sinks_replay ⟨sinks, 0, []⟩, ← hbank]
    rfl
  · have hfailures := congrArg SinkBank.failures hbank
    rw [SinkBank.failures_replay, Nat.zero_add] at hfailures
    exact hfailures
  · exact ⟨s.ledger.underWay.1, s.ledger.underWay.2, fun k hk => hcalls.opsFor_calls hk⟩

theorem sinks_fannedOut_overflowRun :
    ∃ s, (machine ℕ evicting).run (.initial [quietSink ℕ, brokenSink ℕ]) overflowRun = some s ∧
      s.sinkFailures = 1 ∧ FannedOut [quietSink ℕ, brokenSink ℕ] s := by
  have hrun : ((machine ℕ evicting).run (.initial [quietSink ℕ, brokenSink ℕ]) overflowRun).map
      State.sinkFailures = some 1 := by decide
  obtain ⟨s, hs, heq⟩ := Option.map_eq_some_iff.mp hrun
  exact ⟨s, hs, heq, sinks_fannedOut hs⟩

end AsyncDispatcher

end Logspine
