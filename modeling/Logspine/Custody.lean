import Mathlib.Data.List.Perm.Basic
import Logspine.LedgerRefines

/-!
# Custody: every ticket is in one place

Two invariants of the ledger's moves. `Tickets` says that the tickets that left
the queue are, each exactly once, evicted by a producer, finished with, lost, or in
the worker's hands, and that the worker takes and finishes them in ticket order.
`Calls` says which calls the sinks have received: one loop over the sinks for
each item finished with, then the part already made of the loop for the oldest
item in hand, then the part already made of the last flush.
-/

namespace Logspine

namespace AsyncDispatcher

variable {E : Type} {cfg : Config}

theorem getElem?_concat_of_some {T : Type} {xs : List T} {p : ℕ} {x : T} (y : T)
    (h : xs[p]? = some x) : (xs ++ [y])[p]? = some x := by
  obtain ⟨hp, -⟩ := List.getElem?_eq_some_iff.mp h
  rw [List.getElem?_append_left hp, h]

/-! ## Tickets -/

/-- Everything the worker took out. -/
def Ledger.handed (l : Ledger E) : List (Ticketed E) := l.done ++ l.lost ++ l.held

/-- Where the tickets that left the queue are. -/
structure Tickets (l : Ledger E) : Prop where
  bound : l.taken ≤ l.accepted.length
  items : ∀ x ∈ l.handed, l.accepted[x.1]? = some x.2
  custody : (l.evicted.map Prod.fst ++ l.handed.map Prod.fst).Perm (List.range l.taken)
  sorted : ((l.done ++ l.held).map Prod.fst).Pairwise (· < ·)

theorem tickets_initial (sinks : List (Sink E)) : Tickets (.initial sinks) where
  bound := le_rfl
  items _ hx := absurd hx List.not_mem_nil
  custody := List.Perm.refl _
  sorted := List.Pairwise.nil

namespace Tickets

variable {l l' : Ledger E}

theorem handed_lt (h : Tickets l) {x : Ticketed E} (hx : x ∈ l.handed) : x.1 < l.taken :=
  List.mem_range.mp (h.custody.mem_iff.mp
    (List.mem_append_right _ (List.mem_map_of_mem hx)))

theorem evicted_lt (h : Tickets l) {x : ℕ × ℕ × ℕ} (hx : x ∈ l.evicted) : x.1 < l.taken :=
  List.mem_range.mp (h.custody.mem_iff.mp
    (List.mem_append_left _ (List.mem_map_of_mem (f := Prod.fst) hx)))

/-- Another item obtains a place. -/
theorem place (h : Tickets l) (x : QueueItem E) :
    Tickets { l with accepted := l.accepted ++ [x] } where
  bound := by
    rw [List.length_append]
    exact h.bound.trans (Nat.le_add_right _ _)
  items y hy := getElem?_concat_of_some x (h.items y hy)
  custody := h.custody
  sorted := h.sorted

/-- The worker takes the oldest item. -/
theorem hand (h : Tickets l) {x : QueueItem E} (hx : l.accepted[l.taken]? = some x) :
    Tickets { l with taken := l.taken + 1, held := l.held ++ [(l.taken, x)] } where
  bound := (List.getElem?_eq_some_iff.mp hx).1
  items y hy := by
    rw [Ledger.handed, ← List.append_assoc] at hy
    rcases List.mem_append.mp hy with hy | hy
    · exact h.items y hy
    · obtain rfl := List.mem_singleton.mp hy
      exact hx
  custody := by
    rw [Ledger.handed, ← List.append_assoc, List.map_append, ← List.append_assoc, List.range_succ]
    exact h.custody.append_right _
  sorted := by
    rw [← List.append_assoc, List.map_append, List.pairwise_append]
    refine ⟨h.sorted, List.pairwise_singleton _ _, fun p hp q hq => ?_⟩
    obtain rfl := List.mem_singleton.mp hq
    obtain ⟨y, hy, rfl⟩ := List.mem_map.mp hp
    refine h.handed_lt ?_
    rcases List.mem_append.mp hy with hy | hy
    · exact List.mem_append_left _ (List.mem_append_left _ hy)
    · exact List.mem_append_right _ hy

/-- A producer takes the oldest item. -/
theorem evict (h : Tickets l) {x : QueueItem E} (hx : l.accepted[l.taken]? = some x) (t c : ℕ) :
    Tickets { l with taken := l.taken + 1, evicted := l.evicted ++ [(l.taken, t, c)] } where
  bound := (List.getElem?_eq_some_iff.mp hx).1
  items := h.items
  custody := by
    rw [List.map_append, List.append_assoc, List.range_succ]
    refine (List.perm_append_comm_assoc _ _ _).trans ?_
    exact List.perm_append_comm.trans (h.custody.append_right _)
  sorted := h.sorted

/-- The worker loses what it has in hand. -/
theorem lose (h : Tickets l) : Tickets { l with held := [], lost := l.lost ++ l.held } where
  bound := h.bound
  items := by
    have hhanded : l.done ++ (l.lost ++ l.held) ++ [] = l.handed := by
      rw [List.append_nil, ← List.append_assoc, Ledger.handed]
    rw [Ledger.handed, hhanded]
    exact h.items
  custody := by
    have hhanded : l.done ++ (l.lost ++ l.held) ++ [] = l.handed := by
      rw [List.append_nil, ← List.append_assoc, Ledger.handed]
    rw [Ledger.handed, hhanded]
    exact h.custody
  sorted := by
    rw [List.append_nil]
    refine h.sorted.sublist ?_
    rw [List.map_append]
    exact List.sublist_append_left _ _

/-- The worker finishes with the oldest item in its hands. -/
theorem finish (h : Tickets l) {x : Ticketed E} {rest : List (Ticketed E)}
    (hx : l.held = x :: rest) : Tickets { l with held := rest, done := l.done ++ [x] } := by
  have hperm : (l.done ++ [x] ++ l.lost ++ rest).Perm l.handed := by
    rw [Ledger.handed, hx, List.append_assoc, List.append_assoc, List.append_assoc]
    refine List.Perm.append_left _ ?_
    rw [List.singleton_append]
    exact (List.perm_middle).symm
  have hsorted : l.done ++ [x] ++ rest = l.done ++ l.held := by
    rw [hx, List.append_assoc, List.singleton_append]
  constructor
  · exact h.bound
  · exact fun y hy => h.items y (hperm.mem_iff.mp hy)
  · exact ((hperm.map Prod.fst).append_left _).trans h.custody
  · rw [hsorted]
    exact h.sorted

theorem move {b : Entry E} (h : Tickets l) (m : Ledger.Move cfg b l l') :
    Tickets l' := by
  cases m with
  | placeEvent => exact { h.place _ with }
  | placeRequest => exact { h.place _ with }
  | evict _ hx => exact { h.evict hx _ _ with }
  | hand hx => exact h.hand hx
  | lose => exact h.lose
  | finishEvent hx => exact { h.finish hx with }
  | finishFlush hx => exact { h.finish hx with }
  | _ => exact { h with }

end Tickets

/-! ## Calls -/

/-- What the worker does for an item: one loop over the `n` sinks. -/
def script (n : ℕ) (x : Ticketed E) : List (SinkCall (ℕ × E)) := forEachSink n (sinkOp x)

/-- The part already made of the loop for the oldest item in hand. -/
def started (n : ℕ) (held : List (Ticketed E)) (progress : ℕ) : List (SinkCall (ℕ × E)) :=
  match held with
  | [] => []
  | x :: _ => (script n x).take progress

/-- The part already made of the last flush. -/
def farewell (n : ℕ) (closing : Option ℕ) : List (SinkCall (ℕ × E)) :=
  (forEachSink n .flush).take (closing.getD 0)

@[simp] theorem started_zero (n : ℕ) (held : List (Ticketed E)) : started n held 0 = [] := by
  cases held with
  | nil => rfl
  | cons x rest => rfl

/-- Which calls were made. -/
structure Calls (sinks : List (Sink E)) (l : Ledger E) : Prop where
  bank : l.bank = (⟨sinks, 0, []⟩ : SinkBank E).replay (l.calls.map plain)
  idle : l.held = [] → l.progress = 0
  closing : ∀ k, l.closing = some k → k ≤ sinks.length ∧ l.held = []
  calls : l.calls = l.done.flatMap (script sinks.length) ++
    started sinks.length l.held l.progress ++ farewell sinks.length l.closing

theorem calls_initial (sinks : List (Sink E)) : Calls sinks (.initial sinks) where
  bank := rfl
  idle _ := rfl
  closing _ hk := nomatch hk
  calls := rfl

namespace Calls

variable {sinks : List (Sink E)} {l l' : Ledger E}

theorem length_sinks (h : Calls sinks l) : l.bank.sinks.length = sinks.length := by
  rw [h.bank, SinkBank.length_sinks_replay]

theorem closing_eq_none (h : Calls sinks l) {x : Ticketed E} {rest : List (Ticketed E)}
    (hx : l.held = x :: rest) : l.closing = none := by
  cases hc : l.closing with
  | none => rfl
  | some k =>
    have hnil := (h.closing k hc).2
    rw [hx] at hnil
    cases hnil

theorem bank_callSink (h : Calls sinks l) (c : SinkCall (ℕ × E)) :
    (l.callSink c).bank =
      (⟨sinks, 0, []⟩ : SinkBank E).replay ((l.callSink c).calls.map plain) := by
  rw [Ledger.callSink, List.map_append, List.map_cons, List.map_nil, SinkBank.replay_concat,
    ← h.bank]

/-- The worker finishes with the oldest item in its hands. -/
theorem finish (h : Calls sinks l) {x : Ticketed E} {rest : List (Ticketed E)}
    (hx : l.held = x :: rest) (hp : l.bank.sinks.length ≤ l.progress) :
    Calls sinks { l with held := rest, done := l.done ++ [x], progress := 0 } where
  bank := h.bank
  idle _ := rfl
  closing k hk := by
    rw [h.closing_eq_none hx] at hk
    cases hk
  calls := by
    have hstarted : started sinks.length l.held l.progress = script sinks.length x := by
      rw [hx]
      rw [started, script, take_forEachSink, min_eq_right (h.length_sinks ▸ hp)]
    rw [h.calls, hstarted, started_zero, List.append_nil, List.flatMap_append,
      List.flatMap_singleton]

theorem move {b : Entry E} (h : Calls sinks l) (m : Ledger.Move cfg b l l') :
    Calls sinks l' := by
  cases m with
  | hand hx hp hc =>
    refine ⟨h.bank, fun _ => hp, fun k hk => ?_, ?_⟩
    · rw [hc] at hk
      cases hk
    · rw [h.calls, hp, started_zero, started_zero]
  | lose hs hp =>
    refine ⟨h.bank, fun _ => hp, fun k hk => ⟨(h.closing k hk).1, rfl⟩, ?_⟩
    rw [h.calls, hp, started_zero, started_zero]
  | @call _ x rest hx hp =>
    rw [h.length_sinks] at hp
    refine ⟨h.bank_callSink _, fun hnil => ?_, fun k hk => ?_, ?_⟩
    · rw [Ledger.callSink, hx] at hnil
      cases hnil
    · rw [Ledger.callSink, h.closing_eq_none hx] at hk
      cases hk
    · simp only [Ledger.callSink]
      rw [h.calls, h.closing_eq_none hx, hx, started, started, script, take_forEachSink,
        take_forEachSink, min_eq_left hp.le, min_eq_left (Nat.succ_le_of_lt hp),
        forEachSink_succ, farewell, Option.getD_none, List.take_zero, List.append_nil,
        List.append_nil, List.append_assoc]
  | finishEvent hx hp => exact h.finish hx hp
  | finishFlush hx hp => exact { h.finish hx hp with }
  | close hs hh hp hc =>
    refine ⟨h.bank, h.idle, fun k hk => ?_, ?_⟩
    · obtain rfl := Option.some.inj hk
      exact ⟨Nat.zero_le _, hh⟩
    · rw [h.calls, hc]
      rfl
  | farewell hk hn =>
    rw [h.length_sinks] at hn
    obtain ⟨-, hh⟩ := h.closing _ hk
    refine ⟨h.bank_callSink _, h.idle, fun k' hk' => ?_, ?_⟩
    · obtain rfl := Option.some.inj hk'
      exact ⟨hn, hh⟩
    · simp only [Ledger.callSink]
      rw [h.calls, hk, AsyncDispatcher.farewell, AsyncDispatcher.farewell, Option.getD_some,
        Option.getD_some, take_forEachSink, take_forEachSink, min_eq_left hn.le,
        min_eq_left (Nat.succ_le_of_lt hn), forEachSink_succ]
      exact List.append_assoc ..
  | _ => exact { h with }

end Calls

end AsyncDispatcher

end Logspine
