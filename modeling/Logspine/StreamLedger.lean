import Mathlib.Data.List.Nodup
import Mathlib.Data.List.Perm.Basic
import Logspine.StreamSink

/-!
# What becomes of a call

A call of `write` that has made its text is in progress, has returned or has thrown. Its
record is complete on one connection, once, if it has returned or is about to, and on none
if it has thrown or is still being sent.
-/

universe u

namespace Logspine

namespace StreamSink

variable {E : Type u} {cfg : Config E} {s s' : State E} {t : ℕ}

/-- The call in progress at a place. -/
def Pc.call? : Pc E → Option (Call E)
  | .idle => none
  | .lock call => some call
  | .ensureConnected l | .sendAll l | .send l _ | .sent l | .failed l _ | .relock l => some l.call

/-- The call has sent all. -/
def Pc.isSent : Pc E → Bool
  | .sent _ => true
  | _ => false

/-- The calls whose record is complete on some connection. -/
def State.completed (s : State E) : List (Call E) := s.connections.flatMap Connection.completed

/-- What the lists say of the call in progress at a place. -/
def Pc.Listed (calls completed returned thrown : List (Call E)) (pc : Pc E) : Prop :=
  ∀ call, pc.call? = some call → call ∈ calls ∧ call ∉ returned ∧ call ∉ thrown ∧
    (call ∈ completed ↔ pc.isSent = true)

/-- Each call is where its record says. -/
structure Ledger (calls completed returned thrown : List (Call E)) (threads : ℕ → Pc E) :
    Prop where
  numbered : ∀ n (call : Call E), calls[n]? = some call → call.number = n
  running : ∀ t, (threads t).Listed calls completed returned thrown
  distinct : ∀ t u call, (threads t).call? = some call → (threads u).call? = some call → t = u
  completed_nodup : completed.Nodup
  completed_or : ∀ call ∈ completed, call ∈ calls ∧
    (call ∈ returned ∨ ∃ t, (threads t).call? = some call ∧ (threads t).isSent = true)
  returned_nodup : returned.Nodup
  returned_completed : ∀ call ∈ returned, call ∈ completed
  thrown_calls : ∀ call ∈ thrown, call ∈ calls ∧ call ∉ completed

/-- The ledger of a state. -/
def State.Accounted (s : State E) : Prop :=
  Ledger s.history.calls s.completed s.history.returned s.history.thrown s.threads

namespace Ledger

variable {calls completed completed' returned thrown : List (Call E)} {threads : ℕ → Pc E}
  {pc pc' : Pc E} {call : Call E}

/-- A call that is not among the calls is nowhere. -/
theorem fresh (h : Ledger calls completed returned thrown threads) (hc : call ∉ calls) :
    call ∉ completed ∧ call ∉ returned ∧ call ∉ thrown := by
  have hcompleted : call ∉ completed := fun hm => hc (h.completed_or call hm).1
  exact ⟨hcompleted, fun hm => hcompleted (h.returned_completed call hm),
    fun hm => hc (h.thrown_calls call hm).1⟩

/-- Two calls with one number are one call. -/
theorem eq_of_number (h : Ledger calls completed returned thrown threads) {call' : Call E}
    (hc : call ∈ calls) (hc' : call' ∈ calls) (hn : call.number = call'.number) :
    call = call' := by
  obtain ⟨n, hn₁⟩ := List.mem_iff_getElem?.mp hc
  obtain ⟨m, hm₁⟩ := List.mem_iff_getElem?.mp hc'
  rw [h.numbered n call hn₁, h.numbered m call' hm₁] at hn
  subst hn
  exact Option.some.inj (hn₁.symm.trans hm₁)

/-- The places after a step of one thread. -/
theorem listed_update (hnew : pc'.Listed calls completed returned thrown)
    (hu : ∀ u, u ≠ t → (threads u).Listed calls completed returned thrown) :
    ∀ u, (Function.update threads t pc' u).Listed calls completed returned thrown :=
  (Function.forall_update_iff threads fun _ p => p.Listed calls completed returned thrown).mpr
    ⟨hnew, hu⟩

/-- A thread that has sent all still has when another goes on. -/
theorem exists_sent_update (hnot : (threads t).isSent = false)
    (h : ∃ u, (threads u).call? = some call ∧ (threads u).isSent = true) :
    ∃ u, (Function.update threads t pc' u).call? = some call ∧
      (Function.update threads t pc' u).isSent = true := by
  obtain ⟨u, hu, hs⟩ := h
  have hut : u ≠ t := by
    rintro rfl
    rw [hs] at hnot
    cases hnot
  refine ⟨u, ?_⟩
  rw [Function.update_of_ne hut]
  exact ⟨hu, hs⟩

/-- A thread goes on with its call. -/
theorem move (h : Ledger calls completed returned thrown threads) (ht : threads t = pc)
    (hcall : pc'.call? = pc.call?) (hsent : pc'.isSent = pc.isSent) :
    Ledger calls completed returned thrown (Function.update threads t pc') := by
  have hcalls : ∀ u, (Function.update threads t pc' u).call? = (threads u).call? := by
    refine (Function.forall_update_iff threads fun u p => p.call? = (threads u).call?).mpr ?_
    exact ⟨by rw [ht, hcall], fun u _ => rfl⟩
  have hsents : ∀ u, (Function.update threads t pc' u).isSent = (threads u).isSent := by
    refine (Function.forall_update_iff threads fun u p => p.isSent = (threads u).isSent).mpr ?_
    exact ⟨by rw [ht, hsent], fun u _ => rfl⟩
  refine ⟨h.numbered, fun u c hu => ?_, fun u v c hu hv => ?_, h.completed_nodup, fun c hc => ?_,
    h.returned_nodup, h.returned_completed, h.thrown_calls⟩
  · rw [hcalls] at hu
    rw [hsents]
    exact h.running u c hu
  · rw [hcalls] at hu hv
    exact h.distinct u v c hu hv
  · rcases h.completed_or c hc with ⟨hmem, hret | ⟨u, hu, hs⟩⟩
    · exact ⟨hmem, .inl hret⟩
    · refine ⟨hmem, .inr ⟨u, ?_, ?_⟩⟩
      · rw [hcalls]
        exact hu
      · rw [hsents]
        exact hs

/-- Where the calls in progress are after a thread has begun or gone on with a call that no
other thread has. -/
theorem distinct_update
    (hd : ∀ u v c, (threads u).call? = some c → (threads v).call? = some c → u = v)
    (hnew : ∀ c, pc'.call? = some c → ∀ u, u ≠ t → (threads u).call? ≠ some c) :
    ∀ u v c, (Function.update threads t pc' u).call? = some c →
      (Function.update threads t pc' v).call? = some c → u = v := by
  intro u v c hu hv
  by_cases hut : u = t
  · by_cases hvt : v = t
    · rw [hut, hvt]
    · rw [hut, Function.update_self] at hu
      rw [Function.update_of_ne hvt] at hv
      exact absurd hv (hnew c hu v hvt)
  · rw [Function.update_of_ne hut] at hu
    by_cases hvt : v = t
    · rw [hvt, Function.update_self] at hv
      exact absurd hu (hnew c hv u hut)
    · rw [Function.update_of_ne hvt] at hv
      exact hd u v c hu hv

/-- A call begins. -/
theorem begin (h : Ledger calls completed returned thrown threads) (ht : threads t = .idle)
    (hn : call.number = calls.length) :
    Ledger (calls ++ [call]) completed returned thrown
      (Function.update threads t (.lock call)) := by
  have hnew : call ∉ calls := by
    intro hm
    obtain ⟨n, hn'⟩ := List.mem_iff_getElem?.mp hm
    have hlt := (List.getElem?_eq_some_iff.mp hn').1
    rw [← h.numbered n call hn', hn] at hlt
    exact lt_irrefl _ hlt
  obtain ⟨hcompleted, hreturned, hthrown⟩ := h.fresh hnew
  have hsent : (threads t).isSent = false := by
    rw [ht]
    rfl
  refine ⟨fun n c hc => ?_, listed_update (fun c hc => ?_) fun u _ c hc => ?_,
    distinct_update h.distinct ?_, h.completed_nodup, fun c hc => ?_, h.returned_nodup,
    h.returned_completed, fun c hc => ?_⟩
  · rcases lt_or_ge n calls.length with hlt | hge
    · rw [List.getElem?_append_left hlt] at hc
      exact h.numbered n c hc
    · rw [List.getElem?_append_right hge] at hc
      obtain ⟨hz, hval⟩ := List.getElem?_eq_some_iff.mp hc
      rw [List.length_singleton, Nat.lt_one_iff, Nat.sub_eq_zero_iff_le] at hz
      rw [List.getElem_singleton] at hval
      rw [← hval, hn]
      exact le_antisymm hge hz
  · obtain rfl := Option.some.inj hc
    exact ⟨List.mem_append_right _ (List.mem_singleton_self _), hreturned, hthrown,
      iff_of_false hcompleted Bool.false_ne_true⟩
  · obtain ⟨hmem, hrest⟩ := h.running u c hc
    exact ⟨List.mem_append_left _ hmem, hrest⟩
  · intro c hc u _ hu
    obtain rfl := Option.some.inj hc
    exact hnew (h.running u call hu).1
  · obtain ⟨hmem, hor⟩ := h.completed_or c hc
    exact ⟨List.mem_append_left _ hmem, hor.imp_right (exists_sent_update hsent)⟩
  · obtain ⟨hmem, hnot⟩ := h.thrown_calls c hc
    exact ⟨List.mem_append_left _ hmem, hnot⟩

/-- A call has sent all. -/
theorem complete (h : Ledger calls completed returned thrown threads) (ht : threads t = pc)
    (hcall : pc.call? = some call) (hnot : pc.isSent = false) (hcall' : pc'.call? = some call)
    (hsent : pc'.isSent = true) (hperm : completed'.Perm (call :: completed)) :
    Ledger calls completed' returned thrown (Function.update threads t pc') := by
  subst ht
  obtain ⟨hmem, hret, hthrown, hiff⟩ := h.running t call hcall
  have hnew : call ∉ completed := fun hm => by
    rw [hiff.mp hm] at hnot
    cases hnot
  have hmem' : ∀ c, c ∈ completed' ↔ c = call ∨ c ∈ completed := fun c =>
    hperm.mem_iff.trans List.mem_cons
  have hother : ∀ u, u ≠ t → (threads u).call? ≠ some call := fun u hut hu =>
    hut (h.distinct u t call hu hcall)
  refine ⟨h.numbered, listed_update (fun c hc => ?_) fun u hut c hc => ?_,
    distinct_update h.distinct ?_, hperm.nodup_iff.mpr
    (List.nodup_cons.mpr ⟨hnew, h.completed_nodup⟩), fun c hc => ?_, h.returned_nodup,
    fun c hc => (hmem' c).mpr (.inr (h.returned_completed c hc)), fun c hc => ?_⟩
  · obtain rfl := Option.some.inj (hcall'.symm.trans hc)
    exact ⟨hmem, hret, hthrown, iff_of_true ((hmem' call).mpr (.inl rfl)) hsent⟩
  · obtain ⟨hmemc, hretc, hthrownc, hiffc⟩ := h.running u c hc
    refine ⟨hmemc, hretc, hthrownc, ?_⟩
    have hne : c ≠ call := fun heq => hother u hut (heq ▸ hc)
    rw [hmem', ← hiffc]
    exact or_iff_right hne
  · intro c hc u hut
    obtain rfl := Option.some.inj (hcall'.symm.trans hc)
    exact hother u hut
  · rcases (hmem' c).mp hc with rfl | hc
    · refine ⟨hmem, .inr ⟨t, ?_⟩⟩
      rw [Function.update_self]
      exact ⟨hcall', hsent⟩
    · obtain ⟨hmemc, hor⟩ := h.completed_or c hc
      exact ⟨hmemc, hor.imp_right (exists_sent_update hnot)⟩
  · obtain ⟨hmemc, hnotc⟩ := h.thrown_calls c hc
    refine ⟨hmemc, fun hm => ?_⟩
    rcases (hmem' c).mp hm with rfl | hm
    · exact hthrown hc
    · exact hnotc hm

/-- A call that has sent all returns. -/
theorem returns (h : Ledger calls completed returned thrown threads) (ht : threads t = pc)
    (hcall : pc.call? = some call) (hsent : pc.isSent = true) :
    Ledger calls completed (returned ++ [call]) thrown (Function.update threads t .idle) := by
  subst ht
  obtain ⟨hmem, hret, hthrown, hiff⟩ := h.running t call hcall
  have hmem' : ∀ c, c ∈ returned ++ [call] ↔ c ∈ returned ∨ c = call := fun c => by
    rw [List.mem_append, List.mem_singleton]
  refine ⟨h.numbered, listed_update (by rintro _ ⟨⟩) fun u hut c hc => ?_,
    distinct_update h.distinct (by rintro _ ⟨⟩), h.completed_nodup, fun c hc => ?_, ?_,
    fun c hc => ?_, h.thrown_calls⟩
  · obtain ⟨hmemc, hretc, hrest⟩ := h.running u c hc
    refine ⟨hmemc, fun hm => ?_, hrest⟩
    rcases (hmem' c).mp hm with hm | rfl
    · exact hretc hm
    · exact hut (h.distinct u t c hc hcall)
  · rcases h.completed_or c hc with ⟨hmemc, hretc | ⟨u, hu, hs⟩⟩
    · exact ⟨hmemc, .inl ((hmem' c).mpr (.inl hretc))⟩
    · by_cases hut : u = t
      · subst hut
        obtain rfl := Option.some.inj (hcall.symm.trans hu)
        exact ⟨hmemc, .inl ((hmem' call).mpr (.inr rfl))⟩
      · refine ⟨hmemc, .inr ⟨u, ?_⟩⟩
        rw [Function.update_of_ne hut]
        exact ⟨hu, hs⟩
  · exact (List.perm_append_singleton call returned).nodup_iff.mpr
      (List.nodup_cons.mpr ⟨hret, h.returned_nodup⟩)
  · rcases (hmem' c).mp hc with hc | rfl
    · exact h.returned_completed c hc
    · exact hiff.mpr hsent

/-- A call that has not sent all throws. -/
theorem throws (h : Ledger calls completed returned thrown threads) (ht : threads t = pc)
    (hcall : pc.call? = some call) (hnot : pc.isSent = false) :
    Ledger calls completed returned (thrown ++ [call]) (Function.update threads t .idle) := by
  subst ht
  obtain ⟨hmem, hret, hthrown, hiff⟩ := h.running t call hcall
  have hmem' : ∀ c, c ∈ thrown ++ [call] ↔ c ∈ thrown ∨ c = call := fun c => by
    rw [List.mem_append, List.mem_singleton]
  refine ⟨h.numbered, listed_update (by rintro _ ⟨⟩) fun u hut c hc => ?_,
    distinct_update h.distinct (by rintro _ ⟨⟩), h.completed_nodup, fun c hc => ?_,
    h.returned_nodup, h.returned_completed, fun c hc => ?_⟩
  · obtain ⟨hmemc, hretc, hthrownc, hiffc⟩ := h.running u c hc
    refine ⟨hmemc, hretc, fun hm => ?_, hiffc⟩
    rcases (hmem' c).mp hm with hm | rfl
    · exact hthrownc hm
    · exact hut (h.distinct u t c hc hcall)
  · obtain ⟨hmemc, hor⟩ := h.completed_or c hc
    exact ⟨hmemc, hor.imp_right (exists_sent_update hnot)⟩
  · rcases (hmem' c).mp hc with hc | rfl
    · exact h.thrown_calls c hc
    · refine ⟨hmem, fun hm => ?_⟩
      rw [hiff.mp hm] at hnot
      cases hnot

/-- No number is complete twice. -/
theorem numbers_nodup (h : Ledger calls completed returned thrown threads) :
    (completed.map Call.number).Nodup :=
  h.completed_nodup.map_on fun _ hc _ hc' hn =>
    h.eq_of_number (h.completed_or _ hc).1 (h.completed_or _ hc').1 hn

/-- A call that returned is complete once. -/
theorem count_returned (h : Ledger calls completed returned thrown threads)
    (hc : call ∈ returned) : (completed.map Call.number).count call.number = 1 :=
  List.count_eq_one_of_mem h.numbers_nodup (List.mem_map_of_mem (h.returned_completed call hc))

/-- A call that threw is complete nowhere. -/
theorem notMem_of_thrown (h : Ledger calls completed returned thrown threads)
    (hc : call ∈ thrown) : call.number ∉ completed.map Call.number := by
  intro hm
  obtain ⟨call', hc', hn⟩ := List.mem_map.mp hm
  obtain ⟨hmem, hnot⟩ := h.thrown_calls call hc
  obtain rfl := h.eq_of_number (h.completed_or call' hc').1 hmem hn
  exact hnot hc'

/-- While no call is in progress, the calls that are complete are those that returned. -/
theorem perm_of_idle (h : Ledger calls completed returned thrown threads)
    (hidle : ∀ t, threads t = .idle) : completed.Perm returned := by
  refine (List.perm_ext_iff_of_nodup h.completed_nodup h.returned_nodup).mpr fun call => ?_
  refine ⟨fun hc => ?_, h.returned_completed call⟩
  rcases h.completed_or call hc with ⟨-, hret | ⟨t, ht, -⟩⟩
  · exact hret
  · rw [hidle t] at ht
    cases ht

end Ledger

end StreamSink

end Logspine
