import Mathlib.Data.List.Nodup
import Logspine.Custody

/-!
# Dispatches: what became of every `dispatch` call

Invariants of the ledger's moves about the client side. `Clients` says what a thread
in a call carries. `Dispatches` says that a call that began is, exactly one of the
three, pending, placed in the queue, or refused, that a thread's events are placed in
the order of its calls, and that a returned call is no longer pending. `Counted`
says that `dropped_events_` was incremented once for each ticket taken out by a
producer.
-/

namespace Logspine

namespace AsyncDispatcher

variable {E : Type} {cfg : Config} {l l' : Ledger E}

theorem Ledger.give_same (l : Ledger E) (t : ℕ) (c : Client E) : (l.give t c).threads t = c :=
  Function.update_self ..

theorem Ledger.give_of_ne (l : Ledger E) {t u : ℕ} (c : Client E) (hne : u ≠ t) :
    (l.give t c).threads u = l.threads u := Function.update_of_ne hne ..

/-- A property of all threads after thread `t` got `c`. -/
theorem Ledger.forall_give {P : ℕ → Client E → Prop} {l : Ledger E} {t : ℕ} {c : Client E}
    (ht : P t c) (hu : ∀ u, u ≠ t → P u (l.threads u)) (u : ℕ) : P u ((l.give t c).threads u) := by
  rcases eq_or_ne u t with rfl | hne
  · rw [Ledger.give_same]
    exact ht
  · rw [Ledger.give_of_ne _ _ hne]
    exact hu u hne

theorem getElem?_concat {T : Type} {xs : List T} {p : ℕ} {x y : T}
    (h : (xs ++ [y])[p]? = some x) : xs[p]? = some x ∨ (p = xs.length ∧ x = y) := by
  rcases lt_or_ge p xs.length with hp | hp
  · rw [List.getElem?_append_left hp] at h
    exact .inl h
  · rw [List.getElem?_append_right hp, List.getElem?_singleton] at h
    split at h
    case isTrue hz => exact .inr ⟨by omega, (Option.some.inj h).symm⟩
    case isFalse => cases h

/-! ## What a thread in a call carries -/

/-- What thread `t` may carry when the calls `dispatched` have begun. -/
structure Client.Ok (dispatched : List (ℕ × E)) (t : ℕ) (c : Client E) : Prop where
  calling : ∀ k e, c.calling = some (k, e) → dispatched[k]? = some (t, e)
  newest : ∀ k e, c.calling = some (k, e) → ∀ k' e', dispatched[k']? = some (t, e') → k' ≤ k
  pending : ∀ x, c.pending = some x → c.calling = some x
  popped : c.popped ≠ none → c.pending ≠ none

theorem Client.ok_idle (dispatched : List (ℕ × E)) (t : ℕ) :
    Client.Ok dispatched t (.idle : Client E) :=
  ⟨nofun, nofun, nofun, fun h => absurd rfl h⟩

/-- What the threads carry fits the calls that began. -/
def Clients (l : Ledger E) : Prop := ∀ t, (l.threads t).Ok l.dispatched t

theorem clients_initial (sinks : List (Sink E)) : Clients (.initial sinks) :=
  fun t => Client.ok_idle _ t

/-- Thread `t` carries something else, and nothing else changes. -/
theorem Clients.give (h : Clients l) {t : ℕ} {c : Client E} (hc : c.Ok l.dispatched t) :
    ∀ u, ((l.give t c).threads u).Ok l.dispatched u :=
  Ledger.forall_give hc fun u _ => h u

theorem Clients.move {b : Entry E} (h : Clients l)
    (m : Ledger.Move cfg b l l') : Clients l' := by
  cases m with
  | @beginDispatch _ t e ht =>
    refine Ledger.forall_give ⟨?_, ?_, ?_, ?_⟩ fun u hne => ?_
    · intro k e' hk
      obtain ⟨rfl, rfl⟩ := Prod.mk.inj (Option.some.inj hk)
      exact List.getElem?_concat_length
    · intro k e' hk k' e'' hk'
      obtain ⟨rfl, rfl⟩ := Prod.mk.inj (Option.some.inj hk)
      have hlt : k' < (l.dispatched ++ [(t, e)]).length := (List.getElem?_eq_some_iff.mp hk').1
      rw [List.length_append] at hlt
      exact Nat.lt_succ_iff.mp hlt
    · exact fun x hx => hx
    · exact fun hp => absurd rfl hp
    · refine { h u with calling := ?_, newest := ?_ }
      · exact fun k e' hk => getElem?_concat_of_some _ ((h u).calling k e' hk)
      · intro k e' hk k' e'' hk'
        rcases getElem?_concat hk' with hold | ⟨-, heq⟩
        · exact (h u).newest k e' hk k' e'' hold
        · exact absurd (congrArg Prod.fst heq) hne
  | @placeEvent _ t c e ht hn hr =>
    exact h.give { h t with pending := nofun, popped := fun hp => absurd hn hp }
  | @refuse _ t c e ht hn hr =>
    exact h.give { h t with pending := nofun, popped := fun hp => absurd hn hp }
  | endDispatch ht => exact h.give (Client.ok_idle _ _)
  | @evict _ t x c e _ hx hp =>
    exact h.give { h t with popped := fun _ => by rw [hp]; exact Option.some_ne_none _ }
  | @count _ t p ht => exact h.give { h t with popped := fun hp => absurd rfl hp }
  | beginFlush ht => exact h.give { Client.ok_idle _ _ with }
  | draw ht => exact h.give { Client.ok_idle _ _ with }
  | @placeRequest _ t i ht => exact h.give { h t with }
  | @abandon _ t i hs ht => exact h.give { h t with }
  | endFlush ht => exact h.give (Client.ok_idle _ _)
  | _ => exact h

/-! ## The fate of a call -/

/-- The call that brought an item. -/
def QueueItem.call : QueueItem E → Option ℕ
  | event call _ => some call
  | flushRequest _ => none

/-- The call a counted drop refused. -/
def Drop.refusedCall : Drop → Option ℕ
  | refused call => some call
  | evicted _ => none

/-- The ticket a counted drop is for. -/
def Drop.evictedTicket : Drop → Option ℕ
  | refused _ => none
  | evicted ticket => some ticket

/-- The calls whose events were placed, and those whose events were refused. -/
def Ledger.settled (l : Ledger E) : List ℕ :=
  l.accepted.filterMap QueueItem.call ++ l.drops.filterMap Drop.refusedCall

/-- What became of the calls that began. -/
structure Dispatches (l : Ledger E) : Prop where
  nodup : l.settled.Nodup
  began : ∀ c ∈ l.settled, c < l.dispatched.length
  open_ : ∀ t c e, (l.threads t).pending = some (c, e) → c ∉ l.settled
  fate : ∀ c t e, l.dispatched[c]? = some (t, e) →
    c ∈ l.settled ∨ (l.threads t).pending = some (c, e)
  event : ∀ (p c : ℕ) (e : E), l.accepted[p]? = some (QueueItem.event c e) →
    ∃ t, l.dispatched[c]? = some (t, e)
  order : ∀ (p p' c c' : ℕ) (e e' : E), p < p' → l.accepted[p]? = some (QueueItem.event c e) →
    l.accepted[p']? = some (QueueItem.event c' e') →
    ∀ t, l.dispatched[c]? = some (t, e) → l.dispatched[c']? = some (t, e') → c < c'
  returned : ∀ c ∈ l.returned,
    c < l.dispatched.length ∧ ∀ t e, (l.threads t).calling ≠ some (c, e)

theorem dispatches_initial (sinks : List (Sink E)) : Dispatches (.initial sinks) where
  nodup := List.nodup_nil
  began _ hc := absurd hc List.not_mem_nil
  open_ _ _ _ _ := List.not_mem_nil
  fate _ _ _ h := nomatch h
  event _ _ _ h := nomatch h
  order _ _ _ _ _ _ _ h := nomatch h
  returned _ hc := absurd hc List.not_mem_nil

theorem Ledger.mem_settled_of_placed {p c : ℕ} {e : E}
    (h : l.accepted[p]? = some (.event c e)) : c ∈ l.settled :=
  List.mem_append_left _ (List.mem_filterMap.mpr ⟨_, List.mem_of_getElem? h, rfl⟩)

namespace Dispatches

/-- The pending call `c` of thread `t` is settled. -/
theorem settle (hc : Clients l) (h : Dispatches l) {t c : ℕ} {e : E}
    (ht : (l.threads t).pending = some (c, e)) (l₁ : Ledger E)
    (hs : l₁.settled.Perm (c :: l.settled)) (hd : l₁.dispatched = l.dispatched)
    (hthreads : l₁.threads = (l.give t { l.threads t with pending := none }).threads) :
    l₁.settled.Nodup ∧ (∀ k ∈ l₁.settled, k < l₁.dispatched.length) ∧
      (∀ u k e, (l₁.threads u).pending = some (k, e) → k ∉ l₁.settled) ∧
      ∀ k u e, l₁.dispatched[k]? = some (u, e) →
        k ∈ l₁.settled ∨ (l₁.threads u).pending = some (k, e) := by
  have hcd := (hc t).calling c e ((hc t).pending _ ht)
  refine ⟨?_, fun k hk => ?_, ?_, ?_⟩
  · exact hs.nodup_iff.mpr (List.nodup_cons.mpr ⟨h.open_ t c e ht, h.nodup⟩)
  · rw [hd]
    rcases List.mem_cons.mp (hs.mem_iff.mp hk) with rfl | hk
    · exact (List.getElem?_eq_some_iff.mp hcd).1
    · exact h.began k hk
  · rw [hthreads]
    refine Ledger.forall_give (P := fun _ x => ∀ k e, x.pending = some (k, e) → k ∉ l₁.settled)
      nofun fun u hne k e' hk hmem => ?_
    rcases List.mem_cons.mp (hs.mem_iff.mp hmem) with rfl | hmem
    · -- a call belongs to one thread
      have hkd := (hc u).calling k e' ((hc u).pending _ hk)
      rw [hcd] at hkd
      exact hne (congrArg Prod.fst (Option.some.inj hkd)).symm
    · exact h.open_ u k e' hk hmem
  · intro k u e' hk
    rw [hd] at hk
    rw [hs.mem_iff, List.mem_cons, hthreads]
    rcases h.fate k u e' hk with hmem | hpend
    · exact .inl (.inr hmem)
    · rcases eq_or_ne u t with rfl | hne
      · rw [ht] at hpend
        exact .inl (.inl (congrArg Prod.fst (Option.some.inj hpend)).symm)
      · rw [Ledger.give_of_ne _ _ hne]
        exact .inr hpend

/-- Thread `t` carries something else, but is in the same call with the same pending event. -/
theorem carry (h : Dispatches l) {t : ℕ} {c : Client E}
    (hp : c.pending = (l.threads t).pending) (hk : c.calling = (l.threads t).calling) :
    Dispatches (l.give t c) where
  nodup := h.nodup
  began := h.began
  open_ := Ledger.forall_give (P := fun _ x => ∀ k e, x.pending = some (k, e) → k ∉ l.settled)
    (hp ▸ h.open_ t) fun u _ => h.open_ u
  fate k := Ledger.forall_give (P := fun u x => ∀ e, l.dispatched[k]? = some (u, e) →
    k ∈ l.settled ∨ x.pending = some (k, e)) (hp ▸ h.fate k t) fun u _ => h.fate k u
  event := h.event
  order := h.order
  returned k hm := ⟨(h.returned k hm).1, Ledger.forall_give (P := fun _ x => ∀ e,
    x.calling ≠ some (k, e)) (hk ▸ (h.returned k hm).2 t) fun u _ => (h.returned k hm).2 u⟩

/-- No event obtains a place, and no call comes to its end. -/
theorem of_settled_eq (h : Dispatches l) {accepted : List (QueueItem E)} {drops : List Drop}
    (hsettled : ({ l with accepted := accepted, drops := drops } : Ledger E).settled = l.settled)
    (hold : ∀ {p c : ℕ} {e : E}, accepted[p]? = some (.event c e) →
      l.accepted[p]? = some (.event c e)) :
    Dispatches { l with accepted := accepted, drops := drops } where
  nodup := hsettled ▸ h.nodup
  began := hsettled ▸ h.began
  open_ := hsettled ▸ h.open_
  fate := hsettled ▸ h.fate
  event p c e hp := h.event p c e (hold hp)
  order p p' c c' e e' hlt hp hp' := h.order p p' c c' e e' hlt (hold hp) (hold hp')
  returned := h.returned

/-- A flush request obtains a place. -/
theorem placeRequest (h : Dispatches l) (i : ℕ) :
    Dispatches { l with accepted := l.accepted ++ [QueueItem.flushRequest i] } := by
  refine h.of_settled_eq ?_ fun hp => ?_
  · rw [Ledger.settled, Ledger.settled, List.filterMap_append]
    exact congrArg (· ++ _) (List.append_nil _)
  · rcases getElem?_concat hp with hp | ⟨-, heq⟩
    · exact hp
    · cases heq

/-- A producer counts an item it took out. -/
theorem count (h : Dispatches l) (p : ℕ) :
    Dispatches { l with drops := l.drops ++ [Drop.evicted p] } := by
  refine h.of_settled_eq ?_ id
  rw [Ledger.settled, Ledger.settled, List.filterMap_append]
  exact congrArg (_ ++ ·) (List.append_nil _)

theorem move {b : Entry E} (hc : Clients l) (h : Dispatches l)
    (m : Ledger.Move cfg b l l') : Dispatches l' := by
  cases m with
  | @beginDispatch _ t e ht =>
    have hfresh : l.dispatched.length ∉ l.settled := fun hm => lt_irrefl _ (h.began _ hm)
    have hlen : (l.dispatched ++ [(t, e)]).length = l.dispatched.length + 1 := List.length_append
    refine ⟨h.nodup, fun c hm => ?_, ?_, ?_, ?_, ?_, ?_⟩
    · exact (h.began c hm).trans (hlen ▸ Nat.lt_succ_self _)
    · refine Ledger.forall_give (P := fun _ x => ∀ c e, x.pending = some (c, e) → c ∉ l.settled)
        (fun c e' hk => ?_) fun u _ => h.open_ u
      obtain ⟨rfl, -⟩ := Prod.mk.inj (Option.some.inj hk)
      exact hfresh
    · intro c u e' hk
      rcases getElem?_concat hk with hold | ⟨rfl, heq⟩
      · rcases h.fate c u e' hold with hmem | hpend
        · exact .inl hmem
        · refine .inr ?_
          rcases eq_or_ne u t with rfl | hne
          · rw [ht] at hpend
            cases hpend
          · rw [Ledger.give_of_ne _ _ hne]
            exact hpend
      · obtain ⟨rfl, rfl⟩ := Prod.mk.inj heq
        exact .inr (by rw [Ledger.give_same])
    · intro p c e' hp
      obtain ⟨u, hu⟩ := h.event p c e' hp
      exact ⟨u, getElem?_concat_of_some _ hu⟩
    · intro p p' c c' e₁ e₂ hlt hp hp' u hu hu'
      -- placed calls are older than the new one
      have hold : ∀ {q k : ℕ} {x : E}, l.accepted[q]? = some (.event k x) →
          (l.dispatched ++ [(t, e)])[k]? = some (u, x) → l.dispatched[k]? = some (u, x) := by
        intro q k x hq hk
        rcases getElem?_concat hk with hk | ⟨rfl, -⟩
        · exact hk
        · exact absurd (Ledger.mem_settled_of_placed hq) hfresh
      exact h.order p p' c c' e₁ e₂ hlt hp hp' u (hold hp hu) (hold hp' hu')
    · intro c hm
      obtain ⟨hlt, hcall⟩ := h.returned c hm
      refine ⟨hlt.trans (hlen ▸ Nat.lt_succ_self _), ?_⟩
      refine Ledger.forall_give (P := fun _ x => ∀ e, x.calling ≠ some (c, e))
        (fun e' hk => ?_) fun u _ => hcall u
      obtain ⟨rfl, -⟩ := Prod.mk.inj (Option.some.inj hk)
      exact lt_irrefl _ hlt
  | @placeEvent _ t c e ht hn hr =>
    have hs : (Ledger.settled { l with accepted := l.accepted ++ [QueueItem.event c e] }).Perm
        (c :: l.settled) := by
      rw [Ledger.settled, Ledger.settled, List.filterMap_append]
      exact List.perm_append_comm.append_right _
    obtain ⟨hnodup, hbegan, hopen, hfate⟩ := settle hc h ht
      (({ l with accepted := l.accepted ++ [QueueItem.event c e] } : Ledger E).give t
        { l.threads t with pending := none }) hs rfl rfl
    have hcd := (hc t).calling c e ((hc t).pending _ ht)
    refine ⟨hnodup, hbegan, hopen, hfate, ?_, ?_, ?_⟩
    · intro p k x hp
      rcases getElem?_concat hp with hp | ⟨-, heq⟩
      · exact h.event p k x hp
      · cases heq
        exact ⟨t, hcd⟩
    · intro p p' k k' x x' hlt hp hp' u hu hu'
      rcases getElem?_concat hp with hold | ⟨rfl, heq⟩
      · rcases getElem?_concat hp' with hold' | ⟨rfl, heq⟩
        · exact h.order p p' k k' x x' hlt hold hold' u hu hu'
        · -- the event just placed is the newest of its thread
          cases heq
          have hut : u = t := by
            have hsame := hu'.symm.trans hcd
            exact congrArg Prod.fst (Option.some.inj hsame)
          subst hut
          refine lt_of_le_of_ne ((hc u).newest c e ((hc u).pending _ ht) k x hu) ?_
          rintro rfl
          exact h.open_ u k e ht (Ledger.mem_settled_of_placed hold)
      · have hlt' : p' < (l.accepted ++ [QueueItem.event c e]).length :=
          (List.getElem?_eq_some_iff.mp hp').1
        rw [List.length_append, List.length_singleton] at hlt'
        omega
    · intro k hk
      obtain ⟨hlt, hcall⟩ := h.returned k hk
      exact ⟨hlt, Ledger.forall_give (P := fun _ y => ∀ e, y.calling ≠ some (k, e))
        (hcall t) fun u _ => hcall u⟩
  | @refuse _ t c e ht hn hr =>
    have hs : (Ledger.settled { l with drops := l.drops ++ [Drop.refused c] }).Perm
        (c :: l.settled) := by
      rw [Ledger.settled, Ledger.settled, List.filterMap_append, ← List.append_assoc]
      exact List.perm_append_comm
    obtain ⟨hnodup, hbegan, hopen, hfate⟩ := settle hc h ht
      (({ l with drops := l.drops ++ [Drop.refused c] } : Ledger E).give t
        { l.threads t with pending := none }) hs rfl rfl
    refine ⟨hnodup, hbegan, hopen, hfate, h.event, h.order, fun k hk => ?_⟩
    obtain ⟨hlt, hcall⟩ := h.returned k hk
    exact ⟨hlt, Ledger.forall_give (P := fun _ y => ∀ e, y.calling ≠ some (k, e))
      (hcall t) fun u _ => hcall u⟩
  | @endDispatch _ t c e ht =>
    have hcd := (hc t).calling c e (by rw [ht])
    have hpend : (l.threads t).pending = none := by rw [ht]; rfl
    refine ⟨h.nodup, h.began, ?_, fun k => ?_, h.event, h.order, fun k hk => ?_⟩
    · exact Ledger.forall_give (P := fun _ x => ∀ k e, x.pending = some (k, e) → k ∉ l.settled)
        nofun fun u _ => h.open_ u
    · refine Ledger.forall_give (P := fun u x => ∀ e, l.dispatched[k]? = some (u, e) →
        k ∈ l.settled ∨ x.pending = some (k, e)) (fun e' hk => ?_) fun u _ => h.fate k u
      have hfate := h.fate k t e' hk
      rwa [hpend] at hfate
    · rcases List.mem_append.mp hk with hk | hk
      · exact ⟨(h.returned k hk).1, Ledger.forall_give (P := fun _ x => ∀ e,
          x.calling ≠ some (k, e)) nofun fun u _ => (h.returned k hk).2 u⟩
      · obtain rfl := List.mem_singleton.mp hk
        refine ⟨(List.getElem?_eq_some_iff.mp hcd).1, Ledger.forall_give (P := fun _ x => ∀ e,
          x.calling ≠ some (k, e)) nofun fun u hne e' hk => hne ?_⟩
        -- a call belongs to one thread
        have hkd := (hc u).calling k e' hk
        rw [hcd] at hkd
        exact (congrArg Prod.fst (Option.some.inj hkd)).symm
  | @evict _ t x c e ho hx =>
    have h' : Dispatches
        { l with taken := l.taken + 1, evicted := l.evicted ++ [(l.taken, t, c)] } := { h with }
    exact h'.carry rfl rfl
  | @count _ t p ht => exact (h.count p).carry rfl rfl
  | beginFlush ht => exact h.carry (by rw [ht]) (by rw [ht])
  | @draw _ t before ht =>
    have h' : Dispatches { l with draws := l.draws ++ [l.accepted.length] } := { h with }
    exact h'.carry (by rw [ht]) (by rw [ht])
  | @placeRequest _ t i ht => exact (h.placeRequest i).carry rfl rfl
  | abandon => exact h.carry rfl rfl
  | endFlush ht => exact h.carry (by rw [ht]) (by rw [ht])
  | _ => exact { h with }

end Dispatches

/-! ## The counter of drops -/

/-- The tickets counted in `dropped_events_`. -/
def Ledger.counted (l : Ledger E) : List ℕ := l.drops.filterMap Drop.evictedTicket

/-- Every ticket taken out by a producer is counted once, or about to be. -/
structure Counted (l : Ledger E) : Prop where
  nodup : l.counted.Nodup
  evicted : ∀ p ∈ l.counted, p ∈ l.evicted.map Prod.fst
  popped : ∀ t p, (l.threads t).popped = some p → (∃ c, (p, t, c) ∈ l.evicted) ∧ p ∉ l.counted
  fate : ∀ p t c, (p, t, c) ∈ l.evicted → p ∈ l.counted ∨ (l.threads t).popped = some p

theorem counted_initial (sinks : List (Sink E)) : Counted (.initial sinks) where
  nodup := List.nodup_nil
  evicted _ hp := absurd hp List.not_mem_nil
  popped _ _ h := nomatch h
  fate _ _ _ h := absurd h List.not_mem_nil

/-- A ticket is evicted by one thread, in one call. -/
theorem Tickets.evictor_unique (h : Tickets l) {p : ℕ} {x y : ℕ × ℕ} (hx : (p, x) ∈ l.evicted)
    (hy : (p, y) ∈ l.evicted) : x = y := by
  have hnodup : (l.evicted.map Prod.fst).Nodup :=
    (List.nodup_append.mp (h.custody.nodup_iff.mpr List.nodup_range)).1
  exact congrArg Prod.snd (List.inj_on_of_nodup_map hnodup hx hy rfl)

namespace Counted

/-- Thread `t` carries something else, but has taken out the same ticket. -/
theorem carry (h : Counted l) {t : ℕ} {c : Client E} (hp : c.popped = (l.threads t).popped) :
    Counted (l.give t c) where
  nodup := h.nodup
  evicted := h.evicted
  popped := Ledger.forall_give (P := fun u x => ∀ p, x.popped = some p →
    (∃ c, (p, u, c) ∈ l.evicted) ∧ p ∉ l.counted) (hp ▸ h.popped t) fun u _ => h.popped u
  fate p := Ledger.forall_give (P := fun u x => ∀ c, (p, u, c) ∈ l.evicted →
    p ∈ l.counted ∨ x.popped = some p) (hp ▸ h.fate p t) fun u _ => h.fate p u

/-- A producer takes the oldest item out of the queue. -/
theorem evict (hl : Tickets l) (h : Counted l) {t call : ℕ} {c : Client E}
    (hn : (l.threads t).popped = none) (hc : c.popped = some l.taken) :
    Counted
      ({ l with taken := l.taken + 1, evicted := l.evicted ++ [(l.taken, t, call)] }.give t c) := by
  have hfresh : l.taken ∉ l.counted := by
    intro hm
    obtain ⟨x, hmem, hx⟩ := List.mem_map.mp (h.evicted _ hm)
    exact (hl.evicted_lt hmem).ne hx
  refine ⟨h.nodup, fun p hp => ?_, ?_, fun p => ?_⟩
  · exact (List.map_append ▸ List.mem_append_left _ (h.evicted p hp))
  · refine Ledger.forall_give (P := fun u x => ∀ p, x.popped = some p →
      (∃ k, (p, u, k) ∈ l.evicted ++ [(l.taken, t, call)]) ∧ p ∉ l.counted)
      (fun p hp => ?_) fun u _ p hp => ?_
    · obtain rfl := Option.some.inj (hc.symm.trans hp)
      exact ⟨⟨call, List.mem_append_right _ (List.mem_singleton_self _)⟩, hfresh⟩
    · obtain ⟨⟨k, hk⟩, hnot⟩ := h.popped u p hp
      exact ⟨⟨k, List.mem_append_left _ hk⟩, hnot⟩
  · refine Ledger.forall_give (P := fun u x => ∀ k,
      (p, u, k) ∈ l.evicted ++ [(l.taken, t, call)] → p ∈ l.counted ∨ x.popped = some p)
      (fun k hm => ?_) fun u hne k hm => ?_
    · rcases List.mem_append.mp hm with hm | hm
      · rcases h.fate p t k hm with hcount | hpop
        · exact .inl hcount
        · rw [hn] at hpop
          cases hpop
      · obtain ⟨rfl, -⟩ := Prod.mk.inj (List.mem_singleton.mp hm)
        exact .inr hc
    · rcases List.mem_append.mp hm with hm | hm
      · exact h.fate p u k hm
      · exact absurd (Prod.mk.inj (Prod.mk.inj (List.mem_singleton.mp hm)).2).1 hne

/-- A producer counts the item it took out. -/
theorem count (hl : Tickets l) (h : Counted l) {t p : ℕ} {c : Client E}
    (ht : (l.threads t).popped = some p) (hc : c.popped = none) :
    Counted ({ l with drops := l.drops ++ [Drop.evicted p] }.give t c) := by
  have hcounted : ({ l with drops := l.drops ++ [Drop.evicted p] } : Ledger E).counted =
      l.counted ++ [p] := List.filterMap_append ..
  obtain ⟨⟨call, hev⟩, hfresh⟩ := h.popped t p ht
  refine ⟨?_, fun q hq => ?_, ?_, fun q => ?_⟩
  · change (({ l with drops := l.drops ++ [Drop.evicted p] } : Ledger E).counted).Nodup
    rw [hcounted]
    exact List.nodup_append.mpr ⟨h.nodup, List.nodup_singleton p, fun a ha b hb hab => hfresh
      (List.mem_singleton.mp hb ▸ hab ▸ ha)⟩
  · change q ∈ ({ l with drops := l.drops ++ [Drop.evicted p] } : Ledger E).counted at hq
    rw [hcounted] at hq
    rcases List.mem_append.mp hq with hq | hq
    · exact h.evicted q hq
    · obtain rfl := List.mem_singleton.mp hq
      exact List.mem_map_of_mem (f := Prod.fst) hev
  · refine Ledger.forall_give (P := fun u x => ∀ q, x.popped = some q →
      (∃ k, (q, u, k) ∈ l.evicted) ∧
        q ∉ ({ l with drops := l.drops ++ [Drop.evicted p] } : Ledger E).counted)
      (fun q hq => ?_) fun u hne q hq => ?_
    · rw [hc] at hq
      cases hq
    · obtain ⟨⟨k, hmem⟩, hnot⟩ := h.popped u q hq
      refine ⟨⟨k, hmem⟩, fun hm => ?_⟩
      rw [hcounted] at hm
      rcases List.mem_append.mp hm with hm | hm
      · exact hnot hm
      · obtain rfl := List.mem_singleton.mp hm
        exact hne (Prod.mk.inj (hl.evictor_unique hmem hev)).1
  · refine Ledger.forall_give (P := fun u x => ∀ k, (q, u, k) ∈ l.evicted →
      q ∈ ({ l with drops := l.drops ++ [Drop.evicted p] } : Ledger E).counted ∨
        x.popped = some q) (fun k hm => .inl ?_) fun u _ k hm => ?_
    · rw [hcounted]
      rcases h.fate q t k hm with hcount | hpop
      · exact List.mem_append_left _ hcount
      · obtain rfl := Option.some.inj (ht.symm.trans hpop)
        exact List.mem_append_right _ (List.mem_singleton_self _)
    · rw [hcounted]
      rcases h.fate q u k hm with hcount | hpop
      · exact .inl (List.mem_append_left _ hcount)
      · exact .inr hpop

theorem move {b : Entry E} (hl : Tickets l) (h : Counted l)
    (m : Ledger.Move cfg b l l') : Counted l' := by
  cases m with
  | @beginDispatch _ t e ht =>
    have h' : Counted { l with dispatched := l.dispatched ++ [(t, e)] } := { h with }
    exact h'.carry (by rw [ht])
  | @placeEvent _ t c e ht hn hr =>
    have h' : Counted { l with accepted := l.accepted ++ [QueueItem.event c e] } := { h with }
    exact h'.carry rfl
  | @refuse _ t c e ht hn hr =>
    have hcounted : ({ l with drops := l.drops ++ [Drop.refused c] } : Ledger E).counted =
        l.counted := by
      rw [Ledger.counted, List.filterMap_append]
      exact List.append_nil _
    have h' : Counted { l with drops := l.drops ++ [Drop.refused c] } := by
      constructor
      · rw [hcounted]
        exact h.nodup
      · rw [hcounted]
        exact h.evicted
      · rw [hcounted]
        exact h.popped
      · rw [hcounted]
        exact h.fate
    exact h'.carry rfl
  | @endDispatch _ t c e ht =>
    have h' : Counted { l with returned := l.returned ++ [c] } := { h with }
    exact h'.carry (by rw [ht])
  | evict ho hx hp hn => exact h.evict hl hn rfl
  | count ht => exact h.count hl ht rfl
  | beginFlush ht => exact h.carry (by rw [ht])
  | @draw _ t before ht =>
    have h' : Counted { l with draws := l.draws ++ [l.accepted.length] } := { h with }
    exact h'.carry (by rw [ht])
  | @placeRequest _ t i ht =>
    have h' : Counted { l with accepted := l.accepted ++ [QueueItem.flushRequest i] } := { h with }
    exact h'.carry rfl
  | abandon => exact h.carry rfl
  | endFlush ht => exact h.carry (by rw [ht])
  | _ => exact { h with }

end Counted

end AsyncDispatcher

end Logspine
