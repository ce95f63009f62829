import Logspine.StreamLedger

/-!
# Framing over reconnects

Each connection gets whole records, and at most one that breaks off; then nothing more is
sent on it.
-/

universe u

namespace Logspine

namespace StreamSink

variable {E : Type u} {cfg : Config E} {s s' : State E} {t : ℕ}

/-! ## The streams -/

/-- The records that are complete on the connection. -/
def Connection.records (c : Connection E) : Bytes := c.completed.flatMap Call.payload

/-- The beginning of a record, without its end. -/
def ProperPart (calls : List (Call E)) (tail : Bytes) : Prop :=
  tail = [] ∨ ∃ call ∈ calls, tail <+: call.payload ∧ tail ≠ call.payload

theorem properPart_take {calls : List (Call E)} {call : Call E} (hc : call ∈ calls) {offset : ℕ}
    (hlt : offset < call.payload.length) : ProperPart calls (call.payload.take offset) := by
  refine .inr ⟨call, hc, List.take_prefix .., fun heq => ?_⟩
  have hlen := congrArg List.length heq
  rw [List.length_take] at hlen
  omega

/-- Every connection has its records; the open one, if any, is the last and also has the
unfinished bytes, and another one may have the beginning of a record. -/
structure Streams (calls : List (Call E)) (client : TcpClient) (connections : List (Connection E))
    (unfinished : Bytes) : Prop where
  last : ∀ i, client.socketHandle = some i → i + 1 = connections.length
  opened : ∀ (i : ℕ) c, connections[i]? = some c → client.socketHandle = some i →
    c.bytes = c.records ++ unfinished
  closed : ∀ (i : ℕ) c, connections[i]? = some c → client.socketHandle ≠ some i →
    ∃ tail, c.bytes = c.records ++ tail ∧ ProperPart calls tail

namespace Streams

variable {calls : List (Call E)} {client : TcpClient} {connections : List (Connection E)}
  {unfinished unfinished' : Bytes}

/-- The calls get more. -/
theorem mono (h : Streams calls client connections unfinished) {calls' : List (Call E)}
    (hsub : calls ⊆ calls') : Streams calls' client connections unfinished := by
  refine ⟨h.last, h.opened, fun i c hc hi => ?_⟩
  rcases h.closed i c hc hi with ⟨tail, hbytes, hnil | ⟨call, hmem, hpart⟩⟩
  · exact ⟨tail, hbytes, .inl hnil⟩
  · exact ⟨tail, hbytes, .inr ⟨call, hsub hmem, hpart⟩⟩

/-- The client closes. -/
theorem close (h : Streams calls client connections unfinished)
    (hpart : ProperPart calls unfinished) : Streams calls client.close connections [] := by
  have hnone : ∀ i, client.close.socketHandle ≠ some i := fun i hi => by
    rw [client.close_socketHandle] at hi
    cases hi
  refine ⟨fun i hi => absurd hi (hnone i), fun i c _ hi => absurd hi (hnone i), fun i c hc _ => ?_⟩
  by_cases hi : client.socketHandle = some i
  · exact ⟨unfinished, h.opened i c hc hi, hpart⟩
  · exact h.closed i c hc hi

/-- The client connects. -/
theorem connect (h : Streams calls client connections unfinished)
    (hnone : client.socketHandle = none) :
    Streams calls (client.connect (.ok connections.length)).1
      (connections ++ [Connection.initial]) [] := by
  refine ⟨fun i hi => ?_, fun i c hc hi => ?_, fun i c hc hi => ?_⟩
  · obtain rfl := Option.some.inj hi
    rw [List.length_append, List.length_singleton]
  · obtain rfl := Option.some.inj hi
    rw [List.getElem?_concat_length] at hc
    obtain rfl := Option.some.inj hc
    rfl
  · have hlt : i < connections.length := by
      have hlt := (List.getElem?_eq_some_iff.mp hc).1
      have hne : connections.length ≠ i := fun heq => hi (congrArg some heq)
      rw [List.length_append, List.length_singleton] at hlt
      omega
    rw [List.getElem?_append_left hlt] at hc
    refine h.closed i c hc ?_
    rw [hnone]
    rintro ⟨⟩

/-- Something happens on the open connection. -/
theorem modify (h : Streams calls client connections unfinished) {i : ℕ}
    (hi : client.socketHandle = some i) {f : Connection E → Connection E}
    (hf : ∀ c, c.bytes = c.records ++ unfinished →
      (f c).bytes = (f c).records ++ unfinished') :
    Streams calls client (connections.modify i f) unfinished' := by
  refine ⟨fun j hj => ?_, fun j c hc hj => ?_, fun j c hc hj => ?_⟩
  · rw [List.length_modify]
    exact h.last j hj
  · obtain rfl := Option.some.inj (hi.symm.trans hj)
    rw [List.getElem?_modify_eq] at hc
    obtain ⟨c₀, hc₀, rfl⟩ := Option.map_eq_some_iff.mp hc
    exact hf c₀ (h.opened i c₀ hc₀ hj)
  · have hne : i ≠ j := fun heq => hj (heq ▸ hi)
    rw [List.getElem?_modify_ne f connections hne] at hc
    exact h.closed j c hc hj

end Streams

/-! ## The invariant -/

/-- The thread holds `mutex_`. -/
def Pc.holds : Pc E → Bool
  | .idle | .lock _ | .relock _ => false
  | _ => true

/-- The part of its record that the thread has sent. -/
def Pc.unfinished : Pc E → Bytes
  | .send l offset => l.call.payload.take offset
  | _ => []

/-- A thread calls `::send` with bytes left. -/
def Pc.InRange : Pc E → Prop
  | .send l offset => offset < l.call.payload.length
  | _ => True

/-- The place of the thread that holds `mutex_`. -/
def State.holder (s : State E) : Pc E := holderOf .idle s.threads s.mutex

/-- What holds of the connections, with the unfinished bytes of the thread that holds the lock. -/
def State.Streams (s : State E) (unfinished : Bytes) : Prop :=
  StreamSink.Streams s.history.calls s.client s.connections unfinished

/-- What every step keeps. -/
structure State.Framed (s : State E) : Prop where
  owner : Owned Pc.holds s.threads s.mutex
  inRange : ∀ t, (s.threads t).InRange
  accounted : s.Accounted
  streams : s.Streams s.holder.unfinished

/-- Where the thread that moves is in range, all are. -/
theorem inRange_update {threads : ℕ → Pc E} {pc : Pc E} (h : ∀ u, (threads u).InRange)
    (hpc : pc.InRange) : ∀ u, (Function.update threads t pc u).InRange :=
  (Function.forall_update_iff threads fun _ p => p.InRange).mpr ⟨hpc, fun u _ => h u⟩

section Moves

variable {pc pc' : Pc E} {l : Locals E} {offset : ℕ}

/-- What is unfinished while a thread is inside the lock. -/
theorem State.Framed.streams_of_holds (h : s.Framed) (ht : s.threads t = pc)
    (hpc : pc.holds = true) : s.Streams pc.unfinished := by
  subst ht
  have hstreams := h.streams
  rwa [State.holder, h.owner.holderOf_eq hpc] at hstreams

/-- A thread goes on inside the lock. -/
theorem framed_inside (howner : Owned Pc.holds s.threads s.mutex)
    (hrange : ∀ u, (s.threads u).InRange) (ht : s.threads t = pc) (hpc : pc.holds = true)
    (hpc' : pc'.holds = true) (hrange' : pc'.InRange) (haccounted : (s.goto t pc').Accounted)
    (hstreams : s.Streams pc'.unfinished) : (s.goto t pc').Framed := by
  subst ht
  have hholder : (s.goto t pc').holder = pc' := howner.holderOf_inside hpc
  refine ⟨howner.update_inside hpc hpc', inRange_update hrange hrange', haccounted, ?_⟩
  rw [hholder]
  exact hstreams

/-- The client of a state has changed its connections, but no call is complete that was not. -/
theorem State.Accounted.congr (h : s.Accounted) {client : TcpClient}
    {connections : List (Connection E)}
    (hcompleted : connections.flatMap Connection.completed = s.completed) :
    { s with client := client, connections := connections }.Accounted := by
  rw [State.Accounted, State.completed, hcompleted]
  exact h

/-- What happens on a connection completes no call. -/
theorem completed_modify {connections : List (Connection E)} {i : ℕ} (hi : i < connections.length)
    {f : Connection E → Connection E} (hf : ∀ c, (f c).completed = c.completed) :
    (connections.modify i f).flatMap Connection.completed =
      connections.flatMap Connection.completed := by
  obtain ⟨before, c, after, hconnections, -, hmodify⟩ := List.exists_of_modify f hi
  rw [hmodify, hconnections]
  simp only [List.flatMap_append, List.flatMap_cons, hf]

/-- A call is complete on a connection. -/
theorem completed_complete {connections : List (Connection E)} {i : ℕ}
    (hi : i < connections.length) (call : Call E) :
    ((connections.modify i (Connection.complete call)).flatMap Connection.completed).Perm
      (call :: connections.flatMap Connection.completed) := by
  obtain ⟨before, c, after, hconnections, -, hmodify⟩ :=
    List.exists_of_modify (Connection.complete call) hi
  rw [hmodify, hconnections]
  simp only [List.flatMap_append, List.flatMap_cons, Connection.complete, List.append_assoc,
    List.singleton_append]
  rw [← List.append_assoc, ← List.append_assoc]
  exact List.perm_middle

/-- The loop of `send_all` goes on or ends. -/
theorem framed_sendLoop (howner : Owned Pc.holds s.threads s.mutex)
    (hrange : ∀ u, (s.threads u).InRange) (haccounted : s.Accounted) (ht : s.threads t = pc)
    (hpc : pc.holds = true) (hcall : pc.call? = some l.call) (hsent : pc.isSent = false)
    (hc : s.client.connected = true) (hstreams : s.Streams (l.call.payload.take offset)) :
    (s.sendLoop t l offset).Framed := by
  rw [State.sendLoop]
  split
  case isTrue hlt =>
    exact framed_inside howner hrange ht hpc rfl hlt
      (Ledger.move haccounted ht hcall.symm hsent.symm) hstreams
  case isFalse hge =>
    obtain ⟨i, hi⟩ := TcpClient.exists_socketHandle hc
    have hlt : i < s.connections.length := by
      rw [← hstreams.last i hi]
      exact Nat.lt_succ_self i
    rw [List.take_of_length_le (Nat.le_of_not_lt hge)] at hstreams
    rw [State.onConnection, hi]
    refine framed_inside howner hrange ht hpc rfl trivial
      (Ledger.complete haccounted ht hcall hsent rfl rfl (completed_complete hlt l.call)) ?_
    refine hstreams.modify hi fun c hbytes => ?_
    rw [Connection.records, Connection.complete, List.flatMap_append, List.flatMap_singleton]
    exact hbytes.trans (List.append_nil _).symm

/-- A thread takes the lock. -/
theorem State.Framed.lock (h : s.Framed) (hm : s.mutex = none) (ht : s.threads t = pc)
    (hcall : pc.call? = some l.call) (hsent : pc.isSent = false)
    (statistics : NetworkSinkStatistics) :
    ({ s with mutex := some t, statistics := statistics }.goto t (.ensureConnected l)).Framed := by
  obtain ⟨howner, hrange, haccounted, hstreams⟩ := h
  rw [State.holder, hm] at hstreams
  rw [hm] at howner
  refine ⟨howner.update_lock rfl, inRange_update hrange trivial,
    Ledger.move haccounted ht hcall.symm hsent.symm, ?_⟩
  have hholder : ({ s with mutex := some t, statistics := statistics }.goto t
      (.ensureConnected l)).holder = .ensureConnected l := Owned.holderOf_lock
  rw [hholder]
  exact hstreams

/-- A step of a thread. -/
theorem State.Framed.moves (h : s.Framed) (hmove : Moves cfg s t s') : s'.Framed := by
  have ⟨howner, hrange, haccounted, hstreams⟩ := h
  cases hmove with
  | stay => exact h
  | begin event payload ht hp =>
    have hnot : (s.threads t).holds = false := by
      rw [ht]
      rfl
    have hholder : (s.begin t event payload).holder = s.holder := howner.holderOf_outside hnot
    refine ⟨howner.update_outside hnot rfl, inRange_update hrange trivial,
      Ledger.begin haccounted ht rfl, ?_⟩
    rw [hholder]
    exact hstreams.mono (List.subset_append_left _ _)
  | lock call ht hm => exact h.lock hm ht rfl rfl _
  | relock l ht hm => exact h.lock hm ht rfl rfl s.statistics
  | isConnected l ht hc =>
    have hopen : s.Streams [] := h.streams_of_holds ht rfl
    exact framed_inside howner hrange ht rfl rfl trivial (Ledger.move haccounted ht rfl rfl) hopen
  | opened l ht hc =>
    have hcompleted : (s.connections ++ [Connection.initial]).flatMap Connection.completed =
        s.completed := by
      rw [List.flatMap_append]
      exact List.append_nil _
    refine framed_inside howner hrange ht rfl rfl trivial
      (Ledger.move (haccounted.congr hcompleted) ht rfl rfl) ?_
    exact (h.streams_of_holds ht rfl).connect (TcpClient.socketHandle_eq_none hc)
  | notOpened l failure ht hc =>
    exact framed_inside howner hrange ht rfl rfl trivial (Ledger.move haccounted ht rfl rfl)
      ((h.streams_of_holds ht rfl).close (.inl rfl))
  | sendAll l ht hc =>
    exact framed_sendLoop howner hrange haccounted ht rfl rfl rfl hc (h.streams_of_holds ht rfl)
  | notConnected l ht hc =>
    have hopen : s.Streams [] := h.streams_of_holds ht rfl
    exact framed_inside howner hrange ht rfl rfl trivial (Ledger.move haccounted ht rfl rfl) hopen
  | accepted l offset count ht hpos hc hle =>
    obtain ⟨i, hi⟩ := TcpClient.exists_socketHandle hc
    have hstreams' := h.streams_of_holds ht rfl
    have hlt : i < s.connections.length := by
      rw [← hstreams'.last i hi]
      exact Nat.lt_succ_self i
    rw [State.accepted, State.onConnection, hi]
    refine framed_sendLoop howner hrange (haccounted.congr (completed_modify hlt fun _ => rfl)) ht
      rfl rfl rfl hc (hstreams'.modify hi fun c hbytes => ?_)
    rw [Connection.accept, hbytes, List.append_assoc, List.take_add]
    rfl
  | sendFailed l offset ht =>
    have hcall : l.call ∈ s.history.calls :=
      (haccounted.running t l.call (by rw [ht]; rfl)).1
    have hlt : offset < l.call.payload.length := by
      have hrange' := hrange t
      rwa [ht] at hrange'
    exact framed_inside howner hrange ht rfl rfl trivial (Ledger.move haccounted ht rfl rfl)
      ((h.streams_of_holds ht rfl).close (properPart_take hcall hlt))
  | returned l ht =>
    have hopen : s.Streams [] := h.streams_of_holds ht rfl
    exact ⟨howner.update_unlock (by rw [ht]; rfl) rfl, inRange_update hrange trivial,
      Ledger.returns haccounted ht rfl rfl, hopen⟩
  | thrown l what ht hr =>
    have hopen : s.Streams [] := h.streams_of_holds ht rfl
    exact ⟨howner.update_unlock (by rw [ht]; rfl) rfl, inRange_update hrange trivial,
      Ledger.throws haccounted ht rfl rfl, hopen⟩
  | backOff l what ht hr =>
    exact ⟨howner.update_unlock (by rw [ht]; rfl) rfl, inRange_update hrange trivial,
      Ledger.move haccounted ht rfl rfl, (h.streams_of_holds ht rfl).close (.inl rfl)⟩

end Moves

/-! ## Connections that are closed -/

/-- The client has left the connection. -/
def State.Closed (s : State E) (i : ℕ) : Prop :=
  i < s.connections.length ∧ s.client.socketHandle ≠ some i

section Closed

variable {i : ℕ}

/-- What happens on the connection of the client leaves the others as they are. -/
theorem State.Closed.onConnection (h : s.Closed i) (f : Connection E → Connection E) :
    (s.onConnection f).Closed i ∧ (s.onConnection f).connections[i]? = s.connections[i]? := by
  cases hj : s.client.socketHandle with
  | none =>
    rw [State.onConnection, hj]
    exact ⟨h, rfl⟩
  | some j =>
    rw [State.onConnection, hj]
    have hne : j ≠ i := fun heq => h.2 (heq ▸ hj)
    refine ⟨⟨?_, h.2⟩, List.getElem?_modify_ne f s.connections hne⟩
    exact (List.length_modify f s.connections j).symm ▸ h.1

theorem State.Closed.sendLoop (h : s.Closed i) (l : Locals E) (offset : ℕ) :
    (s.sendLoop t l offset).Closed i ∧
      (s.sendLoop t l offset).connections[i]? = s.connections[i]? := by
  rw [State.sendLoop]
  split
  · exact ⟨h, rfl⟩
  · exact h.onConnection _

theorem State.Closed.close (h : s.Closed i) :
    i < s.connections.length ∧ s.client.close.socketHandle ≠ some i := by
  refine ⟨h.1, ?_⟩
  rw [s.client.close_socketHandle]
  rintro ⟨⟩

/-- A step leaves a closed connection closed, and as it is. -/
theorem State.Closed.moves (h : s.Closed i) (hmove : Moves cfg s t s') :
    s'.Closed i ∧ s'.connections[i]? = s.connections[i]? := by
  cases hmove with
  | opened l ht hc =>
    refine ⟨⟨?_, fun heq => ?_⟩, List.getElem?_append_left h.1⟩
    · exact Nat.lt_of_lt_of_le h.1 (List.length_append ▸ Nat.le_add_right _ _)
    · exact absurd (Option.some.inj heq) h.1.ne'
  | sendAll l ht hc => exact h.sendLoop l 0
  | accepted l offset count ht hpos hc hle =>
    obtain ⟨hclosed, hsame⟩ :=
      h.onConnection (Connection.accept ((l.call.payload.drop offset).take count))
    obtain ⟨hclosed', hsame'⟩ := hclosed.sendLoop (t := t) l (offset + count)
    exact ⟨hclosed', hsame'.trans hsame⟩
  | notOpened l failure ht hc => exact ⟨h.close, rfl⟩
  | sendFailed l offset ht => exact ⟨h.close, rfl⟩
  | backOff l what ht hr => exact ⟨h.close, rfl⟩
  | _ => exact ⟨h, rfl⟩

/-- A run leaves a closed connection as it is. -/
theorem State.Closed.run (h : s.Closed i) {as : List (Action E)}
    (hrun : (machine cfg).run s as = some s') : s'.connections[i]? = s.connections[i]? := by
  refine And.right (Machine.invariant_run (I := fun s' : State E =>
    s'.Closed i ∧ s'.connections[i]? = s.connections[i]?) ?_ ⟨h, rfl⟩ hrun)
  rintro s₁ a s₂ ⟨hclosed, hsame⟩ hstep
  obtain ⟨u, hmove⟩ := moves_of_step hstep
  obtain ⟨hclosed', hsame'⟩ := hclosed.moves hmove
  exact ⟨hclosed', hsame'.trans hsame⟩

end Closed

/-! ## Runs -/

variable {lazyConnect : Bool} {result : Except ConnectFailure Unit} {s₀ : State E}
  {as : List (Action E)}

theorem framed_initial {client : TcpClient} {connections : List (Connection E)}
    (hcompleted : connections.flatMap Connection.completed = [])
    (hstreams : StreamSink.Streams [] client connections []) :
    (State.initial client connections).Framed := by
  have hnone : ∀ call : Call E, call ∉ (State.initial client connections).completed := by
    intro call hc
    rw [State.completed, State.initial, hcompleted] at hc
    cases hc
  have hnodup : (State.initial client connections).completed.Nodup := by
    rw [State.completed, State.initial, hcompleted]
    exact List.nodup_nil
  refine ⟨fun _ => iff_of_false Bool.false_ne_true (by rintro ⟨⟩), fun _ => trivial,
    ⟨by rintro _ _ ⟨⟩, by rintro _ _ ⟨⟩, by rintro _ _ _ ⟨⟩, hnodup,
      fun call hc => absurd hc (hnone call), List.nodup_nil, List.forall_mem_nil _,
      List.forall_mem_nil _⟩, hstreams⟩

/-- A sink just built. -/
theorem framed_construct (h : construct lazyConnect result = .ok s) : s.Framed := by
  have hnothing : StreamSink.Streams (E := E) [] .initial [] [] :=
    ⟨by rintro _ ⟨⟩, by rintro _ _ ⟨⟩, by rintro _ _ ⟨⟩⟩
  unfold construct at h
  split at h
  · obtain rfl := Except.ok.inj h
    exact framed_initial rfl hnothing
  · cases result with
    | ok =>
      obtain rfl := Except.ok.inj h
      exact framed_initial rfl (hnothing.connect rfl)
    | error failure => cases h

/-- Every state reached keeps the framing. -/
theorem framed_run (h₀ : construct lazyConnect result = .ok s₀)
    (hrun : (machine cfg).run s₀ as = some s) : s.Framed := by
  refine Machine.invariant_run (fun s a s' hs hstep => ?_) (framed_construct h₀) hrun
  obtain ⟨u, hmove⟩ := moves_of_step hstep
  exact hs.moves hmove

/-- The text of a call is the one of its event. -/
theorem payload_run (h₀ : construct lazyConnect result = .ok s₀)
    (hrun : (machine cfg).run s₀ as = some s) :
    ∀ call ∈ s.history.calls, cfg.payload call.event = some call.payload := by
  have hinit : s₀.history.calls = [] := by
    unfold construct at h₀
    split at h₀
    · obtain rfl := Except.ok.inj h₀
      rfl
    · cases result with
      | ok =>
        obtain rfl := Except.ok.inj h₀
        rfl
      | error failure => cases h₀
  refine Machine.invariant_run (I := fun s : State E => ∀ call ∈ s.history.calls,
    cfg.payload call.event = some call.payload) (fun s a s' hs hstep => ?_) ?_ hrun
  · obtain ⟨t, hmove⟩ := moves_of_step hstep
    rcases hmove.calls with hsame | ⟨event, payload, hp, hcalls⟩
    · rwa [hsame]
    · rw [hcalls]
      refine List.forall_mem_append.mpr ⟨hs, List.forall_mem_singleton.mpr hp⟩
  · rw [hinit]
    exact List.forall_mem_nil _

/-- A thread is in the middle of a record on the connection. -/
def State.SendsOn (s : State E) (i : ℕ) : Prop :=
  s.client.socketHandle = some i ∧ ∃ t l offset, s.threads t = .send l offset

/-- What the holder of the lock has sent of its record is the beginning of the record. -/
theorem State.Framed.properPart (h : s.Framed) :
    ProperPart s.history.calls s.holder.unfinished ∧
      (s.holder.unfinished ≠ [] → ∃ t l offset, s.threads t = .send l offset) := by
  cases hm : s.mutex with
  | none =>
    rw [State.holder, hm]
    exact ⟨.inl rfl, fun hne => absurd rfl hne⟩
  | some t =>
    rw [State.holder, hm]
    show ProperPart s.history.calls (s.threads t).unfinished ∧ ((s.threads t).unfinished ≠ [] → _)
    have hrange := h.inRange t
    have hrunning := h.accounted.running t
    cases ht : s.threads t with
    | send l offset =>
      rw [ht] at hrange hrunning
      exact ⟨properPart_take (hrunning l.call rfl).1 hrange, fun _ => ⟨t, l, offset, ht⟩⟩
    | _ => exact ⟨.inl rfl, fun hne => absurd rfl hne⟩

/-- **Framing.** A connection has the records of the calls that are complete on it, and at most
one proper part of a record more; if it has one, a thread is sending the rest, or the connection
never gets another byte. -/
theorem framing (h₀ : construct lazyConnect result = .ok s₀)
    (hrun : (machine cfg).run s₀ as = some s) {i : ℕ} {c : Connection E}
    (hc : s.connections[i]? = some c) :
    ∃ tail, c.bytes = c.records ++ tail ∧ ProperPart s.history.calls tail ∧
      (tail ≠ [] → s.SendsOn i ∨ ∀ bs s', (machine cfg).run s bs = some s' →
        s'.connections[i]? = some c) := by
  have hs := framed_run h₀ hrun
  by_cases hi : s.client.socketHandle = some i
  · obtain ⟨hpart, hsends⟩ := hs.properPart
    exact ⟨_, hs.streams.opened i c hc hi, hpart, fun hne => .inl ⟨hi, hsends hne⟩⟩
  · obtain ⟨tail, hbytes, hpart⟩ := hs.streams.closed i c hc hi
    refine ⟨tail, hbytes, hpart, fun _ => .inr fun bs s' hrun' => ?_⟩
    have hclosed : s.Closed i := ⟨(List.getElem?_eq_some_iff.mp hc).1, hi⟩
    rw [hclosed.run hrun', hc]

end StreamSink

end Logspine
