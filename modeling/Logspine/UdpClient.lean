import Logspine.Bytes

/-!
# `udp_client`

The client of `socket.cpp` for datagrams, over what the network answers: the result of
each call of `sendto`, and of each `configure_udp_socket`. A script that ends leaves a call
without an answer, so that it does not return.
-/

namespace Logspine

/-- The result of a `sendto`. -/
inductive SendtoResult where
  /-- it took the datagram -/
  | sent : SendtoResult
  /-- it failed with `EINTR` -/
  | interrupted : SendtoResult
  /-- it failed otherwise -/
  | failed : SendtoResult
  deriving DecidableEq

/-- A call of `sendto`. -/
structure SendtoCall where
  datagram : Bytes
  result : SendtoResult

/-- `udp_client`, without the handle of its socket -/
structure UdpClient where
  /-- `destination_`, empty when the client is not configured -/
  destination : Bytes

/-- A client, what the network still answers to its calls of `sendto`, and the calls it
has made. -/
structure UdpClient.Sending where
  client : UdpClient
  answers : List SendtoResult
  calls : List SendtoCall

namespace UdpClient

/-- `close` -/
def close (client : UdpClient) : UdpClient :=
  if client.destination.isEmpty then client else { client with destination := [] }

/-- `configure`, with what `configure_udp_socket` returns or throws: the client, and what it
throws. -/
def configure (client : UdpClient) : Except Bytes Bytes → UdpClient × Option Bytes
  | .ok destination => ({ client.close with destination := destination }, none)
  | .error what => (client.close, some what)

/-- The loop of `send`: the exception it throws, if any. -/
def sendLoop (client : UdpClient) (payload : Bytes) (calls : List SendtoCall) :
    List SendtoResult → Option (Sending × Option Bytes)
  | [] => none
  | .interrupted :: answers =>
    sendLoop client payload (calls ++ [⟨payload, .interrupted⟩]) answers
  | .failed :: answers =>
    some (⟨client.close, answers, calls ++ [⟨payload, .failed⟩]⟩, some (ascii "udp send failed"))
  | .sent :: answers => some (⟨client, answers, calls ++ [⟨payload, .sent⟩]⟩, none)

/-- `send` -/
def send (s : Sending) (payload : Bytes) : Option (Sending × Option Bytes) :=
  if s.client.destination.isEmpty then some (s, some (ascii "udp socket is not configured"))
  else s.client.sendLoop payload s.calls s.answers

/-- Send datagrams one after another, up to an exception. -/
def sendAll (s : Sending) : List Bytes → Option (Sending × Option Bytes)
  | [] => some (s, none)
  | payload :: payloads =>
    match send s payload with
    | some (s', none) => sendAll s' payloads
    | result => result

/-! ## What is sent -/

/-- The calls on a datagram are calls with it, and it was taken if no exception is thrown. -/
theorem sendLoop_calls {client : UdpClient} {payload : Bytes} {calls : List SendtoCall}
    {answers : List SendtoResult} {s : Sending} {error : Option Bytes}
    (h : client.sendLoop payload calls answers = some (s, error)) :
    ∃ new, s.calls = calls ++ new ∧ (∀ call ∈ new, call.datagram = payload) ∧
      (error = none → ⟨payload, .sent⟩ ∈ new) := by
  induction answers generalizing calls with
  | nil => cases h
  | cons answer answers ih =>
    cases answer with
    | sent =>
      cases h
      exact ⟨[⟨payload, .sent⟩], rfl, List.forall_mem_singleton.mpr rfl, fun _ =>
        List.mem_cons_self⟩
    | interrupted =>
      obtain ⟨new, hcalls, hdatagram, hsent⟩ := ih h
      refine ⟨⟨payload, .interrupted⟩ :: new, ?_, List.forall_mem_cons.mpr ⟨rfl, hdatagram⟩,
        fun herror => List.mem_cons_of_mem _ (hsent herror)⟩
      rw [hcalls, List.append_assoc, List.singleton_append]
    | failed =>
      cases h
      refine ⟨[⟨payload, .failed⟩], rfl, List.forall_mem_singleton.mpr rfl, ?_⟩
      rintro ⟨⟩

theorem send_calls {s s' : Sending} {payload : Bytes} {error : Option Bytes}
    (h : send s payload = some (s', error)) :
    ∃ new, s'.calls = s.calls ++ new ∧ (∀ call ∈ new, call.datagram = payload) ∧
      (error = none → ⟨payload, .sent⟩ ∈ new) := by
  rw [send] at h
  split at h
  case isTrue =>
    cases h
    refine ⟨[], (List.append_nil _).symm, List.forall_mem_nil _, ?_⟩
    rintro ⟨⟩
  case isFalse => exact sendLoop_calls h

/-- The calls on datagrams are calls with them, and all were taken if no exception is thrown. -/
theorem sendAll_calls {payloads : List Bytes} {s s' : Sending} {error : Option Bytes}
    (h : sendAll s payloads = some (s', error)) :
    ∃ new, s'.calls = s.calls ++ new ∧ (∀ call ∈ new, call.datagram ∈ payloads) ∧
      (error = none → ∀ payload ∈ payloads, ⟨payload, .sent⟩ ∈ new) := by
  induction payloads generalizing s with
  | nil =>
    cases h
    exact ⟨[], (List.append_nil _).symm, List.forall_mem_nil _, fun _ => List.forall_mem_nil _⟩
  | cons payload payloads ih =>
    rw [sendAll] at h
    cases hsend : send s payload with
    | none =>
      rw [hsend] at h
      cases h
    | some result =>
      obtain ⟨s₁, error₁⟩ := result
      obtain ⟨new, hcalls, hdatagram, hsent⟩ := send_calls hsend
      rw [hsend] at h
      cases error₁ with
      | some what =>
        cases h
        refine ⟨new, hcalls, fun call hcall => ?_, ?_⟩
        · rw [hdatagram call hcall]
          exact List.mem_cons_self
        · rintro ⟨⟩
      | none =>
        obtain ⟨new', hcalls', hdatagram', hsent'⟩ := ih h
        refine ⟨new ++ new', ?_, ?_, ?_⟩
        · rw [hcalls', hcalls, List.append_assoc]
        · intro call hcall
          rcases List.mem_append.mp hcall with hcall | hcall
          · rw [hdatagram call hcall]
            exact List.mem_cons_self
          · exact List.mem_cons_of_mem payload (hdatagram' call hcall)
        · intro herror
          refine List.forall_mem_cons.mpr ⟨List.mem_append_left new' (hsent rfl), ?_⟩
          exact fun payload' hmem => List.mem_append_right new (hsent' herror payload' hmem)

/-- When every `sendto` takes its datagram, a configured client sends all, each once. -/
theorem sendAll_of_sent {payloads : List Bytes} {s : Sending}
    (hconfigured : s.client.destination ≠ []) (answers : List SendtoResult)
    (h : s.answers = List.replicate payloads.length .sent ++ answers) :
    sendAll s payloads =
      some (⟨s.client, answers, s.calls ++ payloads.map (⟨·, .sent⟩)⟩, none) := by
  induction payloads generalizing s with
  | nil =>
    rw [List.length_nil, List.replicate_zero, List.nil_append] at h
    rw [sendAll, ← h, List.map_nil, List.append_nil]
  | cons payload payloads ih =>
    have hempty : ¬ s.client.destination.isEmpty = true :=
      fun hempty => hconfigured (List.isEmpty_iff.mp hempty)
    have hsend : send s payload = some (⟨s.client,
        List.replicate payloads.length .sent ++ answers, s.calls ++ [⟨payload, .sent⟩]⟩, none) := by
      rw [send, if_neg hempty, h, List.length_cons, List.replicate_succ]
      rfl
    have hrest := ih (s := ⟨s.client,
      List.replicate payloads.length .sent ++ answers, s.calls ++ [⟨payload, .sent⟩]⟩)
      hconfigured rfl
    rw [sendAll, hsend, List.map_cons]
    dsimp only at hrest ⊢
    rw [hrest, List.append_assoc, List.singleton_append]

/-- A client that is not configured sends nothing. -/
theorem sendAll_not_configured {s : Sending} (h : s.client.destination = []) (payload : Bytes)
    (payloads : List Bytes) :
    sendAll s (payload :: payloads) = some (s, some (ascii "udp socket is not configured")) := by
  have hempty : s.client.destination.isEmpty = true := List.isEmpty_iff.mpr h
  rw [sendAll, send, if_pos hempty]

end UdpClient

end Logspine
