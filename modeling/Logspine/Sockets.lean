import Logspine.Handles
import Logspine.Machine
import Logspine.TcpClient
import Logspine.UdpClient

/-!
# The sockets of the clients

`tcp_client` and `udp_client` with the calls that open, use and close their sockets and
obtain and free lists of addresses, each of them an event of a log. `getaddrinfo`,
`socket`, `connect`, `send` and `sendto` may have any outcome. A client that is connected
(configured) holds one descriptor, its own, and nothing else is ever held when a call has
returned or thrown: `Balanced`. What the calls do to the clients is what `TcpClient` and
`UdpClient` say.
-/

namespace Logspine

open Handles

/-! ## The calls of the system -/

/-- What the system hands out. -/
inductive Handle where
  /-- a socket, `none` for `invalid_socket` -/
  | descriptor (socketHandle : Option ℕ) : Handle
  /-- a list of addresses, the `result` of `getaddrinfo` -/
  | addressList (result : ℕ) : Handle
  deriving DecidableEq

/-- The calls that open, use and close sockets, and obtain, read and free lists. -/
abbrev SocketLog : Type := List (Event Handle)

/-- A candidate in a list of addresses, and the outcome of the calls for it. -/
structure Candidate where
  /-- the `ai_addrlen` bytes at `ai_addr` -/
  aiAddr : Bytes
  aiAddr_ne_nil : aiAddr ≠ []
  /-- what `::socket` returns, `none` for `invalid_socket` -/
  socket : Option ℕ
  /-- `::connect` returns zero -/
  connect : Bool

/-- The outcome of `getaddrinfo`, and of what comes before it. -/
inductive Resolution where
  /-- `socket_runtime` throws, on Windows only -/
  | startupFailed : Resolution
  | failed : Resolution
  | resolved (result : ℕ) (candidates : List Candidate) : Resolution

/-- `close_socket` -/
def closeSocket (socketHandle : Option ℕ) : SocketLog :=
  match socketHandle with
  | none => []
  | some _ => [.release (.descriptor socketHandle)]

/-- `::socket` has returned a socket for a candidate of the list, and `set_socket_timeout` has
been called for it. -/
def openSocket (result : ℕ) (handle : ℕ) : SocketLog :=
  [.use (.addressList result), .acquire (.descriptor (some handle)),
    .use (.descriptor (some handle))]

/-- The loop of `connect_tcp_socket` and what follows it. -/
def connectLoop (result : ℕ) : List Candidate → SocketLog × Except ConnectFailure ℕ
  | [] => ([.release (.addressList result)], .error .connect)
  | current :: rest =>
    match current.socket with
    | none =>
      let (log, returned) := connectLoop result rest
      (.use (.addressList result) :: log, returned)
    | some handle =>
      let connecting := openSocket result handle ++ [.use (.descriptor (some handle))]
      if current.connect then (connecting ++ [.release (.addressList result)], .ok handle)
      else
        let (log, returned) := connectLoop result rest
        (connecting ++ closeSocket (some handle) ++ log, returned)

/-- `connect_tcp_socket`: the calls it makes, and what it returns or throws. -/
def connectTcpSocket : Resolution → SocketLog × Except ConnectFailure ℕ
  | .startupFailed => ([], .error .startup)
  | .failed => ([], .error .resolve)
  | .resolved result candidates =>
    let (log, returned) := connectLoop result candidates
    (.acquire (.addressList result) :: log, returned)

/-- The address of a configured client. -/
abbrev Destination : Type := { destination : Bytes // destination ≠ [] }

/-- The loop of `configure_udp_socket` and what follows it. -/
def configureLoop (result : ℕ) : List Candidate → SocketLog × Except Bytes (ℕ × Destination)
  | [] => ([.release (.addressList result)], .error (ascii "udp socket creation failed"))
  | current :: rest =>
    match current.socket with
    | none =>
      let (log, returned) := configureLoop result rest
      (.use (.addressList result) :: log, returned)
    | some handle =>
      (openSocket result handle ++ [.use (.addressList result), .release (.addressList result)],
        .ok (handle, ⟨current.aiAddr, current.aiAddr_ne_nil⟩))

/-- `configure_udp_socket`: the calls it makes, and what it returns or throws. -/
def configureUdpSocket : Resolution → SocketLog × Except Bytes (ℕ × Destination)
  | .startupFailed => ([], .error (ascii "WSAStartup failed"))
  | .failed => ([], .error (ascii "getaddrinfo failed"))
  | .resolved result candidates =>
    let (log, returned) := configureLoop result candidates
    (.acquire (.addressList result) :: log, returned)

/-! ## `tcp_client` -/

/-- A client, and the calls made for it so far. -/
structure TcpSockets where
  client : TcpClient
  log : SocketLog

namespace TcpSockets

/-- A client just built. -/
def initial : TcpSockets := ⟨.initial, []⟩

/-- `close`, and the destructor. -/
def close (s : TcpSockets) : TcpSockets :=
  { client := s.client.close
    log := s.log ++ if s.client.connected then closeSocket s.client.socketHandle else [] }

/-- `connect`: the client, and what it throws. -/
def connect (s : TcpSockets) (resolution : Resolution) : TcpSockets × Option Bytes :=
  let (log, returned) := connectTcpSocket resolution
  let (client, what) := s.client.connect returned
  (⟨client, s.close.log ++ log⟩, what)

/-- The loop of `send_all` over what `::send` returns: the client, and what it throws. -/
def sendLoop (s : TcpSockets) (payload : Bytes) (offset : ℕ) :
    List SendResult → Option (TcpSockets × Option Bytes)
  | [] => if payload.length ≤ offset then some (s, none) else none
  | result :: results =>
    if payload.length ≤ offset then some (s, none)
    else
      let sending : TcpSockets :=
        { s with log := s.log ++ [.use (.descriptor s.client.socketHandle)] }
      match result with
      | .interrupted => sendLoop sending payload offset results
      | .failed | .sent 0 => some (sending.close, some (ascii "tcp send failed"))
      | .sent (n + 1) => sendLoop sending payload (offset + (n + 1)) results

/-- `send_all`: the client, and what it throws. It does not return when it waits for a further
`::send`. -/
def sendAll (s : TcpSockets) (payload : Bytes) (results : List SendResult) :
    Option (TcpSockets × Option Bytes) :=
  if s.client.connected = false then some (s, some (ascii "tcp socket is not connected"))
  else s.sendLoop payload 0 results

/-- A call on the client, with the outcome of the calls that it makes. -/
inductive Call where
  | connect (resolution : Resolution) : Call
  | sendAll (payload : Bytes) (results : List SendResult) : Call
  | close : Call

/-- One call after another; a caller catches what they throw. -/
def machine : Machine TcpSockets Call where
  step s
    | .connect resolution => some (s.connect resolution).1
    | .sendAll payload results => (s.sendAll payload results).map Prod.fst
    | .close => some s.close

end TcpSockets

/-! ## `udp_client` -/

/-- `udp_client`, with the handle of its socket -/
structure UdpSocket where
  /-- `destination_`, empty when the client is not configured -/
  destination : Bytes
  /-- `socket_handle_`, `none` for `invalid_socket` -/
  socketHandle : Option ℕ
  handle_iff : socketHandle.isSome = !destination.isEmpty

namespace UdpSocket

theorem isSome_none : (none : Option ℕ).isSome = !([] : Bytes).isEmpty := rfl

/-- A client just built. -/
def initial : UdpSocket := ⟨[], none, isSome_none⟩

/-- `configured` -/
def configured (client : UdpSocket) : Bool := !client.destination.isEmpty

/-- The client that the sinks see. -/
def udpClient (client : UdpSocket) : UdpClient := ⟨client.destination⟩

/-- What `close` leaves. -/
def close (client : UdpSocket) : UdpSocket :=
  if client.destination.isEmpty then client else initial

end UdpSocket

/-- A client, and the calls made for it so far. -/
structure UdpSockets where
  client : UdpSocket
  log : SocketLog

namespace UdpSockets

/-- A client just built. -/
def initial : UdpSockets := ⟨.initial, []⟩

/-- `close`, and the destructor. -/
def close (s : UdpSockets) : UdpSockets :=
  { client := s.client.close
    log := s.log ++ if s.client.configured then closeSocket s.client.socketHandle else [] }

/-- `configure`: the client, and what it throws. -/
def configure (s : UdpSockets) (resolution : Resolution) : UdpSockets × Option Bytes :=
  match configureUdpSocket resolution with
  | (log, .ok (handle, destination)) =>
    have hne : (some handle).isSome = !destination.1.isEmpty := by
      rw [List.isEmpty_eq_false_iff.mpr destination.2]
      rfl
    (⟨⟨destination.1, some handle, hne⟩, s.close.log ++ log⟩, none)
  | (log, .error what) => (⟨s.client.close, s.close.log ++ log⟩, some what)

/-- The loop of `send` over what `sendto` returns: the client, and what it throws. -/
def sendLoop (s : UdpSockets) : List SendtoResult → Option (UdpSockets × Option Bytes)
  | [] => none
  | result :: results =>
    let sending : UdpSockets :=
      { s with log := s.log ++ [.use (.descriptor s.client.socketHandle)] }
    match result with
    | .interrupted => sendLoop sending results
    | .failed => some (sending.close, some (ascii "udp send failed"))
    | .sent => some (sending, none)

/-- `send`: the client, and what it throws. It does not return when it waits for a further
`sendto`. -/
def send (s : UdpSockets) (results : List SendtoResult) : Option (UdpSockets × Option Bytes) :=
  if s.client.destination.isEmpty then some (s, some (ascii "udp socket is not configured"))
  else s.sendLoop results

/-- A call on the client, with the outcome of the calls that it makes. -/
inductive Call where
  | configure (resolution : Resolution) : Call
  | send (results : List SendtoResult) : Call
  | close : Call

/-- One call after another; a caller catches what they throw. -/
def machine : Machine UdpSockets Call where
  step s
    | .configure resolution => some (s.configure resolution).1
    | .send results => (s.send results).map Prod.fst
    | .close => some s.close

end UdpSockets

/-! ## What is held -/

/-- The handles of a client: its descriptor, if it has one. -/
def handlesOf (socketHandle : Option ℕ) : List Handle :=
  match socketHandle with
  | none => []
  | some _ => [.descriptor socketHandle]

/-- Opening a socket for a candidate, and using it. -/
theorem run_openSocket {result handle : ℕ} {log : SocketLog} {held : List Handle}
    (h : Run [.descriptor (some handle), .addressList result] log held) :
    Run [.addressList result] (openSocket result handle ++ log) held := by
  have hnew : Handle.descriptor (some handle) ∉ [Handle.addressList result] := by simp
  exact .use List.mem_cons_self (.acquire hnew (.use List.mem_cons_self h))

/-- Freeing the list leaves the socket. -/
theorem run_freeaddrinfo {result handle : ℕ} :
    Run [.descriptor (some handle), .addressList result] [.release (.addressList result)]
      (handlesOf (some handle)) := by
  refine .release (by simp) ?_
  rw [List.erase_cons_tail (by simp), List.erase_cons_head]
  exact .done

/-- Without a socket, freeing the list leaves nothing. -/
theorem run_freeaddrinfo_none {result : ℕ} :
    Run [.addressList result] [.release (.addressList result)] (handlesOf none) := by
  refine .release List.mem_cons_self ?_
  rw [List.erase_cons_head]
  exact .done

/-- The loop of `connect_tcp_socket` frees the list, and leaves the socket it returns. -/
theorem run_connectLoop (result : ℕ) (candidates : List Candidate) :
    Run [.addressList result] (connectLoop result candidates).1
      (handlesOf (connectLoop result candidates).2.toOption) := by
  induction candidates with
  | nil => exact run_freeaddrinfo_none
  | cons current rest ih =>
    rw [connectLoop]
    cases current.socket with
    | none => exact .use List.mem_cons_self ih
    | some handle =>
      dsimp only
      split
      case isTrue =>
        rw [List.append_assoc]
        exact run_openSocket (.use List.mem_cons_self run_freeaddrinfo)
      case isFalse =>
        rw [List.append_assoc, List.append_assoc]
        refine run_openSocket (.use List.mem_cons_self (.release List.mem_cons_self ?_))
        rw [List.erase_cons_head]
        exact ih

theorem run_connectTcpSocket (resolution : Resolution) :
    Run [] (connectTcpSocket resolution).1
      (handlesOf (connectTcpSocket resolution).2.toOption) := by
  cases resolution with
  | startupFailed | failed => exact .done
  | resolved result candidates =>
    exact .acquire List.not_mem_nil (run_connectLoop result candidates)

/-- The loop of `configure_udp_socket` frees the list, and leaves the socket it returns. -/
theorem run_configureLoop (result : ℕ) (candidates : List Candidate) :
    Run [.addressList result] (configureLoop result candidates).1
      (handlesOf ((configureLoop result candidates).2.toOption.map Prod.fst)) := by
  induction candidates with
  | nil => exact run_freeaddrinfo_none
  | cons current rest ih =>
    rw [configureLoop]
    cases current.socket with
    | none => exact .use List.mem_cons_self ih
    | some handle => exact run_openSocket (.use (by simp) run_freeaddrinfo)

theorem run_configureUdpSocket (resolution : Resolution) :
    Run [] (configureUdpSocket resolution).1
      (handlesOf ((configureUdpSocket resolution).2.toOption.map Prod.fst)) := by
  cases resolution with
  | startupFailed | failed => exact .done
  | resolved result candidates =>
    exact .acquire List.not_mem_nil (run_configureLoop result candidates)

/-- Closing the socket of a client leaves nothing. -/
theorem run_closeSocket (socketHandle : Option ℕ) :
    Run (handlesOf socketHandle) (closeSocket socketHandle) (handlesOf none) := by
  cases socketHandle with
  | none => exact .done
  | some handle =>
    have herase : (handlesOf (some handle)).erase (.descriptor (some handle)) = [] :=
      List.erase_cons_head ..
    refine .release List.mem_cons_self ?_
    rw [herase]
    exact .done

/-- A client that closes its socket, if it has one, holds nothing. -/
theorem run_close {socketHandle : Option ℕ} {connected : Bool} {log : SocketLog}
    (h : Run [] log (handlesOf socketHandle)) (hconnected : socketHandle.isSome = connected) :
    Run [] (log ++ if connected then closeSocket socketHandle else []) (handlesOf none) := by
  split
  case isTrue => exact h.append (run_closeSocket socketHandle)
  case isFalse hnot =>
    have hnone : socketHandle = none := Option.not_isSome_iff_eq_none.mp (hconnected ▸ hnot)
    rw [List.append_nil, ← hnone]
    exact h

/-- The socket of a client can be used. -/
theorem run_use {socketHandle : Option ℕ} (h : socketHandle.isSome = true) :
    Run (handlesOf socketHandle) [.use (.descriptor socketHandle)] (handlesOf socketHandle) := by
  obtain ⟨handle, rfl⟩ := Option.isSome_iff_exists.mp h
  exact .use List.mem_cons_self .done

namespace TcpSockets

variable {s s' : TcpSockets} {what : Option Bytes}

/-- The log is in order, and the socket of the client is all that is held. -/
def InOrder (s : TcpSockets) : Prop := Run [] s.log (handlesOf s.client.socketHandle)

theorem inOrder_initial : initial.InOrder := .done

/-- A closed client holds nothing. -/
theorem InOrder.run_close (h : s.InOrder) : Run [] s.close.log (handlesOf none) :=
  Logspine.run_close h s.client.handle_iff

theorem InOrder.close (h : s.InOrder) : s.close.InOrder := by
  have hnone : s.close.client.socketHandle = none := TcpClient.close_socketHandle s.client
  rw [InOrder, hnone]
  exact h.run_close

theorem InOrder.connect (h : s.InOrder) (resolution : Resolution) :
    (s.connect resolution).1.InOrder := by
  have hrun := h.run_close.append (run_connectTcpSocket resolution)
  have hhandle : (s.connect resolution).1.client.socketHandle =
      (connectTcpSocket resolution).2.toOption := by
    rw [TcpSockets.connect]
    cases hreturned : (connectTcpSocket resolution).2 with
    | ok handle =>
      dsimp only
      rw [hreturned]
      rfl
    | error failure =>
      dsimp only
      rw [hreturned]
      exact TcpClient.close_socketHandle s.client
  rw [InOrder, hhandle]
  exact hrun

theorem InOrder.sendLoop (h : s.InOrder) (hconnected : s.client.connected = true)
    {payload : Bytes} {offset : ℕ} {results : List SendResult}
    (hreturned : s.sendLoop payload offset results = some (s', what)) : s'.InOrder := by
  have hsending : ∀ {s : TcpSockets}, s.InOrder → s.client.connected = true →
      InOrder { s with log := s.log ++ [.use (.descriptor s.client.socketHandle)] } :=
    fun h hconnected => h.append (run_use (hconnected ▸ TcpClient.handle_iff _))
  induction results generalizing s offset with
  | nil =>
    obtain ⟨-, heq⟩ := Option.ite_none_right_eq_some.mp hreturned
    obtain ⟨rfl, -⟩ := Prod.mk.inj (Option.some.inj heq)
    exact h
  | cons result results ih =>
    rw [TcpSockets.sendLoop] at hreturned
    split at hreturned
    case isTrue =>
      obtain ⟨rfl, -⟩ := Prod.mk.inj (Option.some.inj hreturned)
      exact h
    case isFalse =>
      have hused := hsending h hconnected
      cases result with
      | interrupted => exact ih hused hconnected hreturned
      | failed =>
        obtain ⟨rfl, -⟩ := Prod.mk.inj (Option.some.inj hreturned)
        exact hused.close
      | sent count =>
        cases count with
        | zero =>
          obtain ⟨rfl, -⟩ := Prod.mk.inj (Option.some.inj hreturned)
          exact hused.close
        | succ n => exact ih hused hconnected hreturned

/-- Every call keeps the log in order. -/
theorem InOrder.step (h : s.InOrder) {call : Call} (hstep : machine.step s call = some s') :
    s'.InOrder := by
  cases call with
  | connect resolution =>
    obtain rfl := Option.some.inj hstep
    exact h.connect resolution
  | sendAll payload results =>
    obtain ⟨⟨s₁, what⟩, hreturned, rfl⟩ := Option.map_eq_some_iff.mp hstep
    rw [TcpSockets.sendAll] at hreturned
    split at hreturned
    case isTrue =>
      obtain ⟨rfl, -⟩ := Prod.mk.inj (Option.some.inj hreturned)
      exact h
    case isFalse hconnected =>
      exact h.sendLoop (eq_true_of_ne_false hconnected) hreturned
  | close =>
    obtain rfl := Option.some.inj hstep
    exact h.close

end TcpSockets

namespace UdpSocket

/-- A closed client has no socket. -/
theorem close_socketHandle (client : UdpSocket) : client.close.socketHandle = none := by
  rw [close]
  split
  case isTrue h =>
    rw [← Option.not_isSome_iff_eq_none, client.handle_iff, h]
    exact Bool.false_ne_true
  case isFalse => rfl

/-- The client that the sinks see is closed. -/
theorem udpClient_close (client : UdpSocket) : client.close.udpClient = client.udpClient.close := by
  rw [close]
  split
  case isTrue h => exact (if_pos h).symm
  case isFalse h => exact (if_neg h).symm

end UdpSocket

namespace UdpSockets

variable {s s' : UdpSockets} {what : Option Bytes}

/-- The log is in order, and the socket of the client is all that is held. -/
def InOrder (s : UdpSockets) : Prop := Run [] s.log (handlesOf s.client.socketHandle)

theorem inOrder_initial : initial.InOrder := .done

/-- A closed client holds nothing. -/
theorem InOrder.run_close (h : s.InOrder) : Run [] s.close.log (handlesOf none) :=
  Logspine.run_close h s.client.handle_iff

theorem InOrder.close (h : s.InOrder) : s.close.InOrder := by
  have hnone : s.close.client.socketHandle = none := s.client.close_socketHandle
  rw [InOrder, hnone]
  exact h.run_close

theorem InOrder.configure (h : s.InOrder) (resolution : Resolution) :
    (s.configure resolution).1.InOrder := by
  have hrun := h.run_close.append (run_configureUdpSocket resolution)
  rw [UdpSockets.configure]
  rcases hreturned : configureUdpSocket resolution with ⟨log, what | ⟨handle, destination⟩⟩
  · rw [hreturned] at hrun
    rw [InOrder]
    dsimp only
    rw [UdpSocket.close_socketHandle]
    exact hrun
  · rw [hreturned] at hrun
    exact hrun

theorem InOrder.sendLoop (h : s.InOrder) (hconfigured : s.client.configured = true)
    {results : List SendtoResult} (hreturned : s.sendLoop results = some (s', what)) :
    s'.InOrder := by
  have hsending : ∀ {s : UdpSockets}, s.InOrder → s.client.configured = true →
      InOrder { s with log := s.log ++ [.use (.descriptor s.client.socketHandle)] } :=
    fun h hconfigured => h.append (run_use ((UdpSocket.handle_iff _).trans hconfigured))
  induction results generalizing s with
  | nil => cases hreturned
  | cons result results ih =>
    have hused := hsending h hconfigured
    cases result with
    | interrupted => exact ih hused hconfigured hreturned
    | failed =>
      obtain ⟨rfl, -⟩ := Prod.mk.inj (Option.some.inj hreturned)
      exact hused.close
    | sent =>
      obtain ⟨rfl, -⟩ := Prod.mk.inj (Option.some.inj hreturned)
      exact hused

/-- Every call keeps the log in order. -/
theorem InOrder.step (h : s.InOrder) {call : Call} (hstep : machine.step s call = some s') :
    s'.InOrder := by
  cases call with
  | configure resolution =>
    obtain rfl := Option.some.inj hstep
    exact h.configure resolution
  | send results =>
    obtain ⟨⟨s₁, what⟩, hreturned, rfl⟩ := Option.map_eq_some_iff.mp hstep
    rw [UdpSockets.send] at hreturned
    split at hreturned
    case isTrue =>
      obtain ⟨rfl, -⟩ := Prod.mk.inj (Option.some.inj hreturned)
      exact h
    case isFalse hempty =>
      refine h.sendLoop ?_ hreturned
      rw [UdpSocket.configured, eq_false_of_ne_true hempty]
      rfl
  | close =>
    obtain rfl := Option.some.inj hstep
    exact h.close

/-- The client that the sinks see is configured. -/
theorem udpClient_configure (s : UdpSockets) (resolution : Resolution) :
    s.client.udpClient.configure ((configureUdpSocket resolution).2.map (·.2.1)) =
      ((s.configure resolution).1.client.udpClient, (s.configure resolution).2) := by
  rw [UdpSockets.configure]
  rcases configureUdpSocket resolution with ⟨log, what | ⟨handle, destination⟩⟩
  · exact congrArg (·, some what) (UdpSocket.udpClient_close s.client).symm
  · rfl

/-- The client that the sinks see sends. -/
theorem udpClient_sendLoop (s : UdpSockets) (results : List SendtoResult) (payload : Bytes)
    (calls : List SendtoCall) :
    (s.client.udpClient.sendLoop payload calls results).map (fun sent => (sent.1.client, sent.2)) =
      (s.sendLoop results).map fun sent => (sent.1.client.udpClient, sent.2) := by
  induction results generalizing s calls with
  | nil => rfl
  | cons result results ih =>
    cases result with
    | interrupted =>
      exact ih ⟨s.client, s.log ++ [.use (.descriptor s.client.socketHandle)]⟩
        (calls ++ [⟨payload, .interrupted⟩])
    | failed =>
      refine congrArg (fun client => some (client, some (ascii "udp send failed"))) ?_
      exact (UdpSocket.udpClient_close s.client).symm
    | sent => rfl

theorem udpClient_send (s : UdpSockets) (results : List SendtoResult) (payload : Bytes)
    (calls : List SendtoCall) :
    (UdpClient.send ⟨s.client.udpClient, results, calls⟩ payload).map
        (fun sent => (sent.1.client, sent.2)) =
      (s.send results).map fun sent => (sent.1.client.udpClient, sent.2) := by
  rw [UdpClient.send, UdpSockets.send]
  by_cases hempty : s.client.destination.isEmpty = true
  · rw [if_pos hempty]
    exact congrArg (Option.map _) (if_pos hempty)
  · rw [if_neg hempty]
    exact (congrArg (Option.map _) (if_neg hempty)).trans
      (udpClient_sendLoop s results payload calls)

end UdpSockets

/-! ## The balance -/

/-- What holds of a client when a call has come to its end. -/
structure Balanced (connected : Bool) (socketHandle : Option ℕ) (log : SocketLog) : Prop where
  /-- the log is in order; the stored handle is held if the client is connected, and nothing
  else -/
  held : ∃ held, Run [] log held ∧
    (connected = true → ∃ handle, socketHandle = some handle ∧
      held = [.descriptor (some handle)]) ∧
    (connected = false → held = [])
  /-- what is used or released was acquired before, and not released since -/
  once : ∀ before e after h, log = before ++ e :: after → e = .use h ∨ e = .release h →
    before.count (.release h) < before.count (.acquire h)
  /-- the descriptors opened and not yet closed -/
  opened : ∀ handle, log.count (.acquire (.descriptor handle)) =
    log.count (.release (.descriptor handle)) +
      if connected = true ∧ socketHandle = handle then 1 else 0
  /-- the lists obtained are freed -/
  freed : ∀ result, log.count (.acquire (.addressList result)) =
    log.count (.release (.addressList result))

theorem Balanced.of_run {connected : Bool} {socketHandle : Option ℕ} {log : SocketLog}
    (hrun : Run [] log (handlesOf socketHandle)) (hconnected : socketHandle.isSome = connected) :
    Balanced connected socketHandle log := by
  refine ⟨⟨handlesOf socketHandle, hrun, ?_, ?_⟩, ?_, fun handle => ?_, fun result => ?_⟩
  · rintro rfl
    obtain ⟨handle, rfl⟩ := Option.isSome_iff_exists.mp hconnected
    exact ⟨handle, rfl, rfl⟩
  · rintro rfl
    obtain rfl := Option.not_isSome_iff_eq_none.mp (ne_true_of_eq_false hconnected)
    rfl
  · rintro before e after h rfl he
    exact hrun.count_lt he
  · have hcount := hrun.count (.descriptor handle)
    rw [List.count_nil, Nat.zero_add] at hcount
    rw [hcount]
    cases socketHandle with
    | none =>
      subst hconnected
      rfl
    | some fd =>
      subst hconnected
      simp [handlesOf, List.count_singleton]
  · have hcount := hrun.count (.addressList result)
    rw [List.count_nil, Nat.zero_add] at hcount
    rw [hcount]
    cases socketHandle <;> rfl

/-- **Sockets are neither leaked nor closed twice**, whatever calls are made on a client and
whatever the system answers, up to and with the destruction of the client. -/
theorem sockets_balanced :
    (∀ calls s, TcpSockets.machine.run .initial calls = some s →
      Balanced s.client.connected s.client.socketHandle s.log ∧
        Balanced false none s.close.log) ∧
    (∀ calls s, UdpSockets.machine.run .initial calls = some s →
      Balanced s.client.configured s.client.socketHandle s.log ∧
        Balanced false none s.close.log) := by
  constructor
  · intro calls s hrun
    have h : s.InOrder := Machine.invariant_run
      (fun _ _ _ h hstep => h.step hstep) TcpSockets.inOrder_initial hrun
    exact ⟨.of_run h s.client.handle_iff, .of_run h.run_close rfl⟩
  · intro calls s hrun
    have h : s.InOrder := Machine.invariant_run
      (fun _ _ _ h hstep => h.step hstep) UdpSockets.inOrder_initial hrun
    exact ⟨.of_run h s.client.handle_iff, .of_run h.run_close rfl⟩

/-- The third of three candidates accepts, and the connection breaks off later. -/
def reconnectingCalls : List TcpSockets.Call :=
  [.connect (.resolved 1 [⟨[1], by decide, none, true⟩, ⟨[2], by decide, some 5, false⟩,
      ⟨[3], by decide, some 6, true⟩]),
    .sendAll (ascii "ab") [.interrupted, .sent 1, .failed], .connect .failed,
    .connect (.resolved 2 [⟨[4], by decide, some 5, true⟩])]

/-- The first socket is configured, and a `sendto` fails. -/
def reconfiguringCalls : List UdpSockets.Call :=
  [.configure (.resolved 1 [⟨[1], by decide, none, true⟩, ⟨[2], by decide, some 5, true⟩]),
    .send [.interrupted, .failed], .configure (.resolved 2 [])]

theorem sockets_balanced_reconnecting :
    (∃ s, TcpSockets.machine.run .initial reconnectingCalls = some s ∧
      Balanced s.client.connected (some 5) s.log) ∧
    ∃ s, UdpSockets.machine.run .initial reconfiguringCalls = some s ∧
      Balanced false none s.close.log := by
  constructor
  · have hrun : (TcpSockets.machine.run .initial reconnectingCalls).map
        (fun s => s.client.socketHandle) = some (some 5) := by decide
    obtain ⟨s, hs, hhandle⟩ := Option.map_eq_some_iff.mp hrun
    exact ⟨s, hs, hhandle ▸ (sockets_balanced.1 reconnectingCalls s hs).1⟩
  · obtain ⟨s, hs⟩ : ∃ s, UdpSockets.machine.run .initial reconfiguringCalls = some s := ⟨_, rfl⟩
    exact ⟨s, hs, (sockets_balanced.2 reconfiguringCalls s hs).2⟩

end Logspine
