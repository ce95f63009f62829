import Logspine.Bytes

/-!
# `tcp_client`

The client of `socket.cpp` for streams, without its socket calls: `connect` takes what
`connect_tcp_socket` returns or throws, and a `::send` is one of its possible results. The host
program is taken to ignore `SIGPIPE`, so that a `::send` to a peer that has gone fails.
-/

namespace Logspine

/-- The result of a `::send`. -/
inductive SendResult where
  /-- it took so many bytes -/
  | sent (count : ℕ) : SendResult
  /-- it failed with `EINTR` -/
  | interrupted : SendResult
  /-- it failed otherwise -/
  | failed : SendResult
  deriving DecidableEq

/-- What `connect_tcp_socket` throws. -/
inductive ConnectFailure where
  /-- `socket_runtime`, on Windows only -/
  | startup : ConnectFailure
  /-- `getaddrinfo` -/
  | resolve : ConnectFailure
  /-- no address could be connected to -/
  | connect : ConnectFailure
  deriving DecidableEq

/-- `what()` -/
def ConnectFailure.what : ConnectFailure → Bytes
  | startup => ascii "WSAStartup failed"
  | resolve => ascii "getaddrinfo failed"
  | connect => ascii "tcp connect failed"

theorem ConnectFailure.what_ne_nil (failure : ConnectFailure) : failure.what ≠ [] := by
  cases failure <;> decide

/-- `tcp_client` -/
structure TcpClient where
  /-- `connected_` -/
  connected : Bool
  /-- `socket_handle_`, `none` for `invalid_socket` -/
  socketHandle : Option ℕ
  handle_iff : socketHandle.isSome = connected

namespace TcpClient

/-- A client just built. -/
def initial : TcpClient := ⟨false, none, rfl⟩

/-- `close` -/
def close (client : TcpClient) : TcpClient :=
  if client.connected = false then client else ⟨false, none, rfl⟩

/-- `connect`, with what `connect_tcp_socket` returns or throws: the client, and what it
throws. -/
def connect (client : TcpClient) : Except ConnectFailure ℕ → TcpClient × Option Bytes
  | .ok handle => (⟨true, some handle, rfl⟩, none)
  | .error failure => (client.close, some failure.what)

theorem socketHandle_eq_none {client : TcpClient} (h : client.connected = false) :
    client.socketHandle = none := by
  rw [← Option.not_isSome_iff_eq_none, client.handle_iff, h]
  exact Bool.false_ne_true

theorem exists_socketHandle {client : TcpClient} (h : client.connected = true) :
    ∃ handle, client.socketHandle = some handle := by
  rw [← Option.isSome_iff_exists, client.handle_iff]
  exact h

/-- A closed client has no socket. -/
@[simp] theorem close_socketHandle (client : TcpClient) : client.close.socketHandle = none := by
  rw [close]
  split
  case isTrue h => exact socketHandle_eq_none h
  case isFalse => rfl

end TcpClient

end Logspine
