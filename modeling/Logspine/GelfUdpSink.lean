import Logspine.Gelf
import Logspine.NetworkPayloads
import Logspine.UdpClient
import Logspine.ZlibHelper

/-!
# `gelf_udp_sink`

`write` cuts a payload that is longer than `max_chunk_size` into at most 128 chunks, with
the wrapping arithmetic of `std::size_t`, and sends all of them again after each failure. A
receiver that takes the datagrams of a write in any order, with duplicates, obtains the
first 128 slices of the payload.
-/

namespace Logspine

variable {D : Type}

/-! ## The sink -/

/-- A `std::string`: its length is at most `max_size()`. -/
structure StdString where
  bytes : Bytes
  length_lt : bytes.length < 2 ^ 63

/-- The string of these bytes, `none` for `std::length_error`. -/
def StdString.ofBytes (bytes : Bytes) : Option StdString :=
  if h : bytes.length < 2 ^ 63 then some ⟨bytes, h⟩ else none

/-- `size()` -/
def StdString.size (s : StdString) : BitVec 64 := .ofNat 64 s.bytes.length

theorem StdString.toNat_size (s : StdString) : s.size.toNat = s.bytes.length := by
  have hlt := s.length_lt
  rw [StdString.size, BitVec.toNat_ofNat]
  omega

/-- `gelf_udp_sink_options` -/
structure GelfUdpSinkOptions where
  host : Bytes
  port : BitVec 16
  sourceHost : Bytes
  reconnectOnFailure : Bool
  maxWriteRetries : BitVec 32
  compress : Bool
  maxChunkSize : BitVec 64

/-- `gelf_udp_sink` -/
structure GelfUdpSink where
  /-- `options_` -/
  options : GelfUdpSinkOptions
  /-- `transport_->client` -/
  client : UdpClient
  /-- `statistics_` -/
  statistics : NetworkSinkStatistics
  /-- `last_error_message_` -/
  lastErrorMessage : Bytes

/-- What the network answers: to each `sendto`, and to each `configure_udp_socket`. -/
structure Network where
  sendto : List SendtoResult
  configure : List (Except Bytes Bytes)

/-- A write that has come to its end. -/
structure GelfWrite where
  sink : GelfUdpSink
  /-- what the network has not yet answered -/
  network : Network
  /-- the calls of `sendto` -/
  calls : List SendtoCall
  /-- how often the chunks were sent -/
  attempts : ℕ
  /-- the exception that leaves `write`, `none` if it returns -/
  error : Option SinkException

/-- The datagrams that the socket took, in order. -/
def GelfWrite.datagrams (w : GelfWrite) : List Bytes :=
  (w.calls.filter fun call => call.result = .sent).map SendtoCall.datagram

namespace GelfUdpSink

/-- The constructor: `none` when it throws `std::invalid_argument`, else the sink that is
left by what `configure_transport` returns or throws, and what it throws. -/
def construct (options : GelfUdpSinkOptions) (configured : Except Bytes Bytes) :
    Option (GelfUdpSink × Option Bytes) :=
  if options.port = 0 then none
  else
    let (client, error) := UdpClient.configure ⟨[]⟩ configured
    some (⟨options, client, ⟨0, 0, 0⟩, []⟩, error)

/-- The 8 bytes of the message id in a chunk. -/
def idBytes (messageId : BitVec 64) : Bytes :=
  (List.range 8).map fun b => .ofNat (messageId >>> (b * 8) &&& 0xff).toNat

/-- The chunk with the sequence number `i`. -/
def makeChunk (messageId maxPayloadPerChunk : BitVec 64) (chunksToSend : ℕ) (payload : StdString)
    (i : ℕ) : Bytes :=
  let offset := BitVec.ofNat 64 i * maxPayloadPerChunk
  let size := min maxPayloadPerChunk.toNat (payload.size - offset).toNat
  [0x1e, 0x0f] ++ idBytes messageId ++ [.ofNat i] ++ [.ofNat chunksToSend] ++
    (payload.bytes.drop offset.toNat).take size

/-- The datagrams of a payload, `none` when it is divided by zero. -/
def makeChunks (messageId maxChunkSize : BitVec 64) (payload : StdString) : Option (List Bytes) :=
  if maxChunkSize < payload.size then
    let maxPayloadPerChunk := maxChunkSize - 12
    if maxPayloadPerChunk = 0 then none
    else
      let totalChunks := (payload.size + maxPayloadPerChunk - 1) / maxPayloadPerChunk
      let chunksToSend := min totalChunks.toNat 128
      some ((List.range chunksToSend).map
        (makeChunk messageId maxPayloadPerChunk chunksToSend payload))
  else some [payload.bytes]

/-- The retry loop of `write`, with the chunks and `retries_remaining`. -/
def retryLoop (chunks : List Bytes) (retriesRemaining : ℕ) (s : GelfUdpSink) (network : Network)
    (calls : List SendtoCall) (attempts : ℕ) : Option GelfWrite :=
  match UdpClient.sendAll ⟨s.client, network.sendto, calls⟩ chunks with
  | none => none
  | some (sent, none) =>
    some
      { sink := { s with client := sent.client, lastErrorMessage := [] }
        network := { network with sendto := sent.answers }
        calls := sent.calls
        attempts := attempts + 1
        error := none }
  | some (sent, some what) =>
    let s : GelfUdpSink :=
      { s with
        client := sent.client
        statistics := { s.statistics with writeFailures := s.statistics.writeFailures + 1 }
        lastErrorMessage := what }
    match retriesRemaining with
    | 0 =>
      some ⟨s, { network with sendto := sent.answers }, sent.calls, attempts + 1,
        some (.network what)⟩
    | retriesRemaining + 1 =>
      let s : GelfUdpSink :=
        { s with
          statistics :=
            { s.statistics with reconnectAttempts := s.statistics.reconnectAttempts + 1 } }
      match network.configure with
      | [] => none
      | configured :: rest =>
        let network : Network := ⟨sent.answers, rest⟩
        match s.client.configure configured with
        | (client, none) =>
          retryLoop chunks retriesRemaining { s with client := client } network sent.calls
            (attempts + 1)
        | (client, some what) =>
          some ⟨{ s with client := client }, network, sent.calls, attempts + 1,
            some (.network what)⟩

/-- `write` from its lock on, with a payload. -/
def writePayload (s : GelfUdpSink) (messageId : BitVec 64) (payload : StdString)
    (network : Network) : Option GelfWrite :=
  match makeChunks messageId s.options.maxChunkSize payload with
  | none => none
  | some chunks =>
    let s : GelfUdpSink :=
      { s with
        statistics := { s.statistics with writeAttempts := s.statistics.writeAttempts + 1 } }
    let retriesRemaining :=
      if s.options.reconnectOnFailure then s.options.maxWriteRetries.toNat else 0
    retryLoop chunks retriesRemaining s network [] 0

/-- The payload of an event, `none` when formatting throws. -/
def payload (zlib : Option Zlib) (fmt : DoubleFormat D) (sec : SecondsFormat D)
    (sink : SinkBase D) (s : GelfUdpSink) (event : LogEvent D) : Option Bytes := do
  let payload ← match sink.formatter with
    | some formatter => formatter event
    | none => some (makeGelfPayload fmt sec event s.options.sourceHost)
  match zlib with
  | some zlib =>
    if s.options.compress then
      let (compressed, ok) := zlibCompress zlib payload []
      return if ok then compressed else payload
    else return payload
  | none => return payload

/-- `write`: `none` when it does not come to an end. -/
def write (zlib : Option Zlib) (fmt : DoubleFormat D) (sec : SecondsFormat D)
    (sink : SinkBase D) (messageId : BitVec 64) (network : Network) (event : LogEvent D)
    (s : GelfUdpSink) : Option GelfWrite :=
  if sink.shouldLog event then
    match (s.payload zlib fmt sec sink event).bind StdString.ofBytes with
    | none => some ⟨s, network, [], 0, some .payload⟩
    | some payload => s.writePayload messageId payload network
  else some ⟨s, network, [], 0, none⟩

/-! ## Chunks -/

theorem toNat_payloadPerChunk {maxChunkSize : BitVec 64} (h : 13 ≤ maxChunkSize.toNat) :
    (maxChunkSize - 12).toNat = maxChunkSize.toNat - 12 := by
  bv_omega

theorem toNat_totalChunks {m : BitVec 64} (hm : 0 < m.toNat) {payload : StdString}
    (hlt : m.toNat < payload.bytes.length) : ((payload.size + m - 1) / m).toNat =
      (payload.bytes.length + m.toNat - 1) / m.toNat := by
  have hsize := payload.toNat_size
  have hbound := payload.length_lt
  have hsum : (payload.size + m - 1).toNat = payload.bytes.length + m.toNat - 1 := by
    bv_omega
  rw [BitVec.toNat_udiv, hsum]

/-- The slice with the sequence number `i`, of `m` bytes. -/
def slice (payload : Bytes) (m i : ℕ) : Bytes := (payload.drop (i * m)).take m

/-- The slices one after the other. -/
theorem flatMap_slice (payload : Bytes) (m n : ℕ) :
    (List.range n).flatMap (slice payload m) = payload.take (n * m) := by
  induction n with
  | zero => rw [List.range_zero, List.flatMap_nil, Nat.zero_mul, List.take_zero]
  | succ n ih =>
    rw [List.range_succ, List.flatMap_append, ih, List.flatMap_singleton, slice, Nat.succ_mul,
      List.take_add]

/-- How many chunks are sent: the slices of the payload, rounded up, and at most 128. -/
def chunkCount (payload : Bytes) (m : ℕ) : ℕ := min ((payload.length + m - 1) / m) 128

theorem mul_lt_of_lt_chunkCount {payload : Bytes} {m i : ℕ} (hne : payload ≠ [])
    (hi : i < chunkCount payload m) : i * m < payload.length := by
  have hpos : 0 < payload.length := List.length_pos_iff.mpr hne
  have hlt : i < (payload.length + m - 1) / m := Nat.lt_of_lt_of_le hi (Nat.min_le_left _ _)
  have hm : 0 < m := by
    by_contra hzero
    rw [Nat.eq_zero_of_not_pos hzero, Nat.div_zero] at hlt
    cases hlt
  have hle : (i + 1) * m ≤ payload.length + m - 1 := (Nat.le_div_iff_mul_le hm).mp hlt
  rw [Nat.succ_mul] at hle
  omega

theorem slice_ne_nil {payload : Bytes} {m i : ℕ} (hm : 0 < m) (h : i * m < payload.length) :
    slice payload m i ≠ [] := by
  rw [← List.length_pos_iff, slice, List.length_take, List.length_drop]
  omega

theorem take_chunkCount {payload : Bytes} {m : ℕ} (hm : 0 < m) :
    payload.take (chunkCount payload m * m) = payload.take (128 * m) := by
  rcases Nat.lt_or_ge 128 ((payload.length + m - 1) / m) with hlt | hle
  · rw [chunkCount, Nat.min_eq_right (Nat.le_of_lt hlt)]
  · have hall : payload.length ≤ chunkCount payload m * m := by
      rw [chunkCount, Nat.min_eq_left hle]
      have hdiv := Nat.lt_mul_of_div_lt (Nat.lt_succ_self ((payload.length + m - 1) / m)) hm
      rw [Nat.succ_mul] at hdiv
      omega
    have hmul : chunkCount payload m * m ≤ 128 * m :=
      Nat.mul_le_mul_right m (Nat.min_le_right _ _)
    rw [List.take_of_length_le hall, List.take_of_length_le (Nat.le_trans hall hmul)]

/-- A chunk, without the arithmetic of `std::size_t`. -/
theorem makeChunk_eq (messageId : BitVec 64) {m : BitVec 64} (n : ℕ) {payload : StdString} {i : ℕ}
    (hi : i * m.toNat < payload.bytes.length) (hi' : i < 128) :
    makeChunk messageId m n payload i =
      Gelf.Chunk.datagram
        ⟨idBytes messageId, .ofNat i, .ofNat n, slice payload.bytes m.toNat i⟩ := by
  have hsize := payload.toNat_size
  have hbound := payload.length_lt
  have hoffset : (BitVec.ofNat 64 i * m).toNat = i * m.toNat := by
    rw [BitVec.toNat_mul, BitVec.toNat_ofNat, Nat.mod_eq_of_lt (by omega : i < 2 ^ 64),
      Nat.mod_eq_of_lt (by omega)]
  have hrest : (payload.size - BitVec.ofNat 64 i * m).toNat =
      payload.bytes.length - i * m.toNat := by
    rw [BitVec.toNat_sub_of_le (by bv_omega), hsize, hoffset]
  have htake : (payload.bytes.drop (i * m.toNat)).take
      (min m.toNat (payload.bytes.length - i * m.toNat)) = slice payload.bytes m.toNat i := by
    rw [slice, List.take_eq_take_iff, List.length_drop]
    omega
  rw [makeChunk, hoffset, hrest, htake, Gelf.Chunk.datagram, Gelf.magic]
  simp only [List.append_assoc, List.cons_append, List.nil_append]

theorem makeChunks_of_le (messageId : BitVec 64) {maxChunkSize : BitVec 64} {payload : StdString}
    (h : payload.bytes.length ≤ maxChunkSize.toNat) :
    makeChunks messageId maxChunkSize payload = some [payload.bytes] := by
  have hsize := payload.toNat_size
  rw [makeChunks, if_neg (by bv_omega)]

/-- The chunks of a payload that is cut. -/
theorem makeChunks_of_lt (messageId : BitVec 64) {maxChunkSize : BitVec 64} {payload : StdString}
    (hmin : 13 ≤ maxChunkSize.toNat) (h : maxChunkSize.toNat < payload.bytes.length) :
    makeChunks messageId maxChunkSize payload =
      some ((List.range (chunkCount payload.bytes (maxChunkSize.toNat - 12))).map fun i =>
        Gelf.Chunk.datagram ⟨idBytes messageId, .ofNat i,
          .ofNat (chunkCount payload.bytes (maxChunkSize.toNat - 12)),
          slice payload.bytes (maxChunkSize.toNat - 12) i⟩) := by
  have hsize := payload.toNat_size
  have hm := toNat_payloadPerChunk hmin
  have hzero : maxChunkSize - 12 ≠ 0 := by
    intro heq
    rw [heq] at hm
    have hnat : (0 : BitVec 64).toNat = 0 := rfl
    omega
  have hne : payload.bytes ≠ [] := List.length_pos_iff.mp (by omega)
  have htotal := @toNat_totalChunks (maxChunkSize - 12) (by omega) payload (by omega)
  rw [makeChunks, if_pos (by bv_omega)]
  dsimp only
  rw [if_neg hzero, htotal, hm, ← chunkCount]
  refine congrArg some (List.map_congr_left fun i hi => ?_)
  have hlt := List.mem_range.mp hi
  have hoffset := mul_lt_of_lt_chunkCount hne hlt
  rw [makeChunk_eq messageId _ (by rw [hm]; exact hoffset)
    (Nat.lt_of_lt_of_le hlt (Nat.min_le_right _ _)), hm]

/-! ## Writes -/

/-- Sending the chunks once more adds calls on chunks. -/
theorem sendAll_mem {chunks : List Bytes} {sending sent : UdpClient.Sending}
    {error : Option Bytes} (h : UdpClient.sendAll sending chunks = some (sent, error))
    (hcalls : ∀ call ∈ sending.calls, call.datagram ∈ chunks) :
    (∀ call ∈ sent.calls, call.datagram ∈ chunks) ∧
      (error = none → ∀ chunk ∈ chunks, ⟨chunk, .sent⟩ ∈ sent.calls) := by
  obtain ⟨new, heq, hnew, hsent⟩ := UdpClient.sendAll_calls h
  rw [heq]
  refine ⟨List.forall_mem_append.mpr ⟨hcalls, hnew⟩, fun herror chunk hchunk => ?_⟩
  exact List.mem_append_right _ (hsent herror chunk hchunk)

/-- Each call of `sendto` in the retry loop is on one of the chunks, and the socket has taken
all of them when the loop ends without an exception. -/
theorem retryLoop_calls {chunks : List Bytes} {retriesRemaining : ℕ} {s : GelfUdpSink}
    {network : Network} {calls : List SendtoCall} {attempts : ℕ} {w : GelfWrite}
    (h : retryLoop chunks retriesRemaining s network calls attempts = some w)
    (hcalls : ∀ call ∈ calls, call.datagram ∈ chunks) :
    (∀ call ∈ w.calls, call.datagram ∈ chunks) ∧
      (w.error = none → w.sink.lastErrorMessage = [] ∧
        ∀ chunk ∈ chunks, ⟨chunk, .sent⟩ ∈ w.calls) := by
  induction retriesRemaining generalizing s network calls attempts with
  | zero =>
    rw [retryLoop] at h
    cases hsend : UdpClient.sendAll ⟨s.client, network.sendto, calls⟩ chunks with
    | none =>
      rw [hsend] at h
      cases h
    | some result =>
      obtain ⟨sent, error⟩ := result
      obtain ⟨hmem, hsent⟩ := sendAll_mem hsend hcalls
      rw [hsend] at h
      cases error with
      | none =>
        cases h
        exact ⟨hmem, fun _ => ⟨rfl, hsent rfl⟩⟩
      | some what =>
        cases h
        refine ⟨hmem, ?_⟩
        rintro ⟨⟩
  | succ retriesRemaining ih =>
    rw [retryLoop] at h
    cases hsend : UdpClient.sendAll ⟨s.client, network.sendto, calls⟩ chunks with
    | none =>
      rw [hsend] at h
      cases h
    | some result =>
      obtain ⟨sent, error⟩ := result
      obtain ⟨hmem, hsent⟩ := sendAll_mem hsend hcalls
      rw [hsend] at h
      cases error with
      | none =>
        cases h
        exact ⟨hmem, fun _ => ⟨rfl, hsent rfl⟩⟩
      | some what =>
        dsimp only at h
        cases hconfigure : network.configure with
        | nil =>
          rw [hconfigure] at h
          cases h
        | cons configured rest =>
          rw [hconfigure] at h
          cases configured with
          | ok destination => exact ih h hmem
          | error what' =>
            cases h
            refine ⟨hmem, ?_⟩
            rintro ⟨⟩

/-- When every `sendto` takes its datagram, the loop of a configured sink sends the chunks
once and ends without an exception. -/
theorem retryLoop_of_sent {chunks : List Bytes} (retriesRemaining : ℕ) {s : GelfUdpSink}
    (hconfigured : s.client.destination ≠ []) {network : Network} {answers : List SendtoResult}
    (h : network.sendto = List.replicate chunks.length .sent ++ answers)
    (calls : List SendtoCall) (attempts : ℕ) :
    ∃ w, retryLoop chunks retriesRemaining s network calls attempts = some w ∧ w.error = none ∧
      w.sink.statistics = s.statistics ∧ w.calls = calls ++ chunks.map (⟨·, .sent⟩) := by
  have hsent := UdpClient.sendAll_of_sent
    (s := ⟨s.client, network.sendto, calls⟩) hconfigured answers h
  unfold retryLoop
  rw [hsent]
  exact ⟨_, rfl, rfl, rfl, rfl⟩

theorem writePayload_calls {s : GelfUdpSink} {messageId : BitVec 64} {payload : StdString}
    {network : Network} {w : GelfWrite} (h : s.writePayload messageId payload network = some w) :
    ∃ chunks, makeChunks messageId s.options.maxChunkSize payload = some chunks ∧
      (∀ call ∈ w.calls, call.datagram ∈ chunks) ∧
      (w.error = none → w.sink.lastErrorMessage = [] ∧
        ∀ chunk ∈ chunks, ⟨chunk, .sent⟩ ∈ w.calls) := by
  rw [writePayload] at h
  cases hchunks : makeChunks messageId s.options.maxChunkSize payload with
  | none =>
    rw [hchunks] at h
    cases h
  | some chunks =>
    rw [hchunks] at h
    exact ⟨chunks, rfl, retryLoop_calls h (List.forall_mem_nil _)⟩

/-- When every `sendto` takes its datagram, a configured sink writes any payload. -/
theorem writePayload_of_sent {s : GelfUdpSink} (hconfigured : s.client.destination ≠ [])
    {messageId : BitVec 64} {payload : StdString} {chunks : List Bytes}
    (hchunks : makeChunks messageId s.options.maxChunkSize payload = some chunks)
    (network : Network) {answers : List SendtoResult}
    (h : network.sendto = List.replicate chunks.length .sent ++ answers) :
    ∃ w, s.writePayload messageId payload network = some w ∧ w.error = none ∧
      w.sink.statistics.writeFailures = s.statistics.writeFailures ∧
      w.calls = chunks.map (⟨·, .sent⟩) := by
  rw [writePayload, hchunks]
  dsimp only
  obtain ⟨w, hw, hreturned, hstatistics, hcalls⟩ := @retryLoop_of_sent chunks
    (if s.options.reconnectOnFailure then s.options.maxWriteRetries.toNat else 0)
    { s with
      statistics := { s.statistics with writeAttempts := s.statistics.writeAttempts + 1 } }
    hconfigured network answers h [] 0
  exact ⟨w, hw, hreturned, by rw [hstatistics], hcalls⟩

end GelfUdpSink

end Logspine
