import Mathlib.Data.List.TakeDrop
import Logspine.GelfUdpSink

/-!
# What a GELF receiver obtains

The datagrams of a write that returns are those of its chunks, however often sending failed
before. So a receiver obtains the payload, or, of one with more than 128 slices, the first
128 slices.
-/

namespace Logspine

variable {D : Type}

/-- What arrives of a write, in any order and with duplicates: every datagram that the socket
took, and none that it was not given. -/
def GelfWrite.Delivers (w : GelfWrite) (received : List Bytes) : Prop :=
  (∀ d ∈ received, ∃ call ∈ w.calls, call.datagram = d) ∧ ∀ d ∈ w.datagrams, d ∈ received

namespace GelfUdpSink

theorem mem_datagrams {w : GelfWrite} {d : Bytes} (h : ⟨d, .sent⟩ ∈ w.calls) :
    d ∈ w.datagrams :=
  List.mem_map.mpr ⟨⟨d, .sent⟩, List.mem_filter.mpr ⟨h, rfl⟩, rfl⟩

/-- What arrives of a write that returns are its chunks. -/
theorem mem_received_iff {w : GelfWrite} {chunks received : List Bytes}
    (hcalls : ∀ call ∈ w.calls, call.datagram ∈ chunks)
    (hsent : ∀ chunk ∈ chunks, ⟨chunk, .sent⟩ ∈ w.calls) (h : w.Delivers received) (d : Bytes) :
    d ∈ received ↔ d ∈ chunks := by
  constructor
  · intro hd
    obtain ⟨call, hcall, rfl⟩ := h.1 d hd
    exact hcalls call hcall
  · exact fun hd => h.2 d (mem_datagrams (hsent d hd))

theorem length_idBytes (messageId : BitVec 64) : (idBytes messageId).length = 8 := by
  rw [idBytes, List.length_map, List.length_range]

theorem chunkCount_pos {payload : Bytes} {m : ℕ} (hm : 0 < m) (h : payload ≠ []) :
    0 < chunkCount payload m := by
  have hpos : 0 < payload.length := List.length_pos_iff.mpr h
  rw [chunkCount, Nat.lt_min]
  exact ⟨Nat.div_pos (by omega) hm, by decide⟩

theorem chunkCount_lt (payload : Bytes) (m : ℕ) : chunkCount payload m < 256 :=
  Nat.lt_of_le_of_lt (Nat.min_le_right _ _) (by decide)

/-- A payload is cut into chunks, one at least. -/
theorem exists_makeChunks (messageId : BitVec 64) {maxChunkSize : BitVec 64}
    (hmin : 13 ≤ maxChunkSize.toNat) (payload : StdString) :
    ∃ chunks, makeChunks messageId maxChunkSize payload = some chunks ∧ chunks ≠ [] := by
  rcases Nat.lt_or_ge maxChunkSize.toNat payload.bytes.length with hlt | hle
  · refine ⟨_, makeChunks_of_lt messageId hmin hlt, ?_⟩
    have hne : payload.bytes ≠ [] := List.length_pos_iff.mp (by omega)
    have hpos := chunkCount_pos (m := maxChunkSize.toNat - 12) (by omega) hne
    rw [← List.length_pos_iff, List.length_map, List.length_range]
    exact hpos
  · exact ⟨_, makeChunks_of_le messageId hle, List.cons_ne_nil _ _⟩

/-- The chunks of a payload are reassembled to its first 128 slices. -/
theorem reassemble_chunks (messageId : BitVec 64) {payload : Bytes} {m : ℕ} (hm : 0 < m)
    (hne : payload ≠ []) {received : List Bytes}
    (h : ∀ d, d ∈ received ↔ ∃ i < chunkCount payload m, d = Gelf.Chunk.datagram
      ⟨idBytes messageId, .ofNat i, .ofNat (chunkCount payload m), slice payload m i⟩) :
    Gelf.reassemble received = some (payload.take (128 * m)) := by
  rw [Gelf.reassemble_eq (length_idBytes messageId) (chunkCount_pos hm hne)
    (chunkCount_lt payload m) h, flatMap_slice, take_chunkCount hm]

section Returned

variable {s : GelfUdpSink} {messageId : BitVec 64} {payload : StdString} {network : Network}
  {w : GelfWrite}

/-- A payload that fits arrives as itself. -/
theorem received_of_le (hle : payload.bytes.length ≤ s.options.maxChunkSize.toNat)
    (hw : s.writePayload messageId payload network = some w) (hreturned : w.error = none)
    {received : List Bytes} (h : w.Delivers received) :
    received ≠ [] ∧ ∀ d ∈ received, d = payload.bytes := by
  obtain ⟨chunks, hchunks, hcalls, hall⟩ := writePayload_calls hw
  rw [makeChunks_of_le messageId hle] at hchunks
  obtain rfl := Option.some.inj hchunks
  have hiff := mem_received_iff hcalls (hall hreturned).2 h
  refine ⟨List.ne_nil_of_mem ((hiff payload.bytes).mpr List.mem_cons_self), fun d hd => ?_⟩
  exact List.mem_singleton.mp ((hiff d).mp hd)

/-- Of a payload that is cut, the chunks arrive. -/
theorem mem_received_of_lt (hmin : 13 ≤ s.options.maxChunkSize.toNat)
    (hlt : s.options.maxChunkSize.toNat < payload.bytes.length)
    (hw : s.writePayload messageId payload network = some w) (hreturned : w.error = none)
    {received : List Bytes} (h : w.Delivers received) (d : Bytes) :
    d ∈ received ↔ ∃ i < chunkCount payload.bytes (s.options.maxChunkSize.toNat - 12),
      d = Gelf.Chunk.datagram ⟨idBytes messageId, .ofNat i,
        .ofNat (chunkCount payload.bytes (s.options.maxChunkSize.toNat - 12)),
        slice payload.bytes (s.options.maxChunkSize.toNat - 12) i⟩ := by
  obtain ⟨chunks, hchunks, hcalls, hall⟩ := writePayload_calls hw
  rw [makeChunks_of_lt messageId hmin hlt] at hchunks
  obtain rfl := Option.some.inj hchunks
  rw [mem_received_iff hcalls (hall hreturned).2 h, List.mem_map]
  constructor
  · rintro ⟨i, hi, rfl⟩
    exact ⟨i, List.mem_range.mp hi, rfl⟩
  · rintro ⟨i, hi, rfl⟩
    exact ⟨i, List.mem_range.mpr hi, rfl⟩

/-- A payload that is cut is reassembled to its first 128 slices. -/
theorem reassemble_of_lt (hmin : 13 ≤ s.options.maxChunkSize.toNat)
    (hlt : s.options.maxChunkSize.toNat < payload.bytes.length)
    (hw : s.writePayload messageId payload network = some w) (hreturned : w.error = none)
    {received : List Bytes} (h : w.Delivers received) : Gelf.reassemble received =
      some (payload.bytes.take (128 * (s.options.maxChunkSize.toNat - 12))) :=
  reassemble_chunks messageId (by omega) (List.length_pos_iff.mp (by omega))
    (mem_received_of_lt hmin hlt hw hreturned h)

/-- The datagrams that the socket took are one way in which a write arrives. -/
theorem delivers_datagrams (w : GelfWrite) : w.Delivers w.datagrams := by
  refine ⟨fun d hd => ?_, fun d hd => hd⟩
  obtain ⟨call, hcall, rfl⟩ := List.mem_map.mp hd
  exact ⟨call, (List.mem_filter.mp hcall).1, rfl⟩

/-- All calls of a write are one way in which a write that returns arrives. -/
theorem delivers_calls (w : GelfWrite) : w.Delivers (w.calls.map SendtoCall.datagram) := by
  refine ⟨fun d hd => List.mem_map.mp hd, fun d hd => ?_⟩
  obtain ⟨call, hcall, rfl⟩ := List.mem_map.mp hd
  exact List.mem_map_of_mem (List.mem_filter.mp hcall).1

/-- **Chunking is undone by reassembly.** No datagram is too long; a payload that fits is sent
as itself; of another one every datagram is a chunk with the message id, a sequence number
below `n` and the count `n`, all sequence numbers are sent, and what arrives is reassembled to
the first 128 slices. -/
theorem writePayload_reassembles (hmin : 13 ≤ s.options.maxChunkSize.toNat)
    (hw : s.writePayload messageId payload network = some w) (hreturned : w.error = none) :
    let limit := s.options.maxChunkSize.toNat
    (∀ call ∈ w.calls, call.datagram.length ≤ limit) ∧
      (payload.bytes.length ≤ limit →
        payload.bytes ∈ w.datagrams ∧ ∀ call ∈ w.calls, call.datagram = payload.bytes) ∧
      (limit < payload.bytes.length → ∃ n ≤ 128, ∃ part : ℕ → Bytes,
        (∀ i < n, part i ≠ []) ∧
        (∀ call ∈ w.calls, ∃ i < n, call.datagram =
          Gelf.Chunk.datagram ⟨idBytes messageId, .ofNat i, .ofNat n, part i⟩) ∧
        (∀ i < n,
          Gelf.Chunk.datagram ⟨idBytes messageId, .ofNat i, .ofNat n, part i⟩ ∈ w.datagrams) ∧
        (∀ call ∈ w.calls, ∀ call' ∈ w.calls, call.datagram[10]? = call'.datagram[10]? →
          call.datagram = call'.datagram) ∧
        ∀ received, w.Delivers received →
          Gelf.reassemble received = some (payload.bytes.take (128 * (limit - 12)))) := by
  intro limit
  have hcalls := fun call (hcall : call ∈ w.calls) =>
    List.mem_map_of_mem (f := SendtoCall.datagram) hcall
  rcases Nat.lt_or_ge limit payload.bytes.length with hlt | hle
  · have hm : 0 < limit - 12 := by omega
    have hne : payload.bytes ≠ [] := List.length_pos_iff.mp (by omega)
    have hid := length_idBytes messageId
    have hchunk := fun call hcall =>
      (mem_received_of_lt hmin hlt hw hreturned (delivers_calls w) _).mp (hcalls call hcall)
    refine ⟨fun call hcall => ?_, fun hle => absurd hle (Nat.not_le.mpr hlt), fun _ =>
      ⟨chunkCount payload.bytes (limit - 12), Nat.min_le_right _ _,
        slice payload.bytes (limit - 12), fun i hi => ?_, hchunk, fun i hi => ?_, ?_,
        fun received => reassemble_of_lt hmin hlt hw hreturned⟩⟩
    · obtain ⟨i, -, heq⟩ := hchunk call hcall
      rw [heq, Gelf.Chunk.length_datagram hid, slice, List.length_take]
      omega
    · exact slice_ne_nil hm (mul_lt_of_lt_chunkCount hne hi)
    · exact (mem_received_of_lt hmin hlt hw hreturned (delivers_datagrams w) _).mpr ⟨i, hi, rfl⟩
    · intro call hcall call' hcall' hsequence
      obtain ⟨i, hi, heq⟩ := hchunk call hcall
      obtain ⟨j, hj, heq'⟩ := hchunk call' hcall'
      have hcount := chunkCount_lt payload.bytes (limit - 12)
      rw [heq, heq', Gelf.Chunk.datagram_getElem hid, Gelf.Chunk.datagram_getElem hid,
        Option.some.injEq, Gelf.ofNat_inj (Nat.lt_trans hi hcount) (Nat.lt_trans hj hcount)]
        at hsequence
      rw [heq, heq', hsequence]
  · have hsame := fun call hcall =>
      (received_of_le hle hw hreturned (delivers_calls w)).2 _ (hcalls call hcall)
    obtain ⟨hne, htaken⟩ := received_of_le hle hw hreturned (delivers_datagrams w)
    obtain ⟨d, hd⟩ := List.exists_mem_of_ne_nil _ hne
    refine ⟨fun call hcall => ?_, fun _ => ⟨htaken d hd ▸ hd, hsame⟩, fun hlt => ?_⟩
    · rw [hsame call hcall]
      exact hle
    · exact absurd hlt (Nat.not_lt.mpr hle)

/-- What a receiver obtains of a payload that does not begin like a chunk. -/
theorem receive_writePayload (hmin : 13 ≤ s.options.maxChunkSize.toNat)
    (hw : s.writePayload messageId payload network = some w) (hreturned : w.error = none)
    (hmagic : payload.bytes.take 2 ≠ Gelf.magic) {received : List Bytes}
    (h : w.Delivers received) : Gelf.receive received =
      some (if payload.bytes.length ≤ s.options.maxChunkSize.toNat then payload.bytes
        else payload.bytes.take (128 * (s.options.maxChunkSize.toNat - 12))) := by
  split
  case isTrue hle =>
    obtain ⟨hne, hsame⟩ := received_of_le hle hw hreturned h
    exact Gelf.receive_of_eq hne hmagic hsame
  case isFalse hle =>
    have hlt := Nat.lt_of_not_le hle
    have hmem := mem_received_of_lt hmin hlt hw hreturned h
    have hpos : 0 < chunkCount payload.bytes (s.options.maxChunkSize.toNat - 12) :=
      chunkCount_pos (by omega) (List.length_pos_iff.mp (by omega))
    rw [Gelf.receive_of_magic (List.ne_nil_of_mem ((hmem _).mpr ⟨0, hpos, rfl⟩)),
      reassemble_of_lt hmin hlt hw hreturned h]
    intro d hd
    obtain ⟨i, -, rfl⟩ := (hmem d).mp hd
    exact Gelf.Chunk.take_datagram _

end Returned

/-- A sink that cuts payloads into slices of two bytes. -/
def smallSink : GelfUdpSink :=
  ⟨⟨ascii "127.0.0.1", 12201, ascii "h", true, 1, false, 14⟩, ⟨[1]⟩, ⟨0, 0, 0⟩, []⟩

/-- A payload of 15 bytes. -/
def smallPayload : StdString := ⟨ascii "abcdefghijklmno", by decide⟩

/-- The third datagram fails after the second was interrupted; then all is well. -/
def retryNetwork : Network :=
  ⟨[.sent, .interrupted, .sent, .failed] ++ List.replicate 8 .sent, [.ok [1]]⟩

/-- The write of the payload, which sends two chunks twice. -/
def retriedWrite : GelfWrite :=
  (smallSink.writePayload 7 smallPayload retryNetwork).getD ⟨smallSink, ⟨[], []⟩, [], 0, none⟩

theorem writePayload_retriedWrite :
    smallSink.writePayload 7 smallPayload retryNetwork = some retriedWrite := rfl

theorem writePayload_reassembles_retriedWrite :
    retriedWrite.datagrams.length = 10 ∧ ∀ received, retriedWrite.Delivers received →
      Gelf.reassemble received = some (smallPayload.bytes.take (128 * (14 - 12))) := by
  refine ⟨rfl, fun received hreceived => ?_⟩
  obtain ⟨_, -, _, -, -, -, -, h⟩ :=
    (writePayload_reassembles (s := smallSink) (by decide) writePayload_retriedWrite rfl).2.2
      (by decide)
  exact h received hreceived

/-! ## The default payload -/

/-- Without compression, the payload of the default formatter is `make_gelf_payload`. -/
theorem payload_default {zlib : Option Zlib} {fmt : DoubleFormat D} {sec : SecondsFormat D}
    {filter : Option (LogEvent D → Bool)} {s : GelfUdpSink}
    (hcompress : zlib = none ∨ s.options.compress = false) (event : LogEvent D) :
    s.payload zlib fmt sec ⟨none, filter⟩ event =
      some (makeGelfPayload fmt sec event s.options.sourceHost) := by
  cases zlib with
  | none => rfl
  | some zlib =>
    have hoff : s.options.compress = false := hcompress.resolve_left (Option.some_ne_none zlib)
    rw [payload]
    dsimp only [Option.bind_eq_bind, Option.bind_some]
    rw [hoff]
    rfl

/-- A write that returns has written its payload. -/
theorem writePayload_of_write {zlib : Option Zlib} {fmt : DoubleFormat D} {sec : SecondsFormat D}
    {sink : SinkBase D} {s : GelfUdpSink} {messageId : BitVec 64} {network : Network}
    {event : LogEvent D} {w : GelfWrite} (hlog : sink.shouldLog event = true)
    (hw : s.write zlib fmt sec sink messageId network event = some w) (hreturned : w.error = none)
    {text : Bytes} (htext : s.payload zlib fmt sec sink event = some text) :
    ∃ payload : StdString, payload.bytes = text ∧
      s.writePayload messageId payload network = some w := by
  rw [write, if_pos hlog, htext, Option.bind_some] at hw
  by_cases hlt : text.length < 2 ^ 63
  · rw [StdString.ofBytes, dif_pos hlt] at hw
    exact ⟨⟨text, hlt⟩, rfl, hw⟩
  · rw [StdString.ofBytes, dif_neg hlt] at hw
    cases hw
    cases hreturned

/-- When every `sendto` takes its datagram, an event of the default formatter is written, in
datagrams as many as its slices. -/
theorem write_of_sent {fmt : DoubleFormat D} {sec : SecondsFormat D} {s : GelfUdpSink}
    (hmin : 13 ≤ s.options.maxChunkSize.toNat) (hconfigured : s.client.destination ≠ [])
    (messageId : BitVec 64) {event : LogEvent D} {text : Bytes} {n : ℕ}
    (htext : makeGelfPayload fmt sec event s.options.sourceHost = text)
    (hlong : s.options.maxChunkSize.toNat < text.length) (hshort : text.length < 2 ^ 63)
    (hcount : chunkCount text (s.options.maxChunkSize.toNat - 12) = n) :
    ∃ w, s.write none fmt sec ⟨none, none⟩ messageId ⟨List.replicate n .sent, []⟩ event =
        some w ∧
      s.writePayload messageId ⟨text, hshort⟩ ⟨List.replicate n .sent, []⟩ = some w ∧
      w.error = none ∧ w.sink.statistics.writeFailures = s.statistics.writeFailures := by
  have hchunks := @makeChunks_of_lt messageId s.options.maxChunkSize ⟨text, hshort⟩ hmin hlong
  have hanswers : List.replicate n SendtoResult.sent = List.replicate
      ((List.range (chunkCount text (s.options.maxChunkSize.toNat - 12))).map fun i =>
        Gelf.Chunk.datagram ⟨idBytes messageId, .ofNat i,
          .ofNat (chunkCount text (s.options.maxChunkSize.toNat - 12)),
          slice text (s.options.maxChunkSize.toNat - 12) i⟩).length .sent ++ [] := by
    rw [List.length_map, List.length_range, hcount, List.append_nil]
  obtain ⟨w, hw, hreturned, hfailures, -⟩ :=
    writePayload_of_sent hconfigured hchunks ⟨List.replicate n .sent, []⟩ hanswers
  refine ⟨w, ?_, hw, hreturned, hfailures⟩
  have hlog : (⟨none, none⟩ : SinkBase D).shouldLog event = true := rfl
  rw [write, if_pos hlog, payload_default (.inl rfl), Option.bind_some, htext, StdString.ofBytes,
    dif_pos hshort]
  exact hw

/-- The default payload does not begin like a chunk. -/
theorem take_makeGelfPayload {fmt : DoubleFormat D} (hfmt : fmt.WritesNumbers)
    {sec : SecondsFormat D} (hsec : sec.WritesFixed fmt) (event : LogEvent D)
    (sourceHost : Bytes) : (makeGelfPayload fmt sec event sourceHost).take 2 ≠ Gelf.magic := by
  obtain ⟨text, heq, -⟩ := makeGelfPayload_derives hfmt hsec event sourceHost
  intro hmagic
  have hfirst := congrArg List.head? hmagic
  rw [heq, List.head?_take, if_neg (by decide), List.head?_cons] at hfirst
  exact absurd hfirst (by decide)

/-- **What a GELF receiver obtains of an event**: the text of `make_gelf_payload` if it fits
into a datagram, else its first 128 slices. So it is complete exactly when it fits into a
datagram or into 128 slices, and then it is a JSON object. -/
theorem receive_write {fmt : DoubleFormat D} (hfmt : fmt.WritesNumbers) {sec : SecondsFormat D}
    (hsec : sec.WritesFixed fmt) {zlib : Option Zlib} {filter : Option (LogEvent D → Bool)}
    {s : GelfUdpSink} (hmin : 13 ≤ s.options.maxChunkSize.toNat)
    (hcompress : zlib = none ∨ s.options.compress = false) {messageId : BitVec 64}
    {network : Network} {event : LogEvent D} {w : GelfWrite}
    (hlog : SinkBase.shouldLog ⟨none, filter⟩ event = true)
    (hw : s.write zlib fmt sec ⟨none, filter⟩ messageId network event = some w)
    (hreturned : w.error = none) {received : List Bytes} (hreceived : w.Delivers received) :
    let text := makeGelfPayload fmt sec event s.options.sourceHost
    let limit := s.options.maxChunkSize.toNat
    let fits := text.length ≤ limit ∨ text.length ≤ 128 * (limit - 12)
    w.sink.lastErrorMessage = [] ∧
      Gelf.receive received =
        some (if text.length ≤ limit then text else text.take (128 * (limit - 12))) ∧
      (Gelf.receive received = some text ↔ fits) ∧
      (fits → (Gelf.receive received).bind Json.parse =
        some (.object (event.gelfMembers fmt sec s.options.sourceHost))) := by
  intro text limit fits
  obtain ⟨payload, hpayload, hw⟩ :=
    writePayload_of_write hlog hw hreturned (payload_default hcompress event)
  have htext : payload.bytes = text := hpayload
  obtain ⟨_, -, -, hall⟩ := writePayload_calls hw
  have hmagic := take_makeGelfPayload hfmt hsec event s.options.sourceHost
  rw [← hpayload] at hmagic
  have hreceive := receive_writePayload hmin hw hreturned hmagic hreceived
  rw [htext] at hreceive
  have hiff : Gelf.receive received = some text ↔ fits := by
    rw [hreceive, Option.some.injEq]
    split
    case isTrue hle => exact iff_of_true rfl (.inl hle)
    case isFalse hlt =>
      rw [List.take_eq_self_iff]
      exact (or_iff_right hlt).symm
  refine ⟨(hall hreturned).1, hreceive, hiff, fun hfits => ?_⟩
  rw [hiff.mpr hfits]
  obtain ⟨_, heq, hderives⟩ := makeGelfPayload_derives hfmt hsec event s.options.sourceHost
  rw [Option.bind_some, show text = _ from heq]
  exact hderives.parse

/-- An event whose message alone has as many bytes as 128 slices of one byte. -/
def longEvent : LogEvent Bool := { halfSecondEvent with message := List.replicate 128 'a'.byte }

/-- A sink whose slices have one byte. -/
def tightSink : GelfUdpSink :=
  { smallSink with options := { smallSink.options with maxChunkSize := 13 } }

theorem length_longText :
    128 < (makeGelfPayload halfOrNan halfSecond longEvent (ascii "h")).length ∧
      (makeGelfPayload halfOrNan halfSecond longEvent (ascii "h")).length < 2 ^ 63 := by
  decide +kernel

/-- All datagrams of the long event are taken, and its text is not complete. -/
theorem not_complete_longEvent : ∃ w,
    tightSink.write none halfOrNan halfSecond ⟨none, none⟩ 7 ⟨List.replicate 128 .sent, []⟩
        longEvent = some w ∧
      w.error = none ∧ w.sink.statistics.writeFailures = 0 ∧ w.sink.lastErrorMessage = [] ∧
      Gelf.receive w.datagrams ≠
        some (makeGelfPayload halfOrNan halfSecond longEvent (ascii "h")) := by
  obtain ⟨hlong, hshort⟩ := length_longText
  have htext : makeGelfPayload halfOrNan halfSecond longEvent tightSink.options.sourceHost =
    makeGelfPayload halfOrNan halfSecond longEvent (ascii "h") := rfl
  have hmagic := take_makeGelfPayload halfOrNan_writesNumbers halfSecond_writesFixed longEvent
    (ascii "h")
  generalize makeGelfPayload halfOrNan halfSecond longEvent (ascii "h") = text at *
  have hone : tightSink.options.maxChunkSize.toNat - 12 = 1 := rfl
  have hcount : chunkCount text (tightSink.options.maxChunkSize.toNat - 12) = 128 := by
    rw [chunkCount, hone, Nat.div_one]
    omega
  have hcut : tightSink.options.maxChunkSize.toNat < text.length :=
    Nat.lt_trans (by decide) hlong
  obtain ⟨w, hwrite, hw, hreturned, hfailures⟩ :=
    write_of_sent (by decide) (by decide) 7 htext hcut hshort hcount
  obtain ⟨_, -, -, hall⟩ := writePayload_calls hw
  refine ⟨w, hwrite, hreturned, hfailures, (hall hreturned).1, ?_⟩
  rw [receive_writePayload (by decide) hw hreturned hmagic (delivers_datagrams w),
    if_neg (Nat.not_le.mpr hcut), hone, Ne, Option.some.injEq, List.take_eq_self_iff]
  exact Nat.not_le.mpr hlong

theorem length_halfSecondText :
    (makeGelfPayload halfOrNan halfSecond halfSecondEvent (ascii "h")).length = 158 := by
  decide +kernel

/-- The event at the half second, which a sink with slices of two bytes sends in 79 chunks. -/
theorem receive_write_halfSecondEvent : ∃ w,
    smallSink.write none halfOrNan halfSecond ⟨none, none⟩ 7 ⟨List.replicate 79 .sent, []⟩
        halfSecondEvent = some w ∧
      (Gelf.receive w.datagrams).bind Json.parse =
        some (.object (halfSecondEvent.gelfMembers halfOrNan halfSecond (ascii "h"))) := by
  have hlength := length_halfSecondText
  have htext : makeGelfPayload halfOrNan halfSecond halfSecondEvent smallSink.options.sourceHost =
    makeGelfPayload halfOrNan halfSecond halfSecondEvent (ascii "h") := rfl
  generalize makeGelfPayload halfOrNan halfSecond halfSecondEvent (ascii "h") = text at *
  have htwo : smallSink.options.maxChunkSize.toNat - 12 = 2 := rfl
  have hcount : chunkCount text (smallSink.options.maxChunkSize.toNat - 12) = 79 := by
    rw [chunkCount, htwo, hlength]
    rfl
  have hcut : smallSink.options.maxChunkSize.toNat < text.length := by
    rw [hlength]
    decide
  obtain ⟨w, hwrite, -, hreturned, -⟩ := write_of_sent (by decide) (by decide) 7 htext hcut
    (by rw [hlength]; decide) hcount
  have hfits : (makeGelfPayload halfOrNan halfSecond halfSecondEvent
      smallSink.options.sourceHost).length ≤
        128 * (smallSink.options.maxChunkSize.toNat - 12) := by
    rw [htext, hlength]
    decide
  refine ⟨w, hwrite, ?_⟩
  exact (receive_write halfOrNan_writesNumbers halfSecond_writesFixed (by decide) (.inl rfl) rfl
    hwrite hreturned (delivers_datagrams w)).2.2.2 (.inr hfits)

end GelfUdpSink

end Logspine
