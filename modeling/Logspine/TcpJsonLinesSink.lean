import Logspine.LineFraming
import Logspine.StreamFraming

/-!
# `tcp_json_lines_sink`

Whatever the scheduler and the network do, a receiver that reads the newline-terminated lines
of the connections and drops what is left of each gets the record of every write that returned,
once, and nothing else.
-/

namespace Logspine

variable {D : Type}

/-- `tcp_json_lines_sink_options` -/
structure TcpJsonLinesSinkOptions where
  host : Bytes
  port : BitVec 16
  lazyConnect : Bool
  reconnectOnFailure : Bool
  maxWriteRetries : BitVec 32

namespace TcpJsonLinesSink

open StreamSink

/-- The constructor, with what `connect_tcp_socket` returns or throws: the sink, or the
exception. -/
def construct (options : TcpJsonLinesSinkOptions) (connected : Except ConnectFailure Unit) :
    Except Bytes (State (LogEvent D)) :=
  if options.port = 0 then .error (ascii "tcp_json_lines_sink port must be greater than zero")
  else StreamSink.construct options.lazyConnect connected

/-- The bytes that `write` sends for an event, `none` when the formatter throws. -/
def payload (fmt : DoubleFormat D) (sink : SinkBase D) (event : LogEvent D) : Option Bytes :=
  match sink.formatter with
  | some formatter => formatter event
  | none => some (makeTcpJsonLinesPayload fmt event)

/-- What `write` reads of the sink and its options. -/
def config (fmt : DoubleFormat D) (options : TcpJsonLinesSinkOptions) (sink : SinkBase D) :
    Config (LogEvent D) where
  reconnectOnFailure := options.reconnectOnFailure
  maxWriteRetries := options.maxWriteRetries.toNat
  shouldLog := sink.shouldLog
  payload := payload fmt sink

/-- The sink and the threads that call `write`. -/
def machine (fmt : DoubleFormat D) (options : TcpJsonLinesSinkOptions) (sink : SinkBase D) :
    Machine (State (LogEvent D)) (Action (LogEvent D)) :=
  StreamSink.machine (config fmt options sink)

variable {fmt : DoubleFormat D} {options : TcpJsonLinesSinkOptions}
  {filter : Option (LogEvent D → Bool)} {connected : Except ConnectFailure Unit}
  {s₀ s : State (LogEvent D)} {as : List (Action (LogEvent D))}

theorem construct_streamSink (h₀ : construct options connected = .ok s₀) :
    StreamSink.construct options.lazyConnect connected = .ok s₀ := by
  rw [construct] at h₀
  split at h₀
  · cases h₀
  · exact h₀

/-- A record that breaks off has no newline. -/
theorem newline_notMem_of_properPart (hfmt : fmt.WritesNumbers) {event : LogEvent D} {tail : Bytes}
    (hbegin : tail <+: makeTcpJsonLinesPayload fmt event)
    (hne : tail ≠ makeTcpJsonLinesPayload fmt event) : newline ∉ tail := by
  have hpart : tail <+: event.toJson fmt := (List.prefix_concat_iff.mp hbegin).resolve_left hne
  exact fun hm => (event.noControl_toJson hfmt).newline_notMem (hpart.subset hm)

/-- The record of a call is the one of its event. -/
theorem payload_eq (h₀ : construct options connected = .ok s₀)
    (hrun : (machine fmt options ⟨none, filter⟩).run s₀ as = some s) {call : Call (LogEvent D)}
    (hc : call ∈ s.history.calls) : call.payload = makeTcpJsonLinesPayload fmt call.event :=
  (Option.some.inj (payload_run (construct_streamSink h₀) hrun call hc)).symm

/-- The connections hold the records of the events of their calls. -/
theorem records_eq (h₀ : construct options connected = .ok s₀)
    (hrun : (machine fmt options ⟨none, filter⟩).run s₀ as = some s)
    {c : Connection (LogEvent D)} (hc : c ∈ s.connections) :
    c.records = c.completed.flatMap fun call => makeTcpJsonLinesPayload fmt call.event := by
  have hs := framed_run (construct_streamSink h₀) hrun
  refine List.flatMap_congr fun call hcall => payload_eq h₀ hrun ?_
  exact (hs.accounted.completed_or call (List.mem_flatMap.mpr ⟨c, hc, hcall⟩)).1

/-- The lines of a connection are the records of its calls, and what it has of another is no
line. -/
theorem lines_connection (hfmt : fmt.WritesNumbers) (h₀ : construct options connected = .ok s₀)
    (hrun : (machine fmt options ⟨none, filter⟩).run s₀ as = some s)
    {c : Connection (LogEvent D)} (hc : c ∈ s.connections) {tail : Bytes}
    (hbytes : c.bytes = c.records ++ tail) (hpart : ProperPart s.history.calls tail) :
    lines c.bytes = (c.completed.map fun call => call.event.toJson fmt, tail) := by
  have htail : newline ∉ tail := by
    rcases hpart with rfl | ⟨call, hcall, hbegin, hne⟩
    · exact List.not_mem_nil
    · rw [payload_eq h₀ hrun hcall] at hbegin hne
      exact newline_notMem_of_properPart hfmt hbegin hne
  rw [hbytes, records_eq h₀ hrun hc]
  exact lines_flatMap_append (fun call : Call (LogEvent D) => call.event.toJson fmt) c.completed
    (fun call _ => (call.event.noControl_toJson hfmt).newline_notMem) htail

/-- **Framing over reconnects.** Every connection has whole records and at most one proper
part of a record more, which is being sent or followed by nothing for ever; its lines are the
records. A write that returned is complete once, a write that threw nowhere. So, when no write
is in progress, the lines of all connections are the records of the writes that returned. -/
theorem framing_over_reconnects (hfmt : fmt.WritesNumbers)
    (h₀ : construct options connected = .ok s₀)
    (hrun : (machine fmt options ⟨none, filter⟩).run s₀ as = some s) :
    (∀ (i : ℕ) (c : Connection (LogEvent D)), s.connections[i]? = some c → ∃ tail,
      c.bytes = (c.completed.flatMap fun call => makeTcpJsonLinesPayload fmt call.event) ++ tail ∧
      (tail = [] ∨ ∃ call ∈ s.history.calls,
        tail <+: makeTcpJsonLinesPayload fmt call.event ∧
          tail ≠ makeTcpJsonLinesPayload fmt call.event) ∧
      (tail ≠ [] → s.SendsOn i ∨ ∀ bs s', (machine fmt options ⟨none, filter⟩).run s bs = some s' →
        s'.connections[i]? = some c) ∧
      lines c.bytes = (c.completed.map fun call => call.event.toJson fmt, tail)) ∧
    (∀ call ∈ s.history.returned, call ∈ s.completed ∧
      (s.completed.map Call.number).count call.number = 1) ∧
    (∀ call ∈ s.history.thrown, call.number ∉ s.completed.map Call.number) ∧
    ((∀ t, s.threads t = .idle) → (s.connections.flatMap fun c => (lines c.bytes).1).Perm
      (s.history.returned.map fun call => call.event.toJson fmt)) := by
  have hs := framed_run (construct_streamSink h₀) hrun
  refine ⟨fun i c hc => ?_, fun call hc => ?_, fun call hc => ?_, fun hidle => ?_⟩
  · obtain ⟨tail, hbytes, hpart, hlast⟩ := framing (construct_streamSink h₀) hrun hc
    have hmem : c ∈ s.connections := List.mem_of_getElem? hc
    refine ⟨tail, ?_, ?_, hlast, lines_connection hfmt h₀ hrun hmem hbytes hpart⟩
    · rw [hbytes, records_eq h₀ hrun hmem]
    · rcases hpart with hnil | ⟨call, hcall, hpart'⟩
      · exact .inl hnil
      · rw [payload_eq h₀ hrun hcall] at hpart'
        exact .inr ⟨call, hcall, hpart'⟩
  · exact ⟨hs.accounted.returned_completed call hc, hs.accounted.count_returned hc⟩
  · exact hs.accounted.notMem_of_thrown hc
  · have hlines : (s.connections.flatMap fun c => (lines c.bytes).1) =
        s.completed.map fun call => call.event.toJson fmt := by
      rw [State.completed, List.map_flatMap]
      refine List.flatMap_congr fun c hc => ?_
      obtain ⟨i, hi⟩ := List.mem_iff_getElem?.mp hc
      obtain ⟨tail, hbytes, hpart, -⟩ := framing (construct_streamSink h₀) hrun hi
      rw [lines_connection hfmt h₀ hrun hc hbytes hpart]
    rw [hlines]
    exact (hs.accounted.perm_of_idle hidle).map _

/-- A sink that connects when it must and tries once more. -/
def retryingOptions : TcpJsonLinesSinkOptions := ⟨ascii "127.0.0.1", 5000, true, true, 1⟩

/-- The bytes of the record of `quotesEvent`. -/
def quotesRecordLength : ℕ := (makeTcpJsonLinesPayload halfOrNan quotesEvent).length

/-- The record of thread 0 breaks off after 5 bytes; thread 1 writes its own during the
back-off, and thread 0 then writes its record behind it. -/
def brokenOffCalls : List (Action (LogEvent Bool)) :=
  [.write 0 quotesEvent, .step 0, .connect 0 (.ok ()), .step 0, .send 0 (.sent 5),
    .send 0 .interrupted, .send 0 .failed, .step 0,
    .write 1 quotesEvent, .step 1, .connect 1 (.ok ()), .step 1,
    .send 1 (.sent quotesRecordLength), .step 1,
    .step 0, .step 0, .step 0, .send 0 (.sent quotesRecordLength), .step 0]

theorem framing_over_reconnects_brokenOffCalls :
    ∃ s, (machine halfOrNan retryingOptions ⟨none, none⟩).run (.initial .initial [])
        brokenOffCalls = some s ∧
      s.history.returned.map Call.number = [1, 0] ∧
      ∀ call ∈ s.history.returned, (s.completed.map Call.number).count call.number = 1 := by
  have hrun : ((machine halfOrNan retryingOptions ⟨none, none⟩).run (.initial .initial [])
      brokenOffCalls).map (fun s => s.history.returned.map Call.number) = some [1, 0] := by
    decide +kernel
  obtain ⟨s, hs, hreturned⟩ := Option.map_eq_some_iff.mp hrun
  have h₀ : construct (D := Bool) retryingOptions (.ok ()) = .ok (.initial .initial []) := rfl
  refine ⟨s, hs, hreturned, fun call hc => ?_⟩
  exact ((framing_over_reconnects halfOrNan_writesNumbers h₀ hs).2.1 call hc).2

end TcpJsonLinesSink

end Logspine
