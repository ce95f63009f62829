import Logspine.OtlpHttpSink
import Logspine.StreamFraming

/-!
# What a collector reads

`otlp_http_sink` sends its requests on connections that it keeps open and never reads from. A
request that broke off is sent again on a new connection. Whatever the scheduler and the network
do, a collector that reads the requests of each connection by their `Content-Length`, and drops
what is left, gets the document of every write that returned, once, and nothing else.
-/

namespace Logspine

variable {D : Type}

/-- A request is taken off a stream, whatever follows it. -/
theorem readRequest_makeHttpPost {host path : Bytes} (hhost : Http.cr ∉ host)
    (hpath : Http.cr ∉ path) (body rest : Bytes) :
    Http.readRequest (makeHttpPost host path body ++ rest) = some (body, rest) := by
  have hfirst : Http.cr ∉ ascii "POST " ++ path ++ ascii " HTTP/1.1" :=
    List.not_mem_append (List.not_mem_append (by decide) hpath) (by decide)
  have hdigits : Http.cr ∉ natural body.length := by
    intro hmem
    cases isDigit_of_mem_natural hmem
  have hlength : Http.contentLength [Http.headerLine (ascii "Host") host,
      Http.headerLine (ascii "Content-Type") (ascii "application/json"),
      Http.headerLine (ascii "Content-Length") (natural body.length),
      Http.headerLine (ascii "Connection") (ascii "keep-alive")] = some body.length := by
    refine Http.contentLength_eq ?_
    rw [List.filter_cons, Http.isContentLength_headerLine (by decide), List.filter_cons,
      Http.isContentLength_headerLine (by decide), List.filter_cons,
      Http.isContentLength_headerLine (by decide), List.filter_cons,
      Http.isContentLength_headerLine (by decide)]
    rfl
  rw [makeHttpPost_eq, List.append_assoc _ (Http.crlf ++ _) rest, List.append_assoc Http.crlf,
    List.append_assoc Http.crlf]
  refine Http.readRequest_append hfirst ?_ hlength rest
  rintro line hline
  simp only [List.mem_cons, List.not_mem_nil, or_false] at hline
  rcases hline with rfl | rfl | rfl | rfl
  · exact ⟨Http.headerLine_ne_nil _ _, Http.notMem_headerLine (by decide) hhost⟩
  · exact ⟨Http.headerLine_ne_nil _ _, Http.notMem_headerLine (by decide) (by decide)⟩
  · exact ⟨Http.headerLine_ne_nil _ _, Http.notMem_headerLine (by decide) hdigits⟩
  · exact ⟨Http.headerLine_ne_nil _ _, Http.notMem_headerLine (by decide) (by decide)⟩

namespace OtlpHttpSink

open StreamSink

/-- The body of the request for an event. -/
def body (fmt : DoubleFormat D) (options : OtlpHttpSinkOptions) (sink : SinkBase D)
    (event : LogEvent D) : Bytes :=
  match sink.formatter with
  | some formatter => (formatter event).getD []
  | none => makeOtlpJson fmt event options.serviceName

variable {fmt : DoubleFormat D} {options : OtlpHttpSinkOptions} {sink : SinkBase D}
  {connected : Except ConnectFailure Unit} {s₀ s : State (LogEvent D)}
  {as : List (Action (LogEvent D))}

/-- A request is that of its body. -/
theorem eq_makeHttpPost {event : LogEvent D} {request : Bytes}
    (h : httpRequest fmt options sink event = some request) :
    request = makeHttpPost options.host options.path (body fmt options sink event) := by
  rw [httpRequest] at h
  obtain ⟨payload, hpayload, rfl⟩ := Option.map_eq_some_iff.mp h
  rw [body]
  cases hformatter : sink.formatter with
  | none =>
    rw [hformatter] at hpayload
    rw [Option.some.inj hpayload]
  | some formatter =>
    rw [hformatter] at hpayload
    dsimp only at hpayload ⊢
    rw [hpayload, Option.getD_some]

/-- The request of a call is that of its event. -/
theorem payload_eq (h₀ : construct options connected = .ok s₀)
    (hrun : (machine fmt options sink).run s₀ as = some s) {call : Call (LogEvent D)}
    (hc : call ∈ s.history.calls) :
    call.payload = makeHttpPost options.host options.path (body fmt options sink call.event) :=
  eq_makeHttpPost (payload_run (construct_streamSink h₀) hrun call hc)

/-- What a collector reads off a connection. -/
theorem readStream_connection (hhost : Http.cr ∉ options.host) (hpath : Http.cr ∉ options.path)
    (h₀ : construct options connected = .ok s₀)
    (hrun : (machine fmt options sink).run s₀ as = some s) {c : Connection (LogEvent D)}
    (hc : c ∈ s.connections) {tail : Bytes} (hbytes : c.bytes = c.records ++ tail)
    (hpart : ProperPart s.history.calls tail) :
    Http.readStream c.bytes =
      (c.completed.map fun call => body fmt options sink call.event, tail) := by
  have hs := framed_run (construct_streamSink h₀) hrun
  have hrecords : c.records = c.completed.flatMap fun call =>
      makeHttpPost options.host options.path (body fmt options sink call.event) := by
    refine List.flatMap_congr fun call hcall => payload_eq h₀ hrun ?_
    exact (hs.accounted.completed_or call (List.mem_flatMap.mpr ⟨c, hc, hcall⟩)).1
  have htail : Http.readRequest tail = none := by
    rcases hpart with rfl | ⟨call, hcall, hbegin, hne⟩
    · rfl
    · rw [payload_eq h₀ hrun hcall] at hbegin hne
      have hread := readRequest_makeHttpPost hhost hpath (body fmt options sink call.event) []
      rw [List.append_nil] at hread
      exact Http.readRequest_of_prefix hread hbegin hne
  have hread : ∀ (call : Call (LogEvent D)) (rest : Bytes), Http.readRequest
      (makeHttpPost options.host options.path (body fmt options sink call.event) ++ rest) =
        some (body fmt options sink call.event, rest) := fun call rest =>
    readRequest_makeHttpPost hhost hpath (body fmt options sink call.event) rest
  rw [hbytes, hrecords]
  exact Http.readStream_flatMap hread c.completed htail

/-- **Collectors read each request once.** The requests that are whole on a connection are those
of its calls; what is left is a proper part of one more, which is being sent or followed by
nothing for ever. The request of a write that returned is whole once, that of a write that threw
nowhere. So, when no write is in progress, the requests that are read off all connections are
those of the writes that returned; and without a formatter each of them parses to the document
of its event. -/
theorem requests_over_reconnects (hhost : Http.cr ∉ options.host) (hpath : Http.cr ∉ options.path)
    (h₀ : construct options connected = .ok s₀)
    (hrun : (machine fmt options sink).run s₀ as = some s) :
    (∀ (i : ℕ) (c : Connection (LogEvent D)), s.connections[i]? = some c → ∃ tail,
      Http.readStream c.bytes =
        (c.completed.map fun call => body fmt options sink call.event, tail) ∧
      (tail ≠ [] → s.SendsOn i ∨ ∀ bs s', (machine fmt options sink).run s bs = some s' →
        s'.connections[i]? = some c)) ∧
    (∀ call ∈ s.history.returned, (s.completed.map Call.number).count call.number = 1) ∧
    (∀ call ∈ s.history.thrown, call.number ∉ s.completed.map Call.number) ∧
    ((∀ t, s.threads t = .idle) → (s.connections.flatMap fun c => (Http.readStream c.bytes).1).Perm
      (s.history.returned.map fun call => body fmt options sink call.event)) ∧
    (sink.formatter = none → ∀ event, Json.parse (body fmt options sink event) =
      some (event.otlpDocument fmt options.serviceName)) := by
  have hs := framed_run (construct_streamSink h₀) hrun
  refine ⟨fun i c hc => ?_, fun call hc => hs.accounted.count_returned hc,
    fun call hc => hs.accounted.notMem_of_thrown hc, fun hidle => ?_, fun hformatter event => ?_⟩
  · obtain ⟨tail, hbytes, hpart, hlast⟩ := framing (construct_streamSink h₀) hrun hc
    exact ⟨tail, readStream_connection hhost hpath h₀ hrun (List.mem_of_getElem? hc) hbytes hpart,
      hlast⟩
  · have hbodies : (s.connections.flatMap fun c => (Http.readStream c.bytes).1) =
        s.completed.map fun call => body fmt options sink call.event := by
      rw [State.completed, List.map_flatMap]
      refine List.flatMap_congr fun c hc => ?_
      obtain ⟨i, hi⟩ := List.mem_iff_getElem?.mp hc
      obtain ⟨tail, hbytes, hpart, -⟩ := framing (construct_streamSink h₀) hrun hi
      rw [readStream_connection hhost hpath h₀ hrun hc hbytes hpart]
    rw [hbodies]
    exact (hs.accounted.perm_of_idle hidle).map _
  · rw [body, hformatter]
    exact (makeOtlpJson_derives fmt event options.serviceName).parse

/-- A sink that connects when it must and tries once more. -/
def retryingOptions : OtlpHttpSinkOptions :=
  ⟨ascii "127.0.0.1", 4318, ascii "/v1/logs", ascii "checkout", true, true, 1⟩

/-- A formatter that sends no more than the message. -/
def messageSink : SinkBase Bool := ⟨some fun event => some event.message, none⟩

/-- The number of bytes of the request for `quotesEvent`. -/
def quotesRequestLength : ℕ :=
  (makeHttpPost retryingOptions.host retryingOptions.path quotesEvent.message).length

/-- The request of thread 0 breaks off after 40 bytes; thread 1 writes its own during the
back-off, and thread 0 then sends its request behind it. -/
def brokenOffRequests : List (Action (LogEvent Bool)) :=
  [.write 0 quotesEvent, .step 0, .connect 0 (.ok ()), .step 0, .send 0 (.sent 40),
    .send 0 .failed, .step 0,
    .write 1 quotesEvent, .step 1, .connect 1 (.ok ()), .step 1,
    .send 1 (.sent quotesRequestLength), .step 1,
    .step 0, .step 0, .step 0, .send 0 (.sent quotesRequestLength), .step 0]

theorem requests_over_reconnects_brokenOffRequests :
    ∃ s, (machine halfOrNan retryingOptions messageSink).run (.initial .initial [])
        brokenOffRequests = some s ∧
      s.history.returned.map Call.number = [1, 0] ∧
      ∀ call ∈ s.history.returned, (s.completed.map Call.number).count call.number = 1 := by
  have hrun : ((machine halfOrNan retryingOptions messageSink).run (.initial .initial [])
      brokenOffRequests).map (fun s => s.history.returned.map Call.number) = some [1, 0] := by
    decide +kernel
  obtain ⟨s, hs, hreturned⟩ := Option.map_eq_some_iff.mp hrun
  have h₀ : construct (D := Bool) retryingOptions (.ok ()) = .ok (.initial .initial []) := rfl
  exact ⟨s, hs, hreturned, (requests_over_reconnects (by decide) (by decide) h₀ hs).2.1⟩

end OtlpHttpSink

end Logspine
