import Logspine.OtlpHttpSink
import Logspine.RetryAccounting
import Logspine.TcpJsonLinesSink

/-!
# The accounts of the sinks over a `tcp_client`

With the default formatter `tcp_json_lines_sink` and `otlp_http_sink` make the text of every
event, and keep the accounts of `RetryAccounting`.
-/

namespace Logspine

open StreamSink

variable {D : Type}

/-- **Retry accounting of both sinks**: attempts, counters and message, in any interleaving of
the threads that write and for any outcomes of `connect` and `::send`. -/
theorem networkSinks_account (fmt : DoubleFormat D) (filter : Option (LogEvent D → Bool))
    (connected : Except ConnectFailure Unit) (s₀ s : State (LogEvent D))
    (as : List (Action (LogEvent D))) :
    (∀ options : TcpJsonLinesSinkOptions, TcpJsonLinesSink.construct options connected = .ok s₀ →
      (TcpJsonLinesSink.machine fmt options ⟨none, filter⟩).run s₀ as = some s →
        Accounts (TcpJsonLinesSink.config fmt options ⟨none, filter⟩) as s) ∧
    ∀ options : OtlpHttpSinkOptions, OtlpHttpSink.construct options connected = .ok s₀ →
      (OtlpHttpSink.machine fmt options ⟨none, filter⟩).run s₀ as = some s →
        Accounts (OtlpHttpSink.config fmt options ⟨none, filter⟩) as s := by
  constructor
  · intro options h₀ hrun
    exact accounts_run (by rintro _ ⟨⟩) (TcpJsonLinesSink.construct_streamSink h₀) hrun
  · intro options h₀ hrun
    exact accounts_run (by rintro _ ⟨⟩) (OtlpHttpSink.construct_streamSink h₀) hrun

/-- A sink that connects when it must and tries twice more. -/
def patientOptions : OtlpHttpSinkOptions :=
  ⟨ascii "127.0.0.1", 4318, ascii "/v1/logs", ascii "app", true, true, 2⟩

/-- The request for `quotesEvent`. -/
def quotesRequest : Bytes :=
  makeHttpPost patientOptions.host patientOptions.path
    (makeOtlpJson halfOrNan quotesEvent patientOptions.serviceName)

/-- Thread 0 gets no connection, twice, and then a `::send` fails on that of thread 1, which
gets one in its second attempt. -/
def refusedCalls : List (Action (LogEvent Bool)) :=
  [.write 0 quotesEvent, .write 1 quotesEvent, .step 0, .connect 0 (.error .connect), .step 0,
    .step 1, .connect 1 (.error .resolve), .step 1,
    .step 0, .connect 0 (.error .connect), .step 0,
    .step 1, .connect 1 (.ok ()), .step 1, .send 1 (.sent quotesRequest.length), .step 1,
    .step 0, .step 0, .step 0, .send 0 .failed, .step 0]

theorem networkSinks_account_refusedCalls :
    (∃ s, (TcpJsonLinesSink.machine halfOrNan TcpJsonLinesSink.retryingOptions ⟨none, none⟩).run
        (.initial .initial []) TcpJsonLinesSink.brokenOffCalls = some s ∧
      Accounts (TcpJsonLinesSink.config halfOrNan TcpJsonLinesSink.retryingOptions ⟨none, none⟩)
        TcpJsonLinesSink.brokenOffCalls s) ∧
    ∃ s, (OtlpHttpSink.machine halfOrNan patientOptions ⟨none, none⟩).run
        (.initial .initial []) refusedCalls = some s ∧
      s.history.thrown.map Call.number = [0] ∧ s.history.returned.map Call.number = [1] ∧
      s.statistics = ⟨2, 4, 3⟩ ∧
      Accounts (OtlpHttpSink.config halfOrNan patientOptions ⟨none, none⟩) refusedCalls s := by
  constructor
  · have hrun : ((TcpJsonLinesSink.machine halfOrNan TcpJsonLinesSink.retryingOptions
          ⟨none, none⟩).run (.initial .initial []) TcpJsonLinesSink.brokenOffCalls).isSome =
        true := by
      decide +kernel
    obtain ⟨s, hs⟩ := Option.isSome_iff_exists.mp hrun
    have h₀ : TcpJsonLinesSink.construct (D := Bool) TcpJsonLinesSink.retryingOptions (.ok ()) =
        .ok (.initial .initial []) := rfl
    exact ⟨s, hs, (networkSinks_account halfOrNan none (.ok ()) _ s _).1 _ h₀ hs⟩
  · have hrun : ((OtlpHttpSink.machine halfOrNan patientOptions ⟨none, none⟩).run
        (.initial .initial []) refusedCalls).map (fun s =>
          (s.history.thrown.map Call.number, s.history.returned.map Call.number, s.statistics)) =
            some ([0], [1], ⟨2, 4, 3⟩) := by
      decide +kernel
    obtain ⟨s, hs, hseen⟩ := Option.map_eq_some_iff.mp hrun
    obtain ⟨hthrown, hseen⟩ := Prod.mk.inj hseen
    obtain ⟨hreturned, hstatistics⟩ := Prod.mk.inj hseen
    have h₀ : OtlpHttpSink.construct (D := Bool) patientOptions (.ok ()) =
        .ok (.initial .initial []) := rfl
    exact ⟨s, hs, hthrown, hreturned, hstatistics,
      (networkSinks_account halfOrNan none (.ok ()) _ s _).2 _ h₀ hs⟩

end Logspine
