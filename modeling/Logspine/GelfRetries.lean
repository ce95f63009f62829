import Logspine.GelfReassembly

/-!
# Failures of GELF writes

`write` catches what `send` throws, counts it and stores its message. Two things go past
that. `configure_transport` is called outside of the `try`, so that its exceptions leave
`write` before the retries are used up (`givesUp_iff`). And a failing `send` closes the
socket, which only a retry opens again: without retries a sink never recovers
(`recovers_iff`).
-/

namespace Logspine

/-- The network is well: the socket is created, and each of `n` datagrams is taken. -/
structure Network.Succeeds (network : Network) (n : ℕ) : Prop where
  sendto : ∃ answers, network.sendto = List.replicate n .sent ++ answers
  configure : ∃ destination rest, destination ≠ [] ∧ network.configure = .ok destination :: rest

/-- The write returns, and the socket has taken the chunks, each once. -/
def GelfWrite.HandsOver (w : GelfWrite) (chunks : List Bytes) : Prop :=
  w.error = none ∧ w.datagrams = chunks

namespace GelfUdpSink

/-! ## The retry loop -/

/-- `retries_remaining`, when a write begins. -/
def retryBudget (options : GelfUdpSinkOptions) : ℕ :=
  if options.reconnectOnFailure then options.maxWriteRetries.toNat else 0

/-- `configure_transport` returned each time. -/
def AllConfigured (met : List (Except Bytes Bytes)) : Prop :=
  ∀ configured ∈ met, ∃ destination, configured = .ok destination

/-- The ways in which the retry loop ends: what it met of `configure_transport`, and the
attempts and failures that it added. -/
inductive Ends (retriesRemaining : ℕ) (s : GelfUdpSink) (attempts : ℕ)
    (met : List (Except Bytes Bytes)) (w : GelfWrite) : Prop where
  /-- all chunks are sent, after `n` retries -/
  | returned (n : ℕ) (hn : n ≤ retriesRemaining) (hmet : AllConfigured met)
    (herror : w.error = none) (hattempts : w.attempts = attempts + n + 1)
    (hfailures : w.sink.statistics.writeFailures = s.statistics.writeFailures + n)
    (hreconnects : w.sink.statistics.reconnectAttempts = s.statistics.reconnectAttempts + n)
  /-- the last attempt failed, and no retries remain -/
  | gaveUp (hmet : AllConfigured met)
    (herror : w.error = some (.network w.sink.lastErrorMessage))
    (hattempts : w.attempts = attempts + retriesRemaining + 1)
    (hfailures : w.sink.statistics.writeFailures =
      s.statistics.writeFailures + retriesRemaining + 1)
    (hreconnects : w.sink.statistics.reconnectAttempts =
      s.statistics.reconnectAttempts + retriesRemaining)
  /-- `configure_transport` threw, after `n` attempts -/
  | notConfigured (n : ℕ) (hn : n ≤ retriesRemaining) (hmet : ¬ AllConfigured met)
    (herror : w.error ≠ none) (hattempts : w.attempts = attempts + n)
    (hfailures : w.sink.statistics.writeFailures = s.statistics.writeFailures + n)
    (hreconnects : w.sink.statistics.reconnectAttempts = s.statistics.reconnectAttempts + n)

theorem allConfigured_cons_iff {configured : Except Bytes Bytes}
    {met : List (Except Bytes Bytes)} : AllConfigured (configured :: met) ↔
      (∃ destination, configured = .ok destination) ∧ AllConfigured met :=
  List.forall_mem_cons

/-- After a retry with a `configure_transport` that returns, the rest of the loop counts on. -/
theorem Ends.retry {retriesRemaining : ℕ} {s s' : GelfUdpSink} {attempts : ℕ}
    {met : List (Except Bytes Bytes)} {w : GelfWrite}
    (h : Ends retriesRemaining s' (attempts + 1) met w)
    (hfailures : s'.statistics.writeFailures = s.statistics.writeFailures + 1)
    (hreconnects : s'.statistics.reconnectAttempts = s.statistics.reconnectAttempts + 1)
    (destination : Bytes) : Ends (retriesRemaining + 1) s attempts (.ok destination :: met) w := by
  have hcons : AllConfigured (.ok destination :: met) ↔ AllConfigured met :=
    allConfigured_cons_iff.trans (and_iff_right ⟨destination, rfl⟩)
  cases h with
  | returned n hn hmet herror hattempts hfailures' hreconnects' =>
    exact .returned (n + 1) (by omega) (hcons.mpr hmet) herror (by omega) (by omega) (by omega)
  | gaveUp hmet herror hattempts hfailures' hreconnects' =>
    exact .gaveUp (hcons.mpr hmet) herror (by omega) (by omega) (by omega)
  | notConfigured n hn hmet herror hattempts hfailures' hreconnects' =>
    exact .notConfigured (n + 1) (by omega) (fun hall => hmet (hcons.mp hall)) herror (by omega)
      (by omega) (by omega)

/-- The loop ends in one of these ways. -/
theorem retryLoop_ends {chunks : List Bytes} {retriesRemaining : ℕ} {s : GelfUdpSink}
    {network : Network} {calls : List SendtoCall} {attempts : ℕ} {w : GelfWrite}
    (h : retryLoop chunks retriesRemaining s network calls attempts = some w) :
    ∃ met, network.configure = met ++ w.network.configure ∧
      Ends retriesRemaining s attempts met w ∧ w.sink.options = s.options := by
  induction retriesRemaining generalizing s network calls attempts with
  | zero =>
    rw [retryLoop] at h
    split at h
    case h_1 => cases h
    case h_2 sent hsend =>
      cases h
      exact ⟨[], rfl, .returned 0 (Nat.le_refl 0) (List.forall_mem_nil _) rfl rfl rfl rfl, rfl⟩
    case h_3 sent what hsend =>
      cases h
      exact ⟨[], rfl, .gaveUp (List.forall_mem_nil _) rfl rfl rfl rfl, rfl⟩
  | succ retriesRemaining ih =>
    rw [retryLoop] at h
    split at h
    case h_1 => cases h
    case h_2 sent hsend =>
      cases h
      exact ⟨[], rfl, .returned 0 (Nat.zero_le _) (List.forall_mem_nil _) rfl rfl rfl rfl, rfl⟩
    case h_3 sent what hsend =>
      dsimp only at h
      cases hconfigure : network.configure with
      | nil =>
        rw [hconfigure] at h
        cases h
      | cons configured rest =>
        rw [hconfigure] at h
        cases configured with
        | ok destination =>
          obtain ⟨met, hmet, hends, hoptions⟩ := ih h
          exact ⟨.ok destination :: met, congrArg _ hmet, hends.retry rfl rfl destination, hoptions⟩
        | error what' =>
          cases h
          refine ⟨[.error what'], rfl, .notConfigured 1 (by omega) (fun hall => ?_)
            (Option.some_ne_none _) rfl rfl rfl, rfl⟩
          obtain ⟨destination, heq⟩ := hall _ List.mem_cons_self
          cases heq

/-! ## Histories -/

/-- A write of a history: the sink before it, what the network answers, and its end. -/
structure Written where
  before : GelfUdpSink
  network : Network
  write : GelfWrite

/-- What the write met of `configure_transport`: the answers that it used up. -/
def Written.met (w : Written) : List (Except Bytes Bytes) :=
  w.network.configure.take (w.network.configure.length - w.write.network.configure.length)

/-- The write threw. -/
def Written.Threw (w : Written) : Prop := w.write.error ≠ none

instance (w : Written) : Decidable w.Threw := inferInstanceAs (Decidable (_ ≠ _))

/-- The writes that lead from one sink to another, whatever the network answers. -/
inductive History (s : GelfUdpSink) : List Written → GelfUdpSink → Prop where
  | nil : History s [] s
  | write {writes : List Written} {s' : GelfUdpSink} (h : History s writes s')
    {messageId : BitVec 64} {payload : StdString} {network : Network} {w : GelfWrite}
    (hw : s'.writePayload messageId payload network = some w) :
    History s (writes ++ [⟨s', network, w⟩]) w.sink

/-- A write of a history ends in one of the ways of its retry loop. -/
def Written.Ended (w : Written) : Prop :=
  Ends (retryBudget w.before.options) w.before 0 w.met w.write

theorem writePayload_ended {s : GelfUdpSink} {messageId : BitVec 64} {payload : StdString}
    {network : Network} {w : GelfWrite} (h : s.writePayload messageId payload network = some w) :
    Written.Ended ⟨s, network, w⟩ ∧ w.sink.options = s.options := by
  rw [writePayload] at h
  cases hchunks : makeChunks messageId s.options.maxChunkSize payload with
  | none =>
    rw [hchunks] at h
    cases h
  | some chunks =>
    rw [hchunks] at h
    obtain ⟨met, hmet, hends, hoptions⟩ := retryLoop_ends h
    have hused : Written.met ⟨s, network, w⟩ = met := by
      rw [Written.met, hmet, List.length_append, Nat.add_sub_cancel, List.take_left]
    refine ⟨?_, hoptions⟩
    rw [Written.Ended, hused]
    -- counting the attempt of the write is all that comes before the loop
    cases hends with
    | returned n hn hmet herror hattempts hfailures hreconnects =>
      exact .returned n hn hmet herror hattempts hfailures hreconnects
    | gaveUp hmet herror hattempts hfailures hreconnects =>
      exact .gaveUp hmet herror hattempts hfailures hreconnects
    | notConfigured n hn hmet herror hattempts hfailures hreconnects =>
      exact .notConfigured n hn hmet herror hattempts hfailures hreconnects

/-- The options stay, and each write ends in one of the ways of its retry loop. -/
theorem History.ended {s s' : GelfUdpSink} {writes : List Written} (h : History s writes s') :
    s'.options = s.options ∧
      ∀ w ∈ writes, w.Ended ∧ w.before.options = s.options := by
  induction h with
  | nil => exact ⟨rfl, List.forall_mem_nil _⟩
  | write h hw ih =>
    obtain ⟨hoptions, hall⟩ := ih
    obtain ⟨hended, hoptions'⟩ := writePayload_ended hw
    exact ⟨hoptions'.trans hoptions, List.forall_mem_append.mpr
      ⟨hall, List.forall_mem_singleton.mpr ⟨hended, hoptions⟩⟩⟩

/-! ## Giving up -/

/-- A write with a budget of retries gives up only after all of them: when it throws, it has
made each attempt, and each was counted, the last one with the message that escapes. -/
def Written.GivesUp (w : Written) (budget : ℕ) : Prop :=
  ∀ exception, w.write.error = some exception → w.write.attempts = budget + 1 ∧
    w.write.sink.statistics.writeFailures =
      w.before.statistics.writeFailures + w.write.attempts ∧
    exception = .network w.write.sink.lastErrorMessage

theorem Written.Ended.gaveUp_iff {w : Written} (h : w.Ended) :
    w.GivesUp (retryBudget w.before.options) ↔ AllConfigured w.met := by
  cases h with
  | returned n hn hmet herror hattempts hfailures hreconnects =>
    refine iff_of_true (fun exception hexception => ?_) hmet
    rw [herror] at hexception
    cases hexception
  | gaveUp hmet herror hattempts hfailures hreconnects =>
    refine iff_of_true (fun exception hexception => ?_) hmet
    rw [herror] at hexception
    cases hexception
    exact ⟨by omega, by omega, rfl⟩
  | notConfigured n hn hmet herror hattempts hfailures hreconnects =>
    refine iff_of_false (fun h => ?_) hmet
    obtain ⟨exception, hexception⟩ := Option.ne_none_iff_exists'.mp herror
    obtain ⟨hattempts', -⟩ := h exception hexception
    omega

theorem construct_eq {options : GelfUdpSinkOptions} {configured : Except Bytes Bytes}
    {s : GelfUdpSink} {error : Option Bytes} (h : construct options configured = some (s, error)) :
    s.options = options ∧ s.statistics.writeFailures = 0 ∧ s.statistics.reconnectAttempts = 0 := by
  rw [construct] at h
  split at h
  case isTrue => cases h
  case isFalse =>
    cases h
    exact ⟨rfl, rfl, rfl⟩

/-- Failures and retries of a write that meets no failure of `configure_transport`. -/
theorem Written.Ended.failures {w : Written} (h : w.Ended) (hmet : AllConfigured w.met) :
    w.write.sink.statistics.writeFailures + w.before.statistics.reconnectAttempts =
      w.before.statistics.writeFailures + w.write.sink.statistics.reconnectAttempts +
        if w.Threw then 1 else 0 := by
  cases h with
  | returned n hn hmet herror hattempts hfailures hreconnects =>
    rw [if_neg fun hthrew => hthrew herror]
    omega
  | gaveUp hmet herror hattempts hfailures hreconnects =>
    have hthrew : w.Threw := by
      rw [Written.Threw, herror]
      exact Option.some_ne_none _
    rw [if_pos hthrew]
    omega
  | notConfigured n hn hmet' herror hattempts hfailures hreconnects => exact absurd hmet hmet'

/-- The failures of a history are its retries and the writes that threw. -/
theorem History.failures {s s' : GelfUdpSink} {writes : List Written} (h : History s writes s')
    (hmet : ∀ w ∈ writes, AllConfigured w.met) :
    s'.statistics.writeFailures + s.statistics.reconnectAttempts =
      s.statistics.writeFailures + s'.statistics.reconnectAttempts +
        writes.countP fun w => w.Threw := by
  induction h with
  | nil => rw [List.countP_nil, Nat.add_zero]
  | write h hw ih =>
    obtain ⟨hrest, hlast⟩ := List.forall_mem_append.mp hmet
    have hwrite := (writePayload_ended hw).1.failures (hlast _ List.mem_cons_self)
    have hwrites := ih hrest
    rw [List.countP_append, List.countP_singleton]
    simp only [decide_eq_true_eq] at hwrite ⊢
    omega

/-- **A GELF write gives up only after its whole retry budget, and failures are retries and
writes that threw, exactly when `configure_transport` never throws** in a history of writes. -/
theorem givesUp_iff {options : GelfUdpSinkOptions} {configured : Except Bytes Bytes}
    {s : GelfUdpSink} (hconstruct : construct options configured = some (s, none))
    {s' : GelfUdpSink} {writes : List Written} (h : History s writes s') :
    ((∀ w ∈ writes, w.GivesUp (retryBudget options)) ∧
        s'.statistics.writeFailures =
          s'.statistics.reconnectAttempts + writes.countP fun w => w.Threw) ↔
      ∀ w ∈ writes, AllConfigured w.met := by
  obtain ⟨-, hended⟩ := h.ended
  obtain ⟨hoptions, hfailures, hreconnects⟩ := construct_eq hconstruct
  have hiff : ∀ w ∈ writes, w.GivesUp (retryBudget options) ↔ AllConfigured w.met := by
    intro w hw
    obtain ⟨hends, hsame⟩ := hended w hw
    rw [← hoptions, ← hsame]
    exact hends.gaveUp_iff
  constructor
  · rintro ⟨hgivesUp, -⟩ w hw
    exact (hiff w hw).mp (hgivesUp w hw)
  · intro hmet
    refine ⟨fun w hw => (hiff w hw).mpr (hmet w hw), ?_⟩
    have hcounts := h.failures hmet
    omega

/-- A sink with two retries. -/
def retryingSink : GelfUdpSink :=
  ⟨⟨ascii "localhost", 12201, [], true, 2, false, 8192⟩, ⟨[127, 0, 0, 1]⟩, ⟨0, 0, 0⟩, []⟩

/-- The first `sendto` fails, and the name of the host is not resolved any more. -/
def unresolvedNetwork : Network := ⟨[.failed], [.error (ascii "getaddrinfo failed")]⟩

/-- The write ends after one attempt of three, with an exception that is not counted. -/
theorem not_givesUp_unresolvedNetwork :
    construct retryingSink.options (.ok [127, 0, 0, 1]) = some (retryingSink, none) ∧
      ∃ w, retryingSink.writePayload 0 smallPayload unresolvedNetwork = some w ∧
        w.attempts = 1 ∧ w.error = some (.network (ascii "getaddrinfo failed")) ∧
        w.sink.lastErrorMessage = ascii "udp send failed" ∧
        w.sink.statistics = ⟨1, 1, 1⟩ ∧
        ¬ Written.GivesUp ⟨retryingSink, unresolvedNetwork, w⟩ (retryBudget retryingSink.options) ∧
        History retryingSink [⟨retryingSink, unresolvedNetwork, w⟩] w.sink := by
  have hwrite : ∃ w, retryingSink.writePayload 0 smallPayload unresolvedNetwork = some w ∧
      w.attempts = 1 ∧ w.error = some (.network (ascii "getaddrinfo failed")) ∧
      w.sink.lastErrorMessage = ascii "udp send failed" ∧
      w.sink.statistics = ⟨1, 1, 1⟩ := ⟨_, rfl, rfl, rfl, rfl, rfl⟩
  obtain ⟨w, hw, hattempts, herror, hmessage, hstatistics⟩ := hwrite
  refine ⟨rfl, w, hw, hattempts, herror, hmessage, hstatistics, fun h => ?_, .write .nil hw⟩
  obtain ⟨hbudget, -⟩ := h _ herror
  rw [hattempts] at hbudget
  exact absurd hbudget (by decide)

theorem givesUp_iff_retryingSink :
    ∃ w, retryingSink.writePayload 0 smallPayload unresolvedNetwork = some w ∧
      (((∀ v ∈ [(⟨retryingSink, unresolvedNetwork, w⟩ : Written)],
            v.GivesUp (retryBudget retryingSink.options)) ∧
          w.sink.statistics.writeFailures = w.sink.statistics.reconnectAttempts +
            [(⟨retryingSink, unresolvedNetwork, w⟩ : Written)].countP fun v => v.Threw) ↔
        ∀ v ∈ [(⟨retryingSink, unresolvedNetwork, w⟩ : Written)], AllConfigured v.met) := by
  have hwrite : ∃ w, retryingSink.writePayload 0 smallPayload unresolvedNetwork = some w :=
    ⟨_, rfl⟩
  obtain ⟨w, hw⟩ := hwrite
  have hconstruct :
      construct retryingSink.options (.ok [127, 0, 0, 1]) = some (retryingSink, none) := rfl
  exact ⟨w, hw, givesUp_iff hconstruct (.write .nil hw)⟩

/-! ## Recovery -/

/-- The calls of a write that sent its chunks once. -/
theorem datagrams_of_calls {w : GelfWrite} {chunks : List Bytes}
    (h : w.calls = chunks.map (⟨·, .sent⟩)) : w.datagrams = chunks := by
  have hall : ∀ call ∈ w.calls, decide (call.result = .sent) = true := by
    rw [h]
    intro call hcall
    obtain ⟨chunk, -, rfl⟩ := List.mem_map.mp hcall
    rfl
  rw [GelfWrite.datagrams, List.filter_eq_self.mpr hall, h, List.map_map]
  exact List.map_id chunks

/-- A sink without a socket gets one with the first retry, if it has any. -/
theorem writePayload_unconfigured {s : GelfUdpSink} (h : s.client.destination = [])
    {messageId : BitVec 64} {payload : StdString} {chunks : List Bytes} (hne : chunks ≠ [])
    (hchunks : makeChunks messageId s.options.maxChunkSize payload = some chunks)
    {network : Network} (hnetwork : network.Succeeds chunks.length) :
    (∃ w, s.writePayload messageId payload network = some w ∧ w.HandsOver chunks) ↔
      0 < retryBudget s.options := by
  obtain ⟨chunk, rest, rfl⟩ := List.exists_cons_of_ne_nil hne
  obtain ⟨⟨answers, hanswers⟩, destination, configures, hdestination, hconfigure⟩ := hnetwork
  have hsend : UdpClient.sendAll ⟨s.client, network.sendto, []⟩ (chunk :: rest) =
      some (⟨s.client, network.sendto, []⟩, some (ascii "udp socket is not configured")) :=
    UdpClient.sendAll_not_configured h chunk rest
  rw [writePayload, hchunks]
  dsimp only
  rw [← retryBudget]
  cases hbudget : retryBudget s.options with
  | zero =>
    refine iff_of_false ?_ (Nat.lt_irrefl 0)
    rintro ⟨w, hw, hreturned, -⟩
    rw [retryLoop, hsend] at hw
    cases hw
    cases hreturned
  | succ retriesRemaining =>
    refine iff_of_true ?_ (Nat.succ_pos _)
    rw [retryLoop, hsend]
    dsimp only
    rw [hconfigure]
    -- the first attempt sent nothing, and the second one has a socket
    obtain ⟨w, hw, hreturned, -, hcalls⟩ := @retryLoop_of_sent (chunk :: rest) retriesRemaining
      ⟨s.options, ⟨destination⟩, ⟨s.statistics.writeAttempts + 1, s.statistics.writeFailures + 1,
        s.statistics.reconnectAttempts + 1⟩, ascii "udp socket is not configured"⟩
      hdestination ⟨network.sendto, configures⟩ answers hanswers [] 1
    exact ⟨w, hw, hreturned, datagrams_of_calls hcalls⟩

/-- **A sink recovers exactly when it is still configured or has retries**: after a history of
writes, one that meets no failure returns and hands all its datagrams to the socket. -/
theorem recovers_iff {options : GelfUdpSinkOptions} {configured : Except Bytes Bytes}
    {s : GelfUdpSink} (hconstruct : construct options configured = some (s, none))
    (hmin : 13 ≤ options.maxChunkSize.toNat) {s' : GelfUdpSink} {writes : List Written}
    (h : History s writes s') (messageId : BitVec 64) (payload : StdString) :
    ∃ chunks, makeChunks messageId options.maxChunkSize payload = some chunks ∧
      ∀ network : Network, network.Succeeds chunks.length →
        ((∃ w, s'.writePayload messageId payload network = some w ∧ w.HandsOver chunks) ↔
          s'.client.destination ≠ [] ∨ 0 < retryBudget options) := by
  obtain ⟨hoptions, -⟩ := h.ended
  obtain ⟨hconstructed, -⟩ := construct_eq hconstruct
  rw [hconstructed] at hoptions
  obtain ⟨chunks, hchunks, hne⟩ := exists_makeChunks messageId hmin payload
  refine ⟨chunks, hchunks, fun network hnetwork => ?_⟩
  rw [← hoptions] at hchunks ⊢
  by_cases hclosed : s'.client.destination = []
  · rw [writePayload_unconfigured hclosed hne hchunks hnetwork]
    exact (or_iff_right fun hconfigured => hconfigured hclosed).symm
  · refine iff_of_true ?_ (.inl hclosed)
    obtain ⟨answers, hanswers⟩ := hnetwork.sendto
    obtain ⟨w, hw, hreturned, -, hcalls⟩ :=
      writePayload_of_sent hclosed hchunks network hanswers
    exact ⟨w, hw, hreturned, datagrams_of_calls hcalls⟩

/-- A sink without retries. -/
def oneShotSink : GelfUdpSink :=
  { retryingSink with options := { retryingSink.options with reconnectOnFailure := false } }

/-- A network that is well. -/
def workingNetwork : Network := ⟨[.sent], [.ok [127, 0, 0, 1]]⟩

/-- After a `sendto` has failed, the next write throws with the network well again. -/
theorem not_recovers_oneShotSink :
    construct oneShotSink.options (.ok [127, 0, 0, 1]) = some (oneShotSink, none) ∧
      ∃ writes s', History oneShotSink writes s' ∧ workingNetwork.Succeeds 1 ∧
        makeChunks 0 oneShotSink.options.maxChunkSize smallPayload = some [smallPayload.bytes] ∧
        ∃ w, s'.writePayload 0 smallPayload workingNetwork = some w ∧
          w.error = some (.network (ascii "udp socket is not configured")) ∧ w.datagrams = [] := by
  have hfailed : ∃ w, oneShotSink.writePayload 0 smallPayload ⟨[.failed], []⟩ = some w ∧
      ∃ w', w.sink.writePayload 0 smallPayload workingNetwork = some w' ∧
        w'.error = some (.network (ascii "udp socket is not configured")) ∧
        w'.datagrams = [] := ⟨_, rfl, _, rfl, rfl, rfl⟩
  obtain ⟨w, hw, hlater⟩ := hfailed
  refine ⟨rfl, _, _, .write .nil hw, ⟨⟨[], rfl⟩, _, [], ?_, rfl⟩, rfl, hlater⟩
  exact List.cons_ne_nil _ _

/-- No `sendto` succeeds, in an attempt and two retries. -/
def brokenNetwork : Network :=
  ⟨[.failed, .failed, .failed], [.ok [127, 0, 0, 1], .ok [127, 0, 0, 1]]⟩

/-- The socket is closed after a write that used up its retries, and the next write has two. -/
theorem recovers_iff_retryingSink :
    ∃ writes s', History retryingSink writes s' ∧ s'.client.destination = [] ∧
      retryBudget retryingSink.options = 2 ∧
      ∃ chunks, makeChunks 0 8192 smallPayload = some chunks ∧
        ∀ network : Network, network.Succeeds chunks.length →
          ((∃ w, s'.writePayload 0 smallPayload network = some w ∧ w.HandsOver chunks) ↔
            s'.client.destination ≠ [] ∨ 0 < retryBudget retryingSink.options) := by
  have hconstruct :
      construct retryingSink.options (.ok [127, 0, 0, 1]) = some (retryingSink, none) := rfl
  have hfailed : ∃ w, retryingSink.writePayload 0 smallPayload brokenNetwork = some w ∧
      w.sink.client.destination = [] := ⟨_, rfl, rfl⟩
  obtain ⟨w, hw, hclosed⟩ := hfailed
  have hhistory : History retryingSink _ w.sink := .write .nil hw
  exact ⟨_, _, hhistory, hclosed, rfl,
    recovers_iff hconstruct (by decide) hhistory 0 smallPayload⟩

end GelfUdpSink

end Logspine
