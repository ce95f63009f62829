import Logspine.CriticalSection
import Logspine.LineFraming

/-!
# `elastic_bulk_file_sink`, shared by threads

A `write` streams its action line and its source line one after the other, with `mutex_` held
around them. So whatever threads write, and whenever the file is read, it is pairs of lines, and
one action line more at most (`bulk_pairs`).
-/

namespace Logspine

variable {D : Type}

namespace ElasticBulkFileSink

open Guarded

/-- A call on a shared `elastic_bulk_file_sink`. -/
inductive SharedCall (D : Type) where
  | write (event : LogEvent D) : SharedCall D
  | flush : SharedCall D

/-- `stream_ << text` -/
def insert (text : Bytes) (s : ElasticBulkFileSink) : ElasticBulkFileSink :=
  { s with stream := s.stream ++ text }

/-- What a `write` inserts, piece by piece; no source line when the formatter throws. -/
def pieces (fmt : DoubleFormat D) (base : SinkBase D) (indexName : Bytes) (event : LogEvent D) :
    List Bytes :=
  makeActionLine indexName :: (Call.sourceLine fmt ⟨base, event⟩).toList

/-- `elastic_bulk_file_sink`: `write` tests its filter before it takes the lock. A flush inserts
nothing. A call answers whether it returns. -/
def guarded (fmt : DoubleFormat D) (base : SinkBase D) :
    Guarded ElasticBulkFileSink (SharedCall D) Bool where
  enters
    | .write event => base.shouldLog event
    | .flush => true
  body
    | .write event, s => (pieces fmt base s.indexName event).map insert
    | .flush, _ => []
  answer
    | .write event, _ => (Call.sourceLine fmt ⟨base, event⟩).isSome
    | .flush, _ => true

/-! ## One call after another -/

variable {fmt : DoubleFormat D} {base : SinkBase D}

theorem runBody_insert (s : ElasticBulkFileSink) (texts : List Bytes) :
    runBody s (texts.map insert) = { s with stream := s.stream ++ texts.flatten } := by
  induction texts generalizing s with
  | nil =>
    rw [List.flatten_nil, List.append_nil]
    rfl
  | cons text texts ih =>
    rw [List.map_cons, runBody, List.foldl_cons, ← runBody, ih, List.flatten_cons, insert,
      List.append_assoc]

/-- With nobody else about, the steps inside the lock are `write`. -/
theorem perform_write (s : ElasticBulkFileSink) {event : LogEvent D}
    (hlog : base.shouldLog event = true) :
    (guarded fmt base).perform s (.write event) = (s.write fmt base event).1 := by
  have hwrite := write_eq fmt s ⟨base, event⟩
  dsimp only at hwrite
  rw [hwrite, if_pos hlog]
  refine (runBody_insert ..).trans ?_
  rw [pieces, List.flatten_cons]
  cases Call.sourceLine fmt ⟨base, event⟩ with
  | none => rfl
  | some line =>
    rw [Option.toList_some, List.flatten_singleton]
    rfl

/-- The event of a call. -/
def SharedCall.event : SharedCall D → Option (LogEvent D)
  | write event => some event
  | flush => none

/-- Without a formatter, the calls stream the pairs of their events. -/
theorem performs_eq (hformatter : base.formatter = none) (s : ElasticBulkFileSink)
    (calls : List (SharedCall D)) :
    (guarded fmt base).performs s calls =
      { s with stream := s.stream ++ (calls.filterMap SharedCall.event).flatMap fun event =>
        makeActionLine s.indexName ++ toJsonLinesRecord fmt event } := by
  induction calls generalizing s with
  | nil =>
    rw [List.filterMap_nil, List.flatMap_nil, List.append_nil]
    rfl
  | cons call calls ih =>
    rw [performs, List.foldl_cons, ← performs, ih]
    cases call with
    | flush => rfl
    | write event =>
      have hperform : (guarded fmt base).perform s (.write event) =
          { s with stream := s.stream ++
            (makeActionLine s.indexName ++ toJsonLinesRecord fmt event) } := by
        refine (runBody_insert ..).trans ?_
        rw [pieces, Call.sourceLine, hformatter, Option.toList_some, List.flatten_cons,
          List.flatten_singleton]
      rw [hperform, List.filterMap_cons, SharedCall.event, List.flatMap_cons, List.append_assoc]

/-! ## Every interleaving -/

variable {as : List (Action (SharedCall D))}
  {s : Guarded.State ElasticBulkFileSink (SharedCall D) Bool} {indexName : Bytes}

/-- What the calls have streamed: all that took the lock, or all but the last of them, which is
that of the thread that holds `mutex_`, with its event still or half to come. -/
def Written (s : Guarded.State ElasticBulkFileSink (SharedCall D) Bool)
    (calls : List (SharedCall D)) (half : Bool) : Prop :=
  (calls = s.entered.map Prod.snd ∧ half = false) ∨
    ∃ t event rest before, s.mutex = some t ∧ s.threads t = .inside (.write event) rest ∧
      s.entered = before ++ [(t, .write event)] ∧ calls = before.map Prod.snd ∧
      rest.length = if half then 1 else 2

theorem Written.of_free {calls : List (SharedCall D)} {half : Bool} (h : Written s calls half)
    (hfree : s.mutex = none) : calls = s.entered.map Prod.snd ∧ half = false := by
  rcases h with h | ⟨t, -, -, -, hheld, -⟩
  · exact h
  · cases hfree.symm.trans hheld

/-- What has been streamed at any moment: the pairs of the calls that took the lock, or of all but
the last of them, and an action line when that one is between its two insertions. -/
theorem stream_eq (hformatter : base.formatter = none)
    (h : (guarded fmt base).machine.run (.initial ⟨indexName, []⟩) as = some s) :
    ∃ calls half, Written s calls half ∧
      s.shared.stream = ((calls.filterMap SharedCall.event).flatMap fun event =>
          makeActionLine indexName ++ toJsonLinesRecord fmt event) ++
        if half then makeActionLine indexName else [] := by
  have hserial := serial_run h
  cases hm : s.mutex with
  | none =>
    refine ⟨s.entered.map Prod.snd, false, .inl ⟨rfl, rfl⟩, ?_⟩
    rw [(hserial.free hm).1, performs_eq hformatter, if_neg Bool.false_ne_true, List.append_nil]
    rfl
  | some t =>
    obtain ⟨c, rest, hpc⟩ := hserial.exists_inside hm
    obtain ⟨before, made, hentered, -, hbody, hshared⟩ := hserial.held t c rest hpc
    rw [performs_eq hformatter] at hbody hshared
    cases c with
    | flush =>
      obtain ⟨rfl, -⟩ := List.append_eq_nil_iff.mp hbody.symm
      refine ⟨s.entered.map Prod.snd, false, .inl ⟨rfl, rfl⟩, ?_⟩
      rw [hshared, hentered, List.map_append, List.filterMap_append, if_neg Bool.false_ne_true,
        List.append_nil]
      exact congrArg (fun events : List (LogEvent D) => events.flatMap _) (List.append_nil _).symm
    | write event =>
      -- what the call has inserted so far
      obtain ⟨inserted, left, hpieces, rfl, hleft⟩ := List.map_eq_append_iff.mp hbody
      rw [pieces, Call.sourceLine, hformatter, Option.toList_some] at hpieces
      have hrest : rest.length = left.length := by rw [← hleft, List.length_map]
      have hlength := congrArg List.length hpieces
      rw [List.length_append] at hlength
      rw [runBody_insert] at hshared
      have hstream : s.shared.stream =
          (((before.map Prod.snd).filterMap SharedCall.event).flatMap fun event =>
            makeActionLine indexName ++ toJsonLinesRecord fmt event) ++ inserted.flatten :=
        congrArg ElasticBulkFileSink.stream hshared
      rcases inserted with _ | ⟨first, _ | ⟨second, more⟩⟩
      · refine ⟨before.map Prod.snd, false, .inr ⟨t, event, rest, before, hm, hpc, hentered, rfl,
          ?_⟩, hstream⟩
        rw [hrest, ← Nat.zero_add left.length]
        exact hlength.symm
      · obtain ⟨rfl, -⟩ := List.cons.inj hpieces
        refine ⟨before.map Prod.snd, true, .inr ⟨t, event, rest, before, hm, hpc, hentered, rfl,
          ?_⟩, hstream.trans ?_⟩
        · rw [hrest, if_pos rfl]
          exact (Nat.add_left_cancel hlength).symm
        · rw [List.flatten_singleton, if_pos rfl]
      · obtain ⟨rfl, hsource⟩ := List.cons.inj hpieces
        obtain ⟨rfl, hmore⟩ := List.cons.inj hsource
        obtain ⟨rfl, -⟩ := List.append_eq_nil_iff.mp hmore.symm
        refine ⟨s.entered.map Prod.snd, false, .inl ⟨rfl, rfl⟩, hstream.trans ?_⟩
        rw [hentered, List.map_append, List.filterMap_append, List.flatMap_append,
          if_neg Bool.false_ne_true, List.append_nil, List.flatten_cons, List.flatten_singleton]
        exact congrArg (List.append _) (List.append_nil _).symm

/-- **A bulk file is pairs of lines.** Any number of threads write to one `elastic_bulk_file_sink`
without formatter and flush it. At every moment, what it has streamed is read line by line as an
action line and a source line for each event, in the order in which the calls took the lock. Only
the event of the thread that holds `mutex_` may be missing, and only between the two insertions of
its call there is one action line more. A thread that is in no call has streamed its events that
pass the filter, in its order. -/
theorem bulk_pairs (hfmt : fmt.WritesNumbers) (hformatter : base.formatter = none)
    (h : (guarded fmt base).machine.run (.initial ⟨indexName, []⟩) as = some s) :
    ∃ action, Json.parse action =
        some (.object [(ascii "index", .object [(ascii "_index", .string indexName)])]) ∧
      (∃ calls half, Written s calls half ∧
        lines s.shared.stream = (((calls.filterMap SharedCall.event).flatMap fun event =>
          [action, event.toJson fmt]) ++ if half then [action] else [], []) ∧
        (s.mutex = none → calls = s.entered.map Prod.snd ∧ half = false)) ∧
      ∀ t, s.threads t = .idle → callsOf t s.entered = callsOf t ((guarded fmt base).begun as) := by
  obtain ⟨calls, half, hwritten, hstream⟩ := stream_eq hformatter h
  refine ⟨actionObject indexName, parse_actionObject indexName,
    ⟨calls, half, hwritten, ?_, hwritten.of_free⟩, fun t ht => ?_⟩
  · rw [hstream]
    exact lines_pairs hfmt indexName _ half
  · have horder := (serial_run h).order t
    rw [ht] at horder
    exact (List.append_nil _).symm.trans horder

/-- Two threads write, and the file is read while the second is between its two lines. -/
def halfPair : List (Action (SharedCall Bool)) :=
  [.call 0 (.write quotesEvent), .call 1 (.write quotesEvent),
    .step 0, .step 0, .step 0, .step 0, .step 1, .step 1]

theorem bulk_pairs_halfPair :
    ∃ s, (guarded halfOrNan ⟨none, none⟩).machine.run (.initial ⟨ascii "logs", []⟩) halfPair =
        some s ∧ s.mutex = some 1 ∧
      ∃ action, Json.parse action =
          some (.object [(ascii "index", .object [(ascii "_index", .string (ascii "logs"))])]) ∧
        ∃ calls half, Written s calls half ∧
          lines s.shared.stream = (((calls.filterMap SharedCall.event).flatMap fun event =>
            [action, event.toJson halfOrNan]) ++ if half then [action] else [], []) := by
  refine ⟨_, rfl, rfl, ?_⟩
  obtain ⟨action, hparse, ⟨calls, half, hwritten, hlines, -⟩, -⟩ :=
    @bulk_pairs Bool halfOrNan ⟨none, none⟩ halfPair _ (ascii "logs") halfOrNan_writesNumbers rfl
      rfl
  exact ⟨action, hparse, calls, half, hwritten, hlines⟩

end ElasticBulkFileSink

end Logspine
