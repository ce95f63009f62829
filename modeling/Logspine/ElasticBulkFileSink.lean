import Logspine.Sink

/-!
# `elastic_bulk_file_sink`

An action line and a source line for each event. The action line is streamed before the
formatter is called: one that throws leaves it without a source line (`wholePairs_iff`).
-/

namespace Logspine

variable {D : Type}

/-- `make_action_line` -/
def makeActionLine (indexName : Bytes) : Bytes :=
  appendJsonEscaped indexName (ascii "\x7b\"index\":\x7b\"_index\":\"") ++
    ascii "\"\x7d\x7d\n"

/-- `elastic_bulk_file_sink` and what it has streamed. -/
structure ElasticBulkFileSink where
  /-- `options_.index_name` -/
  indexName : Bytes
  stream : Bytes

namespace ElasticBulkFileSink

/-- `write`, and whether it returns. -/
def write (fmt : DoubleFormat D) (sink : SinkBase D) (event : LogEvent D)
    (s : ElasticBulkFileSink) : ElasticBulkFileSink × Bool :=
  if sink.shouldLog event then
    let stream := s.stream ++ makeActionLine s.indexName
    match sink.formatter with
    | some formatter =>
      match formatter event with
      | some buffer => ({ s with stream := stream ++ buffer }, true)
      | none => ({ s with stream := stream }, false)
    | none => ({ s with stream := stream ++ toJsonLinesRecord fmt event }, true)
  else (s, true)

/-- Write events. -/
def writes (fmt : DoubleFormat D) (sink : SinkBase D) (s : ElasticBulkFileSink)
    (events : List (LogEvent D)) : ElasticBulkFileSink :=
  events.foldl (fun s event => (s.write fmt sink event).1) s

/-- Without a formatter, each event that passes the filter is streamed with its action line. -/
theorem writes_default (fmt : DoubleFormat D) (filter : Option (LogEvent D → Bool))
    (s : ElasticBulkFileSink) (events : List (LogEvent D)) :
    s.writes fmt ⟨none, filter⟩ events =
      { s with
        stream := s.stream ++ (events.filter (SinkBase.shouldLog ⟨none, filter⟩)).flatMap
          (fun event => makeActionLine s.indexName ++ toJsonLinesRecord fmt event) } := by
  rw [writes]
  induction events generalizing s with
  | nil => rw [List.foldl_nil, List.filter_nil, List.flatMap_nil, List.append_nil]
  | cons event events ih =>
    rw [List.foldl_cons, ih]
    by_cases hlog : SinkBase.shouldLog ⟨none, filter⟩ event = true
    · rw [List.filter_cons_of_pos hlog, List.flatMap_cons, write, if_pos hlog, List.append_assoc]
      dsimp only
      rw [List.append_assoc, List.append_assoc]
    · rw [List.filter_cons_of_neg hlog, write, if_neg hlog]

/-! ## Pairs -/

/-- A call of `write`, with the filter and the formatter that it finds. -/
structure Call (D : Type) where
  sink : SinkBase D
  event : LogEvent D

/-- What follows the action line, `none` when the formatter throws. -/
def Call.sourceLine (fmt : DoubleFormat D) (call : Call D) : Option Bytes :=
  match call.sink.formatter with
  | some formatter => formatter call.event
  | none => some (toJsonLinesRecord fmt call.event)

/-- Make calls. -/
def run (fmt : DoubleFormat D) (s : ElasticBulkFileSink) (calls : List (Call D)) :
    ElasticBulkFileSink :=
  calls.foldl (fun s call => (s.write fmt call.sink call.event).1) s

/-- The pairs of the calls that pass the filter and return, in order. -/
def pairs (fmt : DoubleFormat D) (s : ElasticBulkFileSink) : List (Call D) → Bytes
  | [] => []
  | call :: calls =>
    let (s', returned) := s.write fmt call.sink call.event
    (if call.sink.shouldLog call.event && returned then
      makeActionLine s.indexName ++ (call.sourceLine fmt).getD []
    else []) ++ pairs fmt s' calls

/-- Only whole pairs are streamed: those of the calls that pass the filter and return. -/
def WholePairs (fmt : DoubleFormat D) (s : ElasticBulkFileSink) (calls : List (Call D)) : Prop :=
  (s.run fmt calls).stream = s.stream ++ s.pairs fmt calls

/-- What a call streams, and whether it returns. -/
theorem write_eq (fmt : DoubleFormat D) (s : ElasticBulkFileSink) (call : Call D) :
    s.write fmt call.sink call.event =
      if call.sink.shouldLog call.event then
        ({ s with stream :=
            s.stream ++ (makeActionLine s.indexName ++ (call.sourceLine fmt).getD []) },
          (call.sourceLine fmt).isSome)
      else (s, true) := by
  rw [write, Call.sourceLine]
  split
  case isTrue =>
    cases call.sink.formatter with
    | none =>
      dsimp only
      rw [Option.getD_some, List.append_assoc]
      rfl
    | some formatter =>
      dsimp only
      cases formatter call.event with
      | none =>
        rw [Option.getD_none, List.append_nil]
        rfl
      | some buffer =>
        rw [Option.getD_some, ← List.append_assoc]
        rfl
  case isFalse => rfl

theorem makeActionLine_ne_nil (indexName : Bytes) : makeActionLine indexName ≠ [] := by
  have hclose : ascii "\"\x7d\x7d\n" ≠ [] := by decide
  exact List.append_ne_nil_of_right_ne_nil _ hclose

/-- The calls stream the pairs, and more bytes than those when one of them throws. -/
theorem stream_run (fmt : DoubleFormat D) (s : ElasticBulkFileSink) (calls : List (Call D)) :
    ∃ streamed, (s.run fmt calls).stream = s.stream ++ streamed ∧
      (s.pairs fmt calls).length ≤ streamed.length ∧
      (streamed = s.pairs fmt calls ↔
        ∀ call ∈ calls, call.sink.shouldLog call.event = true → call.sourceLine fmt ≠ none) := by
  induction calls generalizing s with
  | nil =>
    refine ⟨[], (List.append_nil _).symm, Nat.le_refl _, iff_of_true rfl ?_⟩
    exact List.forall_mem_nil _
  | cons call calls ih =>
    rw [run, List.foldl_cons, ← run, pairs, write_eq]
    by_cases hlog : call.sink.shouldLog call.event = true
    · rw [if_pos hlog, hlog]
      dsimp only
      rw [Bool.true_and]
      cases hline : call.sourceLine fmt with
      | some line =>
        obtain ⟨streamed, hstream, hle, hiff⟩ := @ih { s with
          stream := s.stream ++ (makeActionLine s.indexName ++ line) }
        dsimp only [Option.getD_some, Option.isSome_some]
        rw [if_pos rfl]
        refine ⟨makeActionLine s.indexName ++ line ++ streamed, ?_, ?_, ?_⟩
        · rw [hstream]
          exact List.append_assoc _ _ _
        · rw [List.length_append, @List.length_append _ _ streamed]
          exact Nat.add_le_add_left hle _
        · rw [List.append_cancel_left_eq, hiff, List.forall_mem_cons, hline]
          refine (and_iff_right fun _ => ?_).symm
          exact Option.some_ne_none line
      | none =>
        obtain ⟨streamed, hstream, hle, -⟩ := @ih { s with
          stream := s.stream ++ (makeActionLine s.indexName ++ []) }
        have hpos := List.length_pos_iff.mpr (makeActionLine_ne_nil s.indexName)
        dsimp only [Option.getD_none, Option.isSome_none]
        rw [if_neg Bool.false_ne_true, List.nil_append]
        refine ⟨makeActionLine s.indexName ++ streamed, ?_, ?_, ?_⟩
        · rw [hstream]
          dsimp only
          rw [List.append_nil, List.append_assoc]
        · rw [List.length_append]
          exact Nat.le_trans hle (Nat.le_add_left _ _)
        · refine iff_of_false (fun heq => ?_) fun h => h call List.mem_cons_self hlog hline
          have hlength := congrArg List.length heq
          rw [List.length_append] at hlength
          omega
    · obtain ⟨streamed, hstream, hle, hiff⟩ := @ih s
      rw [if_neg hlog, Bool.eq_false_iff.mpr hlog]
      dsimp only
      rw [Bool.false_and, if_neg Bool.false_ne_true, List.nil_append]
      refine ⟨streamed, hstream, hle, ?_⟩
      rw [hiff, List.forall_mem_cons]
      exact (and_iff_right fun h => absurd h hlog).symm

/-- **A bulk file holds only whole pairs exactly when the formatter never throws** on an event
that passes the filter. -/
theorem wholePairs_iff (fmt : DoubleFormat D) (s : ElasticBulkFileSink) (calls : List (Call D)) :
    s.WholePairs fmt calls ↔
      ∀ call ∈ calls, call.sink.shouldLog call.event = true → call.sourceLine fmt ≠ none := by
  obtain ⟨streamed, hstream, -, hiff⟩ := stream_run fmt s calls
  rw [WholePairs, hstream, List.append_cancel_left_eq, hiff]

/-- A formatter that throws at the first of two calls. -/
def throwingCalls : List (Call Bool) :=
  [⟨⟨some fun _ => none, none⟩, quotesEvent⟩,
    ⟨⟨some fun _ => some (ascii "\x7b\x7d\n"), none⟩, quotesEvent⟩]

/-- The next event comes after two action lines. -/
theorem not_wholePairs_throwingCalls :
    ((⟨ascii "logs", []⟩ : ElasticBulkFileSink).run halfOrNan throwingCalls).stream =
        makeActionLine (ascii "logs") ++ makeActionLine (ascii "logs") ++ ascii "\x7b\x7d\n" ∧
      ¬ (⟨ascii "logs", []⟩ : ElasticBulkFileSink).WholePairs halfOrNan throwingCalls := by
  refine ⟨by decide, fun h => ?_⟩
  exact absurd (congrArg List.length h) (by decide)

end ElasticBulkFileSink

end Logspine
