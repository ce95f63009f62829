import Logspine.ElasticBulkFileSink
import Logspine.EventTexts
import Logspine.FileSink
import Logspine.NetworkPayloads

/-!
# Line framing

No control byte occurs in what `to_json` writes, so a newline is always the end of a
record, whatever the strings of an event hold.
-/

namespace Logspine

variable {D : Type}

/-! ## Control bytes -/

theorem noControl_quoted (value : Bytes) : NoControl (quoted value) :=
  (stringText_quoted value).noControl

/-- No control byte occurs in `to_json(event)`. -/
theorem LogEvent.noControl_toJson {fmt : DoubleFormat D} (hfmt : fmt.WritesNumbers)
    (event : LogEvent D) : NoControl (event.toJson fmt) :=
  event.toJson_of textClosed_noControl hfmt fun s _ => noControl_quoted s

/-! ## Records -/

/-- The stream of records is split into the records. -/
theorem lines_records {fmt : DoubleFormat D} (hfmt : fmt.WritesNumbers)
    (events : List (LogEvent D)) :
    lines (events.flatMap (toJsonLinesRecord fmt)) = (events.map (LogEvent.toJson fmt), []) :=
  lines_flatMap _ events fun event _ => (event.noControl_toJson hfmt).newline_notMem

/-- A `file_sink` that never rotates streams the records of the events that pass the filter. -/
theorem FileSink.files_writes (zlib : Option Zlib) (fmt : DoubleFormat D)
    (filter : Option (LogEvent D → Bool)) {s : FileSink} (hopen : s.isOpen = true)
    (hformat : s.options.format = .jsonLines) (hnever : s.options.maxFileSize = 0)
    (events : List (LogEvent D)) :
    ((s.writes zlib fmt ⟨none, filter⟩ events).files s.options.path).getD [] =
      (s.files s.options.path).getD [] ++
        (events.filter (SinkBase.shouldLog ⟨none, filter⟩)).flatMap (toJsonLinesRecord fmt) := by
  rw [writes]
  induction events generalizing s with
  | nil => rw [List.foldl_nil, List.filter_nil, List.flatMap_nil, List.append_nil]
  | cons event events ih =>
    rw [List.foldl_cons]
    by_cases hlog : SinkBase.shouldLog ⟨none, filter⟩ event = true
    · have hwrite : (s.write zlib fmt ⟨none, filter⟩ .success event).1 =
          { s with files := s.files.append s.options.path (toJsonLinesRecord fmt event) } := by
        rw [write, if_pos hlog, rotateIfNeeded, mustRotate, if_pos hnever,
          if_neg Bool.false_ne_true]
        dsimp only [record]
        rw [hformat]
        exact congrArg Prod.fst (if_pos hopen)
      rw [hwrite]
      have hrest := @ih { s with
        files := s.files.append s.options.path (toJsonLinesRecord fmt event) } hopen hformat hnever
      dsimp only at hrest
      rw [Files.append_self, Option.getD_some, List.append_assoc] at hrest
      rw [List.filter_cons_of_pos hlog, List.flatMap_cons]
      exact hrest
    · rw [write, if_neg hlog, List.filter_cons_of_neg hlog]
      exact ih hopen hformat hnever

/-- The action line, without its newline. -/
def actionObject (indexName : Bytes) : Bytes :=
  ascii "\x7b\"index\":\x7b\"_index\":" ++ quoted indexName ++ ascii "\x7d\x7d"

theorem makeActionLine_eq (indexName : Bytes) :
    makeActionLine indexName = actionObject indexName ++ [newline] := by
  have hopen : ascii "\x7b\"index\":\x7b\"_index\":\"" =
      ascii "\x7b\"index\":\x7b\"_index\":" ++ ['"'.byte] := by decide
  have hclose : ascii "\"\x7d\x7d\n" = '"'.byte :: ascii "\x7d\x7d" ++ [newline] := by decide
  rw [makeActionLine, appendJsonEscaped_eq, actionObject, quoted, hopen, hclose]
  simp only [List.append_assoc, List.cons_append, List.nil_append]

theorem noControl_actionObject (indexName : Bytes) : NoControl (actionObject indexName) :=
  .append (.append (by decide) (noControl_quoted indexName)) (by decide)

theorem parse_actionObject (indexName : Bytes) : Json.parse (actionObject indexName) =
    some (.object [(ascii "index", .object [(ascii "_index", .string indexName)])]) := by
  have hindex : Json.StringText (ascii "_index") _ := .plain (by decide)
  have haction : Json.StringText (ascii "index") _ := .plain (by decide)
  have hderives := Json.Derives.singleton haction
    (.singleton hindex (.string (stringText_quoted indexName)))
  have hopen : ascii "\x7b\"index\":\x7b\"_index\":" =
      '{'.byte :: ('"'.byte :: ascii "index" ++ ['"'.byte] ++ ':'.byte ::
        '{'.byte :: ('"'.byte :: ascii "_index" ++ ['"'.byte] ++ [':'.byte])) := by decide
  have hclose : ascii "\x7d\x7d" = ['}'.byte, '}'.byte] := by decide
  rw [← hderives.parse, actionObject, hopen, hclose]
  simp only [List.append_assoc, List.cons_append, List.nil_append]

/-- The stream of pairs, with or without an action line more, is split into the pairs. -/
theorem lines_pairs {fmt : DoubleFormat D} (hfmt : fmt.WritesNumbers) (indexName : Bytes)
    (events : List (LogEvent D)) (half : Bool) :
    lines ((events.flatMap fun event => makeActionLine indexName ++ toJsonLinesRecord fmt event) ++
        if half then makeActionLine indexName else []) =
      ((events.flatMap fun event => [actionObject indexName, event.toJson fmt]) ++
        if half then [actionObject indexName] else [], []) := by
  have hevents : (events.flatMap fun event =>
      makeActionLine indexName ++ toJsonLinesRecord fmt event) =
        (events.flatMap fun event => [actionObject indexName, event.toJson fmt]).flatMap
          fun line => id line ++ [newline] := by
    rw [List.flatMap_assoc]
    refine List.flatMap_congr fun event _ => ?_
    rw [makeActionLine_eq]
    exact congrArg _ (List.append_nil _).symm
  have hhalf : (if half then makeActionLine indexName else []) =
      (if half then [actionObject indexName] else []).flatMap fun line => id line ++ [newline] := by
    cases half with
    | false => rfl
    | true =>
      rw [if_pos rfl, if_pos rfl, makeActionLine_eq]
      exact (List.append_nil _).symm
  have hnewline : ∀ line ∈ (events.flatMap fun event =>
      [actionObject indexName, event.toJson fmt]) ++ if half then [actionObject indexName] else [],
      newline ∉ id line := by
    have haction := (noControl_actionObject indexName).newline_notMem
    intro line hline
    rcases List.mem_append.mp hline with hline | hline
    · obtain ⟨event, -, hmem⟩ := List.mem_flatMap.mp hline
      rcases List.mem_cons.mp hmem with rfl | hmem
      · exact haction
      · rw [List.mem_singleton.mp hmem]
        exact (event.noControl_toJson hfmt).newline_notMem
    · cases half with
      | false => cases hline
      | true =>
        rw [List.mem_singleton.mp hline]
        exact haction
  rw [hevents, hhalf, ← List.flatMap_append, lines_flatMap id _ hnewline, List.map_id]

/-- **Line framing.** Split at its newlines, a stream of records is the list of the records:
for `file_sink` and `tcp_json_lines_sink` a line for each event, for `elastic_bulk_file_sink`
an action line and a line for each event. -/
theorem lines_framing {fmt : DoubleFormat D} (hfmt : fmt.WritesNumbers)
    (filter : Option (LogEvent D → Bool)) (options : FileSinkOptions) (zlib : Option Zlib)
    (indexName : Bytes) (events : List (LogEvent D)) :
    let logged := events.filter (SinkBase.shouldLog ⟨none, filter⟩)
    let fileSink := FileSink.construct
      { options with format := .jsonLines, append := false, maxFileSize := 0 } fun _ => none
    let bulkSink : ElasticBulkFileSink := ⟨indexName, []⟩
    lines (logged.flatMap (toJsonLinesRecord fmt)) = (logged.map (LogEvent.toJson fmt), []) ∧
      lines (logged.flatMap (makeTcpJsonLinesPayload fmt)) =
        (logged.map (LogEvent.toJson fmt), []) ∧
      lines (((fileSink.writes zlib fmt ⟨none, filter⟩ events).files options.path).getD []) =
        (logged.map (LogEvent.toJson fmt), []) ∧
      ∃ action, Json.parse action =
          some (.object [(ascii "index", .object [(ascii "_index", .string indexName)])]) ∧
        lines (bulkSink.writes fmt ⟨none, filter⟩ events).stream =
          (logged.flatMap fun event => [action, event.toJson fmt], []) := by
  intro logged fileSink bulkSink
  refine ⟨lines_records hfmt logged, lines_records hfmt logged, ?_, actionObject indexName,
    parse_actionObject indexName, ?_⟩
  · have hfile : ((fileSink.writes zlib fmt ⟨none, filter⟩ events).files options.path).getD [] =
        (fileSink.files options.path).getD [] ++ logged.flatMap (toJsonLinesRecord fmt) :=
      FileSink.files_writes zlib fmt filter (s := fileSink) rfl rfl rfl events
    have hempty : fileSink.files options.path = some [] := Files.truncate_self
    rw [hfile, hempty]
    exact lines_records hfmt logged
  · have hlines := lines_pairs hfmt indexName logged false
    rw [if_neg Bool.false_ne_true, if_neg Bool.false_ne_true, List.append_nil,
      List.append_nil] at hlines
    rw [ElasticBulkFileSink.writes_default]
    exact hlines

theorem lines_framing_quotesEvent :
    lines ([quotesEvent, quotesEvent].flatMap (toJsonLinesRecord halfOrNan)) =
      ([quotesEvent, quotesEvent].map (LogEvent.toJson halfOrNan), []) :=
  (lines_framing halfOrNan_writesNumbers none
    ⟨ascii "a.log", .jsonLines, true, 0, 0, false⟩ none (ascii "\"\n")
    [quotesEvent, quotesEvent]).1

end Logspine
