import Logspine.CriticalSection
import Logspine.LineFraming

/-!
# `console_sink`, shared by threads

A `write` picks its stream by the severity of the event and inserts the text of the event, in one
piece or, in the human-readable format, with its newline as a second one. The pieces of one call
stay together, since `mutex_` is held around them, so that each stream is read line by line: in
the format of JSON lines always, in the human-readable one if and only if no text of an event
brings a newline of its own (`console_lines`).
-/

namespace Logspine

variable {D : Type}

/-! ## Human-readable texts -/

/-- The texts that `format_human_readable` takes over from the event as they are. -/
def LogEvent.rawTexts (event : LogEvent D) : List Bytes :=
  [event.loggerName, event.message] ++ event.fields.flatMap Field.strings

/-- `key=value`, behind a blank -/
def Field.humanReadable (fmt : DoubleFormat D) (entry : Field D) : Bytes :=
  [' '.byte] ++ entry.key ++ ['='.byte] ++ entry.value.humanReadable fmt

theorem formatHumanReadable_eq (fmt : DoubleFormat D) (event : LogEvent D) :
    formatHumanReadable fmt event =
      formatTimestamp event.timestamp ++ [' '.byte] ++ event.severity.toString ++ [' '.byte] ++
        event.loggerName ++ [' '.byte] ++ event.message ++
        event.fields.flatMap (Field.humanReadable fmt) := by
  rw [formatHumanReadable]
  generalize formatTimestamp event.timestamp ++ [' '.byte] ++ event.severity.toString ++
    [' '.byte] ++ event.loggerName ++ [' '.byte] ++ event.message = output
  induction event.fields generalizing output with
  | nil => exact (List.append_nil _).symm
  | cons entry entries ih =>
    rw [List.foldl_cons, ih, List.flatMap_cons, Field.humanReadable]
    simp only [List.append_assoc]

/-- Only strings bring newlines. -/
theorem FieldValue.newline_mem_humanReadable {fmt : DoubleFormat D} (hfmt : fmt.WritesNumbers)
    (value : FieldValue D) :
    newline ∈ value.humanReadable fmt ↔ ∃ text ∈ value.strings, newline ∈ text := by
  have hplain : ∀ value : FieldValue D, value.strings = [] →
      newline ∉ appendFieldValueJson fmt value [] := fun value hvalue => by
    refine NoControl.newline_notMem (value.toJson_of textClosed_noControl hfmt fun s hs => ?_)
    rw [hvalue] at hs
    cases hs
  cases value with
  | string value =>
    rw [FieldValue.humanReadable, FieldValue.strings]
    simp only [List.mem_singleton, exists_eq_left]
  | _ =>
    refine iff_of_false ?_ ?_
    · dsimp only [FieldValue.humanReadable]
      exact hplain _ rfl
    · rintro ⟨text, htext, -⟩
      cases htext

theorem Field.newline_mem_humanReadable {fmt : DoubleFormat D} (hfmt : fmt.WritesNumbers)
    (entry : Field D) :
    newline ∈ entry.humanReadable fmt ↔ ∃ text ∈ entry.strings, newline ∈ text := by
  have hblank : newline ∉ [' '.byte] := by decide
  have hequals : newline ∉ ['='.byte] := by decide
  rw [Field.humanReadable, List.mem_append, List.mem_append, List.mem_append,
    entry.value.newline_mem_humanReadable hfmt, or_iff_right hblank, or_iff_left hequals,
    Field.strings, List.exists_mem_cons_iff]

/-- A newline in the human-readable text of an event comes from one of its own texts. -/
theorem LogEvent.newline_mem_humanReadable {fmt : DoubleFormat D} (hfmt : fmt.WritesNumbers)
    (event : LogEvent D) :
    newline ∈ formatHumanReadable fmt event ↔ ∃ text ∈ event.rawTexts, newline ∈ text := by
  have hblank : newline ∉ [' '.byte] := by decide
  have htimestamp := (asciiText_formatTimestamp event.timestamp).noControl.newline_notMem
  have hseverity := (asciiText_toString event.severity).noControl.newline_notMem
  have hfields : newline ∈ event.fields.flatMap (Field.humanReadable fmt) ↔
      ∃ text ∈ event.fields.flatMap Field.strings, newline ∈ text := by
    rw [List.mem_flatMap]
    constructor
    · rintro ⟨entry, hentry, hmem⟩
      obtain ⟨text, htext, hnewline⟩ := (entry.newline_mem_humanReadable hfmt).mp hmem
      exact ⟨text, List.mem_flatMap.mpr ⟨entry, hentry, htext⟩, hnewline⟩
    · rintro ⟨text, htext, hnewline⟩
      obtain ⟨entry, hentry, hmem⟩ := List.mem_flatMap.mp htext
      exact ⟨entry, hentry, (entry.newline_mem_humanReadable hfmt).mpr ⟨text, hmem, hnewline⟩⟩
  rw [formatHumanReadable_eq]
  simp only [List.mem_append, hblank, htimestamp, hseverity, hfields, false_or, or_false,
    LogEvent.rawTexts, List.cons_append, List.nil_append, List.exists_mem_cons_iff, or_assoc]

namespace ConsoleSink

open Guarded

/-- `console_sink_options` -/
structure Options where
  format : SinkFormat := .human
  useStderrForWarnings : Bool := true

/-- The stream that `select_stream` gives. -/
inductive Stream where
  | cout : Stream
  | cerr : Stream
  deriving DecidableEq

/-- What has been inserted into `std::cout` and `std::cerr`. -/
structure Terminal where
  cout : Bytes
  cerr : Bytes

/-- The text of a stream. -/
def Terminal.text (terminal : Terminal) : Stream → Bytes
  | .cout => terminal.cout
  | .cerr => terminal.cerr

/-- `stream << text` -/
def Terminal.insert (stream : Stream) (text : Bytes) (terminal : Terminal) : Terminal :=
  match stream with
  | .cout => { terminal with cout := terminal.cout ++ text }
  | .cerr => { terminal with cerr := terminal.cerr ++ text }

/-- `select_stream` -/
def selectStream (options : Options) (severity : Level) : Stream :=
  if options.useStderrForWarnings ∧ Level.warn.index ≤ severity.index ∧ severity ≠ .off then .cerr
  else .cout

/-- A call on a `console_sink`. -/
inductive Call (D : Type) where
  | write (event : LogEvent D) : Call D
  | flush : Call D

/-- What a `write` inserts, piece by piece; nothing when the formatter throws. -/
def pieces (fmt : DoubleFormat D) (options : Options) (base : SinkBase D) (event : LogEvent D) :
    List Bytes :=
  match base.formatter with
  | some formatter => (formatter event).toList
  | none =>
    match options.format with
    | .jsonLines => [toJsonLinesRecord fmt event]
    | .human => [formatHumanReadable fmt event, [newline]]

/-- `console_sink`: `write` tests its filter before it takes the lock. A flush inserts nothing.
A call answers whether it returns. -/
def guarded (fmt : DoubleFormat D) (options : Options) (base : SinkBase D) :
    Guarded Terminal (Call D) Bool where
  enters
    | .write event => base.shouldLog event
    | .flush => true
  body
    | .write event, _ => (pieces fmt options base event).map
        (Terminal.insert (selectStream options event.severity))
    | .flush, _ => []
  answer
    | .write event, _ => base.formatter.all fun formatter => (formatter event).isSome
    | .flush, _ => true

/-! ## One call after another -/

variable {fmt : DoubleFormat D} {options : Options} {base : SinkBase D}

/-- What a call adds to a stream. -/
def Call.added (fmt : DoubleFormat D) (options : Options) (base : SinkBase D) (stream : Stream) :
    Call D → Bytes
  | write event =>
    if selectStream options event.severity = stream then (pieces fmt options base event).flatten
    else []
  | flush => []

theorem text_insert (stream stream' : Stream) (text : Bytes) (terminal : Terminal) :
    (terminal.insert stream text).text stream' =
      terminal.text stream' ++ if stream = stream' then text else [] := by
  cases stream <;> cases stream' <;> first | rfl | exact (List.append_nil _).symm

theorem text_runBody (stream stream' : Stream) (texts : List Bytes) (terminal : Terminal) :
    (runBody terminal (texts.map (Terminal.insert stream))).text stream' =
      terminal.text stream' ++ if stream = stream' then texts.flatten else [] := by
  induction texts generalizing terminal with
  | nil =>
    rw [List.flatten_nil, ite_self, List.append_nil]
    rfl
  | cons text texts ih =>
    rw [List.map_cons, runBody, List.foldl_cons, ← runBody, ih, text_insert, List.append_assoc]
    congr 1
    split <;> rfl

theorem text_perform (stream : Stream) (terminal : Terminal) (call : Call D) :
    ((guarded fmt options base).perform terminal call).text stream =
      terminal.text stream ++ call.added fmt options base stream := by
  cases call with
  | write event => exact text_runBody ..
  | flush => exact (List.append_nil _).symm

theorem text_performs (stream : Stream) (terminal : Terminal) (calls : List (Call D)) :
    ((guarded fmt options base).performs terminal calls).text stream =
      terminal.text stream ++ calls.flatMap (Call.added fmt options base stream) := by
  induction calls generalizing terminal with
  | nil => exact (List.append_nil _).symm
  | cons call calls ih =>
    rw [performs, List.foldl_cons, ← performs, ih, text_perform, List.flatMap_cons,
      List.append_assoc]

/-- The event that a call inserts into the stream. -/
def Call.eventTo (options : Options) (stream : Stream) : Call D → Option (LogEvent D)
  | write event => if selectStream options event.severity = stream then some event else none
  | flush => none

/-- The events that the calls insert into the stream. -/
def eventsTo (options : Options) (stream : Stream) (calls : List (Call D)) : List (LogEvent D) :=
  calls.filterMap (Call.eventTo options stream)

/-- The text of an event without its newline. -/
def lineOf (fmt : DoubleFormat D) (options : Options) (event : LogEvent D) : Bytes :=
  match options.format with
  | .jsonLines => event.toJson fmt
  | .human => formatHumanReadable fmt event

/-- Without a formatter, a stream is the lines of its events. -/
theorem flatMap_added (hformatter : base.formatter = none) (stream : Stream)
    (calls : List (Call D)) :
    calls.flatMap (Call.added fmt options base stream) =
      (eventsTo options stream calls).flatMap
        fun event => lineOf fmt options event ++ [newline] := by
  have hpieces : ∀ event, (pieces fmt options base event).flatten =
      lineOf fmt options event ++ [newline] := by
    intro event
    rw [pieces, hformatter, lineOf]
    cases options.format with
    | jsonLines => exact List.append_nil _
    | human => rfl
  induction calls with
  | nil => rfl
  | cons call calls ih =>
    rw [List.flatMap_cons, ih, eventsTo, eventsTo, List.filterMap_cons]
    cases call with
    | flush => rfl
    | write event =>
      rw [Call.added, Call.eventTo]
      by_cases hstream : selectStream options event.severity = stream
      · rw [if_pos hstream, if_pos hstream, hpieces]
        rfl
      · rw [if_neg hstream, if_neg hstream]
        rfl

/-! ## Every interleaving -/

variable {as : List (Action (Call D))} {s : Guarded.State Terminal (Call D) Bool}

/-- What a `console_sink` without formatter shows while no call is inside its lock. -/
structure Shows (fmt : DoubleFormat D) (options : Options) (base : SinkBase D)
    (as : List (Action (Call D))) (s : Guarded.State Terminal (Call D) Bool) : Prop where
  /-- each stream is the lines of its events, in the order in which they took the lock -/
  text : ∀ stream, s.shared.text stream = (eventsTo options stream (s.entered.map Prod.snd)).flatMap
    fun event => lineOf fmt options event ++ [newline]
  /-- JSON lines are read back -/
  json : options.format = .jsonLines → ∀ stream, lines (s.shared.text stream) =
    ((eventsTo options stream (s.entered.map Prod.snd)).map (LogEvent.toJson fmt), [])
  /-- human-readable lines are read back exactly when no event brings a newline -/
  human : options.format = .human → ∀ stream, lines (s.shared.text stream) =
      ((eventsTo options stream (s.entered.map Prod.snd)).map (formatHumanReadable fmt), []) ↔
    ∀ event ∈ eventsTo options stream (s.entered.map Prod.snd), ∀ text ∈ event.rawTexts,
      newline ∉ text
  /-- a thread that is in no call has written its events that pass the filter, in its order -/
  order : ∀ t, s.threads t = .idle →
    callsOf t s.entered = callsOf t ((guarded fmt options base).begun as)

/-- **The console is read line by line.** Any number of threads write to one `console_sink`
without formatter and flush it. Whenever no call is inside its lock, each of the two streams is
the lines of the events of its severities, in the order in which the calls took the lock. In the
format of JSON lines they are read back from the stream; in the human-readable format they are if
and only if no logger name, message, key or string value of them has a newline. -/
theorem console_lines (hfmt : fmt.WritesNumbers) (hformatter : base.formatter = none)
    (h : (guarded fmt options base).machine.run (.initial ⟨[], []⟩) as = some s)
    (hfree : s.mutex = none) : Shows fmt options base as s := by
  have hserial := serial_run h
  have htext : ∀ stream, s.shared.text stream =
      (eventsTo options stream (s.entered.map Prod.snd)).flatMap
        fun event => lineOf fmt options event ++ [newline] := by
    intro stream
    rw [(hserial.free hfree).1, text_performs, flatMap_added hformatter]
    cases stream <;> rfl
  refine ⟨htext, fun hjson stream => ?_, fun hhuman stream => ?_, fun t ht => ?_⟩
  · have hline : ∀ event : LogEvent D, lineOf fmt options event = event.toJson fmt :=
      fun event => by rw [lineOf, hjson]
    rw [htext]
    simp only [hline]
    exact lines_records hfmt _
  · have hline : ∀ event : LogEvent D, lineOf fmt options event = formatHumanReadable fmt event :=
      fun event => by rw [lineOf, hhuman]
    rw [htext]
    simp only [hline]
    rw [lines_flatMap_iff]
    refine forall₂_congr fun event _ => ?_
    rw [event.newline_mem_humanReadable hfmt]
    exact ⟨fun hno text htext hmem => hno ⟨text, htext, hmem⟩,
      fun hno ⟨text, htext, hmem⟩ => hno text htext hmem⟩
  · have horder := hserial.order t
    rw [ht] at horder
    exact (List.append_nil _).symm.trans horder

/-- Two threads write, one of them to `std::cerr`. -/
def bothStreams : List (Action (Call Bool)) :=
  [.call 0 (.write quotesEvent), .call 1 (.write { quotesEvent with severity := .info }),
    .step 0, .step 0, .step 0, .step 0, .step 1, .step 1, .step 1, .step 1]

theorem console_lines_bothStreams :
    ∃ s, (guarded halfOrNan {} ⟨none, none⟩).machine.run (.initial ⟨[], []⟩) bothStreams = some s ∧
      s.mutex = none ∧ Shows halfOrNan {} ⟨none, none⟩ bothStreams s :=
  ⟨_, rfl, rfl, console_lines halfOrNan_writesNumbers rfl rfl rfl⟩

end ConsoleSink

end Logspine
