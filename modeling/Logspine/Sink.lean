import Logspine.JsonEncoding

/-!
# Sinks

What all sinks share: a filter and a formatter, both optional, and the two texts of an
event that a sink without formatter writes.
-/

namespace Logspine

variable {D : Type}

/-- `sink`, the base class -/
structure SinkBase (D : Type) where
  /-- `formatter_`: what `format` leaves in an empty buffer, `none` when it throws -/
  formatter : Option (LogEvent D → Option Bytes)
  /-- `filter_`: its `accept` -/
  filter : Option (LogEvent D → Bool)

/-- `should_log` -/
def SinkBase.shouldLog (sink : SinkBase D) (event : LogEvent D) : Bool :=
  match sink.filter with
  | some accept => accept event
  | none => true

/-- An exception that leaves the `write` of a network sink. -/
inductive SinkException where
  /-- thrown while the payload was made, before the lock was taken -/
  | payload : SinkException
  /-- the `std::runtime_error` of a client -/
  | network (what : Bytes) : SinkException
  deriving DecidableEq

/-- `network_sink_statistics` -/
structure NetworkSinkStatistics where
  writeAttempts : ℕ
  writeFailures : ℕ
  reconnectAttempts : ℕ
  deriving DecidableEq

/-- `sink_format` -/
inductive SinkFormat where
  | human : SinkFormat
  | jsonLines : SinkFormat
  deriving DecidableEq

/-- `to_json_lines_record` -/
def toJsonLinesRecord (fmt : DoubleFormat D) (event : LogEvent D) : Bytes :=
  event.toJson fmt ++ [newline]

/-- A field value in `format_human_readable`: strings as they are. -/
def FieldValue.humanReadable (fmt : DoubleFormat D) : FieldValue D → Bytes
  | string value => value
  | value => appendFieldValueJson fmt value []

/-- `format_human_readable` -/
def formatHumanReadable (fmt : DoubleFormat D) (event : LogEvent D) : Bytes :=
  event.fields.foldl (fun output entry =>
      output ++ [' '.byte] ++ entry.key ++ ['='.byte] ++ entry.value.humanReadable fmt)
    (formatTimestamp event.timestamp ++ [' '.byte] ++ event.severity.toString ++ [' '.byte] ++
      event.loggerName ++ [' '.byte] ++ event.message)

end Logspine
