import Logspine.Bytes

/-!
# Log events

`log_event` and the texts of its parts: `to_string(level)`, `format_timestamp`,
`format_thread_id`. Strings are byte strings. A `double` is a value of a parameter type
`D`, and `DoubleFormat` is what the standard library makes of it.
-/

namespace Logspine

/-! ## Levels -/

/-- `level` -/
inductive Level where
  | trace : Level
  | debug : Level
  | info : Level
  | warn : Level
  | error : Level
  | fatal : Level
  | off : Level
  deriving DecidableEq

/-- `kLevelNames` -/
def kLevelNames : List Bytes :=
  [ascii "trace", ascii "debug", ascii "info", ascii "warn", ascii "error", ascii "fatal",
    ascii "off"]

/-- The value of the enumerator. -/
def Level.index : Level → ℕ
  | trace => 0
  | debug => 1
  | info => 2
  | warn => 3
  | error => 4
  | fatal => 5
  | off => 6

/-- `to_string(level)` -/
def Level.toString (value : Level) : Bytes :=
  match kLevelNames[value.index]? with
  | some name => name
  | none => ascii "unknown"

/-! ## Fields -/

/-- What the standard library makes of a `double`. -/
structure DoubleFormat (D : Type) where
  /-- `std::isfinite` -/
  isFinite : D → Bool
  /-- `std::to_chars` into 64 bytes, `none` when it reports an error -/
  toChars : D → Option Bytes

/-- `field::value_type` -/
inductive FieldValue (D : Type) where
  /-- `std::nullptr_t` -/
  | null : FieldValue D
  /-- `bool` -/
  | bool (value : Bool) : FieldValue D
  /-- `std::int64_t` -/
  | int64 (value : BitVec 64) : FieldValue D
  /-- `std::uint64_t` -/
  | uint64 (value : BitVec 64) : FieldValue D
  /-- `double` -/
  | double (value : D) : FieldValue D
  /-- `std::string` -/
  | string (value : Bytes) : FieldValue D

/-- `field` -/
structure Field (D : Type) where
  /-- `key()` -/
  key : Bytes
  /-- `value()` -/
  value : FieldValue D

/-! ## Time points -/

/-- `std::tm`, as far as it is read -/
structure Tm where
  /-- years since 1900 -/
  tmYear : ℤ
  /-- months since January -/
  tmMon : ℤ
  /-- day of the month -/
  tmMday : ℤ
  tmHour : ℤ
  tmMin : ℤ
  tmSec : ℤ

/-- `gmtime_r`: the UTC civil time `rawTime` seconds after the epoch, in the proleptic
Gregorian calendar. Years are counted from March, in eras of 400 years. -/
def gmtime (rawTime : ℤ) : Tm :=
  let days := rawTime / 86400 + 719468
  let secondOfDay := rawTime % 86400
  let era := days / 146097
  let dayOfEra := days % 146097
  let yearOfEra :=
    (dayOfEra - dayOfEra / 1460 + dayOfEra / 36524 - dayOfEra / 146096) / 365
  let dayOfYear := dayOfEra - (365 * yearOfEra + yearOfEra / 4 - yearOfEra / 100)
  let monthFromMarch := (5 * dayOfYear + 2) / 153
  let month := if monthFromMarch < 10 then monthFromMarch + 3 else monthFromMarch - 9
  let year := yearOfEra + era * 400 + if month ≤ 2 then 1 else 0
  { tmYear := year - 1900
    tmMon := month - 1
    tmMday := dayOfYear - (153 * monthFromMarch + 2) / 5 + 1
    tmHour := secondOfDay / 3600
    tmMin := secondOfDay % 3600 / 60
    tmSec := secondOfDay % 60 }

/-- `std::format("{:0w}", n)`: zeros between the sign and the digits, up to the width. -/
def zeroPadded (width : ℕ) : ℤ → Bytes
  | .ofNat n => List.replicate (width - (natural n).length) '0'.byte ++ natural n
  | .negSucc n =>
    '-'.byte ::
      (List.replicate (width - 1 - (natural (n + 1)).length) '0'.byte ++ natural (n + 1))

/-- `format_timestamp`, of nanoseconds since the epoch. Both casts round towards zero. -/
def formatTimestamp (timestamp : ℤ) : Bytes :=
  let seconds := timestamp.tdiv 1000000000
  let millis := (timestamp - seconds * 1000000000).tdiv 1000000
  let utcTime := gmtime seconds
  zeroPadded 4 (utcTime.tmYear + 1900) ++ ascii "-" ++ zeroPadded 2 (utcTime.tmMon + 1) ++
    ascii "-" ++ zeroPadded 2 utcTime.tmMday ++ ascii "T" ++ zeroPadded 2 utcTime.tmHour ++
    ascii ":" ++ zeroPadded 2 utcTime.tmMin ++ ascii ":" ++ zeroPadded 2 utcTime.tmSec ++
    ascii "." ++ zeroPadded 3 millis ++ ascii "Z"

example : formatTimestamp 1709210096007000000 = ascii "2024-02-29T12:34:56.007Z" := by decide

/-! ## Events -/

/-- `std::thread::id`, which only ever gets written out. -/
structure ThreadId where
  /-- what `operator<<` writes -/
  text : Bytes

/-- `format_thread_id` -/
def formatThreadId (threadId : ThreadId) : Bytes := threadId.text

/-- `source_location` -/
structure SourceLocation where
  /-- `file_name()` -/
  fileName : Bytes
  /-- `line()` -/
  line : BitVec 32
  /-- `function_name()` -/
  functionName : Bytes

/-- `log_event` -/
structure LogEvent (D : Type) where
  severity : Level
  loggerName : Bytes
  message : Bytes
  /-- nanoseconds since the epoch -/
  timestamp : ℤ
  threadId : ThreadId
  location : Option SourceLocation
  fields : List (Field D)
  traceId : Option Bytes
  spanId : Option Bytes
  correlationId : Option Bytes

end Logspine
