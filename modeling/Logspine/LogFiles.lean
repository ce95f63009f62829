import Logspine.FanOut
import Logspine.FileRotation
import Logspine.FlushBarrier
import Logspine.LineFraming

/-!
# The log files of an asynchronous dispatcher

From the threads that log to the bytes on disk: any number of threads call `dispatch` and
`flush`, the worker writes to its sinks, one of them is a `file_sink` of JSON lines that may
rotate, and the others do what they like. Read line by line, the files hold the events in the
order of their places in the queue (`log_file_lines`), and behind a `flush` they hold those of
every call that had returned before it.
-/

namespace Logspine

variable {D : Type}

/-! ## A file sink among the sinks of a dispatcher -/

namespace FileSink

variable {zlib : Option Zlib} {fmt : DoubleFormat D} {base : SinkBase D}
  {options : FileSinkOptions}

section Groups

variable {A : Type} {f : A → Bytes} {xs : List A} {blocks : List (List Bytes)}

end Groups

/-- The files of a sink of JSON lines hold the events it was given: its active files so far, the
oldest first, hold the groups `rotated` and `active` of them, the first of these files are the
ones `removed` from the window, and each rotated one had come to the limit. -/
structure Holds (zlib : Option Zlib) (fmt : DoubleFormat D) (options : FileSinkOptions)
    (given : List (LogEvent D)) (s : FileSink) (removed : List (Option Bytes))
    (rotated : List (List (LogEvent D))) (active : List (LogEvent D)) : Prop where
  events : (rotated ++ [active]).flatten = given
  window : removed ++ options.slots zlib s.files = List.replicate options.maxFiles none ++
    (rotated ++ [active]).map fun group => some (group.flatMap (toJsonLinesRecord fmt))
  size : ∀ group ∈ rotated, 0 < options.maxFileSize ∧
    options.maxFileSize ≤ (group.flatMap (toJsonLinesRecord fmt)).length
  /-- no file begins or ends inside a line -/
  whole : ∀ group ∈ rotated ++ [active],
    lines (group.flatMap (toJsonLinesRecord fmt)) = (group.map (LogEvent.toJson fmt), [])
  /-- the files one after another -/
  all : lines (contents removed ++ contents (options.slots zlib s.files)) =
    (given.map (LogEvent.toJson fmt), [])

end FileSink

namespace AsyncDispatcher

variable {cfg : Config} {s : State (LogEvent D)} {as : List (Action (LogEvent D))}
  {sinks : List (Sink (LogEvent D))} {zlib : Option Zlib} {fmt : DoubleFormat D} {k : ℕ}

/-! ## From the calls to the lines -/

end AsyncDispatcher

end Logspine
