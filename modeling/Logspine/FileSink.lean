import Logspine.FileSystem
import Logspine.Sink
import Logspine.ZlibHelper

/-!
# `file_sink`

`open_file`, `rotate_if_needed` and `write`, over a file system. One call of
`rotate_if_needed` performs each of its operations at most once for each value of the
loop index, so `Outcomes` holds an outcome for each operation and index. Text that the
stream has buffered counts as text of the file.
-/

namespace Logspine

variable {D : Type}

/-- `file_sink_options` -/
structure FileSinkOptions where
  path : Bytes
  format : SinkFormat
  append : Bool
  /-- `0` means no rotation -/
  maxFileSize : ℕ
  maxFiles : ℕ
  compressRotated : Bool

/-- What the operations of one `rotate_if_needed` do. -/
structure Outcomes where
  /-- what `tellp()` gives at the end of a file of this size, `none` for a negative number -/
  tellp : ℕ → Option ℕ
  /-- `remove(target, ec)` -/
  removes : Bool
  /-- `exists(source, ec)`, at a loop index -/
  finds : ℕ → Bool
  /-- `rename(source, target, ec)`, at a loop index -/
  renames : ℕ → Bool
  /-- `file_size(source, read_ec)` -/
  sizes : Bool
  /-- how many of the bytes asked for `in.read` delivers -/
  reads : ℕ → ℕ
  /-- whether `out` opens -/
  opensTarget : Bool
  /-- how many of the bytes given to `out.write` reach the file -/
  writes : ℕ → ℕ
  /-- whether `open_file` succeeds -/
  reopens : Bool

/-- Every operation succeeds, and `tellp()` gives the size of the file. -/
def Outcomes.success : Outcomes where
  tellp := some
  removes := true
  finds := fun _ => true
  renames := fun _ => true
  sizes := true
  reads := id
  opensTarget := true
  writes := id
  reopens := true

/-- A `file_sink` and the file system. -/
structure FileSink where
  options : FileSinkOptions
  /-- `stream_.is_open()`, and no error has been flagged -/
  isOpen : Bool
  files : Files

/-- `get_rotated_path`; `zlib` is there when `LOGSPINE_WITH_ZLIB` is defined -/
def FileSinkOptions.rotatedPath (options : FileSinkOptions) (zlib : Option Zlib) (index : ℕ) :
    Bytes :=
  options.path ++ ascii "." ++ natural index ++
    if zlib.isSome && options.compressRotated then ascii ".gz" else []

namespace FileSink

/-- `open_file`, and whether it returns. -/
def openFile (success : Bool) (s : FileSink) : FileSink × Bool :=
  if success then
    ({ s with
        isOpen := true
        files := if s.options.append then s.files.append s.options.path []
          else s.files.truncate s.options.path }, true)
  else ({ s with isOpen := false }, false)

/-- The constructor, when it can open the file. -/
def construct (options : FileSinkOptions) (files : Files) : FileSink :=
  (openFile true { options := options, isOpen := false, files := files }).1

/-- The rotation of the active file, for `i = 1`. -/
def rotateActive (zlib : Option Zlib) (options : FileSinkOptions) (o : Outcomes)
    (files : Files) : Files :=
  let target := options.rotatedPath zlib 1
  let source := options.path
  if files.contains (o.finds 1) source then
    match zlib, options.compressRotated with
    | some zlib, true =>
      if o.sizes then
        let text := (files source).getD []
        match gzipCompress zlib (Files.read (o.reads text.length) text) [] with
        | (compressed, true) =>
          files.overwrite o.opensTarget (o.writes compressed.length) target compressed
        | (_, false) => files.rename (o.renames 1) source target
      else files.rename (o.renames 1) source target
    | _, _ => files.rename (o.renames 1) source target
  else files

/-- The rotation of `path.(i - 1)`, for `i > 1`. -/
def rotateOlder (zlib : Option Zlib) (options : FileSinkOptions) (o : Outcomes) (i : ℕ)
    (files : Files) : Files :=
  let source := options.rotatedPath zlib (i - 1)
  if files.contains (o.finds i) source then
    files.rename (o.renames i) source (options.rotatedPath zlib i)
  else files

/-- One round of the loop of `rotate_if_needed`. -/
def rotateStep (zlib : Option Zlib) (options : FileSinkOptions) (o : Outcomes) (i : ℕ)
    (files : Files) : Files :=
  let files := if i = options.maxFiles then
    files.remove o.removes (options.rotatedPath zlib i) else files
  if 1 < i then rotateOlder zlib options o i files else rotateActive zlib options o files

/-- `for (i = max_files; i > 0; --i)`, from an index on -/
def rotateLoop (zlib : Option Zlib) (options : FileSinkOptions) (o : Outcomes) :
    ℕ → Files → Files
  | 0, files => files
  | i + 1, files => rotateLoop zlib options o i (rotateStep zlib options o (i + 1) files)

/-- `stream_.tellp()` -/
def tellp (o : Outcomes) (s : FileSink) : Option ℕ :=
  if s.isOpen then o.tellp ((s.files s.options.path).getD []).length else none

/-- Whether `rotate_if_needed` rotates. -/
def mustRotate (o : Outcomes) (s : FileSink) : Bool :=
  if s.options.maxFileSize = 0 then false
  else match s.tellp o with
    | none => false
    | some currentSize => s.options.maxFileSize ≤ currentSize

/-- `rotate_if_needed`, and whether it returns. -/
def rotateIfNeeded (zlib : Option Zlib) (o : Outcomes) (s : FileSink) : FileSink × Bool :=
  if s.mustRotate o then
    openFile o.reopens
      { s with
        options := { s.options with append := false }
        files := rotateLoop zlib s.options o s.options.maxFiles s.files }
  else (s, true)

/-- What `write` streams for an event; `none` when the formatter throws. -/
def record (fmt : DoubleFormat D) (sink : SinkBase D) (format : SinkFormat) (event : LogEvent D) :
    Option Bytes :=
  match sink.formatter with
  | some formatter => formatter event
  | none =>
    match format with
    | .jsonLines => some (toJsonLinesRecord fmt event)
    | .human => some (formatHumanReadable fmt event ++ [newline])

/-- `stream_ << text`, and whether it returns. -/
def insert (text : Bytes) (s : FileSink) : FileSink × Bool :=
  if s.isOpen then ({ s with files := s.files.append s.options.path text }, true) else (s, false)

/-- `write`, and whether it returns. -/
def write (zlib : Option Zlib) (fmt : DoubleFormat D) (sink : SinkBase D) (o : Outcomes)
    (event : LogEvent D) (s : FileSink) : FileSink × Bool :=
  if sink.shouldLog event then
    match s.rotateIfNeeded zlib o with
    | (s, true) =>
      match record fmt sink s.options.format event with
      | some text => s.insert text
      | none => (s, false)
    | (s, false) => (s, false)
  else (s, true)

/-- Write events, while every operation succeeds. -/
def writes (zlib : Option Zlib) (fmt : DoubleFormat D) (sink : SinkBase D) (s : FileSink)
    (events : List (LogEvent D)) : FileSink :=
  events.foldl (fun s event => (s.write zlib fmt sink .success event).1) s

end FileSink

end Logspine
