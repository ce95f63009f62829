import Logspine.Http
import Logspine.StreamSink

/-!
# `otlp_http_sink.cpp`

The document and the request that the sink writes for an event. `make_otlp_json` nests
objects and arrays by literal texts, and the values of fields are JSON texts inside JSON
strings. The sink sends the request as `tcp_json_lines_sink` sends its line.
-/

namespace Logspine

variable {D : Type}

/-! ## The encoder -/

/-- `if (!first) output += ","; first = false;` and a text. -/
def ObjectOutput.addText (w : ObjectOutput) (text : Bytes) : ObjectOutput :=
  ⟨(if w.first then w.output else w.output ++ [','.byte]) ++ text, false⟩

/-- `add_string` -/
def ObjectOutput.addString (w : ObjectOutput) (key val : Bytes) : ObjectOutput :=
  w.addText (appendJsonEscaped val (ascii "\"" ++ key ++ ascii "\":\"") ++ ascii "\"")

/-- `add_string`, when there is a value -/
def ObjectOutput.addOptionalString (w : ObjectOutput) (key : Bytes) : Option Bytes → ObjectOutput
  | some val => w.addString key val
  | none => w

/-- The attribute of a field. -/
def otlpAttribute (fmt : DoubleFormat D) (entry : Field D) : Bytes :=
  appendJsonEscaped (entry.value.toJson fmt)
    (appendJsonEscaped entry.key (ascii "\x7b\"key\":\"") ++
      ascii "\",\"value\":\x7b\"stringValue\":\"") ++ ascii "\"\x7d\x7d"

/-- The attributes, when there are fields. -/
def ObjectOutput.addAttributes (fmt : DoubleFormat D) (w : ObjectOutput)
    (fields : List (Field D)) : ObjectOutput :=
  if fields.isEmpty then w
  else
    let w := w.addText (ascii "\"attributes\":[")
    let attributes := fields.foldl
      (fun (attributes : ObjectOutput) entry => attributes.addText (otlpAttribute fmt entry))
      ⟨w.output, true⟩
    ⟨attributes.output ++ ascii "]", false⟩

/-- `make_otlp_json` -/
def makeOtlpJson (fmt : DoubleFormat D) (event : LogEvent D) (serviceName : Bytes) : Bytes :=
  let output := ascii "\x7b\"resourceLogs\":[\x7b\"resource\":\x7b\"attributes\":["
  let output := output ++
    ascii "\x7b\"key\":\"service.name\",\"value\":\x7b\"stringValue\":\""
  let output := appendJsonEscaped serviceName output
  let output := output ++
    ascii "\"\x7d\x7d]\x7d,\"scopeLogs\":[\x7b\"scope\":\x7b\x7d,\"logRecords\":[\x7b"
  let w : ObjectOutput := ⟨output, true⟩
  let w := w.addText (ascii "\"timeUnixNano\":\"" ++ integer event.timestamp ++ ascii "\"")
  let w := w.addString (ascii "severityText") event.severity.toString
  let w := w.addText (ascii "\"severityNumber\":" ++ natural (event.severity.index * 4))
  let w := w.addOptionalString (ascii "traceId") event.traceId
  let w := w.addOptionalString (ascii "spanId") event.spanId
  let w := w.addText
    (appendJsonEscaped event.message (ascii "\"body\":\x7b\"stringValue\":\"") ++ ascii "\"\x7d")
  let w := w.addAttributes fmt event.fields
  w.output ++ ascii "\x7d]\x7d]\x7d]\x7d"

/-- `make_http_post` -/
def makeHttpPost (host path body : Bytes) : Bytes :=
  let req := ascii "POST " ++ path ++ ascii " HTTP/1.1\r\n"
  let req := req ++ (ascii "Host: " ++ host ++ ascii "\r\n")
  let req := req ++ ascii "Content-Type: application/json\r\n"
  let req := req ++ (ascii "Content-Length: " ++ natural body.length ++ ascii "\r\n")
  let req := req ++ ascii "Connection: keep-alive\r\n"
  let req := req ++ ascii "\r\n"
  req ++ body

/-! ## The document -/

/-- An OTLP value that holds a string. -/
def stringValue (value : Bytes) : Json := .object [(ascii "stringValue", .string value)]

/-- An attribute with a string value. -/
def stringAttribute (key value : Bytes) : Json :=
  .object [(ascii "key", .string key), (ascii "value", stringValue value)]

/-- The members of the log record, in order. -/
def LogEvent.otlpMembers (fmt : DoubleFormat D) (event : LogEvent D) : List (Bytes × Json) :=
  [(ascii "timeUnixNano", .string (integer event.timestamp)),
    (ascii "severityText", .string event.severity.toString),
    (ascii "severityNumber", .number (natural (event.severity.index * 4)))] ++
  optionalMember (ascii "traceId") event.traceId ++
  optionalMember (ascii "spanId") event.spanId ++
  [(ascii "body", stringValue event.message)] ++
  if event.fields.isEmpty then []
  else [(ascii "attributes", .array (event.fields.map fun entry =>
    stringAttribute entry.key (entry.value.toJson fmt)))]

/-- The document: one resource with the service name, one scope, one log record. -/
def LogEvent.otlpDocument (fmt : DoubleFormat D) (event : LogEvent D) (serviceName : Bytes) :
    Json :=
  .object [(ascii "resourceLogs", .array [.object [
    (ascii "resource", .object [
      (ascii "attributes", .array [stringAttribute (ascii "service.name") serviceName])]),
    (ascii "scopeLogs", .array [.object [
      (ascii "scope", .object []),
      (ascii "logRecords", .array [.object (event.otlpMembers fmt)])]])]])]

/-! ## The encoder writes the document -/

theorem derives_quoted (value : Bytes) : Json.Derives (.value (.string value)) (quoted value) :=
  .string (stringText_quoted value)

/-- The text of an OTLP value that holds a string. -/
def stringValueText (value : Bytes) : Bytes :=
  '{'.byte :: (Json.named (ascii "stringValue") ++ quoted value) ++ ['}'.byte]

theorem derives_stringValue (value : Bytes) :
    Json.Derives (.value (stringValue value)) (stringValueText value) := by
  have hmember : Json.MemberText (ascii "stringValue", .string value) _ :=
    .named (derives_quoted value) (by decide)
  exact hmember.derives.braces

/-- The text of an attribute with a string value. -/
def stringAttributeText (key value : Bytes) : Bytes :=
  '{'.byte :: (Json.named (ascii "key") ++ quoted key ++
    ','.byte :: (Json.named (ascii "value") ++ stringValueText value)) ++ ['}'.byte]

theorem derives_stringAttribute (key value : Bytes) :
    Json.Derives (.value (stringAttribute key value)) (stringAttributeText key value) := by
  have hkey : Json.MemberText (ascii "key", .string key) _ :=
    .named (derives_quoted key) (by decide)
  have hvalue : Json.MemberText (ascii "value", stringValue value) _ :=
    .named (derives_stringValue value) (by decide)
  exact (hkey.derives.membersConcat hvalue).braces

theorem otlpAttribute_eq (fmt : DoubleFormat D) (entry : Field D) :
    otlpAttribute fmt entry = stringAttributeText entry.key (entry.value.toJson fmt) := by
  have hopen : ascii "\x7b\"key\":\"" =
      '{'.byte :: (Json.named (ascii "key") ++ ['"'.byte]) := by decide
  have hnext : ascii "\",\"value\":\x7b\"stringValue\":\"" =
      '"'.byte :: ','.byte :: (Json.named (ascii "value") ++
        '{'.byte :: (Json.named (ascii "stringValue") ++ ['"'.byte])) := by decide
  have hclose : ascii "\"\x7d\x7d" = ['"'.byte, '}'.byte, '}'.byte] := by decide
  rw [otlpAttribute, appendJsonEscaped_eq, appendJsonEscaped_eq, hopen, hnext, hclose,
    stringAttributeText, stringValueText]
  simp only [quoted, List.append_assoc, List.cons_append, List.nil_append]

namespace ObjectOutput

variable {start : Bytes} {ms : List (Bytes × Json)} {w : ObjectOutput}

/-- The elements `vs` of an array that begins behind `start` have been written. -/
inductive Lists (start : Bytes) : List Json → ObjectOutput → Prop where
  | nothing : Lists start [] ⟨start ++ ['['.byte], true⟩
  | elements {vs : List Json} {text : Bytes} (h : Json.Derives (.elements vs) text) :
    Lists start vs ⟨start ++ '['.byte :: text, false⟩

theorem Lists.addText {vs : List Json} (h : w.Lists start vs) {v : Json} {text : Bytes}
    (hv : Json.Derives (.value v) text) : (w.addText text).Lists start (vs ++ [v]) := by
  rw [ObjectOutput.addText]
  cases h with
  | nothing =>
    have hlists : Lists start _ _ := .elements hv.elements
    rw [if_pos rfl]
    simpa only [List.append_assoc, List.cons_append, List.nil_append] using hlists
  | elements h =>
    have hlists : Lists start _ _ := .elements (h.elementsConcat hv)
    rw [if_neg Bool.false_ne_true]
    simpa only [List.append_assoc, List.cons_append, List.nil_append] using hlists

/-- The closing bracket makes an array of the elements. -/
theorem Lists.close {vs : List Json} (h : w.Lists start vs) :
    ∃ text, w.output ++ [']'.byte] = start ++ text ∧ Json.Derives (.value (.array vs)) text := by
  cases h with
  | nothing => exact ⟨['['.byte, ']'.byte], List.append_assoc .., .emptyArray Json.ws_nil⟩
  | elements h => exact ⟨_, List.append_assoc .., h.brackets⟩

theorem Lists.foldl_addText {A : Type} {f : A → Json} {text : A → Bytes}
    (htext : ∀ x, Json.Derives (.value (f x)) (text x)) (xs : List A) {vs : List Json}
    (h : w.Lists start vs) : (xs.foldl (fun (w : ObjectOutput) x => w.addText (text x)) w).Lists
      start (vs ++ xs.map f) := by
  induction xs generalizing vs w with
  | nil =>
    rw [List.map_nil, List.append_nil]
    exact h
  | cons x xs ih =>
    have hrest := ih (h.addText (htext x))
    rwa [List.append_assoc] at hrest

theorem Writes.addText (h : w.Writes start ms) {m : Bytes × Json} {text : Bytes}
    (hm : Json.MemberText m text) : (w.addText text).Writes start (ms ++ [m]) := h.append hm

theorem Writes.addString (h : w.Writes start ms) (key val : Bytes)
    (hkey : key.all Json.isPlain = true) :
    (w.addString key val).Writes start (ms ++ [(key, .string val)]) := by
  have hopen : ascii "\":\"" = ['"'.byte, ':'.byte, '"'.byte] := by decide
  have hquote : ascii "\"" = ['"'.byte] := by decide
  have hwrites := h.append (.named (derives_quoted val) hkey)
  rw [ObjectOutput.addString, ObjectOutput.addText, appendJsonEscaped_eq, hopen, hquote]
  simpa only [Json.named, quoted, List.append_assoc, List.cons_append, List.nil_append]
    using hwrites

theorem Writes.addOptionalString (h : w.Writes start ms) (key : Bytes) (val : Option Bytes)
    (hkey : key.all Json.isPlain = true) :
    (w.addOptionalString key val).Writes start (ms ++ optionalMember key val) := by
  cases val with
  | none =>
    rw [optionalMember, Option.toList_none, List.map_nil, List.append_nil]
    exact h
  | some val => exact h.addString key val hkey

theorem Writes.addAttributes (h : w.Writes start ms) (fmt : DoubleFormat D)
    (fields : List (Field D)) : (w.addAttributes fmt fields).Writes start
      (ms ++ if fields.isEmpty then []
        else [(ascii "attributes", .array (fields.map fun entry =>
          stringAttribute entry.key (entry.value.toJson fmt)))]) := by
  rw [ObjectOutput.addAttributes]
  split
  case isTrue =>
    rw [List.append_nil]
    exact h
  case isFalse =>
    have hopen : ascii "\"attributes\":[" =
        Json.named (ascii "attributes") ++ ['['.byte] := by decide
    have hclose : ascii "]" = [']'.byte] := by decide
    have hattribute : ∀ entry : Field D, Json.Derives
        (.value (stringAttribute entry.key (entry.value.toJson fmt)))
        (otlpAttribute fmt entry) := by
      intro entry
      rw [otlpAttribute_eq]
      exact derives_stringAttribute entry.key (entry.value.toJson fmt)
    have hstart : Lists (w.addText (Json.named (ascii "attributes"))).output [] _ := .nothing
    obtain ⟨text, heq, harray⟩ := (hstart.foldl_addText hattribute fields).close
    have hmember : Json.MemberText (ascii "attributes", .array _) _ :=
      .named harray (by decide)
    have hwrites := h.append hmember
    dsimp only
    rw [hclose, hopen, ObjectOutput.addText, ← List.append_assoc]
    rw [ObjectOutput.addText] at heq
    dsimp only at heq ⊢
    rw [heq, List.append_assoc]
    exact hwrites

end ObjectOutput

theorem isPlain_of_isDigit {b : UInt8} (h : isDigit b = true) : Json.isPlain b = true := by
  have hne : ∀ c : UInt8, isDigit c = false → b ≠ c := by
    rintro c hc rfl
    rw [h] at hc
    cases hc
  rw [Json.isPlain, Bool.and_eq_true, Bool.and_eq_true, decide_eq_true_eq, bne_iff_ne, bne_iff_ne]
  exact ⟨⟨le_of_isDigit h, hne _ (by decide)⟩, hne _ (by decide)⟩

theorem isPlain_natural (n : ℕ) : (natural n).all Json.isPlain = true :=
  List.all_eq_true.mpr fun _ hb => isPlain_of_isDigit (isDigit_of_mem_natural hb)

theorem isPlain_integer (n : ℤ) : (integer n).all Json.isPlain = true := by
  cases n with
  | ofNat n => exact isPlain_natural n
  | negSucc n =>
    rw [integer, List.all_cons, isPlain_natural]
    rfl

/-- The log record that is written behind `start`. -/
theorem writes_otlpMembers (fmt : DoubleFormat D) (event : LogEvent D) (start : Bytes) :
    let w : ObjectOutput := ⟨start ++ ['{'.byte], true⟩
    let w := w.addText (ascii "\"timeUnixNano\":\"" ++ integer event.timestamp ++ ascii "\"")
    let w := w.addString (ascii "severityText") event.severity.toString
    let w := w.addText (ascii "\"severityNumber\":" ++ natural (event.severity.index * 4))
    let w := w.addOptionalString (ascii "traceId") event.traceId
    let w := w.addOptionalString (ascii "spanId") event.spanId
    let w := w.addText
      (appendJsonEscaped event.message (ascii "\"body\":\x7b\"stringValue\":\"") ++
        ascii "\"\x7d")
    (w.addAttributes fmt event.fields).Writes start (event.otlpMembers fmt) := by
  have htime : Json.MemberText (ascii "timeUnixNano", .string (integer event.timestamp))
      (ascii "\"timeUnixNano\":\"" ++ integer event.timestamp ++ ascii "\"") := by
    have hopen : ascii "\"timeUnixNano\":\"" =
        Json.named (ascii "timeUnixNano") ++ ['"'.byte] := by decide
    have hquote : ascii "\"" = ['"'.byte] := by decide
    have hmember : Json.MemberText (ascii "timeUnixNano", .string (integer event.timestamp)) _ :=
      .named (.string (.plain (isPlain_integer event.timestamp))) (by decide)
    rw [hopen, hquote]
    simpa only [List.append_assoc, List.cons_append, List.nil_append] using hmember
  have hnumber : Json.MemberText
      (ascii "severityNumber", .number (natural (event.severity.index * 4)))
      (ascii "\"severityNumber\":" ++ natural (event.severity.index * 4)) := by
    have hopen : ascii "\"severityNumber\":" = Json.named (ascii "severityNumber") := by decide
    rw [hopen]
    exact .named (.number (Json.isNumber_natural _)) (by decide)
  have hbody : Json.MemberText (ascii "body", stringValue event.message)
      (appendJsonEscaped event.message (ascii "\"body\":\x7b\"stringValue\":\"") ++
        ascii "\"\x7d") := by
    have hopen : ascii "\"body\":\x7b\"stringValue\":\"" = Json.named (ascii "body") ++
        '{'.byte :: (Json.named (ascii "stringValue") ++ ['"'.byte]) := by decide
    have hclose : ascii "\"\x7d" = ['"'.byte, '}'.byte] := by decide
    have hmember : Json.MemberText (ascii "body", stringValue event.message) _ :=
      .named (derives_stringValue event.message) (by decide)
    rw [appendJsonEscaped_eq, hopen, hclose]
    simpa only [stringValueText, quoted, List.append_assoc, List.cons_append, List.nil_append]
      using hmember
  have hstart : ObjectOutput.Writes start [] ⟨start ++ ['{'.byte], true⟩ := .nothing
  have hseverity := ((hstart.addText htime).addString (ascii "severityText")
    event.severity.toString (by decide)).addText hnumber
  have hoptional := (hseverity.addOptionalString (ascii "traceId") event.traceId
    (by decide)).addOptionalString (ascii "spanId") event.spanId (by decide)
  exact (hoptional.addText hbody).addAttributes fmt event.fields

/-- The document up to its log record. -/
def otlpPrefix (serviceName : Bytes) : Bytes :=
  '{'.byte :: (Json.named (ascii "resourceLogs") ++ '['.byte :: '{'.byte ::
    (Json.named (ascii "resource") ++ '{'.byte :: (Json.named (ascii "attributes") ++
      '['.byte :: stringAttributeText (ascii "service.name") serviceName ++ [']'.byte]) ++
        ['}'.byte] ++ ','.byte :: (Json.named (ascii "scopeLogs") ++ '['.byte :: '{'.byte ::
        (Json.named (ascii "scope") ++ '{'.byte :: '}'.byte :: ','.byte ::
          (Json.named (ascii "logRecords") ++ ['['.byte])))))

/-- The literals of the source, cut where objects, arrays and members end and begin. -/
theorem otlpPrefix_eq (serviceName : Bytes) :
    appendJsonEscaped serviceName
      (ascii "\x7b\"resourceLogs\":[\x7b\"resource\":\x7b\"attributes\":[" ++
        ascii "\x7b\"key\":\"service.name\",\"value\":\x7b\"stringValue\":\"") ++
      ascii "\"\x7d\x7d]\x7d,\"scopeLogs\":[\x7b\"scope\":\x7b\x7d,\"logRecords\":[\x7b" =
    otlpPrefix serviceName ++ ['{'.byte] := by
  have hopen : ascii "\x7b\"resourceLogs\":[\x7b\"resource\":\x7b\"attributes\":[" =
      '{'.byte :: (Json.named (ascii "resourceLogs") ++ '['.byte :: '{'.byte ::
        (Json.named (ascii "resource") ++ '{'.byte ::
          (Json.named (ascii "attributes") ++ ['['.byte]))) := by decide
  have hservice : ascii "\x7b\"key\":\"service.name\",\"value\":\x7b\"stringValue\":\"" =
      '{'.byte :: (Json.named (ascii "key") ++ quoted (ascii "service.name") ++ ','.byte ::
        (Json.named (ascii "value") ++ '{'.byte ::
          (Json.named (ascii "stringValue") ++ ['"'.byte]))) := by decide
  have hlogs :
      ascii "\"\x7d\x7d]\x7d,\"scopeLogs\":[\x7b\"scope\":\x7b\x7d,\"logRecords\":[\x7b" =
        '"'.byte :: '}'.byte :: '}'.byte :: ']'.byte :: '}'.byte :: ','.byte ::
          (Json.named (ascii "scopeLogs") ++ '['.byte :: '{'.byte ::
            (Json.named (ascii "scope") ++ '{'.byte :: '}'.byte :: ','.byte ::
              (Json.named (ascii "logRecords") ++ ['['.byte, '{'.byte]))) := by decide
  rw [appendJsonEscaped_eq, hopen, hservice, hlogs, otlpPrefix, stringAttributeText,
    stringValueText]
  simp only [quoted, List.append_assoc, List.cons_append, List.nil_append]

/-- `make_otlp_json` writes the document. -/
theorem makeOtlpJson_derives (fmt : DoubleFormat D) (event : LogEvent D) (serviceName : Bytes) :
    Json.Derives (.value (event.otlpDocument fmt serviceName))
      (makeOtlpJson fmt event serviceName) := by
  have hattributes : Json.MemberText (ascii "attributes", .array [_]) _ :=
    .named (derives_stringAttribute (ascii "service.name") serviceName).elements.brackets
      (by decide)
  have hresource : Json.MemberText (ascii "resource", .object [_]) _ :=
    .named hattributes.derives.braces (by decide)
  have hscope : Json.MemberText (ascii "scope", .object []) _ :=
    .named (.emptyObject Json.ws_nil) (by decide)
  obtain ⟨record, heq, hrecord⟩ :=
    (writes_otlpMembers fmt event (otlpPrefix serviceName)).close
  have hlogRecords : Json.MemberText (ascii "logRecords", .array [_]) _ :=
    .named hrecord.elements.brackets (by decide)
  have hscopeLogs : Json.MemberText (ascii "scopeLogs", .array [_]) _ :=
    .named (hscope.derives.membersConcat hlogRecords).braces.elements.brackets (by decide)
  have hresourceLogs : Json.MemberText (ascii "resourceLogs", .array [_]) _ :=
    .named (hresource.derives.membersConcat hscopeLogs).braces.elements.brackets (by decide)
  have hdocument := hresourceLogs.derives.braces
  have hclose : ascii "\x7d]\x7d]\x7d]\x7d" = ['}'.byte] ++
      [']'.byte, '}'.byte, ']'.byte, '}'.byte, ']'.byte, '}'.byte] := by decide
  rw [makeOtlpJson, otlpPrefix_eq, hclose, ← List.append_assoc, heq, otlpPrefix,
    LogEvent.otlpDocument]
  simpa only [List.append_assoc, List.cons_append, List.nil_append] using hdocument

/-- **`make_otlp_json` is undone by parsing**, and the string of each attribute by parsing
once more. -/
theorem parse_makeOtlpJson {fmt : DoubleFormat D} (hfmt : fmt.WritesNumbers) (event : LogEvent D)
    (serviceName : Bytes) :
    Json.parse (makeOtlpJson fmt event serviceName) = some (event.otlpDocument fmt serviceName) ∧
      ∀ entry ∈ event.fields, Json.parse (entry.value.toJson fmt) = some (entry.value.json fmt) :=
  ⟨(makeOtlpJson_derives fmt event serviceName).parse,
    fun entry _ => (entry.value.derives hfmt).parse⟩

theorem parse_makeOtlpJson_quotesEvent :
    Json.parse (makeOtlpJson halfOrNan quotesEvent (ascii "\"\x7d]")) =
        some (quotesEvent.otlpDocument halfOrNan (ascii "\"\x7d]")) ∧
      ∀ entry ∈ quotesEvent.fields,
        Json.parse (entry.value.toJson halfOrNan) = some (entry.value.json halfOrNan) :=
  parse_makeOtlpJson halfOrNan_writesNumbers quotesEvent (ascii "\"\x7d]")

/-! ## Requests -/

/-- The request as a header block and its body. -/
theorem makeHttpPost_eq (host path body : Bytes) : makeHttpPost host path body =
    (ascii "POST " ++ path ++ ascii " HTTP/1.1") ++
      [Http.headerLine (ascii "Host") host,
        Http.headerLine (ascii "Content-Type") (ascii "application/json"),
        Http.headerLine (ascii "Content-Length") (natural body.length),
        Http.headerLine (ascii "Connection") (ascii "keep-alive")].flatMap (Http.crlf ++ ·) ++
      (Http.crlf ++ (Http.crlf ++ body)) := by
  have hversion : ascii " HTTP/1.1\r\n" = ascii " HTTP/1.1" ++ Http.crlf := by decide
  have hhost : ascii "Host: " = ascii "Host" ++ [':'.byte, ' '.byte] := by decide
  have hend : ascii "\r\n" = Http.crlf := by decide
  have htype : ascii "Content-Type: application/json\r\n" =
      ascii "Content-Type" ++ ':'.byte :: ' '.byte :: ascii "application/json" ++ Http.crlf := by
    decide
  have hlength : ascii "Content-Length: " = ascii "Content-Length" ++ [':'.byte, ' '.byte] := by
    decide
  have hconnection : ascii "Connection: keep-alive\r\n" =
      ascii "Connection" ++ ':'.byte :: ' '.byte :: ascii "keep-alive" ++ Http.crlf := by decide
  rw [makeHttpPost, hversion, hhost, hend, htype, hlength, hconnection]
  simp only [Http.headerLine, List.flatMap_cons, List.flatMap_nil, List.append_assoc,
    List.cons_append, List.nil_append]

/-- **Requests on a kept-alive connection are read one after another**, whatever their bodies
hold: host and path need only be free of CR. -/
theorem readRequests_makeHttpPost {host path : Bytes} (hhost : Http.cr ∉ host)
    (hpath : Http.cr ∉ path) (bodies : List Bytes) :
    Http.readRequests (bodies.flatMap (makeHttpPost host path)) = some bodies := by
  refine Http.readRequests_flatMap (fun body rest => ?_) bodies
  have hfirst : Http.cr ∉ ascii "POST " ++ path ++ ascii " HTTP/1.1" :=
    List.not_mem_append (List.not_mem_append (by decide) hpath) (by decide)
  have hdigits : Http.cr ∉ natural body.length := by
    intro hmem
    cases isDigit_of_mem_natural hmem
  rw [makeHttpPost_eq, List.append_assoc _ (Http.crlf ++ _) rest, List.append_assoc Http.crlf,
    List.append_assoc Http.crlf]
  refine Http.readRequest_append hfirst ?_ (Http.contentLength_eq ?_) rest
  · simp only [List.forall_mem_cons]
    refine ⟨⟨Http.headerLine_ne_nil _ _, Http.notMem_headerLine (by decide) hhost⟩,
      ⟨Http.headerLine_ne_nil _ _, Http.notMem_headerLine (by decide) (by decide)⟩,
      ⟨Http.headerLine_ne_nil _ _, Http.notMem_headerLine (by decide) hdigits⟩,
      ⟨Http.headerLine_ne_nil _ _, Http.notMem_headerLine (by decide) (by decide)⟩, nofun⟩
  · -- of the four names only one is `content-length`
    rw [List.filter_cons, Http.isContentLength_headerLine (by decide), List.filter_cons,
      Http.isContentLength_headerLine (by decide), List.filter_cons,
      Http.isContentLength_headerLine (by decide), List.filter_cons,
      Http.isContentLength_headerLine (by decide)]
    rfl

theorem readRequests_makeHttpPost_nested :
    Http.readRequests
        ([ascii "\r\n\r\n", [],
            makeHttpPost (ascii "a") (ascii "/") (ascii "Content-Length: 9")].flatMap
          (makeHttpPost (ascii "127.0.0.1") (ascii "/v1/logs"))) =
      some [ascii "\r\n\r\n", [],
        makeHttpPost (ascii "a") (ascii "/") (ascii "Content-Length: 9")] :=
  readRequests_makeHttpPost (by decide) (by decide) _

/-! ## The sink -/

/-- `otlp_http_sink_options` -/
structure OtlpHttpSinkOptions where
  host : Bytes
  port : BitVec 16
  path : Bytes
  serviceName : Bytes
  lazyConnect : Bool
  reconnectOnFailure : Bool
  maxWriteRetries : BitVec 32

namespace OtlpHttpSink

open StreamSink

/-- The constructor, with what `connect_tcp_socket` returns or throws: the sink, or the
exception. -/
def construct (options : OtlpHttpSinkOptions) (connected : Except ConnectFailure Unit) :
    Except Bytes (State (LogEvent D)) :=
  if options.port = 0 then .error (ascii "otlp_http_sink port must be greater than zero")
  else StreamSink.construct options.lazyConnect connected

/-- The request that `write` sends for an event, `none` when the formatter throws. -/
def httpRequest (fmt : DoubleFormat D) (options : OtlpHttpSinkOptions) (sink : SinkBase D)
    (event : LogEvent D) : Option Bytes :=
  let payload := match sink.formatter with
    | some formatter => formatter event
    | none => some (makeOtlpJson fmt event options.serviceName)
  payload.map (makeHttpPost options.host options.path)

/-- What `write` reads of the sink and its options. -/
def config (fmt : DoubleFormat D) (options : OtlpHttpSinkOptions) (sink : SinkBase D) :
    Config (LogEvent D) where
  reconnectOnFailure := options.reconnectOnFailure
  maxWriteRetries := options.maxWriteRetries.toNat
  shouldLog := sink.shouldLog
  payload := httpRequest fmt options sink

/-- The sink and the threads that call `write`. -/
def machine (fmt : DoubleFormat D) (options : OtlpHttpSinkOptions) (sink : SinkBase D) :
    Machine (State (LogEvent D)) (Action (LogEvent D)) :=
  StreamSink.machine (config fmt options sink)

theorem construct_streamSink {options : OtlpHttpSinkOptions}
    {connected : Except ConnectFailure Unit} {s₀ : State (LogEvent D)}
    (h₀ : construct options connected = .ok s₀) :
    StreamSink.construct options.lazyConnect connected = .ok s₀ := by
  rw [construct] at h₀
  split at h₀
  · cases h₀
  · exact h₀

end OtlpHttpSink

end Logspine
